import FfnNgfw.Route.Agent

/-!
# When the agent catches up with the kernel

With an open listener the messages still queued make up for what the device lacks. What
changes between a dump and the opening of the listener, while it is closed after an
error, or is still queued when it is closed, is never told, and nothing repairs it.
-/

namespace FfnNgfw.Route

open Mirror

variable {I J : Type} [DecidableEq I] [DecidableEq J] {portOf : Int → UInt8}

/-- The programmed entries are those of the kernel's routes and neighbours. -/
def Converged (portOf : Int → UInt8) (dev : Device) (kernel : Kernel I J) : Prop :=
  Mirrors (RouteMsg.entry portOf) dev.fib kernel.routes ∧ Mirrors (NeighMsg.entry portOf) dev.arp kernel.neighs

/-- Before its dump a change is of no concern; with an open listener its message must say
all of it; at other times it must not be seen at all. -/
def Change.Minded {I M K V : Type} [DecidableEq I] (entry : M → Option (K × V)) (gone : M → Option K) (dumped : Bool)
    (phase : Phase) (objects : Dict I M) (c : ObjectChange I M) : Prop :=
  if phase = .listening then Told entry gone objects c else dumped = true → Unseen entry objects c

def Minded (portOf : Int → UInt8) (w : World I J) : Step I J → Prop
  | .routes c => Change.Minded (RouteMsg.entry portOf) (RouteMsg.gone portOf) (w.phase ≠ .start) w.phase w.kernel.routes c
  | .neighs c =>
    Change.Minded (NeighMsg.entry portOf) (NeighMsg.gone portOf) (w.phase ≠ .start ∧ w.phase ≠ .routesDumped) w.phase
      w.kernel.neighs c
  | .dumpRoutes => w.phase = .start → Distinct (RouteMsg.entry portOf) w.kernel.routes
  | .dumpNeighs => w.phase = .routesDumped → Distinct (NeighMsg.entry portOf) w.kernel.neighs
  | .fail => w.phase = .listening → w.queue = []
  | .openListener => True
  | .process => True

def Careful (portOf : Int → UInt8) : World I J → List (Step I J) → Prop
  | _, [] => True
  | w, s :: steps => Minded portOf w s ∧ Careful portOf (step portOf w s) steps

theorem route_names (m : RouteMsg) (k : FibKey) (e : FibEntry) (shows : m.entry portOf = some (k, e)) :
    m.gone portOf = some k := by
  simp only [RouteMsg.entry, Option.map_eq_some_iff, Prod.mk.injEq] at shows
  obtain ⟨e', parsed, rfl, -⟩ := shows
  rw [RouteMsg.gone, parsed, Option.map_some]

theorem attrs_ip (attrs : List NdAttr) {e e' : ArpEntry} (same : e.ip = e'.ip) :
    (attrs.foldl ArpEntry.attr e).ip = (attrs.foldl ArpEntry.attr e').ip := by
  induction attrs generalizing e e' with
  | nil => exact same
  | cons a attrs ih =>
    rw [List.foldl_cons, List.foldl_cons]
    apply ih
    cases a with
    | dst ip => rfl
    | lladdr bytes =>
      simp only [ArpEntry.attr]
      split <;> exact same
    | other => exact same

theorem neigh_names (m : NeighMsg) (k : UInt32) (e : ArpEntry) (shows : m.entry portOf = some (k, e)) :
    m.gone portOf = some k := by
  have ip : (m.arp portOf true).ip = (m.arp portOf false).ip := attrs_ip m.attrs rfl
  simp only [NeighMsg.entry, Option.map_eq_some_iff, Prod.mk.injEq, NeighMsg.added] at shows
  obtain ⟨e', parsed, rfl, rfl⟩ := shows
  split at parsed
  · cases parsed
  · rename_i family
    split at parsed
    · cases parsed
    · split at parsed
      · cases parsed
      · rename_i address
        cases parsed
        rw [NeighMsg.gone, if_neg family, ← ip, if_neg address]

theorem handle_routes (dev : Device) (ns : List (Notice RouteMsg)) :
    (ns.map Msg.route).foldl (Device.handle portOf) dev =
      { dev with fib := ns.foldl (apply (RouteMsg.entry portOf) (RouteMsg.gone portOf)) dev.fib } := by
  induction ns generalizing dev with
  | nil => rfl
  | cons n ns ih =>
    rw [List.map_cons, List.foldl_cons, ih]
    rfl

theorem handle_neighs (dev : Device) (ns : List (Notice NeighMsg)) :
    (ns.map Msg.neigh).foldl (Device.handle portOf) dev =
      { dev with arp := ns.foldl (apply (NeighMsg.entry portOf) (NeighMsg.gone portOf)) dev.arp } := by
  induction ns generalizing dev with
  | nil => rfl
  | cons n ns ih =>
    rw [List.map_cons, List.foldl_cons, ih]
    rfl

/-! ### The invariant -/

/-- What the device holds, and what is still queued, phase by phase. -/
def Inv (portOf : Int → UInt8) (w : World I J) : Prop :=
  match w.phase with
  | .start => w.device = .empty ∧ w.queue = []
  | .routesDumped =>
    Mirrors (RouteMsg.entry portOf) w.device.fib w.kernel.routes ∧ w.device.arp = (fun _ => none) ∧ w.queue = []
  | .synced => Converged portOf w.device w.kernel ∧ w.queue = []
  | .listening => Converged portOf (w.queue.foldl (Device.handle portOf) w.device) w.kernel
  | .closed => Converged portOf w.device w.kernel ∧ w.queue = []

variable {w : World I J}

theorem inv_routes (inv : Inv portOf w) {c : ObjectChange I RouteMsg} (minded : Minded portOf w (.routes c)) :
    Inv portOf (step portOf w (.routes c)) := by
  obtain ⟨kernel, device, phase, queue⟩ := w
  cases phase with
  | start => exact inv
  | listening =>
    have told : Told (RouteMsg.entry portOf) (RouteMsg.gone portOf) kernel.routes c := minded
    obtain ⟨routes, neighs⟩ := inv
    have next := routes.change route_names told
    simp only [Inv, step, World.tell, if_true, List.foldl_append, handle_routes]
    exact ⟨next, neighs⟩
  | routesDumped =>
    have unseen : Unseen (RouteMsg.entry portOf) kernel.routes c := minded rfl
    obtain ⟨routes, empty, quiet⟩ := inv
    exact ⟨routes.unseen unseen, empty, quiet⟩
  | synced | closed =>
    have unseen : Unseen (RouteMsg.entry portOf) kernel.routes c := minded rfl
    obtain ⟨⟨routes, neighs⟩, quiet⟩ := inv
    exact ⟨⟨routes.unseen unseen, neighs⟩, quiet⟩

theorem inv_neighs (inv : Inv portOf w) {c : ObjectChange J NeighMsg} (minded : Minded portOf w (.neighs c)) :
    Inv portOf (step portOf w (.neighs c)) := by
  obtain ⟨kernel, device, phase, queue⟩ := w
  cases phase with
  | start => exact inv
  | routesDumped => exact inv
  | listening =>
    have told : Told (NeighMsg.entry portOf) (NeighMsg.gone portOf) kernel.neighs c := minded
    obtain ⟨routes, neighs⟩ := inv
    have next := neighs.change neigh_names told
    simp only [Inv, step, World.tell, if_true, List.foldl_append, handle_neighs]
    exact ⟨routes, next⟩
  | synced | closed =>
    have unseen : Unseen (NeighMsg.entry portOf) kernel.neighs c := minded rfl
    obtain ⟨⟨routes, neighs⟩, quiet⟩ := inv
    exact ⟨⟨routes, neighs.unseen unseen⟩, quiet⟩

theorem inv_dumpRoutes (inv : Inv portOf w) (minded : Minded portOf w .dumpRoutes) :
    Inv portOf (step portOf w .dumpRoutes) := by
  obtain ⟨kernel, device, phase, queue⟩ := w
  rw [step]
  split
  · rename_i start
    obtain rfl : phase = .start := start
    obtain ⟨rfl, rfl⟩ := inv
    have split : (kernel.routes.items.map fun r => Msg.route (.new r.2)) =
        (kernel.routes.items.map fun r => Notice.new r.2).map Msg.route := by
      rw [List.map_map]
      rfl
    simp only [Inv, split, handle_routes]
    exact ⟨mirrors_dump (minded rfl), rfl, trivial⟩
  · exact inv

theorem inv_dumpNeighs (inv : Inv portOf w) (minded : Minded portOf w .dumpNeighs) :
    Inv portOf (step portOf w .dumpNeighs) := by
  obtain ⟨kernel, ⟨fib, arp⟩, phase, queue⟩ := w
  rw [step]
  split
  · rename_i start
    obtain rfl : phase = .routesDumped := start
    obtain ⟨routes, empty, rfl⟩ := inv
    obtain rfl : arp = fun _ => none := empty
    have split : (kernel.neighs.items.map fun n => Msg.neigh (.new n.2)) =
        (kernel.neighs.items.map fun n => Notice.new n.2).map Msg.neigh := by
      rw [List.map_map]
      rfl
    simp only [Inv, split, handle_neighs]
    exact ⟨⟨routes, mirrors_dump (minded rfl)⟩, trivial⟩
  · exact inv

theorem inv_step (inv : Inv portOf w) {s : Step I J} (minded : Minded portOf w s) :
    Inv portOf (step portOf w s) := by
  cases s with
  | routes c => exact inv_routes inv minded
  | neighs c => exact inv_neighs inv minded
  | dumpRoutes => exact inv_dumpRoutes inv minded
  | dumpNeighs => exact inv_dumpNeighs inv minded
  | openListener =>
    obtain ⟨kernel, device, phase, queue⟩ := w
    rw [step]
    split
    · rename_i opens
      rcases opens with synced | closed
      · obtain rfl : phase = .synced := synced
        exact inv.1
      · obtain rfl : phase = .closed := closed
        exact inv.1
    · exact inv
  | process =>
    obtain ⟨kernel, device, phase, queue⟩ := w
    cases phase <;> cases queue <;> exact inv
  | fail =>
    obtain ⟨kernel, device, phase, queue⟩ := w
    rw [step]
    split
    · rename_i listening
      obtain rfl : phase = .listening := listening
      have none' : queue = [] := minded rfl
      subst none'
      exact ⟨inv, rfl⟩
    · exact inv

theorem inv_run (inv : Inv portOf w) {steps : List (Step I J)} (careful : Careful portOf w steps) :
    Inv portOf (run portOf w steps) := by
  induction steps generalizing w with
  | nil => exact inv
  | cons s steps ih => exact ih (inv_step inv careful.1) careful.2

theorem careful_before {before after : List (Step I J)} (careful : Careful portOf w (before ++ after)) :
    Careful portOf w before := by
  induction before generalizing w with
  | nil => trivial
  | cons s before ih => exact ⟨careful.1, ih careful.2⟩

/-- In a run that loses nothing, whenever the listener is open and its queue is empty the
device holds the kernel's routes and neighbours. -/
theorem agent_converges (portOf : Int → UInt8) (kernel : Kernel I J) (steps : List (Step I J))
    (careful : Careful portOf (.boot kernel) steps) (before after : List (Step I J)) (split : steps = before ++ after)
    (listening : (run portOf (.boot kernel) before).phase = .listening) (idle : (run portOf (.boot kernel) before).queue = []) :
    Converged portOf (run portOf (.boot kernel) before).device (run portOf (.boot kernel) before).kernel := by
  subst split
  have start : Inv portOf (World.boot kernel) := ⟨rfl, rfl⟩
  have inv := inv_run start (careful_before careful)
  rw [Inv, listening] at inv
  rwa [idle] at inv

def tenRoute : RouteMsg := ⟨afInet, rtnUnicast, 8, rtTableMain, [.table 254, .dst 0x0a000000, .gateway 0xc0a80001]⟩

def bareKernel : Kernel Nat Nat := ⟨∅, ∅⟩

def tenKernel : Kernel Nat Nat := ⟨AList.insert 1 tenRoute ∅, ∅⟩

/-- A route of the dump that gets another gateway once the listener is open. -/
theorem agent_converges_one_route :
    let moved := { tenRoute with attrs := [.table 254, .dst 0x0a000000, .gateway 0xc0a80002] }
    let steps : List (Step Nat Nat) := [.dumpRoutes, .dumpNeighs, .openListener, .routes (.set 1 moved), .process]
    let w := run (fun _ => 0xFF) (.boot tenKernel) steps
    Careful (fun _ => 0xFF) (.boot tenKernel) steps ∧ Converged (fun _ => 0xFF) w.device w.kernel := by
  intro moved steps w
  have only : ∀ i m, tenKernel.routes.lookup i = some m → i = 1 ∧ m = tenRoute := by
    intro i m found
    by_cases same : i = 1
    · subst same
      rw [tenKernel, AList.lookup_insert] at found
      exact ⟨rfl, (Option.some.inj found).symm⟩
    · rw [tenKernel, AList.lookup_insert_ne same] at found
      cases found
  have own : ∀ k, Own (RouteMsg.entry fun _ => 0xFF) tenKernel.routes 1 k := fun k i m v found _ => (only i m found).1
  have careful : Careful (fun _ => 0xFF) (.boot tenKernel) steps := by
    refine ⟨fun _ i m k v found _ => (only i m found).1 ▸ own k, fun _ i m k v found _ => ?_, trivial,
      ⟨fun k v _ => own k, fun old k v found shows => ?_⟩, trivial, trivial⟩
    · cases found
    · obtain ⟨-, rfl⟩ := only 1 old found
      cases shows
      exact ⟨_, rfl⟩
  exact ⟨careful, agent_converges (fun _ => 0xFF) tenKernel steps careful steps [] (List.append_nil steps).symm rfl rfl⟩

/-- A route that comes after the dump and before the listener is never programmed. -/
theorem route_missed :
    ¬ ∀ (portOf : Int → UInt8) (kernel : Kernel Nat Nat) (steps : List (Step Nat Nat)),
      let w := run portOf (.boot kernel) steps
      w.phase = .listening → w.queue = [] → Converged portOf w.device w.kernel := by
  intro all
  have converged := all (fun _ => 0xFF) bareKernel [.dumpRoutes, .dumpNeighs, .routes (.set 1 tenRoute), .openListener] rfl rfl
  obtain ⟨e, parsed⟩ : ∃ e, tenRoute.fib (fun _ => 0xFF) = some e := ⟨_, rfl⟩
  have programmed := (converged.1 e.key e).mpr ⟨1, tenRoute, rfl, by rw [RouteMsg.entry, parsed]; rfl⟩
  cases programmed

end FfnNgfw.Route
