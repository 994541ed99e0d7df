import FfnNgfw.Lib.Fallible
import FfnNgfw.Route.Iproute
import Mathlib.Data.List.Sort
import Mathlib.Data.NNRat.Defs
import Mathlib.Logic.Relation
import Mathlib.Tactic.Common

/-!
# Tracked static routes

A route that is tracked is in the kernel while its interface is fit for it and, where its path is
monitored, while the path is healthy. Health is recorded in a file under a digest of the whole route.
A tick applies the routes under the lock, probes outside it, and takes the lock again for each result.
-/

namespace FfnNgfw.Route.Tracking

/-! ### Settings -/

structure Monitor where
  enabled : Bool
  targets : List Address
  interval : Nat
  timeout : Nat
  failureCount : Nat
  recoveryCount : Nat
  failureCondition : FailureCondition
deriving DecidableEq

def isTarget (a : Address) : Bool := !a.six && a.value >>> 28 != 14 && a.value != 0 && a.value >>> 24 != 127

def withDefaults (value : Option RawMonitor) : Monitor :=
  let given := value.getD ⟨none, none, none, none, none, none, none⟩
  ⟨given.enabled.getD false, given.targets.getD [], given.interval.getD 5, given.timeout.getD 1, given.failureCount.getD 3,
    given.recoveryCount.getD 3, given.failureCondition.getD .all⟩

def checkRange (key : String) (value low high : Nat) : Except String Unit :=
  if low ≤ value ∧ value ≤ high then .ok () else .error (key ++ " is outside the supported range")

def checkTarget (destination : Prefix) (target : Address) : Except String Unit := do
  if !isTarget target then throw "This path monitor requires unicast IPv4 targets"
  if !target.inNetwork (destination.address, destination.length) then throw "Monitor target must be inside the route destination"

def validate (value : Option RawMonitor) (destination : Prefix) : Except String Monitor := do
  let result := withDefaults value
  checkRange "interval" result.interval 1 300
  checkRange "timeout" result.timeout 1 10
  checkRange "failure_count" result.failureCount 1 20
  checkRange "recovery_count" result.recoveryCount 1 20
  if result.interval < result.timeout then throw "Probe timeout must not exceed interval"
  if 4 < result.targets.length ∨ ¬ result.targets.Nodup then throw "Use up to four distinct monitoring targets"
  result.targets.forM (checkTarget destination)
  if result.enabled ∧ result.targets = [] then throw "Enabled path monitoring requires at least one target"
  return result

def StaticRoute.settings (route : StaticRoute) : Except String Monitor := validate route.monitor route.dst.value

/-- The configuration of the network; what does not concern the routes is a text. -/
structure Config where
  revision : Int
  routes : List StaticRoute
  rest : String
deriving DecidableEq

/-- What `ip address show` prints of an interface. -/
structure Link where
  flags : List String
  addrInfo : List (Address × Nat)

/-- The interfaces, and why the provider of the network module holds one back. -/
structure Links where
  show' : String → Option (List Link)
  routeLink : String → Option String

/-- The record of a route; what is missing in it is false or zero. -/
structure Health where
  healthy : Bool
  failures : Nat
  successes : Nat
  observed : ℚ
  targets : List Bool
  route : Option StaticRoute
  installed : Bool
  reason : String

def Health.empty : Health := ⟨false, 0, 0, 0, [], none, false, ""⟩

def failed (settings : Monitor) (results : List Bool) : Bool :=
  match settings.failureCondition with
  | .any => results.any (!·)
  | .all => results.all (!·)

def advance (previous : Health) (results : List Bool) (settings : Monitor) : Except String Health :=
  if results = [] then .error "Complete probe round required"
  else
    let fails := failed settings results
    let failures := if fails then previous.failures + 1 else 0
    let successes := if fails then 0 else previous.successes + 1
    let healthy := if settings.failureCount ≤ failures then false else previous.healthy
    .ok { Health.empty with
      healthy := if settings.recoveryCount ≤ successes then true else healthy, failures := failures,
      successes := successes, targets := results }

/-! ### One application -/

def gatewayOutside (link : Link) (gateway : Address) : Bool :=
  !(gateway.six && gateway.isLinkLocal) &&
    !link.addrInfo.any gateway.inNetwork

def linkReason (links : Links) (route : StaticRoute) (dev : String) : Except String (Option String) :=
  match links.show' dev with
  | none => .error "ip address show"
  | some [row] =>
    if !(["UP", "LOWER_UP"].all (· ∈ row.flags)) then .ok (some "link-down")
    else
      match links.routeLink dev with
      | some reason => .ok (some reason)
      | none =>
        match route.via with
        | some gateway =>
          .ok (if !route.onlink.getD false && gatewayOutside row gateway.value then some "gateway-outside-interface-prefix" else none)
        | none => .ok none
  | some _ => .ok (some "interface-missing")

def baseReason (links : Links) (route : StaticRoute) : Except String (Option String) :=
  if route.blackhole then .ok none
  else
    match route.dev with
    | some dev => linkReason links route dev
    | none => .error "dev"

def maxAge (settings : Monitor) : ℚ := max 60 (settings.interval * 2)

def removedOr (links : Links) (route : StaticRoute) (delete : Bool) : Except String (Option String) :=
  if delete then .ok (some "removed") else baseReason links route

def reasonOf (links : Links) (now : ℚ) (route : StaticRoute) (delete : Bool) (health : Health) : Except String (Option String) := do
  let reason ← removedOr links route delete
  let monitor ← route.settings
  match reason with
  | some reason => return some reason
  | none =>
    if monitor.enabled then
      if ¬(0 ≤ now - health.observed ∧ now - health.observed ≤ maxAge monitor) then return some "monitor-stale"
      else if health.healthy = false then return some "path-down"
      else return none
    else return none

structure Applied where
  installed : Bool
  reason : String
deriving DecidableEq

section apply

variable {Kernel : Type} (ip : Ip Kernel) (links : Links) (now : ℚ)

/-- The route as it is found: whether it is there, and why it is not to be. -/
def found (kernel : Kernel) (route : StaticRoute) (delete : Bool) (health : Health) : Except String (Bool × Option String) := do
  let present ← routePresent ip kernel route
  let reason ← reasonOf links now route delete health
  return (present, reason)

def readback (kernel : Kernel) (route : StaticRoute) : Except String Applied := do
  if ← routePresent ip kernel route then return ⟨true, "eligible"⟩ else throw "Static route readback mismatch"

/-- `apply`: the kernel afterwards, and what is reported unless it raises. -/
def apply (kernel : Kernel) (route : StaticRoute) (delete : Bool) (health : Health) : Kernel × Except String Applied :=
  match found ip links now kernel route delete health with
  | .error e => (kernel, .error e)
  | .ok (present, some reason) =>
    let done := if present then rawConfigureRoute ip .del route kernel else (kernel, true)
    (done.1, if done.2 then .ok ⟨false, reason⟩ else .error "ip route del")
  | .ok (present, none) =>
    let done := if present then (kernel, true) else rawConfigureRoute ip .add route kernel
    (done.1, if done.2 then readback ip done.1 route else .error "ip route add")

/-- What the route needs to be in the kernel: a fit interface and, where its path is monitored, a healthy record that is not too old. -/
def Eligible (route : StaticRoute) (health : Health) : Prop :=
  baseReason links route = .ok none ∧
    ∃ monitor, route.settings = .ok monitor ∧
      (monitor.enabled = false ∨ (health.healthy = true ∧ 0 ≤ now - health.observed ∧ now - health.observed ≤ maxAge monitor))

variable {ip links now}

variable {delete : Bool} {health : Health} {route : StaticRoute} {kernel : Kernel}

theorem reasonOf_none :
    reasonOf links now route delete health = .ok none ↔ delete = false ∧ Eligible links now route health := by
  constructor
  · intro h
    obtain ⟨reason, base, later⟩ := bind_ok h
    obtain ⟨monitor, read, last⟩ := bind_ok later
    cases reason with
    | some reason => cases last
    | none =>
      cases delete with
      | true => cases base
      | false =>
        refine ⟨rfl, base, monitor, read, ?_⟩
        dsimp only at last
        split at last
        · split at last
          · cases last
          · rename_i current
            split at last
            · cases last
            · rename_i well
              exact .inr ⟨Bool.not_eq_false _ ▸ well, Decidable.not_not.mp current⟩
        · rename_i off
          exact .inl (Bool.eq_false_iff.mpr off)
  · rintro ⟨rfl, base, monitor, read, fit⟩
    unfold reasonOf removedOr
    rw [if_neg Bool.false_ne_true, base, read]
    show (if monitor.enabled = true then _ else _) = _
    rcases fit with off | ⟨well, current⟩
    · rw [if_neg (Bool.eq_false_iff.mp off)]
      rfl
    · rw [if_neg (Decidable.not_not.mpr current), well]
      split <;> rfl

theorem found_ok {delete present : Bool} {reason : Option String}
    (h : found ip links now kernel route delete health = .ok (present, reason)) :
    routePresent ip kernel route = .ok present ∧ reasonOf links now route delete health = .ok reason := by
  obtain ⟨there, shown, later⟩ := bind_ok h
  obtain ⟨why, because, last⟩ := bind_ok later
  cases last
  exact ⟨shown, because⟩

theorem readback_ok {applied : Applied} (h : readback ip kernel route = .ok applied) :
    routePresent ip kernel route = .ok true := by
  obtain ⟨there, shown, last⟩ := bind_ok h
  cases there with
  | true => exact shown
  | false => cases last

/-- After an application a route that is shown as it is configured is in the kernel exactly when it may be there. -/
theorem apply_present (lawful : ip.Lawful) {applied : Applied}
    (canonical : Canonical ip route) (h : (apply ip links now kernel route delete health).2 = .ok applied) :
    route.wanted ∈ ip.routes (apply ip links now kernel route delete health).1 ↔ delete = false ∧ Eligible links now route health := by
  rw [← reasonOf_none]
  unfold apply at h ⊢
  cases begun : found ip links now kernel route delete health with
  | error e =>
    rw [begun] at h
    cases h
  | ok before =>
    obtain ⟨present, reason⟩ := before
    obtain ⟨shown, why⟩ := found_ok begun
    rw [begun] at h
    rw [why]
    cases reason with
    | some reason =>
      apply iff_of_false _ (by simp)
      dsimp only at h ⊢
      cases present with
      | true =>
        rw [if_pos rfl] at h ⊢
        split at h
        · rename_i done
          exact lawful.deletes route kernel canonical done
        · cases h
      | false =>
        rw [if_neg Bool.false_ne_true]
        intro there
        exact Bool.false_ne_true ((present_iff lawful canonical shown).mpr there)
    | none =>
      apply iff_of_true _ rfl
      dsimp only at h ⊢
      generalize (if present then (kernel, true) else rawConfigureRoute ip .add route kernel) = done at h
      split at h
      · exact (present_iff lawful canonical (readback_ok h)).mp rfl
      · cases h

end apply

/-! ### The file, and the processes -/

/-- `STATE` -/
structure Saved (Key : Type) where
  boot : String
  observed : ℚ
  revision : Int
  routes : Key → Option Health

/-- A tick between its probes: the configuration that it read, and the routes that are still due. -/
structure Probe where
  cfg : Config
  due : List StaticRoute

/-- The owner's clock, the kernel with its interfaces, the configuration, the file and the ticks under way; and, for each record,
the rounds that it has taken in since it was made, the latest first. -/
structure State (Key Kernel : Type) where
  boot : String
  clock : ℚ
  kernel : Kernel
  links : Links
  config : Config
  file : Option (Saved Key)
  probes : Nat → Option Probe
  rounds : Key → List (List Bool)

structure Application (Kernel : Type) where
  route : StaticRoute
  delete : Bool
  kernel : Kernel
  result : Except String Applied
deriving DecidableEq

inductive Act (Kernel : Type) where
  | wait (seconds : ℚ≥0)
  | world (kernel : Kernel) (links : Links)
  | edit (config : Config)
  | configure (route : StaticRoute) (delete : Bool)
  | tick (process : Nat) (stop : Bool)
  | probed (process : Nat) (answer : Option (List Bool))
  | killed (process : Nat)

section system

variable {Key Kernel : Type} [DecidableEq Key] (ip : Ip Kernel) (key : StaticRoute → Key)

/-- `load`: nothing from a file that is not there or of another boot. -/
def State.load (s : State Key Kernel) : Key → Option Health :=
  match s.file with
  | some saved => if saved.boot = s.boot then saved.routes else fun _ => none
  | none => fun _ => none

def State.record (s : State Key Kernel) (route : StaticRoute) : Health := (s.load (key route)).getD Health.empty

def Health.applied (health : Health) (route : StaticRoute) (applied : Applied) : Health :=
  { health with route := some route, installed := applied.installed, reason := applied.reason }

/-- The first part of a tick: every tracked route is applied with the health it had; the records are complete unless one raises. -/
def applyAll (s : State Key Kernel) (stop : Bool) :
    List StaticRoute → Kernel → (Key → Option Health) → Kernel × Option (Key → Option Health) × List (Application Kernel)
  | [], kernel, records => (kernel, some records, [])
  | route :: rest, kernel, records =>
    let health := s.record key route
    let done := apply ip s.links s.clock kernel route stop health
    match done.2 with
    | .error e => (done.1, none, [⟨route, stop, done.1, .error e⟩])
    | .ok applied =>
      let later := applyAll s stop rest done.1 (Function.update records (key route) (some (health.applied route applied)))
      (later.1, later.2.1, ⟨route, stop, done.1, .ok applied⟩ :: later.2.2)

def tracked (cfg : Config) : List StaticRoute := cfg.routes.filter fun route => route.trackLink.getD false

/-- The monitored routes whose last observation is an interval old, the oldest first, four at the most. -/
def due (s : State Key Kernel) (routes : List StaticRoute) : List StaticRoute :=
  let late := routes.filter fun route =>
    match route.settings with
    | .ok monitor => monitor.enabled && decide ((monitor.interval : ℚ) ≤ s.clock - (s.record key route).observed)
    | .error _ => false
  (late.insertionSort fun a b => (s.record key a).observed ≤ (s.record key b).observed).take 4

/-- What is taken for the results of a round: a probe that fails or is incomplete counts as failed for every target. -/
def sample (monitor : Monitor) (answer : Option (List Bool)) : List Bool :=
  match answer with
  | some results => if results.length = monitor.targets.length then results else List.replicate monitor.targets.length false
  | none => List.replicate monitor.targets.length false

def State.stopped (s : State Key Kernel) (process : Nat) : State Key Kernel := { s with probes := Function.update s.probes process none }

def tickStart (s : State Key Kernel) (process : Nat) (stop : Bool) : State Key Kernel × List (Application Kernel) :=
  let routes := tracked s.config
  let done := applyAll ip key s stop routes s.kernel fun _ => none
  match done.2.1 with
  | none => ({ s with kernel := done.1 }, done.2.2)
  | some records =>
    ({ s with
        kernel := done.1
        file := some ⟨s.boot, s.clock, s.config.revision, records⟩
        probes := Function.update s.probes process (if stop then none else some ⟨s.config, due key s routes⟩)
        rounds := fun k => if (s.load k).isSome && (records k).isSome then s.rounds k else [] },
      done.2.2)

def tickProbed (s : State Key Kernel) (process : Nat) (cfg : Config) (route : StaticRoute) (rest : List StaticRoute)
    (answer : Option (List Bool)) : State Key Kernel × List (Application Kernel) :=
  if s.config ≠ cfg then (s.stopped process, [])
  else
    match route.settings with
    | .error _ => (s.stopped process, [])
    | .ok monitor =>
      let results := sample monitor answer
      match advance (s.record key route) results monitor with
      | .error _ => (s.stopped process, [])
      | .ok advanced =>
        let health := { advanced with observed := s.clock, route := some route }
        let done := apply ip s.links s.clock s.kernel route false health
        match done.2 with
        | .error e => ({ s.stopped process with kernel := done.1 }, [⟨route, false, done.1, .error e⟩])
        | .ok applied =>
          ({ s with
              kernel := done.1
              file := some ⟨s.boot, s.clock, s.config.revision, Function.update s.load (key route) (some (health.applied route applied))⟩
              probes := Function.update s.probes process (some ⟨cfg, rest⟩)
              rounds := Function.update s.rounds (key route) (results :: s.rounds (key route)) },
            [⟨route, false, done.1, .ok applied⟩])

def step (s : State Key Kernel) : Act Kernel → State Key Kernel × List (Application Kernel)
  | .wait seconds => ({ s with clock := s.clock + seconds }, [])
  | .world kernel links => ({ s with kernel := kernel, links := links }, [])
  | .edit config => ({ s with config := config }, [])
  | .configure route delete =>
    if route.trackLink = some true then
      let done := apply ip s.links s.clock s.kernel route delete (s.record key route)
      ({ s with kernel := done.1 }, [⟨route, delete, done.1, done.2⟩])
    else ({ s with kernel := (rawConfigureRoute ip (if delete then .del else .add) route s.kernel).1 }, [])
  | .tick process stop => if (s.probes process).isSome then (s, []) else tickStart ip key s process stop
  | .probed process answer =>
    match s.probes process with
    | none => (s, [])
    | some ⟨_, []⟩ => (s.stopped process, [])
    | some ⟨cfg, route :: rest⟩ => tickProbed ip key s process cfg route rest answer
  | .killed process => (s.stopped process, [])

structure Booted (s : State Key Kernel) : Prop where
  records : s.load = fun _ => none
  probes : s.probes = fun _ => none
  rounds : s.rounds = fun _ => []
  clock : 0 ≤ s.clock

def Reaches : State Key Kernel → State Key Kernel → Prop := Relation.ReflTransGen fun s s' => ∃ a, s' = (step ip key s a).1

/-- The route of an application is in the kernel exactly when it is not being removed, its interface is fit for it, and it is not
monitored or the record that it is left with is healthy and not too old. -/
def Holds (s s' : State Key Kernel) (app : Application Kernel) : Prop :=
  ∀ result, app.result = .ok result →
    (app.route.wanted ∈ ip.routes app.kernel ↔
      app.delete = false ∧ baseReason s.links app.route = .ok none ∧
        ∃ monitor, app.route.settings = .ok monitor ∧
          (monitor.enabled = false ∨
            ((s'.record key app.route).healthy = true ∧ s.clock - (s'.record key app.route).observed ≤ maxAge monitor)))

/-- What a step from `s` may do. -/
structure Follows (s : State Key Kernel) (a : Act Kernel) : Prop where
  /-- A flag turns false after as many failed rounds in a row as the settings ask for. -/
  fails : ∀ route monitor h h', route.settings = .ok monitor → s.load (key route) = some h →
    (step ip key s a).1.load (key route) = some h' →
    h.healthy = true → h'.healthy = false →
      monitor.failureCount ≤ ((step ip key s a).1.rounds (key route)).length ∧
        ∀ round ∈ ((step ip key s a).1.rounds (key route)).take monitor.failureCount, failed monitor round = true
  /-- It turns true after as many successful rounds in a row. -/
  recovers : ∀ route monitor h', route.settings = .ok monitor → (step ip key s a).1.load (key route) = some h' →
    (s.record key route).healthy = false → h'.healthy = true →
      monitor.recoveryCount ≤ ((step ip key s a).1.rounds (key route)).length ∧
        ∀ round ∈ ((step ip key s a).1.rounds (key route)).take monitor.recoveryCount, failed monitor round = false
  /-- A round has a result for every target. -/
  complete : ∀ route monitor, route.settings = .ok monitor →
    ∀ round ∈ (step ip key s a).1.rounds (key route), round.length = monitor.targets.length
  /-- A probe that was started under another configuration changes no record and no route. -/
  obsolete : ∀ process probe answer, s.probes process = some probe → probe.cfg ≠ s.config → a = .probed process answer →
    (step ip key s a).1.file = s.file ∧ (step ip key s a).1.kernel = s.kernel ∧ (step ip key s a).2 = []
  applied : ∀ app ∈ (step ip key s a).2, Holds ip key s (step ip key s a).1 app

def applies (s : State Key Kernel) : Act Kernel → List StaticRoute
  | .configure route _ => if route.trackLink = some true then [route] else []
  | .tick process _ => if (s.probes process).isSome then [] else tracked s.config
  | .probed process _ =>
    match s.probes process with
    | some ⟨_, route :: _⟩ => [route]
    | _ => []
  | _ => []

/-- The counters of the records are the failed and the successful rounds at the end. -/
structure Kept (s : State Key Kernel) : Prop where
  running : 0 ≤ s.clock
  absent : ∀ k, s.load k = none → s.rounds k = []
  observed : ∀ route, (s.record key route).observed ≤ s.clock
  counts : ∀ route monitor, route.settings = .ok monitor →
    (s.record key route).failures = ((s.rounds (key route)).takeWhile (failed monitor)).length ∧
      (s.record key route).successes = ((s.rounds (key route)).takeWhile fun round => !failed monitor round).length
  complete : ∀ route monitor, route.settings = .ok monitor → ∀ round ∈ s.rounds (key route), round.length = monitor.targets.length

variable {ip key}
variable {s : State Key Kernel}

omit [DecidableEq Key] in
theorem take_of_takeWhile {α : Type} {p : α → Bool} {l : List α} {n : Nat} (enough : n ≤ (l.takeWhile p).length) :
    n ≤ l.length ∧ ∀ x ∈ l.take n, p x = true := by
  have start := List.takeWhile_prefix (l := l) p
  refine ⟨enough.trans start.length_le, ?_⟩
  intro x member
  have same : l.take n = (l.takeWhile p).take n := by
    obtain ⟨rest, split⟩ := start
    conv_lhs => rw [← split]
    exact List.take_append_of_le_length enough
  rw [same] at member
  exact List.all_eq_true.mp List.all_takeWhile x (List.mem_of_mem_take member)

omit [DecidableEq Key] in
theorem advance_ok {previous advanced : Health} {results : List Bool} {settings : Monitor}
    (h : advance previous results settings = .ok advanced) :
    advanced.failures = (if failed settings results then previous.failures + 1 else 0) ∧
      advanced.successes = (if failed settings results then 0 else previous.successes + 1) ∧
      advanced.healthy = (if settings.recoveryCount ≤ advanced.successes then true
        else if settings.failureCount ≤ advanced.failures then false else previous.healthy) := by
  unfold advance at h
  split at h
  · cases h
  · cases h
    exact ⟨rfl, rfl, rfl⟩

omit [DecidableEq Key] in
theorem sample_length (monitor : Monitor) (answer : Option (List Bool)) : (sample monitor answer).length = monitor.targets.length := by
  unfold sample
  split
  · split
    · assumption
    · exact List.length_replicate
  · exact List.length_replicate

omit [DecidableEq Key] in
theorem booted_kept (booted : Booted s) : Kept key s := by
  have record : ∀ route, s.record key route = Health.empty := by
    intro route
    rw [State.record, booted.records, Option.getD_none]
  refine ⟨booted.clock, ?_, ?_, ?_, ?_⟩
  · intro k _
    rw [booted.rounds]
  · intro route
    rw [record]
    exact booted.clock
  · intro route monitor _
    rw [record, booted.rounds]
    exact ⟨rfl, rfl⟩
  · intro route monitor _ round member
    rw [booted.rounds] at member
    cases member

variable {app : Application Kernel}

theorem applyAll_applications {stop : Bool} {routes : List StaticRoute} {kernel : Kernel} {records : Key → Option Health}
    (h : app ∈ (applyAll ip key s stop routes kernel records).2.2) :
    app.route ∈ routes ∧ app.delete = stop ∧
      ∃ before, (app.kernel, app.result) = apply ip s.links s.clock before app.route stop (s.record key app.route) := by
  induction routes generalizing kernel records with
  | nil => cases h
  | cons route rest ih =>
    rw [applyAll] at h
    dsimp only at h
    split at h
    · rename_i e raised
      obtain rfl := List.mem_singleton.mp h
      exact ⟨List.mem_cons_self, rfl, kernel, Prod.ext rfl raised.symm⟩
    · rename_i applied done
      rcases List.mem_cons.mp h with rfl | later
      · exact ⟨List.mem_cons_self, rfl, kernel, Prod.ext rfl done.symm⟩
      · obtain ⟨member, same⟩ := ih later
        exact ⟨List.mem_cons_of_mem _ member, same⟩

/-- The records that a tick writes: each is the one the route had, with what its application reported. -/
theorem applyAll_records {stop : Bool} {routes : List StaticRoute} {kernel : Kernel} {records final : Key → Option Health}
    (h : (applyAll ip key s stop routes kernel records).2.1 = some final) :
    (∀ k, final k = records k ∨ ∃ route applied, key route = k ∧ final k = some ((s.record key route).applied route applied)) ∧
      (∀ k, (records k).isSome → (final k).isSome) ∧ ∀ route ∈ routes, (final (key route)).isSome := by
  induction routes generalizing kernel records with
  | nil =>
    cases h
    exact ⟨fun k => .inl rfl, fun k there => there, fun route no => (nomatch no)⟩
  | cons route rest ih =>
    rw [applyAll] at h
    dsimp only at h
    split at h
    · cases h
    · rename_i applied done
      obtain ⟨from', kept, all⟩ := ih h
      have own : (Function.update records (key route) (some ((s.record key route).applied route applied)) (key route)).isSome := by
        rw [Function.update_self]
        rfl
      refine ⟨?_, ?_, ?_⟩
      · intro k
        rcases from' k with same | other
        · by_cases here : k = key route
          · subst here
            rw [Function.update_self] at same
            exact .inr ⟨route, applied, rfl, same⟩
          · rw [Function.update_of_ne here] at same
            exact .inl same
        · exact .inr other
      · intro k there
        apply kept
        by_cases here : k = key route
        · subst here
          exact own
        · rw [Function.update_of_ne here]
          exact there
      · intro r member
        rcases List.mem_cons.mp member with rfl | later
        · exact kept _ own
        · exact all r later

/-! ### Steps -/

variable (key) in
/-- What a step does to the records and their rounds: nothing; or a tick writes every tracked route's record anew; or a probe adds
a round to one record. -/
inductive Recorded (s s' : State Key Kernel) : Prop where
  | kept (load : s'.load = s.load) (rounds : s'.rounds = s.rounds) (clock : s.clock ≤ s'.clock)
  | rewritten (clock : s'.clock = s.clock)
      (from' : ∀ k, s'.load k = none ∨ ∃ route applied, key route = k ∧ s'.load k = some ((s.record key route).applied route applied))
      (rounds : ∀ k, s'.rounds k = if (s.load k).isSome && (s'.load k).isSome then s.rounds k else [])
  | round (route : StaticRoute) (monitor : Monitor) (answer : Option (List Bool)) (advanced : Health) (applied : Applied)
      (clock : s'.clock = s.clock) (settings : route.settings = .ok monitor)
      (counted : advance (s.record key route) (sample monitor answer) monitor = .ok advanced)
      (load : s'.load = Function.update s.load (key route)
        (some (Health.applied { advanced with observed := s.clock, route := some route } route applied)))
      (rounds : s'.rounds = Function.update s.rounds (key route) (sample monitor answer :: s.rounds (key route)))

omit [DecidableEq Key] in
theorem load_saved (boot : String) (clock t : ℚ) (kernel : Kernel) (links : Links) (config : Config)
    (revision : Int) (records : Key → Option Health)
    (probes : Nat → Option Probe) (rounds : Key → List (List Bool)) :
    State.load ⟨boot, clock, kernel, links, config, some ⟨boot, t, revision, records⟩, probes, rounds⟩ = records := if_pos rfl

theorem tickStart_recorded (process : Nat) (stop : Bool) : Recorded key s (tickStart ip key s process stop).1 := by
  unfold tickStart
  dsimp only
  split
  · exact .kept rfl rfl le_rfl
  · rename_i records complete
    obtain ⟨from', -, -⟩ := applyAll_records complete
    refine .rewritten rfl ?_ ?_
    · intro k
      rw [load_saved]
      exact from' k
    · intro k
      rw [load_saved]

theorem tickProbed_recorded (process : Nat) (cfg : Config) (route : StaticRoute) (rest : List StaticRoute)
    (answer : Option (List Bool)) :
    Recorded key s (tickProbed ip key s process cfg route rest answer).1 := by
  unfold tickProbed
  split
  · exact .kept rfl rfl le_rfl
  split
  · exact .kept rfl rfl le_rfl
  · rename_i monitor settings
    dsimp only
    split
    · exact .kept rfl rfl le_rfl
    · rename_i advanced counted
      split
      · exact .kept rfl rfl le_rfl
      · rename_i applied _
        exact .round route monitor answer advanced applied rfl settings counted (if_pos rfl) rfl

theorem step_recorded (s : State Key Kernel) (a : Act Kernel) : Recorded key s (step ip key s a).1 := by
  cases a with
  | wait seconds => exact .kept rfl rfl (le_add_of_nonneg_right seconds.2)
  | world kernel links => exact .kept rfl rfl le_rfl
  | edit config => exact .kept rfl rfl le_rfl
  | configure route delete =>
    dsimp only [step]
    split <;> exact .kept rfl rfl le_rfl
  | killed process => exact .kept rfl rfl le_rfl
  | tick process stop =>
    dsimp only [step]
    split
    · exact .kept rfl rfl le_rfl
    · exact tickStart_recorded process stop
  | probed process answer =>
    dsimp only [step]
    split
    · exact .kept rfl rfl le_rfl
    · exact .kept rfl rfl le_rfl
    · exact tickProbed_recorded process _ _ _ answer

section invariant

variable {s' : State Key Kernel} (collisionFree : Function.Injective key)

variable {route : StaticRoute}

omit [DecidableEq Key] in
theorem record_of_load {h : Health} (found : s.load (key route) = some h) : s.record key route = h := by
  rw [State.record, found, Option.getD_some]

omit [DecidableEq Key] in
theorem record_of_absent (absent : s.load (key route) = none) : s.record key route = Health.empty := by
  rw [State.record, absent, Option.getD_none]

omit [DecidableEq Key] in
theorem record_rewritten
    (from' : s'.load (key route) = none ∨ ∃ r applied, key r = key route ∧
    s'.load (key route) = some ((s.record key r).applied r applied)) :
    s'.load (key route) = none ∨
      ((s'.record key route).healthy = (s.record key route).healthy ∧ (s'.record key route).failures = (s.record key route).failures ∧
        (s'.record key route).successes = (s.record key route).successes ∧
        (s'.record key route).observed = (s.record key route).observed) := by
  rcases from' with absent | ⟨r, applied, same, found⟩
  · exact .inl absent
  · rw [record_of_load found, State.record, same]
    exact .inr ⟨rfl, rfl, rfl, rfl⟩

omit [DecidableEq Key] in
theorem rewritten_kept (kept : Kept key s) (clock : s'.clock = s.clock)
    (from' : ∀ k, s'.load k = none ∨ ∃ route applied, key route = k ∧ s'.load k = some ((s.record key route).applied route applied))
    (rounds : ∀ k, s'.rounds k = if (s.load k).isSome && (s'.load k).isSome then s.rounds k else []) : Kept key s' := by
  obtain ⟨running, absent, observed, counts, complete⟩ := kept
  have gone : ∀ k, s'.load k = none → s'.rounds k = [] := by
    intro k none'
    rw [rounds, none', Option.isSome_none, Bool.and_false, if_neg Bool.false_ne_true]
  have same : ∀ k, s'.load k ≠ none → s'.rounds k = s.rounds k := by
    intro k there
    rw [rounds, Option.isSome_iff_ne_none.mpr there, Bool.and_true]
    split
    · rfl
    · rename_i new
      exact (absent k (Option.not_isSome_iff_eq_none.mp new)).symm
  refine ⟨clock ▸ running, gone, ?_, ?_, ?_⟩
  · intro route
    rw [clock]
    rcases record_rewritten (from' (key route)) with none' | ⟨-, -, -, when⟩
    · rw [record_of_absent none']
      exact running
    · rw [when]
      exact observed route
  · intro route monitor settings
    by_cases none' : s'.load (key route) = none
    · rw [record_of_absent none', gone _ none']
      exact ⟨rfl, rfl⟩
    · obtain ⟨-, failures, successes, -⟩ := (record_rewritten (from' (key route))).resolve_left none'
      rw [failures, successes, same _ none']
      exact counts route monitor settings
  · intro route monitor settings round member
    by_cases none' : s'.load (key route) = none
    · rw [gone _ none'] at member
      cases member
    · rw [same _ none'] at member
      exact complete route monitor settings round member

include collisionFree in
theorem round_kept (kept : Kept key s) {monitor : Monitor} {answer : Option (List Bool)} {advanced : Health} {applied : Applied}
    (clock : s'.clock = s.clock) (settings : route.settings = .ok monitor)
    (counted : advance (s.record key route) (sample monitor answer) monitor = .ok advanced)
    (load : s'.load = Function.update s.load (key route)
      (some (Health.applied { advanced with observed := s.clock, route := some route } route applied)))
    (rounds : s'.rounds = Function.update s.rounds (key route) (sample monitor answer :: s.rounds (key route))) :
    Kept key s' := by
  obtain ⟨running, absent, observed, counts, complete⟩ := kept
  have own : s'.load (key route) = some (Health.applied { advanced with observed := s.clock, route := some route } route applied) := by
    rw [load, Function.update_self]
  have other : ∀ k, k ≠ key route → s'.load k = s.load k ∧ s'.rounds k = s.rounds k := by
    intro k different
    rw [load, rounds, Function.update_of_ne different, Function.update_of_ne different]
    exact ⟨rfl, rfl⟩
  have record : ∀ r, r ≠ route → s'.record key r = s.record key r := by
    intro r different
    rw [State.record, (other _ fun same => different (collisionFree same)).1, State.record]
  refine ⟨clock ▸ running, ?_, ?_, ?_, ?_⟩
  · intro k none'
    by_cases here : k = key route
    · subst here
      cases own.symm.trans none'
    · rw [(other k here).2]
      exact absent k ((other k here).1 ▸ none')
  · intro r
    rw [clock]
    by_cases here : r = route
    · subst here
      rw [record_of_load own]
      exact le_rfl
    · rw [record r here]
      exact observed r
  · intro r m read
    by_cases here : r = route
    · subst here
      obtain rfl := Except.ok.inj (settings.symm.trans read)
      obtain ⟨failures, successes, -⟩ := advance_ok counted
      obtain ⟨failures', successes'⟩ := counts r monitor settings
      rw [record_of_load own, rounds, Function.update_self, List.takeWhile_cons, List.takeWhile_cons]
      show advanced.failures = _ ∧ advanced.successes = _
      rw [failures, successes, failures', successes']
      cases failed monitor (sample monitor answer) <;> exact ⟨rfl, rfl⟩
    · rw [record r here, (other _ fun same => here (collisionFree same)).2]
      exact counts r m read
  · intro r m read round member
    by_cases here : r = route
    · subst here
      obtain rfl := Except.ok.inj (settings.symm.trans read)
      rw [rounds, Function.update_self] at member
      rcases List.mem_cons.mp member with rfl | before
      · exact sample_length monitor answer
      · exact complete r monitor settings round before
    · rw [(other _ fun same => here (collisionFree same)).2] at member
      exact complete r m read round member

include collisionFree in
theorem recorded_kept (kept : Kept key s) (recorded : Recorded key s s') : Kept key s' := by
  cases recorded with
  | kept load rounds clock =>
    obtain ⟨running, absent, observed, counts, complete⟩ := kept
    have record : ∀ route, s'.record key route = s.record key route := fun route => by rw [State.record, load, State.record]
    refine ⟨running.trans clock, ?_, ?_, ?_, ?_⟩
    · rw [load, rounds]
      exact absent
    · intro route
      rw [record]
      exact (observed route).trans clock
    · intro route monitor settings
      rw [record, rounds]
      exact counts route monitor settings
    · rw [rounds]
      exact complete
  | rewritten clock from' rounds => exact rewritten_kept kept clock from' rounds
  | round route monitor answer advanced applied clock settings counted load rounds =>
    exact round_kept collisionFree kept clock settings counted load rounds

include collisionFree in
/-- A flag that changed was changed by a round, and the counter that changed it has reached its bound. -/
theorem flag_changed {monitor : Monitor} {h' : Health} (settings : route.settings = .ok monitor)
    (recorded : Recorded key s s') (found : s'.load (key route) = some h') (changed : h'.healthy ≠ (s.record key route).healthy) :
    (h'.healthy = false → monitor.failureCount ≤ h'.failures) ∧ (h'.healthy = true → monitor.recoveryCount ≤ h'.successes) := by
  rw [← record_of_load found] at changed ⊢
  cases recorded with
  | kept load rounds clock =>
    rw [State.record, load] at changed
    exact absurd rfl changed
  | rewritten clock from' rounds =>
    rcases record_rewritten (from' (key route)) with none' | ⟨healthy, -⟩
    · cases found.symm.trans none'
    · exact absurd healthy changed
  | round r m answer advanced applied clock read counted load rounds =>
    by_cases here : route = r
    · subst here
      obtain rfl := Except.ok.inj (settings.symm.trans read)
      obtain ⟨-, -, healthy⟩ := advance_ok counted
      have own : s'.record key route = Health.applied { advanced with observed := s.clock, route := some route } route applied := by
        apply record_of_load
        rw [load, Function.update_self]
      rw [own] at changed ⊢
      show (advanced.healthy = false → monitor.failureCount ≤ advanced.failures) ∧
          (advanced.healthy = true → monitor.recoveryCount ≤ advanced.successes)
      have changed : advanced.healthy ≠ (s.record key route).healthy := changed
      split at healthy
      · rename_i recovered
        exact ⟨fun no => (nomatch healthy.symm.trans no), fun _ => recovered⟩
      · split at healthy
        · rename_i lost
          exact ⟨fun _ => lost, fun no => (nomatch healthy.symm.trans no)⟩
        · exact absurd healthy changed
    · have same : s'.record key route = s.record key route := by
        rw [State.record, load, Function.update_of_ne fun same => here (collisionFree same), State.record]
      rw [same] at changed
      exact absurd rfl changed

end invariant

omit [DecidableEq Key] in
theorem eligible_iff {links : Links} {now : ℚ} {route : StaticRoute} {health : Health} (past : health.observed ≤ now) :
    Eligible links now route health ↔
      baseReason links route = .ok none ∧
        ∃ monitor, route.settings = .ok monitor ∧
          (monitor.enabled = false ∨ (health.healthy = true ∧ now - health.observed ≤ maxAge monitor)) := by
  have forward : 0 ≤ now - health.observed := sub_nonneg.mpr past
  unfold Eligible
  simp only [forward, true_and]

omit [DecidableEq Key] in
theorem holds_of_apply (lawful : ip.Lawful) {s' : State Key Kernel} {before : Kernel} {health : Health}
    (canonical : Canonical ip app.route)
    (done : (app.kernel, app.result) = apply ip s.links s.clock before app.route app.delete health)
    (healthy : (s'.record key app.route).healthy = health.healthy) (observed : (s'.record key app.route).observed = health.observed)
    (past : health.observed ≤ s.clock) : Holds ip key s s' app := by
  intro result ok
  obtain ⟨kernel, same⟩ := Prod.mk.inj done
  rw [kernel, healthy, observed, ← eligible_iff past]
  exact apply_present lawful canonical (same.symm.trans ok)

theorem tickStart_holds (lawful : ip.Lawful) (kept : Kept key s) (process : Nat) (stop : Bool)
    (canonical : ∀ route ∈ tracked s.config, Canonical ip route) (h : app ∈ (tickStart ip key s process stop).2) :
    Holds ip key s (tickStart ip key s process stop).1 app := by
  have inside : app ∈ (applyAll ip key s stop (tracked s.config) s.kernel fun _ => none).2.2 := by
    unfold tickStart at h
    dsimp only at h
    split at h <;> exact h
  obtain ⟨member, delete, before, done⟩ := applyAll_applications inside
  have record : ((tickStart ip key s process stop).1.record key app.route).healthy = (s.record key app.route).healthy ∧
      ((tickStart ip key s process stop).1.record key app.route).observed = (s.record key app.route).observed := by
    unfold tickStart
    dsimp only
    split
    · exact ⟨rfl, rfl⟩
    · rename_i records complete
      obtain ⟨from', -, all⟩ := applyAll_records complete
      have there := all app.route member
      rw [State.record, load_saved]
      rcases from' (key app.route) with none' | ⟨r, applied, same, found⟩
      · rw [none'] at there
        cases there
      · rw [found, Option.getD_some, State.record, same]
        exact ⟨rfl, rfl⟩
  exact holds_of_apply lawful (canonical _ member) (delete ▸ done) record.1 record.2 (kept.observed app.route)

theorem record_updated (boot : String) (clock t : ℚ) (kernel : Kernel) (links : Links) (config : Config)
    (revision : Int) (load : Key → Option Health)
    (probes : Nat → Option Probe) (rounds : Key → List (List Bool)) (route : StaticRoute) (health : Health) :
    State.record key ⟨boot, clock, kernel, links, config,
      some ⟨boot, t, revision, Function.update load (key route) (some health)⟩, probes, rounds⟩
      route = health := by
  rw [State.record, load_saved, Function.update_self, Option.getD_some]

theorem tickProbed_holds (lawful : ip.Lawful) (process : Nat) (cfg : Config) (route : StaticRoute) (rest : List StaticRoute)
    (answer : Option (List Bool)) (canonical : Canonical ip route)
    (h : app ∈ (tickProbed ip key s process cfg route rest answer).2) :
    Holds ip key s (tickProbed ip key s process cfg route rest answer).1 app := by
  unfold tickProbed at h ⊢
  split
  · rename_i other
    rw [if_pos other] at h
    cases h
  rename_i same
  rw [if_neg same] at h
  cases settings : route.settings with
  | error e =>
    rw [settings] at h
    cases h
  | ok monitor =>
    rw [settings] at h
    dsimp only at h ⊢
    cases counted : advance (s.record key route) (sample monitor answer) monitor with
    | error e =>
      rw [counted] at h
      cases h
    | ok advanced =>
      rw [counted] at h
      dsimp only at h ⊢
      split at h
      · rename_i e raised
        obtain rfl := List.mem_singleton.mp h
        intro result ok
        cases ok
      · rename_i applied done
        obtain rfl := List.mem_singleton.mp h
        dsimp only
        refine holds_of_apply lawful canonical (Prod.ext rfl done.symm) ?_ ?_ le_rfl
        · rw [record_updated]
          rfl
        · rw [record_updated]
          rfl

theorem step_holds (lawful : ip.Lawful) (kept : Kept key s) (a : Act Kernel) (canonical : ∀ route ∈ applies s a, Canonical ip route)
    (h : app ∈ (step ip key s a).2) : Holds ip key s (step ip key s a).1 app := by
  cases a with
  | wait seconds => cases h
  | world kernel links => cases h
  | edit config => cases h
  | killed process => cases h
  | configure route delete =>
    dsimp only [step] at h ⊢
    split at h
    · rename_i own
      rw [if_pos own]
      obtain rfl := List.mem_singleton.mp h
      have member : route ∈ applies s (.configure route delete) := by
        rw [applies, if_pos own]
        exact List.mem_singleton_self route
      exact holds_of_apply lawful (canonical route member) rfl rfl rfl (kept.observed route)
    · cases h
  | tick process stop =>
    dsimp only [step] at h ⊢
    split at h
    · cases h
    · rename_i idle
      rw [if_neg idle]
      rw [applies, if_neg idle] at canonical
      exact tickStart_holds lawful kept process stop canonical h
  | probed process answer =>
    dsimp only [step] at h ⊢
    split at h
    · cases h
    · cases h
    · rename_i cfg route rest underway
      rw [applies, underway] at canonical
      exact tickProbed_holds lawful process cfg route rest answer (canonical route (List.mem_singleton_self route)) h

/-! ### Runs -/

theorem step_follows (lawful : ip.Lawful) (collisionFree : Function.Injective key) (kept : Kept key s) (a : Act Kernel)
    (canonical : ∀ route ∈ applies s a, Canonical ip route) : Follows ip key s a := by
  have recorded : Recorded key s (step ip key s a).1 := step_recorded s a
  have after := recorded_kept collisionFree kept recorded
  refine ⟨?_, ?_, after.complete, ?_, fun app member => step_holds lawful kept a canonical member⟩
  · intro route monitor h h' settings before found was now
    have changed : h'.healthy ≠ (s.record key route).healthy := by
      rw [record_of_load before, was, now]
      exact Bool.false_ne_true
    have bound := (flag_changed collisionFree settings recorded found changed).1 now
    rw [← record_of_load found, (after.counts route monitor settings).1] at bound
    exact take_of_takeWhile bound
  · intro route monitor h' settings found was now
    have changed : h'.healthy ≠ (s.record key route).healthy := by
      rw [was, now]
      exact Bool.false_ne_true.symm
    have bound := (flag_changed collisionFree settings recorded found changed).2 now
    rw [← record_of_load found, (after.counts route monitor settings).2] at bound
    obtain ⟨long, all⟩ := take_of_takeWhile bound
    exact ⟨long, fun round member => Bool.not_eq_true' _ ▸ all round member⟩
  · rintro process ⟨cfg, due⟩ answer underway other rfl
    dsimp only [step]
    rw [underway]
    cases due with
    | nil => exact ⟨rfl, rfl, rfl⟩
    | cons route rest =>
      dsimp only
      rw [tickProbed, if_pos (Ne.symm other)]
      exact ⟨rfl, rfl, rfl⟩

theorem reaches_kept (collisionFree : Function.Injective key) {start : State Key Kernel} (booted : Booted start)
    (reached : Reaches ip key start s) :
    Kept key s := by
  induction reached with
  | refl => exact booted_kept booted
  | tail _ next ih =>
    obtain ⟨a, rfl⟩ := next
    exact recorded_kept collisionFree ih (step_recorded _ a)

end system

/-- In every run since a boot, with a digest that tells routes apart, every step that applies routes `ip` shows as they are configured
leaves the health of tracked routes and the kernel as it should. -/
theorem tracked_routes_follow {Key Kernel : Type} [DecidableEq Key] (ip : Ip Kernel) (lawful : ip.Lawful) (key : StaticRoute → Key)
    (collisionFree : Function.Injective key) (start s : State Key Kernel) (booted : Booted start) (reached : Reaches ip key start s)
    (a : Act Kernel) (canonical : ∀ route ∈ applies s a, Canonical ip route) : Follows ip key s a :=
  step_follows lawful collisionFree (reaches_kept collisionFree booted reached) a canonical

section sample

def quad (value : Nat) : String :=
  toString (value >>> 24) ++ "." ++ toString (value >>> 16 % 256) ++ "." ++ toString (value >>> 8 % 256) ++ "." ++ toString (value % 256)

def sampleText (a : Address) : String := if a.six then "::" ++ toString a.value else quad a.value

def deletion (r : KernelRoute) : List String :=
  words .del r.dst.address.six (r.type = "blackhole") (shownDst r.dst.address.six (printed sampleText r.dst))
    (r.gateway.map sampleText) r.dev
    r.onlink r.metric r.table

def listIp (known : List StaticRoute) : Ip (List KernelRoute) where
  routes kernel := kernel
  shows _ _ _ := true
  run args kernel :=
    match known.find? fun route => routeArgs .add route = args with
    | some route => if route.wanted ∈ kernel then (kernel, false) else (route.wanted :: kernel, true)
    | none => (kernel.filter fun r => deletion r ≠ args, kernel.any fun r => deletion r = args)
  ntop := sampleText

theorem deletion_wanted {known : List StaticRoute} {route : StaticRoute} (canonical : Canonical (listIp known) route) :
    deletion route.wanted = routeArgs .del route := by
  have kind : decide (route.wanted.type = "blackhole") = route.blackhole := by
    show decide ((if route.blackhole then "blackhole" else "unicast") = "blackhole") = _
    cases route.blackhole <;> decide
  have dst : shownDst route.wanted.dst.address.six (printed sampleText route.wanted.dst) = route.dst.text := canonical.dst
  have via : route.wanted.gateway.map sampleText = route.via.map Spelled.text := by
    show (route.via.map Spelled.value).map sampleText = _
    cases given : route.via with
    | none => rfl
    | some gateway => exact congrArg some (canonical.via gateway given)
  have metric : route.wanted.metric = route.metric.getD 100 := if_neg canonical.metric
  unfold deletion routeArgs
  rw [kind, dst, via, metric]
  rfl

theorem action_ne {six blackhole six' blackhole' : Bool} {dst dst' : String} {via dev via' dev' : Option String} {onlink onlink' : Bool}
    {metric table metric' table' : Nat} :
    words .add six blackhole dst via dev onlink metric table ≠ words .del six' blackhole' dst' via' dev' onlink' metric' table' := by
  intro same
  have third : some "add" = some "del" := congrArg (·[2]?) same
  exact absurd third (by decide)

theorem before_dot {xs ys xs' ys' : List Char} (clean : '.' ∉ xs) (clean' : '.' ∉ xs') (same : xs ++ '.' :: ys = xs' ++ '.' :: ys') :
    xs = xs' ∧ ys = ys' := by
  induction xs generalizing xs' with
  | nil =>
    cases xs' with
    | nil => exact ⟨rfl, (List.cons.inj same).2⟩
    | cons c cs => exact absurd ((List.cons.inj same).1 ▸ List.mem_cons_self) clean'
  | cons c cs ih =>
    cases xs' with
    | nil => exact absurd ((List.cons.inj same).1 ▸ List.mem_cons_self) clean
    | cons c' cs' =>
      obtain ⟨rfl, rest⟩ := List.cons.inj same
      obtain ⟨rfl, rfl⟩ := ih (fun later => clean (List.mem_cons_of_mem _ later))
          (fun later => clean' (List.mem_cons_of_mem _ later)) rest
      exact ⟨rfl, rfl⟩

theorem quad_toList (value : Nat) : (quad value).toList =
    (toString (value >>> 24)).toList ++ '.' :: ((toString (value >>> 16 % 256)).toList ++ '.' ::
      ((toString (value >>> 8 % 256)).toList ++ '.' :: (toString (value % 256)).toList)) := by
  unfold quad
  simp [String.toList_append]

theorem quad_injective {v w : Nat} (same : quad v = quad w) : v = w := by
  have texts := congrArg String.toList same
  rw [quad_toList, quad_toList] at texts
  have clean := number_clean (show ('.' : Char).isDigit = false by decide)
  obtain ⟨first, texts⟩ := before_dot (clean _) (clean _) texts
  obtain ⟨second, texts⟩ := before_dot (clean _) (clean _) texts
  obtain ⟨third, fourth⟩ := before_dot (clean _) (clean _) texts
  have first := toString_inj first
  have second := toString_inj second
  have third := toString_inj third
  have fourth := toString_inj fourth
  simp only [Nat.shiftRight_eq_div_pow] at first second third
  omega

theorem quad_without {c : Char} (other : c.isDigit = false) (dotless : c ≠ '.') (value : Nat) : c ∉ (quad value).toList := by
  have clean := number_clean other
  rw [quad_toList]
  simp only [List.mem_append, List.mem_cons, clean, dotless, or_self, not_false_eq_true]

theorem listIp_lawful (known : List StaticRoute) : (listIp known).Lawful where
  distinct a b same := by
    have same : sampleText a = sampleText b := same
    unfold sampleText at same
    have colon := quad_without (show (':' : Char).isDigit = false by decide) (by decide)
    split at same <;> split at same
    · rename_i six six'
      refine address_ext (six.trans six'.symm) (toString_inj ?_)
      have texts := congrArg String.toList same
      rw [String.toList_append, String.toList_append] at texts
      exact List.append_cancel_left texts
    · refine absurd ?_ (colon b.value)
      rw [← same, String.toList_append]
      exact List.mem_append_left _ (by decide)
    · refine absurd ?_ (colon a.value)
      rw [same, String.toList_append]
      exact List.mem_append_left _ (by decide)
    · rename_i four four'
      exact address_ext (Bool.eq_false_iff.mpr four |>.trans (Bool.eq_false_iff.mpr four').symm) (quad_injective same)
  slashless a := by
    show '/' ∉ (sampleText a).toList
    unfold sampleText
    split
    · rw [String.toList_append, List.mem_append, not_or]
      exact ⟨by decide, number_clean (by decide) _⟩
    · exact quad_without (by decide) (by decide) _
  named a := by
    show sampleText a ≠ "default"
    unfold sampleText
    split
    · intro same
      have texts := congrArg String.toList same
      rw [String.toList_append] at texts
      cases (List.cons.inj texts).1
    · intro same
      refine absurd (show 'd' ∈ (quad a.value).toList from ?_) (quad_without (by decide) (by decide) _)
      rw [same]
      decide
  deletes route kernel canonical _ := by
    have none' : known.find? (fun r => decide (routeArgs .add r = routeArgs .del route)) = none := by
      rw [List.find?_eq_none]
      intro r _
      rw [decide_eq_true_eq]
      exact action_ne
    show route.wanted ∉ ((listIp known).run (routeArgs .del route) kernel).1
    unfold listIp
    dsimp only
    rw [none']
    intro member
    exact of_decide_eq_true (List.mem_filter.mp member).2 (deletion_wanted canonical)

def monitoredRoute : StaticRoute where
  blackhole := false
  dst := ⟨"10.0.0.0/8", ⟨false, 0x0a000000, by decide⟩, 8, by decide, by decide⟩
  dev := some "p1"
  via := some ⟨"192.0.2.1", false, 0xc0000201, by decide⟩
  onlink := none
  metric := none
  table := none
  trackLink := some true
  monitor := some ⟨some true, some [⟨false, 0x0a000001, by decide⟩], none, none, none, some 1, none⟩
  sized := by decide
  single := by decide
  reached := by decide

def hostRoute : StaticRoute where
  blackhole := false
  dst := ⟨"192.0.2.9/32", ⟨false, 0xc0000209, by decide⟩, 32, by decide, by decide⟩
  dev := some "p1"
  via := none
  onlink := none
  metric := none
  table := none
  trackLink := some true
  monitor := none
  sized := by decide
  single := by decide
  reached := by decide

def smallIp : Ip (List KernelRoute) := listIp [monitoredRoute, hostRoute]

def linkUp : Links := ⟨fun _ => some [⟨["UP", "LOWER_UP"], [(⟨false, 0xc0000202, by decide⟩, 24)]⟩], fun _ => none⟩

def linkDown : Links := ⟨fun _ => some [⟨["UP"], [(⟨false, 0xc0000202, by decide⟩, 24)]⟩], fun _ => none⟩

def afterBoot (route : StaticRoute) : State StaticRoute (List KernelRoute) :=
  ⟨"boot", 100, [], linkUp, ⟨1, [route], ""⟩, none, fun _ => none, fun _ => []⟩

theorem afterBoot_booted (route : StaticRoute) : Booted (afterBoot route) :=
  ⟨rfl, rfl, rfl, show (0 : ℚ) ≤ 100 by decide⟩

theorem monitored_canonical : Canonical smallIp monitoredRoute := by
  refine ⟨by decide, ?_, by decide⟩
  intro gateway given
  cases given
  decide

/-- The first probe after a boot finds the path healthy. -/
theorem first_probe_follows :
    (step smallIp id (step smallIp id (afterBoot monitoredRoute) (.tick 0 false)).1 (.probed 0 (some [true]))).2.map Application.result =
        [.ok ⟨true, "eligible"⟩] ∧
      Follows smallIp id (step smallIp id (afterBoot monitoredRoute) (.tick 0 false)).1 (.probed 0 (some [true])) := by
  refine ⟨by decide +kernel, ?_⟩
  apply tracked_routes_follow smallIp (listIp_lawful _) id Function.injective_id (afterBoot monitoredRoute) _ (afterBoot_booted _)
    (.single ⟨.tick 0 false, rfl⟩)
  have one : applies (step smallIp id (afterBoot monitoredRoute) (.tick 0 false)).1 (.probed 0 (some [true])) = [monitoredRoute] := by
    decide +kernel
  intro route member
  rw [one] at member
  exact List.mem_singleton.mp member ▸ monitored_canonical

def hostDown : State StaticRoute (List KernelRoute) :=
  let added := (step smallIp id (afterBoot hostRoute) (.tick 0 false)).1
  (step smallIp id added (.world added.kernel linkDown)).1

theorem hostDown_tick : (step smallIp id hostDown (.tick 1 false)).2 =
    [⟨hostRoute, false, [hostRoute.wanted], .ok ⟨false, "link-down"⟩⟩] := by
  decide +kernel

/-- The route to the host stays when its link goes down, and is reported as withdrawn. -/
theorem host_route_stays :
    Booted (afterBoot hostRoute) ∧ Reaches smallIp id (afterBoot hostRoute) hostDown ∧ ¬Follows smallIp id hostDown (.tick 1 false) := by
  refine ⟨afterBoot_booted _, .tail (.single ⟨.tick 0 false, rfl⟩) ⟨_, rfl⟩, ?_⟩
  intro follows
  have holds := follows.applied _ (hostDown_tick ▸ List.mem_singleton_self _) _ rfl
  obtain ⟨-, fit, -⟩ := holds.mp (List.mem_singleton_self hostRoute.wanted)
  have down : baseReason hostDown.links hostRoute = .ok (some "link-down") := by decide +kernel
  cases down.symm.trans fit

end sample

end FfnNgfw.Route.Tracking
