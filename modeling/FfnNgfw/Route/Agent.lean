import FfnNgfw.Lib.Mirror

/-!
# The route agent

`ffn_route_agent.c` programs the kernel's routes and neighbours into the FIB and ARP
tables of the FPGA: a dump of each at the start, then the messages of a multicast
listener that is opened afterwards and opened anew after an error.
-/

namespace FfnNgfw.Route

/-! ### Netlink messages -/

def afInet : UInt8 := 2

def rtnUnicast : UInt8 := 1

def rtnBlackhole : UInt8 := 6

def rtnUnreachable : UInt8 := 7

def rtTableDefault : UInt8 := 253

def rtTableMain : UInt8 := 254

def maxVrfId : UInt32 := 255

inductive RtAttr where
  | dst (ip : UInt32)
  | gateway (ip : UInt32)
  | oif (ifindex : Int)
  | table (id : UInt32)
  | other
  deriving DecidableEq

/-- A route message after its type: `struct rtmsg` and the attributes. -/
structure RouteMsg where
  family : UInt8
  type : UInt8
  dstLen : UInt8
  table : UInt8
  attrs : List RtAttr
  deriving DecidableEq

inductive NdAttr where
  | dst (ip : UInt32)
  | lladdr (bytes : List UInt8)
  | other
  deriving DecidableEq

/-- A neighbour message after its type: `struct ndmsg` and the attributes. -/
structure NeighMsg where
  family : UInt8
  ifindex : Int
  state : UInt16
  attrs : List NdAttr
  deriving DecidableEq

inductive Msg where
  | route (n : Notice RouteMsg)
  | neigh (n : Notice NeighMsg)
  deriving DecidableEq

structure FibEntry where
  dstIp : UInt32
  prefixLen : UInt8
  nextHop : UInt32
  egressPort : UInt8
  vrfId : UInt8
  flags : UInt8
  deriving DecidableEq

/-- The driver finds a route by destination, prefix length and VRF. -/
structure FibKey where
  dstIp : UInt32
  prefixLen : UInt8
  vrfId : UInt8
  deriving DecidableEq

def FibEntry.key (e : FibEntry) : FibKey := ⟨e.dstIp, e.prefixLen, e.vrfId⟩

structure ArpEntry where
  ip : UInt32
  mac : List UInt8
  port : UInt8
  valid : Bool
  deriving DecidableEq

structure Device where
  fib : FibKey → Option FibEntry
  arp : UInt32 → Option ArpEntry

/-! ### The handlers -/

section handlers

-- `ifindex_to_port`: the port of an interface `ngfw0` to `ngfw3`, 0xFF for others.
variable (portOf : Int → UInt8)

def RouteMsg.vrf (m : RouteMsg) : UInt8 :=
  if m.table = rtTableMain ∨ m.table = rtTableDefault then 0 else m.table

def FibEntry.attr (e : FibEntry) : RtAttr → FibEntry
  | .dst ip => { e with dstIp := ip }
  | .gateway ip => { e with nextHop := ip }
  | .oif i => { e with egressPort := portOf i }
  | .table id => if id ≤ maxVrfId then { e with vrfId := id.toUInt8 } else e
  | .other => e

/-- The entry `handle_route_msg` makes of a message, `none` when it returns before. -/
def RouteMsg.fib (m : RouteMsg) : Option FibEntry :=
  if m.family ≠ afInet then none
  else if m.type ≠ rtnUnicast ∧ m.type ≠ rtnBlackhole ∧ m.type ≠ rtnUnreachable then none
  else
    let e : FibEntry := ⟨0, m.dstLen, 0, 0, m.vrf, if m.type = rtnBlackhole then 2 else 0⟩
    let e := m.attrs.foldl (FibEntry.attr portOf) e
    some (if e.nextHop = 0 ∧ m.type = rtnUnicast then { e with flags := e.flags ||| 1 } else e)

/-- `NUD_REACHABLE | NUD_STALE | NUD_DELAY | NUD_PROBE | NUD_PERMANENT` -/
def nudUsable : UInt16 := 0x02 ||| 0x04 ||| 0x08 ||| 0x10 ||| 0x80

def ArpEntry.attr (e : ArpEntry) : NdAttr → ArpEntry
  | .dst ip => { e with ip := ip }
  | .lladdr bytes => if 6 ≤ bytes.length then { e with mac := bytes.take 6 } else e
  | .other => e

def NeighMsg.arp (m : NeighMsg) (valid : Bool) : ArpEntry :=
  m.attrs.foldl ArpEntry.attr ⟨0, [0, 0, 0, 0, 0, 0], portOf m.ifindex, valid⟩

/-- The entry `handle_neigh_msg` adds for an `RTM_NEWNEIGH`. -/
def NeighMsg.added (m : NeighMsg) : Option ArpEntry :=
  if m.family ≠ afInet then none
  else if m.state &&& nudUsable = 0 then none
  else if (m.arp portOf true).ip = 0 then none
  else some (m.arp portOf true)

/-- The address `handle_neigh_msg` deletes for an `RTM_DELNEIGH`, whatever its state. -/
def NeighMsg.gone (m : NeighMsg) : Option UInt32 :=
  if m.family ≠ afInet then none
  else if (m.arp portOf false).ip = 0 then none
  else some (m.arp portOf false).ip

def RouteMsg.entry (m : RouteMsg) : Option (FibKey × FibEntry) := (m.fib portOf).map fun e => (e.key, e)

def RouteMsg.gone (m : RouteMsg) : Option FibKey := (m.fib portOf).map FibEntry.key

def NeighMsg.entry (m : NeighMsg) : Option (UInt32 × ArpEntry) := (m.added portOf).map fun e => (e.ip, e)

/-- `nl_recv_process` for one message. -/
def Device.handle (dev : Device) : Msg → Device
  | .route n => { dev with fib := Mirror.apply (RouteMsg.entry portOf) (RouteMsg.gone portOf) dev.fib n }
  | .neigh n => { dev with arp := Mirror.apply (NeighMsg.entry portOf) (NeighMsg.gone portOf) dev.arp n }

end handlers

/-! ### The kernel and the agent -/

/-- The kernel's tables, by what identifies a route or a neighbour there. -/
structure Kernel (I J : Type) where
  routes : Dict I RouteMsg
  neighs : Dict J NeighMsg

inductive Phase where
  /-- before `full_sync` -/
  | start
  /-- between the dump of routes and that of neighbours -/
  | routesDumped
  /-- `full_sync` is over, the listener is not yet open -/
  | synced
  | listening
  /-- the listener was closed after an error -/
  | closed
  deriving DecidableEq

structure World (I J : Type) where
  kernel : Kernel I J
  device : Device
  phase : Phase
  /-- the messages that wait in the listener's socket -/
  queue : List Msg

inductive Step (I J : Type) where
  | routes (c : ObjectChange I RouteMsg)
  | neighs (c : ObjectChange J NeighMsg)
  | dumpRoutes
  | dumpNeighs
  | openListener
  | process
  | fail
  deriving DecidableEq

variable {I J : Type} [DecidableEq I] [DecidableEq J] (portOf : Int → UInt8)

def World.tell (w : World I J) (told : List Msg) : List Msg := if w.phase = .listening then w.queue ++ told else w.queue

/-- A step the agent does not take in its phase leaves the world as it is. -/
def step (w : World I J) : Step I J → World I J
  | .routes c =>
    { w with
      kernel := { w.kernel with routes := Mirror.change w.kernel.routes c }
      queue := w.tell ((Mirror.notice w.kernel.routes c).toList.map .route) }
  | .neighs c =>
    { w with
      kernel := { w.kernel with neighs := Mirror.change w.kernel.neighs c }
      queue := w.tell ((Mirror.notice w.kernel.neighs c).toList.map .neigh) }
  | .dumpRoutes =>
    if w.phase = .start then
      { w with
        device := (w.kernel.routes.items.map fun r => Msg.route (.new r.2)).foldl (Device.handle portOf) w.device
        phase := .routesDumped }
    else w
  | .dumpNeighs =>
    if w.phase = .routesDumped then
      { w with
        device := (w.kernel.neighs.items.map fun n => Msg.neigh (.new n.2)).foldl (Device.handle portOf) w.device
        phase := .synced }
    else w
  | .openListener => if w.phase = .synced ∨ w.phase = .closed then { w with phase := .listening, queue := [] } else w
  | .process =>
    match w.phase, w.queue with
    | .listening, m :: queue => { w with device := w.device.handle portOf m, queue := queue }
    | _, _ => w
  | .fail => if w.phase = .listening then { w with phase := .closed, queue := [] } else w

def run (w : World I J) (steps : List (Step I J)) : World I J := steps.foldl (step portOf) w

def Device.empty : Device := ⟨fun _ => none, fun _ => none⟩

def World.boot (kernel : Kernel I J) : World I J := ⟨kernel, .empty, .start, []⟩

end FfnNgfw.Route

/-!
## The VRF of a route

`handle_route_msg` takes the VRF from the table in the header of a message and again from
the attribute with the whole number of the table. The kernel's header has room for tables
up to 255; it has `RT_TABLE_COMPAT` there for the others.
-/

namespace FfnNgfw.Route

def rtTableCompat : UInt8 := 252

structure RouteMsg.OfTable (m : RouteMsg) (id : UInt32) : Prop where
  header : m.table = if id < 256 then id.toUInt8 else rtTableCompat
  attached : RtAttr.table id ∈ m.attrs
  only : ∀ other, RtAttr.table other ∈ m.attrs → other = id

def Shared (id : UInt32) : Prop := id.toNat = rtTableMain.toNat ∨ id.toNat = rtTableDefault.toNat

/-- The tables whose header is `RT_TABLE_COMPAT`. -/
def Compat (id : UInt32) : Prop := id.toNat = rtTableCompat.toNat ∨ 255 < id.toNat

structure VrfsApart (id id' : UInt32) (e e' : FibEntry) : Prop where
  shared : Shared id → e.vrfId = 0
  shared' : Shared id' → e'.vrfId = 0
  apart : ¬Shared id → ¬Shared id' → id ≠ id' → e.vrfId ≠ e'.vrfId

variable {portOf portOf' : Int → UInt8} {m m' : RouteMsg} {id id' : UInt32} {e e' : FibEntry}

theorem attr_vrf (portOf : Int → UInt8) (e : FibEntry) (a : RtAttr) (only : ∀ other, a = .table other → other = id) :
    (e.attr portOf a).vrfId = if a = .table id ∧ id ≤ maxVrfId then id.toUInt8 else e.vrfId := by
  cases a with
  | table other =>
    obtain rfl := only other rfl
    simp only [FibEntry.attr, true_and]
    split <;> rfl
  | dst ip => simp [FibEntry.attr]
  | gateway ip => simp [FibEntry.attr]
  | oif i => simp [FibEntry.attr]
  | other => simp [FibEntry.attr]

theorem attrs_vrf {attrs : List RtAttr} (only : ∀ other, RtAttr.table other ∈ attrs → other = id) (e : FibEntry) :
    (attrs.foldl (FibEntry.attr portOf) e).vrfId = if RtAttr.table id ∈ attrs ∧ id ≤ maxVrfId then id.toUInt8 else e.vrfId := by
  induction attrs generalizing e with
  | nil => simp
  | cons a attrs ih =>
    have later := ih (fun other member => only other (List.mem_cons_of_mem _ member)) (e.attr portOf a)
    have here := attr_vrf portOf e a fun other same => only other (by rw [same]; exact List.mem_cons_self)
    rw [List.foldl_cons, later, here]
    by_cases small : id ≤ maxVrfId
    · by_cases first : a = .table id
      · simp [small, first]
      · simp [small, first, Ne.symm first]
    · simp [small]

theorem fib_attrs (made : m.fib portOf = some e) : ∃ start, start.vrfId = m.vrf ∧
    e.vrfId = (m.attrs.foldl (FibEntry.attr portOf) start).vrfId := by
  unfold RouteMsg.fib at made
  split at made
  · cases made
  · split at made
    · cases made
    · refine ⟨⟨0, m.dstLen, 0, 0, m.vrf, if m.type = rtnBlackhole then 2 else 0⟩, rfl, ?_⟩
      rw [← Option.some.inj made]
      generalize m.attrs.foldl (FibEntry.attr portOf) _ = last
      split <;> rfl

theorem fib_vrf (sent : m.OfTable id) (made : m.fib portOf = some e) :
    e.vrfId.toNat = if id.toNat ≤ 255 then id.toNat else 252 := by
  obtain ⟨start, header, vrf⟩ := fib_attrs made
  rw [vrf, attrs_vrf sent.only, header]
  have whole : maxVrfId.toNat = 255 := rfl
  by_cases small : id.toNat ≤ 255
  · have fits : id ≤ maxVrfId := UInt32.le_iff_toNat_le.mpr small
    rw [if_pos ⟨sent.attached, fits⟩, if_pos small, UInt32.toNat_toUInt8]
    omega
  · have large : ¬id ≤ maxVrfId := fun fits => small (UInt32.le_iff_toNat_le.mp fits)
    have high : ¬id < 256 := by
      intro below
      have : id.toNat < 256 := UInt32.lt_iff_toNat_lt.mp below
      omega
    rw [if_neg fun both => large both.2, if_neg small, RouteMsg.vrf, sent.header, if_neg high]
    rfl

theorem vrf_ne_zero (sent : m.OfTable id) (made : m.fib portOf = some e) (shared : Shared id) : e.vrfId ≠ 0 := by
  intro zero
  have vrf := fib_vrf sent made
  have main : id.toNat = 254 ∨ id.toNat = 253 := shared
  rw [zero, if_pos (by omega)] at vrf
  have : (0 : UInt8).toNat = 0 := rfl
  omega

theorem vrf_eq_iff (sent : m.OfTable id) (made : m.fib portOf = some e) (sent' : m'.OfTable id') (made' : m'.fib portOf' = some e') :
    e.vrfId = e'.vrfId ↔ id = id' ∨ (Compat id ∧ Compat id') := by
  have compat : ∀ n : UInt32, Compat n ↔ n.toNat = 252 ∨ 255 < n.toNat := fun _ => Iff.rfl
  rw [← UInt8.toNat_inj, fib_vrf sent made, fib_vrf sent' made', ← UInt32.toNat_inj, compat, compat]
  constructor
  · intro same
    split at same <;> split at same <;> omega
  · intro cases'
    split <;> split <;> omega

theorem vrfs_apart_iff (portOf portOf' : Int → UInt8) (m m' : RouteMsg) (id id' : UInt32) (e e' : FibEntry)
    (sent : m.OfTable id) (sent' : m'.OfTable id') (made : m.fib portOf = some e) (made' : m'.fib portOf' = some e') :
    VrfsApart id id' e e' ↔ ¬Shared id ∧ ¬Shared id' ∧ (id = id' ∨ ¬(Compat id ∧ Compat id')) := by
  constructor
  · intro right
    have own : ¬Shared id := fun shared => vrf_ne_zero sent made shared (right.shared shared)
    have own' : ¬Shared id' := fun shared => vrf_ne_zero sent' made' shared (right.shared' shared)
    refine ⟨own, own', ?_⟩
    by_cases same : id = id'
    · exact .inl same
    · right
      intro both
      exact right.apart own own' same ((vrf_eq_iff sent made sent' made').mpr (.inr both))
  · rintro ⟨own, own', together⟩
    refine ⟨fun shared => absurd shared own, fun shared => absurd shared own', fun _ _ other same => ?_⟩
    rcases (vrf_eq_iff sent made sent' made').mp same with equal | both
    · exact other equal
    · exact (together.resolve_left other) both

def unicastOf (table : UInt8) (id : UInt32) : RouteMsg := ⟨afInet, rtnUnicast, 24, table, [.table id, .dst 0x0A000000]⟩

theorem unicastOf_fib (table : UInt8) (id : UInt32) :
    (unicastOf table id).fib (fun _ => 0) = some (((unicastOf table id).fib fun _ => 0).get rfl) := by
  exact (Option.some_get _).symm

theorem unicastOf_sent {table : UInt8} {id : UInt32} (header : table = if id < 256 then id.toUInt8 else rtTableCompat) :
    (unicastOf table id).OfTable id := by
  refine ⟨header, List.mem_cons_self, fun other member => ?_⟩
  rcases List.mem_cons.mp member with same | later
  · exact RtAttr.table.inj same
  · cases List.mem_singleton.mp later

theorem vrfs_apart_ten_twenty :
    VrfsApart 10 20 (((unicastOf 10 10).fib fun _ => 0).get rfl) (((unicastOf 20 20).fib fun _ => 0).get rfl) :=
  (vrfs_apart_iff _ _ _ _ _ _ _ _ (unicastOf_sent rfl) (unicastOf_sent rfl) (unicastOf_fib 10 10) (unicastOf_fib 20 20)).mpr
    ⟨by unfold Shared; decide, by unfold Shared; decide, .inr (by unfold Compat; decide)⟩

/-- A route of the main table is programmed into VRF 254. -/
theorem main_not_vrf_zero : ¬∀ (portOf portOf' : Int → UInt8) (m m' : RouteMsg) (id id' : UInt32) (e e' : FibEntry),
    m.OfTable id → m'.OfTable id' → m.fib portOf = some e → m'.fib portOf' = some e' → VrfsApart id id' e e' := by
  intro all
  have sent : (unicastOf 254 254).OfTable 254 := unicastOf_sent rfl
  have right := all _ _ _ _ _ _ _ _ sent sent (unicastOf_fib 254 254) (unicastOf_fib 254 254)
  exact absurd (right.shared (.inl rfl)) (by decide)

end FfnNgfw.Route
