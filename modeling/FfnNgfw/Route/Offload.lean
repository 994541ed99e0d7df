import FfnNgfw.Lib.Dict
import FfnNgfw.Lib.Fallible
import FfnNgfw.Policy.Objects
import Mathlib.Data.List.MinMax
import Mathlib.Data.Prod.Lex

/-!
# Offload plans

A plan for a session that may leave the kernel: the pair of interfaces that the kernel's routes
select among those its rule authorises, and the next hop of either direction. The rows of a
snapshot are typed as the commands print them, with what may be missing; a plan that fails
anywhere is not available and says why.
-/

namespace FfnNgfw.Offload

open Policy (ipv4Address prefixLength dotted)

inductive Scalar where
  | int (n : Int)
  | text (s : String)
  | other
  deriving DecidableEq

structure VlanData where
  protocol : Option String
  id : Option Scalar
  deriving DecidableEq

structure LinkInfo where
  kind : Option String
  data : Option VlanData
  deriving DecidableEq

structure Link where
  ifname : String
  ifindex : Int
  ifalias : Option String
  address : Option String
  mtu : Option Int
  flags : List String
  link : Option String
  linkIndex : Option Int
  master : Option String
  linkinfo : Option LinkInfo
  deriving DecidableEq

/-- `keys` are the further keys of the row. -/
structure Route where
  dst : Option String
  dev : Option String
  gateway : Option String
  metric : Option Scalar
  type : Option String
  tos : Option Scalar
  flags : List String
  table : Option Scalar
  metrics : List String
  keys : List String
  deriving DecidableEq

structure Rule where
  priority : Option Int
  src : Option String
  table : Option Scalar
  keys : List String

structure Neighbor where
  dst : Option String
  dev : Option String
  lladdr : Option String
  valid : Option Bool
  state : List String
  deriving DecidableEq

/-- `addresses` holds what each interface has as local addresses. -/
structure Snapshot where
  links : List Link
  addresses : List (List (Option String))
  routes : List Route
  rules : List Rule
  neighbors : List Neighbor

structure Binding where
  device : Option String
  index : Option Int
  ifalias : Option String

/-- A session; `rule` holds the pairs of interfaces that its rule authorises. -/
structure Row where
  softwareCandidate : Bool
  rule : Option (List (String × String))
  source : String
  translatedDestination : String

structure Parent where
  ifname : String
  ifindex : Int
  ifalias : Option String
  deriving DecidableEq

structure Attachment where
  interface : String
  device : String
  index : Int
  ifalias : String
  sourceMac : String
  mtu : Int
  vlan : Option (Int × Parent)
  deriving DecidableEq

structure Direction where
  target : Attachment
  destination : String
  nextHop : String
  destinationMac : String
  route : Route
  deriving DecidableEq

structure Plan where
  available : Bool
  blockers : List String
  directions : List Direction
  pair : Option (String × String)
  deriving DecidableEq

/-! ### Checks -/

def need (ok : Bool) (message : String) : Except String Unit := if ok then .ok () else .error message

def found {α : Type} (o : Option α) (message : String) : Except String α :=
  match o with
  | some x => .ok x
  | none => .error message

def single {α : Type} (xs : List α) (message : String) : Except String α :=
  match xs with
  | [x] => .ok x
  | _ => .error message

def nudValid : List String := ["PERMANENT", "NOARP", "REACHABLE", "PROBE", "STALE", "DELAY"]

def neighborValid (n : Neighbor) : Bool :=
  match n.valid with
  | some valid => valid
  | none => n.state.any (· ∈ nudValid) && n.lladdr.any (· ≠ "")

def isHex (c : Char) : Bool := ('0' ≤ c && c ≤ '9') || ('a' ≤ c && c ≤ 'f') || ('A' ≤ c && c ≤ 'F')

def hexValue (c : Char) : Nat := if c ≤ '9' then c.toNat - 48 else if c ≤ 'F' then c.toNat - 55 else c.toNat - 87

def macOctets (s : List Char) : Option (List Nat) :=
  let parts := s.splitOn ':'
  if parts.length = 6 ∧ parts.all (fun p => p.length = 2 && p.all isHex) then some (parts.map fun p =>
    p.foldl (fun n c => 16 * n + hexValue c) 0)
  else none

def unicastMac (value : Option String) : Except String String := do
  let text ← found value "Unresolved Ethernet MAC address"
  let raw ← found (macOctets text.toList) "Unresolved Ethernet MAC address"
  need (raw.any (· ≠ 0) && raw.head?.all (· % 2 = 0)) "Unicast Ethernet MAC address required"
  return String.ofList (text.toList.map Char.toLower)

def tableName : Option Scalar → Option Scalar
  | some (.int 253) => some (.text "default")
  | some (.int 254) => some (.text "main")
  | some (.int 255) => some (.text "local")
  | table => table

def expectedRules : List (Option Int × Option Scalar) :=
  [(some 0, some (.text "local")), (some 32766, some (.text "main")), (some 32767, some (.text "default"))]

def mainTableOnly (state : Snapshot) : Except String Unit := do
  need (state.rules.all fun r => r.keys.all (· ∈ ["priority", "src", "table", "protocol"]) && r.src = some "all")
    "Policy routing requires a qualified hardware route resolver"
  let actual := state.rules.map fun r => (r.priority, tableName r.table)
  need (actual.all (· ∈ expectedRules) && expectedRules.all (· ∈ actual) && state.rules.length = 3)
    "Policy routing requires a qualified hardware route resolver"

def operational (l : Link) : Bool := "UP" ∈ l.flags && "LOWER_UP" ∈ l.flags

def enslaved (l : Link) : Bool := l.master.any (· ≠ "")

def kindOf (l : Link) : Option String := l.linkinfo.bind LinkInfo.kind

def vlanTag (data : VlanData) : Option Int :=
  match data.id with
  | some (.int tag) => if data.protocol.getD "802.1Q" = "802.1Q" ∧ 1 ≤ tag ∧ tag ≤ 4094 then some tag else none
  | _ => none

def vlanOf (link : Link) (state : Snapshot) : Except String (Option (Int × Parent)) :=
  match kindOf link with
  | none => .ok none
  | some kind =>
    if kind = "vlan" then do
      let data ← found (link.linkinfo.bind LinkInfo.data) "'info_data'"
      let tag ← found (vlanTag data) "Unsupported VLAN attachment"
      let parents := state.links.filter fun p => some p.ifindex = link.linkIndex || some p.ifname = link.link
      let parent ← single parents "Missing or stacked VLAN parent"
      need (kindOf parent ≠ some "vlan") "Missing or stacked VLAN parent"
      need (operational parent && !enslaved parent) "VLAN parent is not an operational standalone attachment"
      return some (tag, ⟨parent.ifname, parent.ifindex, parent.ifalias⟩)
    else if kind = "tun" then .ok none
    else .error ("Unsupported hardware attachment kind: " ++ kind)

def attachment (name : String) (bindings : Dict String Binding) (state : Snapshot) : Except String Attachment := do
  let binding ← found (bindings.lookup name) ("No acknowledged binding for " ++ name)
  let link ← single (state.links.filter fun l => some l.ifname = binding.device) ("Bound interface is missing: " ++ name)
  need (some link.ifindex = binding.index && some (link.ifalias.getD "") = binding.ifalias) ("Interface ownership changed: " ++ name)
  need (operational link) ("Interface has no operational carrier: " ++ name)
  need (!enslaved link) ("Bridged or VRF attachment requires hardware qualification: " ++ name)
  let mac ← unicastMac link.address
  let mtu ← found link.mtu "'mtu'"
  let vlan ← vlanOf link state
  return ⟨name, link.ifname, link.ifindex, link.ifalias.getD "", mac, mtu, vlan⟩

/-! ### Routes -/

/-- `ipaddress.IPv4Network`, which admits no host bits. -/
def ipv4Network (s : List Char) : Option (UInt32 × Nat) :=
  match s.splitOn '/' with
  | [a] => (ipv4Address a).map fun a => (a, 32)
  | [a, len] => do
    let a ← ipv4Address a
    let len ← prefixLength len
    guard (a.toNat % 2 ^ (32 - len) = 0)
    return (a, len)
  | _ => none

namespace Route

def network (r : Route) : Option (UInt32 × Nat) :=
  match r.dst with
  | none => some (0, 0)
  | some dst => if dst = "default" then some (0, 0) else ipv4Network dst.toList

def covers (r : Route) (address : UInt32) : Bool := r.network.any fun n => address.toNat >>> (32 - n.2) = n.1.toNat >>> (32 - n.2)

def length (r : Route) : Nat := (r.network.map Prod.snd).getD 0

def cost (r : Route) : Option Int :=
  match r.metric with
  | none => some 0
  | some (.int n) => some n
  | some _ => none

def rank (r : Route) (metric : Int) : Nat ×ₗ Int := toLex (r.length, -metric)

/-- Nothing that would not forward to one next hop in the plain way. -/
def plain (r : Route) : Bool :=
  r.type.getD "unicast" = "unicast" && !(["nexthops", "nhid", "encap", "via", "expires"].any (· ∈ r.keys)) &&
    r.tos.getD (.int 0) ∈ [.int 0, .text "0x00"] && r.flags.all (· = "onlink") && r.table.getD (.text "main") ∈ [.text "main", .int 254]

end Route

def choices (address : UInt32) : List Route → Except String (List ((Nat ×ₗ Int) × Route))
  | [] => .ok []
  | route :: rest => do
    let _ ← found route.network ("not an IPv4 network: " ++ route.dst.getD "")
    if route.covers address then
      let metric ← found route.cost "Unsupported route metric"
      let later ← choices address rest
      return (route.rank metric, route) :: later
    else choices address rest

def special (a : UInt32) : Bool := a = 0 || a.toNat >>> 28 = 14 || a.toNat >>> 24 = 127 || a.toNat >>> 16 = 0xa9fe

-- The order of ranks by instances that can be computed.
instance rankOrder : LinearOrder (Nat ×ₗ Int) := @Prod.Lex.instLinearOrder Nat Int inferInstance Int.instLinearOrder

instance rankPreorder : Preorder (Nat ×ₗ Int) := rankOrder.toPreorder

instance rankLt : DecidableLT (Nat ×ₗ Int) := rankOrder.toDecidableLT

def highest (destination : String) (choices : List ((Nat ×ₗ Int) × Route)) : Except String Route := do
  let rank ← found ((choices.map Prod.fst).argmax id) ("No route to " ++ destination)
  single ((choices.filter fun c => c.1 = rank).map Prod.snd) "Ambiguous or multipath route"

def routeFor (destination : String) (state : Snapshot) : Except String Route := do
  let address ← found (ipv4Address destination.toList) ("not an IPv4 address: " ++ destination)
  need (!special address) "Destination requires the software exception path"
  need (!state.addresses.any fun row =>
    some (dotted address) ∈ row) "Firewall-local destination must remain on the management-profile path"
  let choices ← choices address state.routes
  let route ← highest destination choices
  need route.plain "Selected route requires the software exception path"
  return route

def deviceOf (bindings : Dict String Binding) (name : String) : Option String := (bindings.lookup name).bind Binding.device

def selectPair (pairs : List (String × String)) (forwardDestination reverseDestination : String)
    (bindings : Dict String Binding) (state : Snapshot) :
    Except String (String × String) :=
  match pairs with
  | [] => .error "No interface pair is authorised for this session"
  | [pair] => .ok pair
  | _ => do
    let forward ← routeFor forwardDestination state
    let reverse ← routeFor reverseDestination state
    single (pairs.filter fun pair => deviceOf bindings pair.1 = reverse.dev && deviceOf bindings pair.2 = forward.dev)
      ("Routes select " ++ reverse.dev.getD "None" ++ " to " ++ forward.dev.getD "None" ++
        ", which the rule does not authorise as an interface pair")

def resolve (destination outgoing : String) (bindings : Dict String Binding) (state : Snapshot) : Except String Direction := do
  let route ← routeFor destination state
  let target ← attachment outgoing bindings state
  need (route.dev = some target.device) "Route egress disagrees with the authorized interface pair"
  let hop ← found (ipv4Address (route.gateway.getD destination).toList) ("not an IPv4 address: " ++ route.gateway.getD destination)
  let neighbor ← single (state.neighbors.filter fun n => n.dev = some target.device && n.dst = some (dotted hop))
    ("Next-hop neighbor is unresolved: " ++ dotted hop)
  need (neighborValid neighbor) ("Next-hop neighbor is not valid for forwarding: " ++ dotted hop)
  need route.metrics.isEmpty "Route metrics require hardware qualification"
  let mac ← unicastMac neighbor.lladdr
  return ⟨target, destination, dotted hop, mac, route⟩

def directions (row : Row) (bindings : Dict String Binding) (state : Snapshot) :
    Except String ((String × String) × Direction × Direction) := do
  mainTableOnly state
  let pairs ← found row.rule "'NoneType' object is not subscriptable"
  let pair ← selectPair pairs row.translatedDestination row.source bindings state
  let _ ← attachment pair.1 bindings state
  let forward ← resolve row.translatedDestination pair.2 bindings state
  let reverse ← resolve row.source pair.1 bindings state
  return (pair, forward, reverse)

def plan (row : Row) (bindings : Dict String Binding) (state : Snapshot) : Plan :=
  if !row.softwareCandidate then ⟨false, ["Session is not an acknowledged software candidate"], [], none⟩
  else
    match directions row bindings state with
    | .ok (pair, forward, reverse) => ⟨true, [], [forward, reverse], some pair⟩
    | .error message => ⟨false, [message], [], none⟩

/-! ### What an available plan says -/

/-- `other` gives way to `route`: its prefix is shorter, or it is as long and the metric is higher. -/
def Outranks (route other : Route) : Prop :=
  other.length < route.length ∨ other.length = route.length ∧ ∃ m n, route.cost = some m ∧ other.cost = some n ∧ m < n

/-- The one unicast route of the main table that the kernel forwards by: every other one that
covers the address gives way to it. -/
structure Best (table : List Route) (address : UInt32) (route : Route) : Prop where
  covers : route.covers address = true
  plain : route.plain = true
  alone : ∃ rest, table.Perm (route :: rest) ∧ ∀ other ∈ rest, other.covers address = true → Outranks route other

/-- A direction follows the routes out of the interface `name`. -/
structure Follows (bindings : Dict String Binding) (state : Snapshot) (name destination : String) (d : Direction) : Prop where
  asked : d.destination = destination
  best : ∃ address, ipv4Address destination.toList = some address ∧ Best state.routes address d.route
  bound : deviceOf bindings name = some d.target.device
  leaves : d.route.dev = some d.target.device
  hop : ∃ hop, ipv4Address (d.route.gateway.getD destination).toList = some hop ∧ d.nextHop = dotted hop
  neighbor : ∃ n, state.neighbors.filter (fun n => n.dev = some d.target.device && n.dst = some d.nextHop) = [n] ∧
    neighborValid n = true ∧
    unicastMac n.lladdr = .ok d.destinationMac

section proofs

variable {α : Type} {bindings : Dict String Binding} {state : Snapshot} {destination name message : String}
  {address : UInt32} {route : Route}

theorem need_ok {ok : Bool} {u : Unit} (h : need ok message = .ok u) : ok = true := by
  unfold need at h
  split at h
  · assumption
  · cases h

theorem found_ok {o : Option α} {x : α} (h : found o message = .ok x) : o = some x := by
  cases o with
  | none => cases h
  | some y => exact congrArg some (Except.ok.inj h)

theorem single_ok {xs : List α} {x : α} (h : single xs message = .ok x) : xs = [x] := by
  unfold single at h
  split at h
  · rw [Except.ok.inj h]
  · cases h

theorem choices_ok {routes : List Route} {cs : List ((Nat ×ₗ Int) × Route)} (h : choices address routes = .ok cs) :
    cs.map Prod.snd = routes.filter (fun r => r.covers address) ∧ ∀ c ∈ cs, ∃ m, c.2.cost = some m ∧ c.1 = c.2.rank m := by
  induction routes generalizing cs with
  | nil =>
    obtain rfl := Except.ok.inj h
    exact ⟨rfl, fun c no => (nomatch no)⟩
  | cons r rest ih =>
    obtain ⟨_, -, h⟩ := bind_ok h
    split at h
    · rename_i covers
      obtain ⟨metric, cost, h⟩ := bind_ok h
      obtain ⟨later, more, h⟩ := bind_ok h
      obtain rfl := Except.ok.inj h
      obtain ⟨same, ranked⟩ := ih more
      refine ⟨?_, fun c member => ?_⟩
      · rw [List.map_cons, same, List.filter_cons_of_pos (p := fun r : Route => r.covers address) covers]
      · rcases List.mem_cons.mp member with rfl | member
        · exact ⟨metric, found_ok cost, rfl⟩
        · exact ranked c member
    · rename_i covers
      rw [List.filter_cons_of_neg (p := fun r : Route => r.covers address) covers]
      exact ih h

theorem outranks_of_lt {other : Route} {m n : Int} (cost : route.cost = some m) (cost' : other.cost = some n)
    (less : other.rank n < route.rank m) :
    Outranks route other := by
  rcases Prod.Lex.toLex_lt_toLex.mp less with shorter | ⟨same, higher⟩
  · exact .inl shorter
  · refine .inr ⟨same, m, n, cost, cost', ?_⟩
    have higher : -n < -m := higher
    omega

theorem highest_best {cs : List ((Nat ×ₗ Int) × Route)} (listed : choices address state.routes = .ok cs)
    (top : highest destination cs = .ok route)
    (plain : route.plain = true) : Best state.routes address route := by
  obtain ⟨same, ranked⟩ := choices_ok listed
  obtain ⟨rank, maximum, one⟩ := bind_ok top
  obtain ⟨-, maximum, -⟩ := List.argmax_eq_some_iff.mp (found_ok maximum)
  have one := single_ok one
  obtain ⟨c, only, rfl⟩ := List.map_eq_singleton_iff.mp one
  have inside : c ∈ cs.filter fun c => c.1 = rank := only ▸ List.mem_singleton_self c
  obtain ⟨member, first⟩ := List.mem_filter.mp inside
  have first : c.1 = rank := of_decide_eq_true first
  have covered : ∀ x ∈ cs, x.2 ∈ state.routes.filter fun r => r.covers address := fun x there => same ▸ List.mem_map_of_mem there
  obtain ⟨m, cost, rankEq⟩ := ranked c member
  have split := (List.filter_append_perm (fun c => decide (c.1 = rank)) cs).symm
  rw [only] at split
  have routes := (List.filter_append_perm (fun r => r.covers address) state.routes).symm
  rw [← same] at routes
  refine ⟨(List.mem_filter.mp (covered c member)).2, plain, _, routes.trans ((split.map Prod.snd).append_right _),
    fun other there covers => ?_⟩
  rcases List.mem_append.mp there with chosen | out
  · obtain ⟨x, kept, rfl⟩ := List.mem_map.mp chosen
    obtain ⟨candidate, lower⟩ := List.mem_filter.mp kept
    obtain ⟨n, cost', rankEq'⟩ := ranked x candidate
    have other : x.1 ≠ rank := by simpa using lower
    have less := lt_of_le_of_ne (maximum x.1 (List.mem_map_of_mem candidate)) other
    rw [rankEq', ← first, rankEq] at less
    exact outranks_of_lt cost cost' less
  · have uncovered := (List.mem_filter.mp out).2
    rw [covers] at uncovered
    cases uncovered

theorem routeFor_best (h : routeFor destination state = .ok route) : ∃ address, ipv4Address destination.toList = some address ∧
    Best state.routes address route := by
  obtain ⟨address, read, h⟩ := bind_ok h
  obtain ⟨_, -, h⟩ := bind_ok h
  obtain ⟨_, -, h⟩ := bind_ok h
  obtain ⟨cs, listed, h⟩ := bind_ok h
  obtain ⟨r, top, h⟩ := bind_ok h
  obtain ⟨_, plain, h⟩ := bind_ok h
  obtain rfl := Except.ok.inj h
  exact ⟨address, found_ok read, highest_best listed top (need_ok plain)⟩

theorem attachment_bound {target : Attachment} (h : attachment name bindings state = .ok target) :
    deviceOf bindings name = some target.device := by
  obtain ⟨binding, known, h⟩ := bind_ok h
  obtain ⟨link, one, h⟩ := bind_ok h
  obtain ⟨_, -, h⟩ := bind_ok h
  obtain ⟨_, -, h⟩ := bind_ok h
  obtain ⟨_, -, h⟩ := bind_ok h
  obtain ⟨mac, -, h⟩ := bind_ok h
  obtain ⟨mtu, -, h⟩ := bind_ok h
  obtain ⟨vlan, -, h⟩ := bind_ok h
  obtain rfl := Except.ok.inj h
  have member : link ∈ state.links.filter fun l => some l.ifname = binding.device := single_ok one ▸ List.mem_singleton_self link
  have device := of_decide_eq_true (List.mem_filter.mp member).2
  rw [deviceOf, found_ok known]
  exact device.symm

theorem resolve_follows {d : Direction} (h : resolve destination name bindings state = .ok d) :
    Follows bindings state name destination d := by
  obtain ⟨route, routed, h⟩ := bind_ok h
  obtain ⟨target, attached, h⟩ := bind_ok h
  obtain ⟨_, leaves, h⟩ := bind_ok h
  obtain ⟨hop, read, h⟩ := bind_ok h
  obtain ⟨neighbor, one, h⟩ := bind_ok h
  obtain ⟨_, valid, h⟩ := bind_ok h
  obtain ⟨_, -, h⟩ := bind_ok h
  obtain ⟨mac, unicast, h⟩ := bind_ok h
  obtain rfl := Except.ok.inj h
  exact ⟨rfl, routeFor_best routed, attachment_bound attached, of_decide_eq_true (need_ok leaves),
    ⟨hop, found_ok read, rfl⟩, neighbor, single_ok one,
    need_ok valid, unicast⟩

theorem selectPair_mem {pairs : List (String × String)} {forward reverse : String} {pair : String × String}
    (h : selectPair pairs forward reverse bindings state = .ok pair) : pair ∈ pairs := by
  unfold selectPair at h
  split at h
  · cases h
  · obtain rfl := Except.ok.inj h
    exact List.mem_singleton_self _
  · obtain ⟨there, -, h⟩ := bind_ok h
    obtain ⟨back, -, h⟩ := bind_ok h
    have one := single_ok h
    exact (List.mem_filter.mp (one ▸ List.mem_singleton_self pair)).1

/-- An available plan follows the kernel's routes. -/
theorem plan_follows_routes {row : Row} (available : (plan row bindings state).available = true) :
    ∃ pairs pair forward reverse, row.rule = some pairs ∧ pair ∈ pairs ∧
      plan row bindings state = ⟨true, [], [forward, reverse], some pair⟩ ∧
      Follows bindings state pair.2 row.translatedDestination forward ∧ Follows bindings state pair.1 row.source reverse := by
  unfold plan at available ⊢
  split at available
  · cases available
  · rename_i candidate
    rw [if_neg candidate]
    cases shape : directions row bindings state with
    | error message =>
      rw [shape] at available
      cases available
    | ok found =>
      obtain ⟨_, -, h⟩ := bind_ok shape
      obtain ⟨pairs, rule, h⟩ := bind_ok h
      obtain ⟨pair, selected, h⟩ := bind_ok h
      obtain ⟨_, -, h⟩ := bind_ok h
      obtain ⟨forward, out, h⟩ := bind_ok h
      obtain ⟨reverse, back, h⟩ := bind_ok h
      obtain rfl := Except.ok.inj h
      exact ⟨pairs, pair, forward, reverse, found_ok rule, selectPair_mem selected, rfl, resolve_follows out, resolve_follows back⟩

end proofs

def samplePort (name : String) (index : Int) (ifalias : String) : Link :=
  ⟨name, index, some ifalias, some "02:00:00:00:00:01", some 1500, ["UP", "LOWER_UP"], none, none, none, none⟩

def sampleRoute (dst : String) (dev : String) (gateway : Option String) : Route :=
  ⟨some dst, some dev, gateway, none, none, none, [], none, [], []⟩

def sampleRule (priority : Int) (table : String) : Rule := ⟨some priority, some "all", some (.text table), ["priority", "src", "table"]⟩

def sampleState : Snapshot where
  links := [{ samplePort "trunk.80" 10 "owner:unit" with
    linkIndex := some 11, linkinfo := some ⟨some "vlan", some ⟨some "802.1Q", some (.int 80)⟩⟩ },
    samplePort "trunk" 11 "owner", samplePort "p7" 12 ""]
  addresses := [[some "192.0.2.1"]]
  routes := [sampleRoute "192.0.2.0/24" "trunk.80" none, sampleRoute "default" "p7" (some "203.0.113.1")]
  rules := [sampleRule 0 "local", sampleRule 32766 "main", sampleRule 32767 "default"]
  neighbors := [⟨some "192.0.2.5", some "trunk.80", some "02:00:00:00:00:05", none, ["REACHABLE"]⟩,
    ⟨some "203.0.113.1", some "p7", some "02:00:00:00:00:07", none, ["PERMANENT"]⟩]

def sampleBindings : Dict String Binding :=
  Dict.ofItems [("lan", ⟨some "trunk.80", some 10, some "owner:unit"⟩), ("wan", ⟨some "p7", some 12, some ""⟩)]

def sampleRow : Row := ⟨true, some [("lan", "wan")], "192.0.2.5", "198.51.100.5"⟩

theorem sample_follows_routes :
    ∃ pairs pair forward reverse, sampleRow.rule = some pairs ∧ pair ∈ pairs ∧
      plan sampleRow sampleBindings sampleState = ⟨true, [], [forward, reverse], some pair⟩ ∧
      Follows sampleBindings sampleState pair.2 sampleRow.translatedDestination forward ∧
      Follows sampleBindings sampleState pair.1 sampleRow.source reverse :=
  plan_follows_routes (by decide +kernel)

end FfnNgfw.Offload
