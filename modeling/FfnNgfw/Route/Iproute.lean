import Mathlib.Algebra.Group.Nat.Defs
import Mathlib.Data.List.Basic
import Mathlib.Tactic.Common

/-!
# Static routes and what `ip` shows of them

A static route is in the kernel for the network module when a row of `ip route show` reads like it, text for text. `ip` has its own
way to print a destination: it leaves out the length where that is a single host, and spells every address as `inet_ntop` does.
-/

namespace FfnNgfw.Route.Tracking

/-! ### Routes as they are configured -/

/-- An address of either version. -/
structure Address where
  six : Bool
  value : Nat
  small : value < 2 ^ (if six then 128 else 32)
deriving DecidableEq

def Address.bits (a : Address) : Nat := if a.six then 128 else 32

def Address.isLinkLocal (a : Address) : Bool := if a.six then a.value >>> 118 = 0x3fa else a.value >>> 16 = 0xa9fe

def Address.inNetwork (a : Address) (network : Address × Nat) : Bool :=
  a.six = network.1.six && a.value >>> (a.bits - network.2) = network.1.value >>> (a.bits - network.2)

/-- A network without host bits. -/
structure Prefix where
  address : Address
  length : Nat
  fits : length ≤ address.bits
  masked : address.value % 2 ^ (address.bits - length) = 0
deriving DecidableEq

/-- What a text of the configuration stands for. -/
structure Spelled (α : Type) where
  text : String
  value : α
deriving DecidableEq

inductive FailureCondition where
  | any
  | all
deriving DecidableEq

/-- Path monitoring as it is configured. -/
structure RawMonitor where
  enabled : Option Bool
  targets : Option (List Address)
  interval : Option Nat
  timeout : Option Nat
  failureCount : Option Nat
  recoveryCount : Option Nat
  failureCondition : Option FailureCondition
deriving DecidableEq

/-- A route of a configuration that `validate` has accepted. -/
structure StaticRoute where
  blackhole : Bool
  dst : Spelled Prefix
  dev : Option String
  via : Option (Spelled Address)
  onlink : Option Bool
  metric : Option Nat
  table : Option Nat
  trackLink : Option Bool
  monitor : Option RawMonitor
  sized : '/' ∈ dst.text.toList
  single : trackLink = some true → blackhole = false ∧ dev.isSome
  reached : onlink = some true → via.isSome
deriving DecidableEq

def StaticRoute.six (route : StaticRoute) : Bool := route.dst.value.address.six

def StaticRoute.type (route : StaticRoute) : String := if route.blackhole then "blackhole" else "unicast"

/-- A route as the kernel has it. -/
structure KernelRoute where
  dst : Prefix
  table : Nat
  metric : Nat
  protocol : String
  type : String
  gateway : Option Address
  dev : Option String
  onlink : Bool
deriving DecidableEq

/-- A row of `ip -j route show`. -/
structure Row where
  dst : String
  gateway : Option String
  dev : Option String
  protocol : String
  metric : Option Nat
  type : Option String
  flags : List String

inductive Action where
  | add
  | del
deriving DecidableEq

/-- The `ip` command with the kernel behind it: the kernel's routes, whether it can show a table, what a command does and whether it
succeeds, and `inet_ntop`. -/
structure Ip (Kernel : Type) where
  routes : Kernel → List KernelRoute
  shows : Kernel → Bool → Nat → Bool
  run : List String → Kernel → Kernel × Bool
  ntop : Address → String

/-- How a destination is printed. -/
def printed (ntop : Address → String) (network : Prefix) : String :=
  if network.length = 0 then "default"
  else if network.length = network.address.bits then ntop network.address
  else ntop network.address ++ "/" ++ toString network.length

variable {Kernel : Type} (ip : Ip Kernel)

def Ip.row (route : KernelRoute) : Row where
  dst := printed ip.ntop route.dst
  gateway := route.gateway.map ip.ntop
  dev := route.dev
  protocol := route.protocol
  metric := if route.metric = 0 then none else some route.metric
  type := if route.type = "unicast" then none else some route.type
  flags := if route.onlink then ["onlink"] else []

def Ip.show' (kernel : Kernel) (six : Bool) (table : Nat) : Option (List Row) :=
  if ip.shows kernel six table then
    some (((ip.routes kernel).filter fun route => route.dst.address.six = six && route.table = table).map ip.row)
  else none

def family (six : Bool) : String := if six then "-6" else "-4"

/-- The words of a command on a route. -/
def words (action : Action) (six blackhole : Bool) (dst : String) (via dev : Option String) (onlink : Bool)
    (metric table : Nat) : List String :=
  [family six, "route", match action with | .add => "add" | .del => "del"] ++ (if blackhole then ["blackhole"] else []) ++ [dst] ++
    (match via with | some gateway => ["via", gateway] | none => []) ++ (match dev with | some dev => ["dev", dev] | none => []) ++
    (if onlink && via.isSome then ["onlink"] else []) ++ ["metric", toString metric, "proto", "static"] ++ ["table", toString table]

def routeArgs (action : Action) (route : StaticRoute) : List String :=
  words action route.six route.blackhole route.dst.text (route.via.map Spelled.text) route.dev (route.onlink.getD false)
    (route.metric.getD 100) (route.table.getD 254)

def rawConfigureRoute (action : Action) (route : StaticRoute) (kernel : Kernel) : Kernel × Bool := ip.run (routeArgs action route) kernel

def shownDst (six : Bool) (dst : String) : String := if dst = "default" then (if six then "::/0" else "0.0.0.0/0") else dst

/-- Whether a row reads like the route. -/
def readsLike (route : StaticRoute) (row : Row) : Bool :=
  shownDst route.six row.dst = route.dst.text && row.metric.getD 0 = route.metric.getD 100 && row.protocol = "static" &&
    row.type.getD "unicast" = route.type && decide ("onlink" ∈ row.flags) = route.onlink.getD false &&
    row.gateway = route.via.map Spelled.text && row.dev = route.dev

def routePresent (kernel : Kernel) (route : StaticRoute) : Except String Bool :=
  match ip.show' kernel route.six (route.table.getD 254) with
  | some rows => .ok (rows.any (readsLike route))
  | none => .error "ip route show"

/-! ### Whether a route is known again -/

/-- The route in the kernel that the configuration asks for. IPv6 takes a metric of zero for its default. -/
def StaticRoute.wanted (route : StaticRoute) : KernelRoute where
  dst := route.dst.value
  table := route.table.getD 254
  metric := if route.six ∧ route.metric = some 0 then 1024 else route.metric.getD 100
  protocol := "static"
  type := route.type
  gateway := route.via.map Spelled.value
  dev := route.dev
  onlink := route.onlink.getD false

/-- `ip` prints the destination and the gateway as the configuration spells them, and the kernel keeps the metric. -/
structure Canonical (route : StaticRoute) : Prop where
  dst : shownDst route.six (printed ip.ntop route.dst.value) = route.dst.text
  via : ∀ gateway ∈ route.via, ip.ntop gateway.value = gateway.text
  metric : ¬(route.six ∧ route.metric = some 0)

/-- What is known of the command: addresses are told apart by their texts, none of which has a slash or reads `default`; and a route
that was deleted under the texts `ip` itself shows is no longer in the kernel. -/
structure Ip.Lawful : Prop where
  distinct : Function.Injective ip.ntop
  slashless : ∀ address, '/' ∉ (ip.ntop address).toList
  named : ∀ address, ip.ntop address ≠ "default"
  deletes : ∀ route kernel, Canonical ip route → (rawConfigureRoute ip .del route kernel).2 = true →
    route.wanted ∉ ip.routes (rawConfigureRoute ip .del route kernel).1

variable {ip}

theorem address_ext {a b : Address} (six : a.six = b.six) (value : a.value = b.value) : a = b := by
  cases a
  cases b
  cases six
  cases value
  rfl

theorem toString_chars (n : Nat) : (toString n).toList = Nat.toDigits 10 n := by simp [toString, Nat.repr]

theorem number_clean {c : Char} (other : c.isDigit = false) (n : Nat) : c ∉ (toString n).toList := by
  rw [toString_chars]
  intro member
  exact Bool.false_ne_true (other.symm.trans (Nat.isDigit_of_mem_toDigits (by decide) (by decide) member))

theorem toString_inj {m n : Nat} (same : (toString m).toList = (toString n).toList) : m = n := by
  rw [toString_chars, toString_chars] at same
  rw [← Nat.ofDigitChars_ten_toDigits (n := m), same, Nat.ofDigitChars_ten_toDigits]

/-- What stands before the length where a destination is read. -/
def Ip.head (ip : Ip Kernel) (six : Bool) (network : Prefix) : String :=
  if network.length = 0 then (if six then "::" else "0.0.0.0") else ip.ntop network.address

theorem head_slashless (lawful : ip.Lawful) (six : Bool) (network : Prefix) : '/' ∉ (ip.head six network).toList := by
  unfold Ip.head
  split
  · cases six <;> decide
  · exact lawful.slashless network.address

theorem shownDst_printed (lawful : ip.Lawful) (six : Bool) (network : Prefix) :
    (shownDst six (printed ip.ntop network)).toList =
      if network.length = network.address.bits then (ip.ntop network.address).toList
      else (ip.head six network).toList ++ '/' :: (toString network.length).toList := by
  have some' : network.address.bits ≠ 0 := by
    unfold Address.bits
    split <;> decide
  unfold printed Ip.head
  split
  · rename_i none'
    rw [if_neg (by rw [none']; exact some'.symm), none']
    cases six <;> decide
  split
  · rw [shownDst, if_neg (lawful.named _)]
  · rw [shownDst, if_neg ?_]
    · simp [String.toList_append]
    · intro same
      have slash : '/' ∈ "default".toList := by
        rw [← same]
        simp [String.toList_append]
      revert slash
      decide

theorem clear_of_zero {network : Prefix} (none' : network.length = 0) : network.address.value = 0 := by
  have masked := network.masked
  rw [none', Nat.sub_zero] at masked
  exact (Nat.mod_eq_of_lt network.address.small).symm.trans masked

theorem shown_injective (lawful : ip.Lawful) {six : Bool} {p q : Prefix} (version : p.address.six = q.address.six)
    (same : shownDst six (printed ip.ntop p) = shownDst six (printed ip.ntop q)) : p = q := by
  have bits : p.address.bits = q.address.bits := by rw [Address.bits, version, Address.bits]
  have texts := congrArg String.toList same
  rw [shownDst_printed lawful, shownDst_printed lawful] at texts
  have equal : p.address = q.address ∧ p.length = q.length := by
    split at texts <;> split at texts
    · rename_i host host'
      refine ⟨lawful.distinct (String.toList_injective texts), ?_⟩
      rw [host, host', bits]
    · have slash : '/' ∈ (ip.ntop p.address).toList := by
        rw [texts]
        simp
      exact absurd slash (lawful.slashless _)
    · have slash : '/' ∈ (ip.ntop q.address).toList := by
        rw [← texts]
        simp
      exact absurd slash (lawful.slashless _)
    · obtain ⟨heads, -, lengths⟩ := (List.append_cons_inj_of_notMem (head_slashless lawful six p) (number_clean (by decide) _)).mp texts
      have length := toString_inj lengths
      refine ⟨?_, length⟩
      by_cases none' : p.length = 0
      · have zero := clear_of_zero none'
        have zero' := clear_of_zero (length ▸ none')
        exact address_ext version (zero.trans zero'.symm)
      · have heads := String.toList_injective heads
        unfold Ip.head at heads
        rw [if_neg none', if_neg (length ▸ none')] at heads
        exact lawful.distinct heads
  cases p
  cases q
  obtain ⟨rfl, rfl⟩ := equal
  rfl

variable {route : StaticRoute} {kernel : Kernel}

theorem readsLike_row {r : KernelRoute} :
    readsLike route (ip.row r) = true ↔
      shownDst route.six (printed ip.ntop r.dst) = route.dst.text ∧ r.metric = route.metric.getD 100 ∧ r.protocol = "static" ∧
        r.type = route.type ∧ r.onlink = route.onlink.getD false ∧ r.gateway.map ip.ntop = route.via.map Spelled.text ∧
          r.dev = route.dev := by
  have metric : (ip.row r).metric.getD 0 = r.metric := by
    show (if r.metric = 0 then none else some r.metric).getD 0 = r.metric
    split
    · rename_i zero
      exact zero.symm
    · rfl
  have type : (ip.row r).type.getD "unicast" = r.type := by
    show (if r.type = "unicast" then none else some r.type).getD "unicast" = r.type
    split
    · rename_i unicast
      exact unicast.symm
    · rfl
  have onlink : decide ("onlink" ∈ (ip.row r).flags) = r.onlink := by
    show decide ("onlink" ∈ (if r.onlink then ["onlink"] else [])) = r.onlink
    cases r.onlink <;> decide
  unfold readsLike
  rw [metric, type, onlink]
  simp only [Bool.and_eq_true, decide_eq_true_eq, and_assoc]
  exact Iff.rfl

theorem readsLike_wanted : readsLike route (ip.row route.wanted) = true ↔ Canonical ip route := by
  rw [readsLike_row]
  constructor
  · rintro ⟨dst, metric, -, -, -, via, -⟩
    refine ⟨dst, ?_, ?_⟩
    · intro gateway member
      have via : (route.via.map Spelled.value).map ip.ntop = route.via.map Spelled.text := via
      rw [Option.mem_def.mp member] at via
      exact Option.some.inj via
    · intro zero
      have metric : (if route.six ∧ route.metric = some 0 then 1024 else route.metric.getD 100) = route.metric.getD 100 := metric
      rw [if_pos zero, zero.2] at metric
      cases metric
  · rintro ⟨dst, via, metric⟩
    refine ⟨dst, if_neg metric, rfl, rfl, rfl, ?_, rfl⟩
    show (route.via.map Spelled.value).map ip.ntop = route.via.map Spelled.text
    cases given : route.via with
    | none => rfl
    | some gateway => exact congrArg some (via gateway given)

theorem readsLike_iff (lawful : ip.Lawful) (canonical : Canonical ip route) {r : KernelRoute}
    (version : r.dst.address.six = route.six) (table : r.table = route.table.getD 254) :
    readsLike route (ip.row r) = true ↔ r = route.wanted := by
  constructor
  · intro reads
    obtain ⟨dst, metric, protocol, type, onlink, via, dev⟩ := readsLike_row.mp reads
    obtain ⟨dst', metric', protocol', type', onlink', via', dev'⟩ := readsLike_row.mp (readsLike_wanted.mpr canonical)
    have gateway : r.gateway = route.wanted.gateway := Option.map_injective lawful.distinct (via.trans via'.symm)
    have destination : r.dst = route.wanted.dst := shown_injective lawful version (dst.trans dst'.symm)
    cases r
    cases destination
    cases gateway
    obtain rfl := metric.trans metric'.symm
    obtain rfl := protocol
    obtain rfl := type
    obtain rfl := onlink
    obtain rfl := dev
    obtain rfl := table
    rfl
  · rintro rfl
    exact readsLike_wanted.mpr canonical

theorem routePresent_ok {there : Bool} (h : routePresent ip kernel route = .ok there) :
    there = true ↔ ∃ r ∈ ip.routes kernel, r.dst.address.six = route.six ∧ r.table = route.table.getD 254 ∧
      readsLike route (ip.row r) = true := by
  unfold routePresent Ip.show' at h
  split at h
  · rename_i rows shown
    split at shown
    · cases shown
      cases h
      rw [List.any_map, List.any_eq_true]
      constructor
      · rintro ⟨r, member, reads⟩
        obtain ⟨member, own⟩ := List.mem_filter.mp member
        obtain ⟨version, table⟩ := Bool.and_eq_true_iff.mp own
        exact ⟨r, member, of_decide_eq_true version, of_decide_eq_true table, reads⟩
      · rintro ⟨r, member, version, table, reads⟩
        exact ⟨r, List.mem_filter.mpr ⟨member, Bool.and_eq_true_iff.mpr ⟨decide_eq_true version, decide_eq_true table⟩⟩, reads⟩
    · cases shown
  · cases h

theorem present_iff (lawful : ip.Lawful) {there : Bool} (canonical : Canonical ip route)
    (h : routePresent ip kernel route = .ok there) : there = true ↔ route.wanted ∈ ip.routes kernel := by
  rw [routePresent_ok h]
  constructor
  · rintro ⟨r, member, version, table, reads⟩
    exact (readsLike_iff lawful canonical version table).mp reads ▸ member
  · intro member
    exact ⟨route.wanted, member, rfl, rfl, readsLike_wanted.mpr canonical⟩

theorem alone_present_iff {there : Bool} (alone : ip.routes kernel = [route.wanted])
    (h : routePresent ip kernel route = .ok there) : there = true ↔ Canonical ip route := by
  rw [routePresent_ok h, alone, ← readsLike_wanted]
  constructor
  · rintro ⟨r, member, -, -, reads⟩
    obtain rfl := List.mem_singleton.mp member
    exact reads
  · intro reads
    exact ⟨route.wanted, List.mem_singleton_self _, rfl, rfl, reads⟩

theorem host_not_canonical (lawful : ip.Lawful) (host : route.dst.value.length = route.dst.value.address.bits) :
    ¬Canonical ip route := by
  intro canonical
  have written := route.sized
  rw [← canonical.dst, shownDst_printed lawful, if_pos host] at written
  exact lawful.slashless _ written

end FfnNgfw.Route.Tracking
