import FfnNgfw.Lib.Dict
import FfnNgfw.Lib.Fallible
import FfnNgfw.Lib.Separated
import FfnNgfw.Policy.Plan

/-!
# NAT plans

A plan lists the NAT rules of all virtual systems with the addresses, ports and interfaces as
text. `validatePlan` checks the texts and hands the plan on as it is. Rules with an IPv6
translation are left out: no plan with one is rendered.
-/

namespace FfnNgfw.Translate

open Policy

structure NatService where
  protocol : Protocol
  sourcePorts : List String
  destinationPorts : List String
  deriving DecidableEq

inductive Snat where
  | none
  | static (address : String)
  | snat (address : String)
  | masquerade (interface : String)
  deriving DecidableEq

inductive Method where
  | roundRobin
  | sourceIpHash
  | ipHash
  deriving DecidableEq

inductive Dnat where
  | static (address : String) (port : Option Nat)
  | dynamic (addresses : List String) (method : Method) (port : Option Nat)
  deriving DecidableEq

def Dnat.port : Dnat → Option Nat
  | .static _ port | .dynamic _ _ port => port

structure NatRule where
  name : String
  scope : String
  position : Int
  ingress : List String
  egress : List String
  source : List String
  destination : List String
  services : List NatService
  snat : Snat
  dnat : Option Dnat
  deriving DecidableEq

structure NatPlan where
  version : Nat
  rules : List NatRule

/-- `(?:ethernet[0-9]+/[0-9]+|ae[0-9]+|vlan|tunnel|loopback)(?:\.[0-9]+)?` -/
def isLogical (s : List Char) : Bool :=
  let ethernet (name : List Char) : Bool :=
    match name.splitOn '/' with
    | [slot, port] => "ethernet".toList.isPrefixOf slot && isDigits (slot.drop 8) && isDigits port
    | _ => false
  let base (name : List Char) : Bool :=
    name ∈ ["vlan".toList, "tunnel".toList, "loopback".toList] || ethernet name ||
      (name.take 2 = "ae".toList && isDigits (name.drop 2))
  match s.splitOn '.' with
  | [name] => base name
  | [name, unit] => base name && isDigits unit
  | _ => false

/-- `ipv4` with `host=True` -/
def ipv4Host (value : String) : Except String UInt32 :=
  match ipNetwork value.toList with
  | some (.net a 32) =>
    if a.toNat / 2 ^ 28 = 14 ∨ a = 0 ∨ a.toNat / 2 ^ 24 = 127 then .error ("Expected an IPv4 host address: " ++ value) else .ok a
  | _ => .error ("Expected an IPv4 host address: " ++ value)

/-! ### Validation -/

def demand (holds : Bool) (text : String) : Except String Unit := if holds then .ok () else .error text

variable {u : Unit} {rule : NatRule}

theorem demand_ok {holds : Bool} {text : String} (h : demand holds text = .ok u) : holds = true := by
  unfold demand at h
  split at h
  · assumption
  · cases h

abbrev Owners := Dict String String

def validateInterface (scope : String) (owners : Owners) (iface : String) : Except String Owners := do
  demand (isLogical iface.toList) "Invalid logical interface"
  demand ((owners.lookup iface).all (· = scope)) "Interface belongs to multiple virtual systems"
  return owners.assign iface scope

def validatePorts (protocol : Protocol) (parts : List String) : Except String Unit := do
  demand (parts.length ≤ 256) "Invalid NAT service ports"
  let _ ← parts.mapM ports
  demand (protocol ≠ .any ∨ parts = []) "Port matches require TCP or UDP"

def validateService (service : NatService) : Except String Unit := do
  validatePorts service.protocol service.sourcePorts
  validatePorts service.protocol service.destinationPorts

/-- The one host of a static rule: a text with a slash, of length 32. -/
def staticHost (source : List String) : Option UInt32 :=
  match source with
  | [text] =>
    if '/' ∈ text.toList then
      match ipNetwork text.toList with
      | some (.net a 32) => some a
      | _ => none
    else none
  | _ => none

def validateSnat (rule : NatRule) : Except String Unit :=
  match rule.snat with
  | .none => .ok ()
  | .static address => do
    let _ ← ipv4Host address
    demand (staticHost rule.source).isSome "Static NAT needs one original host"
  | .snat address => do
    let _ ← ipv4Host address
    return ()
  | .masquerade interface => demand (isLogical interface.toList) "Invalid source translation interface"

def validateTargets : Dnat → Except String Unit
  | .dynamic pool _ _ => do
    demand (1 ≤ pool.length ∧ pool.length ≤ 256 ∧ pool.Nodup) "Invalid dynamic destination pool"
    let _ ← pool.mapM ipv4Host
    return ()
  | .static address _ => do
    let _ ← ipv4Host address
    return ()

def validateDnat (rule : NatRule) (dnat : Dnat) : Except String Unit := do
  validateTargets dnat
  demand (dnat.port.all fun port => (1 ≤ port ∧ port ≤ 65535) && rule.services.all fun s => s.protocol ≠ .any)
    "Port forwarding requires TCP/UDP and a valid port"

/-- One rule, with the identities and owners of the rules before it. -/
def validateRule (acc : List (String × String) × Owners) (rule : NatRule) : Except String (List (String × String) × Owners) := do
  let short (s : String) : Bool := 1 ≤ s.length ∧ s.length ≤ 63
  demand (short rule.name && short rule.scope) "Invalid NAT rule identity"
  demand ((rule.scope, rule.name) ∉ acc.1) "Duplicate NAT rule"
  let sized (l : List String) : Bool := 1 ≤ l.length ∧ l.length ≤ 256
  demand (sized rule.ingress && sized rule.egress && sized rule.source && sized rule.destination) "Invalid NAT match"
  let owners ← (rule.ingress ++ rule.egress).foldlM (validateInterface rule.scope) acc.2
  let _ ← (rule.source ++ rule.destination).mapM ipv4
  demand (1 ≤ rule.services.length ∧ rule.services.length ≤ 256) "Invalid NAT services"
  let _ ← rule.services.mapM validateService
  validateSnat rule
  match rule.dnat with
  | none => return ((rule.scope, rule.name) :: acc.1, owners)
  | some dnat => do
    validateDnat rule dnat
    return ((rule.scope, rule.name) :: acc.1, owners)

/-- `size` is the length of the plan as JSON. -/
def validatePlan (size : NatPlan → Nat) (plan : NatPlan) : Except String NatPlan := do
  demand ((plan.version = 1 ∨ plan.version = 2) && plan.rules.length ≤ 1024) "Invalid NAT plan"
  demand (size plan ≤ 65536) "NAT plan exceeds 64 KiB"
  let _ ← plan.rules.foldlM validateRule ([], ∅)
  return plan

/-! ### What an accepted plan is like -/

def NatRule.hosts (rule : NatRule) : List String :=
  (match rule.snat with
    | .static address | .snat address => [address]
    | .none | .masquerade _ => []) ++
  match rule.dnat with
    | none => []
    | some (.static address _) => [address]
    | some (.dynamic addresses _ _) => addresses

structure NatRule.Valid (rule : NatRule) : Prop where
  hosts : ∀ text ∈ rule.hosts, ∃ a, ipv4Host text = .ok a
  source : ∀ text ∈ rule.source, ∃ block, ipv4 text = .ok block
  static : ∀ address, rule.snat = .static address → (staticHost rule.source).isSome
  port : ∀ dnat port, rule.dnat = some dnat → dnat.port = some port → ∀ s ∈ rule.services, s.protocol ≠ .any
  pool : ∀ addresses method port, rule.dnat = some (.dynamic addresses method port) → addresses ≠ []

theorem validateSnat_spec (h : validateSnat rule = .ok u) :
    (∀ address, rule.snat = .static address ∨ rule.snat = .snat address → ∃ a, ipv4Host address = .ok a) ∧
      ∀ address, rule.snat = .static address → (staticHost rule.source).isSome := by
  unfold validateSnat at h
  cases snat : rule.snat with
  | none => simp
  | masquerade interface => simp
  | static address =>
    rw [snat] at h
    obtain ⟨a, host, h⟩ := bind_ok h
    refine ⟨?_, fun _ _ => demand_ok h⟩
    rintro other (same | same)
    · cases same
      exact ⟨a, host⟩
    · cases same
  | snat address =>
    rw [snat] at h
    obtain ⟨a, host, h⟩ := bind_ok h
    refine ⟨?_, by simp⟩
    rintro other (same | same)
    · cases same
    · cases same
      exact ⟨a, host⟩

theorem validateTargets_spec {dnat : Dnat} (h : validateTargets dnat = .ok u) :
    match dnat with
    | .static address _ => ∃ a, ipv4Host address = .ok a
    | .dynamic addresses _ _ => addresses ≠ [] ∧ ∀ text ∈ addresses, ∃ a, ipv4Host text = .ok a := by
  cases dnat with
  | static address port =>
    obtain ⟨a, host, -⟩ := bind_ok h
    exact ⟨a, host⟩
  | dynamic addresses method port =>
    obtain ⟨_, sized, h⟩ := bind_ok h
    obtain ⟨parsed, each, -⟩ := bind_ok h
    have sized := demand_ok sized
    simp only [decide_eq_true_eq] at sized
    refine ⟨fun empty => by simp [empty] at sized, fun text member => ?_⟩
    obtain ⟨a, -, host⟩ := mapM_mem each member
    exact ⟨a, host⟩

theorem validateDnat_port {dnat : Dnat} (h : validateDnat rule dnat = .ok u) {port : Nat}
    (given : dnat.port = some port) : ∀ s ∈ rule.services, s.protocol ≠ .any := by
  unfold validateDnat at h
  obtain ⟨_, -, h⟩ := bind_ok h
  have ports := demand_ok h
  intro s member
  rw [given] at ports
  simp only [Option.all_some, Bool.and_eq_true, List.all_eq_true, decide_eq_true_eq] at ports
  exact ports.2 s member

theorem validateRule_valid {acc acc' : List (String × String) × Owners} (h : validateRule acc rule = .ok acc') :
    rule.Valid := by
  unfold validateRule at h
  obtain ⟨_, -, h⟩ := bind_ok h
  obtain ⟨_, -, h⟩ := bind_ok h
  obtain ⟨_, -, h⟩ := bind_ok h
  obtain ⟨owners, -, h⟩ := bind_ok h
  obtain ⟨_, addresses, h⟩ := bind_ok h
  obtain ⟨_, -, h⟩ := bind_ok h
  obtain ⟨_, -, h⟩ := bind_ok h
  obtain ⟨_, snat, h⟩ := bind_ok h
  obtain ⟨snatHosts, static⟩ := validateSnat_spec snat
  have dnat : ∀ dnat, rule.dnat = some dnat → ∃ u, validateDnat rule dnat = .ok u := by
    intro dnat some'
    rw [some'] at h
    obtain ⟨u, checked, -⟩ := bind_ok h
    exact ⟨u, checked⟩
  have targets : ∀ dnat, rule.dnat = some dnat → ∃ u, validateTargets dnat = .ok u := by
    intro d some'
    obtain ⟨_, checked⟩ := dnat d some'
    obtain ⟨u, first, -⟩ := bind_ok checked
    exact ⟨u, first⟩
  refine ⟨?_, ?_, static, ?_, ?_⟩
  · intro text member
    rcases List.mem_append.mp member with source | target
    · cases kind : rule.snat with
      | none => simp [kind] at source
      | masquerade interface => simp [kind] at source
      | static address =>
        rw [kind, List.mem_singleton] at source
        exact source ▸ snatHosts address (.inl kind)
      | snat address =>
        rw [kind, List.mem_singleton] at source
        exact source ▸ snatHosts address (.inr kind)
    · cases kind : rule.dnat with
      | none => simp [kind] at target
      | some d =>
        obtain ⟨_, checked⟩ := targets d kind
        have spec := validateTargets_spec checked
        rw [kind] at target
        cases d with
        | static address port =>
          rw [List.mem_singleton.mp target]
          exact spec
        | dynamic addresses method port => exact spec.2 text target
  · intro text member
    obtain ⟨block, -, read⟩ := mapM_mem addresses (List.mem_append_left rule.destination member)
    exact ⟨block, read⟩
  · intro d port some' given
    obtain ⟨_, checked⟩ := dnat d some'
    exact validateDnat_port checked given
  · intro addresses method port some'
    obtain ⟨_, checked⟩ := targets _ some'
    exact (validateTargets_spec checked).1

theorem validatePlan_valid {size : NatPlan → Nat} {plan plan' : NatPlan} (h : validatePlan size plan = .ok plan') :
    plan' = plan ∧ plan.rules.length ≤ 1024 ∧ ∀ rule ∈ plan.rules, rule.Valid := by
  unfold validatePlan at h
  obtain ⟨_, shape, h⟩ := bind_ok h
  obtain ⟨_, -, h⟩ := bind_ok h
  obtain ⟨_, rules, h⟩ := bind_ok h
  cases h
  have shape := demand_ok shape
  simp only [Bool.and_eq_true, decide_eq_true_eq] at shape
  refine ⟨rfl, shape.2, ?_⟩
  refine foldlM_invariant (fun done _ => ∀ rule ∈ done, rule.Valid) ?_ (by simp) rules
  intro done acc rule acc' holds step rule' member
  rcases List.mem_append.mp member with earlier | last
  · exact holds rule' earlier
  · rw [List.mem_singleton.mp last]
    exact validateRule_valid step

theorem slash_not_mem {text : List Char} {a : UInt32} (read : ipv4Address text = some a) : '/' ∉ text := by
  intro member
  obtain ⟨octet, inside, found⟩ := mem_splitOn member (show '/' ≠ '.' by decide)
  simp only [ipv4Address, Option.bind_eq_bind, Option.bind_eq_some_iff, guard] at read
  obtain ⟨_, -, _, octets, -⟩ := read
  have digits : ∀ octet ∈ text.splitOn '.', isDigits octet = true := by
    split at octets
    · rename_i all
      intro octet member
      have checked := List.all_eq_true.mp all octet member
      simp only [Bool.and_eq_true] at checked
      exact checked.1.1.1
    · cases octets
  have digit := digits octet inside
  unfold isDigits at digit
  rw [Bool.and_eq_true, List.all_eq_true] at digit
  exact absurd (digit.2 '/' found) (by decide)

theorem staticHost_block {source : List String} {host : UInt32} (h : staticHost source = some host) {text : String} {block : Block}
    (member : text ∈ source) (read : ipv4 text = .ok block) : block = .net host 32 := by
  unfold staticHost at h
  split at h
  · rename_i only
    rw [List.mem_singleton] at member
    subst member
    split at h
    · rename_i slash
      split at h
      · rename_i a found
        cases h
        unfold ipv4 at read
        dsimp only at read
        split at read
        · rename_i block' parsed
          cases read
          split at parsed
          · rw [found] at parsed
            exact (Option.some.inj parsed).symm
          · rename_i x y parts
            -- a range has no slash
            obtain ⟨part, inside, there⟩ := mem_splitOn slash (show '/' ≠ '-' by decide)
            rw [parts] at inside
            simp only [Option.bind_eq_bind, Option.bind_eq_some_iff] at parsed
            obtain ⟨a, first, b, second, -⟩ := parsed
            rcases List.mem_pair.mp inside with rfl | rfl
            · exact absurd there (slash_not_mem first)
            · exact absurd there (slash_not_mem second)
          · cases parsed
        · cases read
      · cases h
    · cases h
  · cases h

end FfnNgfw.Translate
