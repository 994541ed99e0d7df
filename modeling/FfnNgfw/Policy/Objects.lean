import Mathlib.Algebra.Group.Int.Defs
import Mathlib.Algebra.GroupWithZero.Nat
import Mathlib.Data.List.Dedup
import Mathlib.Data.List.Sort
import Mathlib.Tactic.Common

/-!
# Candidate configurations

The parts of a candidate configuration that the policy compilers read, as records: the
XML elements are already looked up, their text is as it stands. `Resolver` follows names
to addresses, services and interfaces, and refuses what it cannot follow.
-/

namespace FfnNgfw.Policy

instance lawfulText : LawfulBEq (List Char) := inferInstance
instance lawfulPair : LawfulBEq (String × String) := inferInstance

def sortedSet (names : List String) : List String := names.dedup.insertionSort (· ≤ ·)

/-- Digits of ASCII. -/
def isDigits (s : List Char) : Bool := !s.isEmpty && s.all Char.isDigit

def number (s : List Char) : Nat := s.foldl (fun n c => 10 * n + (c.toNat - '0'.toNat)) 0

/-- `ipaddress.IPv4Address` of a text: four decimal octets without leading zeros. -/
def ipv4Address (s : List Char) : Option UInt32 := do
  let octets := s.splitOn '.'
  guard (octets.length = 4)
  guard (octets.all fun o => isDigits o && o.length ≤ 3 && (o.length = 1 || o.head? ≠ some '0') && number o ≤ 255)
  return UInt32.ofNat (octets.foldl (fun n o => 256 * n + number o) 0)

/-- The number of leading ones, where the bits below them are all zero. -/
def maskLength (mask : UInt32) : Option Nat :=
  (List.range 33).find? fun len => mask.toNat = 2 ^ 32 - 2 ^ (32 - len)

/-- What stands behind the slash: a length, a netmask or a host mask. -/
def prefixLength (s : List Char) : Option Nat :=
  if isDigits s then if number s ≤ 32 then some (number s) else none
  else do
    let mask ← ipv4Address s
    maskLength mask <|> maskLength (~~~mask)

/-- `10.0.0.1-10.0.0.9` or `10.0.0.0/24`. -/
inductive Block where
  | range (lo hi : UInt32)
  | net (base : UInt32) (len : Nat)
  deriving DecidableEq

def dotted (a : UInt32) : String :=
  ".".intercalate ((List.range 4).map fun i => toString ((a.toNat >>> (8 * (3 - i))) % 256))

def Block.text : Block → String
  | .range lo hi => dotted lo ++ "-" ++ dotted hi
  | .net base len => dotted base ++ "/" ++ toString len

def Block.contains : Block → UInt32 → Bool
  | .range lo hi, a => lo ≤ a && a ≤ hi
  | .net base len, a => a.toNat >>> (32 - len) = base.toNat >>> (32 - len)

def ipv4Error (value : String) : String := "Expected an IPv4 address, subnet or range: " ++ value

/-- Host bits are dropped, and an address alone is a network of length 32. -/
def ipNetwork (s : List Char) : Option Block :=
  match s.splitOn '/' with
  | [a] => (ipv4Address a).map fun a => .net a 32
  | [a, len] => do
    let a ← ipv4Address a
    let len ← prefixLength len
    return .net (UInt32.ofNat ((a.toNat >>> (32 - len)) <<< (32 - len))) len
  | _ => none

def ipv4 (value : String) : Except String Block :=
  let found : Option Block :=
    match value.toList.splitOn '-' with
    | [_] => ipNetwork value.toList
    | [a, b] => do
      let a ← ipv4Address a
      let b ← ipv4Address b
      guard (a ≤ b)
      return .range a b
    | _ => none
  match found with
  | some block => .ok block
  | none => .error (ipv4Error value)

def sortedBlocks (blocks : List Block) : List Block := blocks.dedup.insertionSort (·.text ≤ ·.text)

/-- `443` or `8000-8080`. -/
structure PortRange where
  lo : Nat
  hi : Option Nat
  deriving DecidableEq

def PortRange.text (r : PortRange) : String :=
  match r.hi with
  | none => toString r.lo
  | some hi => toString r.lo ++ "-" ++ toString hi

def PortRange.contains (r : PortRange) (port : Nat) : Bool := r.lo ≤ port && port ≤ r.hi.getD r.lo

inductive Protocol where
  | any | tcp | udp
  deriving DecidableEq

def Protocol.text : Protocol → String
  | .any => "any"
  | .tcp => "tcp"
  | .udp => "udp"

structure Service where
  protocol : Protocol
  sourcePorts : List PortRange
  destinationPorts : List PortRange
  deriving DecidableEq

def portOk (s : List Char) : Bool := isDigits s && 1 ≤ number s && number s ≤ 65535

def ports (value : String) : Except String (List PortRange) :=
  (value.toList.splitOn ',').mapM fun part => do
    match part.splitOn '-' with
    | [lo] => if portOk lo then return ⟨number lo, none⟩ else throw ("Invalid service ports: " ++ value)
    | [lo, hi] =>
      if !portOk lo ∨ !portOk hi then throw ("Invalid service ports: " ++ value)
      if number hi < number lo then throw "Reversed service port range"
      return ⟨number lo, some (number hi)⟩
    | _ => throw ("Invalid service ports: " ++ value)

/-! ### The configuration -/

inductive AddressObject where
  | netmask (text : String)
  | range (text : String)
  | other
  deriving DecidableEq

inductive AddressGroup where
  | static (members : List String)
  | dynamic
  deriving DecidableEq

/-- The children of a service's `protocol` element; only one of them, TCP or UDP, will do. -/
inductive ServiceObject where
  | tcp (sourcePort port : String)
  | udp (sourcePort port : String)
  | other
  deriving DecidableEq

/-- The objects of a virtual system, or the shared ones. `named` has the entries that are
only ever referred to, each under its path. -/
structure Objects where
  address : List (String × AddressObject) := []
  addressGroup : List (String × AddressGroup) := []
  application : List String := []
  applicationGroup : List (String × List String) := []
  service : List (String × ServiceObject) := []
  serviceGroup : List (String × List String) := []
  named : List (String × String) := []
  deriving DecidableEq

structure Zone where
  name : String
  /-- the members of `network/layer3` -/
  layer3 : List String
  deriving DecidableEq

structure AggregateLayer3 where
  hasUnits : Bool
  hasAddress : Bool
  dhcpClient : Bool
  deriving DecidableEq

structure Aggregate where
  name : String
  layer3 : Option AggregateLayer3
  aggregateOnly : Bool
  deriving DecidableEq

inductive RuleType where
  | universal | intrazone | interzone
  deriving DecidableEq

inductive ActionType where
  | allow | deny | drop | resetClient | resetServer | resetBoth
  deriving DecidableEq

inductive ProfileMode where
  | none | group | profiles
  deriving DecidableEq

/-- A rule of the Security rulebase with its defaults filled in, as `describe` reads it. -/
structure RuleEntry where
  name : String
  disabled : Bool := false
  description : String := ""
  /-- the entry has no XML beside the fields of the schema and their options -/
  known : Bool := true
  tag : List String := []
  fromZones : List String := ["any"]
  source : List String := ["any"]
  toZones : List String := ["any"]
  destination : List String := ["any"]
  sourceUser : List String := ["any"]
  application : List String := ["any"]
  service : List String := ["any"]
  sourceDevice : List String := ["any"]
  destinationDevice : List String := ["any"]
  ruleType : RuleType := .universal
  action : ActionType := .deny
  icmpUnreachable : Bool := false
  profileGroup : String := ""
  /-- the individual profiles, under their paths -/
  profiles : List (String × String) := []
  logStart : Bool := false
  logEnd : Bool := true
  logSetting : String := ""
  deriving DecidableEq

structure Vsys where
  name : String
  zones : List Zone := []
  objects : Objects := {}
  security : List RuleEntry := []
  deriving DecidableEq

structure Config where
  shared : Objects := {}
  aggregates : List Aggregate := []
  vsys : List Vsys := []
  deriving DecidableEq

def insertVsys (owners : List Vsys) (v : Vsys) : List Vsys :=
  match owners with
  | [] => [v]
  | w :: rest => if w.name = v.name then v :: rest else w :: insertVsys rest v

def owners (root : Config) : List Vsys := root.vsys.foldl insertVsys []

theorem insertVsys_names (owners : List Vsys) (v : Vsys) :
    (insertVsys owners v).map Vsys.name =
      if v.name ∈ owners.map Vsys.name then owners.map Vsys.name else owners.map Vsys.name ++ [v.name] := by
  induction owners with
  | nil => rfl
  | cons w rest ih =>
    unfold insertVsys
    by_cases same : w.name = v.name
    · rw [if_pos same]
      simp [same]
    · rw [if_neg same, List.map_cons, ih]
      by_cases later : v.name ∈ rest.map Vsys.name
      · rw [if_pos later, if_pos (by simp [later])]
        rfl
      · rw [if_neg later, if_neg (by simpa [Ne.symm same] using later)]
        rfl

theorem owners_nodup (root : Config) : ((owners root).map Vsys.name).Nodup := by
  have folded : ∀ (vs acc : List Vsys), (acc.map Vsys.name).Nodup → ((vs.foldl insertVsys acc).map Vsys.name).Nodup := by
    intro vs
    induction vs with
    | nil => exact fun acc nodup => nodup
    | cons v vs ih =>
      intro acc nodup
      refine ih _ ?_
      rw [insertVsys_names]
      split
      · exact nodup
      · rename_i absent
        exact List.nodup_append.mpr ⟨nodup, by simp, by simpa using absent⟩
  exact folded root.vsys [] List.nodup_nil

/-! ### Following names -/

section resolver

variable (root : Config) (owner : Vsys)

def find {α : Type} (kind : Objects → List (String × α)) (name : String) : Option α :=
  (kind owner.objects).lookup name <|> (kind root.shared).lookup name

def stackLimit : Nat := 16

/-- `Resolver.addresses` before its last line, for groups that nest at most `fuel` deep.
The stack holds the groups that are open, and one more than the limit is refused. -/
def expandAddresses : Nat → List String → List String → Except String (List Block)
  | 0, _, _ => .error "Address group cycle or excessive nesting"
  | fuel + 1, stack, values => values.foldlM
    (fun out value => do
      if stackLimit < stack.length ∨ value ∈ stack then throw ("Address group cycle or excessive nesting: " ++ value)
      if value = "any" then return out ++ [.net 0 0]
      let more ←
        match find root owner Objects.address value, find root owner Objects.addressGroup value with
        | some (.netmask text), _ | some (.range text), _ => (ipv4 text).map fun b => [b]
        | some .other, _ => throw ("NAT requires static address objects; unresolved object: " ++ value)
        | none, some (.static (m :: ms)) =>
          (expandAddresses fuel (stack ++ [value]) (m :: ms)).map sortedBlocks
        | none, some _ => throw ("NAT requires a nonempty static address group: " ++ value)
        | none, none => (ipv4 value).map fun b => [b]
      if 256 < (out ++ more).length then throw "Expanded address list exceeds 256 entries"
      return out ++ more) []

def addresses (values : List String) : Except String (List Block) :=
  (expandAddresses root owner (stackLimit + 2) [] values).map sortedBlocks

def serviceOf (protocol : Protocol) (sourcePort port : String) : Except String (List Service) := do
  let source ← if sourcePort = "" then pure [] else ports sourcePort
  let destination ← ports port
  return [⟨protocol, source, destination⟩]

def expandServices : Nat → List String → List String → Except String (List Service)
  | 0, _, _ => .error "Service group cycle or excessive nesting"
  | fuel + 1, stack, values => values.foldlM
    (fun out value => do
      if stackLimit < stack.length ∨ value ∈ stack then throw ("Service group cycle or excessive nesting: " ++ value)
      if value = "any" then return out ++ [⟨.any, [], []⟩]
      let more ←
        match find root owner Objects.service value, find root owner Objects.serviceGroup value with
        | some (.tcp sourcePort port), _ => serviceOf .tcp sourcePort port
        | some (.udp sourcePort port), _ => serviceOf .udp sourcePort port
        | some .other, _ => throw ("Only TCP/UDP service objects are supported: " ++ value)
        | none, some (m :: ms) => expandServices fuel (stack ++ [value]) (m :: ms)
        | none, some [] => throw ("Empty service group: " ++ value)
        | none, none => throw ("Unknown service: " ++ value)
      if 256 < (out ++ more).length then throw "Expanded service list exceeds 256 entries"
      return out ++ more) []

def services (values : List String) : Except String (List Service) :=
  expandServices root owner (stackLimit + 2) [] values

/-- `none` where `any` has been met, which ends the expansion at once. -/
def expandApplications : Nat → List String → List String → Except String (Option (List String))
  | 0, _, _ => .error "Application group cycle or excessive nesting"
  | fuel + 1, stack, values => values.foldlM
    (fun out value =>
      match out with
      | none => return none
      | some out => do
        if value = "any" then return none
        if value ∈ stack ∨ stackLimit < stack.length then throw "Application group cycle or excessive nesting"
        let more ←
          match find root owner Objects.applicationGroup value with
          | some [] => throw ("Empty application group: " ++ value)
          | some (m :: ms) => do
            let inner ← expandApplications fuel (stack ++ [value]) (m :: ms)
            pure (match inner with
              | none => ["any"]
              | some names => sortedSet names)
          | none =>
            if value ∈ owner.objects.application ∨ value ∈ root.shared.application then pure [value]
            else throw ("Application filter or unresolved application requires an App-ID provider: " ++ value)
        if 256 < (out ++ more).length then throw "Expanded application list exceeds 256 entries"
        return some (out ++ more)) (some [])

def applications (values : List String) : Except String (List String) :=
  (expandApplications root owner (stackLimit + 2) [] values).map fun
    | none => ["any"]
    | some names => sortedSet names

/-- An aggregate without an address of its own only carries its units. -/
def containers : List String :=
  (root.aggregates.filter fun a =>
    match a.layer3 with
    | none => false
    | some layer => a.aggregateOnly || (layer.hasUnits && !layer.hasAddress && !layer.dhcpClient)).map Aggregate.name

def interfaces (zones : List String) : Except String (List String) := do
  let chosen := owner.zones.filter fun z => zones = ["any"] || z.name ∈ zones
  let out ← chosen.foldlM
    (fun out zone =>
      if zone.layer3 = [] ∧ zones ≠ ["any"] then throw ("NAT requires a nonempty Layer 3 zone: " ++ zone.name)
      else pure (out ++ zone.layer3.filter fun m => m ∉ containers root)) []
  if out = [] then throw "Assign Layer 3 interfaces to the selected zones before activating NAT"
  return sortedSet out

end resolver

end FfnNgfw.Policy
