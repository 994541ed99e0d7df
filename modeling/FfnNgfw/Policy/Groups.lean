import FfnNgfw.Lib.Expansion
import FfnNgfw.Policy.PacketTest

/-!
# What groups denote

`Resolver.addresses`, `Resolver.services` and `applications` follow the names of a rule
through groups of names. Addresses and services are gathered alike. Applications end an
expansion at `any`, at the level where it is met and nowhere else.
-/

namespace FfnNgfw.Policy
open Expansion

section names

variable (root : Config) (owner : Vsys)

def addressEntry (value : String) : Except String (Entry String Block) :=
  if value = "any" then .ok (.wild (.net 0 0))
  else
    match find root owner Objects.address value, find root owner Objects.addressGroup value with
    | some (.netmask text), _ | some (.range text), _ => (ipv4 text).map fun b => .leaf [b]
    | some .other, _ => .error ("NAT requires static address objects; unresolved object: " ++ value)
    | none, some (.static (m :: ms)) => .ok (.group (m :: ms))
    | none, some _ => .error ("NAT requires a nonempty static address group: " ++ value)
    | none, none => (ipv4 value).map fun b => .leaf [b]

def addressSetting : Setting String Block where
  entry := addressEntry root owner
  tidy := sortedBlocks
  limit := stackLimit
  size := 256
  bottom := "Address group cycle or excessive nesting"
  cycle value := "Address group cycle or excessive nesting: " ++ value
  large := "Expanded address list exceeds 256 entries"

theorem expandAddresses_eq (fuel : Nat) (stack values : List String) :
    expandAddresses root owner fuel stack values = expand (addressSetting root owner) fuel stack values := by
  induction fuel generalizing stack values with
  | zero => rfl
  | succ fuel ih =>
    rw [expandAddresses, expand]
    congr
    funext out value
    by_cases refused : stackLimit < stack.length ∨ value ∈ stack
    · rw [if_pos refused]
      exact (@visit_refused _ _ (addressSetting root owner) _ _ _ refused _ _).symm
    refine Eq.trans ?_ (visit_fresh refused _ _).symm
    rw [show (addressSetting root owner).entry value = addressEntry root owner value from rfl, addressEntry]
    rw [if_neg refused]
    by_cases any : value = "any"
    · rw [if_pos any, if_pos any]
      rfl
    rw [if_neg any, if_neg any]
    cases find root owner Objects.address value with
    | some object =>
      cases object with
      | netmask text =>
        dsimp only
        cases ipv4 text <;> rfl
      | range text =>
        dsimp only
        cases ipv4 text <;> rfl
      | other => rfl
    | none =>
      cases find root owner Objects.addressGroup value with
      | none =>
        dsimp only
        cases ipv4 value <;> rfl
      | some group =>
        cases group with
        | dynamic => rfl
        | static members =>
          cases members with
          | nil => rfl
          | cons m ms =>
            dsimp only [bind, Except.bind]
            rw [ih]
            cases expand (addressSetting root owner) fuel (stack ++ [value]) (m :: ms) <;> rfl

theorem mem_sortedBlocks (blocks : List Block) (b : Block) : b ∈ sortedBlocks blocks ↔ b ∈ blocks := by
  rw [sortedBlocks, List.mem_insertionSort, List.mem_dedup]

variable {values : List String}

theorem addresses_ok {out : List Block} (done : addresses root owner values = .ok out) :
    (∀ b, b ∈ out ↔ ∃ n, Reaches (addressSetting root owner) values n ∧ Stands (addressSetting root owner) n b) ∧
      ∀ n, Reaches (addressSetting root owner) values n → ¬Cyclic (addressSetting root owner) n := by
  unfold addresses at done
  rw [expandAddresses_eq] at done
  obtain ⟨gathered, expanded, rfl⟩ := map_ok done
  obtain ⟨reached, acyclic⟩ := @expand_ok _ _ (addressSetting root owner) _ mem_sortedBlocks _ _ _ _ expanded
  exact ⟨fun b => (mem_sortedBlocks _ b).trans (reached b), fun n r => (acyclic n r).2⟩

def serviceEntry (value : String) : Except String (Entry String Service) :=
  if value = "any" then .ok (.wild ⟨.any, [], []⟩)
  else
    match find root owner Objects.service value, find root owner Objects.serviceGroup value with
    | some (.tcp sourcePort port), _ => (serviceOf .tcp sourcePort port).map .leaf
    | some (.udp sourcePort port), _ => (serviceOf .udp sourcePort port).map .leaf
    | some .other, _ => .error ("Only TCP/UDP service objects are supported: " ++ value)
    | none, some (m :: ms) => .ok (.group (m :: ms))
    | none, some [] => .error ("Empty service group: " ++ value)
    | none, none => .error ("Unknown service: " ++ value)

def serviceSetting : Setting String Service where
  entry := serviceEntry root owner
  tidy := id
  limit := stackLimit
  size := 256
  bottom := "Service group cycle or excessive nesting"
  cycle value := "Service group cycle or excessive nesting: " ++ value
  large := "Expanded service list exceeds 256 entries"

theorem expandServices_eq (fuel : Nat) (stack values : List String) :
    expandServices root owner fuel stack values = expand (serviceSetting root owner) fuel stack values := by
  induction fuel generalizing stack values with
  | zero => rfl
  | succ fuel ih =>
    rw [expandServices, expand]
    congr
    funext out value
    by_cases refused : stackLimit < stack.length ∨ value ∈ stack
    · rw [if_pos refused]
      exact (@visit_refused _ _ (serviceSetting root owner) _ _ _ refused _ _).symm
    refine Eq.trans ?_ (visit_fresh refused _ _).symm
    rw [show (serviceSetting root owner).entry value = serviceEntry root owner value from rfl, serviceEntry]
    rw [if_neg refused]
    by_cases any : value = "any"
    · rw [if_pos any, if_pos any]
      rfl
    rw [if_neg any, if_neg any]
    cases find root owner Objects.service value with
    | some object =>
      cases object with
      | tcp sourcePort port =>
        dsimp only
        cases serviceOf .tcp sourcePort port <;> rfl
      | udp sourcePort port =>
        dsimp only
        cases serviceOf .udp sourcePort port <;> rfl
      | other => rfl
    | none =>
      cases find root owner Objects.serviceGroup value with
      | none => rfl
      | some members =>
        cases members with
        | nil => rfl
        | cons m ms =>
          dsimp only [bind, Except.bind]
          rw [ih]
          cases expand (serviceSetting root owner) fuel (stack ++ [value]) (m :: ms) <;> rfl

theorem services_ok {out : List Service} (done : services root owner values = .ok out) :
    (∀ s, s ∈ out ↔ ∃ n, Reaches (serviceSetting root owner) values n ∧ Stands (serviceSetting root owner) n s) ∧
      ∀ n, Reaches (serviceSetting root owner) values n → ¬Cyclic (serviceSetting root owner) n := by
  unfold services at done
  rw [expandServices_eq] at done
  obtain ⟨reached, acyclic⟩ := expand_ok (fun _ _ => Iff.rfl) done
  exact ⟨reached, fun n r => (acyclic n r).2⟩

/-! ### IPv6 addresses -/

/-- `ipaddress.ip_network` of an IPv6 text without a scope; `strict` refuses host bits. -/
def ipNetwork6 (strict : Bool) (s : List Char) : Option (Nat × Nat) :=
  match s.splitOn '/' with
  | [a] => (Threatdb.ipv6Address a).map fun a => (a, 128)
  | [a, len] => do
    let a ← Threatdb.ipv6Address a
    guard (isDigits len && number len ≤ 128)
    let base := (a >>> (128 - number len)) <<< (128 - number len)
    guard (!strict || base = a)
    return (base, number len)
  | _ => none

def zeroRun (hextets : List Nat) (i : Nat) : Nat := ((hextets.drop i).takeWhile (· = 0)).length

def bestRun (hextets : List Nat) : Nat × Nat :=
  (List.range hextets.length).foldl
    (fun best i => if best.2 < zeroRun hextets i then (i, zeroRun hextets i) else best) (0, 0)

/-- `str` of an IPv6 address, where the longest run of zeros is left out. -/
def text6 (a : Nat) : String :=
  let hextets := (List.range 8).map fun i => (a >>> (16 * (7 - i))) % 2 ^ 16
  let shown := hextets.map fun h => String.ofList (Nat.toDigits 16 h)
  let (start, len) := bestRun hextets
  if len ≤ 1 then ":".intercalate shown
  else ":".intercalate (shown.take start) ++ "::" ++ ":".intercalate (shown.drop (start + len))

def networkText6 (net : Nat × Nat) : String := text6 net.1 ++ "/" ++ toString net.2

def sortedNetworks (nets : List (Nat × Nat)) : List (Nat × Nat) := nets.dedup.insertionSort (networkText6 · ≤ networkText6 ·)

def ipv6 (strict : Bool) (value : String) : Except String (Nat × Nat) :=
  match ipNetwork6 strict value.toList with
  | some net => .ok net
  | none => .error ("Expected an IPv6 address or network prefix: " ++ value)

def address6Entry (value : String) : Except String (Entry String (Nat × Nat)) :=
  if value = "any" then .ok (.wild (0, 0))
  else
    match find root owner Objects.address value, find root owner Objects.addressGroup value with
    | some (.netmask text), _ => (ipv6 false text).map fun net => .leaf [net]
    | some (.range text), _ => (ipv6 true text).map fun net => .leaf [net]
    | some .other, _ => .error ("NAT requires static address objects; unresolved object: " ++ value)
    | none, some (.static (m :: ms)) => .ok (.group (m :: ms))
    | none, some _ => .error ("NAT requires a nonempty static address group: " ++ value)
    | none, none => (ipv6 true value).map fun net => .leaf [net]

def address6Setting : Setting String (Nat × Nat) where
  entry := address6Entry root owner
  tidy := sortedNetworks
  limit := stackLimit
  size := 256
  bottom := "Address group cycle or excessive nesting"
  cycle value := "Address group cycle or excessive nesting: " ++ value
  large := "Expanded address list exceeds 256 entries"

/-- `Resolver.addresses` of the family 6. -/
def addresses6 (values : List String) : Except String (List (Nat × Nat)) :=
  (expand (address6Setting root owner) (stackLimit + 2) [] values).map sortedNetworks

theorem mem_sortedNetworks (nets : List (Nat × Nat)) (net : Nat × Nat) : net ∈ sortedNetworks nets ↔ net ∈ nets := by
  rw [sortedNetworks, List.mem_insertionSort, List.mem_dedup]

theorem addresses6_ok {out : List (Nat × Nat)} (done : addresses6 root owner values = .ok out) :
    (∀ net, net ∈ out ↔ ∃ n, Reaches (address6Setting root owner) values n ∧ Stands (address6Setting root owner) n net) ∧
      ∀ n, Reaches (address6Setting root owner) values n → ¬Cyclic (address6Setting root owner) n := by
  obtain ⟨gathered, expanded, rfl⟩ := map_ok done
  obtain ⟨reached, acyclic⟩ := @expand_ok _ _ (address6Setting root owner) _ mem_sortedNetworks _ _ _ _ expanded
  exact ⟨fun net => (mem_sortedNetworks _ net).trans (reached net), fun n r => (acyclic n r).2⟩

end names

example : text6 0x20010db8000000000000000000000001 = "2001:db8::1" := by decide +kernel

end FfnNgfw.Policy
