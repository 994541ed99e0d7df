import FfnNgfw.Lib.Dict
import FfnNgfw.Lib.Fallible
import FfnNgfw.Policy.Objects

/-!
# The intent of a DHCP server

What one device serves: an interface address, pools of addresses, reservations by MAC
address, and the options handed out with a lease. `validateServer` refuses what the server
could not serve. The types of the JSON values are already checked, addresses are still text.
-/

namespace FfnNgfw.Dhcp

open Policy

structure RawOptions where
  gateway : String
  subnetMask : String
  dns : List String
  ntp : List String
  wins : List String
  domain : String

/-- A server of the intent; an option that is left out is an empty text or list. -/
structure RawSpec where
  interface : String
  address : String
  pools : List (List String)
  reserved : List (String × String)
  lease : Option Int
  probe : Bool
  options : RawOptions

structure Options where
  gateway : Option UInt32
  subnetMask : Option UInt32
  dns : List UInt32
  ntp : List UInt32
  wins : List UInt32
  domain : Option String
  deriving DecidableEq

structure Spec where
  interface : String
  address : UInt32
  prefixLen : Nat
  pools : List (UInt32 × UInt32)
  reserved : Dict String UInt32
  lease : Option Nat
  probe : Bool
  options : Options
  deriving DecidableEq

namespace Spec

def netmask (spec : Spec) : UInt32 := UInt32.ofNat (2 ^ 32 - 2 ^ (32 - spec.prefixLen))

def networkAddress (spec : Spec) : UInt32 := spec.address &&& spec.netmask

def broadcastAddress (spec : Spec) : UInt32 := spec.networkAddress ||| ~~~spec.netmask

/-- `ip in network` -/
def inNetwork (spec : Spec) (ip : UInt32) : Bool := ip &&& spec.netmask = spec.networkAddress

end Spec

/-- `[1-9][0-9]{0,n}` -/
def isNumbered (s : List Char) (n : Nat) : Bool := isDigits s && s.head? ≠ some '0' && s.length ≤ n + 1

/-- `(p[1-9][0-9]{0,3}|ae[1-9][0-9]{0,2})(\.[1-9][0-9]{0,3})?` -/
def isDevice (s : List Char) : Bool :=
  let base (name : List Char) : Bool :=
    match name with
    | 'p' :: digits => isNumbered digits 3
    | 'a' :: 'e' :: digits => isNumbered digits 2
    | _ => false
  match s.splitOn '.' with
  | [name] => base name
  | [name, unit] => base name && isNumbered unit 3
  | _ => false

def isHexDigit (c : Char) : Bool := c.isDigit || ('a' ≤ c && c ≤ 'f')

/-- `([0-9a-f]{2}:){5}[0-9a-f]{2}` -/
def isMac (s : List Char) : Bool :=
  let octets := s.splitOn ':'
  octets.length = 6 && octets.all fun o => o.length = 2 && o.all isHexDigit

/-- `[a-z0-9]` of a pattern that ignores case: four more letters fold to `i`, `s` and `k`. -/
def isAlphanumeric (c : Char) : Bool :=
  c.isAlphanum || c ∈ [Char.ofNat 0x130, Char.ofNat 0x131, Char.ofNat 0x17f, Char.ofNat 0x212a]

def isLabel (s : List Char) : Bool :=
  match s.head?, s.getLast? with
  | some first, some last =>
    isAlphanumeric first && isAlphanumeric last && s.all (fun c => isAlphanumeric c || c = '-') && s.length ≤ 63
  | _, _ => false

def isDomain (s : List Char) : Bool := 1 ≤ s.length && s.length ≤ 253 && (s.splitOn '.').all isLabel

/-! ### Addresses -/

def isMulticast (a : UInt32) : Bool := a.toNat / 2 ^ 28 = 14

def isLoopback (a : UInt32) : Bool := a.toNat / 2 ^ 24 = 127

/-- `_ip4` -/
def ip4 (value what : String) : Except String UInt32 :=
  match ipv4Address value.toList with
  | none => .error (what ++ " must be an IPv4 address")
  | some address =>
    if isMulticast address ∨ address = 0 ∨ isLoopback address then .error (what ++ " must be a unicast IPv4 address")
    else .ok address

/-- `ipaddress.IPv4Interface`: the address and the length of its network. -/
def ipv4Interface (s : List Char) : Option (UInt32 × Nat) :=
  match s.splitOn '/' with
  | [a] => (ipv4Address a).map fun a => (a, 32)
  | [a, len] => do
    let a ← ipv4Address a
    let len ← prefixLength len
    return (a, len)
  | _ => none

def maxPool : Nat := 65536

def minLease : Int := 60

def maxLease : Int := 400 * 86400

section validate

variable (device : String) (spec : RawSpec)

def validateInterface : Except String (UInt32 × Nat) :=
  match ipv4Interface spec.address.toList with
  | none => .error (device ++ ": address must be an IPv4 interface address")
  | some (address, len) =>
    if 30 < len ∨ isLoopback address ∨ isMulticast address then .error (device ++ ": address must leave room for clients")
    else .ok (address, len)

def hosts (network : Spec) : Nat × Nat := (network.networkAddress.toNat + 1, network.broadcastAddress.toNat - 1)

def networkText (network : Spec) : String := dotted network.networkAddress ++ "/" ++ toString network.prefixLen

def validatePool (network : Spec) (item : List String) : Except String (UInt32 × UInt32) :=
  match item with
  | [a, b] => do
    let first ← ip4 a (device ++ ": pool address")
    let last ← ip4 b (device ++ ": pool address")
    if last < first then throw (device ++ ": pool first address exceeds its last")
    if ¬((hosts network).1 ≤ first.toNat ∧ last.toNat ≤ (hosts network).2) then
      throw (device ++ ": pool " ++ dotted first ++ "-" ++ dotted last ++ " is outside " ++ networkText network)
    if first ≤ network.address ∧ network.address ≤ last then throw (device ++ ": pool contains the interface address")
    return (first, last)
  | _ => .error (device ++ ": each pool is a [first, last] pair")

def validatePools (network : Spec) : Except String (List (UInt32 × UInt32)) := do
  if 32 < spec.pools.length then throw (device ++ ": pools must be a list of at most 32 ranges")
  let pools ← spec.pools.mapM (validatePool device network)
  let pools := pools.insertionSort fun p q => p.1 < q.1 ∨ (p.1 = q.1 ∧ p.2 ≤ q.2)
  if (pools.zip pools.tail).any fun (p, q) => q.1 ≤ p.2 then throw (device ++ ": pools overlap")
  if maxPool < (pools.map fun p => p.2.toNat - p.1.toNat + 1).sum then
    throw (device ++ ": pools exceed " ++ toString maxPool ++ " addresses")
  return pools

def validateReserved (network : Spec) (reserved : Dict String UInt32) (item : String × String) :
    Except String (Dict String UInt32) := do
  let mac := String.ofList (item.1.toList.map Char.toLower)
  if !isMac mac.toList then throw (device ++ ": reservation MAC must be six colon-separated octets")
  let target ← ip4 item.2 (device ++ ": reservation")
  if !network.inNetwork target ∨ ¬((hosts network).1 ≤ target.toNat ∧ target.toNat ≤ (hosts network).2) ∨ target = network.address then
    throw (device ++ ": reservation " ++ dotted target ++ " is not a client address on " ++ networkText network)
  if mac ∈ reserved ∨ target ∈ reserved.items.map Prod.snd then throw (device ++ ": reservations must be unique")
  return reserved.assign mac target

def validateList (name : String) (values : List String) : Except String (List UInt32) := do
  if 4 < values.length then throw (device ++ ": " ++ name ++ " takes at most four addresses")
  values.mapM fun v => ip4 v (device ++ ": " ++ name)

def validateOptions (options : RawOptions) : Except String Options := do
  let gateway ← if options.gateway.isEmpty then pure none else (ip4 options.gateway (device ++ ": gateway")).map some
  let subnetMask ←
    if options.subnetMask.isEmpty then pure none
    else
      match prefixLength options.subnetMask.toList with
      | none => throw (device ++ ": subnet mask is not a valid netmask")
      | some len => pure (some (UInt32.ofNat (2 ^ 32 - 2 ^ (32 - len))))
  let dns ← validateList device "dns" options.dns
  let ntp ← validateList device "ntp" options.ntp
  let wins ← validateList device "wins" options.wins
  if !options.domain.isEmpty ∧ !isDomain options.domain.toList then throw (device ++ ": domain is not a valid DNS name")
  return ⟨gateway, subnetMask, dns, ntp, wins, if options.domain.isEmpty then none else some options.domain⟩

def validateServer : Except String Spec := do
  if !isDevice device.toList then throw "unsupported dataplane device name"
  if spec.interface.isEmpty then throw (device ++ ": interface name required")
  let (address, len) ← validateInterface device spec
  let network : Spec := ⟨spec.interface, address, len, [], ∅, none, spec.probe, ⟨none, none, [], [], [], none⟩⟩
  let pools ← validatePools device spec network
  if 4096 < spec.reserved.length then throw (device ++ ": reserved must map at most 4096 MAC addresses")
  let reserved ← spec.reserved.foldlM (validateReserved device network) ∅
  if pools.isEmpty ∧ reserved.items.isEmpty then throw (device ++ ": a pool or a reservation is required")
  if spec.lease.any fun lease => ¬(minLease ≤ lease ∧ lease ≤ maxLease) then
    throw (device ++ ": lease must be " ++ toString minLease ++ ".." ++ toString maxLease ++ " seconds or null for unlimited")
  let options ← validateOptions device spec.options
  return { network with pools := pools, reserved := reserved, lease := spec.lease.map Int.toNat, options := options }

end validate

end FfnNgfw.Dhcp
