import FfnNgfw.Dhcp.Intent

/-!
# The gateways of a remote-access intent

A gateway listens on an interface address and terminates its tunnels on a tunnel device;
its pools are the addresses it hands to clients. `validateIntent` is the daemon's own check
of a compiled intent. Certificates, authentication, portals and what is only sent to the
clients are left out, and so is the value that a message quotes at its end.
-/

namespace FfnNgfw.Protect

open Policy
open Dhcp (isNumbered ipv4Interface)

/-- What may stand for an address in JSON: `ipaddress` also reads numbers. -/
inductive Value where
  | text (s : String)
  | number (n : Int)

structure RawGateway where
  interface : String
  address : Value
  tunnel : String
  tunnelAddress : Value
  mtu : Option Int
  pools : List (List Value)

structure Spec where
  interface : String
  address : UInt32
  tunnel : String
  tunnelAddress : UInt32 × Nat
  mtu : Nat
  pools : List (UInt32 × UInt32)
  deriving DecidableEq

/-- `NAME` -/
def isName (s : List Char) : Bool :=
  match s with
  | [] => false
  | first :: rest =>
    first.isAlphanum && rest.all (fun c => c.isAlphanum || c = '_' || c = '.' || c = '-') && rest.length ≤ 62

/-- `DEVICE` -/
def isDevice (s : List Char) : Bool :=
  let base (name : List Char) : Bool :=
    match name with
    | 'p' :: digits => isNumbered digits 2
    | 'a' :: 'e' :: digits => isNumbered digits 2
    | _ => false
  match s.splitOn '.' with
  | [name] => base name
  | [name, unit] => base name && isNumbered unit 3
  | _ => false

/-- `TUNNEL` -/
def isTunnel (s : List Char) : Bool :=
  match s.splitOn '.' with
  | [name, unit] => name = "tunnel".toList && isNumbered unit 3
  | _ => false

def ip4 (value : Value) (what : String) : Except String UInt32 :=
  match value with
  | .text s =>
    match ipv4Address s.toList with
    | some address => .ok address
    | none => .error (what ++ ": not an IPv4 address")
  | .number n =>
    if 0 ≤ n ∧ n < 2 ^ 32 then .ok (UInt32.ofNat n.toNat) else .error (what ++ ": not an IPv4 address")

def tunnelInterface (value : Value) : Option (UInt32 × Nat) :=
  match value with
  | .text s => ipv4Interface s.toList
  | .number n => if 0 ≤ n ∧ n < 2 ^ 32 then some (UInt32.ofNat n.toNat, 32) else none

/-- The addresses of a `[first, last]` pair, as `range` goes through them. -/
def rangeAddresses (range : UInt32 × UInt32) : List UInt32 :=
  (List.range' range.1.toNat (range.2.toNat + 1 - range.1.toNat)).map UInt32.ofNat

def Spec.configured (spec : Spec) : List UInt32 := spec.pools.flatMap rangeAddresses

def checkName (value what : String) : Except String String :=
  if isName value.toList then .ok value else .error (what ++ ": invalid name")

def checkInt (value : Int) (what : String) (low high : Int) : Except String Int :=
  if low ≤ value ∧ value ≤ high then .ok value
  else .error (what ++ ": must be an integer from " ++ toString low ++ " to " ++ toString high)

def validatePool (what : String) (done : List (UInt32 × UInt32) × Nat) (pool : List Value) :
    Except String (List (UInt32 × UInt32) × Nat) :=
  match pool with
  | [a, b] => do
    let first ← ip4 a what
    let last ← ip4 b what
    if last < first then throw (what ++ ": pool end precedes its start")
    let total := done.2 + (last.toNat - first.toNat + 1)
    if 65536 < total then throw (what ++ ": pools exceed 65536 addresses")
    return (done.1 ++ [(first, last)], total)
  | _ => .error (what ++ ": pools are [first, last] pairs")

def validatePools (pools : List (List Value)) (what : String) : Except String (List (UInt32 × UInt32)) :=
  if pools.isEmpty then .error (what ++ ": at least one address pool is required")
  else (pools.foldlM (validatePool what) ([], 0)).map Prod.fst

def validateGateway (out : Dict String Spec) (item : String × RawGateway) : Except String (Dict String Spec) := do
  let name ← checkName item.1 "gateway"
  let gateway := item.2
  let what := "gateway " ++ name
  let address ← ip4 gateway.address what
  let pools ← validatePools gateway.pools what
  let mtu ← checkInt (gateway.mtu.getD 1400) (what ++ " mtu") 576 1500
  if !isDevice gateway.interface.toList then throw (what ++ ": interface must be a dataplane device")
  if !isTunnel gateway.tunnel.toList then throw (what ++ ": tunnel must be a tunnel.N unit")
  let some (tunnel, len) := tunnelInterface gateway.tunnelAddress
    | throw (what ++ ": tunnel_address must be an IPv4 address with prefix")
  if 30 < len then throw (what ++ ": tunnel_address needs a prefix of 30 bits or fewer")
  if pools.any fun pool => pool.1 = tunnel ∨ pool.2 = tunnel then
    throw (what ++ ": the pool contains the tunnel address itself")
  let row : Spec := ⟨gateway.interface, address, gateway.tunnel, (tunnel, len), mtu.toNat, pools⟩
  if out.items.any fun other => other.2.tunnel = row.tunnel then
    throw (what ++ ": tunnel " ++ row.tunnel ++ " is used by another gateway")
  if out.items.any fun other => other.2.interface = row.interface ∧ other.2.address = row.address then
    throw (what ++ ": another gateway already uses this address")
  return out.assign name row

def validateIntent (gateways : Dict String RawGateway) : Except String (Dict String Spec) :=
  gateways.items.foldlM validateGateway ∅

end FfnNgfw.Protect
