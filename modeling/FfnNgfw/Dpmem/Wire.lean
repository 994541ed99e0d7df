import FfnNgfw.Portable.Tables

/-!
# Messages of the management plane

The tables of `ffn_mpdp.fbs` as the generated reader hands them to
`ffn_mpdp_consumer.c`. Strings and byte vectors live in the wire buffer, outside the
shared region, at a nonzero address. An absent vector is read as an empty one.
-/

namespace FfnNgfw.Dpmem
open Mem Portable

structure WireStr where
  addr : UInt64
  text : List UInt8
  present : addr ≠ 0
  noNul : 0 ∉ text
  short : text.length < 2 ^ 32

structure WireVec where
  addr : UInt64
  bytes : List UInt8
  present : addr ≠ 0
  short : bytes.length < 2 ^ 32

theorem one_present : (1 : UInt64) ≠ 0 := by decide

/-- The address that a reader returns, NULL for an absent string. -/
def strAddr : Option WireStr → UInt64
  | none => 0
  | some s => s.addr

def vecAddr : Option WireVec → UInt64
  | none => 0
  | some v => v.addr

def vecBytes : Option WireVec → List UInt8
  | none => []
  | some v => v.bytes

def vecLen (v : Option WireVec) : UInt32 := UInt32.ofNat (vecBytes v).length

/-! ### Tables -/

structure Signature where
  sid : UInt32
  name : Option WireStr
  sigType : Option WireStr
  hashType : Option WireStr
  digest : Option WireVec
  hexPattern : Option WireStr
  severity : UInt8
  verdict : UInt8
  family : Option WireStr

structure Ioc where
  kind : Option WireStr
  value : Option WireStr
  verdict : UInt8

structure WirePolicyRow where
  vsys : UInt8
  proto : UInt8
  srcIp : Option WireStr
  srcPort : UInt16
  dstIp : Option WireStr
  dstPort : UInt16
  action : UInt8

structure MlModelUpdate where
  version : UInt32
  kind : UInt8
  treeBlob : Option WireVec
  ngramParams : Option WireVec
  featuresVersion : UInt32

structure ThreatIntelUpdate where
  seq : UInt32
  adds : List Signature
  removes : List UInt32
  iocs : List Ioc
  addsShort : adds.length < 2 ^ 32
  removesShort : removes.length < 2 ^ 32
  iocsShort : iocs.length < 2 ^ 32

structure PolicyUpdate where
  vsys : UInt32
  rows : List WirePolicyRow
  rowsShort : rows.length < 2 ^ 32

structure SignatureVerdict where
  sid : UInt32
  sha256 : Option WireVec
  verdict : UInt8
  ts : UInt64

inductive Body where
  | mlModelUpdate (m : MlModelUpdate)
  | threatIntelUpdate (ti : ThreatIntelUpdate)
  | policyUpdate (pu : PolicyUpdate)
  | signatureVerdict (sv : SignatureVerdict)
  /-- engine telemetry or a flow event, which only travel the other way -/
  | other

inductive Dir where
  | mp2dp | dp2mp
  deriving DecidableEq

/-- What `ffn_mpdp_apply` is given: no buffer, a buffer that does not verify, or a
message whose body may be absent. -/
inductive Frame where
  | null
  | unverified
  | message (dir : Dir) (body : Option Body)

inductive MpdpRc where
  | ok | einval | ebadmsg | edir | eunsupp | enomem | edpmem
  deriving DecidableEq

def MpdpRc.code : MpdpRc → Int
  | .ok => 0
  | .einval => -1
  | .ebadmsg => -2
  | .edir => -3
  | .eunsupp => -4
  | .enomem => -5
  | .edpmem => -6

/-! ### `parse_cidr` -/

def isDigit (c : UInt8) : Bool := decide (0x30 ≤ c) && decide (c ≤ 0x39)

def isSpace (c : UInt8) : Bool := c == 0x20 || (decide (0x09 ≤ c) && decide (c ≤ 0x0D))

def digitsValue : List UInt8 → Nat → Nat
  | [], acc => acc
  | c :: cs, acc => if isDigit c then digitsValue cs (acc * 10 + (c.toNat - 0x30)) else acc

/-- `strtol` in base 10: the value is clamped to a `long`. -/
def strtol (s : List UInt8) : Int :=
  match s.dropWhile isSpace with
  | 0x2D :: cs => max (-(digitsValue cs 0 : Int)) (-2 ^ 63)
  | 0x2B :: cs => min (digitsValue cs 0 : Int) (2 ^ 63 - 1)
  | cs => min (digitsValue cs 0 : Int) (2 ^ 63 - 1)

def atoi (s : List UInt8) : Int := (BitVec.ofInt 32 (strtol s)).toInt

/-- The scan of `inet_pton` for `AF_INET`: `done` are the finished octets, `cur` the
current one, `sawDigit` says whether it has a digit. -/
def inetPton4 : List UInt8 → List Nat → Nat → Bool → Option (List Nat)
  | [], done, cur, sawDigit =>
    if sawDigit ∧ done.length = 3 then some (done ++ [cur]) else none
  | c :: cs, done, cur, sawDigit =>
    if isDigit c then
      if sawDigit ∧ cur = 0 then none
      else if 255 < cur * 10 + (c.toNat - 0x30) then none
      else if ¬sawDigit ∧ 4 ≤ done.length then none
      else inetPton4 cs done (cur * 10 + (c.toNat - 0x30)) true
    else if c = 0x2E ∧ sawDigit then
      if done.length = 3 then none else inetPton4 cs (done ++ [cur]) 0 false
    else none

def octetsWord (octets : List Nat) : UInt32 := UInt32.ofNat (octets.foldl (fun acc o => acc * 256 + o) 0)

def anyText : List UInt8 := [0x61, 0x6E, 0x79]

def prefixLen (text : List UInt8) : Int :=
  match text.dropWhile (· ≠ 0x2F) with
  | _ :: digits => atoi digits
  | [] => 32

def prefixMask (pfx : Int) : UInt32 := if pfx ≠ 0 then 0xFFFFFFFF <<< UInt32.ofNat (32 - pfx.toNat) else 0

/-- Address and mask in host order, `none` on a parse error. -/
def parseCidr (s : Option WireStr) : Option (UInt32 × UInt32) :=
  match s with
  | none => some (0, 0)
  | some s =>
    if s.text = [] ∨ s.text = anyText then some (0, 0)
    else if 64 ≤ s.text.length then none
    else
      let pfx := prefixLen s.text
      if pfx < 0 ∨ 32 < pfx then none
      else
        (inetPton4 (s.text.takeWhile (· ≠ 0x2F)) [] 0 false).map fun octets =>
          (octetsWord octets &&& prefixMask pfx, prefixMask pfx)

/-- One wire row as a policy row: a port of 0 is the full range, a vsys of 0 the vsys
of the update. -/
def compileRow (baseVsys : UInt8) (i : Nat) (r : WirePolicyRow) : Option PolicyRow :=
  match parseCidr r.srcIp, parseCidr r.dstIp with
  | some (sip, smask), some (dip, dmask) =>
    some
      { srcIp := sip, srcMask := smask, dstIp := dip, dstMask := dmask
        sportLo := r.srcPort, sportHi := if r.srcPort ≠ 0 then r.srcPort else 0xFFFF
        dportLo := r.dstPort, dportHi := if r.dstPort ≠ 0 then r.dstPort else 0xFFFF
        proto := r.proto, vsys := if r.vsys ≠ 0 then r.vsys else baseVsys
        action := r.action, flags := 0, egress := 0xFFFF, ruleId := UInt16.ofNat (i + 1) }
  | _, _ => none

end FfnNgfw.Dpmem
