import FfnNgfw.Lib.FirstMatch
import FfnNgfw.Lib.Memory

/-!
# Policy tables of the portable dataplane

`dp_tables_load` turns the little-endian wire rows of a policy blob into native
rows, and `dp_classify` scans them for the first row that matches a tuple
(`ffn_dp_oct.c`).
-/

namespace FfnNgfw.Portable
open Mem

/-! ### Return codes -/

inductive Rc where
  | ok | errShort | errMagic | errType | errRecsz | errTooMany | errNoMem | errNotIp | errHandshake | errBank
  deriving DecidableEq

def Rc.code : Rc → Int
  | .ok => 0
  | .errShort => -1
  | .errMagic => -2
  | .errType => -3
  | .errRecsz => -4
  | .errTooMany => -5
  | .errNoMem => -6
  | .errNotIp => -7
  | .errHandshake => -8
  | .errBank => -9

/-! ### Decisions

A decision is a C `int`: a row's action byte, or whatever default the management
plane has set. -/

def fpForward : Int := 0
def fpInspect : Int := 1
def fpPuntFpga : Int := 2
def fpDrop : Int := 3
def fpLocal : Int := 4
def dpDecisionNoMatch : Int := -1
def dpEgressNone : UInt16 := 0xFFFF

def ipprotoTcp : UInt8 := 6
def ipprotoUdp : UInt8 := 17

structure PolicyRow where
  srcIp : UInt32
  srcMask : UInt32
  dstIp : UInt32
  dstMask : UInt32
  sportLo : UInt16
  sportHi : UInt16
  dportLo : UInt16
  dportHi : UInt16
  proto : UInt8
  vsys : UInt8
  action : UInt8
  flags : UInt8
  egress : UInt16
  ruleId : UInt16
  deriving DecidableEq

def dpMaxPolicy : Nat := 16384

/-- The rows in use. The rest of the fixed array is zero, as `memset` left it. -/
structure Tables where
  version : UInt16
  policy : List PolicyRow
  bounded : policy.length ≤ dpMaxPolicy
  deriving DecidableEq

def Tables.zero : Tables := ⟨0, [], by decide⟩

def fpHdrSizeW : Nat := 36
def fpPolicySizeW : Nat := 32
def fpTPolicyW : UInt16 := 0x40

def fpMagicPolicy : List UInt8 := [0x46, 0x50, 0x50, 0x4F]

def policyRowAt (m : Mem) (row : Nat) : PolicyRow where
  srcIp := ldBe32 m row
  srcMask := ldBe32 m (row + 4)
  dstIp := ldBe32 m (row + 8)
  dstMask := ldBe32 m (row + 12)
  sportLo := ldLe16 m (row + 16)
  sportHi := ldLe16 m (row + 18)
  dportLo := ldLe16 m (row + 20)
  dportHi := ldLe16 m (row + 22)
  proto := m (row + 24)
  vsys := m (row + 25)
  action := m (row + 26)
  flags := m (row + 27)
  egress := ldLe16 m (row + 28)
  ruleId := ldLe16 m (row + 30)

/-- The table is cleared before the blob is looked at, so every rejection leaves
it empty. -/
def dpTablesLoad (m : Mem) (blob : Option Nat) (len : Nat) : Tables × Rc :=
  match blob with
  | none => (Tables.zero, .errShort)
  | some p =>
    if len < fpHdrSizeW then (Tables.zero, .errShort)
    else if m.bytes p 4 ≠ fpMagicPolicy then (Tables.zero, .errMagic)
    else
      let ver := ldLe16 m (p + 4)
      let type := ldLe16 m (p + 6)
      let count := (ldLe32 m (p + 8)).toNat
      let recsz := (ldLe32 m (p + 24)).toNat
      if type ≠ fpTPolicyW then (Tables.zero, .errType)
      else if recsz ≠ fpPolicySizeW then (Tables.zero, .errRecsz)
      else if len < count * fpPolicySizeW + fpHdrSizeW then (Tables.zero, .errShort)
      else if many : dpMaxPolicy < count then (Tables.zero, .errTooMany)
      else
        ({ version := ver
           policy := (List.range count).map fun i => policyRowAt m (p + fpHdrSizeW + i * fpPolicySizeW)
           bounded := by simpa using many }, .ok)

theorem dpTablesLoad_failed {m : Mem} {blob : Option Nat} {len : Nat}
    (h : (dpTablesLoad m blob len).2 ≠ .ok) : (dpTablesLoad m blob len).1 = Tables.zero := by
  unfold dpTablesLoad at h ⊢
  cases blob with
  | none => rfl
  | some p =>
    dsimp only at h ⊢
    repeat' split
    all_goals first
      | rfl
      | simp_all

theorem dpTablesLoad_ok {m : Mem} {p len : Nat} (h : (dpTablesLoad m (some p) len).2 = .ok) :
    (dpTablesLoad m (some p) len).1.policy =
      (List.range (ldLe32 m (p + 8)).toNat).map fun i => policyRowAt m (p + fpHdrSizeW + i * fpPolicySizeW) := by
  unfold dpTablesLoad at h ⊢
  dsimp only at h ⊢
  repeat' split
  all_goals first
    | rfl
    | simp_all

/-! ### Classification -/

structure Tuple where
  srcIp : UInt32
  dstIp : UInt32
  sport : UInt16
  dport : UInt16
  proto : UInt8
  vsys : UInt8
  tcpFlags : UInt8
  deriving DecidableEq

/-- The row's addresses accept the packet's. A zero mask accepts every address. -/
def PolicyRow.addrMatches (r : PolicyRow) (srcIp dstIp : UInt32) : Bool :=
  !(r.srcMask != 0 && (srcIp &&& r.srcMask) != (r.srcIp &&& r.srcMask)) &&
  !(r.dstMask != 0 && (dstIp &&& r.dstMask) != (r.dstIp &&& r.dstMask))

def PolicyRow.matches (r : PolicyRow) (k : Tuple) : Bool :=
  !(r.vsys != 0 && r.vsys != k.vsys) &&
  !(r.proto != 0 && r.proto != k.proto) &&
  r.addrMatches k.srcIp k.dstIp &&
  -- port ranges only apply to port-bearing protocols
  !((k.proto == ipprotoTcp || k.proto == ipprotoUdp) &&
    (k.sport < r.sportLo || r.sportHi < k.sport || k.dport < r.dportLo || r.dportHi < k.dport))

/-- The row at which the loop of `dp_classify` stops. -/
def dpSelect (rows : List PolicyRow) (k : Tuple) : Option (Nat × PolicyRow) := firstMatch (fun r => r.matches k) rows

def Tables.select (t : Tables) (k : Tuple) : Option (Nat × PolicyRow) := dpSelect t.policy k

def dpClassify (t : Tables) (k : Tuple) : Int × UInt16 × UInt16 :=
  match t.select k with
  | some (_, r) => (r.action.toNat, r.ruleId, r.egress)
  | none => (dpDecisionNoMatch, 0, dpEgressNone)

end FfnNgfw.Portable

/-!
## The policy compiler

`mkpolicy.py` packs the rules of its command line into a policy blob. A rule is
taken here after its words have been split and read as numbers. Numbers that do
not fit their field make `struct.pack` raise, so no row holds one.
-/

namespace FfnNgfw.Portable
open Mem

/-- An address argument: `any`, or an address with its prefix length. -/
inductive Net where
  | any
  | net (ip : UInt32) (bits : Fin 33)

instance prefixLengths : NeZero 33 := ⟨by decide⟩

def cidrMask (bits : Fin 33) : UInt32 := UInt32.ofNat (((1 <<< bits.val) - 1) <<< (32 - bits.val))

def cidr : Net → UInt32 × UInt32
  | .any => (0, 0)
  | .net ip bits => (ip, cidrMask bits)

/-- `be`: packed big-endian, unpacked little-endian. -/
def be (v : UInt32) : UInt32 := ldLe32 (Mem.write (fun _ => 0) 0 (be32 v)) 0

structure Rule where
  act : UInt8
  proto : UInt8
  src : Net
  dst : Net
  dport : UInt16

def Rule.row (r : Rule) (rid : UInt16) : List UInt8 :=
  le32 (be (cidr r.src).1) ++ le32 (be (cidr r.src).2) ++ le32 (be (cidr r.dst).1) ++ le32 (be (cidr r.dst).2) ++
    le16 0 ++ le16 65535 ++ le16 r.dport ++ le16 (if r.dport ≠ 0 then r.dport else 65535) ++
    [r.proto, 1, r.act, 0] ++ le16 0xFFFF ++ le16 rid

def mkRows : List Rule → UInt16 → List UInt8
  | [], _ => []
  | r :: rs, rid => r.row rid ++ mkRows rs (rid + 1)

def mkpolicy (rules : List Rule) : Option (List UInt8) :=
  let n := UInt32.ofNat rules.length
  if rules.length < 65536 then
    some (fpMagicPolicy ++ le16 1 ++ le16 0x40 ++ le32 n ++ le64 0 ++ le32 0 ++ le32 32 ++ le32 n ++ le32 0 ++
      mkRows rules 1)
  else none

theorem row_length (r : Rule) (rid : UInt16) : (r.row rid).length = fpPolicySizeW := by
  simp [Rule.row, le32, le16, fpPolicySizeW]

theorem at_mkRows {m : Mem} {p i : Nat} {rules : List Rule} {rid : UInt16} {r : Rule}
    (stored : At m p (mkRows rules rid)) (read : rules[i]? = some r) :
    ∃ rid', At m (p + i * fpPolicySizeW) (r.row rid') := by
  induction rules generalizing p i rid with
  | nil => cases read
  | cons first rest ih =>
    obtain ⟨head, tail⟩ := at_append.mp stored
    cases i with
    | zero =>
      rw [List.getElem?_cons_zero, Option.some.injEq] at read
      subst read
      exact ⟨rid, by rwa [Nat.zero_mul]⟩
    | succ i =>
      rw [row_length] at tail
      obtain ⟨rid', there⟩ := ih tail read
      exact ⟨rid', by rwa [Nat.succ_mul, Nat.add_comm (i * _), ← Nat.add_assoc]⟩

theorem at_mkpolicy {m : Mem} {p : Nat} {rules : List Rule} {blob : List UInt8} (made : mkpolicy rules = some blob)
    (stored : At m p blob) :
    (ldLe32 m (p + 8)).toNat = rules.length ∧ At m (p + fpHdrSizeW) (mkRows rules 1) := by
  unfold mkpolicy at made
  dsimp only at made
  split at made
  · rename_i few
    cases made
    simp only [at_append, List.length_append] at stored
    obtain ⟨⟨⟨⟨⟨⟨⟨⟨⟨_, _⟩, _⟩, count⟩, _⟩, _⟩, _⟩, _⟩, _⟩, rows⟩ := stored
    refine ⟨?_, rows⟩
    rw [show p + 8 = p + (fpMagicPolicy.length + (le16 1).length + (le16 0x40).length) from rfl, ldLe32_of_at count,
      UInt32.toNat_ofNat']
    omega
  · cases made

end FfnNgfw.Portable
