import FfnNgfw.Portable.Tables

/-!
# Policy images

Two programs write policy images: `mkpolicy.py`, and `_pack_policy` of
`ffn_fastpath_compile.py`. Both write the format that is stated here once, a header
and rows of 32 bytes with the addresses in network order, and `dp_tables_load` reads
every row of it back.
-/

namespace FfnNgfw.Portable
open Mem

def rowBytes (r : PolicyRow) : List UInt8 :=
  be32 r.srcIp ++ be32 r.srcMask ++ be32 r.dstIp ++ be32 r.dstMask ++
    le16 r.sportLo ++ le16 r.sportHi ++ le16 r.dportLo ++ le16 r.dportHi ++
    [r.proto, r.vsys, r.action, r.flags] ++ le16 r.egress ++ le16 r.ruleId

/-- `HDR_FMT` of a table of `n` records. -/
def hdrBytes (magic : List UInt8) (type : UInt16) (n : UInt32) (ts : UInt64) (crc recordSize populated : UInt32) :
    List UInt8 :=
  magic ++ le16 1 ++ le16 type ++ le32 n ++ le64 ts ++ le32 crc ++ le32 recordSize ++ le32 populated ++ le32 0

def policyImage (ts : UInt64) (crc : UInt32) (rows : List PolicyRow) : List UInt8 :=
  let n := UInt32.ofNat rows.length
  hdrBytes fpMagicPolicy fpTPolicyW n ts crc 32 n ++ rows.flatMap rowBytes

/-- A rule of `self.policy`, where every key may be missing. The address words are
packed as they are. -/
structure PolicyDict where
  srcIp : Option UInt32
  srcMask : Option UInt32
  dstIp : Option UInt32
  dstMask : Option UInt32
  sportLo : Option UInt16
  sportHi : Option UInt16
  dportLo : Option UInt16
  dportHi : Option UInt16
  proto : Option UInt8
  vsys : Option Int
  action : Option UInt8
  flags : Option UInt8
  egressPort : Option UInt16
  ruleId : Option UInt16

/-- `int(v) & 0xFF` -/
def lowByte (v : Int) : UInt8 := UInt8.ofNat (v % 256).toNat

def PolicyDict.pack (defaultVsys : Int) (r : PolicyDict) : List UInt8 :=
  le32 (r.srcIp.getD 0) ++ le32 (r.srcMask.getD 0) ++ le32 (r.dstIp.getD 0) ++ le32 (r.dstMask.getD 0) ++
    le16 (r.sportLo.getD 0) ++ le16 (r.sportHi.getD 0xFFFF) ++ le16 (r.dportLo.getD 0) ++ le16 (r.dportHi.getD 0xFFFF) ++
    [r.proto.getD 0, lowByte (r.vsys.getD defaultVsys), r.action.getD 1, r.flags.getD 0] ++
    le16 (r.egressPort.getD 0xFFFF) ++ le16 (r.ruleId.getD 0)

def packPolicy (now : UInt64) (crc32 : List UInt8 → UInt32) (defaultVsys : Int) (rows : List PolicyDict) :
    Option (List UInt8) :=
  let buf := rows.flatMap (PolicyDict.pack defaultVsys)
  let n := UInt32.ofNat rows.length
  if rows.length < 2 ^ 32 then some (hdrBytes fpMagicPolicy fpTPolicyW n now (crc32 buf) 32 n ++ buf) else none

/-! ### Both write the format -/

theorem le32_be (v : UInt32) : le32 (be v) = be32 v := by
  obtain ⟨b0, b1, b2, b3⟩ := ldLe32_bytes (Mem.write (fun _ => 0) 0 (be32 v)) 0
  unfold le32 be
  rw [b0, b1, b2, b3]
  rfl

theorem be32_be (v : UInt32) : be32 (be v) = le32 v := congrArg List.reverse (le32_be v)

theorem be_be (v : UInt32) : be (be v) = v := by
  rw [be, be32_be]
  exact ldLe32_of_at (at_write _ 0 _)

/-- The row that a rule of `mkpolicy.py` stands for. -/
def Rule.native (r : Rule) (rid : UInt16) : PolicyRow where
  srcIp := (cidr r.src).1
  srcMask := (cidr r.src).2
  dstIp := (cidr r.dst).1
  dstMask := (cidr r.dst).2
  sportLo := 0
  sportHi := 65535
  dportLo := r.dport
  dportHi := if r.dport ≠ 0 then r.dport else 65535
  proto := r.proto
  vsys := 1
  action := r.act
  flags := 0
  egress := 0xFFFF
  ruleId := rid

def nativeRows : List Rule → UInt16 → List PolicyRow
  | [], _ => []
  | r :: rs, rid => r.native rid :: nativeRows rs (rid + 1)

theorem nativeRows_length (rules : List Rule) (rid : UInt16) : (nativeRows rules rid).length = rules.length := by
  induction rules generalizing rid with
  | nil => rfl
  | cons r rules ih => rw [nativeRows, List.length_cons, List.length_cons, ih]

theorem mkRows_eq (rules : List Rule) (rid : UInt16) : mkRows rules rid = (nativeRows rules rid).flatMap rowBytes := by
  induction rules generalizing rid with
  | nil => rfl
  | cons r rules ih =>
    rw [mkRows, nativeRows, List.flatMap_cons, ih]
    congr 1
    unfold Rule.row rowBytes Rule.native
    rw [le32_be, le32_be, le32_be, le32_be]

theorem mkpolicy_image {rules : List Rule} (few : rules.length < 65536) :
    mkpolicy rules = some (policyImage 0 0 (nativeRows rules 1)) := by
  unfold mkpolicy policyImage
  dsimp only
  rw [if_pos few, nativeRows_length, mkRows_eq]
  rfl

/-- The row that a rule of `self.policy` stands for, with its addresses as numbers. -/
def PolicyDict.native (defaultVsys : Int) (r : PolicyDict) : PolicyRow where
  srcIp := be (r.srcIp.getD 0)
  srcMask := be (r.srcMask.getD 0)
  dstIp := be (r.dstIp.getD 0)
  dstMask := be (r.dstMask.getD 0)
  sportLo := r.sportLo.getD 0
  sportHi := r.sportHi.getD 0xFFFF
  dportLo := r.dportLo.getD 0
  dportHi := r.dportHi.getD 0xFFFF
  proto := r.proto.getD 0
  vsys := lowByte (r.vsys.getD defaultVsys)
  action := r.action.getD 1
  flags := r.flags.getD 0
  egress := r.egressPort.getD 0xFFFF
  ruleId := r.ruleId.getD 0

theorem pack_native (defaultVsys : Int) (r : PolicyDict) : r.pack defaultVsys = rowBytes (r.native defaultVsys) := by
  unfold PolicyDict.pack rowBytes PolicyDict.native
  rw [be32_be, be32_be, be32_be, be32_be]

theorem packPolicy_image (now : UInt64) (crc32 : List UInt8 → UInt32) (defaultVsys : Int) {rows : List PolicyDict}
    (few : rows.length < 2 ^ 32) :
    ∃ crc, packPolicy now crc32 defaultVsys rows = some (policyImage now crc (rows.map (PolicyDict.native defaultVsys))) := by
  have packed : rows.flatMap (PolicyDict.pack defaultVsys) =
      (rows.map (PolicyDict.native defaultVsys)).flatMap rowBytes := by
    rw [List.flatMap_map]
    exact congrArg (rows.flatMap ·) (funext (pack_native defaultVsys))
  unfold packPolicy policyImage
  dsimp only
  rw [if_pos few, packed, List.length_map]
  exact ⟨_, rfl⟩

/-- The dictionary of a row, with its address words in network order. -/
def PolicyRow.dict (r : PolicyRow) : PolicyDict where
  srcIp := some (be r.srcIp)
  srcMask := some (be r.srcMask)
  dstIp := some (be r.dstIp)
  dstMask := some (be r.dstMask)
  sportLo := some r.sportLo
  sportHi := some r.sportHi
  dportLo := some r.dportLo
  dportHi := some r.dportHi
  proto := some r.proto
  vsys := some r.vsys.toNat
  action := some r.action
  flags := some r.flags
  egressPort := some r.egress
  ruleId := some r.ruleId

theorem lowByte_toNat (b : UInt8) : lowByte b.toNat = b := by
  have small := b.toNat_lt
  apply UInt8.toNat_inj.mp
  rw [lowByte, UInt8.toNat_ofNat']
  omega

theorem dict_native (defaultVsys : Int) (r : PolicyRow) : r.dict.native defaultVsys = r := by
  unfold PolicyRow.dict PolicyDict.native
  simp only [Option.getD_some, be_be, lowByte_toNat]

theorem policyRowAt_of_at {m : Mem} {row : Nat} {r : PolicyRow} (h : At m row (rowBytes r)) : policyRowAt m row = r := by
  unfold rowBytes at h
  simp only [at_append, List.length_append] at h
  obtain ⟨⟨⟨⟨⟨⟨⟨⟨⟨⟨srcIp, srcMask⟩, dstIp⟩, dstMask⟩, sportLo⟩, sportHi⟩, dportLo⟩, dportHi⟩, bytes⟩, egress⟩, ruleId⟩ := h
  have h0 := bytes 0 (by simp)
  have h1 := bytes 1 (by simp)
  have h2 := bytes 2 (by simp)
  have h3 := bytes 3 (by simp)
  unfold policyRowAt
  rw [ldBe32_of_at srcIp, ldBe32_of_at (p := row + 4) srcMask, ldBe32_of_at (p := row + 8) dstIp,
    ldBe32_of_at (p := row + 12) dstMask, ldLe16_of_at (p := row + 16) sportLo, ldLe16_of_at (p := row + 18) sportHi,
    ldLe16_of_at (p := row + 20) dportLo, ldLe16_of_at (p := row + 22) dportHi,
    ldLe16_of_at (p := row + 28) egress, ldLe16_of_at (p := row + 30) ruleId]
  cases r
  simp only [PolicyRow.mk.injEq, true_and, and_true]
  exact ⟨h0, h1, h2, h3⟩

theorem rowBytes_length (r : PolicyRow) : (rowBytes r).length = fpPolicySizeW := rfl

theorem rows_length (rows : List PolicyRow) : (rows.flatMap rowBytes).length = rows.length * fpPolicySizeW := by
  induction rows with
  | nil => exact (Nat.zero_mul _).symm
  | cons r rows ih =>
    rw [List.flatMap_cons, List.length_append, ih, rowBytes_length, List.length_cons, Nat.succ_mul, Nat.add_comm]

theorem rows_at {m : Mem} {p : Nat} {rows : List PolicyRow} (stored : At m p (rows.flatMap rowBytes)) :
    (List.range rows.length).map (fun i => policyRowAt m (p + i * fpPolicySizeW)) = rows := by
  induction rows generalizing p with
  | nil => rfl
  | cons r rows ih =>
    rw [List.flatMap_cons] at stored
    obtain ⟨first, rest⟩ := at_append.mp stored
    rw [rowBytes_length] at rest
    rw [List.length_cons, map_rows_succ, policyRowAt_of_at first, ih rest]

/-- A blob whose rows are all read back, wherever it stands in memory. -/
def LoadsAs (blob : List UInt8) (rows : List PolicyRow) : Prop :=
  ∀ m p len, At m p blob → blob.length ≤ len → ∃ bounded, dpTablesLoad m (some p) len = (⟨1, rows, bounded⟩, .ok)

theorem hdr_at {m : Mem} {p : Nat} {magic : List UInt8} {type : UInt16} {n : UInt32} {ts : UInt64}
    {crc recordSize populated : UInt32} (four : magic.length = 4)
    (stored : At m p (hdrBytes magic type n ts crc recordSize populated)) :
    m.bytes p 4 = magic ∧ ldLe16 m (p + 4) = 1 ∧ ldLe16 m (p + 6) = type ∧ ldLe32 m (p + 8) = n ∧
      ldLe32 m (p + 24) = recordSize := by
  unfold hdrBytes at stored
  simp only [at_append, List.length_append, four] at stored
  obtain ⟨⟨⟨⟨⟨⟨⟨⟨magicAt, version⟩, typeAt⟩, count⟩, _⟩, _⟩, record⟩, _⟩, _⟩ := stored
  refine ⟨?_, ldLe16_of_at version, ldLe16_of_at typeAt, ldLe32_of_at count, ldLe32_of_at record⟩
  rw [← four]
  exact bytes_of_at magicAt

theorem image_loads (ts : UInt64) (crc : UInt32) {rows : List PolicyRow} (few : rows.length ≤ dpMaxPolicy) :
    LoadsAs (policyImage ts crc rows) rows := by
  intro m p len stored room
  unfold policyImage at stored room
  dsimp only at stored room
  obtain ⟨header, rowsAt⟩ := at_append.mp stored
  obtain ⟨magic, version, type, count, record⟩ := hdr_at rfl header
  have countNat : (ldLe32 m (p + 8)).toNat = rows.length := by
    rw [count, UInt32.toNat_ofNat']
    unfold dpMaxPolicy at few
    omega
  have whole : rows.length * fpPolicySizeW + fpHdrSizeW ≤ len := by
    rw [List.length_append, rows_length] at room
    rw [Nat.add_comm]
    exact room
  have hdrSize : fpHdrSizeW ≤ len := Nat.le_trans (Nat.le_add_left _ _) whole
  have decoded := rows_at rowsAt
  have short : ¬len < (ldLe32 m (p + 8)).toNat * fpPolicySizeW + fpHdrSizeW := by
    rw [countNat]
    exact Nat.not_lt.mpr whole
  have many : ¬dpMaxPolicy < (ldLe32 m (p + 8)).toNat := by
    rw [countNat]
    exact Nat.not_lt.mpr few
  have sized : (ldLe32 m (p + 24)).toNat = fpPolicySizeW := by
    rw [record]
    rfl
  refine ⟨few, ?_⟩
  unfold dpTablesLoad
  dsimp only
  rw [if_neg (Nat.not_lt.mpr hdrSize), if_neg (not_not.mpr magic), if_neg (not_not.mpr type), if_neg (not_not.mpr sized),
    if_neg short, dif_neg many]
  refine Prod.ext ?_ rfl
  rw [Tables.mk.injEq]
  refine ⟨version, ?_⟩
  rw [countNat]
  exact decoded

end FfnNgfw.Portable
