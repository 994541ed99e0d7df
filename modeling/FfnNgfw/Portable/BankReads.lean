import FfnNgfw.Lib.Access
import FfnNgfw.Portable.Control
import FfnNgfw.Portable.Image

/-!
# What loading a policy reads

`dp_tables_load` as a reader. Whatever the bytes of a bank are, the loader compares
the size that the header declares with the bytes there are before it reads a row, so
`dp_activate_bank` stays in the bank and in the region.
-/

namespace FfnNgfw.Portable
open Access

/-! ### `dp_tables_load` as a reader -/

def rowReader (row : Nat) : Access PolicyRow := do
  let srcIp ← ldBe32 row
  let srcMask ← ldBe32 (row + 4)
  let dstIp ← ldBe32 (row + 8)
  let dstMask ← ldBe32 (row + 12)
  let sportLo ← ldLe16 (row + 16)
  let sportHi ← ldLe16 (row + 18)
  let dportLo ← ldLe16 (row + 20)
  let dportHi ← ldLe16 (row + 22)
  let proto ← load (row + 24)
  let vsys ← load (row + 25)
  let action ← load (row + 26)
  let flags ← load (row + 27)
  let egress ← ldLe16 (row + 28)
  let ruleId ← ldLe16 (row + 30)
  return ⟨srcIp, srcMask, dstIp, dstMask, sportLo, sportHi, dportLo, dportHi, proto, vsys, action, flags, egress, ruleId⟩

def rowsReader (row : Nat) : Nat → Access (List PolicyRow)
  | 0 => return []
  | n + 1 => do
    let r ← rowReader row
    return r :: (← rowsReader (row + fpPolicySizeW) n)

/-- The version, the rows and the return code, once the header has been read. -/
def declaredRows (p len : Nat) (ver type : UInt16) (count recsz : UInt32) : Access (UInt16 × List PolicyRow × Rc) :=
  if type ≠ fpTPolicyW then return (0, [], .errType)
  else if recsz.toNat ≠ fpPolicySizeW then return (0, [], .errRecsz)
  else if len < count.toNat * fpPolicySizeW + fpHdrSizeW then return (0, [], .errShort)
  else if dpMaxPolicy < count.toNat then return (0, [], .errTooMany)
  else do
    let rows ← rowsReader (p + fpHdrSizeW) count.toNat
    return (ver, rows, .ok)

def tablesReader (p len : Nat) : Access (UInt16 × List PolicyRow × Rc) :=
  if len < fpHdrSizeW then return (0, [], .errShort)
  else do
    let magic ← bytes p 4
    if magic ≠ fpMagicPolicy then return (0, [], .errMagic)
    else do
      let ver ← ldLe16 (p + 4)
      let type ← ldLe16 (p + 6)
      let count ← ldLe32 (p + 8)
      let recsz ← ldLe32 (p + 24)
      declaredRows p len ver type count recsz

theorem rowReader_value (m : Mem) (row : Nat) : (rowReader row).value m = policyRowAt m row := rfl

theorem rowsReader_value (m : Mem) (row n : Nat) :
    (rowsReader row n).value m = (List.range n).map fun i => policyRowAt m (row + i * fpPolicySizeW) := by
  induction n generalizing row with
  | zero => rfl
  | succ n ih =>
    have first : (rowsReader row (n + 1)).value m =
        policyRowAt m row :: (rowsReader (row + fpPolicySizeW) n).value m := rfl
    rw [first, ih, Mem.map_rows_succ]

theorem tablesReader_value (m : Mem) (p len : Nat) :
    (tablesReader p len).value m =
      ((dpTablesLoad m (some p) len).1.version, (dpTablesLoad m (some p) len).1.policy, (dpTablesLoad m (some p) len).2) := by
  unfold tablesReader dpTablesLoad
  dsimp only
  by_cases short : len < fpHdrSizeW
  · rw [if_pos short, if_pos short]
    rfl
  rw [if_neg short, if_neg short, value_bind, value_bytes, value_ite]
  by_cases magic : m.bytes p 4 ≠ fpMagicPolicy
  · rw [if_pos magic, if_pos magic]
    rfl
  rw [if_neg magic, if_neg magic, value_bind, value_bind, value_bind, value_bind, value_ldLe16, value_ldLe16,
    value_ldLe32, value_ldLe32]
  unfold declaredRows
  by_cases type : m.ldLe16 (p + 6) ≠ fpTPolicyW
  · rw [if_pos type, if_pos type]
    rfl
  rw [if_neg type, if_neg type]
  by_cases recsz : (m.ldLe32 (p + 24)).toNat ≠ fpPolicySizeW
  · rw [if_pos recsz, if_pos recsz]
    rfl
  rw [if_neg recsz, if_neg recsz]
  by_cases room : len < (m.ldLe32 (p + 8)).toNat * fpPolicySizeW + fpHdrSizeW
  · rw [if_pos room, if_pos room]
    rfl
  rw [if_neg room, if_neg room]
  by_cases many : dpMaxPolicy < (m.ldLe32 (p + 8)).toNat
  · rw [if_pos many, dif_pos many]
    rfl
  · rw [if_neg many, dif_neg many, value_bind, rowsReader_value]
    rfl

section stays

variable (m : Mem)

theorem rowReader_stays {row lo hi : Nat} (low : lo ≤ row) (high : row + fpPolicySizeW ≤ hi) :
    (rowReader row).Stays m fun a => lo ≤ a ∧ a < hi := by
  unfold fpPolicySizeW at high
  simp only [rowReader, stays_bind, stays_ldBe32, stays_ldLe16, stays_load, stays_pure, and_true]
  omega

theorem rowsReader_stays {row n lo hi : Nat} (low : lo ≤ row) (high : row + n * fpPolicySizeW ≤ hi) :
    (rowsReader row n).Stays m fun a => lo ≤ a ∧ a < hi := by
  induction n generalizing row with
  | zero => exact stays_pure _ _ _
  | succ n ih =>
    rw [Nat.succ_mul] at high
    rw [rowsReader, stays_bind, stays_bind]
    exact ⟨rowReader_stays m low (by omega), ih (by omega) (by omega), stays_pure _ _ _⟩

theorem declaredRows_stays {p len : Nat} (ver type : UInt16) (count recsz : UInt32) :
    (declaredRows p len ver type count recsz).Stays m fun a => p ≤ a ∧ a < p + len := by
  unfold declaredRows
  rw [stays_ite]
  refine ⟨fun _ => stays_pure _ _ _, fun _ => ?_⟩
  rw [stays_ite]
  refine ⟨fun _ => stays_pure _ _ _, fun _ => ?_⟩
  rw [stays_ite]
  refine ⟨fun _ => stays_pure _ _ _, fun room => ?_⟩
  rw [stays_ite]
  refine ⟨fun _ => stays_pure _ _ _, fun _ => ?_⟩
  rw [stays_bind]
  exact ⟨rowsReader_stays m (by omega) (by omega), stays_pure _ _ _⟩

theorem tablesReader_stays (p len : Nat) : (tablesReader p len).Stays m fun a => p ≤ a ∧ a < p + len := by
  unfold tablesReader
  rw [stays_ite]
  refine ⟨fun _ => stays_pure _ _ _, fun header => ?_⟩
  have hdr := Nat.not_lt.mp header
  unfold fpHdrSizeW at hdr
  rw [stays_bind, stays_bytes, stays_ite]
  refine ⟨fun i byte => by omega, fun _ => stays_pure _ _ _, fun _ => ?_⟩
  simp only [stays_bind, stays_ldLe16, stays_ldLe32]
  exact ⟨by omega, by omega, by omega, by omega, declaredRows_stays m _ _ _ _⟩

end stays

/-- What `dp_activate_bank` reads: nothing, or the tables of the bank. -/
def bankReader (c : DpCtx) (bank : UInt32) : Access (Except Rc (UInt16 × List PolicyRow × Rc)) :=
  if 1 < bank then return .error .errBank
  else if c.regionSize < bankOff bank + fpHdrSizeW then return .error .errShort
  else .ok <$> tablesReader (bankOff bank) (bankAvail c bank)

/-- The return code, and the tables of the context afterwards, are those that were
read. -/
def ActivatesFrom (c : DpCtx) (bank : UInt32) : Except Rc (UInt16 × List PolicyRow × Rc) → Prop
  | .error rc => dpActivateBank c bank = (c, rc)
  | .ok (version, rows, rc) => (dpActivateBank c bank).1.tables.version = version ∧
      (dpActivateBank c bank).1.tables.policy = rows ∧ (dpActivateBank c bank).2 = rc

theorem activate_reads {c : DpCtx} {m : Mem} (attached : c.region = some m) (bank : UInt32) :
    ActivatesFrom c bank ((bankReader c bank).value m) := by
  unfold bankReader
  by_cases number : 1 < bank
  · rw [if_pos number, value_pure]
    show dpActivateBank c bank = (c, .errBank)
    unfold dpActivateBank
    rw [attached]
    dsimp only
    rw [if_pos number]
  rw [if_neg number]
  by_cases short : c.regionSize < bankOff bank + fpHdrSizeW
  · rw [if_pos short, value_pure]
    show dpActivateBank c bank = (c, .errShort)
    unfold dpActivateBank
    rw [attached]
    dsimp only
    rw [if_neg number, if_pos short]
  rw [if_neg short, value_map, tablesReader_value]
  unfold ActivatesFrom dpActivateBank
  rw [attached]
  dsimp only
  rw [if_neg number, if_neg short]
  split
  · exact ⟨rfl, rfl, rfl⟩
  · rename_i ok
    exact ⟨rfl, rfl, (not_not.mp ok).symm⟩

def InBank (c : DpCtx) (bank : UInt32) (a : Nat) : Prop :=
  bankOff bank ≤ a ∧ a < bankOff bank + bankSize ∧ a < c.regionSize

theorem bankReader_stays (c : DpCtx) (bank : UInt32) (m : Mem) : (bankReader c bank).Stays m (InBank c bank) := by
  unfold bankReader
  rw [stays_ite]
  refine ⟨fun _ => stays_pure _ _ _, fun _ => ?_⟩
  rw [stays_ite]
  refine ⟨fun _ => stays_pure _ _ _, fun header => ?_⟩
  rw [stays_map]
  refine (tablesReader_stays m _ _).imp fun a inside => ?_
  unfold bankAvail at inside
  unfold InBank
  omega

/-- Every policy that either program packs is loaded row by row, and loading a bank
looks at nothing else than the bank. -/
theorem policy_decode_inverts :
    (∀ rules, rules.length ≤ dpMaxPolicy → ∃ blob, mkpolicy rules = some blob ∧ LoadsAs blob (nativeRows rules 1)) ∧
    (∀ now crc32 vsys dicts, dicts.length ≤ dpMaxPolicy →
      ∃ blob, packPolicy now crc32 vsys dicts = some blob ∧ LoadsAs blob (dicts.map (PolicyDict.native vsys))) ∧
    (∀ now crc32 vsys rows, rows.length ≤ dpMaxPolicy →
      ∃ blob, packPolicy now crc32 vsys (rows.map PolicyRow.dict) = some blob ∧ LoadsAs blob rows) ∧
    (∀ c bank m, c.region = some m →
      (bankReader c bank).Stays m (InBank c bank) ∧ ActivatesFrom c bank ((bankReader c bank).value m)) := by
  have packed (now : UInt64) (crc32 : List UInt8 → UInt32) (vsys : Int) (dicts : List PolicyDict)
      (few : dicts.length ≤ dpMaxPolicy) :
      ∃ blob, packPolicy now crc32 vsys dicts = some blob ∧ LoadsAs blob (dicts.map (PolicyDict.native vsys)) := by
    have small : dicts.length < 2 ^ 32 := by
      unfold dpMaxPolicy at few
      omega
    obtain ⟨crc, made⟩ := packPolicy_image now crc32 vsys small
    exact ⟨_, made, image_loads now crc (by rw [List.length_map]; exact few)⟩
  refine ⟨fun rules few => ?_, packed, fun now crc32 vsys rows few => ?_, fun c bank m attached => ?_⟩
  · have small : rules.length < 65536 := by
      unfold dpMaxPolicy at few
      omega
    exact ⟨_, mkpolicy_image small, image_loads 0 0 (by rw [nativeRows_length]; exact few)⟩
  · obtain ⟨blob, made, loads⟩ := packed now crc32 vsys (rows.map PolicyRow.dict) (by rw [List.length_map]; exact few)
    refine ⟨blob, made, ?_⟩
    have same : (rows.map PolicyRow.dict).map (PolicyDict.native vsys) = rows := by
      rw [List.map_map]
      exact (List.map_congr_left fun r _ => dict_native vsys r).trans (List.map_id rows)
    rw [same] at loads
    exact loads
  · exact ⟨bankReader_stays c bank m, activate_reads attached bank⟩

def httpsRule : Rule := ⟨0, ipprotoTcp, .net 0x0A000000 8, .any, 443⟩

theorem httpsRule_loads :
    [httpsRule].length ≤ dpMaxPolicy ∧ ∃ blob, mkpolicy [httpsRule] = some blob ∧
      LoadsAs blob [⟨0x0A000000, 0xFF000000, 0, 0, 0, 65535, 443, 443, 6, 1, 0, 0, 0xFFFF, 1⟩] := by
  have few : [httpsRule].length ≤ dpMaxPolicy := by decide
  have native : nativeRows [httpsRule] 1 = [⟨0x0A000000, 0xFF000000, 0, 0, 0, 65535, 443, 443, 6, 1, 0, 0, 0xFFFF, 1⟩] := by
    decide
  obtain ⟨blob, made, loads⟩ := policy_decode_inverts.1 [httpsRule] few
  rw [native] at loads
  exact ⟨few, blob, made, loads⟩

end FfnNgfw.Portable
