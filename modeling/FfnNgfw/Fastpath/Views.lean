import FfnNgfw.Fastpath.Refresh
import FfnNgfw.Lib.Orbit
import Mathlib.Logic.Relation

/-!
# Table views and the bank they point into

`bank_find` steps over a table by the size its header declares. The readers of the
rows use a fixed width instead: 32 bytes for a rule, 30 for a pattern. Nothing
compares the two, so that the number of rows may be more than the bank holds. Where
the declared size wraps around, the scan steps back.
-/

namespace FfnNgfw.Fastpath
open Mem Dpmem Portable

/-! ### Where a scan goes -/

section scan

variable (m : Mem) (base size : Nat)

def bankStep (off : Nat) : Option Nat := (bankNext m base size off).map Prod.snd

/-- The scan for `magic` passes over the table at `off`. -/
def Passes (magic : List UInt8) (off next : Nat) : Prop :=
  ∃ h, bankNext m base size off = some (h, next) ∧ h.magic ≠ magic

/-- The first table of this magic declares no more rows than fit behind its header. -/
def FirstFits (magic : List UInt8) (width : Nat) : Prop :=
  ∀ off h next, Relation.ReflTransGen (Passes m base size magic) 0 off → bankNext m base size off = some (h, next) →
    h.magic = magic → off + fpHdrSize + h.entryCount.toNat * width ≤ size

variable {m base size} {magic : List UInt8} {fuel off : Nat}

theorem bankStep_some {next : Nat} (h : bankStep m base size off = some next) :
    ∃ hdr, bankNext m base size off = some (hdr, next) := by
  obtain ⟨⟨hdr, o⟩, found, same⟩ := Option.map_eq_some_iff.mp h
  cases same
  exact ⟨hdr, found⟩

theorem scan_bounded (k o : Nat) (here : orbit (bankStep m base size) 0 k = some o) : o ≤ size := by
  cases k with
  | zero =>
    cases here
    exact Nat.zero_le size
  | succ k =>
    obtain ⟨off, _, step⟩ := Option.bind_eq_some_iff.mp here
    obtain ⟨hdr, found⟩ := bankStep_some step
    exact (bankNext_some found).2.2.2

theorem bankFindFrom_running (running : bankFindFrom m base size magic fuel off = none) :
    ∃ o, orbit (bankStep m base size) off fuel = some o := by
  induction fuel generalizing off with
  | zero => exact ⟨off, rfl⟩
  | succ fuel ih =>
    unfold bankFindFrom at running
    rw [orbit_succ_head, bankStep]
    cases found : bankNext m base size off with
    | none =>
      rw [found] at running
      cases running
    | some out =>
      obtain ⟨h, next⟩ := out
      rw [found] at running
      dsimp only at running
      split at running
      · cases running
      · exact ih running

theorem bankNext_magic {next : Nat} {h : FpHdr} (found : bankNext m base size off = some (h, next)) :
    h.magic ≠ [0, 0, 0, 0] := by
  unfold bankNext at found
  dsimp only at found
  split at found
  · split at found
    · cases found
    · rename_i valid
      split at found
      · cases found
      · cases found
        intro zero
        refine valid (Bool.or_eq_true_iff.mpr (Or.inl ?_))
        rw [FpHdr.printable, zero]
        decide
  · cases found

theorem bankFindFrom_silent {o : Nat} (there : orbit (bankStep m base size) off fuel = some o) :
    bankFindFrom m base size [0, 0, 0, 0] fuel off = none := by
  induction fuel generalizing off with
  | zero => rfl
  | succ fuel ih =>
    rw [orbit_succ_head, bankStep] at there
    unfold bankFindFrom
    cases found : bankNext m base size off with
    | none =>
      rw [found] at there
      cases there
    | some out =>
      obtain ⟨h, next⟩ := out
      rw [found] at there
      dsimp only
      rw [if_neg (bankNext_magic found)]
      exact ih there

theorem scans_end_iff :
    (∀ magic, magic.length = 4 → ∃ r, bankFind m base size magic = some r) ↔ NeverBack (bankStep m base size) 0 := by
  rw [← orbit_ends_iff scan_bounded]
  constructor
  · intro ends
    obtain ⟨r, ended⟩ := ends [0, 0, 0, 0] rfl
    by_contra running
    obtain ⟨o, there⟩ := Option.ne_none_iff_exists'.mp running
    have silent : bankFind m base size [0, 0, 0, 0] = none := bankFindFrom_silent there
    rw [ended] at silent
    cases silent
  · intro ended magic _
    refine Option.ne_none_iff_exists'.mp fun running => ?_
    obtain ⟨o, there⟩ := bankFindFrom_running running
    rw [ended] at there
    cases there

theorem payload_le (h : FpHdr) : h.payload ≤ 2 ^ 64 - 2 ^ 33 + 1 := by
  have count := h.entryCount.toNat_lt
  have record := h.recordSize.toNat_lt
  unfold FpHdr.payload
  split
  · omega
  · calc h.entryCount.toNat * h.recordSize.toNat ≤ (2 ^ 32 - 1) * (2 ^ 32 - 1) :=
        Nat.mul_le_mul (by omega) (by omega)
      _ = 2 ^ 64 - 2 ^ 33 + 1 := by decide

theorem neverBack_small (small : size < 2 ^ 33 - 1) : NeverBack (bankStep m base size) 0 := by
  refine neverBack_of_forward fun k off next here step => ?_
  obtain ⟨h, found⟩ := bankStep_some step
  obtain ⟨header, _, after, _⟩ := bankNext_some found
  have inside := scan_bounded k off here
  have payload := payload_le h
  unfold fpHdrSize at header after
  omega

theorem bankFindFrom_found {f : Found} (found : bankFindFrom m base size magic fuel off = some (some f)) :
    ∃ off' h next, Relation.ReflTransGen (Passes m base size magic) off off' ∧
      bankNext m base size off' = some (h, next) ∧ h.magic = magic ∧
        f = ⟨base + off' + fpHdrSize, h.entryCount, h.recordSize, h.tableType⟩ := by
  induction fuel generalizing off with
  | zero => cases found
  | succ fuel ih =>
    unfold bankFindFrom at found
    cases step : bankNext m base size off with
    | none =>
      rw [step] at found
      cases found
    | some out =>
      obtain ⟨h, next⟩ := out
      rw [step] at found
      dsimp only at found
      split at found
      · rename_i here
        cases found
        exact ⟨off, h, next, .refl, step, here, rfl⟩
      · rename_i other
        obtain ⟨off', h', next', passed, there, same, rfl⟩ := ih found
        exact ⟨off', h', next', .head ⟨h, step, other⟩ passed, there, same, rfl⟩

theorem bankFindFrom_stops {off' next : Nat} {h : FpHdr} {r : Option Found}
    (passed : Relation.ReflTransGen (Passes m base size magic) off off')
    (there : bankNext m base size off' = some (h, next)) (same : h.magic = magic)
    (ended : bankFindFrom m base size magic fuel off = some r) :
    r = some ⟨base + off' + fpHdrSize, h.entryCount, h.recordSize, h.tableType⟩ := by
  induction passed using Relation.ReflTransGen.head_induction_on generalizing fuel with
  | refl =>
    cases fuel with
    | zero => cases ended
    | succ fuel =>
      rw [bankFindFrom, there] at ended
      dsimp only at ended
      rw [if_pos same] at ended
      cases ended
      rfl
  | head first _ ih =>
    obtain ⟨h', step, other⟩ := first
    cases fuel with
    | zero => cases ended
    | succ fuel =>
      rw [bankFindFrom, step] at ended
      dsimp only at ended
      rw [if_neg other] at ended
      exact ih ended

end scan

/-- The rows that a reader with this row width takes from a table lie in the bank. -/
def RowsInside (base size ptr n width : Nat) : Prop :=
  ∀ i < n, base ≤ ptr + i * width ∧ ptr + (i + 1) * width ≤ base + size

theorem rowsInside_iff {base size off n width : Nat} (header : off + fpHdrSize ≤ size) :
    RowsInside base size (base + off + fpHdrSize) n width ↔ off + fpHdrSize + n * width ≤ size := by
  constructor
  · intro inside
    cases n with
    | zero =>
      rw [Nat.zero_mul]
      exact header
    | succ k =>
      have last := (inside k (Nat.lt_succ_self k)).2
      omega
  · intro fits i lt
    have rows : (i + 1) * width ≤ n * width := Nat.mul_le_mul_right width lt
    exact ⟨by omega, by omega⟩

theorem passed_header {m : Mem} {base size off next : Nat} {magic : List UInt8} {h : FpHdr} (small : size < 2 ^ 63)
    (passed : Relation.ReflTransGen (Passes m base size magic) 0 off)
    (found : bankNext m base size off = some (h, next)) : off + fpHdrSize ≤ size := by
  have inside : off ≤ size := by
    cases passed with
    | refl => exact Nat.zero_le size
    | tail _ last =>
      obtain ⟨h', step, _⟩ := last
      exact (bankNext_some step).2.2.2
  have bound := (bankNext_some found).1
  unfold fpHdrSize at bound ⊢
  omega

theorem found_inside_iff {m : Mem} {base size width : Nat} {magic : List UInt8} {r : Option Found} (small : size < 2 ^ 63)
    (ended : bankFind m base size magic = some r) :
    RowsInside base size (foundPtr r) (foundCount r).toNat width ↔ FirstFits m base size magic width := by
  constructor
  · intro inside off h next passed there same
    rw [bankFindFrom_stops passed there same ended] at inside
    exact (rowsInside_iff (passed_header small passed there)).mp inside
  · intro fits
    cases r with
    | none =>
      intro i lt
      cases lt
    | some f =>
      obtain ⟨off, h, next, passed, there, same, rfl⟩ := bankFindFrom_found ended
      exact (rowsInside_iff (passed_header small passed there)).mpr (fits off h next passed there same)

/-! ### The view after a refresh -/

def sizeofPolicyEnt : Nat := 32
def sizeofPatmetaEnt : Nat := 30

/-- Every scan of the active bank ends, and the rows of the view that is live after the
refresh lie in that bank. -/
structure ViewsInside {Db : Type} (hs : Option (List UInt8 → Option Db)) (d : Hdr) (s : Dataplane Db) : Prop where
  ends : ∀ magic, magic.length = 4 → ∃ r, activeFind d magic = some r
  view : ∃ s', dpmemRefresh hs d s = some s' ∧
    RowsInside (d.arena d.active) d.bankSize s'.activeTables.policy s'.activeTables.policyN.toNat sizeofPolicyEnt ∧
    RowsInside (d.arena d.active) d.bankSize s'.activeTables.patmeta s'.activeTables.patmetaN.toNat sizeofPatmetaEnt

structure HeadersFit (d : Hdr) : Prop where
  forward : NeverBack (bankStep d.mem (d.arena d.active) d.bankSize) 0
  policy : FirstFits d.mem (d.arena d.active) d.bankSize fpMagicPolicy sizeofPolicyEnt
  patmeta : FirstFits d.mem (d.arena d.active) d.bankSize fpMagicPatmeta sizeofPatmetaEnt

section refresh

variable {Db : Type} (hs : Option (List UInt8 → Option Db)) {d : Hdr}

theorem refresh_returns (ends : ∀ magic, magic.length = 4 → ∃ r, activeFind d magic = some r) (s : Dataplane Db) :
    ∃ s', dpmemRefresh hs d s = some s' := by
  obtain ⟨policy, foundPolicy⟩ := ends fpMagicPolicy rfl
  obtain ⟨patmeta, foundPatmeta⟩ := ends fpMagicPatmeta rfl
  obtain ⟨avhash, foundAvhash⟩ := ends fpMagicAvhash rfl
  obtain ⟨strings, foundStrings⟩ := ends fpMagicStrings rfl
  obtain ⟨hsblock, foundHsblock⟩ := ends fpMagicHsblock rfl
  have tables : bankTables d = some (fpTablesOf policy patmeta avhash strings) := by
    rw [bankTables, foundPolicy, foundPatmeta, foundAvhash, foundStrings]
    rfl
  have block : ∃ db, refreshBlockDb hs d s.blockDb = some db := by
    cases hs with
    | none => exact ⟨_, rfl⟩
    | some deserialize =>
      rw [refreshBlockDb, foundHsblock]
      exact ⟨_, rfl⟩
  obtain ⟨db, swapped⟩ := block
  unfold dpmemRefresh
  rw [tables, swapped]
  split
  · exact ⟨_, rfl⟩
  · split
    · exact ⟨_, rfl⟩
    · exact ⟨_, rfl⟩

theorem bankTables_found {t : FpTables} (scanned : bankTables d = some t) :
    ∃ policy patmeta, activeFind d fpMagicPolicy = some policy ∧ activeFind d fpMagicPatmeta = some patmeta ∧
      t.policy = foundPtr policy ∧ t.policyN = foundCount policy ∧
        t.patmeta = foundPtr patmeta ∧ t.patmetaN = foundCount patmeta := by
  obtain ⟨policy, foundPolicy, scanned⟩ := Option.bind_eq_some_iff.mp scanned
  obtain ⟨patmeta, foundPatmeta, scanned⟩ := Option.bind_eq_some_iff.mp scanned
  obtain ⟨avhash, _, scanned⟩ := Option.bind_eq_some_iff.mp scanned
  obtain ⟨strings, _, scanned⟩ := Option.bind_eq_some_iff.mp scanned
  cases scanned
  exact ⟨policy, patmeta, foundPolicy, foundPatmeta, rfl, rfl, rfl, rfl⟩

end refresh

/-- The views of a refreshed data plane lie in the bank exactly when its headers do not
lead back and declare no more rows than there is room for. -/
theorem views_inside_iff {Db : Type} (hs : Option (List UInt8 → Option Db)) (d : Region) (s : Dataplane Db)
    (due : RefreshDue d.val s) : ViewsInside hs d.val s ↔ HeadersFit d.val := by
  have small := d.property.bankSize_lt
  have live {s' : Dataplane Db} (done : dpmemRefresh hs d.val s = some s') :
      (RowsInside (d.val.arena d.val.active) d.val.bankSize s'.activeTables.policy s'.activeTables.policyN.toNat
          sizeofPolicyEnt ↔ FirstFits d.val.mem (d.val.arena d.val.active) d.val.bankSize fpMagicPolicy sizeofPolicyEnt) ∧
        (RowsInside (d.val.arena d.val.active) d.val.bankSize s'.activeTables.patmeta s'.activeTables.patmetaN.toNat
          sizeofPatmetaEnt ↔
            FirstFits d.val.mem (d.val.arena d.val.active) d.val.bankSize fpMagicPatmeta sizeofPatmetaEnt) := by
    obtain ⟨scanned, _⟩ := dpmemRefresh_due due done
    obtain ⟨policy, patmeta, foundPolicy, foundPatmeta, policyPtr, policyN, patmetaPtr, patmetaN⟩ :=
      bankTables_found scanned
    rw [policyPtr, policyN, patmetaPtr, patmetaN]
    exact ⟨found_inside_iff small foundPolicy, found_inside_iff small foundPatmeta⟩
  constructor
  · rintro ⟨ends, s', done, policy, patmeta⟩
    obtain ⟨policyFits, patmetaFits⟩ := live done
    exact ⟨scans_end_iff.mp ends, policyFits.mp policy, patmetaFits.mp patmeta⟩
  · rintro ⟨forward, policy, patmeta⟩
    have ends := scans_end_iff.mpr forward
    obtain ⟨s', done⟩ := refresh_returns hs ends s
    obtain ⟨policyFits, patmetaFits⟩ := live done
    exact ⟨ends, s', done, policyFits.mpr policy, patmetaFits.mpr patmeta⟩

def ruleRegion (bankSize : Nat) (mapped : 4096 + (Dpmem.hdrSize + bankSize) + bankSize ≤ 2 ^ 64) (count record : UInt32) :
    Region :=
  ⟨dpmemReserve 4096 bankSize (Mem.write (fun _ => 0) (4096 + Dpmem.hdrSize)
      (fpMagicPolicy ++ le16 1 ++ le16 0x40 ++ le32 count ++ le64 0 ++ le32 0 ++ le32 record ++ le32 count ++ le32 0)),
    reserve_wf _ (by decide) mapped⟩

/-- A bank of one MiB whose header declares 2^20 records of 0 bytes. -/
def emptyRecords : Region := ruleRegion 0x100000 (by decide) 0x100000 0

/-- The scan accepts the header, and `classify` reads rows behind the bank. -/
theorem emptyRecords_overrun :
    RefreshDue emptyRecords.val (booted filePolicy) ∧ ¬ViewsInside none emptyRecords.val (booted filePolicy) := by
  have due : RefreshDue emptyRecords.val (booted filePolicy) := ⟨rfl, by decide, by decide⟩
  refine ⟨due, fun inside => ?_⟩
  obtain ⟨s', done, policy, _⟩ := inside.view
  obtain ⟨scanned, _⟩ := dpmemRefresh_due due done
  have view : bankTables emptyRecords.val = some ⟨4096 + Dpmem.hdrSize + 36, 0x100000, 0, 0, 0, 0, 0, 0⟩ := by
    decide +kernel
  rw [view, Option.some.injEq] at scanned
  rw [← scanned] at policy
  have last := (policy 0x8000 (by decide)).2
  revert last
  decide +kernel

def oneRule : Region := ruleRegion 128 lines_mapped 1 32

theorem oneRule_views :
    RefreshDue oneRule.val (booted filePolicy) ∧ ViewsInside none oneRule.val (booted filePolicy) := by
  have due : RefreshDue oneRule.val (booted filePolicy) := ⟨rfl, by decide, by decide⟩
  have small : oneRule.val.bankSize < 2 ^ 63 := by decide
  have policy : activeFind oneRule.val fpMagicPolicy = some (some ⟨4096 + Dpmem.hdrSize + 36, 1, 32, 0x40⟩) := by
    decide +kernel
  have patmeta : activeFind oneRule.val fpMagicPatmeta = some none := by decide +kernel
  refine ⟨due, (views_inside_iff none oneRule (booted filePolicy) due).mpr ⟨neverBack_small (by decide), ?_, ?_⟩⟩
  · refine (found_inside_iff small policy).mp fun i lt => ?_
    have first : i = 0 := Nat.lt_one_iff.mp lt
    subst first
    decide +kernel
  · refine (found_inside_iff small patmeta).mp fun i lt => ?_
    cases lt

end FfnNgfw.Fastpath
