import FfnNgfw.Dpmem.Bank
import FfnNgfw.Portable.Tables

/-!
# Refreshing the table view

`dpmem_refresh` (`ffn_fastpath_fwd.c`) scans the active bank for tables by their
magic, fills the table buffer that no worker reads and flips the generation. The
flip is unconditional: a bank without rules replaces the live tables.
-/

namespace FfnNgfw.Fastpath
open Mem Dpmem Portable

/-! ### `bank_find` -/

structure FpHdr where
  magic : List UInt8
  version : UInt16
  tableType : UInt16
  entryCount : UInt32
  recordSize : UInt32

def fpHdrSize : Nat := 36

def fpHdrAt (m : Mem) (p : Nat) : FpHdr where
  magic := m.bytes p 4
  version := ldLe16 m (p + 4)
  tableType := ldLe16 m (p + 6)
  entryCount := ldLe32 m (p + 8)
  recordSize := ldLe32 m (p + 24)

def fpTStrings : UInt16 := 0x43

def fpMagicPatmeta : List UInt8 := [0x46, 0x50, 0x50, 0x4D]
def fpMagicAvhash : List UInt8 := [0x46, 0x50, 0x50, 0x48]
def fpMagicStrings : List UInt8 := [0x46, 0x50, 0x50, 0x53]
def fpMagicHsblock : List UInt8 := [0x46, 0x50, 0x48, 0x42]

def FpHdr.printable (h : FpHdr) : Bool := decide (0x41 ≤ h.magic.headD 0) && decide (h.magic.headD 0 ≤ 0x5A)

def FpHdr.payload (h : FpHdr) : Nat :=
  if h.tableType = fpTStrings then h.entryCount.toNat else h.entryCount.toNat * h.recordSize.toNat

/-- The header at `off` with the offset of the next one, unless the scan stops there.
Offsets are 64-bit words. -/
def bankNext (m : Mem) (base size off : Nat) : Option (FpHdr × Nat) :=
  if (off + fpHdrSize) % 2 ^ 64 ≤ size then
    let h := fpHdrAt m (base + off)
    if !h.printable || h.version ≠ 1 then none
    else if size < (off + fpHdrSize + h.payload) % 2 ^ 64 then none
    else some (h, (off + fpHdrSize + h.payload) % 2 ^ 64)
  else none

structure Found where
  ptr : Nat
  count : UInt32
  recordSize : UInt32
  tableType : UInt16
  deriving DecidableEq

/-- The loop, with fuel. Offsets are below `size`, so a loop that takes more than `size`
rounds takes one of them twice and never ends: this is the outer `none`. -/
def bankFindFrom (m : Mem) (base size : Nat) (magic : List UInt8) : Nat → Nat → Option (Option Found)
  | 0, _ => none
  | fuel + 1, off =>
    match bankNext m base size off with
    | none => some none
    | some (h, next) =>
      if h.magic = magic then some (some ⟨base + off + fpHdrSize, h.entryCount, h.recordSize, h.tableType⟩)
      else bankFindFrom m base size magic fuel next

def bankFind (m : Mem) (base size : Nat) (magic : List UInt8) : Option (Option Found) :=
  bankFindFrom m base size magic (size + 1) 0

/-! ### `dpmem_refresh` -/

structure FpTables where
  policy : Nat
  policyN : UInt32
  patmeta : Nat
  patmetaN : UInt32
  avhash : Nat
  avhashSlots : UInt32
  strings : Nat
  stringsN : UInt32
  deriving DecidableEq

def foundPtr (f : Option Found) : Nat := f.elim 0 Found.ptr

def foundCount (f : Option Found) : UInt32 := f.elim 0 Found.count

def fpTablesOf (policy patmeta avhash strings : Option Found) : FpTables :=
  ⟨foundPtr policy, foundCount policy, foundPtr patmeta, foundCount patmeta, foundPtr avhash, foundCount avhash,
    foundPtr strings, foundCount strings⟩

/-- The state of the data-plane process: `g_dpmem_mz`, `g_tab_buf`, `g_tab_gen`,
`g_dpmem_last_bank`, `g_block_db`. -/
structure Dataplane (Db : Type) where
  attached : Bool
  tabBuf : Bool → FpTables
  tabGen : UInt32
  lastBank : UInt32
  blockDb : Option Db

variable {Db : Type}

def Dataplane.activeTables (s : Dataplane Db) : FpTables := s.tabBuf (bankIx s.tabGen)

def activeFind (d : Hdr) (magic : List UInt8) : Option (Option Found) := bankFind d.mem (d.arena d.active) d.bankSize magic

def bankTables (d : Hdr) : Option FpTables := do
  let policy ← activeFind d fpMagicPolicy
  let patmeta ← activeFind d fpMagicPatmeta
  let avhash ← activeFind d fpMagicAvhash
  let strings ← activeFind d fpMagicStrings
  return fpTablesOf policy patmeta avhash strings

/-- The block database after a refresh; `hs` is the deserializer of a build with
Hyperscan. -/
def refreshBlockDb (hs : Option (List UInt8 → Option Db)) (d : Hdr) (old : Option Db) : Option (Option Db) :=
  match hs with
  | none => some old
  | some deserialize => do
    let hb ← activeFind d fpMagicHsblock
    let db := hb.bind fun f => deserialize (d.mem.bytes f.ptr (f.count.toNat * f.recordSize.toNat))
    return db.or old

/-- `dpmem_refresh`, `none` when one of its scans never ends. -/
def dpmemRefresh (hs : Option (List UInt8 → Option Db)) (d : Hdr) (s : Dataplane Db) : Option (Dataplane Db) :=
  if !s.attached then some s
  else if d.activeBank = s.lastBank ∨ 1 < d.activeBank then some s
  else do
    let nt ← bankTables d
    let blockDb ← refreshBlockDb hs d s.blockDb
    return { s with
      tabBuf := Function.update s.tabBuf (bankIx (s.tabGen ^^^ 1)) nt
      blockDb := blockDb
      tabGen := s.tabGen ^^^ 1
      lastBank := d.activeBank }

section scans

variable {m : Mem} {base size fuel off : Nat} {magic : List UInt8}

theorem bankNext_some {next : Nat} {h : FpHdr} (found : bankNext m base size off = some (h, next)) :
    (off + fpHdrSize) % 2 ^ 64 ≤ size ∧ h = fpHdrAt m (base + off) ∧
      next = (off + fpHdrSize + h.payload) % 2 ^ 64 ∧ next ≤ size := by
  unfold bankNext at found
  dsimp only at found
  split at found
  · rename_i header
    split at found
    · cases found
    · split at found
      · cases found
      · rename_i fits
        cases found
        exact ⟨header, rfl, rfl, Nat.not_lt.mp fits⟩
  · cases found

theorem bankFindFrom_ends (absent : bankFindFrom m base size magic fuel off = some none) (magic' : List UInt8) :
    ∃ r, bankFindFrom m base size magic' fuel off = some r := by
  induction fuel generalizing off with
  | zero => cases absent
  | succ fuel ih =>
    unfold bankFindFrom at absent ⊢
    cases next : bankNext m base size off with
    | none => exact ⟨none, rfl⟩
    | some out =>
      obtain ⟨h, off'⟩ := out
      rw [next] at absent
      dsimp only at absent ⊢
      split at absent
      · cases absent
      · split
        · exact ⟨_, rfl⟩
        · exact ih absent

end scans

variable {d : Hdr}

theorem activeFind_ends {magic : List UInt8} (absent : activeFind d magic = some none) (magic' : List UInt8) :
    ∃ r, activeFind d magic' = some r := bankFindFrom_ends absent magic'

theorem bankTables_bare (noPolicy : activeFind d fpMagicPolicy = some none)
    (noPatmeta : activeFind d fpMagicPatmeta = some none) :
    ∃ avhash strings, activeFind d fpMagicAvhash = some avhash ∧ activeFind d fpMagicStrings = some strings ∧
      bankTables d = some (fpTablesOf none none avhash strings) := by
  obtain ⟨avhash, foundAvhash⟩ := activeFind_ends noPolicy fpMagicAvhash
  obtain ⟨strings, foundStrings⟩ := activeFind_ends noPolicy fpMagicStrings
  refine ⟨avhash, strings, foundAvhash, foundStrings, ?_⟩
  rw [bankTables, noPolicy, noPatmeta, foundAvhash, foundStrings]
  rfl

theorem refreshBlockDb_ends {magic : List UInt8} (absent : activeFind d magic = some none)
    (hs : Option (List UInt8 → Option Db)) (old : Option Db) : ∃ db, refreshBlockDb hs d old = some db := by
  cases hs with
  | none => exact ⟨old, rfl⟩
  | some deserialize =>
    obtain ⟨hb, found⟩ := activeFind_ends absent fpMagicHsblock
    rw [refreshBlockDb, found]
    exact ⟨_, rfl⟩

def RefreshDue (d : Hdr) (s : Dataplane Db) : Prop :=
  s.attached = true ∧ d.activeBank ≠ s.lastBank ∧ d.activeBank ≤ 1

theorem dpmemRefresh_idle {hs : Option (List UInt8 → Option Db)} {s : Dataplane Db} (idle : ¬RefreshDue d s) :
    dpmemRefresh hs d s = some s := by
  unfold dpmemRefresh
  split
  · rfl
  · rename_i attached
    rw [if_pos]
    rw [Bool.not_eq_true, Bool.not_eq_false'] at attached
    by_contra skip
    rw [not_or] at skip
    exact idle ⟨attached, skip.1, UInt32.not_lt.mp skip.2⟩

theorem dpmemRefresh_due {hs : Option (List UInt8 → Option Db)} {s s' : Dataplane Db} (due : RefreshDue d s)
    (done : dpmemRefresh hs d s = some s') :
    bankTables d = some s'.activeTables ∧ s'.lastBank = d.activeBank ∧ s'.attached = true := by
  obtain ⟨attached, new, valid⟩ := due
  have skip : ¬(d.activeBank = s.lastBank ∨ 1 < d.activeBank) := not_or.mpr ⟨new, UInt32.not_lt.mpr valid⟩
  rw [dpmemRefresh, attached, Bool.not_true, if_neg Bool.false_ne_true, if_neg skip] at done
  obtain ⟨nt, scanned, done⟩ := Option.bind_eq_some_iff.mp done
  obtain ⟨db, _, done⟩ := Option.bind_eq_some_iff.mp done
  cases done
  refine ⟨?_, rfl, rfl⟩
  unfold Dataplane.activeTables
  dsimp only
  rw [Function.update_self, scanned]

theorem dpmemRefresh_ends (hs : Option (List UInt8 → Option Db)) (s : Dataplane Db)
    (noPolicy : activeFind d fpMagicPolicy = some none) (noPatmeta : activeFind d fpMagicPatmeta = some none) :
    ∃ s', dpmemRefresh hs d s = some s' := by
  obtain ⟨avhash, strings, _, _, scanned⟩ := bankTables_bare noPolicy noPatmeta
  obtain ⟨db, swapped⟩ := refreshBlockDb_ends noPolicy hs s.blockDb
  unfold dpmemRefresh
  rw [scanned, swapped]
  split
  · exact ⟨_, rfl⟩
  · split
    · exact ⟨_, rfl⟩
    · exact ⟨_, rfl⟩

def NoRules (d : Hdr) : Prop := activeFind d fpMagicPolicy = some none ∧ activeFind d fpMagicPatmeta = some none

def KeepsCurrent (hs : Option (List UInt8 → Option Db)) (d : Hdr) (s : Dataplane Db) : Prop :=
  NoRules d → ∃ s', dpmemRefresh hs d s = some s' ∧ s'.activeTables = s.activeTables

/-- The live view has no rules either, and its other tables are those of the bank. -/
def LiveIsBare (d : Hdr) (s : Dataplane Db) : Prop :=
  ∃ avhash strings, activeFind d fpMagicAvhash = some avhash ∧ activeFind d fpMagicStrings = some strings ∧
    s.activeTables = fpTablesOf none none avhash strings

/-- A refresh keeps the live tables for want of rules exactly when it does nothing
anyway: it is not due, the bank has rules, or the live tables have none. -/
theorem refresh_keeps_current_iff (hs : Option (List UInt8 → Option Db)) (d : Hdr) (s : Dataplane Db) :
    KeepsCurrent hs d s ↔ ¬RefreshDue d s ∨ ¬NoRules d ∨ LiveIsBare d s := by
  by_cases due : RefreshDue d s
  · by_cases noRules : NoRules d
    · obtain ⟨avhash, strings, foundAvhash, foundStrings, scanned⟩ := bankTables_bare noRules.1 noRules.2
      constructor
      · intro keeps
        obtain ⟨s', done, same⟩ := keeps noRules
        obtain ⟨view, _⟩ := dpmemRefresh_due due done
        rw [scanned, Option.some.injEq] at view
        exact Or.inr (Or.inr ⟨avhash, strings, foundAvhash, foundStrings, by rw [← same, view]⟩)
      · rintro (idle | rules | ⟨avhash', strings', foundAvhash', foundStrings', live⟩) _
        · exact absurd due idle
        · exact absurd noRules rules
        · obtain ⟨s', done⟩ := dpmemRefresh_ends hs s noRules.1 noRules.2
          obtain ⟨view, _⟩ := dpmemRefresh_due due done
          rw [foundAvhash, Option.some.injEq] at foundAvhash'
          rw [foundStrings, Option.some.injEq] at foundStrings'
          rw [scanned, Option.some.injEq] at view
          exact ⟨s', done, by rw [live, ← view, foundAvhash', foundStrings']⟩
    · exact ⟨fun _ => Or.inr (Or.inl noRules), fun _ none => absurd none noRules⟩
  · exact ⟨fun _ => Or.inl due, fun _ _ => ⟨s, dpmemRefresh_idle due, rfl⟩⟩

def filePolicy : FpTables := ⟨0x10000, 1, 0, 0, 0, 0, 0, 0⟩

def booted (t : FpTables) : Dataplane Unit := ⟨true, fun _ => t, 0, 0xFFFFFFFF, none⟩

def emptyRegion : Hdr := dpmemReserve 4096 64 fun _ => 0

/-- The first refresh on an empty bank turns the policy off. -/
theorem filePolicy_not_kept : ¬KeepsCurrent none emptyRegion (booted filePolicy) := by
  intro keeps
  have noRules : NoRules emptyRegion := ⟨by decide, by decide⟩
  obtain ⟨s', done, same⟩ := keeps noRules
  have due : RefreshDue emptyRegion (booted filePolicy) := ⟨rfl, by decide, by decide⟩
  obtain ⟨view, _⟩ := dpmemRefresh_due due done
  have empty : bankTables emptyRegion = some (fpTablesOf none none none none) := by decide
  rw [empty, same, Option.some.injEq] at view
  revert view
  decide

end FfnNgfw.Fastpath
