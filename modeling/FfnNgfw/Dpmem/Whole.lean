import FfnNgfw.Dpmem.Exhaustion
import FfnNgfw.Dpmem.ThreatIntel

/-!
# Rows that are stored whole

`ffn_dpmem_threatintel_load` sets a pointer of a row to whatever the allocator
returns and always reports success. A copy for which there is no room left is
published as a row with a NULL field.
-/

namespace FfnNgfw.Dpmem
open Mem Portable

section load

variable {ti : ThreatIntelUpdate} {b : Bank} (x : Arrays ti b) (wf : b.toArena.Wf)
include wf

theorem Arrays.placed (bound : b.base ≠ 0) : x.b₃.base ≠ 0 ∧ x.b₃.size = b.size ∧
    Arena.place b.size b.used [ti.adds.length * sizeofSig, ti.iocs.length * sizeofIoc, ti.removes.length * 4] =
      some x.b₃.used := by
  obtain ⟨adds, b₁, iocs, b₂, removes, b₃, addsAt, iocsAt, removesAt⟩ := x
  rw [← List.singleton_append, Arena.place_append]
  rcases allocRows_place wf bound (by decide) (adds_block ti) with ⟨used₁, p₁, fits₁, alloc₁⟩ | ⟨_, failed⟩
  · cases addsAt.symm.trans alloc₁
    have wf₁ := placed_wf wf fits₁
    rw [fits₁, Option.bind_some, ← List.singleton_append, Arena.place_append]
    rcases allocRows_place wf₁ bound (by decide) (iocs_block ti) with ⟨used₂, p₂, fits₂, alloc₂⟩ | ⟨_, failed⟩
    · cases iocsAt.symm.trans alloc₂
      have wf₂ := placed_wf wf₁ fits₂
      dsimp only at fits₂
      rw [fits₂, Option.bind_some]
      rcases allocRows_place wf₂ bound (by decide) (removes_block ti) with ⟨used₃, p₃, fits₃, alloc₃⟩ | ⟨_, failed⟩
      · cases removesAt.symm.trans alloc₃
        exact ⟨bound, rfl, fits₃⟩
      · cases removesAt.symm.trans failed
    · cases iocsAt.symm.trans failed
  · cases addsAt.symm.trans failed

omit wf in
theorem Arrays.jobs_block : ∀ job ∈ x.jobs, 0 < job.2.length ∧ job.2.length < Arena.maxBlock := by
  intro job member
  rcases List.mem_append.mp member with sig | ioc
  · exact rowFields_all (rowJobs_block sigCells_wf) job sig
  · exact rowFields_all (rowJobs_block iocCells_wf) job ioc

omit wf in
theorem Arrays.jobs_sizes : (x.jobs.map fun job => job.2.length) = ti.strings := by
  rw [Arrays.jobs, List.map_append, rowJobs_sizes, rowJobs_sizes]
  rfl

end load

def intelFrame (ti : ThreatIntelUpdate) : Frame := .message .mp2dp (some (.threatIntelUpdate ti))

/-- There is room above the cursor for the rows and for everything behind them. -/
def Hdr.RoomFor (d : Hdr) (blocks : List Nat) : Prop :=
  (Arena.place d.bankSize (d.bank d.active).used blocks).isSome

section staged

variable {d : Hdr} {ti : ThreatIntelUpdate} (wf : d.Wf) (ok : (d.staged (stageThreatintel ti)).rc = .ok)
include wf ok

theorem staged_arrays : ∃ x : Arrays ti (d.cloned.bank d.inactive),
    stageThreatintelFits ti d.cloned.mem (d.cloned.bank d.inactive) =
      (⟨(threatintelLoad (x.mem d.cloned.mem) x.b₃ ti x.adds x.iocs).1,
        (threatintelLoad (x.mem d.cloned.mem) x.b₃ ti x.adds x.iocs).2.1, .ok⟩,
        (threatintelLoad (x.mem d.cloned.mem) x.b₃ ti x.adds x.iocs).2.2) := by
  rcases stageThreatintel_cases ti d.cloned.mem _ (cloned_arena_wf wf) with ⟨failed, _⟩ | loaded
  · have none : (d.staged (stageThreatintel ti)).rc = .enomem := failed
    rw [none] at ok
    cases ok
  · exact loaded

theorem copies_fit_iff : (stageThreatintelFits ti d.cloned.mem (d.cloned.bank d.inactive)).2 = true ↔
    d.RoomFor ((intelFrame ti).required ++ (intelFrame ti).optional) := by
  obtain ⟨x, loaded⟩ := staged_arrays wf ok
  have bound := (cloned_bound wf).2
  have size : (d.cloned.bank d.inactive).size = d.bankSize := by
    rw [cloned_bank_inactive]
    rfl
  have used : (d.cloned.bank d.inactive).used = (d.bank d.active).used := by
    rw [cloned_bank_inactive]
    rfl
  obtain ⟨bound₃, size₃, placed⟩ := x.placed (cloned_arena_wf wf) (Nat.ne_of_gt bound)
  obtain ⟨_, _, wf₃, _, _⟩ := x.cursors (cloned_arena_wf wf)
  have flag : (stageThreatintelFits ti d.cloned.mem (d.cloned.bank d.inactive)).2 =
      (x.b₃.toArena.dupAll (x.mem d.cloned.mem) x.jobs).2.2 := by
    rw [loaded]
    rfl
  have required : (intelFrame ti).required =
      [ti.adds.length * sizeofSig, ti.iocs.length * sizeofIoc, ti.removes.length * 4] := rfl
  rw [size, used] at placed
  rw [flag, Arena.dupAll_fits wf₃ bound₃ x.jobs_block, x.jobs_sizes, size₃, size]
  unfold Hdr.RoomFor
  rw [Arena.place_append, required, placed]
  rfl

end staged

/-! ### Rows with all their fields -/

/-- Row `i` of the array at `ptr` has a pointer wherever the message has a string or a
digest. -/
def Pointed {α : Type} (m : Mem) (size : Nat) (cells : α → List (Nat × Option (List UInt8))) (ptr : Nat) (xs : List α) :
    Prop :=
  ∀ (i : Nat) (x : α), xs[i]? = some x → ∀ k bs, (k, some bs) ∈ cells x → ldLe64 m (ptr + i * size + k) ≠ 0

/-- The active bank holds every row of the update, with all its fields. -/
structure HoldsWhole (d : Hdr) (ti : ThreatIntelUpdate) : Prop where
  sig : (d.bank d.active).sigRows d.mem = ti.adds.map Signature.content
  ioc : (d.bank d.active).iocRows d.mem = ti.iocs.map Ioc.content
  sigPointed : Pointed d.mem sizeofSig sigCells (d.bank d.active).sig ti.adds
  iocPointed : Pointed d.mem sizeofIoc iocCells (d.bank d.active).ioc ti.iocs

def StoredWhole (d : Hdr) (ti : ThreatIntelUpdate) : Prop :=
  (ffnMpdpApply (intelFrame ti) d).2 = .ok → HoldsWhole (ffnMpdpApply (intelFrame ti) d).1 ti

theorem ArrayHeld.pointed {α : Type} {size : Nat} {fields : Nat → α → List (Nat × List UInt8)}
    {cells : α → List (Nat × Option (List UInt8))} {m img : Mem} {base A L ptr : Nat} {n : UInt32} {xs : List α}
    (h : ArrayHeld size fields cells img base A L ptr n xs) (cellsWf : CellsWf size cells)
    (shown : Shows m base A L img) : Pointed m size cells ptr xs := by
  intro i x read k bs cell
  rcases h.rows with rfl | ⟨q, rfl, held⟩
  · cases read
  · have row := held i x read
    have inside := cellsWf.inside x _ cell
    have below := row.below
    dsimp only at inside
    obtain ⟨notNull, _⟩ := (row.cell k bs cell).follow shown (by omega)
    intro null
    rw [show base + (q + i * size + k) = base + q + i * size + k by omega, null] at notNull
    exact notNull rfl

theorem HeldIn.whole {d : Hdr} {P : Bool} {L : Nat} {ti : ThreatIntelUpdate} (h : HeldIn d P L ti.adds ti.iocs) :
    HoldsWhole d ti := by
  have shown : Shows d.mem (d.arena d.active) (d.arena P) L (image d.mem (d.arena d.active)) :=
    ⟨fun _ _ => rfl, h.twin⟩
  obtain ⟨sig, ioc⟩ := h.read
  exact ⟨sig, ioc, h.holds.sig.pointed sigCells_wf shown, h.holds.ioc.pointed iocCells_wf shown⟩

theorem pointed_job {α : Type} {m : Mem} {size ptr : Nat} {cells : α → List (Nat × Option (List UInt8))} {xs : List α}
    {job : Nat × List UInt8} (pointed : Pointed m size cells ptr xs) (own : job ∈ rowFields size (rowJobs cells) ptr xs) :
    ldLe64 m job.1 ≠ 0 := by
  obtain ⟨i, x, read, member⟩ := rowFields_mem own
  obtain ⟨k, bs, cell, rfl⟩ := rowJobs_mem member
  exact pointed i x read k bs cell

theorem published_not_whole {d : Hdr} {ti : ThreatIntelUpdate} (wf : d.Wf)
    (ok : (d.staged (stageThreatintel ti)).rc = .ok)
    (failed : (stageThreatintelFits ti d.cloned.mem (d.cloned.bank d.inactive)).2 = false) :
    ¬HoldsWhole (d.published (stageThreatintel ti)) ti := by
  obtain ⟨x, loaded⟩ := staged_arrays wf ok
  have arenaWf := cloned_arena_wf wf
  obtain ⟨⟨_, _, used₁⟩, ⟨_, _, used₂⟩, wf₃, base₃, used₃⟩ := x.cursors arenaWf
  have flag : (x.b₃.toArena.dupAll (x.mem d.cloned.mem) x.jobs).2.2 = false := by
    rw [loaded] at failed
    exact failed
  obtain ⟨job, member, null⟩ := Arena.dupAll_null wf₃ (by omega) (x.jobs_wf arenaWf) (x.jobs_apart arenaWf) flag
  have staged : d.staged (stageThreatintel ti) =
      ⟨(threatintelLoad (x.mem d.cloned.mem) x.b₃ ti x.adds x.iocs).1,
        (threatintelLoad (x.mem d.cloned.mem) x.b₃ ti x.adds x.iocs).2.1, .ok⟩ := congrArg Prod.fst loaded
  have mem : (d.published (stageThreatintel ti)).mem = (x.b₃.toArena.dupAll (x.mem d.cloned.mem) x.jobs).1 := by
    rw [published_mem]
    show (d.staged (stageThreatintel ti)).mem = _
    rw [staged]
    rfl
  intro whole
  obtain ⟨_, _, sig, ioc⟩ := whole
  rw [published_active, published_bank, staged, mem] at sig ioc
  rcases List.mem_append.mp member with own | own
  · exact pointed_job sig own (ldLe64_of_at null)
  · exact pointed_job ioc own (ldLe64_of_at null)

/-- An update is stored whole exactly when it is refused or there is room for all the
copies as well. -/
theorem stored_whole_iff (d : Region) (ti : ThreatIntelUpdate) :
    StoredWhole d.val ti ↔
      (d.val.RoomFor (intelFrame ti).required → d.val.RoomFor ((intelFrame ti).required ++ (intelFrame ti).optional)) := by
  have run : ffnMpdpApply (intelFrame ti) d.val = applyStaged (stageThreatintel ti) d.val := rfl
  have room : d.val.RoomFor (intelFrame ti).required ↔ (d.val.staged (stageThreatintel ti)).rc = .ok := by
    have exactly := (staged_exact d.property _ (stageThreatintel_exact ti)).1
    rw [exactly]
    exact (and_iff_right trivial).symm
  unfold StoredWhole
  rw [run, applyStaged_eq, room]
  by_cases ok : (d.val.staged (stageThreatintel ti)).rc = .ok
  · rw [if_pos ok, ← copies_fit_iff d.property ok]
    refine ⟨fun whole _ => ?_, fun fits _ => ?_⟩
    · by_contra failed
      exact published_not_whole d.property ok (Bool.eq_false_iff.mpr failed) (whole rfl)
    · exact (heldIn_loaded d.property ok (fits ok)).whole
  · rw [if_neg ok]
    exact ⟨fun _ done => absurd done ok, fun _ done => absurd done ok⟩

def namedRow : ThreatIntelUpdate where
  seq := 1
  adds := [⟨7, some wireA, none, none, none, none, 3, 1, none⟩]
  removes := []
  iocs := []
  addsShort := by decide
  removesShort := by decide
  iocsShort := by decide

/-- The row takes 72 of 128 bytes; its name would have to start at the next cache line,
where the arena ends. -/
theorem namedRow_loses_name :
    (ffnMpdpApply (intelFrame namedRow) tinyBoot.region.val).2 = .ok ∧
      ((ffnMpdpApply (intelFrame namedRow) tinyBoot.region.val).1.bank true).sigN = 1 ∧
      ¬StoredWhole tinyBoot.region.val namedRow := by
  have ok : (ffnMpdpApply (intelFrame namedRow) tinyBoot.region.val).2 = .ok := by decide +kernel
  refine ⟨ok, by decide +kernel, fun stored => ?_⟩
  have pointed := (stored ok).sigPointed 0 _ rfl 8 [0x61, 0] List.mem_cons_self
  exact pointed (by decide +kernel)

end FfnNgfw.Dpmem
