import FfnNgfw.Dpmem.Rejected
import FfnNgfw.Dpmem.Rows

/-!
# Retained threat intelligence

A clone rebases the row arrays but not the strings behind them, which stay in the
arena where they were copied. Nothing dangles all the same: below the cursor of the
bank that was loaded both arenas hold the same bytes, and no later frame changes
them.
-/

namespace FfnNgfw.Dpmem
open Mem

/-! ### Arrays of held rows -/

section arrays

variable {α : Type} {size : Nat} {fields : Nat → α → List (Nat × List UInt8)}
  {cells : α → List (Nat × Option (List UInt8))}

structure ArrayHeld (size : Nat) (fields : Nat → α → List (Nat × List UInt8))
    (cells : α → List (Nat × Option (List UInt8))) (img : Mem) (base A L ptr : Nat) (n : UInt32) (xs : List α) :
    Prop where
  count : n.toNat = xs.length
  rows : xs = [] ∨ ∃ q, ptr = base + q ∧ RowsHeld size fields cells img A L q xs

theorem ArrayHeld.moved {img img' : Mem} {base base' A L ptr ptr' : Nat} {n : UInt32} {xs : List α}
    (h : ArrayHeld size fields cells img base A L ptr n xs)
    (inside : ∀ row x, ∀ w ∈ fields row x, row ≤ w.1 ∧ w.1 + w.2.length ≤ row + size) (cellsWf : CellsWf size cells)
    (same : ∀ o < L, img' o = img o) (moves : ∀ q, q + size ≤ L → ptr = base + q → ptr' = base' + q) :
    ArrayHeld size fields cells img' base' A L ptr' n xs := by
  refine ⟨h.count, ?_⟩
  rcases h.rows with empty | ⟨q, at_, held⟩
  · exact Or.inl empty
  · cases xs with
    | nil => exact Or.inl rfl
    | cons x xs =>
      have first := (held 0 x rfl).below
      rw [Nat.zero_mul] at first
      exact Or.inr ⟨q, moves q (by omega) at_, rowsHeld_congr inside cellsWf same held⟩

theorem array_held {lo p : Nat} {b b' : Bank} {r : Arena} {m : Mem} {jobs : List (Nat × List UInt8)} {xs : List α}
    (inside : ∀ row x, ∀ w ∈ fields row x, row ≤ w.1 ∧ w.1 + w.2.length ≤ row + size) (moves : Moves fields)
    (cellsWf : CellsWf size cells) (wf : b.toArena.Wf) (block : xs.length * size < Arena.maxBlock)
    (allocated : allocRows b xs.length size = some (p, b')) (short : xs.length < 2 ^ 32) (wfLast : r.Wf)
    (base : r.base = b.base) (used : b'.used ≤ r.used) (placed : 0 < r.base) (low : lo ≤ r.base + r.used)
    (ok : Arena.JobsWf lo r jobs) (apart : jobs.Pairwise Arena.FieldsApart)
    (noneFailed : (r.dupAll m jobs).2.2 = true) (stored : ∀ w ∈ rowFields size fields p xs, At m w.1 w.2)
    (own : ∀ job ∈ rowFields size (rowJobs cells) p xs, job ∈ jobs)
    (others : ∀ job ∈ jobs, job ∈ rowFields size (rowJobs cells) p xs ∨
      job.1 + 8 ≤ b.base + b.used ∨ b.base + b'.used ≤ job.1) :
    ArrayHeld size fields cells (image (r.dupAll m jobs).1 r.base) r.base r.base (r.dupAll m jobs).2.1.used p
      (UInt32.ofNat xs.length) xs := by
  refine ⟨?_, ?_⟩
  · rw [UInt32.toNat_ofNat']
    exact Nat.mod_eq_of_lt short
  · rcases allocRows_some wf block allocated with ⟨empty, _, _⟩ | ⟨q, above, _, _, rfl, rfl⟩
    · exact Or.inl (List.length_eq_zero_iff.mp empty)
    · rw [← base] at stored own others
      refine Or.inr ⟨q, by rw [base], ?_⟩
      refine rows_held inside moves cellsWf wfLast placed low ok apart noneFailed used stored own fun job member => ?_
      rcases others job member with ours | below | above
      · exact Or.inl ours
      · exact Or.inr (Or.inl (by omega))
      · exact Or.inr (Or.inr (by dsimp only at above; omega))

theorem ArrayHeld.read {β : Type} {img : Mem} {base A L ptr : Nat} {n : UInt32} {xs : List α} {readRow : Nat → β}
    {content : α → β} (h : ArrayHeld size fields cells img base A L ptr n xs)
    (row : ∀ q x, RowHeld size fields cells img A L q x → readRow (base + q) = content x) :
    (List.range n.toNat).map (fun i => readRow (ptr + i * size)) = xs.map content := by
  rw [h.count]
  rcases h.rows with rfl | ⟨q, rfl, held⟩
  · rfl
  · apply List.ext_getElem (by simp)
    intro i _ inside
    rw [List.length_map] at inside
    rw [List.getElem_map, List.getElem_map, List.getElem_range, Nat.add_assoc]
    exact row _ _ (held i xs[i] (List.getElem?_eq_getElem inside))

end arrays

structure BankHolds (img : Mem) (base A L : Nat) (b : Bank) (adds : List Signature) (iocs : List Ioc) : Prop where
  sig : ArrayHeld sizeofSig sigFields sigCells img base A L b.sig b.sigN adds
  ioc : ArrayHeld sizeofIoc iocFields iocCells img base A L b.ioc b.iocN iocs

theorem BankHolds.read {m img : Mem} {base A L : Nat} {b : Bank} {adds : List Signature} {iocs : List Ioc}
    (h : BankHolds img base A L b adds iocs) (shown : Shows m base A L img) :
    b.sigRows m = adds.map Signature.content ∧ b.iocRows m = iocs.map Ioc.content :=
  ⟨h.sig.read fun _ _ held => readSig_held shown held, h.ioc.read fun _ _ held => readIoc_held shown held⟩

section load

variable (m : Mem)

section stored

variable {ti : ThreatIntelUpdate} {b : Bank} (x : Arrays ti b) (wf : b.toArena.Wf)
include wf

theorem Arrays.jobs_apart : x.jobs.Pairwise Arena.FieldsApart := by
  obtain ⟨⟨wf₁, base₁, _⟩, _⟩ := x.cursors wf
  refine List.pairwise_append.mpr ⟨?_, ?_, fun job sig job' ioc => Or.inl ?_⟩
  · exact rowFields_pairwise (fun _ => 8) (rowJobs_inside sigCells_wf) (rowJobs_apart sigCells_wf) _ _
  · exact rowFields_pairwise (fun _ => 8) (rowJobs_inside iocCells_wf) (rowJobs_apart iocCells_wf) _ _
  · have here := allocRows_inside (fun _ => 8) (rowJobs_inside sigCells_wf) wf (adds_block ti) x.addsAt job sig
    have there := allocRows_inside (fun _ => 8) (rowJobs_inside iocCells_wf) wf₁ (iocs_block ti) x.iocsAt job'
      ioc
    omega

theorem Arrays.sig_stored : ∀ w ∈ rowFields sizeofSig sigFields x.adds ti.adds, At (x.mem m) w.1 w.2 := by
  obtain ⟨⟨wf₁, base₁, _⟩, ⟨wf₂, base₂, used₂⟩, _⟩ := x.cursors wf
  intro w member
  have here := allocRows_inside (fun w => w.2.length) sigFields_inside wf (adds_block ti) x.addsAt w member
  have apart := rowFields_pairwise (fun w => w.2.length) sigFields_inside sigFields_apart x.adds ti.adds
  refine at_congr (writeAll_at (m := m) apart w member) fun i byte => ?_
  unfold Arrays.mem
  rw [writeAll_outside fun w' later => ?_, writeAll_outside fun w' later => ?_]
  · have there := allocRows_inside (fun w => w.2.length) iocFields_inside wf₁ (iocs_block ti) x.iocsAt w' later
    omega
  · have there := allocRows_inside (fun w => w.2.length) removeFields_inside wf₂ (removes_block ti)
      x.removesAt w' later
    omega

theorem Arrays.ioc_stored : ∀ w ∈ rowFields sizeofIoc iocFields x.iocs ti.iocs, At (x.mem m) w.1 w.2 := by
  obtain ⟨⟨wf₁, base₁, _⟩, ⟨wf₂, base₂, used₂⟩, _⟩ := x.cursors wf
  intro w member
  have here := allocRows_inside (fun w => w.2.length) iocFields_inside wf₁ (iocs_block ti) x.iocsAt w member
  have apart := rowFields_pairwise (fun w => w.2.length) iocFields_inside iocFields_apart x.iocs ti.iocs
  refine at_congr (writeAll_at (m := m.writeAll (rowFields sizeofSig sigFields x.adds ti.adds)) apart w member)
    fun i byte => ?_
  unfold Arrays.mem
  rw [writeAll_outside fun w' later => ?_]
  have there := allocRows_inside (fun w => w.2.length) removeFields_inside wf₂ (removes_block ti)
    x.removesAt w' later
  omega

end stored

theorem stageThreatintel_holds (ti : ThreatIntelUpdate) {b : Bank} (wf : b.toArena.Wf) (placed : 0 < b.base)
    (ok : (stageThreatintel ti m b).rc = .ok) (fits : (stageThreatintelFits ti m b).2 = true) :
    BankHolds (image (stageThreatintel ti m b).mem b.base) b.base b.base (stageThreatintel ti m b).bank.used
      (stageThreatintel ti m b).bank ti.adds ti.iocs := by
  rcases stageThreatintel_cases ti m b wf with ⟨failed, _⟩ | ⟨x, loaded⟩
  · rw [failed] at ok
    cases ok
  · obtain ⟨⟨wf₁, base₁, used₁⟩, ⟨wf₂, base₂, used₂⟩, wf₃, base₃, used₃⟩ := x.cursors wf
    have jobsWf := x.jobs_wf wf
    have apart := x.jobs_apart wf
    unfold stageThreatintel
    rw [loaded] at fits ⊢
    have noneFailed : (x.b₃.toArena.dupAll (x.mem m) x.jobs).2.2 = true := fits
    rw [← base₃]
    constructor
    · refine array_held sigFields_inside sigFields_moves sigCells_wf wf (adds_block ti) x.addsAt ti.addsShort wf₃ base₃
        (by omega) (by omega) (by omega) jobsWf apart noneFailed (x.sig_stored m wf)
        (fun job own => List.mem_append_left _ own) fun job member => ?_
      rcases List.mem_append.mp member with ours | ioc
      · exact Or.inl ours
      · have there := allocRows_inside (fun _ => 8) (rowJobs_inside iocCells_wf) wf₁ (iocs_block ti) x.iocsAt
          job ioc
        exact Or.inr (Or.inr (by omega))
    · refine array_held iocFields_inside iocFields_moves iocCells_wf wf₁ (iocs_block ti) x.iocsAt ti.iocsShort wf₃
        (by omega) (by omega) (by omega) (by omega) jobsWf apart noneFailed (x.ioc_stored m wf)
        (fun job own => List.mem_append_right _ own) fun job member => ?_
      rcases List.mem_append.mp member with sig | ours
      · have there := allocRows_inside (fun _ => 8) (rowJobs_inside sigCells_wf) wf (adds_block ti) x.addsAt
          job sig
        exact Or.inr (Or.inl (by omega))
      · exact Or.inl ours

end load

/-! ### Frames keep the rows -/

/-- The active bank holds these rows below `L`, with the strings in the arena of bank
`P`. -/
structure HeldIn (d : Hdr) (P : Bool) (L : Nat) (adds : List Signature) (iocs : List Ioc) : Prop where
  below : L ≤ (d.bank d.active).used
  twin : ∀ o < L, d.mem (d.arena P + o) = d.mem (d.arena d.active + o)
  holds : BankHolds (image d.mem (d.arena d.active)) (d.arena d.active) (d.arena P) L (d.bank d.active) adds iocs

def KeepsIntel (stage : Mem → Bank → Staged) : Prop :=
  ∀ m b, (stage m b).bank.sig = b.sig ∧ (stage m b).bank.sigN = b.sigN ∧ (stage m b).bank.ioc = b.ioc ∧
    (stage m b).bank.iocN = b.iocN

theorem dupVec_bank (m : Mem) (b : Bank) (v : Option WireVec) :
    ∃ r, (dupVec m b v).2.2.1 = { b with toArena := r } := by
  unfold dupVec
  split
  · exact ⟨_, rfl⟩
  · cases found : b.arenaDup m (vecBytes v) with
    | none => exact ⟨_, rfl⟩
    | some out =>
      obtain ⟨r, _, same⟩ := arenaDup_some found
      exact ⟨r, same⟩

theorem stageMl_keepsIntel (u : MlModelUpdate) : KeepsIntel (stageMl u) := by
  intro m b
  obtain ⟨r₁, first⟩ := dupVec_bank m b u.treeBlob
  obtain ⟨r₂, second⟩ := dupVec_bank (dupVec m b u.treeBlob).2.1 (dupVec m b u.treeBlob).2.2.1 u.ngramParams
  unfold stageMl
  dsimp only
  split
  · rw [second, first]
    exact ⟨rfl, rfl, rfl, rfl⟩
  · dsimp only
    rw [second, first]
    exact ⟨rfl, rfl, rfl, rfl⟩

theorem stagePolicy_keepsIntel (pu : PolicyUpdate) : KeepsIntel (stagePolicy pu) := by
  intro m b
  unfold stagePolicy
  dsimp only
  split
  · exact ⟨rfl, rfl, rfl, rfl⟩
  · cases found : b.arenaAlloc (pu.rows.length * sizeofEnt) with
    | none => exact ⟨rfl, rfl, rfl, rfl⟩
    | some out =>
      obtain ⟨r, _, same⟩ := arenaAlloc_some found
      dsimp only
      rw [same]
      split
      · exact ⟨rfl, rfl, rfl, rfl⟩
      · exact ⟨rfl, rfl, rfl, rfl⟩

section frames

variable {d : Hdr} {P : Bool} {L : Nat} {adds : List Signature} {iocs : List Ioc}

theorem HeldIn.read (h : HeldIn d P L adds iocs) :
    (d.bank d.active).sigRows d.mem = adds.map Signature.content ∧
      (d.bank d.active).iocRows d.mem = iocs.map Ioc.content :=
  h.holds.read ⟨fun _ _ => rfl, h.twin⟩

variable {stage : Mem → Bank → Staged}

theorem prepared_mem_below (appends : Appends stage) (wf : d.Wf) (i : Bool) {o : Nat}
    (below : o < (d.bank d.active).used) : (d.prepared stage).mem (d.arena i + o) = d.mem (d.arena d.active + o) := by
  rcases eq_active_or_inactive d i with rfl | rfl
  · have used := wf.used d.active
    exact (prepared_live appends wf).arena o (by omega)
  · exact prepared_mem_copy appends wf below

theorem HeldIn.prepared (h : HeldIn d P L adds iocs) (appends : Appends stage)
    (wf : d.Wf) : HeldIn (d.prepared stage) P L adds iocs := by
  have same (i : Bool) (o : Nat) (inside : o < L) := prepared_mem_below appends wf i (Nat.lt_of_lt_of_le inside h.below)
  have record := prepared_bank_active d stage
  have live : (d.prepared stage).active = d.active := rfl
  have arena : (d.prepared stage).arena = d.arena := rfl
  refine ⟨?_, fun o inside => ?_, ?_⟩
  · rw [live, record]
    exact h.below
  · rw [live, arena]
    exact (same P o inside).trans (same d.active o inside).symm
  · rw [live, record, arena]
    exact ⟨h.holds.sig.moved sigFields_inside sigCells_wf (same d.active) fun q _ here => here,
      h.holds.ioc.moved iocFields_inside iocCells_wf (same d.active) fun q _ here => here⟩

theorem HeldIn.published (h : HeldIn d P L adds iocs) (appends : Appends stage)
    (keeps : KeepsIntel stage) (wf : d.Wf) : HeldIn (d.published stage) P L adds iocs := by
  have same (i : Bool) (o : Nat) (inside : o < L) := prepared_mem_below appends wf i (Nat.lt_of_lt_of_le inside h.below)
  obtain ⟨used, _, _⟩ := staged_used appends wf
  have kept := keeps d.cloned.mem (d.cloned.bank d.inactive)
  rw [show stage d.cloned.mem (d.cloned.bank d.inactive) = d.staged stage from rfl, cloned_bank_inactive] at kept
  obtain ⟨sig, sigN, ioc, iocN⟩ := kept
  have below := h.below
  have fits := wf.used d.active
  have placed := wf.placed
  -- A pointer into the arena is rebased, since it is not NULL.
  have rebased {p q size : Nat} (positive : 0 < size) (inside : q + size ≤ L) (here : p = d.arena d.active + q) :
      d.rebase d.inactive d.active p = d.arena d.inactive + q := by
    have notNull : p ≠ 0 := by
      unfold Hdr.arena at here
      omega
    rw [Hdr.rebase, if_neg notNull, here]
    exact wf.shift_arena _ _ (by omega)
  refine ⟨?_, fun o inside => ?_, ?_⟩
  · rw [published_active, published_bank]
    exact Nat.le_trans below used
  · rw [published_active, published_mem, published_arena, published_arena, same P o inside, same d.inactive o inside]
  · rw [published_active, published_bank, published_mem, published_arena, published_arena]
    have sigPositive : 0 < sizeofSig := by decide
    have iocPositive : 0 < sizeofIoc := by decide
    constructor
    · dsimp only
      rw [sig, sigN]
      exact h.holds.sig.moved sigFields_inside sigCells_wf (same d.inactive) fun q inside here =>
        rebased sigPositive inside here
    · dsimp only
      rw [ioc, iocN]
      exact h.holds.ioc.moved iocFields_inside iocCells_wf (same d.inactive) fun q inside here =>
        rebased iocPositive inside here

theorem heldIn_loaded {ti : ThreatIntelUpdate} (wf : d.Wf) (ok : (d.staged (stageThreatintel ti)).rc = .ok)
    (fits : (stageThreatintelFits ti d.cloned.mem (d.cloned.bank d.inactive)).2 = true) :
    HeldIn (d.published (stageThreatintel ti)) d.inactive (d.staged (stageThreatintel ti)).bank.used ti.adds ti.iocs := by
  obtain ⟨base, placed⟩ := cloned_bound wf
  have holds := stageThreatintel_holds d.cloned.mem ti (cloned_arena_wf wf) placed ok fits
  rw [base] at holds
  have cursor : ((d.published (stageThreatintel ti)).bank (d.published (stageThreatintel ti)).active).used =
      (d.staged (stageThreatintel ti)).bank.used := by
    rw [published_active, published_bank]
  refine ⟨Nat.le_of_eq cursor.symm, fun o _ => ?_, ?_⟩
  · rw [published_active]
  · rw [published_active, published_bank, published_mem, published_arena]
    exact ⟨holds.sig, holds.ioc⟩

theorem HeldIn.sigVerdict (h : HeldIn d P L adds iocs) (sv : SignatureVerdict) :
    HeldIn (applySigVerdict sv d) P L adds iocs := by
  obtain ⟨below, twin, sig, ioc⟩ := h
  have live : (applySigVerdict sv d).active = d.active := rfl
  refine ⟨?_, twin, ?_⟩
  · rw [live, applySigVerdict_bank]
    exact below
  · rw [live, applySigVerdict_bank]
    exact ⟨sig, ioc⟩

end frames

/-! ### Runs -/

def Frame.threatIntel? : Frame → Option ThreatIntelUpdate
  | .message .mp2dp (some (.threatIntelUpdate ti)) => some ti
  | _ => none

theorem apply_intel_cases (f : Frame) (d : Hdr) :
    (∃ ti, f.threatIntel? = some ti ∧ ffnMpdpApply f d = applyStaged (stageThreatintel ti) d) ∨
    f.threatIntel? = none ∧
      ((∃ stage, Appends stage ∧ KeepsIntel stage ∧ ffnMpdpApply f d = applyStaged stage d) ∨
        (∃ sv, (ffnMpdpApply f d).1 = applySigVerdict sv d) ∨ (ffnMpdpApply f d).1 = d) := by
  cases f with
  | null => exact Or.inr ⟨rfl, Or.inr (Or.inr rfl)⟩
  | unverified => exact Or.inr ⟨rfl, Or.inr (Or.inr rfl)⟩
  | message dir body =>
    cases dir with
    | dp2mp => exact Or.inr ⟨rfl, Or.inr (Or.inr rfl)⟩
    | mp2dp =>
      cases body with
      | none => exact Or.inr ⟨rfl, Or.inr (Or.inr rfl)⟩
      | some body =>
        cases body with
        | mlModelUpdate u => exact Or.inr ⟨rfl, Or.inl ⟨_, stageMl_appends u, stageMl_keepsIntel u, rfl⟩⟩
        | threatIntelUpdate ti => exact Or.inl ⟨ti, rfl, rfl⟩
        | policyUpdate pu => exact Or.inr ⟨rfl, Or.inl ⟨_, stagePolicy_appends pu, stagePolicy_keepsIntel pu, rfl⟩⟩
        | signatureVerdict sv => exact Or.inr ⟨rfl, Or.inr (Or.inl ⟨sv, rfl⟩)⟩
        | other => exact Or.inr ⟨rfl, Or.inr (Or.inr rfl)⟩

/-- The update that a frame loads: the one it carries, when it is accepted. -/
def loaded? (f : Frame) (d : Hdr) : Option ThreatIntelUpdate :=
  if (ffnMpdpApply f d).2 = .ok then f.threatIntel? else none

/-- No copy of a string or a digest runs out of arena when the frame is applied. -/
def copiesFit (f : Frame) (d : Hdr) : Bool :=
  match f.threatIntel? with
  | some ti => (stageThreatintelFits ti d.cloned.mem (d.cloned.bank d.inactive)).2
  | none => true

/-- The most recent update that was loaded, `last` when the frames load none. -/
def lastLoaded (last : Option ThreatIntelUpdate) (d : Region) : List Frame → Option ThreatIntelUpdate
  | [] => last
  | f :: frames => lastLoaded ((loaded? f d.val).or last) (d.apply f) frames

def allCopiesFit (d : Region) : List Frame → Bool
  | [] => true
  | f :: frames => copiesFit f d.val && allCopiesFit (d.apply f) frames

def addsOf (last : Option ThreatIntelUpdate) : List Signature := last.elim [] ThreatIntelUpdate.adds

def iocsOf (last : Option ThreatIntelUpdate) : List Ioc := last.elim [] ThreatIntelUpdate.iocs

def Retains (d : Hdr) (last : Option ThreatIntelUpdate) : Prop := ∃ P L, HeldIn d P L (addsOf last) (iocsOf last)

def Hdr.NoIntel (d : Hdr) : Prop := (d.bank d.active).sigN = 0 ∧ (d.bank d.active).iocN = 0

theorem reserve_noIntel (addr bankSize : Nat) (mem : Mem) : (dpmemReserve addr bankSize mem).NoIntel := ⟨rfl, rfl⟩

theorem noIntel_retains {d : Hdr} (h : d.NoIntel) : Retains d none := by
  refine ⟨d.active, 0, Nat.zero_le _, fun _ _ => rfl, ⟨?_, Or.inl rfl⟩, ⟨?_, Or.inl rfl⟩⟩
  · rw [h.1]
    rfl
  · rw [h.2]
    rfl

theorem retains_apply {d : Hdr} {last : Option ThreatIntelUpdate} (h : Retains d last) (wf : d.Wf) (f : Frame)
    (fits : copiesFit f d = true) : Retains (ffnMpdpApply f d).1 ((loaded? f d).or last) := by
  obtain ⟨P, L, held⟩ := h
  unfold loaded?
  rcases apply_intel_cases f d with ⟨ti, carried, run⟩ | ⟨other, effect⟩
  · rw [copiesFit, carried] at fits
    rw [run, applyStaged_eq, carried]
    split
    · rename_i ok
      exact ⟨d.inactive, _, heldIn_loaded wf ok fits⟩
    · exact ⟨P, L, held.prepared (stageThreatintel_appends ti) wf⟩
  · rw [other, ite_self, Option.none_or]
    rcases effect with ⟨stage, appends, keeps, run⟩ | ⟨sv, run⟩ | same
    · rw [run, applyStaged_eq]
      split
      · exact ⟨P, L, held.published appends keeps wf⟩
      · exact ⟨P, L, held.prepared appends wf⟩
    · rw [run]
      exact ⟨P, L, held.sigVerdict sv⟩
    · rw [same]
      exact ⟨P, L, held⟩

theorem retains_run {d : Region} {last : Option ThreatIntelUpdate} (h : Retains d.val last) (frames : List Frame)
    (fits : allCopiesFit d frames = true) : Retains (d.run frames).val (lastLoaded last d frames) := by
  induction frames generalizing d last with
  | nil => exact h
  | cons f frames ih =>
    rw [allCopiesFit, Bool.and_eq_true] at fits
    exact ih (d := d.apply f) (retains_apply h d.property f fits.1) fits.2

/-- After every run the active bank reads back the most recent loaded update. -/
theorem retained_rows_never_dangle (d : Region) (fresh : d.val.NoIntel) (frames : List Frame)
    (fits : allCopiesFit d frames = true) :
    let d' := (d.run frames).val
    let last := lastLoaded none d frames
    (d'.bank d'.active).sigRows d'.mem = (addsOf last).map Signature.content ∧
      (d'.bank d'.active).iocRows d'.mem = (iocsOf last).map Ioc.content := by
  obtain ⟨P, L, held⟩ := retains_run (noIntel_retains fresh) frames fits
  exact held.read

def wireA : WireStr := ⟨1, [0x61], one_present, by decide, by decide⟩

def oneRow : ThreatIntelUpdate where
  seq := 1
  adds := [⟨7, some wireA, none, none, some ⟨1, [0xAB], one_present, by decide⟩, none, 3, 1, none⟩]
  removes := [5]
  iocs := [⟨some wireA, some wireA, 2⟩]
  addsShort := by decide
  removesShort := by decide
  iocsShort := by decide

/-- The rows are loaded into one bank, cloned into the other by a model update, and
cloned back by a push that is rejected. -/
def oneRowFrames : List Frame :=
  [.message .mp2dp (some (.threatIntelUpdate oneRow)), .message .mp2dp (some (.mlModelUpdate ⟨2, 0, none, none, 0⟩)),
    badPush]

theorem oneRow_never_dangles :
    allCopiesFit smallRegion oneRowFrames = true ∧
      let d := (smallRegion.run oneRowFrames).val
      (d.bank d.active).sigRows d.mem = oneRow.adds.map Signature.content ∧
        (d.bank d.active).iocRows d.mem = oneRow.iocs.map Ioc.content := by
  have fits : allCopiesFit smallRegion oneRowFrames = true := by decide +kernel
  have read := retained_rows_never_dangle smallRegion (reserve_noIntel _ _ _) oneRowFrames fits
  have last : lastLoaded none smallRegion oneRowFrames = some oneRow := by
    have accepted : (ffnMpdpApply (.message .mp2dp (some (.threatIntelUpdate oneRow))) smallRegion.val).2 = .ok := by
      decide +kernel
    simp only [lastLoaded, oneRowFrames, loaded?, badPush, Frame.threatIntel?, ite_self, Option.none_or, if_pos accepted,
      Option.some_or]
  rw [last] at read
  exact ⟨fits, read⟩

end FfnNgfw.Dpmem
