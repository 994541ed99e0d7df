import FfnNgfw.Dpmem.PolicyPush

/-!
# Exhaustion of the arenas

A clone copies everything below the cursor and a stage allocates above it, so that a
payload keeps its space after an update has superseded it. The cursor depends only on
the models that were seeded and on the frames that were applied, and it decides which
update is still accepted.
-/

namespace FfnNgfw.Dpmem
open Mem Portable

/-! ### Boot: reserve the region, seed bank 0 -/

structure Boot where
  addr : Nat
  bankSize : Nat
  mem : Mem
  models : List Model
  placed : 0 < addr
  mapped : addr + (hdrSize + bankSize) + bankSize ≤ 2 ^ 64

def seed (d : Hdr) (models : List Model) : Hdr := models.foldl (fun d s => (d.bankPut false s).getD d) d

def Boot.hdr (b : Boot) : Hdr := seed (dpmemReserve b.addr b.bankSize b.mem) b.models

/-! ### What is live

The sizes of the payloads that the active bank refers to. -/

structure Live where
  seeded : ModelType → Nat
  ml : List Nat
  policy : List Nat
  intel : List Nat

def ModelType.all : List ModelType := [.acTables, .dfaTable, .mlTree, .ngramParams, .sigTable]

def Live.total (l : Live) : Nat :=
  ((ModelType.all.map l.seeded ++ l.ml ++ l.policy ++ l.intel).map Arena.roundUp).sum

def cellSizes {α : Type} (cells : α → List (Nat × Option (List UInt8))) (xs : List α) : List Nat :=
  xs.flatMap fun x => (cells x).filterMap fun c => c.2.map List.length

def ThreatIntelUpdate.strings (ti : ThreatIntelUpdate) : List Nat := cellSizes sigCells ti.adds ++ cellSizes iocCells ti.iocs

def Live.after (l : Live) : Frame → Live
  | .message .mp2dp (some (.mlModelUpdate u)) =>
    { l with ml := [(vecBytes u.treeBlob).length, (vecBytes u.ngramParams).length] }
  | .message .mp2dp (some (.threatIntelUpdate ti)) =>
    { l with intel := [ti.adds.length * sizeofSig, ti.iocs.length * sizeofIoc] ++ ti.strings }
  | .message .mp2dp (some (.policyUpdate pu)) => { l with policy := [pu.rows.length * sizeofEnt] }
  | _ => l

def Frame.required : Frame → List Nat
  | .message .mp2dp (some (.mlModelUpdate u)) => [(vecBytes u.treeBlob).length, (vecBytes u.ngramParams).length]
  | .message .mp2dp (some (.threatIntelUpdate ti)) =>
    [ti.adds.length * sizeofSig, ti.iocs.length * sizeofIoc, ti.removes.length * 4]
  | .message .mp2dp (some (.policyUpdate pu)) => [pu.rows.length * sizeofEnt]
  | _ => []

def Frame.optional : Frame → List Nat
  | .message .mp2dp (some (.threatIntelUpdate ti)) => ti.strings
  | _ => []

def Frame.Parses : Frame → Prop
  | .message .mp2dp (some (.policyUpdate pu)) => (compileRows pu.baseVsys 0 pu.rows).isSome
  | _ => True

def Frame.cursor (size used : Nat) (f : Frame) : Nat :=
  match Arena.place size used f.required with
  | some used => f.optional.foldl (Arena.bump size) used
  | none => used

def seedModel (size : Nat) (s : Nat × (ModelType → Nat)) (m : Model) : Nat × (ModelType → Nat) :=
  let need := sizeofTlv + m.src.length
  if Arena.roundUp s.1 + need ≤ size then (Arena.roundUp s.1 + need, Function.update s.2 m.type need) else s

def Boot.seeded (b : Boot) : Nat × (ModelType → Nat) := b.models.foldl (seedModel b.bankSize) (0, fun _ => 0)

def Boot.live (b : Boot) (history : List Frame) : Live := history.foldl Live.after ⟨b.seeded.2, [], [], []⟩

def Boot.cursor (b : Boot) (history : List Frame) : Nat := history.foldl (Frame.cursor b.bankSize) b.seeded.1

/-! ### What each stage allocates -/

section place

variable {b : Bank} (wf : b.toArena.Wf) (bound : b.base ≠ 0)

theorem place_one {size used n u : Nat} (h : Arena.place size used [n] = some u) :
    n = 0 ∧ u = used ∨ n ≠ 0 ∧ Arena.roundUp used + n ≤ size ∧ u = Arena.roundUp used + n := by
  simp only [Arena.place] at h
  split at h
  · rename_i empty
    cases h
    exact Or.inl ⟨empty, rfl⟩
  · rename_i some
    split at h
    · rename_i fits
      cases h
      exact Or.inr ⟨some, fits, rfl⟩
    · cases h

include wf in
theorem placed_wf {n u : Nat} (h : Arena.place b.size b.used [n] = some u) :
    ({ b with used := u } : Bank).toArena.Wf := by
  obtain ⟨inside, small, mapped⟩ := wf
  rcases place_one h with ⟨_, rfl⟩ | ⟨_, fits, rfl⟩
  · exact ⟨inside, small, mapped⟩
  · exact ⟨fits, small, mapped⟩

include wf bound

theorem dupVec_place (m : Mem) (v : Option WireVec) :
    (∃ u p m', Arena.place b.size b.used [(vecBytes v).length] = some u ∧
      dupVec m b v = (p, m', { b with used := u }, false)) ∨
    (Arena.place b.size b.used [(vecBytes v).length] = none ∧ (dupVec m b v).2.2.2 = true) := by
  unfold dupVec Bank.arenaDup Arena.dup
  rw [Arena.alloc_eq wf (vecBytes_block v) bound]
  simp only [Arena.place, List.length_eq_zero_iff]
  by_cases empty : vecBytes v = []
  · rw [if_pos empty, if_pos empty]
    exact Or.inl ⟨_, _, _, rfl, rfl⟩
  · rw [if_neg empty, if_neg empty]
    by_cases fits : Arena.roundUp b.used + (vecBytes v).length ≤ b.size
    · rw [if_pos fits, if_pos fits]
      exact Or.inl ⟨_, _, _, rfl, rfl⟩
    · rw [if_neg fits, if_neg fits]
      exact Or.inr ⟨rfl, rfl⟩

theorem allocRows_place {n size : Nat} (positive : 0 < size) (block : n * size < Arena.maxBlock) :
    (∃ u p, Arena.place b.size b.used [n * size] = some u ∧ allocRows b n size = some (p, { b with used := u })) ∨
    (Arena.place b.size b.used [n * size] = none ∧ allocRows b n size = none) := by
  have zero : n * size = 0 ↔ n = 0 := by
    rw [Nat.mul_eq_zero]
    omega
  unfold allocRows Bank.arenaAlloc
  rw [Arena.alloc_eq wf block bound]
  simp only [Arena.place, zero]
  by_cases empty : n = 0
  · rw [if_pos empty, if_pos empty]
    exact Or.inl ⟨_, _, rfl, rfl⟩
  · rw [if_neg empty, if_neg empty]
    by_cases fits : Arena.roundUp b.used + n * size ≤ b.size
    · rw [if_pos fits, if_pos fits]
      exact Or.inl ⟨_, _, rfl, rfl⟩
    · rw [if_neg fits, if_neg fits]
      exact Or.inr ⟨rfl, rfl⟩

end place

/-- A stage succeeds exactly when everything required fits above the cursor and the
addresses parse, and then leaves the cursor where `Frame.cursor` says. -/
def Exact (f : Frame) (stage : Mem → Bank → Staged) : Prop :=
  ∀ m b, b.toArena.Wf → b.base ≠ 0 →
    ((stage m b).rc = .ok ↔ f.Parses ∧ (Arena.place b.size b.used f.required).isSome) ∧
      ((stage m b).rc = .ok → (stage m b).bank.used = f.cursor b.size b.used)

theorem stageMl_exact (u : MlModelUpdate) : Exact (.message .mp2dp (some (.mlModelUpdate u))) (stageMl u) := by
  intro m b wf bound
  simp only [Frame.Parses, Frame.cursor, Frame.required, Frame.optional, true_and]
  rw [← List.singleton_append, Arena.place_append]
  unfold stageMl
  rcases dupVec_place wf bound m u.treeBlob with ⟨used, p, m', tree, copied⟩ | ⟨tree, failed⟩
  · rw [copied, tree]
    have wf' := placed_wf wf tree
    rcases dupVec_place wf' bound m' u.ngramParams with ⟨used', p', m'', ngram, copied'⟩ | ⟨ngram, failed⟩
    · dsimp only [Option.bind_some] at ngram ⊢
      rw [copied', ngram]
      exact ⟨⟨fun _ => rfl, fun _ => rfl⟩, fun _ => rfl⟩
    · dsimp only [Option.bind_some] at ngram ⊢
      rw [ngram, failed]
      exact ⟨⟨nofun, nofun⟩, nofun⟩
  · rw [tree]
    dsimp only [Option.bind_none]
    rw [failed]
    exact ⟨⟨nofun, nofun⟩, nofun⟩

theorem policyLoop_compiles (ent : Nat) (vsys : UInt8) (m : Mem) (i : Nat) (rows : List WirePolicyRow) :
    (policyLoop ent vsys m i rows).2 = .ok ↔ (compileRows vsys i rows).isSome := by
  induction rows generalizing m i with
  | nil => exact ⟨fun _ => rfl, fun _ => rfl⟩
  | cons r rows ih =>
    unfold policyLoop compileRows
    cases compileRow vsys i r with
    | none => simp
    | some e =>
      dsimp only [Option.bind_eq_bind, Option.bind_some]
      rw [ih]
      cases compileRows vsys (i + 1) rows with
      | none => simp
      | some es => exact ⟨fun _ => rfl, fun _ => rfl⟩

theorem stagePolicy_exact (pu : PolicyUpdate) : Exact (.message .mp2dp (some (.policyUpdate pu))) (stagePolicy pu) := by
  intro m b wf bound
  have short := pu.rowsShort
  have block : pu.rows.length * sizeofEnt < Arena.maxBlock := by
    unfold sizeofEnt Arena.maxBlock
    omega
  have zero : pu.rows.length * sizeofEnt = 0 ↔ pu.rows.length = 0 := by
    unfold sizeofEnt
    omega
  simp only [Frame.Parses, Frame.cursor, Frame.required, Frame.optional, Arena.place, zero]
  unfold stagePolicy Bank.arenaAlloc
  dsimp only
  rw [Arena.alloc_eq wf block bound]
  by_cases empty : pu.rows.length = 0
  · rw [if_pos empty, if_pos empty, List.length_eq_zero_iff.mp empty]
    exact ⟨⟨fun _ => ⟨rfl, rfl⟩, fun _ => rfl⟩, fun _ => rfl⟩
  · rw [if_neg empty, if_neg empty]
    by_cases fits : Arena.roundUp b.used + pu.rows.length * sizeofEnt ≤ b.size
    · rw [if_pos fits, if_pos fits]
      dsimp only [Option.map_some]
      have loop := policyLoop_compiles (b.base + Arena.roundUp b.used) pu.baseVsys
        (m.fill (b.base + Arena.roundUp b.used) 0 (pu.rows.length * sizeofEnt)) 0 pu.rows
      split
      · rename_i failed
        exact ⟨⟨fun ok => absurd ok failed, fun ok => absurd (loop.mpr ok.1) failed⟩, fun ok => absurd ok failed⟩
      · rename_i done
        simp only [ne_eq, Decidable.not_not] at done
        exact ⟨⟨fun _ => ⟨loop.mp done, rfl⟩, fun _ => rfl⟩, fun _ => rfl⟩
    · rw [if_neg fits, if_neg fits]
      simp

theorem rowJobs_sizes {α : Type} (size : Nat) (cells : α → List (Nat × Option (List UInt8))) (row : Nat) (xs : List α) :
    (rowFields size (rowJobs cells) row xs).map (fun job => job.2.length) = cellSizes cells xs := by
  induction xs generalizing row with
  | nil => rfl
  | cons x xs ih =>
    rw [rowFields, List.map_append, ih, cellSizes, cellSizes, List.flatMap_cons, rowJobs, List.map_filterMap]
    congr 2
    funext c
    cases c.2 with
    | none => rfl
    | some bs => rfl

theorem stageThreatintel_exact (ti : ThreatIntelUpdate) :
    Exact (.message .mp2dp (some (.threatIntelUpdate ti))) (stageThreatintel ti) := by
  intro m b wf bound
  simp only [Frame.Parses, Frame.cursor, Frame.required, Frame.optional, true_and]
  rw [← List.singleton_append, Arena.place_append]
  unfold stageThreatintel stageThreatintelFits
  rcases allocRows_place wf bound (by decide) (adds_block ti) with ⟨used₁, adds, fits₁, alloc₁⟩ | ⟨full, failed⟩
  · rw [alloc₁, fits₁, Option.bind_some, ← List.singleton_append, Arena.place_append]
    have wf₁ := placed_wf wf fits₁
    rcases allocRows_place wf₁ bound (by decide) (iocs_block ti) with ⟨used₂, iocs, fits₂, alloc₂⟩ | ⟨full, failed⟩
    · dsimp only at fits₂ ⊢
      rw [alloc₂, fits₂, Option.bind_some]
      have wf₂ := placed_wf wf₁ fits₂
      rcases allocRows_place wf₂ bound (by decide) (removes_block ti) with
        ⟨used₃, removes, fits₃, alloc₃⟩ | ⟨full, failed⟩
      · dsimp only at fits₃ ⊢
        rw [alloc₃, fits₃]
        refine ⟨⟨fun _ => rfl, fun _ => rfl⟩, fun _ => ?_⟩
        have wf₃ := placed_wf wf₂ fits₃
        dsimp only [threatintelLoad]
        rw [Arena.dupAll_used wf₃ bound, List.map_append, rowJobs_sizes, rowJobs_sizes]
        · rfl
        · intro job member
          rcases List.mem_append.mp member with sig | ioc
          · exact (rowFields_all (rowJobs_block sigCells_wf) job sig).2
          · exact (rowFields_all (rowJobs_block iocCells_wf) job ioc).2
      · dsimp only at full ⊢
        rw [failed, full]
        exact ⟨⟨nofun, nofun⟩, nofun⟩
    · dsimp only at full ⊢
      rw [failed, full]
      exact ⟨⟨nofun, nofun⟩, nofun⟩
  · rw [failed, full]
    exact ⟨⟨nofun, nofun⟩, nofun⟩

theorem stage_exact {f : Frame} {stage : Mem → Bank → Staged} (staged : f.stage? = some stage) : Exact f stage := by
  unfold Frame.stage? at staged
  split at staged
  · cases staged
    exact stageMl_exact _
  · cases staged
    exact stageThreatintel_exact _
  · cases staged
    exact stagePolicy_exact _
  · cases staged

section frames

variable {d : Hdr} (wf : d.Wf) (f : Frame)
include wf

theorem staged_exact {stage : Mem → Bank → Staged} (exact_ : Exact f stage) :
    ((d.staged stage).rc = .ok ↔ f.Parses ∧ (Arena.place d.bankSize (d.bank d.active).used f.required).isSome) ∧
      ((d.staged stage).rc = .ok → (d.staged stage).bank.used = f.cursor d.bankSize (d.bank d.active).used) := by
  have bound := (cloned_bound wf).2
  have spec := exact_ d.cloned.mem (d.cloned.bank d.inactive) (cloned_arena_wf wf) (Nat.ne_of_gt bound)
  rw [cloned_bank_inactive] at spec
  unfold Hdr.staged
  rw [cloned_bank_inactive]
  exact spec

theorem apply_accepted_iff {stage : Mem → Bank → Staged} (staged : f.stage? = some stage) :
    (ffnMpdpApply f d).2 = .ok ↔
      f.Parses ∧ (Arena.place d.bankSize (d.bank d.active).used f.required).isSome := by
  obtain ⟨_, run⟩ := apply_staged staged
  rw [run d, applyStaged_eq, ← (staged_exact wf f (stage_exact staged)).1]
  split
  · rename_i ok
    exact ⟨fun _ => ok, fun _ => rfl⟩
  · rename_i failed
    exact ⟨fun ok => absurd ok failed, fun ok => absurd ok failed⟩

theorem apply_cursor (ok : (ffnMpdpApply f d).2 = .ok) :
    (ffnMpdpApply f d).1.bankSize = d.bankSize ∧
      ((ffnMpdpApply f d).1.bank (ffnMpdpApply f d).1.active).used = f.cursor d.bankSize (d.bank d.active).used := by
  cases staged : f.stage? with
  | some stage =>
    obtain ⟨_, run⟩ := apply_staged staged
    rw [run d, applyStaged_eq] at ok ⊢
    split at ok
    · rename_i done
      rw [if_pos done]
      refine ⟨rfl, ?_⟩
      rw [published_active, published_bank]
      exact (staged_exact wf f (stage_exact staged)).2 done
    · rename_i failed
      exact absurd ok failed
  | none =>
    have idle : f.cursor d.bankSize (d.bank d.active).used = (d.bank d.active).used := by
      unfold Frame.stage? at staged
      split at staged
      · cases staged
      · cases staged
      · cases staged
      · simp_all [Frame.cursor, Frame.required, Frame.optional, Arena.place]
    rw [idle]
    rcases apply_unstaged staged d with ⟨sv, run⟩ | ⟨_, failed⟩
    · rw [run]
      refine ⟨rfl, ?_⟩
      rw [show (applySigVerdict sv d, MpdpRc.ok).1.active = d.active from rfl, applySigVerdict_bank]
    · exact absurd ok failed

end frames

def AllAccepted (d : Region) : List Frame → Prop
  | [] => True
  | f :: frames => (ffnMpdpApply f d.val).2 = .ok ∧ AllAccepted (d.apply f) frames

theorem run_cursor {d : Region} {history : List Frame} (accepted : AllAccepted d history) :
    (d.run history).val.bankSize = d.val.bankSize ∧
      ((d.run history).val.bank (d.run history).val.active).used =
        history.foldl (Frame.cursor d.val.bankSize) (d.val.bank d.val.active).used := by
  induction history generalizing d with
  | nil => exact ⟨rfl, rfl⟩
  | cons f history ih =>
    obtain ⟨first, rest⟩ := accepted
    obtain ⟨size, used⟩ := apply_cursor d.property f first
    obtain ⟨sizeRun, usedRun⟩ := ih rest
    rw [show (d.apply f).val = (ffnMpdpApply f d.val).1 from rfl] at sizeRun usedRun
    refine ⟨sizeRun.trans size, ?_⟩
    rw [size, used] at usedRun
    exact usedRun

theorem bankPut_eq {d : Hdr} (wf : d.Wf) (i : Bool) (s : Model) :
    if Arena.roundUp (d.bank i).used + (sizeofTlv + s.src.length) ≤ d.bankSize then
      ∃ d', d.bankPut i s = some d' ∧ d'.Wf ∧ d'.bankSize = d.bankSize ∧ d'.active = d.active ∧
        (d'.bank i).used = Arena.roundUp (d.bank i).used + (sizeofTlv + s.src.length)
    else d.bankPut i s = none := by
  have small := wf.bankSize_lt
  have inside := wf.used i
  have short := s.short
  have noWrap : (Arena.roundUp (d.bank i).used + (sizeofTlv + s.src.length)) % 2 ^ 64 =
      Arena.roundUp (d.bank i).used + (sizeofTlv + s.src.length) := Nat.mod_eq_of_lt (by
    unfold Arena.roundUp sizeofTlv
    unfold Arena.maxBlock at short
    omega)
  unfold Hdr.bankPut
  dsimp only
  rw [Arena.alignUp_eq_roundUp (by omega), noWrap]
  split
  · rename_i fits
    rw [if_neg (by omega)]
    refine ⟨_, rfl, ?_, rfl, rfl, ?_⟩
    · have kept := setBank_wf (i := i) (b := { d.bank i with
        slot := Function.update (d.bank i).slot s.type ⟨s.type.code, slotPresent,
          d.bankOff i + Arena.roundUp (d.bank i).used + sizeofTlv, s.src.length, s.version, s.crc32⟩
        used := Arena.roundUp (d.bank i).used + (sizeofTlv + s.src.length)
        modelCount := (d.bank i).modelCount + 1 }) wf fits
      exact ⟨kept.placed, kept.order, kept.mapped, kept.used, kept.numbered⟩
    · exact congrArg (fun b : Bank => b.used) (Function.update_self i _ d.bank)
  · rename_i full
    rw [if_pos (by omega)]

theorem seed_spec {d : Hdr} (wf : d.Wf) (models : List Model) (sizes : ModelType → Nat) :
    (seed d models).Wf ∧ (seed d models).bankSize = d.bankSize ∧ (seed d models).active = d.active ∧
      ((seed d models).bank false).used =
        (models.foldl (seedModel d.bankSize) ((d.bank false).used, sizes)).1 := by
  induction models generalizing d sizes with
  | nil => exact ⟨wf, rfl, rfl, rfl⟩
  | cons s models ih =>
    have put := bankPut_eq wf false s
    rw [show seed d (s :: models) = seed ((d.bankPut false s).getD d) models from rfl, List.foldl_cons, seedModel]
    dsimp only
    split at put
    · rename_i fits
      obtain ⟨d', found, wf', size, active, used⟩ := put
      rw [found, if_pos fits, Option.getD_some, ← used, ← size, ← active]
      exact ih wf' _
    · rename_i full
      rw [put, if_neg full, Option.getD_none]
      exact ih wf _

def Boot.region (b : Boot) : Region :=
  ⟨b.hdr, (seed_spec (reserve_wf b.mem b.placed b.mapped) b.models fun _ => 0).1⟩

theorem boot_cursor (b : Boot) : b.region.val.bankSize = b.bankSize ∧
    (b.region.val.bank b.region.val.active).used = b.seeded.1 := by
  obtain ⟨_, size, active, used⟩ := seed_spec (reserve_wf b.mem b.placed b.mapped) b.models fun _ => 0
  have live : b.region.val.active = false := active.trans (show bankIx 0 = false by decide)
  rw [live]
  exact ⟨size, used⟩

/-- The update is accepted if the payloads that are live after it fit in the arena. -/
def AcceptedWhenLiveFits (b : Boot) (history : List Frame) (f : Frame) : Prop :=
  (b.live (history ++ [f])).total ≤ b.bankSize → (ffnMpdpApply f (b.region.run history).val).2 = .ok

/-- Superseded payloads count: what decides is the room above everything that was
ever allocated. -/
theorem accepted_when_live_fits_iff (b : Boot) (history : List Frame) (accepted : AllAccepted b.region history)
    (f : Frame) (update : f.stage?.isSome) :
    AcceptedWhenLiveFits b history f ↔
      ((b.live (history ++ [f])).total ≤ b.bankSize →
        f.Parses ∧ (Arena.place b.bankSize (b.cursor history) f.required).isSome) := by
  obtain ⟨stage, staged⟩ := Option.isSome_iff_exists.mp update
  obtain ⟨size, used⟩ := run_cursor accepted
  obtain ⟨bootSize, bootUsed⟩ := boot_cursor b
  have exactly := apply_accepted_iff (b.region.run history).property f staged
  rw [size, used, bootSize, bootUsed] at exactly
  unfold AcceptedWhenLiveFits
  rw [exactly]
  rfl

def tinyBoot : Boot := ⟨4096, 128, fun _ => 0, [], by decide, lines_mapped⟩

def twoLines : Frame :=
  .message .mp2dp (some (.mlModelUpdate ⟨1, 0, some ⟨1, List.replicate 65 0, one_present, by decide⟩, none, 0⟩))

theorem twoLines_accepted : AllAccepted tinyBoot.region [twoLines] := by
  refine ⟨?_, trivial⟩
  decide +kernel

/-- The second model fits in the arena by itself, but the first one still takes the
room. -/
theorem twoLines_not_acceptedWhenLiveFits :
    AllAccepted tinyBoot.region [twoLines] ∧ twoLines.stage?.isSome ∧
      ¬AcceptedWhenLiveFits tinyBoot [twoLines] twoLines := by
  refine ⟨twoLines_accepted, rfl, fun accepted => ?_⟩
  have rejected : (ffnMpdpApply twoLines (tinyBoot.region.run [twoLines]).val).2 = .enomem := by decide +kernel
  rw [accepted (by decide)] at rejected
  cases rejected

theorem twoLines_accepted_iff :
    AllAccepted tinyBoot.region [twoLines] ∧ twoLines.stage?.isSome ∧
      (AcceptedWhenLiveFits tinyBoot [twoLines] twoLines ↔
        ((tinyBoot.live ([twoLines] ++ [twoLines])).total ≤ tinyBoot.bankSize →
          twoLines.Parses ∧ (Arena.place tinyBoot.bankSize (tinyBoot.cursor [twoLines]) twoLines.required).isSome)) :=
  ⟨twoLines_accepted, rfl, accepted_when_live_fits_iff tinyBoot [twoLines] twoLines_accepted twoLines rfl⟩

end FfnNgfw.Dpmem
