import FfnNgfw.Dpmem.Exhaustion
import FfnNgfw.Dpmem.ThreatIntel

/-!
# The write marker

`seq` of a bank is bumped by every clone, and rounded up to an even number by the
publication: an odd number marks a bank that is being written. An update that is
refused leaves the number odd, so that the next clone makes it even again while the
bank is written.
-/

namespace FfnNgfw.Dpmem
open Mem Portable

/-! ### Moments of a run -/

/-- The region at one moment. `writing` says that the inactive bank has been cloned and
not published since. -/
structure Moment where
  hdr : Hdr
  writing : Bool

def Bank.Stable (b : Bank) : Prop := b.seq &&& 1 = 0

instance (b : Bank) : Decidable b.Stable := inferInstanceAs (Decidable (_ = _))

structure Moment.Marked (s : Moment) : Prop where
  live : (s.hdr.bank s.hdr.active).Stable
  written : s.writing = true → ¬(s.hdr.bank s.hdr.inactive).Stable

def Moment.during (s : Moment) (f : Frame) : List Moment :=
  match f.stage? with
  | some stage => [⟨s.hdr.cloned, true⟩, ⟨s.hdr.prepared stage, true⟩]
  | none => []

def Moment.next (s : Moment) (f : Frame) : Moment where
  hdr := (ffnMpdpApply f s.hdr).1
  writing := if f.stage?.isSome then (ffnMpdpApply f s.hdr).2 ≠ .ok else s.writing

def moments (s : Moment) : List Frame → List Moment
  | [] => [s]
  | f :: frames => s :: s.during f ++ moments (s.next f) frames

theorem stable_succ (n : UInt32) : (n + 1) &&& 1 = 0 ↔ ¬n &&& 1 = 0 := by
  have low (k : UInt32) : k &&& 1 = 0 ↔ k.toNat % 2 = 0 := by
    rw [← UInt32.toNat_inj, UInt32.toNat_and]
    show k.toNat &&& 1 = 0 ↔ _
    rw [Nat.and_one_is_mod]
  rw [low, low, UInt32.toNat_add]
  show (n.toNat + 1) % 2 ^ 32 % 2 = 0 ↔ _
  omega

theorem stable_rounded (n : UInt32) : (if n &&& 1 ≠ 0 then n + 1 else n) &&& 1 = 0 := by
  split
  · rename_i dirty
    exact (stable_succ n).mpr dirty
  · rename_i stable
    exact Decidable.not_not.mp stable

/-! ### What a stage and a clone do to the number -/

def KeepsSeq (stage : Mem → Bank → Staged) : Prop := ∀ m b, (stage m b).bank.seq = b.seq

theorem stageMl_keepsSeq (u : MlModelUpdate) : KeepsSeq (stageMl u) := by
  intro m b
  obtain ⟨r₁, first⟩ := dupVec_bank m b u.treeBlob
  obtain ⟨r₂, second⟩ := dupVec_bank (dupVec m b u.treeBlob).2.1 (dupVec m b u.treeBlob).2.2.1 u.ngramParams
  unfold stageMl
  dsimp only
  split
  · rw [second, first]
  · dsimp only
    rw [second, first]

theorem stagePolicy_keepsSeq (pu : PolicyUpdate) : KeepsSeq (stagePolicy pu) := by
  intro m b
  unfold stagePolicy
  dsimp only
  split
  · rfl
  · cases found : b.arenaAlloc (pu.rows.length * sizeofEnt) with
    | none => rfl
    | some out =>
      obtain ⟨r, _, same⟩ := arenaAlloc_some found
      dsimp only
      rw [same]
      split
      · rfl
      · rfl

theorem allocRows_seq {b b' : Bank} {n size p : Nat} (h : allocRows b n size = some (p, b')) : b'.seq = b.seq := by
  unfold allocRows at h
  split at h
  · cases h
    rfl
  · obtain ⟨r, _, rfl⟩ := arenaAlloc_some h
    rfl

theorem stageThreatintel_keepsSeq (ti : ThreatIntelUpdate) : KeepsSeq (stageThreatintel ti) := by
  intro m b
  unfold stageThreatintel stageThreatintelFits
  cases addsAt : allocRows b ti.adds.length sizeofSig with
  | none => rfl
  | some out₁ =>
    obtain ⟨adds, b₁⟩ := out₁
    have seq₁ := allocRows_seq addsAt
    dsimp only
    cases iocsAt : allocRows b₁ ti.iocs.length sizeofIoc with
    | none => exact seq₁
    | some out₂ =>
      obtain ⟨iocs, b₂⟩ := out₂
      have seq₂ := allocRows_seq iocsAt
      dsimp only
      cases removesAt : allocRows b₂ ti.removes.length 4 with
      | none => exact seq₂.trans seq₁
      | some out₃ =>
        obtain ⟨removes, b₃⟩ := out₃
        have seq₃ := allocRows_seq removesAt
        exact seq₃.trans (seq₂.trans seq₁)

theorem stage_keepsSeq {f : Frame} {stage : Mem → Bank → Staged} (staged : f.stage? = some stage) : KeepsSeq stage := by
  unfold Frame.stage? at staged
  split at staged
  · cases staged
    exact stageMl_keepsSeq _
  · cases staged
    exact stageThreatintel_keepsSeq _
  · cases staged
    exact stagePolicy_keepsSeq _
  · cases staged

section stages

variable (d : Hdr) {stage : Mem → Bank → Staged} (keeps : KeepsSeq stage)

theorem cloned_seq : (d.cloned.bank d.inactive).seq = (d.bank d.inactive).seq + 1 := by
  rw [cloned_bank_inactive]
  rfl

include keeps

theorem staged_seq : (d.staged stage).bank.seq = (d.bank d.inactive).seq + 1 :=
  (keeps d.cloned.mem (d.cloned.bank d.inactive)).trans (cloned_seq d)

theorem prepared_seq : ((d.prepared stage).bank d.inactive).seq = (d.bank d.inactive).seq + 1 := by
  rw [prepared_bank_inactive]
  exact staged_seq d keeps

end stages

/-- The marker says exactly whether the inactive bank is being written. -/
structure Moment.Settled (s : Moment) : Prop where
  live : (s.hdr.bank s.hdr.active).Stable
  exact_ : s.writing = true ↔ ¬(s.hdr.bank s.hdr.inactive).Stable

theorem Moment.Settled.marked {s : Moment} (h : s.Settled) : s.Marked := ⟨h.live, h.exact_.mp⟩

section step

variable {s : Moment} {f : Frame} (settled : s.Settled)
include settled

theorem settled_unstaged (unstaged : f.stage? = none) : (s.next f).Settled ∧ (s.next f).writing = s.writing := by
  have writing : (s.next f).writing = s.writing := by
    unfold Moment.next
    rw [unstaged]
    rfl
  refine ⟨?_, writing⟩
  rcases apply_unstaged unstaged s.hdr with ⟨sv, run⟩ | ⟨same, _⟩
  · have hdr : (s.next f).hdr = applySigVerdict sv s.hdr := congrArg Prod.fst run
    have active : (applySigVerdict sv s.hdr).active = s.hdr.active := rfl
    have inactive : (applySigVerdict sv s.hdr).inactive = s.hdr.inactive := rfl
    have other : (applySigVerdict sv s.hdr).bank s.hdr.inactive = s.hdr.bank s.hdr.inactive :=
      Function.update_of_ne (inactive_ne_active s.hdr) _ _
    constructor
    · rw [hdr, active, applySigVerdict_bank]
      exact settled.live
    · rw [writing, hdr, inactive, other]
      exact settled.exact_
  · have hdr : (s.next f).hdr = s.hdr := same
    constructor
    · rw [hdr]
      exact settled.live
    · rw [writing, hdr]
      exact settled.exact_

variable {stage : Mem → Bank → Staged} (staged : f.stage? = some stage)

theorem cloned_unmarked (writing : s.writing = true) : ¬(⟨s.hdr.cloned, true⟩ : Moment).Marked := by
  intro marked
  have odd := settled.exact_.mp writing
  refine marked.written rfl ?_
  show (s.hdr.cloned.bank s.hdr.inactive).seq &&& 1 = 0
  rw [cloned_seq]
  exact (stable_succ _).mpr odd

variable (idle : s.writing = false)
include idle

theorem bumped_dirty : ¬((s.hdr.bank s.hdr.inactive).seq + 1) &&& 1 = 0 := by
  intro even
  have odd := (stable_succ _).mp even
  have writing := settled.exact_.mpr odd
  rw [idle] at writing
  cases writing

include staged

theorem during_marked : ∀ t ∈ s.during f, t.Marked := by
  have keeps := stage_keepsSeq staged
  have dirty := bumped_dirty settled idle
  intro t member
  unfold Moment.during at member
  rw [staged] at member
  dsimp only at member
  rw [List.mem_cons, List.mem_singleton] at member
  rcases member with rfl | rfl
  · refine ⟨?_, fun _ => ?_⟩
    · show (s.hdr.cloned.bank s.hdr.active).Stable
      rw [cloned_bank_active]
      exact settled.live
    · show ¬(s.hdr.cloned.bank s.hdr.inactive).seq &&& 1 = 0
      rw [cloned_seq]
      exact dirty
  · refine ⟨?_, fun _ => ?_⟩
    · show ((s.hdr.prepared stage).bank s.hdr.active).Stable
      rw [prepared_bank_active]
      exact settled.live
    · show ¬((s.hdr.prepared stage).bank s.hdr.inactive).seq &&& 1 = 0
      rw [prepared_seq s.hdr keeps]
      exact dirty

theorem settled_staged : (s.next f).Settled := by
  have keeps := stage_keepsSeq staged
  have dirty := bumped_dirty settled idle
  obtain ⟨_, run⟩ := apply_staged staged
  have spec := run s.hdr
  rw [applyStaged_eq] at spec
  by_cases ok : (s.hdr.staged stage).rc = .ok
  · rw [if_pos ok] at spec
    have hdr : (s.next f).hdr = s.hdr.published stage := congrArg Prod.fst spec
    have writing : (s.next f).writing = false := by
      simp only [Moment.next, staged, spec, Option.isSome_some, if_pos, ne_eq, not_true_eq_false, decide_false]
    have active := published_active s.hdr stage
    have inactive : (s.hdr.published stage).inactive = s.hdr.active := by
      rw [Hdr.inactive, active, Hdr.inactive, Bool.not_not]
    have other : (s.hdr.published stage).bank s.hdr.active = (s.hdr.prepared stage).bank s.hdr.active :=
      Function.update_of_ne (inactive_ne_active s.hdr).symm _ _
    constructor
    · rw [hdr, active, published_bank]
      exact stable_rounded _
    · rw [writing, hdr, inactive, other, prepared_bank_active]
      exact ⟨nofun, fun odd => absurd settled.live odd⟩
  · rw [if_neg ok] at spec
    have hdr : (s.next f).hdr = s.hdr.prepared stage := congrArg Prod.fst spec
    have writing : (s.next f).writing = true := by
      simp only [Moment.next, staged, spec, Option.isSome_some, if_pos, ne_eq, ok, not_false_eq_true, decide_true]
    have active : (s.hdr.prepared stage).active = s.hdr.active := rfl
    have inactive : (s.hdr.prepared stage).inactive = s.hdr.inactive := rfl
    constructor
    · rw [hdr, active, prepared_bank_active]
      exact settled.live
    · rw [writing, hdr, inactive]
      refine ⟨fun _ => ?_, fun _ => rfl⟩
      show ¬((s.hdr.prepared stage).bank s.hdr.inactive).seq &&& 1 = 0
      rw [prepared_seq s.hdr keeps]
      exact dirty

end step

/-! ### Runs -/

/-- What the update requires fits above the cursor, and its addresses parse. -/
def Hdr.Accepts (d : Hdr) (f : Frame) : Prop :=
  f.Parses ∧ (Arena.place d.bankSize (d.bank d.active).used f.required).isSome

def NoRetry (d : Region) : List Frame → Prop
  | [] => True
  | f :: frames => (f.stage?.isSome → d.val.Accepts f ∨ ∀ g ∈ frames, g.stage? = none) ∧ NoRetry (d.apply f) frames

section runs

variable {d : Region} {s : Moment} (here : s.hdr = d.val)
include here

theorem next_hdr (f : Frame) : (s.next f).hdr = (d.apply f).val := by
  show (ffnMpdpApply f s.hdr).1 = (ffnMpdpApply f d.val).1
  rw [here]

theorem next_writing_iff {f : Frame} {stage : Mem → Bank → Staged} (staged : f.stage? = some stage) :
    (s.next f).writing = true ↔ ¬d.val.Accepts f := by
  have accepted := apply_accepted_iff d.property f staged
  unfold Hdr.Accepts
  rw [← accepted]
  simp only [Moment.next, here, staged, Option.isSome_some, if_pos, ne_eq, decide_eq_true_eq]

theorem moments_marked_iff (settled : s.Settled) (frames : List Frame) :
    (∀ t ∈ moments s frames, t.Marked) ↔ (s.writing = true → ∀ g ∈ frames, g.stage? = none) ∧ NoRetry d frames := by
  induction frames generalizing d s with
  | nil =>
    refine ⟨fun _ => ⟨fun _ g member => ?_, trivial⟩, fun _ t member => ?_⟩
    · cases member
    · rw [List.mem_singleton.mp member]
      exact settled.marked
  | cons f frames ih =>
    have parts : (∀ t ∈ moments s (f :: frames), t.Marked) ↔
        (∀ t ∈ s.during f, t.Marked) ∧ ∀ t ∈ moments (s.next f) frames, t.Marked := by
      rw [moments, List.cons_append, List.forall_mem_cons, List.forall_mem_append]
      exact and_iff_right settled.marked
    rw [parts, NoRetry]
    cases staged : f.stage? with
    | none =>
      obtain ⟨settled', same⟩ := settled_unstaged settled staged
      have rest := ih (next_hdr here f) settled'
      have idle : s.during f = [] := by
        unfold Moment.during
        rw [staged]
      rw [same] at rest
      rw [idle, rest, List.forall_mem_cons]
      refine ⟨fun all => ⟨fun writing => ⟨staged, all.2.1 writing⟩, nofun, all.2.2⟩, fun all => ⟨?_, ?_, all.2.2⟩⟩
      · intro t member
        cases member
      · intro writing
        exact (all.1 writing).2
    | some stage =>
      by_cases writing : s.writing = true
      · refine ⟨fun all => ?_, fun all => ?_⟩
        · have cloned : ⟨s.hdr.cloned, true⟩ ∈ s.during f := by
            unfold Moment.during
            rw [staged]
            exact List.mem_cons_self
          exact absurd (all.1 _ cloned) (cloned_unmarked settled writing)
        · have unstaged := all.1 writing f List.mem_cons_self
          rw [staged] at unstaged
          cases unstaged
      · have idle := Bool.eq_false_iff.mpr writing
        have rest := ih (next_hdr here f) (settled_staged settled staged idle)
        rw [next_writing_iff here staged] at rest
        rw [rest]
        refine ⟨fun all => ⟨fun now => absurd now writing, fun _ => ?_, all.2.2⟩, fun all => ⟨?_, ?_, all.2.2⟩⟩
        · by_cases accepts : d.val.Accepts f
          · exact Or.inl accepts
          · exact Or.inr (all.2.1 accepts)
        · exact during_marked settled staged idle
        · intro refused
          exact (all.2.1 rfl).resolve_left refused

end runs

theorem bankPut_seq {d d' : Hdr} {i : Bool} {s : Model} (h : d.bankPut i s = some d') (j : Bool) :
    (d'.bank j).seq = (d.bank j).seq := by
  unfold Hdr.bankPut at h
  dsimp only at h
  split at h
  · cases h
  · cases h
    unfold Hdr.setBank
    dsimp only
    by_cases same : j = i
    · rw [same, Function.update_self]
    · rw [Function.update_of_ne same]

theorem seed_seq (d : Hdr) (models : List Model) (j : Bool) : ((seed d models).bank j).seq = (d.bank j).seq := by
  induction models generalizing d with
  | nil => rfl
  | cons s models ih =>
    rw [show seed d (s :: models) = seed ((d.bankPut false s).getD d) models from rfl, ih]
    cases put : d.bankPut false s with
    | none => rfl
    | some d' => exact bankPut_seq put j

def Boot.start (b : Boot) : Moment := ⟨b.region.val, false⟩

theorem boot_settled (b : Boot) : b.start.Settled := by
  have zero (j : Bool) : (b.region.val.bank j).seq = 0 := seed_seq _ _ j
  constructor
  · show (b.region.val.bank b.region.val.active).seq &&& 1 = 0
    rw [zero]
    rfl
  · refine ⟨nofun, fun odd => absurd ?_ odd⟩
    show (b.region.val.bank b.region.val.inactive).seq &&& 1 = 0
    rw [zero]
    rfl

/-- The marker is right at every moment of a run exactly when no update follows one
that is refused. -/
theorem write_marker_iff (b : Boot) (frames : List Frame) :
    (∀ s ∈ moments b.start frames, s.Marked) ↔ NoRetry b.region frames := by
  have all := moments_marked_iff (d := b.region) (s := b.start) rfl (boot_settled b) frames
  rw [all]
  exact and_iff_right nofun

/-- Two pushes with a malformed address: the second clone makes the number of the bank
even while it is written. -/
theorem second_push_unmarked : ¬∀ s ∈ moments tinyBoot.start [badPush, badPush], s.Marked := by
  intro all
  have second := all ⟨((ffnMpdpApply badPush tinyBoot.region.val).1).cloned, true⟩ ?_
  · refine second.written rfl ?_
    decide +kernel
  · exact List.mem_of_getElem? (i := 4) rfl

end FfnNgfw.Dpmem
