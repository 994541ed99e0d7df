import FfnNgfw.Dpmem.Staging

/-!
# Rejected frames

A frame that `ffn_mpdp_apply` rejects leaves the active bank as it was: its record,
the bytes of its arena, and the number that makes it active. Accepted or not, a
frame keeps the layout of the region.
-/

namespace FfnNgfw.Dpmem
open Mem Portable

/-! ### The patched clone -/

theorem setBank_wf {d : Hdr} (wf : d.Wf) {i : Bool} {b : Bank} (used : b.used ≤ d.bankSize) : (d.setBank i b).Wf := by
  refine ⟨wf.placed, wf.order, wf.mapped, fun j => ?_, wf.numbered⟩
  unfold Hdr.setBank
  dsimp only
  by_cases same : j = i
  · rw [same, Function.update_self]
    exact used
  · rw [Function.update_of_ne same]
    exact wf.used j

theorem publish_wf {d : Hdr} (wf : d.Wf) (i : Bool) : (d.publish i).Wf := by
  have kept := setBank_wf (i := i) (b := { d.bank i with
    seq := if (d.bank i).seq &&& 1 ≠ 0 then (d.bank i).seq + 1 else (d.bank i).seq }) wf (wf.used i)
  refine ⟨kept.placed, kept.order, kept.mapped, kept.used, ?_⟩
  exact congrArg bankNum (bankIx_bankNum i).symm

section patched

variable (d : Hdr) (stage : Mem → Bank → Staged)

def Hdr.staged : Staged := stage d.cloned.mem (d.cloned.bank d.inactive)

def Hdr.prepared : Hdr := d.cloned.patched (d.staged stage)

def Hdr.published : Hdr := (d.prepared stage).publish d.inactive

theorem applyStaged_eq : applyStaged stage d =
    if (d.staged stage).rc = .ok then (d.published stage, .ok) else (d.prepared stage, (d.staged stage).rc) := rfl

theorem prepared_bank_active : (d.prepared stage).bank d.active = d.bank d.active := by
  have ne := (inactive_ne_active d).symm
  have kept : (d.prepared stage).bank d.active = d.cloned.bank d.active := Function.update_of_ne ne _ _
  rw [kept, cloned_bank_active]

theorem prepared_bank_inactive : (d.prepared stage).bank d.inactive = (d.staged stage).bank :=
  Function.update_self _ _ _

theorem published_mem : (d.published stage).mem = (d.prepared stage).mem := rfl

theorem published_arena (i : Bool) : (d.published stage).arena i = d.arena i := rfl

theorem published_active : (d.published stage).active = d.inactive := bankIx_bankNum d.inactive

theorem published_bank : (d.published stage).bank d.inactive = { (d.staged stage).bank with
    seq := if (d.staged stage).bank.seq &&& 1 ≠ 0 then (d.staged stage).bank.seq + 1 else (d.staged stage).bank.seq } := by
  have record : (d.published stage).bank d.inactive = { (d.prepared stage).bank d.inactive with
      seq := if ((d.prepared stage).bank d.inactive).seq &&& 1 ≠ 0 then ((d.prepared stage).bank d.inactive).seq + 1
        else ((d.prepared stage).bank d.inactive).seq } := Function.update_self _ _ _
  rw [record, prepared_bank_inactive]

variable {d stage} (appends : Appends stage) (wf : d.Wf)
include appends wf

theorem staged_grows :
    Arena.Grows (d.arena d.inactive + (d.bank d.active).used) d.cloned.mem (d.cloned.bank d.inactive).toArena
      (d.staged stage).mem (d.staged stage).bank.toArena := by
  have grows := appends d.cloned.mem (d.cloned.bank d.inactive) (cloned_arena_wf wf)
  have same : (d.cloned.bank d.inactive).base + (d.cloned.bank d.inactive).used =
      d.arena d.inactive + (d.bank d.active).used := by
    rw [cloned_bank_inactive]
    rfl
  rw [same] at grows
  exact grows

theorem staged_used : (d.bank d.active).used ≤ (d.staged stage).bank.used ∧
    (d.staged stage).bank.used ≤ d.bankSize ∧ (d.staged stage).bank.base = d.arena d.inactive := by
  obtain ⟨base, size, used, fits, _⟩ := staged_grows appends wf
  rw [cloned_bank_inactive] at base size used
  exact ⟨used, by rw [size] at fits; exact fits, base⟩

theorem prepared_mem_frame {a : Nat} (outside : a < d.arena d.inactive ∨ d.arena d.inactive + d.bankSize ≤ a) :
    (d.prepared stage).mem a = d.mem a := by
  have grows := staged_grows appends wf
  have used := wf.used d.active
  have frame := grows.frame a
  rw [cloned_bank_inactive] at frame
  have kept : (d.prepared stage).mem a = d.cloned.mem a := frame (by
    rcases outside with left | right
    · exact Or.inl (by omega)
    · exact Or.inr right)
  rw [kept, cloned_mem_frame wf outside]

theorem prepared_mem_copy {o : Nat} (below : o < (d.bank d.active).used) :
    (d.prepared stage).mem (d.arena d.inactive + o) = d.mem (d.arena d.active + o) := by
  have grows := staged_grows appends wf
  have kept : (d.prepared stage).mem (d.arena d.inactive + o) = d.cloned.mem (d.arena d.inactive + o) :=
    grows.frame _ (Or.inl (by omega))
  rw [kept, cloned_mem_copy d below]

theorem prepared_wf : (d.prepared stage).Wf := by
  obtain ⟨_, fits, _⟩ := staged_used appends wf
  have kept := setBank_wf (i := d.inactive) (b := (d.staged stage).bank) (cloned_wf wf) fits
  exact ⟨kept.placed, kept.order, kept.mapped, kept.used, kept.numbered⟩

end patched

theorem applyStaged_wf {d : Hdr} {stage : Mem → Bank → Staged} (appends : Appends stage) (wf : d.Wf) :
    (applyStaged stage d).1.Wf := by
  rw [applyStaged_eq]
  split
  · exact publish_wf (prepared_wf appends wf) d.inactive
  · exact prepared_wf appends wf

/-! ### Frames -/

theorem applySigVerdict_bank (sv : SignatureVerdict) (d : Hdr) :
    (applySigVerdict sv d).bank d.active = { d.bank d.active with
      hotSid := sv.sid
      hotVerdict := sv.verdict
      hotTs := sv.ts
      hotSha := hotShaOf (vecBytes sv.sha256) } := Function.update_self _ _ _

theorem apply_staged {f : Frame} {stage : Mem → Bank → Staged} (staged : f.stage? = some stage) :
    Appends stage ∧ ∀ d, ffnMpdpApply f d = applyStaged stage d := by
  unfold Frame.stage? at staged
  split at staged
  · cases staged
    exact ⟨stageMl_appends _, fun _ => rfl⟩
  · cases staged
    exact ⟨stageThreatintel_appends _, fun _ => rfl⟩
  · cases staged
    exact ⟨stagePolicy_appends _, fun _ => rfl⟩
  · cases staged

theorem apply_unstaged {f : Frame} (unstaged : f.stage? = none) (d : Hdr) :
    (∃ sv, ffnMpdpApply f d = (applySigVerdict sv d, .ok)) ∨
    ((ffnMpdpApply f d).1 = d ∧ (ffnMpdpApply f d).2 ≠ .ok) := by
  cases f with
  | null => exact Or.inr ⟨rfl, MpdpRc.noConfusion⟩
  | unverified => exact Or.inr ⟨rfl, MpdpRc.noConfusion⟩
  | message dir body =>
    cases dir with
    | dp2mp => exact Or.inr ⟨rfl, MpdpRc.noConfusion⟩
    | mp2dp =>
      cases body with
      | none => exact Or.inr ⟨rfl, MpdpRc.noConfusion⟩
      | some body =>
        cases body with
        | mlModelUpdate u => cases unstaged
        | threatIntelUpdate ti => cases unstaged
        | policyUpdate pu => cases unstaged
        | signatureVerdict sv => exact Or.inl ⟨sv, rfl⟩
        | other => exact Or.inr ⟨rfl, MpdpRc.noConfusion⟩

theorem apply_cases (f : Frame) (d : Hdr) :
    (∃ stage, Appends stage ∧ ffnMpdpApply f d = applyStaged stage d) ∨
    (∃ sv, ffnMpdpApply f d = (applySigVerdict sv d, .ok)) ∨
    ((ffnMpdpApply f d).1 = d ∧ (ffnMpdpApply f d).2 ≠ .ok) := by
  cases staged : f.stage? with
  | some stage =>
    obtain ⟨appends, run⟩ := apply_staged staged
    exact Or.inl ⟨stage, appends, run d⟩
  | none => exact Or.inr (apply_unstaged staged d)

theorem apply_wf (f : Frame) {d : Hdr} (wf : d.Wf) : (ffnMpdpApply f d).1.Wf := by
  rcases apply_cases f d with ⟨stage, appends, run⟩ | ⟨sv, run⟩ | ⟨same, _⟩
  · rw [run]
    exact applyStaged_wf appends wf
  · rw [run]
    exact setBank_wf wf (wf.used d.active)
  · rw [same]
    exact wf

def Region.apply (d : Region) (f : Frame) : Region := ⟨(ffnMpdpApply f d.val).1, apply_wf f d.property⟩

def Region.run (d : Region) (frames : List Frame) : Region := frames.foldl Region.apply d

/-- The number, the record and the arena of the active bank are as they were. -/
structure LiveUnchanged (d d' : Hdr) : Prop where
  number : d'.activeBank = d.activeBank
  record : d'.bank d.active = d.bank d.active
  arena : ∀ o < d.bankSize, d'.mem (d.arena d.active + o) = d.mem (d.arena d.active + o)

theorem prepared_live {d : Hdr} {stage : Mem → Bank → Staged} (appends : Appends stage) (wf : d.Wf) :
    LiveUnchanged d (d.prepared stage) := by
  refine ⟨rfl, prepared_bank_active d stage, fun o inside => prepared_mem_frame appends wf ?_⟩
  have apart := wf.apart d.active
  rw [show (!d.active) = d.inactive from rfl] at apart
  omega

theorem rejected_live_unchanged (d : Region) (f : Frame) (rejected : (ffnMpdpApply f d.val).2.code < 0) :
    LiveUnchanged d.val (ffnMpdpApply f d.val).1 := by
  have failed : (ffnMpdpApply f d.val).2 ≠ .ok := by
    intro ok
    rw [ok] at rejected
    exact absurd rejected (by decide)
  rcases apply_cases f d.val with ⟨stage, appends, run⟩ | ⟨sv, run⟩ | ⟨same, _⟩
  · rw [run, applyStaged_eq] at failed ⊢
    split
    · rename_i ok
      rw [if_pos ok] at failed
      exact absurd rfl failed
    · exact prepared_live appends d.property
  · rw [run] at failed
    exact absurd rfl failed
  · rw [same]
    exact ⟨rfl, rfl, fun _ _ => rfl⟩

def smallRegion : Region := ⟨dpmemReserve 4096 1024 (fun _ => 0), reserve_wf _ (by decide) (by decide)⟩

def badRow : WirePolicyRow := ⟨0, 0, some ⟨1, [0x78], one_present, by decide, by decide⟩, 0, none, 0, 0⟩

/-- The second of two rows is malformed: the first has been written by then. -/
def badPush : Frame :=
  .message .mp2dp (some (.policyUpdate ⟨1, [{ badRow with srcIp := none }, badRow], by decide⟩))

theorem badPush_live_unchanged :
    (ffnMpdpApply badPush smallRegion.val).2.code < 0 ∧
      LiveUnchanged smallRegion.val (ffnMpdpApply badPush smallRegion.val).1 := by
  have rejected : (ffnMpdpApply badPush smallRegion.val).2.code < 0 := by decide
  exact ⟨rejected, rejected_live_unchanged smallRegion badPush rejected⟩

end FfnNgfw.Dpmem
