import FfnNgfw.Dpmem.Rejected
import FfnNgfw.Fastpath.Classify

/-!
# Policy pushes

A policy update replaces the whole row array of the bank. The rows of other virtual
systems, which the push of one rulebase should leave in place, are gone with it.
-/

namespace FfnNgfw.Dpmem
open Mem Portable Fastpath

theorem fpPolicyEntAt_of_at {m : Mem} {row : Nat} {e : PolicyRow} (h : At m row (entBytes e)) :
    fpPolicyEntAt m row = e := by
  unfold entBytes at h
  simp only [at_append, List.length_append] at h
  obtain ⟨⟨⟨⟨⟨⟨⟨⟨⟨⟨srcIp, srcMask⟩, dstIp⟩, dstMask⟩, sportLo⟩, sportHi⟩, dportLo⟩, dportHi⟩, bytes⟩, egress⟩, ruleId⟩ := h
  have h0 := bytes 0 (by simp)
  have h1 := bytes 1 (by simp)
  have h2 := bytes 2 (by simp)
  have h3 := bytes 3 (by simp)
  unfold fpPolicyEntAt
  rw [ldLe32_of_at srcIp, ldLe32_of_at (p := row + 4) srcMask, ldLe32_of_at (p := row + 8) dstIp,
    ldLe32_of_at (p := row + 12) dstMask, ldLe16_of_at (p := row + 16) sportLo, ldLe16_of_at (p := row + 18) sportHi,
    ldLe16_of_at (p := row + 20) dportLo, ldLe16_of_at (p := row + 22) dportHi,
    ldLe16_of_at (p := row + 28) egress, ldLe16_of_at (p := row + 30) ruleId]
  cases e
  simp only [PolicyRow.mk.injEq, true_and, and_true]
  exact ⟨h0, h1, h2, h3⟩

def Bank.policyRows (m : Mem) (b : Bank) : List PolicyRow :=
  (List.range b.policyN.toNat).map fun i => fpPolicyEntAt m (b.policy + i * sizeofEnt)

def Hdr.policyRows (d : Hdr) : List PolicyRow := (d.bank d.active).policyRows d.mem

def compileRows (baseVsys : UInt8) : Nat → List WirePolicyRow → Option (List PolicyRow)
  | _, [] => some []
  | i, r :: rows => do
    let e ← compileRow baseVsys i r
    let es ← compileRows baseVsys (i + 1) rows
    return e :: es

theorem compileRows_length {vsys : UInt8} {i : Nat} {rows : List WirePolicyRow} {es : List PolicyRow}
    (h : compileRows vsys i rows = some es) : es.length = rows.length := by
  induction rows generalizing i es with
  | nil =>
    cases h
    rfl
  | cons r rows ih =>
    obtain ⟨e, _, h⟩ := Option.bind_eq_some_iff.mp h
    obtain ⟨rest, compiled, h⟩ := Option.bind_eq_some_iff.mp h
    cases h
    rw [List.length_cons, List.length_cons, ih compiled]

theorem policyLoop_ok {ent : Nat} {vsys : UInt8} {m : Mem} {i : Nat} {rows : List WirePolicyRow}
    (ok : (policyLoop ent vsys m i rows).2 = .ok) :
    ∃ es, compileRows vsys i rows = some es ∧
      ∀ j e, es[j]? = some e → At (policyLoop ent vsys m i rows).1 (ent + (i + j) * sizeofEnt) (entBytes e) := by
  induction rows generalizing m i with
  | nil => exact ⟨[], rfl, by simp⟩
  | cons r rows ih =>
    unfold policyLoop at ok ⊢
    cases compiled : compileRow vsys i r with
    | none =>
      rw [compiled] at ok
      cases ok
    | some e =>
      rw [compiled] at ok
      dsimp only at ok ⊢
      obtain ⟨es, rest, stored⟩ := ih ok
      refine ⟨e :: es, by simp [compileRows, compiled, rest], fun j e' read => ?_⟩
      cases j with
      | zero =>
        cases read
        refine at_congr (at_write m (ent + (i + 0) * sizeofEnt) (entBytes e)) fun k inside => ?_
        rw [entBytes_length] at inside
        -- The first row lies below the rows that the rest of the loop writes.
        exact policyLoop_frame (Or.inl (by rw [Nat.add_zero, Nat.succ_mul]; omega))
      | succ j =>
        have there := stored j e' (by simpa using read)
        rwa [show i + 1 + j = i + (j + 1) by omega] at there

theorem stagePolicy_rows {pu : PolicyUpdate} {m : Mem} {b : Bank} (ok : (stagePolicy pu m b).rc = .ok) :
    compileRows pu.baseVsys 0 pu.rows = some ((stagePolicy pu m b).bank.policyRows (stagePolicy pu m b).mem) := by
  have short := pu.rowsShort
  unfold stagePolicy at ok ⊢
  dsimp only at ok ⊢
  split at ok
  · rename_i empty
    rw [if_pos empty]
    rw [List.length_eq_zero_iff] at empty
    rw [empty]
    rfl
  · rename_i some
    rw [if_neg some]
    cases found : b.arenaAlloc (pu.rows.length * sizeofEnt) with
    | none =>
      rw [found] at ok
      cases ok
    | some out =>
      obtain ⟨ent, b'⟩ := out
      rw [found] at ok
      dsimp only at ok ⊢
      split at ok
      · rename_i failed
        exact absurd ok failed
      · rename_i done
        rw [if_neg done]
        simp only [ne_eq, Decidable.not_not] at done
        obtain ⟨es, compiled, stored⟩ := policyLoop_ok done
        have length := compileRows_length compiled
        rw [compiled, Option.some.injEq]
        apply List.ext_getElem
        · rw [Bank.policyRows, List.length_map, List.length_range, length, UInt32.toNat_ofNat']
          exact (Nat.mod_eq_of_lt short).symm
        · intro j inside _
          have row := stored j es[j] (List.getElem?_eq_getElem inside)
          rw [Nat.zero_add] at row
          simp only [Bank.policyRows, List.getElem_map, List.getElem_range]
          exact (fpPolicyEntAt_of_at row).symm

/-! ### The push of one virtual system -/

def policyPush (pu : PolicyUpdate) : Frame := .message .mp2dp (some (.policyUpdate pu))

theorem published_policyRows (d : Hdr) (stage : Mem → Bank → Staged) :
    (d.published stage).policyRows = (d.staged stage).bank.policyRows (d.staged stage).mem := by
  rw [Hdr.policyRows, published_active, published_bank]
  rfl

theorem policyPush_rows {d : Hdr} {pu : PolicyUpdate} (ok : (ffnMpdpApply (policyPush pu) d).2 = .ok) :
    compileRows pu.baseVsys 0 pu.rows = some (ffnMpdpApply (policyPush pu) d).1.policyRows := by
  have run : ffnMpdpApply (policyPush pu) d = applyStaged (stagePolicy pu) d := rfl
  rw [run, applyStaged_eq] at ok ⊢
  split at ok
  · rename_i staged
    rw [if_pos staged, published_policyRows]
    exact stagePolicy_rows staged
  · rename_i failed
    exact absurd ok failed

def keptRows (d : Hdr) (pu : PolicyUpdate) : List PolicyRow := d.policyRows.filter fun r => r.vsys ≠ pu.baseVsys

/-- The policy after the update is the update's rows together with the rows of the
other virtual systems, in their order. -/
def PerVsysPush (d : Hdr) (pu : PolicyUpdate) (d' : Hdr) : Prop :=
  ∃ compiled, compileRows pu.baseVsys 0 pu.rows = some compiled ∧
    d'.policyRows.Perm (compiled ++ keptRows d pu) ∧ (keptRows d pu).Sublist d'.policyRows

theorem perVsysPush_iff {d : Hdr} {pu : PolicyUpdate} (ok : (ffnMpdpApply (policyPush pu) d).2 = .ok) :
    PerVsysPush d pu (ffnMpdpApply (policyPush pu) d).1 ↔ keptRows d pu = [] := by
  have rows := policyPush_rows ok
  constructor
  · rintro ⟨compiled, same, perm, _⟩
    rw [rows, Option.some.injEq] at same
    have lengths := perm.length_eq
    rw [same, List.length_append] at lengths
    exact List.length_eq_zero_iff.mp (by omega)
  · intro none
    refine ⟨_, rows, ?_, ?_⟩
    · rw [none, List.append_nil]
    · rw [none]
      exact List.nil_sublist _

/-- A policy push keeps the rows of the other virtual systems exactly when there are
none. -/
theorem policy_push_per_vsys_iff (d : Hdr) (pu : PolicyUpdate) (ok : (ffnMpdpApply (policyPush pu) d).2 = .ok) :
    PerVsysPush d pu (ffnMpdpApply (policyPush pu) d).1 ↔ ∀ r ∈ d.policyRows, r.vsys = pu.baseVsys := by
  rw [perVsysPush_iff ok, keptRows, List.filter_eq_nil_iff]
  simp

def anyPush (vsys : UInt32) : PolicyUpdate := ⟨vsys, [⟨0, 0, none, 0, none, 0, 0⟩], by decide⟩

def pushedRegion : Region := smallRegion.apply (policyPush (anyPush 1))

theorem pushedRegion_rows : pushedRegion.val.policyRows =
    [⟨0, 0, 0, 0, 0, 0xFFFF, 0, 0xFFFF, 0, 1, 0, 0, 0xFFFF, 1⟩] := by
  have ok : (ffnMpdpApply (policyPush (anyPush 1)) smallRegion.val).2 = .ok := by decide
  have rows := policyPush_rows ok
  exact (Option.some.inj rows).symm

theorem secondPush_ok : (ffnMpdpApply (policyPush (anyPush 2)) pushedRegion.val).2 = .ok := by decide +kernel

/-- The push for virtual system 2 loses the row of virtual system 1. -/
theorem secondPush_not_perVsys :
    (ffnMpdpApply (policyPush (anyPush 2)) pushedRegion.val).2 = .ok ∧
      ¬PerVsysPush pushedRegion.val (anyPush 2) (ffnMpdpApply (policyPush (anyPush 2)) pushedRegion.val).1 := by
  refine ⟨secondPush_ok, fun kept => ?_⟩
  have none := (perVsysPush_iff secondPush_ok).mp kept
  rw [keptRows, pushedRegion_rows] at none
  revert none
  decide

theorem secondPush_per_vsys :
    (ffnMpdpApply (policyPush (anyPush 2)) pushedRegion.val).2 = .ok ∧
      (PerVsysPush pushedRegion.val (anyPush 2) (ffnMpdpApply (policyPush (anyPush 2)) pushedRegion.val).1 ↔
        ∀ r ∈ pushedRegion.val.policyRows, r.vsys = (anyPush 2).baseVsys) :=
  ⟨secondPush_ok, policy_push_per_vsys_iff pushedRegion.val (anyPush 2) secondPush_ok⟩

end FfnNgfw.Dpmem
