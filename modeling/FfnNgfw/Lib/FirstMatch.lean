import Mathlib.Tactic.Common

/-!
# First-match scans

A rule table is scanned from the top and the first row that matches wins.
`firstMatch` returns that row with its index. Two scans of one table whose
predicates differ agree exactly when every row that only the wider one accepts
stands below a row that both accept.
-/

namespace FfnNgfw

variable {α : Type}

def firstMatchFrom (p : α → Bool) (i : Nat) : List α → Option (Nat × α)
  | [] => none
  | r :: rest => if p r then some (i, r) else firstMatchFrom p (i + 1) rest

def firstMatch (p : α → Bool) (rows : List α) : Option (Nat × α) := firstMatchFrom p 0 rows

variable {p q : α → Bool} {rows : List α}

theorem firstMatchFrom_index {i j : Nat} {r : α} (h : firstMatchFrom p i rows = some (j, r)) : i ≤ j := by
  induction rows generalizing i with
  | nil => cases h
  | cons x rest ih =>
    rw [firstMatchFrom] at h
    split at h
    · cases h; exact Nat.le_refl _
    · exact Nat.le_of_succ_le (ih h)

theorem firstMatchFrom_mem {i j : Nat} {r : α} (h : firstMatchFrom p i rows = some (j, r)) : r ∈ rows := by
  induction rows generalizing i with
  | nil => cases h
  | cons x rest ih =>
    rw [firstMatchFrom] at h
    split at h
    · cases h
      exact List.mem_cons_self
    · exact List.mem_cons_of_mem x (ih h)

theorem firstMatchFrom_get {i j : Nat} {r : α}
    (h : firstMatchFrom p i rows = some (j, r)) : p r = true ∧ rows[j - i]? = some r := by
  induction rows generalizing i with
  | nil => cases h
  | cons x rest ih =>
    rw [firstMatchFrom] at h
    split at h
    · rename_i here
      cases h
      exact ⟨here, by simp⟩
    · have below := firstMatchFrom_index h
      obtain ⟨found, read⟩ := ih h
      have shift : j - i = (j - (i + 1)) + 1 := by omega
      rw [shift, List.getElem?_cons_succ]
      exact ⟨found, read⟩

theorem firstMatchFrom_congr (same : ∀ r ∈ rows, p r = q r) (i : Nat) :
    firstMatchFrom p i rows = firstMatchFrom q i rows := by
  induction rows generalizing i with
  | nil => rfl
  | cons x rest ih =>
    rw [firstMatchFrom, firstMatchFrom, same x List.mem_cons_self,
      ih (fun r member => same r (List.mem_cons_of_mem x member))]

/-- A row that only the wider predicate `p` accepts stands below one that `q` accepts. -/
def Shadowed (p q : α → Bool) : List α → Prop
  | [] => True
  | r :: rest => q r = true ∨ (p r = false ∧ Shadowed p q rest)

theorem firstMatchFrom_eq_iff (wider : ∀ r, q r = true → p r = true) (i : Nat) (rows : List α) :
    firstMatchFrom p i rows = firstMatchFrom q i rows ↔ Shadowed p q rows := by
  induction rows generalizing i with
  | nil => simp [firstMatchFrom, Shadowed]
  | cons r rest ih =>
    rw [firstMatchFrom, firstMatchFrom, Shadowed]
    cases hq : q r with
    | true => simp [wider r hq]
    | false =>
      cases hp : p r with
      | false => simpa using ih (i + 1)
      | true =>
        simp only [if_true, Bool.false_eq_true, if_false, reduceCtorEq, false_and, or_self, iff_false]
        intro h
        -- The narrower scan can only stop at a later row.
        have := firstMatchFrom_index h.symm
        omega

theorem shadowed_iff (rows : List α) :
    Shadowed p q rows ↔ ∀ (i : Nat) (r : α), rows[i]? = some r → p r = true → q r = false →
      ∃ (j : Nat) (s : α), j < i ∧ rows[j]? = some s ∧ q s = true := by
  induction rows with
  | nil => simp [Shadowed]
  | cons x rest ih =>
    rw [Shadowed, ih]
    constructor
    · rintro (qx | ⟨px, below⟩) i r read pr qr
      · cases i with
        | zero => simp at read; subst read; rw [qx] at qr; cases qr
        | succ i => exact ⟨0, x, by omega, rfl, qx⟩
      · cases i with
        | zero => simp at read; subst read; rw [px] at pr; cases pr
        | succ i =>
          obtain ⟨j, s, lt, readS, qs⟩ := below i r (by simpa using read) pr qr
          exact ⟨j + 1, s, by omega, by simpa using readS, qs⟩
    · intro h
      cases qx : q x with
      | true => exact Or.inl rfl
      | false =>
        have px : p x = false := by
          by_contra px
          obtain ⟨j, s, lt, _⟩ := h 0 x rfl (by simpa using px) qx
          omega
        refine Or.inr ⟨px, fun i r read pr qr => ?_⟩
        obtain ⟨j, s, lt, readS, qs⟩ := h (i + 1) r (by simpa using read) pr qr
        cases j with
        | zero =>
          simp at readS
          subst readS
          rw [qx] at qs
          cases qs
        | succ j => exact ⟨j, s, by omega, by simpa using readS, qs⟩

/-- Two scans, the second narrower, select the same row exactly when every row
that only the first accepts stands below a row that both accept. -/
theorem firstMatch_eq_iff (wider : ∀ r, q r = true → p r = true) (rows : List α) :
    firstMatch p rows = firstMatch q rows ↔
      ∀ (i : Nat) (r : α), rows[i]? = some r → p r = true → q r = false →
        ∃ (j : Nat) (s : α), j < i ∧ rows[j]? = some s ∧ q s = true :=
  (firstMatchFrom_eq_iff wider 0 rows).trans (shadowed_iff rows)

theorem findSome_const {β : Type} {f : α → Option β} {v : β} {xs : List α}
    (same : ∀ x ∈ xs, f x = if q x then some v else none) : xs.findSome? f = if xs.any q then some v else none := by
  induction xs with
  | nil => rfl
  | cons x xs ih =>
    rw [List.findSome?_cons, same x List.mem_cons_self, List.any_cons, ih fun y member => same y (List.mem_cons_of_mem x member)]
    cases q x <;> rfl

end FfnNgfw
