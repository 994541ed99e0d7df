import Mathlib.Data.List.Forall2

/-!
# Three-valued answers

An answer is `true`, `false` or not known. One answer is below another when the other
keeps what it knows. Conjunction and disjunction keep the order, so that a known result
stays when more becomes known.
-/

namespace FfnNgfw.Kleene

variable {α β γ : Type}

/-- What `a` knows, `b` knows as well. -/
def Below (a b : Option α) : Prop := ∀ x, a = some x → b = some x

theorem Below.refl (a : Option α) : Below a a := fun _ known => known

theorem Below.none (b : Option α) : Below Option.none b := fun _ never => by cases never

theorem Below.map {a b : Option α} (below : Below a b) (f : α → β) : Below (a.map f) (b.map f) := by
  intro y known
  obtain ⟨x, here, same⟩ := Option.map_eq_some_iff.mp known
  rw [below x here, Option.map_some, same]

/-! ### Connectives -/

local instance lawfulAnswer : LawfulBEq (Option Bool) := inferInstance

def conj (answers : List (Option Bool)) : Option Bool :=
  if some false ∈ answers then some false else if none ∈ answers then none else some true

def disj (answers : List (Option Bool)) : Option Bool :=
  if some true ∈ answers then some true else if none ∈ answers then none else some false

section connectives

variable {answers answers' : List (Option α)}

theorem mem_of_below (below : List.Forall₂ Below answers answers') {x : α} (known : some x ∈ answers) : some x ∈ answers' := by
  induction below with
  | nil => cases known
  | cons first _ ih =>
    rcases List.mem_cons.mp known with here | later
    · rw [first x here.symm]
      exact List.mem_cons_self
    · exact List.mem_cons_of_mem _ (ih later)

theorem eq_of_below (below : List.Forall₂ Below answers answers') (known : none ∉ answers) : answers' = answers := by
  induction below with
  | nil => rfl
  | @cons a b _ _ first _ ih =>
    cases a with
    | none => exact absurd List.mem_cons_self known
    | some x => rw [first x rfl, ih fun later => known (List.mem_cons_of_mem _ later)]

theorem below_map {rows : List γ} {f g : γ → Option α} (below : ∀ r ∈ rows, Below (f r) (g r)) :
    List.Forall₂ Below (rows.map f) (rows.map g) := by
  induction rows with
  | nil => exact .nil
  | cons r rows ih => exact .cons (below r List.mem_cons_self) (ih fun r' later => below r' (List.mem_cons_of_mem _ later))

end connectives

variable {answers answers' : List (Option Bool)}

theorem conj_congr (fails : some false ∈ answers ↔ some false ∈ answers') (unknown : none ∈ answers ↔ none ∈ answers') :
    conj answers = conj answers' := by
  simp only [conj, fails, unknown]

theorem conj_below (below : List.Forall₂ Below answers answers') : Below (conj answers) (conj answers') := by
  intro x known
  unfold conj at known
  split at known
  · rename_i fails
    cases known
    rw [conj, if_pos (mem_of_below below fails)]
  · rename_i holds
    split at known
    · cases known
    · rename_i all
      cases known
      rw [eq_of_below below all, conj, if_neg holds, if_neg all]

theorem disj_true : disj answers = some true ↔ some true ∈ answers := by
  unfold disj
  split
  · rename_i holds
    exact ⟨fun _ => holds, fun _ => rfl⟩
  · rename_i fails
    split <;> simp [fails]

theorem disj_below (below : List.Forall₂ Below answers answers') : Below (disj answers) (disj answers') := by
  intro x known
  unfold disj at known
  split at known
  · rename_i holds
    cases known
    rw [disj, if_pos (mem_of_below below holds)]
  · rename_i fails
    split at known
    · cases known
    · rename_i all
      cases known
      rw [eq_of_below below all, disj, if_neg fails, if_neg all]

end FfnNgfw.Kleene
