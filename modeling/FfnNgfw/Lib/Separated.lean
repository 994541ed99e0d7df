import Mathlib.Tactic.Common

/-!
# Parts between separators

What is in a list that is joined with a separator, and in the parts that a list is split
into: the parts of a split hold every element but the separators, and nothing else.
-/

namespace FfnNgfw

variable {α : Type}

theorem mem_intercalate {sep : List α} {x : α} {parts : List (List α)} (member : x ∈ sep.intercalate parts) :
    x ∈ sep ∨ ∃ part ∈ parts, x ∈ part := by
  induction parts with
  | nil => simp at member
  | cons first rest ih =>
    cases rest with
    | nil => exact .inr ⟨first, List.mem_singleton_self _, by simpa using member⟩
    | cons second rest =>
      rw [List.intercalate_cons_cons, List.mem_append, List.mem_append] at member
      rcases member with (here | separator) | later
      · exact .inr ⟨first, List.mem_cons_self, here⟩
      · exact .inl separator
      · refine (ih later).imp_right ?_
        rintro ⟨part, inside, there⟩
        exact ⟨part, List.mem_cons_of_mem first inside, there⟩

theorem mem_of_mem_splitOnP {p : α → Bool} {s part : List α} {x : α} (member : part ∈ s.splitOnP p) (inside : x ∈ part) :
    x ∈ s ∧ p x = false := by
  induction s generalizing part with
  | nil =>
    rw [List.splitOnP_nil] at member
    obtain rfl := List.mem_singleton.mp member
    cases inside
  | cons y s ih =>
    rw [List.splitOnP_cons_eq_if_modifyHead] at member
    split at member
    · rcases List.mem_cons.mp member with rfl | later
      · cases inside
      · exact (ih later inside).imp_left (List.mem_cons_of_mem y)
    · rename_i plain
      obtain ⟨first, rest, parts⟩ := List.exists_cons_of_ne_nil (List.splitOnP_ne_nil p s)
      rw [parts] at ih
      rw [parts, List.modifyHead_cons] at member
      rcases List.mem_cons.mp member with rfl | later
      · rcases List.mem_cons.mp inside with rfl | inside
        · exact ⟨List.mem_cons_self, Bool.eq_false_iff.mpr plain⟩
        · exact (ih List.mem_cons_self inside).imp_left (List.mem_cons_of_mem y)
      · exact (ih (List.mem_cons_of_mem first later) inside).imp_left (List.mem_cons_of_mem y)

section

variable [BEq α] [LawfulBEq α] {s part : List α} {sep x : α}

theorem mem_of_mem_splitOn (member : part ∈ s.splitOn sep) (inside : x ∈ part) : x ∈ s ∧ x ≠ sep := by
  rw [List.splitOn_eq_splitOnP] at member
  obtain ⟨there, other⟩ := mem_of_mem_splitOnP member inside
  exact ⟨there, by simpa using other⟩

theorem mem_splitOn (member : x ∈ s) (other : x ≠ sep) : ∃ part ∈ s.splitOn sep, x ∈ part := by
  have whole : [sep].intercalate (s.splitOn sep) = s := List.intercalate_splitOn sep
  rw [← whole] at member
  rcases mem_intercalate member with separator | found
  · exact absurd (List.mem_singleton.mp separator) other
  · exact found

end

end FfnNgfw
