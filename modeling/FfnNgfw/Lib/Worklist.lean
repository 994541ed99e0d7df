import Mathlib.Data.List.Perm.Subperm
import Mathlib.Data.List.Nodup
import Mathlib.Logic.Relation
import Mathlib.Tactic.Common

/-!
# Search with a worklist

Take a place from the stack, and put its successors there that have not been seen. When the
places are finitely many, as many rounds as there are places empty the stack, and then the
places seen are those that can be reached.
-/

namespace FfnNgfw.Worklist

variable {σ : Type} [DecidableEq σ]

def discover : List σ → List σ → List σ → List σ × List σ
  | seen, stack, [] => (seen, stack)
  | seen, stack, t :: ts => if t ∈ seen then discover seen stack ts else discover (t :: seen) (t :: stack) ts

def explore (next : σ → List σ) : Nat → List σ → List σ → List σ
  | 0, _, seen => seen
  | _ + 1, [], seen => seen
  | n + 1, s :: stack, seen => explore next n (discover seen stack (next s)).2 (discover seen stack (next s)).1

variable {next : σ → List σ} {start seen stack ts all : List σ} {n : Nat} {s : σ}

def Reach (next : σ → List σ) (start : List σ) (s : σ) : Prop := ∃ r ∈ start, Relation.ReflTransGen (fun a b => b ∈ next a) r s

theorem discover_new : ∃ new, discover seen stack ts = (new ++ seen, new ++ stack) ∧ (seen.Nodup → (new ++ seen).Nodup) ∧
    ∀ t, t ∈ new ++ seen ↔ t ∈ seen ∨ t ∈ ts := by
  induction ts generalizing seen stack with
  | nil => exact ⟨[], rfl, id, fun t => by simp⟩
  | cons t ts ih =>
    rw [discover]
    split
    · rename_i old
      obtain ⟨new, same, distinct, members⟩ := @ih seen stack
      refine ⟨new, same, distinct, fun t' => ?_⟩
      rw [members, List.mem_cons]
      constructor
      · exact fun inside => inside.imp_right .inr
      · rintro (inside | rfl | later)
        · exact .inl inside
        · exact .inl old
        · exact .inr later
    · rename_i fresh
      obtain ⟨new, same, distinct, members⟩ := @ih (t :: seen) (t :: stack)
      refine ⟨new ++ [t], ?_, fun nodup => ?_, fun t' => ?_⟩
      · rw [same, List.append_assoc, List.append_assoc]
        rfl
      · rw [List.append_assoc]
        exact distinct (List.nodup_cons.mpr ⟨fresh, nodup⟩)
      · rw [List.append_assoc, List.singleton_append, members, List.mem_cons, List.mem_cons]
        tauto

structure Exploring (next : σ → List σ) (start all stack seen : List σ) : Prop where
  distinct : seen.Nodup
  within : ∀ s ∈ seen, s ∈ all
  started : ∀ s ∈ start, s ∈ seen
  pending : ∀ s ∈ stack, s ∈ seen
  reach : ∀ s ∈ seen, Reach next start s
  done : ∀ s ∈ seen, s ∉ stack → ∀ t ∈ next s, t ∈ seen

theorem Exploring.step (exploring : Exploring next start all (s :: stack) seen) (closed : ∀ s ∈ all, ∀ t ∈ next s, t ∈ all) :
    Exploring next start all (discover seen stack (next s)).2 (discover seen stack (next s)).1 ∧
      (discover seen stack (next s)).2.length + seen.length = stack.length + (discover seen stack (next s)).1.length := by
  obtain ⟨new, same, distinct, members⟩ := @discover_new σ _ seen stack (next s)
  have here : s ∈ seen := exploring.pending s List.mem_cons_self
  rw [same]
  refine ⟨⟨distinct exploring.distinct, fun t inside => ?_, fun t inside => ?_, fun t inside => ?_,
    fun t inside => ?_, fun t inside off t' move => ?_⟩, ?_⟩
  · rcases (members t).mp inside with old | found
    · exact exploring.within t old
    · exact closed s (exploring.within s here) t found
  · exact (members t).mpr (.inl (exploring.started t inside))
  · rcases List.mem_append.mp inside with found | old
    · exact List.mem_append_left _ found
    · exact List.mem_append_right _ (exploring.pending t (List.mem_cons_of_mem s old))
  · rcases (members t).mp inside with old | found
    · exact exploring.reach t old
    · obtain ⟨r, member, path⟩ := exploring.reach s here
      exact ⟨r, member, path.tail found⟩
  · rw [members]
    by_cases current : t = s
    · subst current
      exact .inr move
    · have old : t ∈ seen := by
        rcases List.mem_append.mp inside with found | old
        · exact absurd (List.mem_append_left _ found) off
        · exact old
      refine .inl (exploring.done t old (fun listed => ?_) t' move)
      rcases List.mem_cons.mp listed with rfl | later
      · exact current rfl
      · exact off (List.mem_append_right _ later)
  · simp only [List.length_append]
    omega

omit [DecidableEq σ] in
theorem Exploring.length (exploring : Exploring next start all stack seen) : seen.length ≤ all.length :=
  (exploring.distinct.subperm exploring.within).length_le

theorem explore_done (exploring : Exploring next start all stack seen) (closed : ∀ s ∈ all, ∀ t ∈ next s, t ∈ all)
    (enough : stack.length + all.length ≤ n + seen.length) : Exploring next start all [] (explore next n stack seen) := by
  induction n generalizing stack seen with
  | zero =>
    have le := exploring.length
    have empty : stack = [] := List.eq_nil_of_length_eq_zero (by omega)
    subst empty
    exact exploring
  | succ n ih =>
    cases stack with
    | nil => exact exploring
    | cons s stack =>
      obtain ⟨again, lengths⟩ := exploring.step closed
      rw [List.length_cons] at enough
      exact ih again (by omega)

theorem mem_explore (distinct : start.Nodup) (within : ∀ s ∈ start, s ∈ all) (closed : ∀ s ∈ all, ∀ t ∈ next s, t ∈ all)
    (enough : all.length ≤ n) : s ∈ explore next n start start ↔ Reach next start s := by
  have first : Exploring next start all start start :=
    ⟨distinct, within, fun _ => id, fun _ => id, fun s inside => ⟨s, inside, .refl⟩, fun s inside off => absurd inside off⟩
  have last : Exploring next start all [] (explore next n start start) := explore_done first closed (by omega)
  refine ⟨last.reach s, ?_⟩
  rintro ⟨r, member, path⟩
  induction path with
  | refl => exact last.started r member
  | tail _ move ih => exact last.done _ ih List.not_mem_nil _ move

end FfnNgfw.Worklist
