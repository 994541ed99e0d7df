import Mathlib.Logic.Function.Basic
import Mathlib.Tactic.Common

/-!
# Classes by parent pointers

Elements point to a parent, roots to themselves, and two elements are in one class when they
have the same root. Finding a root shortens the way to it and changes no class; joining two
elements makes one class of theirs and leaves the others.
-/

namespace FfnNgfw

/-- Parent pointers that lead to a root: along them the height falls. -/
structure Forest (α : Type) where
  parent : α → α
  height : α → Nat
  falls : ∀ c, parent c ≠ c → height (parent c) < height c

namespace Forest

variable {α : Type} [DecidableEq α]

def single : Forest α := ⟨id, fun _ => 0, fun _ moved => absurd rfl moved⟩

def climb (f : Forest α) : Nat → α → α
  | 0, c => c
  | n + 1, c => if f.parent c = c then c else climb f n (f.parent c)

def root (f : Forest α) (c : α) : α := f.climb (f.height c) c

variable {f : Forest α} {a b c x : α}

theorem climb_fixed (fixed : f.parent c = c) (n : Nat) : f.climb n c = c := by
  cases n with
  | zero => rfl
  | succ n => exact if_pos fixed

theorem climb_enough {n k : Nat} (enough : f.height c ≤ n) (enough' : f.height c ≤ k) : f.climb n c = f.climb k c := by
  induction n generalizing c k with
  | zero =>
    have fixed : f.parent c = c := by
      by_contra moved
      exact absurd (f.falls c moved) (by omega)
    rw [climb_fixed fixed, climb_fixed fixed]
  | succ n ih =>
    by_cases fixed : f.parent c = c
    · rw [climb_fixed fixed, climb_fixed fixed]
    · have falls := f.falls c fixed
      cases k with
      | zero => omega
      | succ k =>
        unfold climb
        rw [if_neg fixed, if_neg fixed]
        exact ih (by omega) (by omega)

theorem root_of_fixed (fixed : f.parent c = c) : f.root c = c := climb_fixed fixed _

theorem root_parent (f : Forest α) (c : α) : f.root (f.parent c) = f.root c := by
  by_cases fixed : f.parent c = c
  · rw [fixed]
  · have falls := f.falls c fixed
    calc f.root (f.parent c)
      _ = f.climb (f.height c - 1) (f.parent c) := climb_enough (Nat.le_refl _) (by omega)
      _ = f.climb (f.height c - 1 + 1) c := (if_neg fixed).symm
      _ = f.root c := by rw [root, Nat.sub_add_cancel (by omega)]

theorem parent_root (f : Forest α) (c : α) : f.parent (f.root c) = f.root c := by
  have reached : ∀ n c, f.height c ≤ n → f.parent (f.climb n c) = f.climb n c := by
    intro n
    induction n with
    | zero =>
      intro c low
      by_contra moved
      exact absurd (f.falls c moved) (by omega)
    | succ n ih =>
      intro c low
      unfold climb
      by_cases fixed : f.parent c = c
      · rw [if_pos fixed, fixed]
      · rw [if_neg fixed]
        exact ih _ (by have := f.falls c fixed; omega)
  exact reached _ c (Nat.le_refl _)

/-- The roots are the only map that is the same along a pointer and leaves the roots where they are. -/
theorem root_unique {g : α → α} (step : ∀ c, g (f.parent c) = g c) (fixed : ∀ c, f.parent c = c → g c = c) (c : α) : f.root c = g c := by
  have reached : ∀ n c, f.height c ≤ n → f.root c = g c := by
    intro n
    induction n with
    | zero =>
      intro c low
      have here : f.parent c = c := by
        by_contra moved
        exact absurd (f.falls c moved) (by omega)
      rw [root_of_fixed here, fixed c here]
    | succ n ih =>
      intro c low
      by_cases here : f.parent c = c
      · rw [root_of_fixed here, fixed c here]
      · rw [← root_parent, ← step]
        exact ih _ (by have := f.falls c here; omega)
  exact reached _ c (Nat.le_refl _)

theorem height_grandparent (f : Forest α) (moved : f.parent c ≠ c) : f.height (f.parent (f.parent c)) < f.height c := by
  have falls := f.falls c moved
  by_cases fixed : f.parent (f.parent c) = f.parent c
  · rwa [fixed]
  · exact Nat.lt_trans (f.falls _ fixed) falls

/-- `parent[c] = parent[parent[c]]` -/
def halve (f : Forest α) (c : α) : Forest α where
  parent := Function.update f.parent c (f.parent (f.parent c))
  height := f.height
  falls := by
    intro x moved
    by_cases same : x = c
    · subst same
      rw [Function.update_self] at moved ⊢
      refine f.height_grandparent fun fixed => moved ?_
      rw [fixed, fixed]
    · rw [Function.update_of_ne same] at moved ⊢
      exact f.falls x moved

theorem halve_root (f : Forest α) (c x : α) : (f.halve c).root x = f.root x := by
  refine root_unique (fun x => ?_) (fun x fixed => ?_) x
  · show f.root (Function.update f.parent c (f.parent (f.parent c)) x) = f.root x
    by_cases same : x = c
    · subst same
      rw [Function.update_self, root_parent, root_parent]
    · rw [Function.update_of_ne same, root_parent]
  · have fixed' : Function.update f.parent c (f.parent (f.parent c)) x = x := fixed
    by_cases same : x = c
    · subst same
      rw [Function.update_self] at fixed'
      by_cases here : f.parent x = x
      · exact root_of_fixed here
      · have falls := f.height_grandparent here
        rw [fixed'] at falls
        exact absurd falls (Nat.lt_irrefl _)
    · rw [Function.update_of_ne same] at fixed'
      exact root_of_fixed fixed'

def ownerLoop : Nat → Forest α → α → α × Forest α
  | 0, f, c => (c, f)
  | n + 1, f, c => if f.parent c = c then (c, f) else ownerLoop n (f.halve c) ((f.halve c).parent c)

/-- The root of an element, with every second pointer on the way to it moved up. -/
def owner (f : Forest α) (c : α) : α × Forest α := ownerLoop (f.height c) f c

theorem ownerLoop_spec {n : Nat} (enough : f.height c ≤ n) :
    (ownerLoop n f c).1 = f.root c ∧ ∀ x, (ownerLoop n f c).2.root x = f.root x := by
  induction n generalizing f c with
  | zero =>
    have fixed : f.parent c = c := by
      by_contra moved
      exact absurd (f.falls c moved) (by omega)
    exact ⟨(root_of_fixed fixed).symm, fun _ => rfl⟩
  | succ n ih =>
    unfold ownerLoop
    by_cases fixed : f.parent c = c
    · rw [if_pos fixed]
      exact ⟨(root_of_fixed fixed).symm, fun _ => rfl⟩
    · rw [if_neg fixed]
      have up : (f.halve c).parent c = f.parent (f.parent c) := Function.update_self c _ _
      have lower : (f.halve c).height ((f.halve c).parent c) ≤ n := by
        have falls := f.height_grandparent fixed
        rw [up]
        show f.height _ ≤ n
        omega
      obtain ⟨found, kept⟩ := ih lower
      refine ⟨?_, fun x => (kept x).trans (f.halve_root c x)⟩
      rw [found, halve_root, up, root_parent, root_parent]

theorem owner_root (f : Forest α) (c : α) : (f.owner c).1 = f.root c := (ownerLoop_spec (Nat.le_refl _)).1

theorem owner_keeps (f : Forest α) (c x : α) : (f.owner c).2.root x = f.root x := (ownerLoop_spec (Nat.le_refl _)).2 x

/-- `parent[a] = b` for two roots. -/
def link (f : Forest α) (a b : α) (top : f.parent a = a) (top' : f.parent b = b) : Forest α where
  parent := Function.update f.parent a b
  height x := if f.root x = a ∧ a ≠ b then f.height x + f.height b + 1 else f.height x
  falls := by
    intro x moved
    by_cases same : x = a
    · subst same
      rw [Function.update_self] at moved ⊢
      have other : f.root b ≠ x := by
        rw [root_of_fixed top']
        exact moved
      rw [if_neg (fun both => other both.1), if_pos ⟨root_of_fixed top, moved.symm⟩]
      omega
    · rw [Function.update_of_ne same] at moved ⊢
      have falls := f.falls x moved
      rw [root_parent]
      split <;> omega

theorem link_root (top : f.parent a = a) (top' : f.parent b = b) (x : α) :
    (f.link a b top top').root x = if f.root x = a then b else f.root x := by
  refine root_unique (g := fun x => if f.root x = a then b else f.root x) (fun x => ?_) (fun x fixed => ?_) x
  · show (if f.root (Function.update f.parent a b x) = a then b else f.root (Function.update f.parent a b x)) =
      if f.root x = a then b else f.root x
    by_cases same : x = a
    · subst same
      rw [Function.update_self, root_of_fixed top', root_of_fixed top, if_pos rfl, ite_self]
    · rw [Function.update_of_ne same, root_parent]
  · have fixed' : Function.update f.parent a b x = x := fixed
    by_cases same : x = a
    · subst same
      rw [Function.update_self] at fixed'
      show (if f.root x = x then b else f.root x) = x
      rw [root_of_fixed top, if_pos rfl, fixed']
    · rw [Function.update_of_ne same] at fixed'
      show (if f.root x = a then b else f.root x) = x
      rw [root_of_fixed fixed', if_neg same]

/-- `parent[owner(a)] = owner(b)`, where the right side is found first. -/
def join (f : Forest α) (a b : α) : Forest α :=
  ((f.owner b).2.owner a).2.link ((f.owner b).2.owner a).1 (f.owner b).1
    (by rw [owner_root, ← owner_keeps, parent_root]) (by
      rw [owner_root, ← owner_keeps f b, ← owner_keeps (f.owner b).2 a, parent_root])

theorem join_root (f : Forest α) (a b x : α) : (f.join a b).root x = if f.root x = f.root a then f.root b else f.root x := by
  unfold join
  rw [link_root, owner_root, owner_root, owner_keeps, owner_keeps, owner_keeps]

theorem join_mono {y : α} (same : f.root x = f.root y) (a b : α) : (f.join a b).root x = (f.join a b).root y := by
  rw [join_root, join_root, same]

theorem join_same (f : Forest α) (a b : α) : (f.join a b).root a = (f.join a b).root b := by
  rw [join_root, join_root, if_pos rfl]
  split
  · rfl
  · rfl

end Forest

end FfnNgfw
