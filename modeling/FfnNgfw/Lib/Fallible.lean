import Mathlib.Data.List.Forall2
import Mathlib.Tactic.Common

/-!
# Computations that may fail

What a result of `Except` says about the steps that led to it. A fold that succeeds keeps
any invariant that each of its successful steps keeps; the invariant may speak about the
elements that have been folded so far.
-/

namespace FfnNgfw

variable {ε α β : Type}

variable {b : β} {f : α → Except ε β} {x : Except ε α} {step : β → α → Except ε β} {xs : List α}

theorem bind_ok (h : x >>= f = .ok b) : ∃ a, x = .ok a ∧ f a = .ok b := by
  cases x with
  | error e => cases h
  | ok a => exact ⟨a, rfl, h⟩

theorem ok_of_toOption {a : α} (h : x.toOption = some a) : x = .ok a := by
  cases x with
  | error e => cases h
  | ok b => exact congrArg _ (Option.some.inj h)

theorem map_ok {f : α → β} (h : x.map f = .ok b) : ∃ a, x = .ok a ∧ f a = b := by
  cases x with
  | error e => cases h
  | ok a => exact ⟨a, rfl, Except.ok.inj h⟩

theorem foldlM_invariant (inv : List α → β → Prop)
    (keeps : ∀ done b a b', inv done b → step b a = .ok b' → inv (done ++ [a]) b') {b b' : β}
    (start : inv [] b) (h : xs.foldlM step b = .ok b') : inv xs b' := by
  have run : ∀ (xs done : List α) (b : β), inv done b → xs.foldlM step b = .ok b' → inv (done ++ xs) b' := by
    intro xs
    induction xs with
    | nil =>
      intro done b start h
      cases h
      rw [List.append_nil]
      exact start
    | cons a xs ih =>
      intro done b start h
      rw [List.foldlM_cons] at h
      obtain ⟨next, first, rest⟩ := bind_ok h
      have later := ih (done ++ [a]) next (keeps done b a next start first) rest
      rw [List.append_assoc] at later
      exact later
  exact run xs [] b start h

theorem foldlM_error {b : β} {e : ε} (h : xs.foldlM step b = .error e) :
    ∃ b' a, a ∈ xs ∧ step b' a = .error e := by
  induction xs generalizing b with
  | nil => cases h
  | cons a xs ih =>
    rw [List.foldlM_cons] at h
    cases first : step b a with
    | error e' =>
      rw [first] at h
      cases h
      exact ⟨b, a, List.mem_cons_self, first⟩
    | ok next =>
      rw [first] at h
      obtain ⟨b', a', member, failed⟩ := ih h
      exact ⟨b', a', List.mem_cons_of_mem a member, failed⟩

/-- The fold up to the first step that fails: what the steps before it left, and its error. -/
def foldlUntil (step : β → α → Except ε β) : β → List α → β × Option ε
  | b, [] => (b, none)
  | b, a :: rest =>
    match step b a with
    | .ok next => foldlUntil step next rest
    | .error e => (b, some e)

theorem foldlUntil_none {b b' : β} (h : foldlUntil step b xs = (b', none)) :
    xs.foldlM step b = .ok b' := by
  induction xs generalizing b with
  | nil =>
    cases h
    rfl
  | cons a rest ih =>
    rw [List.foldlM_cons]
    unfold foldlUntil at h
    cases first : step b a with
    | error e => simp [first] at h
    | ok next =>
      rw [first] at h
      exact ih h

theorem mapM_mem {ys : List β} (h : xs.mapM f = .ok ys) {x : α} (member : x ∈ xs) :
    ∃ y ∈ ys, f x = .ok y := by
  induction xs generalizing ys with
  | nil => cases member
  | cons first rest ih =>
    rw [List.mapM_cons] at h
    obtain ⟨y, got, h⟩ := bind_ok h
    obtain ⟨others, later, h⟩ := bind_ok h
    cases h
    rcases List.mem_cons.mp member with rfl | inside
    · exact ⟨y, List.mem_cons_self, got⟩
    · obtain ⟨z, found, gotZ⟩ := ih later inside
      exact ⟨z, List.mem_cons_of_mem y found, gotZ⟩

theorem mapM_back {ys : List β} (h : xs.mapM f = .ok ys) {y : β} (member : y ∈ ys) :
    ∃ x ∈ xs, f x = .ok y := by
  induction xs generalizing ys with
  | nil =>
    cases h
    cases member
  | cons first rest ih =>
    rw [List.mapM_cons] at h
    obtain ⟨z, got, h⟩ := bind_ok h
    obtain ⟨others, later, h⟩ := bind_ok h
    cases h
    rcases List.mem_cons.mp member with rfl | inside
    · exact ⟨first, List.mem_cons_self, got⟩
    · obtain ⟨x, found, gotX⟩ := ih later inside
      exact ⟨x, List.mem_cons_of_mem first found, gotX⟩

theorem mapM_length {ys : List β} (h : xs.mapM f = .ok ys) : ys.length = xs.length := by
  induction xs generalizing ys with
  | nil =>
    cases h
    rfl
  | cons first rest ih =>
    rw [List.mapM_cons] at h
    obtain ⟨y, -, h⟩ := bind_ok h
    obtain ⟨others, later, h⟩ := bind_ok h
    cases h
    exact congrArg (· + 1) (ih later)

theorem mapM_ok (each : ∀ x ∈ xs, ∃ y, f x = .ok y) : ∃ ys, xs.mapM f = .ok ys := by
  induction xs with
  | nil => exact ⟨[], rfl⟩
  | cons x xs ih =>
    obtain ⟨y, here⟩ := each x List.mem_cons_self
    obtain ⟨ys, rest⟩ := ih fun z member => each z (List.mem_cons_of_mem _ member)
    exact ⟨y :: ys, by rw [List.mapM_cons, here, rest]; rfl⟩

theorem mapM_forall₂ {good : α → β → Prop} (each : ∀ x ∈ xs, ∃ y, f x = .ok y ∧ good x y) :
    ∃ ys, xs.mapM f = .ok ys ∧ List.Forall₂ good xs ys := by
  induction xs with
  | nil => exact ⟨[], rfl, .nil⟩
  | cons x xs ih =>
    obtain ⟨y, here, first⟩ := each x List.mem_cons_self
    obtain ⟨ys, rest, later⟩ := ih fun z member => each z (List.mem_cons_of_mem _ member)
    exact ⟨y :: ys, by rw [List.mapM_cons, here, rest]; rfl, .cons first later⟩

theorem mapM_ok_iff : (∃ ys, xs.mapM f = .ok ys) ↔ ∀ x ∈ xs, ∃ y, f x = .ok y := by
  constructor
  · rintro ⟨ys, h⟩ x member
    obtain ⟨y, -, got⟩ := mapM_mem h member
    exact ⟨y, got⟩
  · exact mapM_ok

theorem forM_ok_iff {f : α → Except ε Unit} : xs.forM f = .ok () ↔ ∀ x ∈ xs, f x = .ok () := by
  induction xs with
  | nil => simp [pure, Except.pure]
  | cons x xs ih =>
    have first : (x :: xs).forM f = f x >>= fun _ => xs.forM f := rfl
    rw [first, List.forall_mem_cons, ← ih]
    cases f x with
    | error e => simp [bind, Except.bind]
    | ok u => simp [bind, Except.bind]

theorem foldlM_ok_iff {good : α → Prop} (each : ∀ b a, (∃ b', step b a = .ok b') ↔ good a)
    : (∃ b', xs.foldlM step b = .ok b') ↔ ∀ a ∈ xs, good a := by
  induction xs generalizing b with
  | nil => exact iff_of_true ⟨b, rfl⟩ (List.forall_mem_nil _)
  | cons a xs ih =>
    rw [List.forall_mem_cons, ← each b a]
    constructor
    · rintro ⟨b', h⟩
      rw [List.foldlM_cons] at h
      obtain ⟨next, first, rest⟩ := bind_ok h
      exact ⟨⟨next, first⟩, ih.mp ⟨b', rest⟩⟩
    · rintro ⟨⟨next, first⟩, rest⟩
      obtain ⟨b', later⟩ := ih (b := next) |>.mpr rest
      exact ⟨b', by rw [List.foldlM_cons, first]; exact later⟩

end FfnNgfw
