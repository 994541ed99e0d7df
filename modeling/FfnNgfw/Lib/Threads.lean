import Mathlib.Logic.Function.Basic
import Mathlib.Tactic.Common

/-!
# Threads over a shared state

A thread is the list of operations it has still to carry out. It may be interrupted between
two of them, never inside one. An operation changes the shared state and puts the ones it
calls for in front of the rest; it may also have to wait, and then the thread does not move.
-/

namespace FfnNgfw.Threads

structure Config (σ Op : Type) where
  shared : σ
  todo : Nat → List Op

/-- An idle thread takes up a job, or a busy one carries out its next operation. -/
inductive Act (Op : Type) where
  | start (thread : Nat) (job : Op)
  | run (thread : Nat)

structure Machine (σ Op : Type) where
  takes : Nat → Op → Bool
  exec : Nat → Op → σ → Option (σ × List Op)

namespace Machine

variable {σ Op : Type} (m : Machine σ Op)

def step (c : Config σ Op) : Act Op → Option (Config σ Op)
  | .start t job =>
    if (c.todo t).isEmpty && m.takes t job then some { c with todo := Function.update c.todo t [job] } else none
  | .run t =>
    match c.todo t with
    | [] => none
    | op :: rest => (m.exec t op c.shared).map fun r => ⟨r.1, Function.update c.todo t (r.2 ++ rest)⟩

def run (c : Config σ Op) : List (Act Op) → Option (Config σ Op)
  | [] => some c
  | a :: rest => (m.step c a).bind fun next => run next rest

/-- Each step of the run starts where `meets` holds. -/
def Along (meets : Config σ Op → Act Op → Prop) (c : Config σ Op) : List (Act Op) → Prop
  | [] => True
  | a :: rest =>
    meets c a ∧
      match m.step c a with
      | none => True
      | some next => Along meets next rest

instance decidableAlong (meets : Config σ Op → Act Op → Prop) [∀ c a, Decidable (meets c a)] (c : Config σ Op) :
    ∀ acts, Decidable (m.Along meets c acts)
  | [] => .isTrue trivial
  | a :: rest =>
    match h : m.step c a with
    | none => decidable_of_iff (meets c a) (by simp [Along, h])
    | some next =>
      have := decidableAlong meets next rest
      decidable_of_iff (meets c a ∧ m.Along meets next rest) (by simp [Along, h])

def Quiet (c : Config σ Op) : Prop := ∀ t, c.todo t = []

variable {m}

variable {c c' : Config σ Op}

theorem step_start {t : Nat} {job : Op} (h : m.step c (.start t job) = some c') :
    c.todo t = [] ∧ m.takes t job = true ∧ c' = { c with todo := Function.update c.todo t [job] } := by
  simp only [step] at h
  split at h
  · rename_i free
    obtain ⟨idle, taken⟩ := Bool.and_eq_true_iff.mp free
    exact ⟨List.isEmpty_iff.mp idle, taken, (Option.some.inj h).symm⟩
  · cases h

theorem step_run {t : Nat} (h : m.step c (.run t) = some c') :
    ∃ op rest s more, c.todo t = op :: rest ∧ m.exec t op c.shared = some (s, more) ∧
      c' = ⟨s, Function.update c.todo t (more ++ rest)⟩ := by
  simp only [step] at h
  split at h
  · cases h
  · rename_i op rest next
    obtain ⟨⟨s, more⟩, done, rfl⟩ := Option.map_eq_some_iff.mp h
    exact ⟨op, rest, s, more, next, done, rfl⟩

section queues

variable {todo : Nat → List Op} {t : Nat} {op : Op} {rest : List Op} (here : todo t = op :: rest)

include here

theorem head_mem : op ∈ todo t := by
  rw [here]
  exact List.mem_cons_self

theorem mem_after {more : List Op} {t' : Nat} {o : Op} (h : o ∈ Function.update todo t (more ++ rest) t') :
    (o ∈ todo t' ∧ (t' = t → o ∈ rest)) ∨ (t' = t ∧ o ∈ more) := by
  by_cases same : t' = t
  · subst same
    rw [Function.update_self, List.mem_append] at h
    rcases h with new | old
    · exact .inr ⟨rfl, new⟩
    · refine .inl ⟨?_, fun _ => old⟩
      rw [here]
      exact List.mem_cons_of_mem _ old
  · rw [Function.update_of_ne same] at h
    exact .inl ⟨h, fun equal => absurd equal same⟩

theorem mem_before {t' : Nat} {o : Op} (more : List Op) (h : o ∈ todo t') :
    o ∈ Function.update todo t (more ++ rest) t' ∨ (t' = t ∧ o = op) := by
  by_cases same : t' = t
  · subst same
    rw [here] at h
    rw [Function.update_self]
    rcases List.mem_cons.mp h with rfl | old
    · exact .inr ⟨rfl, rfl⟩
    · exact .inl (List.mem_append_right _ old)
  · rw [Function.update_of_ne same]
    exact .inl h

end queues

theorem run_invariant {inv : Config σ Op → Prop} {meets : Config σ Op → Act Op → Prop}
    (keeps : ∀ c a c', inv c → meets c a → m.step c a = some c' → inv c') {acts : List (Act Op)}
    (start : inv c) (along : m.Along meets c acts) (h : m.run c acts = some c') : inv c' := by
  induction acts generalizing c with
  | nil =>
    cases h
    exact start
  | cons a rest ih =>
    obtain ⟨next, first, later⟩ := Option.bind_eq_some_iff.mp h
    obtain ⟨met, along⟩ := along
    rw [first] at along
    exact ih (keeps c a next start met first) along later

/-! ### The operation a thread is at

Below the operation a thread is at there are only calls that it has not begun. -/

section tails

variable {call : Op → Prop} (calls : ∀ t op s s' more, m.exec t op s = some (s', more) → ∀ o ∈ more.tail, call o)

include calls in
theorem step_tails {c c' : Config σ Op} {a : Act Op} (tails : ∀ t, ∀ o ∈ (c.todo t).tail, call o)
    (h : m.step c a = some c') : ∀ t, ∀ o ∈ (c'.todo t).tail, call o := by
  intro t' o member
  cases a with
  | start t job =>
    obtain ⟨-, -, rfl⟩ := step_start h
    by_cases same : t' = t
    · subst same
      simp at member
    · dsimp only at member
      rw [Function.update_of_ne same] at member
      exact tails t' o member
  | run t =>
    obtain ⟨op, rest, s, more, next, done, rfl⟩ := step_run h
    by_cases same : t' = t
    · subst same
      have below : ∀ o ∈ rest, call o := by
        have below := tails t'
        rw [next] at below
        exact below
      dsimp only at member
      rw [Function.update_self] at member
      cases more with
      | nil => exact below o (List.mem_of_mem_tail member)
      | cons first others =>
        rcases List.mem_append.mp member with pushed | waiting
        · exact calls t' op c.shared s _ done o pushed
        · exact below o waiting
    · dsimp only at member
      rw [Function.update_of_ne same] at member
      exact tails t' o member

end tails

end Machine

end FfnNgfw.Threads
