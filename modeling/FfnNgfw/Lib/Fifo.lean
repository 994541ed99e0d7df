import Mathlib.Tactic.Common

/-!
# Bounded queues

A bounded first-in first-out queue with its history: what was pushed, what was
popped, and what is in between. A push on a full queue and a pop on an empty one do
nothing.
-/

namespace FfnNgfw

structure Fifo (α : Type) where
  queue : List α
  pushed : List α
  popped : List α

namespace Fifo

variable {α : Type}

inductive Op (α : Type) where
  | push (x : α)
  | pop

def empty : Fifo α := ⟨[], [], []⟩

def step (cap : Nat) (f : Fifo α) : Op α → Fifo α
  | .push x => if f.queue.length < cap then ⟨f.queue ++ [x], f.pushed ++ [x], f.popped⟩ else f
  | .pop =>
    match f.queue with
    | [] => f
    | x :: rest => ⟨rest, f.pushed, f.popped ++ [x]⟩

/-- Nothing is lost, repeated or reordered, and the queue is never over its capacity. -/
structure Conserved (cap : Nat) (f : Fifo α) : Prop where
  order : f.pushed = f.popped ++ f.queue
  bounded : f.queue.length ≤ cap

theorem conserved_empty (cap : Nat) : Conserved cap (empty : Fifo α) := ⟨rfl, Nat.zero_le cap⟩

variable {cap : Nat} {f : Fifo α}

theorem Conserved.step (h : Conserved cap f) (op : Op α) : Conserved cap (f.step cap op) := by
  obtain ⟨order, bounded⟩ := h
  cases op with
  | push x =>
    simp only [Fifo.step]
    split
    · rename_i room
      refine ⟨?_, ?_⟩
      · dsimp only
        rw [order, List.append_assoc]
      · rw [List.length_append, List.length_singleton]
        omega
    · exact ⟨order, bounded⟩
  | pop =>
    simp only [Fifo.step]
    split
    · exact ⟨order, bounded⟩
    · rename_i x rest found
      rw [found] at order bounded
      refine ⟨?_, ?_⟩
      · dsimp only
        rw [order, List.append_assoc]
        rfl
      · rw [List.length_cons] at bounded
        dsimp only
        omega

theorem Conserved.popped_prefix (h : Conserved cap f) : f.popped <+: f.pushed :=
  ⟨f.queue, h.order.symm⟩

theorem Conserved.outstanding (h : Conserved cap f) :
    f.pushed.length = f.popped.length + f.queue.length := by
  rw [h.order, List.length_append]

theorem Conserved.unread {cap i : Nat} (h : Conserved cap f) (unread : f.popped.length ≤ i) :
    f.pushed[i]? = f.queue[i - f.popped.length]? := by
  rw [h.order, List.getElem?_append_right unread]

end Fifo
end FfnNgfw
