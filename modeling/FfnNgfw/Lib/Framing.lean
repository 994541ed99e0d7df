import Mathlib.Data.List.Infix
import Mathlib.Tactic.Common

/-!
# Framing

Items that are taken off the front of a buffer one at a time, where the buffer is filled in
chunks. `Framed` says that the decoder knows each item by itself and waits for the rest of it;
what is left in the buffer is then always a proper beginning of the next item.
-/

namespace FfnNgfw.Framing

inductive Head (α β ε : Type) where
  | item (a : α) (rest : List β)
  | incomplete
  | bad (e : ε)

variable {α β ε : Type} {head : List β → Head α β ε} {encode : α → List β}

def drain (head : List β → Head α β ε) (buffer : List β) : Except ε (List α × List β) :=
  match head buffer with
  | .bad e => .error e
  | .incomplete => .ok ([], buffer)
  | .item a rest =>
    if rest.length < buffer.length then
      match drain head rest with
      | .ok (as, left) => .ok (a :: as, left)
      | .error e => .error e
    else .ok ([], buffer)
termination_by buffer.length

structure Framed (head : List β → Head α β ε) (encode : α → List β) (good : α → Prop) : Prop where
  whole : ∀ a, good a → ∀ rest, head (encode a ++ rest) = .item a rest
  short : ∀ a, good a → ∀ part, part <+: encode a → part ≠ encode a → head part = .incomplete
  some' : ∀ a, encode a ≠ []

/-- What can be left of a stream of items: the beginning of the first of them. -/
def Begun (encode : α → List β) (buffer : List β) (todo : List α) : Prop :=
  match todo with
  | [] => buffer = []
  | a :: _ => buffer <+: encode a ∧ buffer ≠ encode a

theorem Begun.length_lt {buffer : List β} {a : α} {todo : List α} (begun : Begun encode buffer (a :: todo)) :
    buffer.length < (encode a).length := by
  obtain ⟨part, differs⟩ := begun
  exact Nat.lt_of_le_of_ne part.length_le fun same => differs (part.eq_of_length same)

variable {good : α → Prop}

theorem drain_prefix (framed : Framed head encode good) {todo : List α} (fine : ∀ a ∈ todo, good a) {buffer : List β} {later : List β}
    (stream : buffer ++ later = (todo.map encode).flatten) (stops : head [] = .incomplete) :
    ∃ done left rest, todo = done ++ left ∧ drain head buffer = .ok (done, rest) ∧ Begun encode rest left ∧
      rest ++ later = (left.map encode).flatten := by
  induction todo generalizing buffer with
  | nil =>
    obtain ⟨rfl, rfl⟩ := List.append_eq_nil_iff.mp stream
    refine ⟨[], [], [], rfl, ?_, rfl, rfl⟩
    rw [drain, stops]
  | cons a todo ih =>
    rw [List.map_cons, List.flatten_cons] at stream
    by_cases there : encode a <+: buffer
    · obtain ⟨rest, rfl⟩ := there
      rw [List.append_assoc] at stream
      obtain ⟨done, left, kept, rfl, drained, begun, later'⟩ :=
        ih (fun b member => fine b (List.mem_cons_of_mem a member)) (List.append_cancel_left stream)
      refine ⟨a :: done, left, kept, rfl, ?_, begun, later'⟩
      have shorter : rest.length < (encode a ++ rest).length := by
        rw [List.length_append]
        have := List.length_pos_of_ne_nil (framed.some' a)
        omega
      rw [drain, framed.whole a (fine a List.mem_cons_self)]
      dsimp only
      rw [if_pos shorter, drained]
    · have part : buffer <+: encode a := by
        have both : buffer <+: encode a ++ (todo.map encode).flatten := ⟨later, stream⟩
        rcases List.prefix_or_prefix_of_prefix both (List.prefix_append (encode a) _) with part | whole
        · exact part
        · exact absurd whole there
      have differs : buffer ≠ encode a := fun same => there (same ▸ List.prefix_refl buffer)
      refine ⟨[], a :: todo, buffer, rfl, ?_, ⟨part, differs⟩, stream⟩
      rw [drain, framed.short a (fine a List.mem_cons_self) buffer part differs]

def SelfDelimiting (encode : α → List β) : Prop := ∀ a b rest rest', encode a ++ rest = encode b ++ rest' → a = b ∧ rest = rest'

theorem flatMap_ended (own : SelfDelimiting encode) {stop : β} (other : ∀ a rest rest', encode a ++ rest ≠ stop :: rest')
    {as bs : List α}
    {rest rest' : List β} (same : as.flatMap encode ++ stop :: rest = bs.flatMap encode ++ stop :: rest') : as = bs ∧ rest = rest' := by
  induction as generalizing bs with
  | nil =>
    cases bs with
    | nil => exact ⟨rfl, (List.cons.inj same).2⟩
    | cons b bs =>
      rw [List.flatMap_cons, List.append_assoc] at same
      exact absurd same.symm (other b _ _)
  | cons a as ih =>
    rw [List.flatMap_cons, List.append_assoc] at same
    cases bs with
    | nil => exact absurd same (other a _ _)
    | cons b bs =>
      rw [List.flatMap_cons, List.append_assoc] at same
      obtain ⟨rfl, later⟩ := own _ _ _ _ same
      obtain ⟨rfl, behind⟩ := ih later
      exact ⟨rfl, behind⟩

end FfnNgfw.Framing
