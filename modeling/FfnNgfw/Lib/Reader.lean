import FfnNgfw.Lib.Bytes

/-!
# Readers over a buffer

A reader moves a position through a buffer and fails where the buffer ends. `Reads` says that it
takes back what was written, wherever that stands in the buffer; it is stated for less than
`limit` bytes, so that a format whose length fields are bounded composes without side conditions.
-/

namespace FfnNgfw

structure Cursor where
  data : List UInt8
  off : Nat

abbrev Reader (ε α : Type) := StateT Cursor (Except ε) α

namespace Reader

variable {ε α β : Type}

/-- The next `size` bytes. -/
def take (underrun : Nat → Nat → Nat → ε) (size : Nat) : Reader ε (List UInt8) := fun c =>
  if c.off + size > c.data.length then .error (underrun size c.off c.data.length)
  else .ok (slice c.data c.off size, { c with off := c.off + size })

def times (r : Reader ε α) : Nat → Reader ε (List α)
  | 0 => pure []
  | n + 1 => do
    let a ← r
    let rest ← times r n
    return a :: rest

def Reads (limit : Nat) (r : Reader ε α) (written : List UInt8) (a : α) : Prop :=
  written.length < limit → ∀ front rest,
    r ⟨front ++ (written ++ rest), front.length⟩ = .ok (a, ⟨front ++ (written ++ rest), front.length + written.length⟩)

variable {limit : Nat} {r : Reader ε α} {written : List UInt8} {a : α}

theorem Reads.pure (a : α) : Reads limit (Pure.pure a : Reader ε α) [] a := fun _ _ _ => rfl

variable {f : α → Reader ε β}

theorem Reads.bind {more : List UInt8} {b : β} (first : Reads limit r written a) (second : Reads limit (f a) more b) :
    Reads limit (r >>= f) (written ++ more) b := by
  intro fits front rest
  rw [List.length_append] at fits
  have here := first (by omega) front (more ++ rest)
  have there := second (by omega) (front ++ written) rest
  rw [List.length_append, List.append_assoc] at there
  show (r ⟨_, _⟩ >>= fun p => f p.1 p.2) = _
  rw [List.append_assoc, here, List.length_append, ← Nat.add_assoc]
  exact there

theorem Reads.next {more : List (List UInt8)} {b : β} (first : Reads limit r written a)
    (second : Reads limit (f a) more.flatten b) : Reads limit (r >>= f) (written :: more).flatten b := by
  rw [List.flatten_cons]
  exact first.bind second

theorem Reads.map {g : α → β} (h : Reads limit r written a) : Reads limit (g <$> r) written (g a) := by
  intro fits front rest
  show (fun p : α × Cursor => (g p.1, p.2)) <$> r ⟨_, _⟩ = _
  rw [h fits front rest]
  rfl

theorem reads_take {underrun : Nat → Nat → Nat → ε} (written : List UInt8) :
    Reads limit (take underrun written.length) written written := by
  intro _ front rest
  have enough : ¬ front.length + written.length > (front ++ (written ++ rest)).length := by
    simp only [List.length_append]
    omega
  unfold take
  dsimp only
  rw [if_neg enough, ← List.append_assoc, slice_append rfl rfl]

theorem take_short {underrun : Nat → Nat → Nat → ε} {size : Nat} {c : Cursor} (h : c.data.length < c.off + size) :
    take underrun size c = .error (underrun size c.off c.data.length) := if_pos h

theorem reads_times {parts : List (List UInt8)} {as : List α} (h : List.Forall₂ (Reads limit r) parts as) :
    Reads limit (times r as.length) parts.flatten as := by
  induction h with
  | nil => exact .pure []
  | cons here rest ih =>
    rw [List.flatten_cons]
    refine here.bind ?_
    rw [← List.append_nil (List.flatten _)]
    exact ih.bind (.pure _)

def Consumes (r : Reader ε α) (size : Nat) : Prop :=
  ∀ c a c', r c = .ok (a, c') → c'.data = c.data ∧ c'.off = c.off + size ∧ (c.off ≤ c.data.length → c'.off ≤ c.data.length)

theorem consumes_take (underrun : Nat → Nat → Nat → ε) (size : Nat) : Consumes (take underrun size) size := by
  intro c a c' h
  unfold take at h
  split at h
  · cases h
  · cases h
    exact ⟨rfl, rfl, fun _ => by dsimp only; omega⟩

theorem Consumes.map {size : Nat} {g : α → β} (h : Consumes r size) : Consumes (g <$> r) size := by
  intro c b c' done
  have done : (fun p : α × Cursor => (g p.1, p.2)) <$> r c = .ok (b, c') := done
  cases first : r c with
  | error e =>
    rw [first] at done
    cases done
  | ok p =>
    rw [first] at done
    cases done
    exact h c p.1 p.2 first

theorem Consumes.bind {first second : Nat} (h : Consumes r first) (h' : ∀ a, Consumes (f a) second) :
    Consumes (r >>= f) (first + second) := by
  intro c b c' done
  have done : (r c >>= fun p => f p.1 p.2) = .ok (b, c') := done
  cases here : r c with
  | error e =>
    rw [here] at done
    cases done
  | ok p =>
    rw [here] at done
    obtain ⟨data, off, inside⟩ := h c p.1 p.2 here
    obtain ⟨data', off', inside'⟩ := h' p.1 p.2 b c' done
    refine ⟨data'.trans data, by omega, fun start => ?_⟩
    rw [data] at inside'
    exact inside' (inside start)

theorem consumes_pure (a : α) : Consumes (Pure.pure a : Reader ε α) 0 := by
  intro c b c' h
  cases h
  exact ⟨rfl, rfl, id⟩

theorem Consumes.short {size : Nat} (h : Consumes r size) {c : Cursor} (start : c.off ≤ c.data.length)
    (less : c.data.length < c.off + size) :
    ∃ e, r c = .error e := by
  cases here : r c with
  | error e => exact ⟨e, rfl⟩
  | ok p =>
    obtain ⟨-, off, inside⟩ := h c p.1 p.2 here
    have := inside start
    omega

end Reader

end FfnNgfw
