import FfnNgfw.Lib.Memory

/-!
# Readers that tell what they read

A reader returns a value and the addresses it has looked at. The list is complete:
memories that agree on it give the same run, so a reader that stays inside a buffer
cannot depend on anything else.
-/

namespace FfnNgfw

structure Access (α : Type) where
  run : Mem → α × List Nat
  complete : ∀ m m', (∀ a ∈ (run m).2, m' a = m a) → run m' = run m

namespace Access

variable {α β : Type}

def value (x : Access α) (m : Mem) : α := (x.run m).1

def reads (x : Access α) (m : Mem) : List Nat := (x.run m).2

instance : Monad Access where
  pure a := ⟨fun _ => (a, []), fun _ _ _ => rfl⟩
  bind x f :=
    { run m := (((f (x.value m)).run m).1, x.reads m ++ (f (x.value m)).reads m)
      complete := by
        intro m m' same
        obtain ⟨first, second⟩ := List.forall_mem_append.mp same
        have run : x.run m' = x.run m := x.complete m m' first
        have rest : (f (x.value m)).run m' = (f (x.value m)).run m := (f (x.value m)).complete m m' second
        unfold value at rest
        unfold value reads
        rw [run, rest] }

def load (p : Nat) : Access UInt8 where
  run m := (m p, [p])
  complete := by
    intro m m' same
    rw [same p List.mem_cons_self]

def ldLe16 (p : Nat) : Access UInt16 := do
  return (← load p).toUInt16 ||| ((← load (p + 1)).toUInt16 <<< 8)

def ldLe32 (p : Nat) : Access UInt32 := do
  return (← load p).toUInt32 ||| ((← load (p + 1)).toUInt32 <<< 8) ||| ((← load (p + 2)).toUInt32 <<< 16) |||
    ((← load (p + 3)).toUInt32 <<< 24)

def ldBe16 (p : Nat) : Access UInt16 := do
  return ((← load p).toUInt16 <<< 8) ||| (← load (p + 1)).toUInt16

def ldBe32 (p : Nat) : Access UInt32 := do
  return ((← load p).toUInt32 <<< 24) ||| ((← load (p + 1)).toUInt32 <<< 16) ||| ((← load (p + 2)).toUInt32 <<< 8) |||
    (← load (p + 3)).toUInt32

def bytes (p : Nat) : Nat → Access (List UInt8)
  | 0 => return []
  | n + 1 => do
    let b ← load p
    return b :: (← bytes (p + 1) n)

/-! ### Values -/

section values

variable (m : Mem)

@[simp] theorem value_pure (a : α) : (pure a : Access α).value m = a := rfl

@[simp] theorem value_bind (x : Access α) (f : α → Access β) : (x >>= f).value m = (f (x.value m)).value m := rfl

@[simp] theorem value_map (f : α → β) (x : Access α) : (f <$> x).value m = f (x.value m) := rfl

@[simp] theorem value_load (p : Nat) : (load p).value m = m p := rfl

@[simp] theorem value_ldLe16 (p : Nat) : (ldLe16 p).value m = m.ldLe16 p := rfl

@[simp] theorem value_ldLe32 (p : Nat) : (ldLe32 p).value m = m.ldLe32 p := rfl

@[simp] theorem value_ldBe16 (p : Nat) : (ldBe16 p).value m = m.ldBe16 p := rfl

@[simp] theorem value_ldBe32 (p : Nat) : (ldBe32 p).value m = m.ldBe32 p := rfl

@[simp] theorem value_bytes (p n : Nat) : (bytes p n).value m = m.bytes p n := by
  induction n generalizing p with
  | zero => rfl
  | succ n ih =>
    have first : (bytes p (n + 1)).value m = m p :: (bytes (p + 1) n).value m := rfl
    rw [first, ih, Mem.bytes, Mem.bytes, List.range_succ_eq_map, List.map_cons, List.map_map, Nat.add_zero]
    congr 1
    refine List.map_congr_left fun i _ => ?_
    show m (p + 1 + i) = m (p + (i + 1))
    rw [Nat.add_assoc, Nat.add_comm 1]

@[simp] theorem value_ite (c : Prop) [Decidable c] (x y : Access α) :
    (if c then x else y).value m = if c then x.value m else y.value m := by
  split
  · rfl
  · rfl

end values

/-! ### Where a reader stays -/

def Stays (x : Access α) (m : Mem) (inside : Nat → Prop) : Prop := ∀ a ∈ x.reads m, inside a

section stays

variable (m : Mem) (inside : Nat → Prop)

@[simp] theorem stays_pure (a : α) : (pure a : Access α).Stays m inside := by
  intro p member
  cases member

@[simp] theorem stays_bind (x : Access α) (f : α → Access β) :
    (x >>= f).Stays m inside ↔ x.Stays m inside ∧ (f (x.value m)).Stays m inside := List.forall_mem_append

@[simp] theorem stays_map (f : α → β) (x : Access α) : (f <$> x).Stays m inside ↔ x.Stays m inside :=
  (stays_bind m inside x _).trans (and_iff_left (stays_pure m inside _))

@[simp] theorem stays_load (p : Nat) : (load p).Stays m inside ↔ inside p := List.forall_mem_singleton

@[simp] theorem stays_ldLe16 (p : Nat) : (ldLe16 p).Stays m inside ↔ inside p ∧ inside (p + 1) := by
  simp [ldLe16]

@[simp] theorem stays_ldLe32 (p : Nat) :
    (ldLe32 p).Stays m inside ↔ inside p ∧ inside (p + 1) ∧ inside (p + 2) ∧ inside (p + 3) := by
  simp [ldLe32]

@[simp] theorem stays_ldBe16 (p : Nat) : (ldBe16 p).Stays m inside ↔ inside p ∧ inside (p + 1) := by
  simp [ldBe16]

@[simp] theorem stays_ldBe32 (p : Nat) :
    (ldBe32 p).Stays m inside ↔ inside p ∧ inside (p + 1) ∧ inside (p + 2) ∧ inside (p + 3) := by
  simp [ldBe32]

@[simp] theorem stays_bytes (p n : Nat) : (bytes p n).Stays m inside ↔ ∀ i < n, inside (p + i) := by
  induction n generalizing p with
  | zero => exact ⟨fun _ i lt => absurd lt (Nat.not_lt_zero i), fun _ => stays_pure m inside _⟩
  | succ n ih =>
    rw [bytes, stays_bind, stays_load, stays_bind, ih]
    constructor
    · rintro ⟨first, rest, _⟩ i lt
      cases i with
      | zero => exact first
      | succ i =>
        rw [Nat.add_comm i, ← Nat.add_assoc]
        exact rest i (by omega)
    · intro all
      refine ⟨all 0 (by omega), fun i lt => ?_, stays_pure m inside _⟩
      rw [Nat.add_assoc, Nat.add_comm 1]
      exact all (i + 1) (by omega)

@[simp] theorem stays_ite (c : Prop) [Decidable c] (x y : Access α) :
    (if c then x else y).Stays m inside ↔ (c → x.Stays m inside) ∧ (¬c → y.Stays m inside) := by
  split
  · rename_i holds
    exact ⟨fun stays => ⟨fun _ => stays, fun fails => absurd holds fails⟩, fun both => both.1 holds⟩
  · rename_i fails
    exact ⟨fun stays => ⟨fun holds => absurd holds fails, fun _ => stays⟩, fun both => both.2 fails⟩

theorem Stays.imp {m : Mem} {inside inside' : Nat → Prop} {x : Access α} (h : x.Stays m inside)
    (wider : ∀ a, inside a → inside' a) : x.Stays m inside' := fun a member => wider a (h a member)

end stays

end Access
end FfnNgfw
