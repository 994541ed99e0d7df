import FfnNgfw.Lib.Separated
import Mathlib.Algebra.Group.Nat.Defs
import Mathlib.Data.List.TakeWhile
import Mathlib.Tactic.Common

/-!
# Strings of C

A string is the bytes before the first zero of a buffer, and a pointer into it is the rest
of the string from there on.
-/

namespace FfnNgfw.CString

def text (raw : List UInt8) : List UInt8 := raw.takeWhile (· ≠ 0)

/-- What `strtok` gives call after call. -/
def strtok (sep : UInt8) (raw : List UInt8) : List (List UInt8) := ((text raw).splitOn sep).filter (· ≠ [])

def strchr (c : UInt8) : List UInt8 → Option (List UInt8)
  | [] => none
  | b :: s => if b = c then some (b :: s) else strchr c s

def strrchr (c : UInt8) : List UInt8 → Option (List UInt8)
  | [] => none
  | b :: s =>
    match strrchr c s with
    | some last => some last
    | none => if b = c then some (b :: s) else none

def isspace (b : UInt8) : Bool := b = 32 || (9 ≤ b && b ≤ 13)

def isdigit (b : UInt8) : Bool := 48 ≤ b && b ≤ 57

def sign : List UInt8 → Bool × List UInt8
  | [] => (false, [])
  | b :: s => if b = 45 then (true, s) else if b = 43 then (false, s) else (false, b :: s)

/-- `strtoul(s, NULL, 10)` for 64 bits: a number that does not fit is the largest one. -/
def strtoul (s : List UInt8) : Nat :=
  let (minus, s) := sign (s.dropWhile isspace)
  let n := (s.takeWhile isdigit).foldl (fun n b => 10 * n + (b.toNat - 48)) 0
  if 2 ^ 64 ≤ n then 2 ^ 64 - 1 else if minus then (2 ^ 64 - n) % 2 ^ 64 else n

theorem text_append_zero {s rest : List UInt8} (solid : 0 ∉ s) : text (s ++ 0 :: rest) = s := by
  unfold text
  rw [List.takeWhile_append_of_pos]
  · simp
  · intro b member
    rw [decide_eq_true_eq]
    rintro rfl
    exact solid member

theorem mem_text {raw : List UInt8} {b : UInt8} (member : b ∈ text raw) : b ≠ 0 := by
  have kept := List.mem_takeWhile_imp member
  exact of_decide_eq_true kept

theorem strtok_token {sep : UInt8} {raw token : List UInt8} (member : token ∈ strtok sep raw) : ∀ b ∈ token, b ≠ 0 ∧ b ≠ sep := by
  intro b inside
  have held := mem_of_mem_splitOn (List.mem_filter.mp member).1 inside
  exact ⟨mem_text held.1, held.2⟩

variable {rest a : List UInt8} {c : UInt8}

theorem strtok_lines {sep : UInt8} {lines : List (List UInt8)} (nonzero : sep ≠ 0)
    (each : ∀ line ∈ lines, line ≠ [] ∧ 0 ∉ line ∧ sep ∉ line) :
    strtok sep ((lines.flatMap fun line => line ++ [sep]) ++ 0 :: rest) = lines := by
  have solid : (0 : UInt8) ∉ lines.flatMap fun line => line ++ [sep] := by
    intro member
    obtain ⟨line, inside, here⟩ := List.mem_flatMap.mp member
    rcases List.mem_append.mp here with here | here
    · exact (each line inside).2.1 here
    · exact nonzero (List.mem_singleton.mp here).symm
  unfold strtok
  rw [text_append_zero solid]
  clear solid
  induction lines with
  | nil => rfl
  | cons line lines ih =>
    obtain ⟨some', -, clean⟩ := each line List.mem_cons_self
    rw [List.flatMap_cons, List.append_assoc, List.singleton_append, List.splitOn_append_cons_self_of_not_mem clean,
      List.filter_cons_of_pos (by simpa using some'), ih fun line member => each line (List.mem_cons_of_mem _ member)]

theorem strchr_append {a b : List UInt8} (clean : c ∉ a) : strchr c (a ++ c :: b) = some (c :: b) := by
  induction a with
  | nil => simp [strchr]
  | cons x a ih =>
    rw [List.mem_cons, not_or] at clean
    rw [List.cons_append, strchr, if_neg (Ne.symm clean.1), ih clean.2]

theorem strrchr_none (clean : c ∉ a) : strrchr c a = none := by
  induction a with
  | nil => rfl
  | cons x a ih =>
    rw [List.mem_cons, not_or] at clean
    rw [strrchr, ih clean.2]
    exact if_neg (Ne.symm clean.1)

theorem strrchr_append {a b : List UInt8} (clean : c ∉ b) : strrchr c (a ++ c :: b) = some (c :: b) := by
  induction a with
  | nil => simp [strrchr, strrchr_none clean]
  | cons x a ih => rw [List.cons_append, strrchr, ih]

theorem strchr_suffix {s t : List UInt8} (found : strchr c s = some t) : t <:+ s := by
  induction s with
  | nil => cases found
  | cons x s ih =>
    rw [strchr] at found
    split at found
    · obtain rfl := Option.some.inj found
      exact List.suffix_refl _
    · exact (ih found).trans (List.suffix_cons x s)

theorem strtoul_digits {digits rest : List UInt8} (some' : digits ≠ []) (each : ∀ b ∈ digits, isdigit b = true)
    (stop : rest.head?.all fun b => !isdigit b) (small : digits.foldl (fun n b => 10 * n + (b.toNat - 48)) 0 < 2 ^ 64) :
    strtoul (digits ++ rest) = digits.foldl (fun n b => 10 * n + (b.toNat - 48)) 0 := by
  obtain ⟨b, digits', rfl⟩ := List.exists_cons_of_ne_nil some'
  have digit := each b List.mem_cons_self
  have start : isspace b = false ∧ b ≠ 45 ∧ b ≠ 43 := by
    simp only [isdigit, Bool.and_eq_true, decide_eq_true_eq, UInt8.le_iff_toNat_le] at digit
    simp only [isspace, Bool.or_eq_false_iff, Bool.and_eq_false_iff, decide_eq_false_iff_not, UInt8.le_iff_toNat_le,
      ne_eq, ← UInt8.toNat_inj]
    simp only [UInt8.reduceToNat] at digit ⊢
    omega
  have run : (b :: digits' ++ rest).takeWhile isdigit = b :: digits' := by
    rw [List.takeWhile_append_of_pos each]
    cases rest with
    | nil => simp
    | cons x rest =>
      have other : isdigit x = false := by simpa using stop
      rw [List.takeWhile_cons, other]
      simp
  have signed : sign ((b :: digits' ++ rest).dropWhile isspace) = (false, b :: digits' ++ rest) := by
    rw [List.cons_append, List.dropWhile_cons, start.1]
    show sign (b :: (digits' ++ rest)) = _
    rw [sign, if_neg start.2.1, if_neg start.2.2]
  unfold strtoul
  rw [signed]
  dsimp only
  rw [run, if_neg (Nat.not_le.mpr small)]
  rfl

end FfnNgfw.CString
