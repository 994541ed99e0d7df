import FfnNgfw.Emulator.Grammar
import FfnNgfw.Lib.Thompson
import Mathlib.Algebra.Order.Group.Int
import Mathlib.Logic.Function.Basic

/-!
# The parser of the emulator

`_RegexParser` builds the automaton of a pattern while it reads it: every fragment gets new
states, and joining fragments adds silent moves to states that are there. Sets of bytes are
sets of numbers here as there, and nothing in the parser keeps them below 256. The recursive
calls take a bound, and `parse_ends` shows that it is enough.
-/

namespace FfnNgfw.Emulator
open Threatdb (Text pyInt)

structure Nfa where
  size : Nat := 0
  eps : Nat → List Nat := fun _ => []
  sym : Nat → List (List Int × Nat) := fun _ => []

def Nfa.newState (nfa : Nfa) : Nfa := { nfa with size := nfa.size + 1 }

def Nfa.addEps (nfa : Nfa) (s t : Nat) : Nfa := { nfa with eps := Function.update nfa.eps s (nfa.eps s ++ [t]) }

def Nfa.addSym (nfa : Nfa) (s : Nat) (bs : List Int) (t : Nat) : Nfa :=
    { nfa with sym := Function.update nfa.sym s (nfa.sym s ++ [(bs, t)]) }

def Nfa.link (nfa : Nfa) (edges : List (Nat × Nat)) : Nfa := edges.foldl (fun nfa e => nfa.addEps e.1 e.2) nfa

abbrev Frag := Nat × Nat

/-- `range(lo, hi + 1)` -/
def intRange (lo hi : Int) : List Int := (List.range (hi + 1 - lo).toNat).map fun i : Nat => lo + (i : Int)

def allBytes : List Int := intRange 0 255

def clsDigit : List Int := intRange 0x30 0x39

def clsWord : List Int := intRange 0x30 0x39 ++ intRange 0x41 0x5A ++ intRange 0x61 0x7A ++ [0x5F]

def clsSpace : List Int := [0x20, 0x09, 0x0A, 0x0D, 0x0C, 0x0B]

def without (bs : List Int) : List Int := allBytes.filter (· ∉ bs)

/-! ### `_RegexParser` -/

inductive Stop where
  /-- `_Unsupported` -/
  | unsupported
  /-- `IndexError` -/
  | index
  /-- the bound on the calls is used up -/
  | bound
  deriving DecidableEq

section parser

variable (decimal : Char → Option Nat)

/-- After the backslash: the set of bytes and the rest of the text. -/
def escape : Text → Except Stop (List Int × Text)
  | [] => .error .unsupported
  | e :: t =>
    if e = 'd' then .ok (clsDigit, t)
    else if e = 'D' then .ok (without clsDigit, t)
    else if e = 'w' then .ok (clsWord, t)
    else if e = 'W' then .ok (without clsWord, t)
    else if e = 's' then .ok (clsSpace, t)
    else if e = 'S' then .ok (without clsSpace, t)
    else if e = 'x' then
      match t with
      | a :: b :: t =>
        match pyInt decimal 16 [a, b] with
        | some v => .ok ([v], t)
        | none => .error .unsupported
      | _ => .error .unsupported
    else
      match simpleEscape e with
      | some v => .ok ([(v.toNat : Int)], t)
      | none => .error .unsupported

def upperEnd : Text → Except Stop (Int × Text)
  | [] => .error .unsupported
  | d :: t =>
    if d = '\\' then do
      let (esc, t) ← escape decimal t
      match esc with
      | [hi] => return (hi, t)
      | _ => .error .unsupported
    else .ok ((d.toNat : Int), t)

def classRange (lo : Int) (t : Text) : Except Stop (List Int × Text) :=
  if rangeAhead t then do
    let (hi, t) ← upperEnd decimal t.tail
    if hi < lo then .error .unsupported else return (intRange lo hi, t)
  else .ok ([lo], t)

def classItem : Text → Except Stop (List Int × Text)
  | [] => .error .unsupported
  | c :: t =>
    if c = '\\' then do
      let (esc, t) ← escape decimal t
      match esc with
      | [lo] => classRange decimal lo t
      | _ => return (esc, t)
    else if 0xFF < c.toNat then .error .unsupported
    else classRange decimal c.toNat t

def classLoop : Nat → Bool → List Int → Text → Except Stop (List Int × Text)
  | 0, _, _, _ => .error .bound
  | n + 1, first, members, t =>
    if t.head? = some ']' ∧ first = false then .ok (members, t.tail)
    else do
      let (bs, t) ← classItem decimal t
      classLoop n false (members ++ bs) t

/-- `_char_class` after the opening bracket. -/
def charClass (t : Text) : Except Stop (List Int × Text) := do
  let negate : Bool := t.head? = some '^'
  let t := if negate then t.tail else t
  let (members, t) ← classLoop decimal (t.length + 1) true [] t
  let bs := if negate then without members else members
  if bs = [] then .error .unsupported else return (bs, t)

def bytesetFrag (bs : List Int) (nfa : Nfa) : Frag × Nfa :=
  ((nfa.size, nfa.size + 1), nfa.newState.newState.addSym nfa.size bs (nfa.size + 1))

def emptyFrag (nfa : Nfa) : Frag × Nfa := ((nfa.size, nfa.size + 1), nfa.newState.newState.link [(nfa.size, nfa.size + 1)])

def quantEdges (q : Char) (s a fs fa : Nat) : List (Nat × Nat) :=
  if q = '*' then [(s, fs), (s, a), (fa, fs), (fa, a)]
  else if q = '+' then [(s, fs), (fa, fs), (fa, a)]
  else [(s, fs), (s, a), (fa, a)]

def applyQuant (q : Char) (frag : Frag) (nfa : Nfa) : Frag × Nfa :=
  ((nfa.size, nfa.size + 1), nfa.newState.newState.link (quantEdges q nfa.size (nfa.size + 1) frag.1 frag.2))

def chain : Frag → List Frag → Nfa → Frag × Nfa
  | frag, [], nfa => (frag, nfa)
  | frag, next :: frags, nfa => chain (frag.1, next.2) frags (nfa.link [(frag.2, next.1)])

def branch (frags : List Frag) (nfa : Nfa) : Frag × Nfa :=
  ((nfa.size, nfa.size + 1),
    nfa.newState.newState.link (frags.flatMap fun frag => [(nfa.size, frag.1), (frag.2, nfa.size + 1)]))

mutual

def parseAlt : Nat → Text → Nfa → Except Stop (Frag × Text × Nfa)
  | 0, _, _ => .error .bound
  | n + 1, t, nfa => do
    let (frag, t, nfa) ← parseConcat n t nfa
    let (frags, t, nfa) ← parseBranches n t nfa
    if frags = [] then return (frag, t, nfa)
    else
      let (frag, nfa) := branch (frag :: frags) nfa
      return (frag, t, nfa)

def parseBranches : Nat → Text → Nfa → Except Stop (List Frag × Text × Nfa)
  | 0, _, _ => .error .bound
  | n + 1, t, nfa =>
    if t.head? = some '|' then do
      let (frag, t, nfa) ← parseConcat n t.tail nfa
      let (frags, t, nfa) ← parseBranches n t nfa
      return (frag :: frags, t, nfa)
    else .ok ([], t, nfa)

def parseConcat : Nat → Text → Nfa → Except Stop (Frag × Text × Nfa)
  | 0, _, _ => .error .bound
  | n + 1, t, nfa => do
    let (frags, t, nfa) ← parseItems n t nfa
    match frags with
    | [] =>
      let (frag, nfa) := emptyFrag nfa
      return (frag, t, nfa)
    | frag :: frags =>
      let (frag, nfa) := chain frag frags nfa
      return (frag, t, nfa)

def parseItems : Nat → Text → Nfa → Except Stop (List Frag × Text × Nfa)
  | 0, _, _ => .error .bound
  | n + 1, t, nfa =>
    if t = [] ∨ t.head? = some '|' ∨ t.head? = some ')' then .ok ([], t, nfa)
    else do
      let (frag, t, nfa) ← parseRepeat n t nfa
      let (frags, t, nfa) ← parseItems n t nfa
      return (frag :: frags, t, nfa)

def parseRepeat : Nat → Text → Nfa → Except Stop (Frag × Text × Nfa)
  | 0, _, _ => .error .bound
  | n + 1, t, nfa => do
    let (frag, t, nfa) ← parseAtom n t nfa
    match t with
    | [] => return (frag, [], nfa)
    | q :: t =>
      if q ∈ quantifiers then
        if t.head?.any (· ∈ quantifiers) then .error .unsupported
        else
          let (frag, nfa) := applyQuant q frag nfa
          return (frag, t, nfa)
      else if q = '{' then .error .unsupported
      else return (frag, q :: t, nfa)

def parseAtom : Nat → Text → Nfa → Except Stop (Frag × Text × Nfa)
  | 0, _, _ => .error .bound
  | _ + 1, [], _ => .error .unsupported
  | n + 1, c :: t, nfa =>
    if c = '(' then
      if t.head? = some '?' then .error .unsupported
      else do
        let (frag, t, nfa) ← parseAlt n t nfa
        if t.head? = some ')' then return (frag, t.tail, nfa) else .error .unsupported
    else if c = '[' then do
      let (bs, t) ← charClass decimal t
      let (frag, nfa) := bytesetFrag bs nfa
      return (frag, t, nfa)
    else if c = '.' then
      let (frag, nfa) := bytesetFrag allBytes nfa
      .ok (frag, t, nfa)
    else if c = '^' ∨ c = '$' then .error .unsupported
    else if c = ')' then .error .unsupported
    else if c = '\\' then do
      let (bs, t) ← escape decimal t
      let (frag, nfa) := bytesetFrag bs nfa
      return (frag, t, nfa)
    else if 0xFF < c.toNat then .error .unsupported
    else
      let (frag, nfa) := bytesetFrag [(c.toNat : Int)] nfa
      .ok (frag, t, nfa)

end

def parse (pattern : Text) : Except Stop (Frag × Nfa) := do
  let (frag, t, nfa) ← parseAlt decimal (5 * pattern.length + 5) pattern {}
  if t = [] then return (frag, nfa) else .error .unsupported

/-! ### The bound is enough -/

/-- Not stopped by the bound, and at most `k` characters are left. -/
def Ends {α : Type} (rest : α → Text) (k : Nat) : Except Stop α → Prop
  | .error e => e ≠ .bound
  | .ok a => (rest a).length ≤ k

section

variable {decimal} {α β : Type} {rest : α → Text} {rest' : β → Text} {k k' : Nat}

theorem ends_unsupported : Ends rest k (.error .unsupported) := fun same => by cases same

theorem Ends.bind {x : Except Stop α} {f : α → Except Stop β} (first : Ends rest k x)
    (later : ∀ a, (rest a).length ≤ k → Ends rest' k' (f a)) :
    Ends rest' k' (x >>= f) := by
  cases x with
  | error e => exact first
  | ok a => exact later a first

theorem Ends.mono {x : Except Stop α} (ends : Ends rest k x) (le : k ≤ k') : Ends rest k' x := by
  cases x with
  | error e => exact ends
  | ok a => exact Nat.le_trans ends le

theorem escape_ends (t : Text) : Ends Prod.snd (t.length - 1) (escape decimal t) := by
  cases t with
  | nil => exact ends_unsupported
  | cons e t =>
    rw [escape.eq_def]
    dsimp only
    split_ifs
    · exact Nat.le_refl _
    · exact Nat.le_refl _
    · exact Nat.le_refl _
    · exact Nat.le_refl _
    · exact Nat.le_refl _
    · exact Nat.le_refl _
    · split
      · rename_i a b t
        split
        · show t.length ≤ _
          simp only [List.length_cons]
          omega
        · exact ends_unsupported
      · exact ends_unsupported
    · split
      · exact Nat.le_refl _
      · exact ends_unsupported

theorem upperEnd_ends (t : Text) : Ends Prod.snd (t.length - 1) (upperEnd decimal t) := by
  cases t with
  | nil => exact ends_unsupported
  | cons d t =>
    rw [upperEnd]
    split
    · refine (escape_ends t).bind fun a short => ?_
      obtain ⟨esc, rest⟩ := a
      have short : rest.length ≤ t.length - 1 := short
      dsimp only
      split
      · show rest.length ≤ t.length
        omega
      · exact ends_unsupported
    · exact Nat.le_refl _

theorem classRange_ends (lo : Int) (t : Text) : Ends Prod.snd t.length (classRange decimal lo t) := by
  rw [classRange]
  split
  · refine (upperEnd_ends t.tail).bind fun a short => ?_
    obtain ⟨hi, rest⟩ := a
    have short : rest.length ≤ t.tail.length - 1 := short
    rw [List.length_tail] at short
    dsimp only
    split
    · exact ends_unsupported
    · show rest.length ≤ t.length
      omega
  · exact Nat.le_refl _

theorem classItem_ends (t : Text) : Ends Prod.snd (t.length - 1) (classItem decimal t) := by
  cases t with
  | nil => exact ends_unsupported
  | cons c t =>
    rw [classItem]
    split
    · refine (escape_ends t).bind fun a short => ?_
      obtain ⟨esc, rest⟩ := a
      have short : rest.length ≤ t.length - 1 := short
      dsimp only
      split
      · refine (classRange_ends _ _).mono ?_
        show rest.length ≤ t.length
        omega
      · show rest.length ≤ t.length
        omega
    · split
      · exact ends_unsupported
      · exact classRange_ends _ t

theorem classLoop_ends {n : Nat} {first : Bool} {members : List Int} {t : Text} (enough : t.length < n) :
    Ends Prod.snd t.length (classLoop decimal n first members t) := by
  induction n generalizing first members t with
  | zero => omega
  | succ n ih =>
    rw [classLoop]
    split
    · show t.tail.length ≤ t.length
      rw [List.length_tail]
      omega
    · by_cases done : t = []
      · subst done
        exact ends_unsupported
      · have some' := List.length_pos_of_ne_nil done
        exact (classItem_ends t).bind fun a short => (ih (by omega)).mono (by omega)

theorem charClass_ends (t : Text) : Ends Prod.snd t.length (charClass decimal t) := by
  have loop : ∀ s : Text, s.length ≤ t.length → ∀ f : List Int → List Int,
      Ends Prod.snd t.length (classLoop decimal (s.length + 1) true [] s >>= fun a =>
        if f a.1 = [] then .error .unsupported else pure (f a.1, a.2)) := by
    intro s le f
    refine (classLoop_ends (Nat.lt_succ_self _)).bind fun a short => ?_
    split
    · exact ends_unsupported
    · exact Nat.le_trans short le
  unfold charClass
  by_cases negate : decide (t.head? = some '^') = true
  · rw [negate]
    exact loop t.tail (by rw [List.length_tail]; omega) without
  · rw [Bool.not_eq_true] at negate
    rw [negate]
    exact loop t (Nat.le_refl _) id

end

/-- What the bound `n` is enough for. -/
structure Ending (n : Nat) : Prop where
  alt : ∀ t nfa, 5 * t.length + 5 ≤ n → Ends (fun a => a.2.1) t.length (parseAlt decimal n t nfa)
  branches : ∀ t nfa, 5 * t.length + 4 ≤ n → Ends (fun a => a.2.1) t.length (parseBranches decimal n t nfa)
  concat : ∀ t nfa, 5 * t.length + 4 ≤ n → Ends (fun a => a.2.1) t.length (parseConcat decimal n t nfa)
  items : ∀ t nfa, 5 * t.length + 3 ≤ n → Ends (fun a => a.2.1) t.length (parseItems decimal n t nfa)
  rep : ∀ t nfa, 5 * t.length + 2 ≤ n → Ends (fun a => a.2.1) (t.length - 1) (parseRepeat decimal n t nfa)
  atom : ∀ t nfa, 5 * t.length + 1 ≤ n → Ends (fun a => a.2.1) (t.length - 1) (parseAtom decimal n t nfa)

theorem ending (n : Nat) : Ending decimal n := by
  induction n with
  | zero => exact ⟨fun _ _ _ => by omega, fun _ _ _ => by omega, fun _ _ _ => by omega, fun _ _ _ => by omega,
      fun _ _ _ => by omega, fun _ _ _ => by omega⟩
  | succ n ih =>
    refine ⟨fun t nfa enough => ?_, fun t nfa enough => ?_, fun t nfa enough => ?_, fun t nfa enough => ?_,
      fun t nfa enough => ?_, fun t nfa enough => ?_⟩
    · rw [parseAlt]
      refine (ih.concat t nfa (by omega)).bind fun a short => ?_
      refine (ih.branches a.2.1 a.2.2 (by omega)).bind fun b short' => ?_
      dsimp only
      split
      · exact Nat.le_trans short' short
      · exact Nat.le_trans short' short
    · rw [parseBranches]
      split
      · rename_i bar
        have some' : 0 < t.length := by
          cases t with
          | nil => cases bar
          | cons => exact Nat.succ_pos _
        have tail := List.length_tail (l := t)
        refine (ih.concat t.tail nfa (by omega)).bind fun a short => ?_
        refine (ih.branches a.2.1 a.2.2 (by omega)).bind fun b short' => ?_
        show b.2.1.length ≤ t.length
        omega
      · exact Nat.le_refl _
    · rw [parseConcat]
      refine (ih.items t nfa (by omega)).bind fun a short => ?_
      dsimp only
      split
      · exact short
      · exact short
    · rw [parseItems]
      split
      · exact Nat.le_refl _
      · rename_i goes
        simp only [not_or] at goes
        have some' := List.length_pos_of_ne_nil goes.1
        refine (ih.rep t nfa (by omega)).bind fun a short => ?_
        refine (ih.items a.2.1 a.2.2 (by omega)).bind fun b short' => ?_
        show b.2.1.length ≤ t.length
        omega
    · rw [parseRepeat]
      refine (ih.atom t nfa (by omega)).bind fun a short => ?_
      dsimp only
      split
      · exact Nat.zero_le _
      · rename_i q rest same
        rw [same, List.length_cons] at short
        split
        · split
          · exact ends_unsupported
          · show rest.length ≤ _
            omega
        · split
          · exact ends_unsupported
          · exact short
    · cases t with
      | nil => exact ends_unsupported
      | cons c t =>
        rw [List.length_cons] at enough
        rw [parseAtom]
        split
        · split
          · exact ends_unsupported
          · refine (ih.alt t nfa (by omega)).bind fun a short => ?_
            dsimp only
            split
            · show a.2.1.tail.length ≤ t.length
              rw [List.length_tail]
              omega
            · exact ends_unsupported
        · split
          · exact (charClass_ends t).bind fun a short => short
          · split
            · exact Nat.le_refl _
            · split_ifs
              · exact ends_unsupported
              · exact ends_unsupported
              · refine (escape_ends t).bind fun a short => ?_
                show a.2.length ≤ t.length
                omega
              · exact ends_unsupported
              · exact Nat.le_refl _

theorem parse_ends (pattern : Text) : parse decimal pattern ≠ .error .bound := by
  have ends : Ends (fun _ => []) 0 (parse decimal pattern) := by
    refine ((ending decimal _).alt pattern {} (Nat.le_refl _)).bind fun a _ => ?_
    dsimp only
    split
    · exact Nat.le_refl _
    · exact ends_unsupported
  intro same
  rw [same] at ends
  exact ends rfl

end parser

end FfnNgfw.Emulator
