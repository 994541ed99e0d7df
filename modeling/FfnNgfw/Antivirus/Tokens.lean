import FfnNgfw.Antivirus.Sigdb
import Mathlib.Data.List.TakeWhile

/-!
# The tokens of a hex signature

A signature that is admitted and compiles is a sequence of tokens: pairs of nibbles,
stars, gaps and alternations. The readers of the two engines and the anchor scanner are
described over the tokens from here on.
-/

namespace FfnNgfw.Antivirus
open Threatdb (Text hexDigit pyInt fromHex strip digit digits digitsFrom dropPrefix hexDigit_lt hexDigit_solid hexDigit_bound
  dropPrefix_hex strip_of_solid)
open Policy (isSpace)

/-! ### Numbers -/

def valueOf (base : Nat) (s : Text) : Nat := s.foldl (fun n c => n * base + (hexDigit c).getD 0) 0

def DigitsOf (base : Nat) (s : Text) : Prop := ∀ c ∈ s, ∃ d, hexDigit c = some d ∧ d < base

variable {decimal : Char → Option Nat} {base : Nat} {s : Text}

theorem digitsFrom_value (all : DigitsOf base s) (acc : Nat) :
    digitsFrom decimal base acc s = some (s.foldl (fun n c => n * base + (hexDigit c).getD 0) acc) := by
  induction s generalizing acc with
  | nil => rfl
  | cons c s ih =>
    obtain ⟨d, found, small⟩ := all c List.mem_cons_self
    have plain : c ≠ '_' := by
      rintro rfl
      cases found
    rw [digitsFrom]
    · have value : digit decimal base c = some d := by simp [digit, found, small]
      rw [value, List.foldl_cons, found]
      exact ih (fun x inside => all x (List.mem_cons_of_mem _ inside)) _
    · intro x rest same
      exact absurd same plain

theorem digits_value (all : DigitsOf base s) (nonempty : s ≠ []) : digits decimal base s = some (valueOf base s) := by
  cases s with
  | nil => exact absurd rfl nonempty
  | cons c s =>
    obtain ⟨d, found, small⟩ := all c List.mem_cons_self
    have first : digit decimal base c = some d := by simp [digit, found, small]
    rw [digits, first, valueOf, List.foldl_cons, found]
    rw [Nat.zero_mul, Nat.zero_add, Option.getD_some]
    exact digitsFrom_value (fun x inside => all x (List.mem_cons_of_mem _ inside)) d

theorem pyInt_value (all : DigitsOf base s) (nonempty : s ≠ []) : pyInt decimal base s = some (valueOf base s : Int) := by
  have hex : ∀ c ∈ s, (hexDigit c).isSome = true := by
    intro c inside
    obtain ⟨d, found, -⟩ := all c inside
    rw [found]
    rfl
  have solid : strip s = s := strip_of_solid fun c inside => hexDigit_solid (hex c inside)
  have value : digits decimal base s = some (valueOf base s) := digits_value all nonempty
  unfold pyInt
  rw [solid]
  dsimp only
  split
  · exact absurd (hex '-' List.mem_cons_self) (by decide)
  · exact absurd (hex '+' List.mem_cons_self) (by decide)
  · rw [dropPrefix_hex hex, ite_self, value]
    rfl

structure Foreign (decimal : Char → Option Nat) (c : Char) : Prop where
  digit : hexDigit c = none
  decimal : decimal c = none
  solid : isSpace c = false
  other : c ∉ ['_', '+', '-', 'x', 'X', '0']

theorem digitsFrom_foreign {c : Char} (foreign : Foreign decimal c) (acc : Nat) (inside : c ∈ s) :
    digitsFrom decimal base acc s = none := by
  have bad : Threatdb.digit decimal base c = none := by simp [Threatdb.digit, foreign.digit, foreign.decimal]
  fun_induction digitsFrom decimal base acc s with
  | case1 => cases inside
  | case2 acc c' rest ih =>
    rcases List.mem_cons.mp inside with rfl | inside
    · exact absurd (by simp) foreign.other
    · rcases List.mem_cons.mp inside with rfl | inside
      · rw [bad]
        rfl
      · cases Threatdb.digit decimal base c' with
        | none => rfl
        | some d => exact ih d inside
  | case3 acc c' rest _ ih =>
    rcases List.mem_cons.mp inside with rfl | inside
    · rw [bad]
      rfl
    · cases Threatdb.digit decimal base c' with
      | none => rfl
      | some d => exact ih d inside

theorem digits_foreign {c : Char} (foreign : Foreign decimal c) (inside : c ∈ s) : digits decimal base s = none := by
  cases s with
  | nil => rfl
  | cons c' s =>
    rw [digits]
    rcases List.mem_cons.mp inside with rfl | inside
    · have bad : Threatdb.digit decimal base c = none := by simp [Threatdb.digit, foreign.digit, foreign.decimal]
      rw [bad]
      rfl
    · cases Threatdb.digit decimal base c' with
      | none => rfl
      | some d => exact digitsFrom_foreign foreign d inside

theorem mem_dropWhile {c : Char} {p : Char → Bool} (inside : c ∈ s) (out : p c = false) : c ∈ s.dropWhile p := by
  induction s with
  | nil => cases inside
  | cons c' s ih =>
    rw [List.dropWhile_cons]
    split
    · rename_i dropped
      rcases List.mem_cons.mp inside with rfl | inside
      · rw [out] at dropped
        cases dropped
      · exact ih inside
    · exact inside

theorem mem_strip {c : Char} (inside : c ∈ s) (solid : isSpace c = false) : c ∈ strip s := by
  rw [strip, List.mem_reverse]
  exact mem_dropWhile (List.mem_reverse.mpr (mem_dropWhile inside solid)) solid

theorem mem_dropPrefix {c : Char} (foreign : Foreign decimal c) (inside : c ∈ s) : c ∈ dropPrefix s := by
  have other := foreign.other
  simp only [List.mem_cons, List.not_mem_nil, or_false, not_or] at other
  unfold dropPrefix
  split
  · next x rest =>
    split
    · rename_i prefixed
      have inside : c ∈ rest := by
        rcases List.mem_cons.mp inside with rfl | inside
        · exact absurd rfl other.2.2.2.2.2
        · rcases List.mem_cons.mp inside with rfl | inside
          · exact absurd prefixed (by simp [other])
          · exact inside
      split
      · rcases List.mem_cons.mp inside with rfl | inside
        · exact absurd rfl other.1
        · exact inside
      · exact inside
    · exact inside
  · exact inside

theorem pyInt_foreign {c : Char} (foreign : Foreign decimal c) (inside : c ∈ s) : pyInt decimal base s = none := by
  have stripped := mem_strip inside foreign.solid
  have other := foreign.other
  simp only [List.mem_cons, List.not_mem_nil, or_false, not_or] at other
  have unsigned : ∀ s, c ∈ s → digits decimal base (if base = 16 then dropPrefix s else s) = none := by
    intro s inside
    split
    · exact digits_foreign foreign (mem_dropPrefix foreign inside)
    · exact digits_foreign foreign inside
  unfold pyInt
  dsimp only
  split
  · rename_i rest eq
    rw [eq] at stripped
    rcases List.mem_cons.mp stripped with rfl | stripped
    · exact absurd rfl other.2.2.1
    · rw [unsigned rest stripped]
      rfl
  · rename_i rest eq
    rw [eq] at stripped
    rcases List.mem_cons.mp stripped with rfl | stripped
    · exact absurd rfl other.2.1
    · rw [unsigned rest stripped]
      rfl
  · rw [unsigned _ stripped]
    rfl

/-! ### What admission says -/

def Shrinks (m : Text → Option Text) : Prop := ∀ c s rest, m (c :: s) = some rest → rest.length ≤ s.length

section sub

variable {m : Text → Option Text} {c : Char} {rest : Text}

theorem subLoop_enough (shrinks : Shrinks m) {fuel : Nat} (enough : s.length ≤ fuel) : subLoop m fuel s = sub m s := by
  have both : ∀ n s, s.length ≤ n → ∀ fuel fuel', s.length ≤ fuel → s.length ≤ fuel' → subLoop m fuel s = subLoop m fuel' s := by
    intro n
    induction n with
    | zero =>
      intro s short fuel fuel' _ _
      obtain rfl : s = [] := List.length_eq_zero_iff.mp (by omega)
      cases fuel <;> cases fuel' <;> rfl
    | succ n ih =>
      intro s short fuel fuel' enough enough'
      cases s with
      | nil => cases fuel <;> cases fuel' <;> rfl
      | cons c s =>
        rw [List.length_cons] at short enough enough'
        obtain ⟨fuel, rfl⟩ : ∃ k, fuel = k + 1 := ⟨fuel - 1, by omega⟩
        obtain ⟨fuel', rfl⟩ : ∃ k, fuel' = k + 1 := ⟨fuel' - 1, by omega⟩
        rw [subLoop, subLoop]
        cases found : m (c :: s) with
        | some rest =>
          have := shrinks c s rest found
          exact ih rest (by omega) fuel fuel' (by omega) (by omega)
        | none =>
          dsimp only
          rw [ih s (by omega) fuel fuel' (by omega) (by omega)]
  exact both s.length s (Nat.le_refl _) fuel s.length enough (Nat.le_refl _)

theorem sub_none (missing : m (c :: s) = none) : sub m (c :: s) = c :: sub m s := by
  rw [sub, List.length_cons, subLoop, missing]
  rfl

theorem sub_some (shrinks : Shrinks m) (found : m (c :: s) = some rest) : sub m (c :: s) = sub m rest := by
  rw [sub, List.length_cons, subLoop, found]
  exact subLoop_enough shrinks (shrinks c s rest found)

end sub

theorem altMatch_some {rest : Text} (found : altMatch ('(' :: s) = some rest) :
    ∃ body, body ≠ [] ∧ (∀ c ∈ body, isAltChar c = true) ∧ s = body ++ ')' :: rest := by
  simp only [altMatch] at found
  split at found
  · rename_i rest' eq
    split at found
    · cases found
    · rename_i nonempty
      obtain rfl := Option.some.inj found
      refine ⟨s.takeWhile isAltChar, nonempty, fun c inside => List.mem_takeWhile_imp inside, ?_⟩
      rw [← eq, List.takeWhile_append_dropWhile]
  · cases found

theorem altMatch_other {c : Char} (other : c ≠ '(') : altMatch (c :: s) = none := by
  unfold altMatch
  split
  · rename_i eq
    exact absurd (List.cons.inj eq).1 other
  · rfl

theorem altMatch_shrinks : Shrinks altMatch := by
  intro c s rest found
  by_cases opens : c = '('
  · subst opens
    obtain ⟨body, -, -, rfl⟩ := altMatch_some found
    simp
    omega
  · rw [altMatch_other opens] at found
    cases found

def GapForm (spec : Text) : Prop :=
  DigitsOf 10 spec ∨ ∃ a b, DigitsOf 10 a ∧ DigitsOf 10 b ∧ spec = a ++ '-' :: b

theorem isDigit_hexDigit {c : Char} (isDigit : c.isDigit = true) : ∃ d, hexDigit c = some d ∧ d < 10 := by
  refine ⟨c.toNat - '0'.toNat, by rw [hexDigit, if_pos isDigit], ?_⟩
  simp only [Char.isDigit, Bool.and_eq_true, decide_eq_true_eq] at isDigit
  have le : c.toNat ≤ 57 := UInt32.le_iff_toNat_le.mp isDigit.2
  have : '0'.toNat = 48 := rfl
  omega

theorem digitsOf_takeWhile (s : Text) : DigitsOf 10 (s.takeWhile Char.isDigit) :=
  fun _ inside => isDigit_hexDigit (List.mem_takeWhile_imp inside)

variable {a b : Text} {U : Unicode}

theorem DigitsOf.append (first : DigitsOf base a) (second : DigitsOf base b) : DigitsOf base (a ++ b) := by
  intro c inside
  rcases List.mem_append.mp inside with inside | inside
  · exact first c inside
  · exact second c inside

theorem gapMatch_some {rest : Text} (found : gapMatch ('{' :: s) = some rest) : ∃ spec, GapForm spec ∧ s = spec ++ '}' :: rest := by
  simp only [gapMatch] at found
  split at found
  · rename_i rest' eq
    obtain rfl := Option.some.inj found
    have first : s = s.takeWhile Char.isDigit ++ s.dropWhile Char.isDigit := List.takeWhile_append_dropWhile.symm
    have second : dropDash (s.dropWhile Char.isDigit) = (dropDash (s.dropWhile Char.isDigit)).takeWhile Char.isDigit ++
        '}' :: rest' := by
      rw [← eq, List.takeWhile_append_dropWhile]
    have front := digitsOf_takeWhile s
    have back := digitsOf_takeWhile (dropDash (s.dropWhile Char.isDigit))
    generalize s.takeWhile Char.isDigit = a at *
    generalize (dropDash (s.dropWhile Char.isDigit)).takeWhile Char.isDigit = b at *
    generalize s.dropWhile Char.isDigit = middle at *
    subst first
    unfold dropDash at second
    split at second
    · refine ⟨a ++ '-' :: b, .inr ⟨a, b, front, back, rfl⟩, ?_⟩
      rw [second, List.append_assoc]
      rfl
    · exact ⟨a ++ b, .inl (front.append back), by rw [second, List.append_assoc]⟩
  · cases found

theorem gapMatch_other {c : Char} (other : c ≠ '{') : gapMatch (c :: s) = none := by
  unfold gapMatch
  split
  · rename_i eq
    exact absurd (List.cons.inj eq).1 other
  · rfl

theorem gapMatch_shrinks : Shrinks gapMatch := by
  intro c s rest found
  by_cases opens : c = '{'
  · subst opens
    obtain ⟨spec, -, rfl⟩ := gapMatch_some found
    simp
    omega
  · rw [gapMatch_other opens] at found
    cases found

def isNibble (c : Char) : Bool := isHex c || c = '?'

/-- Outside its alternations and gaps the text has stars and nibbles only. -/
def Clean (s : Text) : Prop := ∀ c ∈ sub gapMatch (sub altMatch s), c = '*' ∨ isNibble c = true

theorem clean_of_admitted (admitted : validateHexsig s = true) : Clean s := by
  intro c inside
  simp only [validateHexsig, Bool.and_eq_true, List.all_eq_true, List.mem_filter, decide_eq_true_eq] at admitted
  by_cases star : c = '*'
  · exact .inl star
  · by_cases wild : c = '?'
    · exact .inr (by simp [isNibble, wild])
    · exact .inr (by simp [isNibble, admitted.2 c ⟨⟨inside, star⟩, wild⟩])

theorem Clean.cons {c : Char} (clean : Clean (c :: s)) (noAlt : c ≠ '(') (noGap : c ≠ '{') :
    (c = '*' ∨ isNibble c = true) ∧ Clean s := by
  rw [Clean, sub_none (altMatch_other noAlt), sub_none (gapMatch_other noGap)] at clean
  exact ⟨clean c List.mem_cons_self, fun x inside => clean x (List.mem_cons_of_mem _ inside)⟩

theorem Clean.alternation (clean : Clean ('(' :: s)) :
    ∃ body rest, body ≠ [] ∧ (∀ c ∈ body, isAltChar c = true) ∧ s = body ++ ')' :: rest ∧ Clean rest := by
  cases found : altMatch ('(' :: s) with
  | none =>
    rw [Clean, sub_none found, sub_none (gapMatch_other (by decide))] at clean
    have := clean '(' List.mem_cons_self
    exact absurd this (by decide)
  | some rest =>
    obtain ⟨body, nonempty, chars, split⟩ := altMatch_some found
    rw [Clean, sub_some altMatch_shrinks found] at clean
    exact ⟨body, rest, nonempty, chars, split, clean⟩

theorem sub_altMatch_append (plain : '(' ∉ a) : sub altMatch (a ++ s) = a ++ sub altMatch s := by
  induction a with
  | nil => rfl
  | cons c a ih =>
    rw [List.mem_cons, not_or] at plain
    rw [List.cons_append, sub_none (altMatch_other (Ne.symm plain.1)), ih plain.2, List.cons_append]

theorem append_cons_inj {c : Char} {x y : Text} (outA : c ∉ a) (outB : c ∉ b) (same : a ++ c :: x = b ++ c :: y) :
    a = b ∧ x = y := by
  induction a generalizing b with
  | nil =>
    cases b with
    | nil => exact ⟨rfl, (List.cons.inj same).2⟩
    | cons d b => exact absurd (List.mem_cons.mpr (.inl (List.cons.inj same).1)) outB
  | cons d a ih =>
    cases b with
    | nil => exact absurd (List.mem_cons.mpr (.inl (List.cons.inj same).1.symm)) outA
    | cons e b =>
      obtain ⟨rfl, tails⟩ := List.cons.inj same
      obtain ⟨rfl, rest⟩ := ih (fun inside => outA (List.mem_cons_of_mem _ inside))
          (fun inside => outB (List.mem_cons_of_mem _ inside)) tails
      exact ⟨rfl, rest⟩

theorem DigitsOf.notMem {c : Char} (all : DigitsOf base s) (other : hexDigit c = none) : c ∉ s := by
  intro inside
  obtain ⟨d, found, -⟩ := all c inside
  rw [other] at found
  cases found

theorem GapForm.notMem {c : Char} (form : GapForm s) (other : hexDigit c = none) (noDash : c ≠ '-') : c ∉ s := by
  rcases form with all | ⟨a, b, front, back, rfl⟩
  · exact all.notMem other
  · simp [front.notMem other, back.notMem other, noDash]

theorem Clean.gap {spec rest : Text} (clean : Clean ('{' :: (spec ++ '}' :: rest))) (noAlt : '(' ∉ spec) (closes : '}' ∉ spec) :
    GapForm spec ∧ Clean rest := by
  have stripped : sub altMatch ('{' :: (spec ++ '}' :: rest)) = '{' :: (spec ++ '}' :: sub altMatch rest) := by
    rw [sub_none (altMatch_other (by decide)), sub_altMatch_append noAlt, sub_none (altMatch_other (by decide))]
  rw [Clean, stripped] at clean
  cases found : gapMatch ('{' :: (spec ++ '}' :: sub altMatch rest)) with
  | none =>
    rw [sub_none found] at clean
    have := clean '{' List.mem_cons_self
    exact absurd this (by decide)
  | some rest' =>
    obtain ⟨spec', form, split⟩ := gapMatch_some found
    obtain ⟨rfl, rfl⟩ := append_cons_inj closes (form.notMem rfl (by decide)) split
    rw [sub_some gapMatch_shrinks found] at clean
    exact ⟨form, clean⟩

/-! ### Tokens -/

inductive Token where
  | pair (hi lo : Char)
  | star
  | gap (spec : Text)
  | alternation (body : Text)

def Token.text : Token → Text
  | pair hi lo => [hi, lo]
  | star => ['*']
  | gap spec => '{' :: (spec ++ ['}'])
  | alternation body => '(' :: (body ++ [')'])

def render (ts : List Token) : Text := ts.flatMap Token.text

def Token.Lexical : Token → Prop
  | pair hi lo => isNibble hi = true ∧ isNibble lo = true
  | star => True
  | gap spec => GapForm spec
  | alternation body => body ≠ [] ∧ ∀ c ∈ body, isAltChar c = true

def Token.fragment (U : Unicode) : Token → Except PyError Fragment
  | pair hi lo => (pairRe U [hi, lo]).map .one
  | star => .ok .star
  | gap spec => gapRe U spec
  | alternation body => ((body.splitOn '|').mapM (altRe U)).map .alt

theorem cut_append {close : Char} (out : close ∉ a) : cut close (a ++ close :: b) = .ok (a, b) := by
  have keep : ∀ c ∈ a, (fun x => decide (x ≠ close)) c = true := by
    intro c inside
    have : c ≠ close := fun same => out (same ▸ inside)
    simp [this]
  rw [cut, if_pos (by simp), partition, List.takeWhile_append_of_pos keep, List.dropWhile_append_of_pos keep]
  simp

theorem cut_ok {close : Char} (found : cut close s = .ok (a, b)) : s = a ++ close :: b ∧ close ∉ a := by
  unfold cut at found
  split at found
  · rename_i inside
    obtain ⟨rfl, rfl⟩ := Prod.mk.inj (Except.ok.inj found)
    have out : close ∉ s.takeWhile (· ≠ close) := by
      intro member
      have := List.mem_takeWhile_imp member
      simp at this
    refine ⟨?_, out⟩
    have split : s = s.takeWhile (· ≠ close) ++ s.dropWhile (· ≠ close) := List.takeWhile_append_dropWhile.symm
    cases dropped : s.dropWhile (· ≠ close) with
    | nil =>
      rw [dropped, List.append_nil] at split
      rw [split] at inside
      exact absurd inside out
    | cons c rest =>
      have first : c = close := by
        have head := List.head?_dropWhile_not (fun x => decide (x ≠ close)) s
        rw [dropped] at head
        simpa using head
      rw [dropped, first] at split
      simpa using split
  · cases found

theorem isNibble_cases {c : Char} (nibble : isNibble c = true) : isHex c = true ∨ c = '?' := by
  simpa [isNibble] using nibble

theorem nibble_ne {c : Char} (nibble : isNibble c = true) : c ≠ '*' ∧ c ≠ '{' ∧ c ≠ '(' ∧ c ≠ '[' := by
  refine ⟨?_, ?_, ?_, ?_⟩
  all_goals
    rintro rfl
    exact absurd nibble (by decide)

theorem token_gap (U : Unicode) (s : Text) : token U ('{' :: s) = (cut '}' s).bind fun x => (gapRe U x.1).map fun f => (f, x.2) := by
  have unfolded : token U ('{' :: s) = (do
      let x ← cut '}' s
      let f ← gapRe U x.1
      return (f, x.2)) := rfl
  rw [unfolded]
  cases cut '}' s with
  | error e => rfl
  | ok x =>
    obtain ⟨spec, rest⟩ := x
    cases gapRe U spec <;> rfl

theorem token_alternation (U : Unicode) (s : Text) :
    token U ('(' :: s) = (cut ')' s).bind fun x => ((x.1.splitOn '|').mapM (altRe U)).map fun branches => (.alt branches, x.2) := by
  have unfolded : token U ('(' :: s) = (do
      let x ← cut ')' s
      let branches ← (x.1.splitOn '|').mapM (altRe U)
      return (.alt branches, x.2)) := rfl
  rw [unfolded]
  cases cut ')' s with
  | error e => rfl
  | ok x =>
    obtain ⟨body, rest⟩ := x
    dsimp only [bind, Except.bind]
    cases (body.splitOn '|').mapM (altRe U) <;> rfl

theorem token_pair (U : Unicode) {c : Char} (nibble : isNibble c = true) (s : Text) :
    token U (c :: s) = (pairRe U (c :: s.take 1)).map fun p => (.one p, s.drop 1) := by
  obtain ⟨noStar, noGap, noAlt, noRange⟩ := nibble_ne nibble
  rw [token, if_neg noStar, if_neg noGap, if_neg noAlt, if_neg noRange]
  cases pairRe U (c :: s.take 1) <;> rfl

theorem Token.text_token (U : Unicode) {t : Token} (lexical : t.Lexical) (rest : Text) :
    token U (t.text ++ rest) = (t.fragment U).map fun f => (f, rest) := by
  cases t with
  | pair hi lo =>
    rw [Token.text, List.cons_append, token_pair U lexical.1, Token.fragment]
    simp only [List.cons_append, List.nil_append, List.take_succ_cons, List.take_zero, List.drop_succ_cons, List.drop_zero]
    cases pairRe U [hi, lo] <;> rfl
  | star => rfl
  | gap spec =>
    have closes : '}' ∉ spec := GapForm.notMem lexical rfl (by decide)
    rw [Token.text, List.cons_append, List.append_assoc, List.singleton_append, token_gap, cut_append closes]
    rfl
  | alternation body =>
    have closes : ')' ∉ body := fun inside => absurd (lexical.2 _ inside) (by decide)
    rw [Token.text, List.cons_append, List.append_assoc, List.singleton_append, token_alternation, cut_append closes, Token.fragment]
    dsimp only [Except.bind]
    cases (body.splitOn '|').mapM (altRe U) <;> rfl

theorem Unicode.int_ok {n : Int} (found : U.int base s = .ok n) : pyInt U.decimal base s = some n := by
  unfold Unicode.int at found
  split at found
  · rename_i eq
    rw [eq, Except.ok.inj found]
  · cases found

theorem Unicode.foreign (U : Unicode) {c : Char} (mark : c ∈ ['(', '{', '*']) : Foreign U.decimal c := by
  simp only [List.mem_cons, List.not_mem_nil, or_false] at mark
  rcases mark with rfl | rfl | rfl
  all_goals exact ⟨by decide, U.outside _ (by decide), by decide, by decide⟩

theorem Unicode.int_foreign {n : Int} {c : Char} (mark : c ∈ ['(', '{', '*']) (found : U.int base s = .ok n) : c ∉ s := by
  intro inside
  have none' : pyInt U.decimal base s = none := pyInt_foreign (U.foreign mark) inside
  rw [Unicode.int_ok found] at none'
  cases none'

theorem gapRe_noAlt {f : Fragment} (found : gapRe U s = .ok f) : '(' ∉ s := by
  intro inside
  have inside : '(' ∈ strip s := mem_strip inside (by decide)
  unfold gapRe at found
  dsimp only at found
  split at found
  · obtain ⟨lo, low, rest⟩ := bind_ok found
    have outA : '(' ∉ (partition '-' (strip s)).1 := by
      have out := Unicode.int_foreign (c := '(') (by decide) low
      split at out
      · rename_i empty
        rw [empty]
        exact List.not_mem_nil
      · exact out
    have outB : '(' ∉ (partition '-' (strip s)).2 := by
      split at rest
      · rename_i empty
        rw [empty]
        exact List.not_mem_nil
      · obtain ⟨hi, high, -⟩ := bind_ok rest
        exact Unicode.int_foreign (by decide) high
    have dash : '-' ∈ strip s := by assumption
    have whole := (cut_ok (a := (partition '-' (strip s)).1) (b := (partition '-' (strip s)).2)
      (show cut '-' (strip s) = _ by rw [cut, if_pos dash])).1
    rw [whole] at inside
    simp [outA, outB] at inside
  · obtain ⟨n, number, -⟩ := bind_ok found
    exact Unicode.int_foreign (by decide) number inside

theorem pairRe_nibble {hi lo : Char} {p : ByteClass} (found : pairRe U [hi, lo] = .ok p)
    (clean : Clean (lo :: s)) : isNibble lo = true ∧ Clean s := by
  have plain : ∀ mark ∈ ['(', '{', '*'], lo ≠ mark := by
    rintro mark member rfl
    have noWild : lo ≠ '?' := by
      rintro rfl
      exact absurd member (by decide)
    rw [pairRe, if_neg (fun both => noWild both.2), if_neg noWild] at found
    split at found
    · obtain ⟨n, number, -⟩ := map_ok found
      exact Unicode.int_foreign member number (by simp)
    · obtain ⟨n, number, -⟩ := map_ok found
      exact Unicode.int_foreign member number (by simp)
  obtain ⟨first, rest⟩ := clean.cons (plain '(' (by decide)) (plain '{' (by decide))
  rcases first with star | nibble
  · exact absurd star (plain '*' (by decide))
  · exact ⟨nibble, rest⟩

theorem Clean.token {f : Fragment} {rest : Text} (clean : Clean s) (found : token U s = .ok (f, rest)) :
    ∃ t : Token, t.Lexical ∧ s = t.text ++ rest ∧ Clean rest ∧ t.fragment U = .ok f := by
  cases s with
  | nil => cases found
  | cons c s =>
    by_cases opens : c = '('
    · subst opens
      obtain ⟨body, rest', nonempty, chars, rfl, after⟩ := clean.alternation
      have closes : ')' ∉ body := fun inside => absurd (chars _ inside) (by decide)
      rw [token_alternation, cut_append closes] at found
      obtain ⟨branches, read, same⟩ := map_ok found
      obtain ⟨rfl, rfl⟩ := Prod.mk.inj same
      refine ⟨.alternation body, ⟨nonempty, chars⟩, ?_, after, ?_⟩
      · rw [Token.text, List.cons_append, List.append_assoc, List.singleton_append]
      · rw [Token.fragment, read]
        rfl
    · by_cases brace : c = '{'
      · subst brace
        rw [token_gap] at found
        obtain ⟨⟨spec, rest'⟩, read, found⟩ := bind_ok found
        obtain ⟨f', gap, same⟩ := map_ok found
        obtain ⟨rfl, rfl⟩ := Prod.mk.inj same
        obtain ⟨rfl, closes⟩ := cut_ok read
        obtain ⟨form, after⟩ := clean.gap (gapRe_noAlt gap) closes
        refine ⟨.gap spec, form, ?_, after, gap⟩
        rw [Token.text, List.cons_append, List.append_assoc, List.singleton_append]
      · obtain ⟨first, after⟩ := clean.cons opens brace
        rcases first with rfl | nibble
        · obtain ⟨rfl, rfl⟩ := Prod.mk.inj (Except.ok.inj found)
          exact ⟨.star, trivial, rfl, after, rfl⟩
        · rw [token_pair U nibble] at found
          obtain ⟨p, read, same⟩ := map_ok found
          obtain ⟨rfl, rfl⟩ := Prod.mk.inj same
          cases s with
          | nil => cases read
          | cons lo s =>
            have read : pairRe U [c, lo] = .ok p := read
            obtain ⟨nibble', after'⟩ := pairRe_nibble read after
            refine ⟨.pair c lo, ⟨nibble, nibble'⟩, rfl, after', ?_⟩
            rw [Token.fragment, read]
            rfl

theorem Token.text_length (t : Token) : 0 < t.text.length := by
  cases t <;> simp [Token.text]

theorem tokens_render (U : Unicode) {ts : List Token} (lexical : ∀ t ∈ ts, t.Lexical) {fuel : Nat}
    (enough : (render ts).length ≤ fuel) : tokens U fuel (render ts) = ts.mapM (Token.fragment U) := by
  induction ts generalizing fuel with
  | nil => cases fuel <;> rfl
  | cons t ts ih =>
    have some' := t.text_length
    rw [render, List.flatMap_cons, ← render] at enough ⊢
    rw [List.length_append] at enough
    have read := t.text_token U (lexical t List.mem_cons_self) (render ts)
    have shorter : (render ts).length ≤ fuel - 1 := by omega
    have later := ih (fun t inside => lexical t (List.mem_cons_of_mem _ inside)) shorter
    obtain ⟨fuel, rfl⟩ : ∃ k, fuel = k + 1 := ⟨fuel - 1, by omega⟩
    rw [Nat.add_sub_cancel] at later
    cases text : t.text ++ render ts with
    | nil =>
      have := congrArg List.length text
      rw [List.length_append, List.length_nil] at this
      omega
    | cons c s =>
      rw [text] at read
      rw [tokens, read, List.mapM_cons]
      cases t.fragment U with
      | error e => rfl
      | ok f =>
        dsimp only [Except.map, bind, Except.bind]
        rw [later]

theorem Clean.tokens {fs : List Fragment} {fuel : Nat} (clean : Clean s) (enough : s.length ≤ fuel)
    (found : tokens U fuel s = .ok fs) :
    ∃ ts : List Token, (∀ t ∈ ts, t.Lexical) ∧ s = render ts ∧ ts.mapM (Token.fragment U) = .ok fs := by
  induction fuel generalizing s fs with
  | zero =>
    obtain rfl : s = [] := List.length_eq_zero_iff.mp (by omega)
    obtain rfl := Except.ok.inj found
    exact ⟨[], List.forall_mem_nil _, rfl, rfl⟩
  | succ fuel ih =>
    cases s with
    | nil =>
      obtain rfl := Except.ok.inj found
      exact ⟨[], List.forall_mem_nil _, rfl, rfl⟩
    | cons c s =>
      obtain ⟨⟨f, rest⟩, first, found⟩ := bind_ok found
      obtain ⟨fs', later, same⟩ := bind_ok found
      obtain rfl := Except.ok.inj same
      obtain ⟨t, lexical, text, after, fragment⟩ := clean.token first
      have some' := t.text_length
      have length := congrArg List.length text
      rw [List.length_append, List.length_cons] at length
      rw [List.length_cons] at enough
      obtain ⟨ts, others, rfl, fragments⟩ := ih after (by omega) later
      refine ⟨t :: ts, ?_, text, ?_⟩
      · intro t' inside
        rcases List.mem_cons.mp inside with rfl | inside
        · exact lexical
        · exact others t' inside
      · rw [List.mapM_cons, fragment]
        dsimp only [bind, Except.bind]
        rw [fragments]
        rfl

end FfnNgfw.Antivirus
