import FfnNgfw.Policy.Plan

/-!
# Text as Python reads it

`strip`, `split`, `int` and `bytes.fromhex` of strings, a text file read line by line with
universal newlines, and `ipaddress.ip_address`. What depends on the Unicode database
(`lower`, decimal digits outside ASCII) is left to the places that use it.
-/

namespace FfnNgfw.Threatdb
open Policy (isSpace ipv4Address)

abbrev Text := List Char

/-! ### Strings -/

def strip (s : Text) : Text := ((s.dropWhile isSpace).reverse.dropWhile isSpace).reverse

/-- `s.split()` -/
def fields (s : Text) : List Text := (s.splitOnP isSpace).filter (· ≠ [])

/-- `s.split()[0]` where there is one. -/
def firstField (s : Text) : Text := (fields s).headD []

def isInfix (part s : Text) : Bool := s.tails.any part.isPrefixOf

def hexDigit (c : Char) : Option Nat :=
  if c.isDigit then some (c.toNat - '0'.toNat)
  else if 'a' ≤ c ∧ c ≤ 'f' then some (c.toNat - 'a'.toNat + 10)
  else if 'A' ≤ c ∧ c ≤ 'F' then some (c.toNat - 'A'.toNat + 10)
  else none

/-- `bytes.fromhex` of a text without blanks. -/
def fromHex : Text → Option (List UInt8)
  | [] => some []
  | a :: b :: rest => do
    let hi ← hexDigit a
    let lo ← hexDigit b
    let bytes ← fromHex rest
    return UInt8.ofNat (16 * hi + lo) :: bytes
  | [_] => none

section

-- `decimal` is the value of a decimal digit outside ASCII.
variable (decimal : Char → Option Nat)

def digit (base : Nat) (c : Char) : Option Nat := ((hexDigit c).orElse fun _ => decimal c).filter (· < base)

def digitsFrom (base : Nat) : Nat → Text → Option Nat
  | acc, [] => some acc
  | acc, '_' :: c :: rest => do
    let d ← digit decimal base c
    digitsFrom base (acc * base + d) rest
  | acc, c :: rest => do
    let d ← digit decimal base c
    digitsFrom base (acc * base + d) rest

def digits (base : Nat) : Text → Option Nat
  | [] => none
  | c :: rest => do
    let d ← digit decimal base c
    digitsFrom decimal base d rest

def dropPrefix : Text → Text
  | '0' :: x :: rest =>
    if x = 'x' ∨ x = 'X' then
      match rest with
      | '_' :: rest => rest
      | _ => rest
    else '0' :: x :: rest
  | s => s

/-- `int(s, base)` for base 10 and base 16. -/
def pyInt (base : Nat) (s : Text) : Option Int :=
  let unsigned (s : Text) := digits decimal base (if base = 16 then dropPrefix s else s)
  match strip s with
  | '-' :: rest => (unsigned rest).map fun n => -Int.ofNat n
  | '+' :: rest => (unsigned rest).map Int.ofNat
  | rest => (unsigned rest).map Int.ofNat

end

def newlines : Text → Text
  | '\r' :: '\n' :: rest => '\n' :: newlines rest
  | '\r' :: rest => '\n' :: newlines rest
  | c :: rest => c :: newlines rest
  | [] => []

def isComment (line : Text) : Bool := line.head? == some '#'

def significant (lines : List Text) : List Text := (lines.map strip).filter fun line => line ≠ [] && !isComment line

/-- `_parse_lines` of a file with this text. -/
def parseLines (text : Text) : List Text := significant ((newlines text).splitOn '\n')

def hextet (s : Text) : Option Nat :=
  if s = [] ∨ 4 < s.length then none else (s.mapM hexDigit).map fun ds => ds.foldl (fun n d => 16 * n + d) 0

def joinHextets (start : Nat) (parts : List Text) : Option Nat :=
  parts.foldlM (fun n p => (hextet p).map fun h => n * 2 ^ 16 + h) start

/-- The parts of an IPv6 address, with an IPv4 tail as two hextets. -/
def ipv6Parts (s : Text) : Option (List Text) :=
  let parts := s.splitOn ':'
  if parts.length < 3 then none
  else
    let last := parts.getLastD []
    if '.' ∈ last then
      (ipv4Address last).map fun a =>
        parts.dropLast ++ [Nat.toDigits 16 (a.toNat / 2 ^ 16), Nat.toDigits 16 (a.toNat % 2 ^ 16)]
    else some parts

/-- `IPv6Address._ip_int_from_string` -/
def ipv6Int (s : Text) : Option Nat := do
  let parts ← ipv6Parts s
  guard (parts.length ≤ 9)
  let inner := (List.range parts.length).filter fun i => 0 < i ∧ i + 1 < parts.length ∧ parts.getD i [] = []
  match inner with
  | [] =>
    guard (parts.length = 8)
    joinHextets 0 parts
  | [skip] =>
    let front := parts.take skip
    let back := parts.drop (skip + 1)
    let front ← if parts.headD [] = [] then if front.length = 1 then some [] else none else some front
    let back ← if parts.getLastD [] = [] then if back.length = 1 then some [] else none else some back
    guard (front.length + back.length ≤ 7)
    let hi ← joinHextets 0 front
    joinHextets (hi * 2 ^ (16 * (8 - (front.length + back.length)))) back
  | _ => none

def ipv6Address (s : Text) : Option Nat :=
  if '/' ∈ s then none
  else
    match s.splitOn '%' with
    | [address] => ipv6Int address
    | [address, scope] => if scope = [] then none else ipv6Int address
    | _ => none

/-- `int(ipaddress.ip_address(s))` -/
def ipAddress (s : Text) : Option Nat := ((ipv4Address s).map UInt32.toNat).orElse fun _ => ipv6Address s

/-! ### Blanks -/

variable {s : Text} {c : Char}

theorem dropWhile_head (h : ∀ c, s.head? = some c → isSpace c = false) : s.dropWhile isSpace = s := by
  cases s with
  | nil => rfl
  | cons c s => rw [List.dropWhile_cons_of_neg (by simp [h c rfl])]

theorem strip_of_solid (h : ∀ c ∈ s, isSpace c = false) : strip s = s := by
  unfold strip
  rw [dropWhile_head fun c head => h c (List.mem_of_mem_head? head)]
  rw [dropWhile_head fun c head => h c (List.mem_reverse.mp (List.mem_of_mem_head? head)), List.reverse_reverse]

theorem dropWhile_idem (s : Text) : (s.dropWhile isSpace).dropWhile isSpace = s.dropWhile isSpace := by
  refine dropWhile_head fun c head => ?_
  have nonspace := List.head?_dropWhile_not isSpace s
  rw [head] at nonspace
  simpa using nonspace

theorem dropWhile_suffix (s : Text) : (s.reverse.dropWhile isSpace).reverse <+: s := by
  rw [← List.reverse_suffix, List.reverse_reverse]
  exact List.dropWhile_suffix _

theorem strip_strip (s : Text) : strip (strip s) = strip s := by
  unfold strip
  have front : ((((s.dropWhile isSpace).reverse.dropWhile isSpace).reverse).dropWhile isSpace) =
      ((s.dropWhile isSpace).reverse.dropWhile isSpace).reverse := by
    refine dropWhile_head fun c head => ?_
    obtain ⟨rest, whole⟩ := dropWhile_suffix (s.dropWhile isSpace)
    have first : (s.dropWhile isSpace).head? = some c := by
      rw [← whole, List.head?_append, head]
      rfl
    have nonspace := List.head?_dropWhile_not isSpace s
    rw [first] at nonspace
    simpa using nonspace
  rw [front, List.reverse_reverse, dropWhile_idem]

theorem strip_cons (solid : isSpace c = false) (s : Text) : ∃ rest, strip (c :: s) = c :: rest := by
  have kept (xs : Text) : (xs ++ [c]).dropWhile isSpace = xs.dropWhile isSpace ++ [c] := by
    induction xs with
    | nil => exact List.dropWhile_cons_of_neg (by simp [solid])
    | cons x xs ih =>
      by_cases space : isSpace x = true
      · rw [List.cons_append, List.dropWhile_cons_of_pos space, List.dropWhile_cons_of_pos space, ih]
      · rw [List.cons_append, List.dropWhile_cons_of_neg space, List.dropWhile_cons_of_neg space, List.cons_append]
  refine ⟨(s.reverse.dropWhile isSpace).reverse, ?_⟩
  unfold strip
  rw [List.dropWhile_cons_of_neg (by simp [solid]), List.reverse_cons, kept, List.reverse_append]
  rfl

theorem fields_cons_space (space : isSpace c = true) (s : Text) : fields (c :: s) = fields s := by
  unfold fields
  rw [List.splitOnP_cons_eq_if_modifyHead, if_pos space]
  rfl

theorem fields_snoc_space (space : isSpace c = true) (s : Text) : fields (s ++ [c]) = fields s := by
  unfold fields
  rw [List.splitOnP_append_cons s [] space, List.filter_append]
  exact List.append_nil _

theorem fields_dropWhile (s : Text) : fields (s.dropWhile isSpace) = fields s := by
  induction s with
  | nil => rfl
  | cons c s ih =>
    by_cases space : isSpace c = true
    · rw [List.dropWhile_cons_of_pos space, fields_cons_space space, ih]
    · rw [List.dropWhile_cons_of_neg space]

theorem fields_strip (s : Text) : fields (strip s) = fields s := by
  have back (s : Text) : fields (s.dropWhile isSpace).reverse = fields s.reverse := by
    induction s with
    | nil => rfl
    | cons c s ih =>
      by_cases space : isSpace c = true
      · rw [List.dropWhile_cons_of_pos space, List.reverse_cons, fields_snoc_space space, ih]
      · rw [List.dropWhile_cons_of_neg space]
  unfold strip
  rw [back, List.reverse_reverse, fields_dropWhile]

theorem fields_solid (solid : ∀ c ∈ s, isSpace c = false) (some_ : s ≠ []) : fields s = [s] := by
  unfold fields
  rw [List.splitOnP_eq_singleton solid]
  simp [some_]

theorem fields_word {w : Text} (solid : ∀ c ∈ w, isSpace c = false) (some_ : w ≠ []) (space : isSpace c = true)
    (rest : Text) : fields (w ++ c :: rest) = w :: fields rest := by
  unfold fields
  rw [List.splitOnP_append_cons w rest space, List.splitOnP_eq_singleton solid]
  simp [some_]

theorem fields_nil_iff : fields s = [] ↔ ∀ c ∈ s, isSpace c = true := by
  induction s with
  | nil => simp [fields]
  | cons c s ih =>
    by_cases space : isSpace c = true
    · rw [fields_cons_space space, ih]
      simp [space]
    · have word : fields (c :: s) ≠ [] := by
        obtain ⟨first, rest, parts⟩ := List.exists_cons_of_ne_nil (List.splitOnP_ne_nil isSpace s)
        unfold fields
        rw [List.splitOnP_cons_eq_if_modifyHead, if_neg space, parts]
        simp
      exact ⟨fun none => absurd none word, fun all => absurd (all c List.mem_cons_self) space⟩

/-! ### Lines -/

section

attribute [local simp] newlines

theorem newlines_cons {c : Char} (plain : c ≠ '\r') (s : Text) : newlines (c :: s) = c :: newlines s := by
  rw [newlines]
  · exact fun _ same => absurd same plain
  · exact fun same => absurd same plain

theorem newlines_return {s : Text} (other : s.head? ≠ some '\n') : newlines ('\r' :: s) = '\n' :: newlines s := by
  rw [newlines]
  rintro rest rfl
  exact other rfl

theorem newlines_plain {s : Text} (plain : '\r' ∉ s) (t : Text) : newlines (s ++ t) = s ++ newlines t := by
  induction s with
  | nil => rfl
  | cons c s ih =>
    have here : c ≠ '\r' := fun same => plain (same ▸ List.mem_cons_self)
    rw [List.cons_append, newlines_cons here, ih fun inside => plain (List.mem_cons_of_mem _ inside), List.cons_append]

theorem mem_newlines {s : Text} {c : Char} (inside : c ∈ newlines s) : c ∈ s ∨ c = '\n' := by
  induction s using newlines.induct with
  | case1 rest ih =>
    rw [newlines] at inside
    rcases List.mem_cons.mp inside with rfl | inside
    · exact Or.inr rfl
    · exact (ih inside).imp_left fun h => by simp [h]
  | case2 rest other ih =>
    rw [newlines_return fun same => ?_] at inside
    · rcases List.mem_cons.mp inside with rfl | inside
      · exact Or.inr rfl
      · exact (ih inside).imp_left fun h => by simp [h]
    · cases rest with
      | nil => cases same
      | cons d rest => exact other rest (by rw [Option.some.inj same])
  | case3 d rest _ other ih =>
    rw [newlines_cons fun same => other same] at inside
    rcases List.mem_cons.mp inside with rfl | inside
    · exact Or.inl List.mem_cons_self
    · exact (ih inside).imp_left fun h => by simp [h]
  | case4 => cases inside

theorem newlines_append (a b : Text) : newlines (a ++ '\n' :: b) = newlines (a ++ ['\n']) ++ newlines b := by
  induction a using newlines.induct with
  | case1 rest ih => simp [ih]
  | case2 rest other ih =>
    cases rest with
    | nil => simp
    | cons c rest =>
      have different : c ≠ '\n' := fun same => other rest (by rw [same])
      have turn (t : Text) : newlines ('\r' :: (c :: rest) ++ t) = '\n' :: newlines (c :: rest ++ t) :=
        newlines_return fun same => different (Option.some.inj same)
      rw [turn, turn, ih]
      rfl
  | case3 c rest _ other ih =>
    have plain : c ≠ '\r' := fun same => other same
    rw [List.cons_append, List.cons_append, newlines_cons plain, newlines_cons plain, ih, List.cons_append]
  | case4 => simp

theorem newlines_ends (a : Text) : ∃ p, newlines (a ++ ['\n']) = p ++ ['\n'] := by
  induction a using newlines.induct with
  | case1 rest ih =>
    obtain ⟨p, ends⟩ := ih
    exact ⟨'\n' :: p, by simp [ends]⟩
  | case2 rest other ih =>
    obtain ⟨p, ends⟩ := ih
    cases rest with
    | nil => exact ⟨[], by simp⟩
    | cons c rest =>
      have different : c ≠ '\n' := fun same => other rest (by rw [same])
      have first : (c :: rest ++ ['\n']).head? ≠ some '\n' := fun same => different (Option.some.inj same)
      exact ⟨'\n' :: p, by rw [List.cons_append, newlines_return first, ends, List.cons_append]⟩
  | case3 c rest _ other ih =>
    obtain ⟨p, ends⟩ := ih
    have plain : c ≠ '\r' := fun same => other same
    exact ⟨c :: p, by rw [List.cons_append, newlines_cons plain, ends, List.cons_append]⟩
  | case4 => exact ⟨[], by simp⟩

end

theorem significant_append (a b : List Text) : significant (a ++ b) = significant a ++ significant b := by
  unfold significant
  rw [List.map_append, List.filter_append]

theorem parseLines_append (a b : Text) : parseLines (a ++ '\n' :: b) = parseLines (a ++ ['\n']) ++ parseLines b := by
  obtain ⟨p, ends⟩ := newlines_ends a
  rw [parseLines, parseLines, parseLines, newlines_append, ends, List.append_assoc, List.singleton_append,
    List.splitOn_append_cons_self, List.splitOn_append_cons_self, significant_append, significant_append]
  have blank : significant ([].splitOn '\n') = [] := rfl
  rw [blank, List.append_nil]

theorem splitOn_append {w : Text} (unbroken : '\n' ∉ w) {s first : Text} {rest : List Text}
    (h : s.splitOn '\n' = first :: rest) : (w ++ s).splitOn '\n' = (w ++ first) :: rest := by
  induction w with
  | nil => exact h
  | cons c w ih =>
    have other : (c == '\n') = false := beq_eq_false_iff_ne.mpr fun same => unbroken (same ▸ List.mem_cons_self)
    rw [List.cons_append, List.splitOn_cons_eq_if_modifyHead, other, ih fun inside => unbroken (List.mem_cons_of_mem _ inside)]
    rfl

def isPlain (s : Text) : Bool := s ≠ [] && !isComment s && s.all fun c => c ≠ '\n' && c ≠ '\r'

theorem parseLines_unbroken (unbroken : ∀ c ∈ s, c ≠ '\n' ∧ c ≠ '\r') :
    parseLines (s ++ ['\n']) = significant [s] := by
  have noReturn : '\r' ∉ s := fun inside => (unbroken _ inside).2 rfl
  have noNewline : '\n' ∉ s := fun inside => (unbroken _ inside).1 rfl
  rw [parseLines, newlines_plain noReturn, newlines_cons (by decide)]
  rw [List.splitOn_append_cons_self, List.splitOn_eq_singleton noNewline, significant_append]
  exact List.append_nil _

theorem parseLines_plain (plain : isPlain s = true) (stripped : strip s = s) :
    parseLines (s ++ ['\n']) = [s] := by
  simp only [isPlain, Bool.and_eq_true, List.all_eq_true, decide_eq_true_eq] at plain
  obtain ⟨⟨some_, comment⟩, unbroken⟩ := plain
  rw [parseLines_unbroken unbroken]
  simp only [significant, List.map_cons, stripped, List.map_nil]
  rw [List.filter_cons_of_pos (by simp [some_, comment])]
  rfl

/-! ### Digits -/

theorem hexDigit_lt (h : (hexDigit c).isSome = true) : c.toNat < 128 := by
  unfold hexDigit at h
  have bounds : c.isDigit = true ∨ ('a' ≤ c ∧ c ≤ 'f') ∨ ('A' ≤ c ∧ c ≤ 'F') := by
    by_contra none
    simp only [not_or] at none
    rw [if_neg none.1, if_neg none.2.1, if_neg none.2.2] at h
    cases h
  rcases bounds with isDigit | ⟨_, le⟩ | ⟨_, le⟩
  · simp only [Char.isDigit, Bool.and_eq_true, decide_eq_true_eq] at isDigit
    have le : c.toNat ≤ 57 := UInt32.le_iff_toNat_le.mp isDigit.2
    omega
  · have le : c.toNat ≤ 102 := UInt32.le_iff_toNat_le.mp le
    omega
  · have le : c.toNat ≤ 70 := UInt32.le_iff_toNat_le.mp le
    omega

theorem hexDigit_solid (h : (hexDigit c).isSome = true) : isSpace c = false := by
  have ascii : ∀ n < 128, (hexDigit (Char.ofNat n)).isSome = true → isSpace (Char.ofNat n) = false := by decide +kernel
  have here := ascii c.toNat (hexDigit_lt h)
  rw [Char.ofNat_toNat] at here
  exact here h

theorem fromHex_isSome (hex : ∀ c ∈ s, (hexDigit c).isSome = true) (even : s.length % 2 = 0) :
    (fromHex s).isSome = true := by
  induction s using fromHex.induct with
  | case1 => rfl
  | case2 a b rest ih =>
    obtain ⟨hi, high⟩ := Option.isSome_iff_exists.mp (hex a (by simp))
    obtain ⟨lo, low⟩ := Option.isSome_iff_exists.mp (hex b (by simp))
    have others : (fromHex rest).isSome = true := by
      refine ih (fun c inside => hex c (by simp [inside])) ?_
      simp only [List.length_cons] at even
      omega
    obtain ⟨bytes, read⟩ := Option.isSome_iff_exists.mp others
    simp [fromHex, high, low, read]
  | case3 a => cases even

theorem hexDigit_bound {d : Nat} (h : hexDigit c = some d) : d < 16 := by
  have ascii : ∀ n < 128, ∀ d, hexDigit (Char.ofNat n) = some d → d < 16 := by
    have each : ∀ n < 128, (hexDigit (Char.ofNat n)).all (· < 16) = true := by decide +kernel
    intro n small d found
    have := each n small
    rw [found] at this
    simpa using this
  have here := ascii c.toNat (hexDigit_lt (h ▸ rfl)) d
  rw [Char.ofNat_toNat] at here
  exact here h

theorem digit_hex (decimal : Char → Option Nat) (h : (hexDigit c).isSome = true) :
    (digit decimal 16 c).isSome = true := by
  obtain ⟨d, found⟩ := Option.isSome_iff_exists.mp h
  simp [digit, found, hexDigit_bound found]

theorem digitsFrom_hex (decimal : Char → Option Nat) (hex : ∀ c ∈ s, (hexDigit c).isSome = true) (acc : Nat) :
    (digitsFrom decimal 16 acc s).isSome = true := by
  induction s generalizing acc with
  | nil => rfl
  | cons c s ih =>
    obtain ⟨d, found⟩ := Option.isSome_iff_exists.mp (digit_hex decimal (hex c List.mem_cons_self))
    have plain : c ≠ '_' := by
      rintro rfl
      have := hex '_' List.mem_cons_self
      revert this
      decide
    rw [digitsFrom]
    · rw [found]
      exact ih (fun x inside => hex x (List.mem_cons_of_mem _ inside)) _
    · intro x rest same
      exact absurd same plain

theorem digits_hex (decimal : Char → Option Nat) (hex : ∀ c ∈ s, (hexDigit c).isSome = true) (some_ : s ≠ []) :
    (digits decimal 16 s).isSome = true := by
  cases s with
  | nil => exact absurd rfl some_
  | cons c s =>
    obtain ⟨d, found⟩ := Option.isSome_iff_exists.mp (digit_hex decimal (hex c List.mem_cons_self))
    rw [digits, found]
    exact digitsFrom_hex decimal (fun x inside => hex x (List.mem_cons_of_mem _ inside)) d

theorem dropPrefix_hex (hex : ∀ c ∈ s, (hexDigit c).isSome = true) : dropPrefix s = s := by
  unfold dropPrefix
  split
  · next x rest =>
    have inside := hex x (by simp)
    rw [if_neg]
    rintro (rfl | rfl)
    · exact absurd inside (by decide)
    · exact absurd inside (by decide)
  · rfl

theorem pyInt_hex (decimal : Char → Option Nat) (hex : ∀ c ∈ s, (hexDigit c).isSome = true) (some_ : s ≠ []) :
    (pyInt decimal 16 s).isSome = true := by
  have solid : strip s = s := strip_of_solid fun c inside => hexDigit_solid (hex c inside)
  unfold pyInt
  rw [solid]
  dsimp only
  split
  · exact absurd (hex '-' List.mem_cons_self) (by decide)
  · exact absurd (hex '+' List.mem_cons_self) (by decide)
  · rw [if_pos rfl, dropPrefix_hex hex, Option.isSome_map]
    exact digits_hex decimal hex some_

theorem hexDigit_isDigit (h : c.isDigit = true) : hexDigit c = some (c.toNat - '0'.toNat) ∧ c.toNat - '0'.toNat < 10 := by
  refine ⟨by rw [hexDigit, if_pos h], ?_⟩
  simp only [Char.isDigit, Bool.and_eq_true, decide_eq_true_eq] at h
  have high : c.toNat ≤ 57 := UInt32.le_iff_toNat_le.mp h.2
  have zero : '0'.toNat = 48 := by decide
  omega

theorem digit_isDigit (decimal : Char → Option Nat) (h : c.isDigit = true) :
    digit decimal 10 c = some (c.toNat - '0'.toNat) := by
  obtain ⟨read, small⟩ := hexDigit_isDigit h
  rw [digit, read, Option.orElse_some, Option.filter_some, if_pos (by simpa using small)]

theorem digitsFrom_isDigit (decimal : Char → Option Nat) (ascii : ∀ c ∈ s, c.isDigit = true) (acc : Nat) :
    digitsFrom decimal 10 acc s = some (Nat.ofDigitChars 10 s acc) := by
  induction s generalizing acc with
  | nil => simp [digitsFrom]
  | cons c s ih =>
    obtain ⟨here, ascii⟩ := List.forall_mem_cons.mp ascii
    have plain : c ≠ '_' := by
      rintro rfl
      revert here
      decide
    rw [digitsFrom]
    · rw [digit_isDigit decimal here]
      show digitsFrom decimal 10 (acc * 10 + (c.toNat - '0'.toNat)) s = _
      rw [ih ascii, Nat.ofDigitChars_cons, Nat.mul_comm]
    · intro x rest same
      exact absurd same plain

theorem digits_toDigits (decimal : Char → Option Nat) (n : Nat) : digits decimal 10 (Nat.toDigits 10 n) = some n := by
  have ascii : ∀ c ∈ Nat.toDigits 10 n, c.isDigit = true := fun c member => Nat.isDigit_of_mem_toDigits (by decide) (by decide) member
  have value := @Nat.ofDigitChars_ten_toDigits n
  obtain ⟨c, rest, same⟩ := List.exists_cons_of_ne_nil (@Nat.toDigits_ne_nil n 10)
  rw [same] at ascii value ⊢
  obtain ⟨here, ascii⟩ := List.forall_mem_cons.mp ascii
  rw [Nat.ofDigitChars_cons] at value
  rw [digits, digit_isDigit decimal here]
  show digitsFrom decimal 10 (c.toNat - '0'.toNat) rest = _
  rw [digitsFrom_isDigit decimal ascii]
  simpa using value

theorem digit_solid (h : c.isDigit = true) : Policy.isSpace c = false := by
  refine hexDigit_solid ?_
  rw [(hexDigit_isDigit h).1]
  rfl

theorem pyInt_toDigits (decimal : Char → Option Nat) (n : Nat) : pyInt decimal 10 (Nat.toDigits 10 n) = some (n : Int) := by
  have ascii : ∀ c ∈ Nat.toDigits 10 n, c.isDigit = true :=
    fun c member => Nat.isDigit_of_mem_toDigits (by decide) (by decide) member
  obtain ⟨c, rest, same⟩ := List.exists_cons_of_ne_nil (@Nat.toDigits_ne_nil n 10)
  have value := digits_toDigits decimal n
  unfold pyInt
  rw [strip_of_solid fun c member => digit_solid (ascii c member)]
  rw [same] at ascii value ⊢
  have here := ascii c List.mem_cons_self
  dsimp only
  split
  · rename_i sign
    cases sign
    exact absurd here (by decide)
  · rename_i sign
    cases sign
    exact absurd here (by decide)
  · simp only [Nat.reduceEqDiff, if_false]
    rw [value]
    rfl

end FfnNgfw.Threatdb
