import FfnNgfw.Threatdb.Text
import Mathlib.Computability.Language
import Mathlib.Data.Bool.AllAny

/-!
# Patterns of the emulator

The patterns that are documented for the table compiler: literal bytes, `.`, classes, escapes,
concatenation, alternation, groups and the quantifiers `*`, `+` and `?`. A pattern has one
meaning, and `scan` finds the texts that are no patterns although the parser takes them.
-/

namespace FfnNgfw.Emulator
open Computability
open Threatdb (Text hexDigit)

inductive Regex where
  | empty
  | bytes (s : Set UInt8)
  | alt (a b : Regex)
  | cat (a b : Regex)
  | star (a : Regex)
  | plus (a : Regex)
  | opt (a : Regex)

def Regex.lang : Regex → Language UInt8
  | empty => 1
  | bytes s => {w | ∃ b ∈ s, w = [b]}
  | alt a b => a.lang + b.lang
  | cat a b => a.lang * b.lang
  | star a => a.lang∗
  | plus a => a.lang * a.lang∗
  | opt a => 1 + a.lang

/-! ### Escapes -/

def byteOf (c : Char) : UInt8 := UInt8.ofNat c.toNat

def between (lo hi : UInt8) : Set UInt8 := {b | lo ≤ b ∧ b ≤ hi}

def digitBytes : Set UInt8 := between 0x30 0x39

def wordBytes : Set UInt8 := between 0x30 0x39 ∪ between 0x41 0x5A ∪ between 0x61 0x7A ∪ {0x5F}

def spaceBytes : Set UInt8 := {0x20, 0x09, 0x0A, 0x0D, 0x0C, 0x0B}

/-- `\d`, `\w`, `\s` and their negations. -/
def setEscape (c : Char) : Option (Set UInt8) :=
  if c = 'd' then some digitBytes else if c = 'D' then some digitBytesᶜ else if c = 'w' then some wordBytes
  else if c = 'W' then some wordBytesᶜ else if c = 's' then some spaceBytes else if c = 'S' then some spaceBytesᶜ else none

/-- Escapes of one byte: controls, and the characters that have a meaning of their own. -/
def simpleEscape (c : Char) : Option UInt8 :=
  if c = 'n' then some 0x0A else if c = 'r' then some 0x0D else if c = 't' then some 0x09 else if c = 'f' then some 0x0C
  else if c = 'v' then some 0x0B else if c = '0' then some 0x00
  else if c ∈ ['.', '\\', '*', '+', '?', '(', ')', '[', ']', '{', '}', '|', '^', '$', '/', '-', ' '] then some (byteOf c) else none

inductive ByteEscape : Text → UInt8 → Prop where
  | simple {c : Char} {v : UInt8} : simpleEscape c = some v → ByteEscape [c] v
  | hex {a b : Char} {x y : Nat} : hexDigit a = some x → hexDigit b = some y → ByteEscape ['x', a, b] (UInt8.ofNat (16 * x + y))

/-- A byte of a class; the closing bracket stands for itself in the first place only. -/
inductive Endpoint (first : Bool) : Text → UInt8 → Prop where
  | plain {c : Char} : c.toNat < 256 → c ≠ '\\' → (c = ']' → first = true) → Endpoint first [c] (byteOf c)
  | escaped {e : Text} {v : UInt8} : ByteEscape e v → Endpoint first ('\\' :: e) v

def rangeAhead : Text → Bool
  | '-' :: c :: _ => c ≠ ']'
  | _ => false

inductive Members : Bool → Text → Set UInt8 → Prop where
  | close : Members false [']'] ∅
  | set {first : Bool} {c : Char} {S T : Set UInt8} {t : Text} :
    setEscape c = some S → Members false t T → Members first ('\\' :: c :: t) (S ∪ T)
  | single {first : Bool} {u t : Text} {v : UInt8} {T : Set UInt8} :
    Endpoint first u v → rangeAhead t = false → Members false t T → Members first (u ++ t) ({v} ∪ T)
  | range {first : Bool} {u v t : Text} {lo hi : UInt8} {T : Set UInt8} :
    Endpoint first u lo → Endpoint false v hi → lo ≤ hi → Members false t T → Members first (u ++ '-' :: (v ++ t)) (between lo hi ∪ T)

def metas : List Char := ['\\', '.', '[', '(', ')', '|', '*', '+', '?', '^', '$', '{']

inductive Level where
  | alt | seq | rep | atom
  deriving DecidableEq

inductive Reads : Level → Text → Regex → Prop where
  | literal {c : Char} : c.toNat < 256 → c ∉ metas → Reads .atom [c] (.bytes {byteOf c})
  | dot : Reads .atom ['.'] (.bytes Set.univ)
  | set {c : Char} {S : Set UInt8} : setEscape c = some S → Reads .atom ['\\', c] (.bytes S)
  | byte {e : Text} {v : UInt8} : ByteEscape e v → Reads .atom ('\\' :: e) (.bytes {v})
  | members {t : Text} {S : Set UInt8} : t.head? ≠ some '^' → Members true t S → Reads .atom ('[' :: t) (.bytes S)
  | others {t : Text} {S : Set UInt8} : Members true t S → Reads .atom ('[' :: '^' :: t) (.bytes Sᶜ)
  | group {u : Text} {r : Regex} : Reads .alt u r → Reads .atom ('(' :: (u ++ [')'])) r
  | once {u : Text} {r : Regex} : Reads .atom u r → Reads .rep u r
  | star {u : Text} {r : Regex} : Reads .atom u r → Reads .rep (u ++ ['*']) (.star r)
  | plus {u : Text} {r : Regex} : Reads .atom u r → Reads .rep (u ++ ['+']) (.plus r)
  | opt {u : Text} {r : Regex} : Reads .atom u r → Reads .rep (u ++ ['?']) (.opt r)
  | nil : Reads .seq [] .empty
  | cons {u v : Text} {r r' : Regex} : Reads .rep u r → Reads .seq v r' → Reads .seq (u ++ v) (.cat r r')
  | only {u : Text} {r : Regex} : Reads .seq u r → Reads .alt u r
  | alt {u v : Text} {r r' : Regex} : Reads .seq u r → Reads .alt v r' → Reads .alt (u ++ '|' :: v) (.alt r r')

inductive Mode where
  /-- an operand is expected -/
  | start
  | rest
  | members (first : Bool)
  deriving DecidableEq

def Mode.next : Mode → Mode
  | members _ => members false
  | _ => rest

def quantifiers : List Char := ['*', '+', '?']

def isHex (c : Char) : Bool := (hexDigit c).isSome

/-- Every `\x` stands before two hexadecimal digits, and no quantifier where an operand is expected. -/
def scan : Mode → Text → Bool
  | _, [] => true
  | m, c :: t =>
    if c = '\\' then
      match t with
      | [] => true
      | e :: t =>
        if e = 'x' then
          match t with
          | a :: b :: t => isHex a && isHex b && scan m.next t
          | _ => false
        else scan m.next t
    else
      match m with
      | .members first => if c = ']' ∧ first = false then scan .rest t else scan (.members false) t
      | m =>
        if c = '[' then
          match t with
          | '^' :: t => scan (.members true) t
          | t => scan (.members true) t
        else if c = '(' ∨ c = '|' then scan .start t
        else if c ∈ quantifiers ∧ m = .start then false
        else scan .rest t

/-! ### Patterns scan -/

section

variable {m : Mode} {first : Bool} {a b c : Char} {u t x : Text} {v : UInt8} {S : Set UInt8}

attribute [local simp] scan

def Mode.Outside (m : Mode) : Prop := m = .start ∨ m = .rest

theorem scan_hex : scan m ('\\' :: 'x' :: a :: b :: t) = (isHex a && isHex b && scan m.next t) := by
  rw [scan.eq_def]
  dsimp only
  rw [if_pos rfl, if_pos rfl]

theorem scan_escape (plain : c ≠ 'x') : scan m ('\\' :: c :: t) = scan m.next t := by
  rw [scan.eq_def]
  dsimp only
  rw [if_pos rfl, if_neg plain]

theorem scan_member (plain : c ≠ '\\') :
    scan (.members first) (c :: t) = if c = ']' ∧ first = false then scan .rest t else scan (.members false) t := by
  rw [scan.eq_def]
  dsimp only
  rw [if_neg plain]

theorem scan_others (outside : m.Outside) : scan m ('[' :: '^' :: t) = scan (.members true) t := by
  rcases outside with rfl | rfl <;> rw [scan.eq_def] <;> rfl

theorem scan_members (outside : m.Outside) (plain : t.head? ≠ some '^') : scan m ('[' :: t) = scan (.members true) t := by
  have split : ∀ s, t ≠ '^' :: s := by
    rintro s rfl
    exact plain rfl
  rcases outside with rfl | rfl <;> rw [scan.eq_def] <;> dsimp only <;> rw [if_neg (by decide), if_pos rfl] <;> split
  all_goals first
    | exact absurd rfl (split _)
    | rfl

theorem scan_operand (outside : m.Outside) (opens : c = '(' ∨ c = '|') : scan m (c :: t) = scan .start t := by
  rcases outside with rfl | rfl <;> rcases opens with rfl | rfl <;> rw [scan.eq_def] <;> rfl

theorem scan_plain (outside : m.Outside) (plain : c ∉ ['\\', '[', '(', '|']) (operand : c ∈ quantifiers → m = .rest) :
    scan m (c :: t) = scan .rest t := by
  simp only [List.mem_cons, List.not_mem_nil, or_false, not_or] at plain
  have calm : ¬(c ∈ quantifiers ∧ m = .start) := by
    rintro ⟨quantifier, rfl⟩
    cases operand quantifier
  rcases outside with rfl | rfl <;> rw [scan.eq_def] <;> dsimp only <;>
    rw [if_neg plain.1, if_neg plain.2.1, if_neg (not_or.mpr ⟨plain.2.2.1, plain.2.2.2⟩), if_neg calm]

theorem setEscape_ne {c : Char} (known : setEscape c = some S) : c ≠ 'x' ∧ simpleEscape c = none := by
  have letters : c = 'd' ∨ c = 'D' ∨ c = 'w' ∨ c = 'W' ∨ c = 's' ∨ c = 'S' := by
    by_contra none'
    simp only [not_or] at none'
    simp [setEscape, none'] at known
  rcases letters with rfl | rfl | rfl | rfl | rfl | rfl <;> decide

theorem simpleEscape_ne (known : simpleEscape c = some v) : c ≠ 'x' ∧ setEscape c = none := by
  constructor
  · rintro rfl
    cases known
  · cases found : setEscape c with
    | none => rfl
    | some S =>
      rw [(setEscape_ne found).2] at known
      cases known

theorem ByteEscape.scan (escape : ByteEscape u v) : Emulator.scan m ('\\' :: (u ++ t)) = Emulator.scan m.next t := by
  cases escape with
  | simple known => exact scan_escape (simpleEscape_ne known).1
  | hex first second =>
    show Emulator.scan m ('\\' :: 'x' :: _ :: _ :: t) = _
    rw [scan_hex, isHex, isHex, first, second]
    rfl

theorem Endpoint.scan (endpoint : Endpoint first u v) : Emulator.scan (.members first) (u ++ t) = Emulator.scan (.members false) t := by
  cases endpoint with
  | plain small plain bracket =>
    rw [List.singleton_append, scan_member plain, if_neg]
    rintro ⟨closes, later⟩
    rw [bracket closes] at later
    cases later
  | escaped escape => exact escape.scan

theorem Members.ne_nil (members : Members first t S) : t ≠ [] := by
  cases members with
  | single endpoint => cases endpoint <;> simp
  | _ => simp

theorem Members.scan (members : Members first t S) : Emulator.scan (.members first) (t ++ x) = Emulator.scan .rest x := by
  induction members with
  | close => rw [List.singleton_append, scan_member (by decide), if_pos ⟨rfl, rfl⟩]
  | set known _ ih =>
    show Emulator.scan _ ('\\' :: _ :: (_ ++ x)) = _
    rw [scan_escape (setEscape_ne known).1]
    exact ih
  | single endpoint _ _ ih => rw [List.append_assoc, endpoint.scan, ih]
  | range lo hi _ _ ih =>
    rw [List.append_assoc, lo.scan, List.cons_append, scan_member (by decide), if_neg (by decide), List.append_assoc, hi.scan, ih]

end

def Scans : Level → Text → Prop
  | .atom, u | .rep, u => ∀ m t, m.Outside → scan m (u ++ t) = scan .rest t
  | .seq, u | .alt, u => ∀ m t, m.Outside → ∃ m', m'.Outside ∧ scan m (u ++ t) = scan m' t

theorem Reads.scans {k : Level} {u : Text} {r : Regex} (reads : Reads k u r) : Scans k u := by
  have quantified : ∀ {u : Text} {c : Char}, Scans .atom u → c ∈ quantifiers → Scans .rep (u ++ [c]) := by
    intro u c scans quantifier m t outside
    have plain : c ∉ ['\\', '[', '(', '|'] := by
      have apart : ∀ d ∈ quantifiers, d ∉ ['\\', '[', '(', '|'] := List.all_iff_forall_prop.mp (by decide +kernel)
      exact apart c quantifier
    rw [List.append_assoc, scans m _ outside, List.singleton_append, scan_plain (.inr rfl) plain fun _ => rfl]
  induction reads with
  | literal _ plain =>
    intro m t outside
    have ordinary : ∀ special ∈ ['\\', '[', '(', '|'] ++ quantifiers, special ∈ metas := List.all_iff_forall_prop.mp (by decide +kernel)
    rw [List.singleton_append, scan_plain outside]
    · exact fun special => plain (ordinary _ (List.mem_append_left _ special))
    · exact fun quantifier => absurd (ordinary _ (List.mem_append_right _ quantifier)) plain
  | dot =>
    intro m t outside
    exact scan_plain outside (by decide) fun quantifier => absurd quantifier (by decide)
  | set known =>
    intro m t outside
    show scan m ('\\' :: _ :: t) = _
    rw [scan_escape (setEscape_ne known).1]
    rcases outside with rfl | rfl <;> rfl
  | byte escape =>
    intro m t outside
    rw [List.cons_append, escape.scan]
    rcases outside with rfl | rfl <;> rfl
  | @members t S plain members =>
    intro m t' outside
    rw [List.cons_append, scan_members outside, members.scan]
    rwa [List.head?_append_of_ne_nil _ members.ne_nil]
  | others members =>
    intro m t outside
    rw [List.cons_append, List.cons_append, scan_others outside, members.scan]
  | group _ ih =>
    intro m t outside
    obtain ⟨m', outside', same⟩ := ih .start (')' :: t) (.inl rfl)
    rw [List.cons_append, scan_operand outside (.inl rfl), List.append_assoc, List.singleton_append, same,
      scan_plain outside' (by decide) fun quantifier => absurd quantifier (by decide)]
  | once _ ih => exact ih
  | star _ ih => exact quantified ih (by decide)
  | plus _ ih => exact quantified ih (by decide)
  | opt _ ih => exact quantified ih (by decide)
  | nil => exact fun m t outside => ⟨m, outside, rfl⟩
  | cons _ _ first rest =>
    intro m t outside
    rw [List.append_assoc, first m _ outside]
    exact rest .rest t (.inr rfl)
  | only _ ih => exact ih
  | alt _ _ first rest =>
    intro m t outside
    obtain ⟨m', outside', same⟩ := first m ('|' :: _ ++ t) outside
    rw [List.append_assoc, same, List.cons_append, scan_operand outside' (.inr rfl)]
    exact rest .start t (.inl rfl)

theorem Reads.scan {p : Text} {r : Regex} (reads : Reads .alt p r) : Emulator.scan .start p = true := by
  obtain ⟨m, -, same⟩ := reads.scans .start [] (.inl rfl)
  rw [List.append_nil] at same
  rw [same]
  rfl

end FfnNgfw.Emulator
