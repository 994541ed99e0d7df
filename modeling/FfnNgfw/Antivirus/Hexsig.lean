import FfnNgfw.Detect.Patterns
import FfnNgfw.Lib.Fallible

/-!
# Hex signatures

A body signature is a text of hex digits, nibble wildcards, gaps and alternations. The
anti-virus engine compiles it to a regular expression over bytes, the fast-path compiler
to a text for Hyperscan, and a scanner takes its longest run of full bytes as an anchor.
-/

namespace FfnNgfw.Antivirus
open Threatdb (Text hexDigit pyInt fromHex strip)
open Detect (bytesPcre)

inductive PyError where
  | valueError
  | indexError
  | overflowError
  | reError
  deriving DecidableEq

/-- What `int`, `str.isdigit` and `str.lower` take from the Unicode database. -/
structure Unicode where
  decimal : Char → Option Nat
  isdigit : Char → Bool
  lower : Text → Text
  outside : ∀ c, c.toNat < 128 → decimal c = none
  single : ∀ c d, decimal c = some d → d < 10

def asciiUnicode : Unicode where
  decimal _ := none
  isdigit _ := false
  lower := List.map Char.toLower
  outside _ _ := rfl
  single _ _ found := by cases found

def isHex (c : Char) : Bool := (hexDigit c).isSome

/-- `s.partition(sep)` without the separator. -/
def partition (sep : Char) (s : Text) : Text × Text := (s.takeWhile (· ≠ sep), (s.dropWhile (· ≠ sep)).tail)

/-- What stands before `s.index(close)` and what after it. -/
def cut (close : Char) (s : Text) : Except PyError (Text × Text) :=
  if close ∈ s then .ok (partition close s) else .error .valueError

/-! ### Regular expressions over bytes -/

/-- `"%02x" % n` -/
def hex2 (n : Int) : Text :=
  let digits := Nat.toDigits 16 n.natAbs
  if n < 0 then '-' :: digits else if digits.length < 2 then '0' :: digits else digits

def bytePcre (n : Int) : Text := ['\\', 'x'] ++ hex2 n

def classByte : Text → Option (Nat × Text)
  | [] => none
  | '\\' :: t =>
    match t with
    | 'x' :: a :: b :: t => do
      let hi ← hexDigit a
      let lo ← hexDigit b
      return (16 * hi + lo, t)
    | _ => none
  | c :: t => some (c.toNat, t)

/-- The ranges of a bracket expression; a dash at its end stands for itself. -/
def classParts : Nat → Text → Option (List (Nat × Nat))
  | _, [] => some []
  | 0, _ :: _ => none
  | n + 1, c :: t => do
    let (lo, t) ← classByte (c :: t)
    match t with
    | '-' :: d :: t => do
      let (hi, t) ← classByte (d :: t)
      if hi < lo then none
      else
        let parts ← classParts n t
        return (lo, hi) :: parts
    | t => do
      let parts ← classParts n t
      return (lo, lo) :: parts

def inParts (parts : List (Nat × Nat)) (b : UInt8) : Bool := parts.any fun p => p.1 ≤ b.toNat && b.toNat ≤ p.2

/-- What `[\xlo-\xhi]` holds: two digits belong to an escape, and more digits stand for themselves. -/
def rangeParts (lo hi : Int) : Option (List (Nat × Nat)) :=
  let text := bytePcre lo ++ '-' :: bytePcre hi
  classParts text.length text

/-- `"%d" % n` -/
def decimalText (n : Int) : Text := if n < 0 then '-' :: Nat.toDigits 10 n.natAbs else Nat.toDigits 10 n.natAbs

def literalBytes (s : Text) : List UInt8 := s.flatMap String.utf8EncodeChar

/-- The text that `.{lo,hi}` is when a bound is negative: the braces are no quantifier then. -/
def literalBounds (lo : Int) (hi : Option Int) : Option Text :=
  if lo < 0 ∨ hi.any (· < 0) then some ('\x7b' :: (decimalText lo ++ ',' :: ((hi.map decimalText).getD [] ++ ['\x7d']))) else none

inductive ByteClass where
  | any
  | low (n : Int)
  | high (n : Int)
  | byte (n : Int)
  deriving DecidableEq

def ByteClass.has : ByteClass → UInt8 → Bool
  | any, _ => true
  | low n, b => (b.toNat % 16 : Int) = n
  | high n, b => (b.toNat / 16 : Int) = n
  | byte n, b => (b.toNat : Int) = n

/-- The pieces of an expression: `.{n}` is the gap from `n` to `n`. -/
inductive Fragment where
  | one (c : ByteClass)
  | star
  | gap (lo : Int) (hi : Option Int)
  | alt (branches : List (List ByteClass))
  | range (lo hi : Int)
  deriving DecidableEq

def branchRest : List ByteClass → List UInt8 → Option (List UInt8)
  | [], data => some data
  | _ :: _, [] => none
  | c :: cs, b :: data => if c.has b then branchRest cs data else none

def gapFits (lo : Int) (hi : Option Int) (n : Nat) : Bool := lo ≤ n && hi.all fun h => (n : Int) ≤ h

def matchPrefix : List Fragment → List UInt8 → Bool
  | [], _ => true
  | .one _ :: _, [] => false
  | .one c :: fs, b :: data => c.has b && matchPrefix fs data
  | .star :: fs, data => (List.range (data.length + 1)).any fun n => matchPrefix fs (data.drop n)
  | .gap lo hi :: fs, data =>
    match literalBounds lo hi with
    | none => (List.range (data.length + 1)).any fun n => gapFits lo hi n && matchPrefix fs (data.drop n)
    | some text => data ≠ [] && literalBytes text <+: data.drop 1 && matchPrefix fs (data.drop ((literalBytes text).length + 1))
  | .alt branches :: fs, data => branches.any fun cs => (branchRest cs data).any (matchPrefix fs)
  | .range _ _ :: _, [] => false
  | .range lo hi :: fs, b :: data => (rangeParts lo hi).any (inParts · b) && matchPrefix fs data

def maxRepeat : Int := 2 ^ 32 - 1

def ByteClass.check : ByteClass → Except PyError Unit
  | byte n => if n < 0 then .error .reError else .ok ()
  | _ => .ok ()

/-- What `re.compile` says to a fragment. -/
def Fragment.check : Fragment → Except PyError Unit
  | one c => c.check
  | star => .ok ()
  | gap lo hi =>
    if (literalBounds lo hi).isSome then .ok ()
    else if maxRepeat ≤ lo then .error .overflowError
    else
      match hi with
      | none => .ok ()
      | some hi => if maxRepeat ≤ hi then .error .overflowError else if hi < lo then .error .reError else .ok ()
  | alt branches => branches.forM fun cs => cs.forM ByteClass.check
  | range lo hi => if (rangeParts lo hi).isSome then .ok () else .error .reError

/-! ### `compile_hexsig` -/

section

variable (U : Unicode)

def Unicode.int (base : Nat) (s : Text) : Except PyError Int :=
  match pyInt U.decimal base s with
  | some n => .ok n
  | none => .error .valueError

def pairRe : Text → Except PyError ByteClass
  | hi :: lo :: _ =>
    if hi = '?' ∧ lo = '?' then .ok .any
    else if hi = '?' then (U.int 16 [lo]).map .low
    else if lo = '?' then (U.int 16 [hi]).map .high
    else (U.int 16 [hi, lo]).map .byte
  | _ => .error .indexError

def altRe : Text → Except PyError (List ByteClass)
  | hi :: lo :: rest => do
    let c ← pairRe U [hi, lo]
    let cs ← altRe rest
    return c :: cs
  | _ => .ok []

def gapRe (spec : Text) : Except PyError Fragment :=
  let spec := strip spec
  if '-' ∈ spec then do
    let (a, b) := partition '-' spec
    let lo ← U.int 10 (if a = [] then ['0'] else a)
    if b = [] then return .gap lo none
    let hi ← U.int 10 b
    return .gap lo (some hi)
  else do
    let n ← U.int 10 spec
    return .gap n (some n)

/-- One round of the loop of `compile_hexsig`: a fragment and the text behind it. -/
def token : Text → Except PyError (Fragment × Text)
  | [] => .error .indexError
  | c :: rest =>
    if c = '*' then .ok (.star, rest)
    else if c = '{' then do
      let (spec, rest) ← cut '}' rest
      let f ← gapRe U spec
      return (f, rest)
    else if c = '(' then do
      let (body, rest) ← cut ')' rest
      let branches ← (body.splitOn '|').mapM (altRe U)
      return (.alt branches, rest)
    else if c = '[' then do
      let (body, rest) ← cut ']' rest
      let (lo, hi) := partition '-' body
      let lo ← U.int 16 lo
      let hi ← U.int 16 hi
      return (.range lo hi, rest)
    else do
      let p ← pairRe U (c :: rest.take 1)
      return (.one p, rest.drop 1)

/-- Every round takes at least a character, so the length of the text is fuel enough. -/
def tokens : Nat → Text → Except PyError (List Fragment)
  | 0, _ => .ok []
  | _ + 1, [] => .ok []
  | fuel + 1, c :: s => do
    let (f, rest) ← token U (c :: s)
    let fs ← tokens fuel rest
    return f :: fs

def squeeze (s : Text) : Text := s.filter (· ≠ ' ')

def hexsigFragments (hexsig : Text) : Except PyError (List Fragment) := do
  let fs ← tokens U (squeeze hexsig).length (squeeze hexsig)
  fs.forM Fragment.check
  return fs

/-- `none` where `ValueError` and `re.error` are caught. -/
def compileHexsig (hexsig : Text) : Except PyError (Option (List Fragment)) :=
  match hexsigFragments U hexsig with
  | .ok fs => .ok (some fs)
  | .error .valueError => .ok none
  | .error .reError => .ok none
  | .error e => .error e

end

def closing (c : Char) : Option Char :=
  if c = '{' then some '}' else if c = '(' then some ')' else if c = '[' then some ']' else none

def longer (best cur : List UInt8) : List UInt8 := if best.length < cur.length then cur else best

def anchorLoop : Nat → Text → List UInt8 → List UInt8 → Except PyError (List UInt8)
  | 0, _, best, cur => .ok (longer best cur)
  | _ + 1, [], best, cur => .ok (longer best cur)
  | fuel + 1, c :: s, best, cur =>
    match hexDigit c, s.head?.bind hexDigit with
    | some hi, some lo => anchorLoop fuel s.tail best (cur ++ [UInt8.ofNat (16 * hi + lo)])
    | _, _ =>
      match closing c with
      | none => anchorLoop fuel s (longer best cur) []
      | some close => do
        let (_, rest) ← cut close s
        anchorLoop fuel rest (longer best cur) []

def literalAnchor (hexsig : Text) : Except PyError (Option (List UInt8)) := do
  let best ← anchorLoop (squeeze hexsig).length (squeeze hexsig) [] []
  return if 4 ≤ best.length then some best else none

section

variable (U : Unicode)

def nibbleClass (hi lo : Char) : Except PyError Text :=
  if hi = '?' ∧ lo = '?' then .ok ['.']
  else if hi = '?' then do
    let v ← U.int 16 [lo]
    return ['['] ++ ((List.range 16).flatMap fun n => bytePcre (16 * n + v)) ++ [']']
  else if lo = '?' then do
    let v ← U.int 16 [hi]
    return ['['] ++ bytePcre (16 * v) ++ ['-'] ++ bytePcre (16 * v + 15) ++ [']']
  else do
    let v ← U.int 16 [hi, lo]
    return bytePcre v

def unhexlify (a : Text) : Except PyError (List UInt8) :=
  match fromHex a with
  | some bytes => .ok bytes
  | none => .error .valueError

def pcreToken : Text → Except PyError (Text × Text)
  | [] => .error .indexError
  | c :: rest =>
    if c = '*' then .ok (['.', '*'], rest)
    else if c = '{' then do
      let (spec, rest) ← cut '}' rest
      let spec := strip spec
      let (a, b) := partition '-' spec
      let a' := if a = [] then ['0'] else a
      let body := if '-' ∈ spec then if b = [] then a' ++ [','] else a' ++ [','] ++ b else spec
      return (['.', '\x7b'] ++ body ++ ['\x7d'], rest)
    else if c = '(' then do
      let (body, rest) ← cut ')' rest
      let branches ← (body.splitOn '|').mapM unhexlify
      return ("(?:".toList ++ List.intercalate ['|'] (branches.map bytesPcre) ++ [')'], rest)
    else if c = '[' then do
      let (body, rest) ← cut ']' rest
      let (lo, hi) := partition '-' body
      let lo ← U.int 16 lo
      let hi ← U.int 16 hi
      return (['['] ++ bytePcre lo ++ ['-'] ++ bytePcre hi ++ [']'], rest)
    else
      match rest with
      | [] => .error .indexError
      | lo :: rest => do
        let text ← nibbleClass U c lo
        return (text, rest)

def pcreTokens : Nat → Text → Except PyError Text
  | 0, _ => .ok []
  | _ + 1, [] => .ok []
  | fuel + 1, c :: s => do
    let (text, rest) ← pcreToken U (c :: s)
    let texts ← pcreTokens fuel rest
    return text ++ texts

def hexsigToPcre (hexsig : Text) : Except PyError Text := pcreTokens U (squeeze hexsig).length (squeeze hexsig)

end

end FfnNgfw.Antivirus
