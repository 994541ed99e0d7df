import FfnNgfw.Antivirus.Hexsig
import FfnNgfw.Lib.Dict

/-!
# The signature database

Signatures come in through `add_hash`, `add_pattern`, `add_yara` and the two imports. A
body signature is admitted when a light check of its text passes; the rows keep that.
-/

namespace FfnNgfw.Antivirus
open Threatdb (Text hexDigit pyInt strip isInfix)
open Policy (isSpace)

/-- `re.sub(.., "", s)` for an expression that is matched by `m`: what is left behind a match. -/
def subLoop (m : Text → Option Text) : Nat → Text → Text
  | 0, s => s
  | _ + 1, [] => []
  | fuel + 1, c :: s =>
    match m (c :: s) with
    | some rest => subLoop m fuel rest
    | none => c :: subLoop m fuel s

def sub (m : Text → Option Text) (s : Text) : Text := subLoop m s.length s

def isAltChar (c : Char) : Bool := isHex c || c = '|' || c = '?'

/-- `\([0-9a-fA-F|?]+\)` -/
def altMatch : Text → Option Text
  | '(' :: s =>
    match s.dropWhile isAltChar with
    | ')' :: rest => if s.takeWhile isAltChar = [] then none else some rest
    | _ => none
  | _ => none

def dropDash : Text → Text
  | '-' :: s => s
  | s => s

/-- `\{[0-9]*-?[0-9]*\}` -/
def gapMatch : Text → Option Text
  | '{' :: s =>
    match (dropDash (s.dropWhile Char.isDigit)).dropWhile Char.isDigit with
    | '}' :: rest => some rest
    | _ => none
  | _ => none

def validateHexsig (hexsig : Text) : Bool :=
  let core := ((sub gapMatch (sub altMatch hexsig)).filter (· ≠ '*')).filter (· ≠ '?')
  !hexsig.isEmpty && !core.isEmpty && core.all isHex

/-! ### Rows -/

structure HashSig where
  hashType : Text
  hashValue : Text
  fileSize : Int

structure BodySig where
  target : Text
  offset : Text
  hexPattern : Text
  admitted : validateHexsig hexPattern = true
  squeezed : ' ' ∉ hexPattern

structure YaraSig where
  target : Text
  strings : Dict Text Text
  condition : Text

inductive Content where
  | hash (h : HashSig)
  | body (p : BodySig)
  | yara (y : YaraSig)

structure Row where
  sigId : Nat
  content : Content

structure SignatureDB where
  rows : List Row := []
  numbered : rows.map Row.sigId = List.range' 1 rows.length := by rfl

namespace SignatureDB

def insert (db : SignatureDB) (content : Content) : SignatureDB where
  rows := db.rows ++ [⟨db.rows.length + 1, content⟩]
  numbered := by
    rw [List.map_append, db.numbered, List.length_append, List.length_singleton, List.range'_1_concat, Nat.add_comm 1]
    rfl

variable (U : Unicode)

def addHash (db : SignatureDB) (hashValue hashType : Text) (size : Int) : Except PyError SignatureDB :=
  let hv := strip (U.lower hashValue)
  let hashType :=
    if hashType = "auto".toList then
      if hv.length = 32 then "md5".toList else if hv.length = 40 then "sha1".toList else "sha256".toList
    else hashType
  if hv.any fun c => c ∉ "0123456789abcdef".toList then .error .valueError else .ok (db.insert (.hash ⟨hashType, hv, size⟩))

def addPattern (db : SignatureDB) (hexPattern target offset : Text) : Except PyError SignatureDB :=
  if valid : validateHexsig (squeeze hexPattern) = true then
    .ok (db.insert (.body ⟨target, offset, squeeze hexPattern, valid, by simp [squeeze]⟩))
  else .error .valueError

def addYara (db : SignatureDB) (strings : Dict Text Text) (condition target : Text) : SignatureDB :=
  db.insert (.yara ⟨target, strings, condition⟩)

/-! ### Imports -/

/-- `str.isdigit` -/
def isdigit (s : Text) : Bool := s ≠ [] && s.all fun c => if c.toNat < 128 then c.isDigit else U.isdigit c

def guessClamav (line : Text) : Text :=
  let head := (partition ':' line).1
  if head.length ∈ [32, 40, 64] ∧ head.all isHex then if head.length = 32 then "hdb".toList else "hsb".toList
  else "ndb".toList

def clamavTarget (n : Int) : Text :=
  match n with
  | 1 => "pe".toList
  | 2 => "ole".toList
  | 3 => "html".toList
  | 4 => "mail".toList
  | 5 => "graphics".toList
  | 6 => "elf".toList
  | 7 => "ascii".toList
  | 9 => "macho".toList
  | _ => "any".toList

/-- A line of `import_clamav`, after it is stripped. -/
def clamavLine (kind : Text) (db : SignatureDB) (line : Text) : Except PyError SignatureDB :=
  let k := if kind ≠ "auto".toList then kind else guessClamav line
  if k = "hdb".toList ∨ k = "hsb".toList then
    match line.splitOn ':' with
    | hv :: size :: _ :: _ => do
      let ht := if hv.length = 32 then "md5".toList else if hv.length = 40 then "sha1".toList else "sha256".toList
      let size ← if isdigit U size then U.int 10 size else .ok 0
      db.addHash U hv ht size
    | _ => .ok db
  else if k = "ndb".toList then
    match line.splitOn ':' with
    | _ :: tgt :: off :: hexsig :: _ => do
      let tgt ← if isdigit U tgt then U.int 10 tgt else .ok 0
      db.addPattern hexsig (clamavTarget tgt) off
    | _ => .ok db
  else .ok db

def importClamav (db : SignatureDB) (lines : List Text) (kind : Text) : SignatureDB :=
  (lines.map strip).foldl (fun db line =>
    if line = [] ∨ line.head? = some '#' then db
    else
      match clamavLine U kind db line with
      | .ok db => db
      | .error _ => db) db

/-- `(\d+)\s+of\s+them` at the start of a text. -/
def ofThem (s : Text) : Option Text :=
  let isDecimal (c : Char) := c.isDigit || (U.decimal c).isSome
  let digits := s.takeWhile isDecimal
  let rest := s.dropWhile isDecimal
  if digits = [] ∨ ¬rest.head?.any isSpace then none
  else
    match rest.dropWhile isSpace with
    | 'o' :: 'f' :: rest =>
      if rest.head?.any isSpace ∧ "them".toList <+: rest.dropWhile isSpace then some digits else none
    | _ => none

def normalizeYaraCondition (cond : Text) : Text :=
  let c := U.lower cond
  if isInfix "all of them".toList c then "all".toList
  else if isInfix "any of them".toList c then "any".toList
  else
    match c.tails.findSome? (ofThem U) with
    | some n => n ++ " of them".toList
    | none => if isInfix " or ".toList c ∧ ¬isInfix " and ".toList c then "any".toList else "all".toList

/-- What the expressions of `import_yara` read off a rule: its strings as they stand, and
the text of its condition. -/
structure YaraRule where
  strings : List (Text × Text)
  condition : Option Text

/-- A string of a rule; `unescape` is the decoding of `unicode_escape`. -/
def yaraString (unescape : Text → Except PyError Text) (val : Text) : Except PyError Text :=
  if val.head? = some '{' then .ok ("hex:".toList ++ val.tail.dropLast.filter fun c => !isSpace c)
  else unescape val.tail.dropLast

def yaraRule (unescape : Text → Except PyError Text) (db : SignatureDB) (rule : YaraRule) : Except PyError SignatureDB := do
  let strings ← rule.strings.foldlM (fun d s => (yaraString unescape s.2).map fun v => Dict.assign d ('$' :: s.1) v) ∅
  let cond := normalizeYaraCondition U ((rule.condition.map strip).getD "all".toList)
  return if rule.strings = [] then db else db.addYara strings cond "any".toList

def importYara (unescape : Text → Except PyError Text) (db : SignatureDB) (rules : List YaraRule) : SignatureDB :=
  (foldlUntil (yaraRule U unescape) db rules).1

end SignatureDB

inductive Call where
  | addHash (hashValue hashType : Text) (size : Int)
  | addPattern (hexPattern target offset : Text)
  | addYara (strings : Dict Text Text) (condition target : Text)
  | importClamav (lines : List Text) (kind : Text)
  | importYara (unescape : Text → Except PyError Text) (rules : List SignatureDB.YaraRule)

def Call.run (U : Unicode) (db : SignatureDB) : Call → SignatureDB
  | addHash hv ht size => ((db.addHash U hv ht size).toOption).getD db
  | addPattern hp target offset => ((db.addPattern hp target offset).toOption).getD db
  | addYara strings condition target => db.addYara strings condition target
  | importClamav lines kind => db.importClamav U lines kind
  | importYara unescape rules => db.importYara U unescape rules

def SignatureDB.build (U : Unicode) (calls : List Call) : SignatureDB := calls.foldl (Call.run U) {}

end FfnNgfw.Antivirus
