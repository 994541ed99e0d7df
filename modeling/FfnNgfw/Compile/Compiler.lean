import FfnNgfw.Antivirus.Engine

/-!
# The fast-path compiler

`FastPathCompiler` collects the signatures of the databases into tables: a line of `hspat`
and a record of `patmeta` for every pattern, `avhash` for file hashes and a blob of names.
A load that raises leaves what it had put in.
-/

namespace FfnNgfw.Compile
open Threatdb (Text utf8)
open Detect (bytesPcre patternFlags)
open Antivirus (Unicode PyError hexsigToPcre clamavOffsetExt yaraBytes bytesFromhex squeeze unhexlify combination)

/-! ### Flags and codes -/

def hsCaseless : Nat := 1
def hsDotall : Nat := 2
def hsSinglematch : Nat := 8
def hsPrefilter : Nat := 128
def hsSomLeftmost : Nat := 256
def hsCombination : Nat := 512
def hsQuiet : Nat := 1024

/-- `FLAG_LETTER.get(ch, 0)` -/
def flagLetter (c : Char) : Nat :=
  if c = 'i' then hsCaseless else if c = 's' then hsDotall else if c = 'H' then hsSinglematch else if c = 'P' then hsPrefilter
  else if c = 'L' then hsSomLeftmost else if c = 'C' then hsCombination else if c = 'Q' then hsQuiet else 0

def flagBits (flags : Text) : Nat := flags.foldl (fun bits c => bits ||| flagLetter c) 0

/-- `"".join(sorted(set(flags)))` -/
def sortedLetters (flags : Text) : Text := flags.dedup.insertionSort (·.toNat ≤ ·.toNat)

def sevCode (severity : Text) : Nat :=
  if severity = "info".toList then 0 else if severity = "low".toList then 1 else if severity = "medium".toList then 2
  else if severity = "critical".toList then 4 else 3

def verdictCode (verdict : Text) : Nat :=
  if verdict = "phishing".toList then 1
  else if verdict = "grayware".toList ∨ verdict = "benign".toList ∨ verdict = "unknown".toList then 0 else 2

inductive Origin where
  | ips | avNdb | yaraSub | yaraCombo
  deriving DecidableEq

def Origin.code : Origin → Nat
  | ips => 0
  | avNdb => 1
  | yaraSub => 2
  | yaraCombo => 3

/-- An enabled row of `content_signatures`. -/
structure ContentRow where
  sid : Int
  name : Text
  patternHex : Text
  isPcre : Bool
  nocase : Bool
  offset : Int
  depth : Int
  action : Int
  severity : Text
  threatName : Option Text
  verdict : Text

inductive AvContent where
  | hash (hashType hashValue : Text) (fileSize : Int)
  | pattern (hexPattern offset : Text)
  /-- the strings of the rule in their order -/
  | yara (strings : List Text) (condition : Text)

/-- An enabled row of `av_signatures`. -/
structure AvRow where
  sigId : Int
  name : Text
  severity : Text
  verdict : Text
  action : Int
  content : AvContent

/-! ### The tables -/

structure HspatLine where
  id : Nat
  pcre : Text
  flags : Text
  deriving DecidableEq

structure PatMeta where
  patId : Nat
  hsFlags : Nat
  minOffset : Int
  maxOffset : Int
  minLength : Nat
  action : Int
  severity : Nat
  origin : Origin
  hostConfirm : Bool
  comboGroup : Nat
  nameIdx : Nat
  verdict : Nat
  srcSid : Nat
  deriving DecidableEq

structure AvHash where
  digest : List UInt8
  size : Int
  action : Int
  severity : Nat
  nameIdx : Nat
  whole : digest.length = 32

structure Compiler where
  hspat : List HspatLine := []
  patmeta : List PatMeta := []
  avhash : List AvHash := []
  strings : List UInt8 := []
  strIndex : Dict Text Nat := ∅
  nextId : Nat := 0

/-- `_intern`: the names so far, and the offset of this one. -/
def Compiler.intern (c : Compiler) (s : Text) : Compiler × Nat :=
  if s = [] then (c, 0xFFFF)
  else
    match c.strIndex.lookup s with
    | some off => (c, off)
    | none =>
      if 0xFFFE < c.strings.length then (c, 0xFFFF)
      else ({ c with strIndex := c.strIndex.assign s c.strings.length, strings := c.strings ++ utf8 s ++ [0] }, c.strings.length)

/-- What `_add_pattern` is told of a pattern besides its text. -/
structure PatternInfo where
  flags : Text
  action : Int
  severity : Text
  origin : Origin
  verdict : Text
  threatName : Text
  srcSid : Int
  minOff : Int := 0
  maxOff : Int := 0
  hostConfirm : Bool := false
  comboGroup : Nat := 0xFFFF

def PatternInfo.letters (info : PatternInfo) : Text := patternFlags info.flags info.minOff info.maxOff

def low16 (n : Int) : Nat := (n % 0x10000).toNat

def Compiler.addPattern (c : Compiler) (pcre : Text) (info : PatternInfo) : Compiler :=
  let (c', nameIdx) := c.intern info.threatName
  { c' with
    hspat := c.hspat ++ [⟨c.nextId, pcre, sortedLetters info.letters⟩]
    patmeta := c.patmeta ++
      [⟨c.nextId, flagBits info.letters, info.minOff, info.maxOff, 0, info.action, sevCode info.severity, info.origin,
        info.hostConfirm, info.comboGroup, nameIdx, verdictCode info.verdict, low16 info.srcSid⟩]
    nextId := c.nextId + 1 }

/-- A body that is a regular expression is taken byte by byte as characters. -/
def latin1 (raw : List UInt8) : Text := raw.map fun b => Char.ofNat b.toNat

def ContentRow.pcre (r : ContentRow) (raw : List UInt8) : Text := if r.isPcre then latin1 raw else bytesPcre raw

def ContentRow.info (r : ContentRow) : PatternInfo where
  flags := if r.nocase then ['i'] else []
  action := r.action
  severity := r.severity
  origin := .ips
  verdict := r.verdict
  threatName := match r.threatName with
    | none => r.name
    | some name => if name = [] then r.name else name
  srcSid := r.sid
  minOff := if r.offset > 0 then r.offset else 0
  maxOff := if r.depth > 0 then r.offset + r.depth else 0

def Compiler.addContent (c : Compiler) (r : ContentRow) : Compiler :=
  match unhexlify r.patternHex with
  | .error _ => c
  | .ok raw => c.addPattern (r.pcre raw) r.info

def Compiler.loadContentSignatures (c : Compiler) (rows : List ContentRow) : Compiler := rows.foldl Compiler.addContent c

/-! ### `load_av_signatures` -/

section

variable (U : Unicode)

def AvRow.info (r : AvRow) (origin : Origin) (flags : Text) : PatternInfo where
  flags := flags
  action := r.action
  severity := r.severity
  origin := origin
  verdict := r.verdict
  threatName := r.name
  srcSid := r.sigId

def loadStrings (r : AvRow) : Compiler → List Text → Compiler × List Nat × Option PyError
  | c, [] => (c, [], none)
  | c, v :: vs =>
    match yaraBytes v with
    | .error e => (c, [], some e)
    | .ok bytes =>
      let (c', ids, e) := loadStrings r (c.addPattern (bytesPcre bytes) { r.info .yaraSub ['Q'] with comboGroup := low16 r.sigId }) vs
      (c', c.nextId :: ids, e)

def PatMeta.confirm (m : PatMeta) : PatMeta := { m with hostConfirm := true, hsFlags := m.hsFlags ||| hsPrefilter }

def Compiler.confirm (c : Compiler) (ids : List Nat) : Compiler :=
  { c with patmeta := ids.foldl (fun patmeta i => patmeta.modify i PatMeta.confirm) c.patmeta }

def loadYara (r : AvRow) (strings : List Text) (condition : Text) (c : Compiler) : Compiler × Option PyError :=
  let (c, ids, e) := loadStrings r c strings
  if e ≠ none ∨ ids = [] then (c, e)
  else if condition = "all".toList then
    (c.addPattern (combination " & ".toList ids) { r.info .yaraCombo ['C'] with comboGroup := low16 r.sigId }, none)
  else if condition = "any".toList then
    (c.addPattern (combination " | ".toList ids) { r.info .yaraCombo ['C'] with comboGroup := low16 r.sigId }, none)
  else (c.confirm ids, none)

def loadHash (r : AvRow) (hashType hashValue : Text) (fileSize : Int) (c : Compiler) : Compiler :=
  if hashType ≠ "sha256".toList then c
  else
    match bytesFromhex hashValue with
    | none => c
    | some digest =>
      if whole : digest.length = 32 then
        let (c, nameIdx) := c.intern r.name
        { c with avhash := c.avhash ++ [⟨digest, fileSize, r.action, sevCode r.severity, nameIdx, whole⟩] }
      else c

def patternOf (hexPattern offset : Text) : Except PyError (Text × Int × Int × Bool) := do
  let pcre ← hexsigToPcre U hexPattern
  let window ← clamavOffsetExt U offset ((squeeze hexPattern).length / 2)
  return (pcre, window)

def loadPattern (r : AvRow) (hexPattern offset : Text) (c : Compiler) : Compiler × Option PyError :=
  match patternOf U hexPattern offset with
  | .error e => (c, some e)
  | .ok (pcre, minOff, maxOff, confirm) =>
    (c.addPattern pcre { r.info .avNdb (if confirm then ['P'] else []) with
      minOff := minOff, maxOff := maxOff, hostConfirm := confirm }, none)

def loadRow (c : Compiler) (r : AvRow) : Compiler × Option PyError :=
  match r.content with
  | .hash hashType hashValue fileSize => (loadHash r hashType hashValue fileSize c, none)
  | .pattern hexPattern offset => loadPattern U r hexPattern offset c
  | .yara strings condition => loadYara r strings condition c

def Compiler.loadAvSignatures : Compiler → List AvRow → Compiler × Option PyError
  | c, [] => (c, none)
  | c, r :: rows =>
    match loadRow U c r with
    | (c, none) => c.loadAvSignatures rows
    | (c, some e) => (c, some e)

inductive Load where
  | content (rows : List ContentRow)
  | av (rows : List AvRow)

def Compiler.load (c : Compiler) : Load → Compiler
  | .content rows => c.loadContentSignatures rows
  | .av rows => (c.loadAvSignatures U rows).1

def Compiler.loadAll (c : Compiler) (loads : List Load) : Compiler := loads.foldl (Compiler.load U) c

end

end FfnNgfw.Compile
