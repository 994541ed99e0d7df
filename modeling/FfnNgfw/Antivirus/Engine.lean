import FfnNgfw.Antivirus.Sigdb
import FfnNgfw.Detect.Content
import FfnNgfw.Threatdb.Store

/-!
# The engines

`AntiVirus.compile` builds matchers from the signature database and `scan_file` tries
them: hashes, then the body signatures without an anchor and those whose anchor the
automaton finds, then the YARA rules. `load_av_signatures` compiles the same rows for the
fast path.
-/

namespace FfnNgfw.Antivirus
open Threatdb (Text hexDigit pyInt strip utf8)
open Detect (bytesPcre FastPathCompiler)
open SignatureDB (isdigit ofThem)

/-- White space that `bytes.fromhex` skips. -/
def isBlank (c : Char) : Bool := c ∈ [' ', '\t', '\n', '\x0b', '\x0c', '\r']

/-- `bytes.fromhex`: pairs of digits, with white space between them. -/
def bytesFromhex : Text → Option (List UInt8)
  | [] => some []
  | c :: s =>
    if isBlank c then bytesFromhex s
    else
      match s with
      | [] => none
      | d :: s => do
        let hi ← hexDigit c
        let lo ← hexDigit d
        let bytes ← bytesFromhex s
        return UInt8.ofNat (16 * hi + lo) :: bytes

def yaraBytes (v : Text) : Except PyError (List UInt8) :=
  if "hex:".toList <+: v then
    match bytesFromhex (v.drop 4) with
    | some bytes => .ok bytes
    | none => .error .valueError
  else .ok (utf8 v)

structure Pat where
  sigId : Nat
  rx : List Fragment
  offset : Text
  target : Text

structure Yara where
  sigId : Nat
  strings : List (List UInt8)
  condition : Text
  target : Text
  deriving DecidableEq

/-- The matchers; `hashIndex` has the id and the size of a hash signature. -/
structure AntiVirus where
  hashIndex : Dict (Text × Text) (Nat × Int) := ∅
  patByAnchor : Dict Nat Pat := ∅
  patNoanchor : List Pat := []
  yara : List Yara := []
  ac : Automaton UInt8 Nat := .empty
  nAnchor : Nat := 0

variable (U : Unicode)

/-- The matcher of a body signature, if it compiles, with its anchor. -/
def compileBody (sigId : Nat) (p : BodySig) : Except PyError (Option (Pat × Option (List UInt8))) := do
  match ← compileHexsig U p.hexPattern with
  | none => return none
  | some rx =>
    let anchor ← literalAnchor p.hexPattern
    return some (⟨sigId, rx, p.offset, p.target⟩, anchor)

def compileYara (sigId : Nat) (y : YaraSig) : Except PyError Yara := do
  let strings ← (y.strings.items.map Prod.snd).mapM yaraBytes
  return ⟨sigId, strings, y.condition, y.target⟩

def AntiVirus.compileRow (av : AntiVirus) (r : Row) : Except PyError AntiVirus :=
  match r.content with
  | .hash h => .ok { av with hashIndex := Dict.assign av.hashIndex (h.hashType, h.hashValue) (r.sigId, h.fileSize) }
  | .body p => do
    match ← compileBody U r.sigId p with
    | none => return av
    | some (pat, none) => return { av with patNoanchor := av.patNoanchor ++ [pat] }
    | some (pat, some anchor) =>
      return { av with
        ac := av.ac.add anchor r.sigId
        patByAnchor := Dict.assign av.patByAnchor r.sigId pat
        nAnchor := av.nAnchor + 1 }
  | .yara y => do
    let rule ← compileYara r.sigId y
    return { av with yara := av.yara ++ [rule] }

def AntiVirus.compile (db : SignatureDB) : Except PyError AntiVirus := db.rows.foldlM (AntiVirus.compileRow U) {}

/-! ### `scan_file` -/

structure Digests where
  md5 : List UInt8 → Text
  sha1 : List UInt8 → Text
  sha256 : List UInt8 → Text

/-- `<script` -/
def scriptTag : List UInt8 := [0x3c, 0x73, 0x63, 0x72, 0x69, 0x70, 0x74]

def fileMagic : List (List UInt8 × Text) :=
  [([0x4d, 0x5a], "pe".toList), ([0x7f, 0x45, 0x4c, 0x46], "elf".toList), ([0x25, 0x50, 0x44, 0x46], "pdf".toList),
    ([0x50, 0x4b, 3, 4], "zip".toList), ([0xd0, 0xcf, 0x11, 0xe0], "ole".toList), ([0x1f, 0x8b], "gzip".toList),
    ([0x52, 0x61, 0x72, 0x21], "rar".toList), ([0xca, 0xfe, 0xba, 0xbe], "macho".toList), ([0x23, 0x21], "script".toList),
    ([0x3c, 0x3f, 0x70, 0x68, 0x70], "php".toList), (scriptTag, "html_js".toList)]

def detectFileType (data : List UInt8) : Option Text :=
  (fileMagic.find? fun m =>
    m.1 <+: data.take 16 || (m.1 = scriptTag && scriptTag <:+: Detect.lower (data.take 512))).map Prod.snd

/-- `rx.search(data, pos)`: where the first match starts. -/
def search (rx : List Fragment) (data : List UInt8) (pos : Nat) : Option Nat :=
  (List.range' pos (data.length + 1 - pos)).find? fun i => matchPrefix rx (data.drop i)

/-- `rx.match(data, pos)`; a position outside the data is moved to its nearer end. -/
def matchAt (rx : List Fragment) (data : List UInt8) (pos : Int) : Option Nat :=
  let i := min pos.toNat data.length
  if matchPrefix rx (data.drop i) then some i else none

def lstripDash (s : Text) : Text := s.dropWhile (· = '-')

def offsetMatch (rx : List Fragment) (data : List UInt8) (offset : Text) : Except PyError (Option Nat) :=
  let offset := strip (if offset = [] then ['*'] else offset)
  if offset = ['*'] ∨ offset = [] ∨ "EP".toList <+: offset ∨ "S".toList <+: offset then .ok (search rx data 0)
  else if "EOF-".toList <+: offset then
    match U.int 10 (offset.drop 4) with
    | .error _ => .ok (search rx data 0)
    | .ok n => .ok (search rx data (min (max 0 (data.length - n - 256)).toNat data.length))
  else if isdigit U (lstripDash offset) then do
    let n ← U.int 10 offset
    return matchAt rx data n
  else .ok (search rx data 0)

def targetOk (target : Text) (ftype : Option Text) : Bool := target = "any".toList || ftype = none || some target = ftype

def condMet (condition : Text) (hits total : Nat) : Bool :=
  let c := U.lower (strip (if condition = [] then "all".toList else condition))
  if c = "all".toList then hits = total
  else if c = "any".toList then 1 ≤ hits
  else
    match ofThem U c with
    | some digits => (pyInt U.decimal 10 digits).any fun n => n ≤ (hits : Int)
    | none => hits = total

inductive Method where
  | hash
  | pattern
  | yara
  deriving DecidableEq

structure Hit where
  sigId : Nat
  method : Method
  offset : Nat
  deriving DecidableEq

structure AvResult where
  fileType : Option Text
  hit : Option Hit := none

def AvResult.infected (r : AvResult) : Bool := r.hit.isSome

def AntiVirus.hashHit (D : Digests) (av : AntiVirus) (data : List UInt8) : Option Hit :=
  [("md5".toList, D.md5 data), ("sha1".toList, D.sha1 data), ("sha256".toList, D.sha256 data)].findSome? fun key =>
    match AList.lookup key av.hashIndex with
    | some (sigId, size) => if size = 0 ∨ size = data.length then some ⟨sigId, .hash, 0⟩ else none
    | none => none

def AntiVirus.candidates (av : AntiVirus) (data : List UInt8) : List Pat :=
  av.patNoanchor ++
    (if av.nAnchor = 0 then []
    else ((av.ac.build.iterMatches data).map Prod.snd).eraseDups.filterMap fun sid => AList.lookup sid av.patByAnchor)

def patternHit (data : List UInt8) (ftype : Option Text) : List Pat → Except PyError (Option Hit)
  | [] => .ok none
  | pat :: pats =>
    if ¬targetOk pat.target ftype then patternHit data ftype pats
    else do
      match ← offsetMatch U pat.rx data pat.offset with
      | some start => return some ⟨pat.sigId, .pattern, start⟩
      | none => patternHit data ftype pats

def Yara.hits (y : Yara) (data : List UInt8) : Nat := y.strings.countP fun s => s ≠ [] && decide (s <:+: data)

def Yara.matches (y : Yara) (data : List UInt8) (ftype : Option Text) : Bool :=
  targetOk y.target ftype && condMet U y.condition (y.hits data) y.strings.length

def AntiVirus.scanFile (D : Digests) (av : AntiVirus) (data : List UInt8) : Except PyError AvResult :=
  let ftype := detectFileType data
  if data = [] then .ok { fileType := ftype }
  else
    match av.hashHit D data with
    | some hit => .ok ⟨ftype, hit⟩
    | none => do
      match ← patternHit U data ftype (av.candidates data) with
      | some hit => return ⟨ftype, hit⟩
      | none => return ⟨ftype, (av.yara.find? fun y => y.matches U data ftype).map fun y => ⟨y.sigId, .yara, 0⟩⟩

/-! ### `load_av_signatures` -/

def clamavOffsetExt (offset : Text) (patlen : Nat) : Except PyError (Int × Int × Bool) :=
  let offset := strip (if offset = [] then ['*'] else offset)
  if offset = ['*'] ∨ offset = [] then .ok (0, 0, false)
  else if "EP".toList <+: offset ∨ "S".toList <+: offset then .ok (0, 0, true)
  else if "EOF-".toList <+: offset then .ok (0, 0, true)
  else if isdigit U (lstripDash offset) then do
    let n ← U.int 10 offset
    return (n, n + (max patlen 1 : Nat), false)
  else .ok (0, 0, true)

def combination (op : Text) (ids : List Nat) : Text := ['('] ++ List.intercalate op (ids.map (Nat.toDigits 10)) ++ [')']

def confirmOnHost (ids : List Nat) (c : FastPathCompiler) : FastPathCompiler :=
  { c with patterns := c.patterns.map fun p => if p.patId ∈ ids then { p with hostConfirm := true } else p }

def loadYara (c : FastPathCompiler) (y : YaraSig) : Except PyError FastPathCompiler := do
  let (c, ids) ← (y.strings.items.map Prod.snd).foldlM (fun (c, ids) v =>
    (yaraBytes v).map fun bytes => (c.addPattern (bytesPcre bytes) ['Q'] 0 0 false, ids ++ [c.nextId])) (c, ([] : List Nat))
  return if ids = [] then c
    else if y.condition = "all".toList then c.addPattern (combination " & ".toList ids) ['C'] 0 0 false
    else if y.condition = "any".toList then c.addPattern (combination " | ".toList ids) ['C'] 0 0 false
    else confirmOnHost ids c

def loadRow (c : FastPathCompiler) (r : Row) : Except PyError FastPathCompiler :=
  match r.content with
  | .hash h =>
    if h.hashType ≠ "sha256".toList then .ok c
    else
      match bytesFromhex h.hashValue with
      | none => .ok c
      | some bytes => if bytes.length ≠ 32 then .ok c else .ok { c with avhash := c.avhash ++ [(bytes, h.fileSize)] }
  | .body p => do
    let pcre ← hexsigToPcre U p.hexPattern
    let (minOff, maxOff, confirm) ← clamavOffsetExt U p.offset ((squeeze p.hexPattern).length / 2)
    return c.addPattern pcre (if confirm then ['P'] else []) minOff maxOff confirm
  | .yara y => loadYara c y

def loadAvSignatures (db : SignatureDB) : Except PyError FastPathCompiler := db.rows.foldlM (loadRow U) {}

end FfnNgfw.Antivirus

/-!
## What the engine holds

After `compile` the matchers of the engine are those of the rows, each under its id.
-/

namespace FfnNgfw.Antivirus
open Threatdb (Text)

/-- The row is this body signature, and this is its matcher and anchor. -/
def Row.Matcher (U : Unicode) (r : Row) (p : Pat) (anchor : Option (List UInt8)) : Prop :=
  ∃ b, r.content = .body b ∧ compileBody U r.sigId b = .ok (some (p, anchor))

/-- What the index holds for a digest: the hash signature that came last. -/
def indexed (rows : List Row) (key : Text × Text) : Option (Nat × Int) :=
  rows.reverse.findSome? fun r =>
    match r.content with
    | .hash h => if key = (h.hashType, h.hashValue) then some (r.sigId, h.fileSize) else none
    | _ => none

structure Compiled (U : Unicode) (rows : List Row) (av : AntiVirus) : Prop where
  noanchor : ∀ p, p ∈ av.patNoanchor ↔ ∃ r ∈ rows, r.Matcher U p none
  anchored : ∀ id p, AList.lookup id av.patByAnchor = some p ↔ ∃ r ∈ rows, r.sigId = id ∧ ∃ anchor, r.Matcher U p (some anchor)
  ac : ∃ entries, av.ac = Automaton.addAll .empty entries ∧ av.nAnchor = entries.length ∧
    ∀ anchor id, (anchor, id) ∈ entries ↔ ∃ r ∈ rows, r.sigId = id ∧ ∃ p, r.Matcher U p (some anchor)
  yara : ∀ y, y ∈ av.yara ↔ ∃ r ∈ rows, ∃ s, r.content = .yara s ∧ compileYara r.sigId s = .ok y
  hashes : ∀ key, AList.lookup key av.hashIndex = indexed rows key

variable {U : Unicode} {av av' : AntiVirus} {rows : List Row} {r : Row}

theorem compiled_nil : Compiled U [] {} :=
  ⟨fun p => by simp, fun id p => by simp, ⟨[], rfl, rfl, fun anchor id => by simp⟩, fun y => by simp, fun _ => rfl⟩

theorem indexed_other (other : ∀ h, r.content ≠ .hash h) (key : Text × Text) : indexed (rows ++ [r]) key = indexed rows key := by
  rw [indexed, List.reverse_concat, List.findSome?_cons]
  cases content : r.content with
  | hash h => exact absurd content (other h)
  | body b => rfl
  | yara s => rfl

theorem exists_mem_concat {p : Row → Prop} : (∃ r' ∈ rows ++ [r], p r') ↔ (∃ r' ∈ rows, p r') ∨ p r := by
  constructor
  · rintro ⟨r', member, holds⟩
    rcases List.mem_append.mp member with before | last
    · exact .inl ⟨r', before, holds⟩
    · obtain rfl := List.mem_singleton.mp last
      exact .inr holds
  · rintro (⟨r', member, holds⟩ | holds)
    · exact ⟨r', List.mem_append_left _ member, holds⟩
    · exact ⟨r, List.mem_append_right _ List.mem_cons_self, holds⟩

theorem noMatcher (other : ∀ b, r.content ≠ .body b) (p : Pat) (anchor : Option (List UInt8)) : ¬r.Matcher U p anchor := by
  rintro ⟨b, content, -⟩
  exact other b content

theorem Compiled.unmatched (compiled : Compiled U rows av) (none' : ∀ p anchor, ¬r.Matcher U p anchor) {ys : List Yara}
    {hs : Dict (Text × Text) (Nat × Int)}
    (yara : ∀ y, y ∈ ys ↔ ∃ r' ∈ rows ++ [r], ∃ s, r'.content = .yara s ∧ compileYara r'.sigId s = .ok y)
    (hashes : ∀ key, AList.lookup key hs = indexed (rows ++ [r]) key) :
    Compiled U (rows ++ [r]) { av with yara := ys, hashIndex := hs } := by
  obtain ⟨entries, ac, count, members⟩ := compiled.ac
  refine ⟨fun p => ?_, fun id p => ?_, ⟨entries, ac, count, fun anchor id => ?_⟩, yara, hashes⟩
  · rw [exists_mem_concat, compiled.noanchor p, or_iff_left (none' p none)]
  · rw [exists_mem_concat, compiled.anchored id p, or_iff_left]
    rintro ⟨-, anchor, matcher⟩
    exact none' p _ matcher
  · rw [exists_mem_concat, members, or_iff_left]
    rintro ⟨-, p, matcher⟩
    exact none' p _ matcher

theorem Compiled.hash (compiled : Compiled U rows av) {h : HashSig} (content : r.content = .hash h) :
    Compiled U (rows ++ [r]) { av with hashIndex := Dict.assign av.hashIndex (h.hashType, h.hashValue) (r.sigId, h.fileSize) } := by
  refine compiled.unmatched (noMatcher fun b same => by rw [content] at same; cases same) (fun y => ?_) fun key => ?_
  · rw [exists_mem_concat, compiled.yara y, or_iff_left]
    rintro ⟨s, same, -⟩
    rw [content] at same
    cases same
  · rw [Dict.lookup_assign, indexed, List.reverse_concat, List.findSome?_cons, content]
    dsimp only
    split
    · rfl
    · exact compiled.hashes key

theorem Compiled.yaraRow (compiled : Compiled U rows av) {s : YaraSig} {y : Yara} (content : r.content = .yara s)
    (rule : compileYara r.sigId s = .ok y) : Compiled U (rows ++ [r]) { av with yara := av.yara ++ [y] } := by
  refine compiled.unmatched (noMatcher fun b same => by rw [content] at same; cases same) (fun y' => ?_) fun key => ?_
  · rw [exists_mem_concat, List.mem_append, compiled.yara y', List.mem_singleton]
    refine or_congr Iff.rfl ⟨?_, ?_⟩
    · rintro rfl
      exact ⟨s, content, rule⟩
    · rintro ⟨s', same, rule'⟩
      rw [content] at same
      obtain rfl := Content.yara.inj same
      rw [rule] at rule'
      exact (Except.ok.inj rule').symm
  · rw [indexed_other (fun h same => by rw [content] at same; cases same), compiled.hashes]

theorem Row.Matcher.eq {b : BodySig} {out : Option (Pat × Option (List UInt8))} {p : Pat} {anchor : Option (List UInt8)}
    (content : r.content = .body b) (body : compileBody U r.sigId b = .ok out) : r.Matcher U p anchor ↔ out = some (p, anchor) := by
  constructor
  · rintro ⟨b', same, body'⟩
    rw [content] at same
    obtain rfl := Content.body.inj same
    rw [body] at body'
    exact Except.ok.inj body'
  · rintro rfl
    exact ⟨b, content, body⟩

theorem Compiled.body (compiled : Compiled U rows av) (fresh : ∀ r' ∈ rows, r'.sigId ≠ r.sigId) {b : BodySig}
    (content : r.content = .body b)
    (step : av.compileRow U r = .ok av') : Compiled U (rows ++ [r]) av' := by
  have noYara : ∀ y, ¬∃ s, r.content = .yara s ∧ compileYara r.sigId s = .ok y := by
    rintro y ⟨s, same, -⟩
    rw [content] at same
    cases same
  have hashes : ∀ key, AList.lookup key av.hashIndex = indexed (rows ++ [r]) key := by
    intro key
    rw [indexed_other (fun h same => by rw [content] at same; cases same), compiled.hashes]
  have yara : ∀ y, y ∈ av.yara ↔ ∃ r' ∈ rows ++ [r], ∃ s, r'.content = .yara s ∧ compileYara r'.sigId s = .ok y := by
    intro y
    rw [exists_mem_concat, compiled.yara y, or_iff_left (noYara y)]
  obtain ⟨entries, ac, count, members⟩ := compiled.ac
  rw [AntiVirus.compileRow, content] at step
  obtain ⟨out, body, step⟩ := bind_ok step
  have matcher : ∀ p anchor, r.Matcher U p anchor ↔ out = some (p, anchor) := fun p anchor => Row.Matcher.eq content body
  rcases out with _ | ⟨pat, _ | anchor⟩
  · obtain rfl := Except.ok.inj step
    have none' : ∀ p anchor, ¬r.Matcher U p anchor := fun p anchor found => by simpa using (matcher p anchor).mp found
    exact compiled.unmatched none' yara hashes
  · obtain rfl := Except.ok.inj step
    have none' : ∀ p anchor, ¬r.Matcher U p (some anchor) := fun p anchor found => by simpa using (matcher p (some anchor)).mp found
    refine ⟨fun p => ?_, fun id p => ?_, ⟨entries, ac, count, fun anchor id => ?_⟩, yara, hashes⟩
    · rw [exists_mem_concat, List.mem_append, compiled.noanchor p, matcher, List.mem_singleton]
      simp [eq_comm]
    · rw [exists_mem_concat, compiled.anchored id p, or_iff_left]
      rintro ⟨-, anchor, found⟩
      exact none' p _ found
    · rw [exists_mem_concat, members, or_iff_left]
      rintro ⟨-, p, found⟩
      exact none' p _ found
  · obtain rfl := Except.ok.inj step
    have none' : ∀ p, ¬r.Matcher U p none := fun p found => by simpa using (matcher p none).mp found
    refine ⟨fun p => ?_, fun id p => ?_, ⟨entries ++ [(anchor, r.sigId)], ?_, ?_, fun anchor' id => ?_⟩, yara, hashes⟩
    · rw [exists_mem_concat, compiled.noanchor p, or_iff_left (none' p)]
    · rw [exists_mem_concat, Dict.lookup_assign]
      split
      · rename_i same
        subst same
        rw [or_iff_right]
        · simp [matcher]
        · rintro ⟨r', member, same, -⟩
          exact fresh r' member same
      · rename_i other
        rw [compiled.anchored id p, or_iff_left]
        rintro ⟨same, -⟩
        exact other same.symm
    · rw [Automaton.addAll_concat, ← ac]
    · rw [List.length_append, ← count]
      rfl
    · rw [exists_mem_concat, List.mem_append, members, List.mem_singleton]
      refine or_congr Iff.rfl ?_
      simp [matcher, eq_comm, and_comm]

theorem Compiled.row (compiled : Compiled U rows av) (fresh : ∀ r' ∈ rows, r'.sigId ≠ r.sigId) (step : av.compileRow U r = .ok av') :
    Compiled U (rows ++ [r]) av' := by
  cases content : r.content with
  | hash h =>
    rw [AntiVirus.compileRow, content] at step
    obtain rfl := Except.ok.inj step
    exact compiled.hash content
  | body b => exact compiled.body fresh content step
  | yara s =>
    rw [AntiVirus.compileRow, content] at step
    obtain ⟨y, rule, step⟩ := bind_ok step
    obtain rfl := Except.ok.inj step
    exact compiled.yaraRow content rule

theorem SignatureDB.nodup (db : SignatureDB) : (db.rows.map Row.sigId).Nodup := by
  rw [db.numbered]
  exact List.nodup_range'

theorem compile_compiled {db : SignatureDB} (done : AntiVirus.compile U db = .ok av) : Compiled U db.rows av := by
  have run := foldlM_invariant (fun rows av => (rows.map Row.sigId).Nodup → Compiled U rows av) ?_ (fun _ => compiled_nil) done
  · exact run db.nodup
  · intro rows av r av' compiled step distinct
    rw [List.map_append, List.nodup_append] at distinct
    refine (compiled distinct.1).row ?_ step
    intro r' member same
    exact distinct.2.2 _ (List.mem_map_of_mem member) _ (by simp) same

end FfnNgfw.Antivirus
