import FfnNgfw.Lib.Dict
import FfnNgfw.Lib.Fallible
import Mathlib.Data.List.Sort
import Mathlib.Data.String.Basic

/-!
# Patch packages

What `unpack` of `ffn_patch.py` accepts: a bounded archive of regular files, a manifest
that declares every one of them once, and hashes that fit.
-/

namespace FfnNgfw.Patch

abbrev Bytes := List UInt8

def maxBytes : Int := 128 * 1024 * 1024
def maxFiles : Nat := 4096

def nameStart (c : Char) : Bool := c.isAlphanum || c == '_' || c == '-'

def nameRest (c : Char) : Bool := nameStart c || c == '.' || c == '/'

/-- `Path(name).suffix` of a final component. -/
def suffix (component : List Char) : List Char :=
  let tail := (component.reverse.takeWhile (· ≠ '.')).reverse
  if tail.length + 1 < component.length ∧ tail ≠ [] then '.' :: tail else []

def assetSuffixes : List String := [".html", ".css", ".js", ".json", ".svg", ".png", ".ico", ".woff", ".woff2"]

def isAsset (name : List Char) : Bool :=
  (name.splitOn '/').head? == some "static".toList &&
    assetSuffixes.any fun s => s.toList == (suffix ((name.splitOn '/').getLastD [])).map Char.toLower

def isModule (name : List Char) : Bool := (name.splitOn '/').length == 1 && ".py".toList.isSuffixOf name

def codePath (name : String) : Except String String :=
  let chars := name.toList
  if chars.length > 200 ∨ ¬(chars.head?.any nameStart ∧ chars.tail.all nameRest) then throw "Invalid code path"
  else if (chars.splitOn '/').any fun p => p == [] || p == ['.'] || p == ['.', '.'] then throw "Invalid code path"
  else if isModule chars || isAsset chars then return name
  else throw "Patches may contain only Python code and WebUI assets"

/-! ### Archives -/

/-- A member of the archive as `tarfile` reads it. -/
structure Member where
  name : String
  isFile : Bool
  size : Int
  data : Bytes

/-- An entry of the manifest; `none` for a field that is not there, or for a digest that is null. -/
structure RawEntry where
  path : String
  before : Option String
  after : Option String
  mode : Option Nat

structure Manifest where
  schema : Option Int
  version : Option String
  files : List RawEntry
  requires : List (String × String)

structure Platform where
  /-- `sha256(..).hexdigest()` -/
  digest : Bytes → String
  /-- the members of a `.tar.gz` -/
  members : Bytes → Option (List Member)
  /-- `json.loads` of the manifest -/
  manifest : Bytes → Option Manifest
  /-- whether `compile` takes the text under this name -/
  compiles : Bytes → String → Bool
  /-- `importlib.metadata.version` -/
  found : String → Option String

/-- `after` carries the hash together with the content it is the hash of. -/
structure PatchEntry where
  path : String
  before : Option String
  after : Option (String × Bytes)
  mode : Nat
  deriving DecidableEq

structure Package where
  version : Option String
  requires : List (String × String)
  files : List PatchEntry
  deriving DecidableEq

def isHash (s : String) : Bool :=
  s.toList.length == 64 && s.toList.all fun c => ('0' ≤ c ∧ c ≤ '9') ∨ ('a' ≤ c ∧ c ≤ 'f')

/-- One turn of the loop over the archive, with the files and the bytes so far. -/
def readMember (s : Dict String Bytes × Int) (item : Member) : Except String (Dict String Bytes × Int) := do
  if s.1.items.length ≥ maxFiles ∨ !item.isFile ∨ item.name ∈ s.1 then throw "Invalid or duplicate archive member"
  else
    if item.name ≠ "patch.json" then
      if !"files/".toList.isPrefixOf item.name.toList then throw "Unexpected archive member"
      else let _ ← codePath (String.ofList (item.name.toList.drop 6))
    let total := s.2 + item.size
    if item.size < 0 ∨ total > maxBytes then throw "Expanded patch exceeds size limit"
    else return (s.1.assign item.name item.data, total)

section

variable (P : Platform)

/-- The content that the manifest declares for a file, taken out of the archive. -/
def takeContent (files : Dict String Bytes) (name : String) (after : Option String) :
    Except String (Option (String × Bytes) × Dict String Bytes) :=
  match after with
  | none => return (none, files)
  | some hash =>
    match files.lookup ("files/" ++ name) with
    | none => throw "Patch file hash mismatch"
    | some content =>
      if P.digest content ≠ hash then throw "Patch file hash mismatch"
      else if ".py".toList.isSuffixOf name.toList ∧ !P.compiles content name then throw "SyntaxError"
      else return (some (hash, content), files.erase ("files/" ++ name))

def checkEntry (seen : List String) (files : Dict String Bytes) (entry : RawEntry) :
    Except String (PatchEntry × Dict String Bytes) := do
  let name ← codePath entry.path
  if name ∈ seen then throw "Duplicate patch target"
  else if entry.before.any (!isHash ·) || entry.after.any (!isHash ·) then throw "Invalid file hash"
  else if entry.before = entry.after then throw "Patch entry does not change a file"
  else
    let (content, files) ← takeContent P files name entry.after
    let mode := entry.mode.getD 0o644
    if mode ≠ 0o644 ∧ mode ≠ 0o755 then throw "Unsafe file mode"
    else return (⟨name, entry.before, content, mode⟩, files)

def checkEntries (seen : List String) (files : Dict String Bytes) :
    List RawEntry → Except String (List PatchEntry × Dict String Bytes)
  | [] => return ([], files)
  | entry :: rest => do
    let (e, files) ← checkEntry P seen files entry
    let (es, files) ← checkEntries (e.path :: seen) files rest
    return (e :: es, files)

/-- Whether one of the sorted names is the directory of the next one. -/
def overlaps : List String → Bool
  | left :: right :: rest => (left ++ "/").toList.isPrefixOf right.toList || overlaps (right :: rest)
  | _ => false

def unpack (data : Bytes) : Except String Package := do
  match P.members data with
  | none => throw "ReadError"
  | some members =>
    let (files, _) ← members.foldlM readMember (∅, 0)
    match P.manifest ((files.lookup "patch.json").getD [0x7B, 0x7D]) with
    | none => throw "JSONDecodeError"
    | some manifest =>
      if manifest.schema ≠ some 1 ∨ ¬(0 < manifest.files.length ∧ manifest.files.length < maxFiles) then
        throw "Unsupported or empty patch manifest"
      else
        let (entries, rest) ← checkEntries P [] (files.erase "patch.json") manifest.files
        if rest.items ≠ [] then throw "Archive contains undeclared files"
        else if overlaps ((entries.map PatchEntry.path).mergeSort (· ≤ ·)) then throw "Patch paths overlap"
        else return ⟨manifest.version, manifest.requires, entries⟩

variable {P}

theorem codePath_ok {name out : String} (h : codePath name = .ok out) : out = name := by
  unfold codePath at h
  dsimp only at h
  split at h
  · cases h
  split at h
  · cases h
  split at h
  · cases h
    rfl
  · cases h

theorem checkEntry_path {seen : List String} {files files' : Dict String Bytes} {entry : RawEntry} {e : PatchEntry}
    (h : checkEntry P seen files entry = .ok (e, files')) : e.path ∉ seen := by
  unfold checkEntry at h
  obtain ⟨name, coded, h⟩ := bind_ok h
  split at h
  · cases h
  · next new =>
    split at h
    · cases h
    split at h
    · cases h
    obtain ⟨⟨content, files⟩, _, h⟩ := bind_ok h
    dsimp only at h
    split at h
    · cases h
    · cases h
      exact new

theorem checkEntries_distinct {entries : List RawEntry} {seen : List String} {files files' : Dict String Bytes}
    {es : List PatchEntry} (h : checkEntries P seen files entries = .ok (es, files')) :
    (es.map PatchEntry.path).Nodup ∧ ∀ e ∈ es, e.path ∉ seen := by
  induction entries generalizing seen files files' es with
  | nil =>
    cases h
    exact ⟨List.nodup_nil, nofun⟩
  | cons entry rest ih =>
    obtain ⟨⟨e, files₁⟩, first, h⟩ := bind_ok h
    obtain ⟨⟨es', files₂⟩, others, h⟩ := bind_ok h
    cases h
    obtain ⟨distinct, fresh⟩ := ih others
    refine ⟨?_, ?_⟩
    · rw [List.map_cons, List.nodup_cons]
      refine ⟨fun member => ?_, distinct⟩
      obtain ⟨other, there, same⟩ := List.mem_map.mp member
      exact fresh other there (same ▸ List.mem_cons_self)
    · intro x member
      rcases List.mem_cons.mp member with rfl | member
      · exact checkEntry_path first
      · exact fun seenBefore => fresh x member (List.mem_cons_of_mem _ seenBefore)

theorem unpack_distinct {data : Bytes} {package : Package} (h : unpack P data = .ok package) :
    (package.files.map PatchEntry.path).Nodup := by
  unfold unpack at h
  split at h
  · cases h
  · obtain ⟨⟨files, _⟩, _, h⟩ := bind_ok h
    dsimp only at h
    split at h
    · cases h
    · split at h
      · cases h
      · obtain ⟨⟨entries, rest⟩, checked, h⟩ := bind_ok h
        dsimp only at h
        split at h
        · cases h
        split at h
        · cases h
        · cases h
          exact (checkEntries_distinct checked).1

end

end FfnNgfw.Patch
