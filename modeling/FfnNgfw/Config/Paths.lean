import FfnNgfw.Lib.Xml
import FfnNgfw.Threatdb.Text

/-!
# Paths into a configuration

The candidate and the running configuration are trees of elements. A path names an element by
the tags above it, an entry by its name in brackets; the manager prints such paths in a diff
and takes them to commit a part of the candidate.
-/

namespace FfnNgfw.Config
open Threatdb (Text strip)
open Policy (isSpace)

abbrev Tree := Xml Text

abbrev Step := Text × Option Text

def entryTag : Text := "entry".toList

def memberTag : Text := "member".toList

def rulesTag : Text := "rules".toList

def nameKey : Text := "name".toList

/-! ### Printing -/

def predicate : Text := "entry[@name".toList

def label (e : Tree) : Text :=
  match e.get nameKey with
  | some name => if e.tag = entryTag then predicate ++ '=' :: (name ++ [']']) else e.tag
  | none => e.tag

def extend (above label : Text) : Text := if above = [] then label else above ++ '.' :: label

section collect

-- `json.dumps` of the names of the entries
variable (dumps : List (Option Text) → Text)

def orderOf (e : Tree) (path : Text) : List (Text × Text) :=
  if e.tag = rulesTag then [(path ++ ".@order".toList, dumps ((e.findall entryTag).map (·.get nameKey)))] else []

def memberKey (path : Text) (i : Nat) : Text := path ++ ".member[".toList ++ Nat.toDigits 10 i ++ [']']

def isMemberList (e : Tree) : Bool := !(e.findall memberTag).isEmpty && (e.findall memberTag).length = e.children.length

mutual

/-- `_collect_paths` -/
def collectPaths : Tree → Text → List (Text × Text)
  | .node tag attrs text children, above =>
    let e : Tree := .node tag attrs text children
    let path := extend above (label e)
    orderOf dumps e path ++
      if isMemberList e then (e.findall memberTag).mapIdx fun i m => (memberKey path i, strip (m.text.getD []))
      else if children = [] then [(path, strip (text.getD []))]
      else collectAll children path

def collectAll : List Tree → Text → List (Text × Text)
  | [], _ => []
  | e :: rest, path => collectPaths e path ++ collectAll rest path

end

end collect

def pathAt : Tree → Text → List Nat → Option Text
  | e, above, [] => some (extend above (label e))
  | e, above, i :: rest => (e.children[i]?).bind fun child => pathAt child (extend above (label e)) rest

/-- `_split_xpath`: at the dots that are not inside brackets. -/
def splitFrom : Text → Int → Text → List Text
  | [], _, current => if current = [] then [] else [current]
  | c :: rest, depth, current =>
    if c = '[' then splitFrom rest (depth + 1) (current ++ [c])
    else if c = ']' then splitFrom rest (depth - 1) (current ++ [c])
    else if c = '.' ∧ depth = 0 then if current = [] then splitFrom rest depth [] else current :: splitFrom rest depth []
    else splitFrom rest depth (current ++ [c])

def splitXpath (xpath : Text) : List Text := splitFrom xpath 0 []

def quoted (quote : Char) (rest : Text) : Option Text :=
  match rest with
  | [] => none
  | c :: rest =>
    if c = quote ∧ rest.drop (rest.length - 2) = [quote, ']'] ∧
      quote ∉ rest.take (rest.length - 2) then some (rest.take (rest.length - 2))
    else none

def unquoted (rest : Text) : Option Text :=
  if rest.getLast? = some ']' ∧ 1 < rest.length ∧ ']' ∉ rest.dropLast then some rest.dropLast else none

/-- The name in a predicate, from behind the equals sign. If only blanks stand there, the last
of them is the name. -/
def predicateName (rest : Text) : Option Text :=
  let value := rest.dropWhile isSpace
  ((quoted '\'' value).orElse fun _ => quoted '"' value).orElse fun _ =>
    (unquoted value).orElse fun _ => if value = [']'] ∧ rest ≠ value then some [' '] else none

/-- `_ENTRY_PRED_RE.match`: its `$` also stands before a last line feed. -/
def entryPredicate (raw : Text) : Option Text :=
  let raw := if raw.getLast? = some '\n' then raw.dropLast else raw
  if predicate.isPrefixOf raw then
    match (raw.drop predicate.length).dropWhile isSpace with
    | '=' :: rest => predicateName rest
    | _ => none
  else none

/-- `_parse_step` -/
def parseStep (raw : Text) : Step :=
  match entryPredicate raw with
  | some name => (entryTag, some (strip name))
  | none => (raw, none)

/-- `_normalize_xpath` -/
def normalizeXpath (xpath : Text) (root : Tree) : List Step :=
  let raw := splitXpath xpath
  (if raw.head? = some root.tag then raw.tail else raw).map parseStep

def isStep (step : Step) (e : Tree) : Bool :=
  match step.2 with
  | none => e.tag = step.1
  | some name => e.tag = step.1 && e.get nameKey = some name

def childIndex (parent : Tree) (step : Step) : Option Nat := parent.children.findIdx? (isStep step)

/-- `_find_child` -/
def findChild (parent : Tree) (step : Step) : Option Tree := (childIndex parent step).bind fun i => parent.children[i]?

/-- The element that `_find_or_create_child` creates. -/
def createChild (step : Step) : Tree := .node step.1 ((step.2.map fun name => (nameKey, name)).toList) none []

/-- The copy of the running configuration with the source put in. -/
def promote : Tree → List Step → Tree → Tree
  | running, [], _ => running
  | running, [last], source =>
    match childIndex running last with
    | some i => running.withChildren ((running.children.eraseIdx i).insertIdx i source)
    | none => running.withChildren (running.children ++ [source])
  | running, step :: rest, source =>
    match childIndex running step with
    | some i => running.withChildren (running.children.modify i fun child => promote child rest source)
    | none => running.withChildren (running.children ++ [promote (createChild step) rest source])

/-- `prepare_commit`, of a path -/
def prepareCommit (xpath : Text) (candidate running : Tree) : Except Text Tree :=
  let parts := normalizeXpath xpath candidate
  if parts = [] then .error "Partial commit requires a subtree path".toList
  else
    match parts.foldlM findChild candidate with
    | none => .error ("Path '".toList ++ xpath ++ "' not in candidate".toList)
    | some source => .ok (promote running parts source)

end FfnNgfw.Config
