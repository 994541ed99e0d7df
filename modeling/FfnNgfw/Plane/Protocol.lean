import FfnNgfw.Lib.Dict
import Mathlib.Data.Rat.Defs

/-!
# The messages of the plane control

A request names a resource, an action and a payload; the answer says how it ended. What a
controller reports is JSON; from a status the daemon reads the revision of the configuration
and the boot identity of the plane.
-/

namespace FfnNgfw.Plane

/-- JSON as decoded. An object lists its fields in the order of their keys, each once, so
that equal objects are equal. -/
inductive Json where
  | null
  | bool (b : Bool)
  | int (n : Int)
  | float (q : ℚ)
  | str (s : String)
  | list (items : List Json)
  | obj (fields : List (String × Json))

abbrev Fields := List (String × Json)

mutual

def Json.same : Json → Json → Bool
  | .null, .null => true
  | .bool x, .bool y => x = y
  | .int x, .int y => x = y
  | .float x, .float y => x = y
  | .str x, .str y => x = y
  | .list xs, .list ys => sameItems xs ys
  | .obj xs, .obj ys => sameFields xs ys
  | _, _ => false

def sameItems : List Json → List Json → Bool
  | [], [] => true
  | x :: xs, y :: ys => x.same y && sameItems xs ys
  | _, _ => false

def sameFields : List (String × Json) → List (String × Json) → Bool
  | [], [] => true
  | (k, x) :: xs, (l, y) :: ys => k = l && x.same y && sameFields xs ys
  | _, _ => false

end

mutual

theorem Json.same_iff : ∀ a b : Json, a.same b = true ↔ a = b
  | .null, b => by cases b <;> simp [Json.same]
  | .bool x, b => by cases b <;> simp [Json.same]
  | .int x, b => by cases b <;> simp [Json.same]
  | .float x, b => by cases b <;> simp [Json.same]
  | .str x, b => by cases b <;> simp [Json.same]
  | .list xs, b => by cases b <;> simp [Json.same, sameItems_iff xs]
  | .obj xs, b => by cases b <;> simp [Json.same, sameFields_iff xs]

theorem sameItems_iff : ∀ xs ys : List Json, sameItems xs ys = true ↔ xs = ys
  | [], ys => by cases ys <;> simp [sameItems]
  | x :: xs, ys => by cases ys <;> simp [sameItems, x.same_iff, sameItems_iff xs]

theorem sameFields_iff : ∀ xs ys : List (String × Json), sameFields xs ys = true ↔ xs = ys
  | [], ys => by cases ys <;> simp [sameFields]
  | (k, x) :: xs, ys => by
    cases ys with
    | nil => simp [sameFields]
    | cons field ys =>
      obtain ⟨l, y⟩ := field
      simp [sameFields, x.same_iff, sameFields_iff xs, and_assoc]

end

instance : DecidableEq Json := fun a b => decidable_of_iff _ (Json.same_iff a b)

namespace Json

/-- The value as a number, as `==` takes it. -/
def number? : Json → Option ℚ
  | .bool b => some (if b then 1 else 0)
  | .int n => some n
  | .float q => some q
  | _ => none

def obj? : Json → Option Fields
  | .obj fields => some fields
  | _ => none

def text? : Json → Option String
  | .str s => if s = "" then none else some s
  | _ => none

end Json

def get (fields : Fields) (key : String) : Option Json := (fields.find? (·.1 = key)).map Prod.snd

inductive Action where
  | status | validate | apply | lookup | result | resolve | inventory | refresh
  deriving DecidableEq

inductive Role where
  | mp | cp | dp
  deriving DecidableEq

inductive Outcome where
  | unknown | applied | reconciled | rejected | observed | validated
  deriving DecidableEq

structure Request where
  id : String
  resource : String
  action : Action
  payload : Fields
  deriving DecidableEq

structure Response where
  id : Option String
  ok : Bool
  state : Outcome
  result : Json
  error : Option String
  trace : List Role

def Action.text : Action → String
  | .status => "status"
  | .validate => "validate"
  | .apply => "apply"
  | .lookup => "lookup"
  | .result => "result"
  | .resolve => "resolve"
  | .inventory => "inventory"
  | .refresh => "refresh"

def Action.all : List Action := [.status, .validate, .apply, .lookup, .result, .resolve, .inventory, .refresh]

def Role.text : Role → String
  | .mp => "mp"
  | .cp => "cp"
  | .dp => "dp"

def Outcome.text : Outcome → String
  | .unknown => "unknown"
  | .applied => "applied"
  | .reconciled => "reconciled"
  | .rejected => "rejected"
  | .observed => "observed"
  | .validated => "validated"

/-- `INVENTORY` -/
def inventoryName : String := "planes"

def Response.json (r : Response) : Json :=
  .obj [("error", (r.error.map .str).getD .null), ("id", (r.id.map .str).getD .null), ("ok", .bool r.ok), ("result", r.result),
    ("state", .str r.state.text), ("trace", .list (r.trace.map fun role => .str role.text)), ("v", .int 1)]

/-- `str(uuid.UUID(s)) == s` -/
def isUuid (s : List Char) : Bool :=
  (s.splitOn '-').map List.length = [8, 4, 4, 4, 12] &&
    s.all fun c => c = '-' || c.isDigit || ('a' ≤ c && c ≤ 'f')

def isResource (s : List Char) : Bool :=
  match s with
  | [] => false
  | first :: rest => first.isLower && rest.all (fun c => c.isLower || c.isDigit || c = '-') && rest.length ≤ 31

def readAction (value : Json) : Option Action :=
  match value with
  | .str s => Action.all.find? fun action => action.text = s
  | _ => none

def hasRevision (payload : Fields) : Bool :=
  match get payload "revision" with
  | some (.int n) => 0 ≤ n
  | _ => false

def check (raw : Json) : Option Request :=
  match raw with
  | .obj [("action", action), ("id", .str id), ("payload", .obj payload), ("resource", .str resource), ("v", .int 1)] =>
    match readAction action with
    | none => none
    | some action =>
      if isUuid id.toList && isResource resource.toList && decide (action = .inventory ↔ resource = inventoryName) &&
          (payload.isEmpty || !(action = .status || action = .inventory || action = .refresh)) &&
          (hasRevision payload || !(action = .apply || action = .validate)) then
        some ⟨id, resource, action, payload⟩
      else none
  | _ => none

/-- A controller whose status has no config object keeps its revision at the top level. -/
def revisionOf (status : Fields) : Option Json := get (((get status "config").bind Json.obj?).getD status) "revision"

/-- The status has the revision that was observed, which is an integer. -/
def matchesRevision (status : Fields) (observed : Json) : Bool :=
  match observed with
  | .int n => (revisionOf status).bind Json.number? = some (n : ℚ)
  | _ => false

def firstText (fields : Fields) (keys : List String) : Option String := keys.findSome? fun key => (get fields key).bind Json.text?

def boundIdentity (payload : Fields) : Option String := firstText payload ["expected_boot_id", "dp_boot_id", "boot_id"]

/-- The boot identity that a status reports, wherever its controller keeps it. -/
def observedIdentity (status : Fields) : Option String :=
  let attachment := ((get status "attachment").bind Json.obj?).getD []
  [some status, (get status "state").bind Json.obj?, some attachment, (get attachment "attachment").bind Json.obj?,
    (get status "dp").bind Json.obj?].findSome? fun found => found.bind fun fields => firstText fields ["dp_boot_id", "boot_id"]

/-- The reboot flag that names `before` as replaced. A flag that cannot be read ends the search. -/
def rebooted (flags : List (String × Option Json)) (before after : String) : Option String :=
  match flags with
  | [] => none
  | (_, none) :: _ => none
  | (name, some flag) :: rest =>
    match (flag.obj?.bind fun fields => get fields "boot_id_before").bind Json.text? with
    | some named => if named = before ∧ before ≠ after then some name else rebooted rest before after
    | none => rebooted rest before after

end FfnNgfw.Plane
