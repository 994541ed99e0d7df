import FfnNgfw.Config.Paths
import FfnNgfw.Config.Saving
import FfnNgfw.Lib.Fallible

/-!
# Edits of the candidate

An edit names an element by its path and gives it a value: a text, a list of members, fields or
a fragment of XML that takes the element's place. What is missing on the way is created behind
what is there. The whole document is saved then, and what counts is the document that is read
from the file.
-/

namespace FfnNgfw.Config
open Threatdb (Text)
open Policy (isSpace)

inductive Value where
  | null
  | scalar (s : Text)
  | list (items : List Text)
  | dict (fields : List (Text × Value))

/-- The XML library: `element.find`, which takes paths as well as tags and tells where it found
something, and the parser of fragments. -/
structure Library where
  select : Tree → Text → Option (List Nat)
  parse : Text → Option Tree

variable (lib : Library)

def withText (s : Text) (e : Tree) : Tree := .node e.tag e.attrs (some s) e.children

/-- The members in the place of those that were there, behind the other children. -/
def withMembers (items : List Text) (e : Tree) : Tree :=
  e.withChildren (e.children.filter (·.tag ≠ memberTag) ++ items.map fun item => .node memberTag [] (some item) [])

def modifyAt (pos : List Nat) (edit : Tree → Except Text Tree) (e : Tree) : Except Text Tree :=
  match e.sub pos with
  | some x => (edit x).map (e.replaceAt pos)
  | none => .error "no element".toList

/-- `element.remove` takes children only. -/
def removeChild (pos : List Nat) (e : Tree) : Except Text Tree :=
  match pos with
  | [i] => if i < e.children.length then .ok (e.withChildren (e.children.eraseIdx i)) else .error "no element".toList
  | _ => .error "list.remove(x): x not in list".toList

def editOrCreate (node : Tree) (k : Text) (edit : Tree → Except Text Tree) : Except Text Tree :=
  match lib.select node k with
  | some pos => modifyAt pos edit node
  | none => (edit (.node k [] none [])).map fun c => node.withChildren (node.children ++ [c])

mutual

/-- One field of `_apply_dict`. -/
def applyField (k : Text) : Value → Tree → Except Text Tree
  | .null, node =>
    match lib.select node k with
    | some pos => removeChild pos node
    | none => .ok node
  | .scalar s, node => editOrCreate lib node k fun c => .ok (withText s c)
  | .list items, node =>
    if k = "_members".toList then .ok (withMembers items node)
    else editOrCreate lib node k fun c => .ok (withMembers items c)
  | .dict fields, node => editOrCreate lib node k (applyDict fields)

/-- `_apply_dict` -/
def applyDict : List (Text × Value) → Tree → Except Text Tree
  | [], node => .ok node
  | (k, v) :: rest, node => (applyField k v node).bind (applyDict rest)

end

def setValue : Value → Tree → Except Text Tree
  | .null, e => .ok (withText [] e)
  | .scalar s, e => .ok (withText s e)
  | .list items, e => .ok (withMembers items e)
  | .dict fields, e => applyDict lib fields e

/-! ### Paths -/

/-- Where `_find_child` finds the step. -/
def findAt (e : Tree) (step : Step) : Option (List Nat) :=
  match step.2 with
  | none => lib.select e step.1
  | some _ => (childIndex e step).map fun i => [i]

/-- An edit where the steps lead, creating what is missing on the way. -/
def editAt (edit : Tree → Except Text Tree) : List Step → Tree → Except Text Tree
  | [], e => edit e
  | step :: rest, e =>
    match findAt lib e step with
    | some pos => modifyAt pos (editAt edit rest) e
    | none => (editAt edit rest (createChild step)).map fun c => e.withChildren (e.children ++ [c])

/-- The fragment behind the children, the child that the step leads to removed. -/
def replaceChild (leaf : Step) (frag : Tree) (parent : Tree) : Except Text Tree :=
  match findAt lib parent leaf with
  | some pos => (removeChild pos parent).map fun e => e.withChildren (e.children ++ [frag])
  | none => .ok (parent.withChildren (parent.children ++ [frag]))

def named (leaf : Step) (frag : Tree) : Tree :=
  match leaf.2, frag.get nameKey with
  | some name, none => if name = [] then frag else .node frag.tag (frag.attrs ++ [(nameKey, name)]) frag.text frag.children
  | _, _ => frag

def fragmentText : Value → Option Text
  | .scalar s => if (s.dropWhile isSpace).head? = some '<' then some s else none
  | _ => none

/-- The document that `update_candidate` hands to `_save`. -/
def editCandidate (root : Tree) (xpath : Text) (value : Value) : Except Text Tree :=
  let steps := normalizeXpath xpath root
  match steps.getLast? with
  | none => .error "empty xpath".toList
  | some leaf =>
    match fragmentText value with
    | some s =>
      if 1024 * 1024 < s.length then .error "XML fragment exceeds 1 MiB".toList
      else
        match lib.parse s with
        | none => .error "Invalid XML; DTDs and entities are not allowed".toList
        | some frag => editAt lib (replaceChild lib leaf (named leaf frag)) steps.dropLast root
    | none => editAt lib (setValue lib value) steps root

def bulkStep (root : Tree) (update : Text × Value) : Except Text Tree :=
  let steps := normalizeXpath update.1 root
  if steps = [] then .ok root else editAt lib (setValue lib update.2) steps root

/-- The document that `update_candidate_bulk` hands to `_save`. -/
def editBulk (root : Tree) (updates : List (Text × Value)) : Except Text Tree := updates.foldlM (bulkStep lib) root

mutual

def toElement : Tree → Saving.Element
  | .node tag attrs text children => .node tag attrs (text.getD []) (toElements children) []

def toElements : List Tree → List Saving.Element
  | [] => []
  | c :: rest => toElement c :: toElements rest

end

def textOf (s : Text) : Option Text := if s = [] then none else some s

mutual

def ofElement : Saving.Element → Tree
  | .node tag attrs text children _ => .node tag attrs (textOf text) (ofElements children)

def ofElements : List Saving.Element → List Tree
  | [] => []
  | c :: rest => ofElement c :: ofElements rest

end

/-- `_save`: the text of the file -/
def saveFile (t : Tree) : Except Text Text :=
  match Saving.save (toElement t) with
  | some file => .ok file
  | none => .error "not well-formed".toList

/-- `_load` -/
def loadFile (file : Text) : Option Tree := (Saving.load file).map ofElement

def updateCandidate (root : Tree) (xpath : Text) (value : Value) : Except Text Text := (editCandidate lib root xpath value).bind saveFile

def updateCandidateBulk (root : Tree) (updates : List (Text × Value)) : Except Text Text := (editBulk lib root updates).bind saveFile

/-! ### The addressed element -/

/-- The way of the steps, to what is there or to what they create, and on from there. -/
def walkTo (last : Tree → List Nat) : List Step → Tree → List Nat
  | [], e => last e
  | step :: rest, e =>
    match findAt lib e step with
    | some pos => pos ++ ((e.sub pos).map (walkTo last rest)).getD []
    | none => e.children.length :: walkTo last rest (createChild step)

def addressed (steps : List Step) (t : Tree) : List Nat := walkTo lib (fun _ => []) steps t

def follow : List Step → Tree → Option (List Nat)
  | [], _ => some []
  | step :: rest, e => (findAt lib e step).bind fun pos => (e.sub pos).bind fun x => (follow rest x).map (pos ++ ·)

section

variable {lib} {edit : Tree → Except Text Tree} {last : Tree → List Nat} {steps : List Step} {t t' e : Tree} {pos : List Nat}

theorem modifyAt_ok (changed : modifyAt pos edit t = .ok t') : ∃ e e', t.sub pos = some e ∧ edit e = .ok e' ∧
    t' = t.replaceAt pos e' := by
  unfold modifyAt at changed
  split at changed
  · rename_i e there
    obtain ⟨e', edited, rfl⟩ := map_ok changed
    exact ⟨e, e', there, edited, rfl⟩
  · cases changed

theorem follow_addressed (found : follow lib steps t = some pos) : addressed lib steps t = pos := by
  unfold addressed
  induction steps generalizing t pos with
  | nil => exact Option.some.inj found
  | cons step rest ih =>
    obtain ⟨front, here, found⟩ := Option.bind_eq_some_iff.mp found
    obtain ⟨x, there, found⟩ := Option.bind_eq_some_iff.mp found
    obtain ⟨back, later, rfl⟩ := Option.map_eq_some_iff.mp found
    rw [walkTo, here]
    dsimp only
    rw [there, Option.map_some, ih later]
    rfl

theorem walkTo_follow (found : follow lib steps t = some pos) (there : t.sub pos = some e) :
    walkTo lib last steps t = pos ++ last e := by
  induction steps generalizing t pos with
  | nil =>
    cases found
    cases there
    rfl
  | cons step rest ih =>
    obtain ⟨front, here, found⟩ := Option.bind_eq_some_iff.mp found
    obtain ⟨x, inside, found⟩ := Option.bind_eq_some_iff.mp found
    obtain ⟨back, later, rfl⟩ := Option.map_eq_some_iff.mp found
    rw [Xml.sub_append, inside] at there
    rw [walkTo, here]
    dsimp only
    rw [inside, Option.map_some, ih later there, List.append_assoc]
    rfl

theorem editAt_there (edited : editAt lib edit steps t = .ok t') (found : follow lib steps t = some pos) :
    ∃ e e', t.sub pos = some e ∧ edit e = .ok e' ∧ t' = t.replaceAt pos e' := by
  induction steps generalizing t t' pos with
  | nil =>
    cases found
    exact ⟨t, t', rfl, edited, rfl⟩
  | cons step rest ih =>
    obtain ⟨front, here, found⟩ := Option.bind_eq_some_iff.mp found
    obtain ⟨x, there, found⟩ := Option.bind_eq_some_iff.mp found
    obtain ⟨back, later, rfl⟩ := Option.map_eq_some_iff.mp found
    rw [editAt, here] at edited
    obtain ⟨x₁, x', there₁, below, rfl⟩ := modifyAt_ok edited
    obtain rfl : x = x₁ := Option.some.inj (there.symm.trans there₁)
    obtain ⟨e, e', inside, done, rfl⟩ := ih below later
    refine ⟨e, e', ?_, done, ?_⟩
    · rw [Xml.sub_append, there]
      exact inside
    · rw [Xml.replaceAt_append there]

/-! What is created holds nothing but the way to the addressed element. -/

def Bare (e : Tree) : Prop := e.text = none ∧ e.children = []

def Alone (e : Tree) (place : List Nat) : Prop :=
  ∀ p x, e.sub p = some x → place <+: p ∨ (p <+: place ∧ x.text = none ∧ x.children.length = 1)

theorem bare_createChild (step : Step) : Bare (createChild step) := ⟨rfl, rfl⟩

theorem Bare.sub (bare : Bare e) {x : Tree} (there : e.sub pos = some x) : pos = [] ∧ x = e := by
  cases pos with
  | nil => exact ⟨rfl, (Option.some.inj there).symm⟩
  | cons i rest =>
    obtain ⟨child, found, -⟩ := Xml.sub_cons_some there
    rw [bare.2] at found
    cases found

def Fills (edit : Tree → Except Text Tree) (last : Tree → List Nat) : Prop :=
  ∀ e e', Bare e → edit e = .ok e' → (∃ x, e'.sub (last e) = some x) ∧ Alone e' (last e)

theorem alone_child {place : List Nat} {c : Tree} (bare : Bare e) (below : Alone c place) :
    Alone (e.withChildren (e.children ++ [c])) (0 :: place) := by
  rw [bare.2, List.nil_append]
  intro p x found
  cases p with
  | nil =>
    cases found
    exact .inr ⟨List.nil_prefix, bare.1, rfl⟩
  | cons i rest =>
    obtain ⟨child, there, found⟩ := Xml.sub_cons_some found
    rw [Xml.children_withChildren] at there
    obtain ⟨inside, rfl⟩ := List.getElem?_eq_some_iff.mp there
    obtain rfl : i = 0 := by simpa using inside
    rcases below rest x found with under | ⟨above, facts⟩
    · exact .inl (List.cons_prefix_cons.mpr ⟨rfl, under⟩)
    · exact .inr ⟨List.cons_prefix_cons.mpr ⟨rfl, above⟩, facts⟩

theorem editAt_fills (fills : Fills edit last) (steps : List Step) : Fills (editAt lib edit steps) (walkTo lib last steps) := by
  induction steps with
  | nil => exact fills
  | cons step rest ih =>
    intro e e' bare edited
    rw [editAt] at edited
    cases here : findAt lib e step with
    | some pos =>
      rw [here] at edited
      obtain ⟨x, x', there, below, rfl⟩ := modifyAt_ok edited
      obtain ⟨rfl, rfl⟩ := bare.sub there
      rw [walkTo, here]
      exact ih x x' bare below
    | none =>
      rw [here] at edited
      obtain ⟨c, created, rfl⟩ := map_ok edited
      obtain ⟨⟨x, found⟩, below⟩ := ih _ c (bare_createChild step) created
      have first : e.children.length = 0 := by
        rw [bare.2]
        rfl
      rw [walkTo, here]
      dsimp only
      rw [first]
      refine ⟨⟨x, ?_⟩, alone_child bare below⟩
      rw [bare.2, List.nil_append, Xml.sub_cons]
      exact found

theorem editAt_new (fills : Fills edit last) (edited : editAt lib edit steps t = .ok t') (missing : follow lib steps t = none) :
    ∃ x, Xml.Placed t t' x (walkTo lib last steps t) := by
  induction steps generalizing t t' with
  | nil => cases missing
  | cons step rest ih =>
    rw [editAt] at edited
    cases here : findAt lib t step with
    | some pos =>
      rw [here] at edited
      obtain ⟨e, e', there, below, rfl⟩ := modifyAt_ok edited
      have missing : follow lib rest e = none := by
        rw [follow, here, Option.bind_some, there, Option.bind_some, Option.map_eq_none_iff] at missing
        exact missing
      obtain ⟨x, placed⟩ := ih below missing
      refine ⟨x, ?_⟩
      rw [walkTo, here]
      dsimp only
      rw [there]
      exact placed.under there
    | none =>
      rw [here] at edited
      obtain ⟨c, created, rfl⟩ := map_ok edited
      obtain ⟨⟨x, found⟩, below⟩ := editAt_fills fills rest _ c (bare_createChild step) created
      rw [walkTo, here]
      exact ⟨x, Xml.Placed.append found below⟩

end

/-! ### Values and fragments -/

def siblingsAfter (steps : List Step) (t : Tree) : List Tree :=
  match follow lib steps t with
  | none => []
  | some pos =>
    match t.sub pos.dropLast, pos.getLast? with
    | some parent, some i => parent.children.drop (i + 1)
    | _, _ => []

section

variable {lib} {steps : List Step} {leaf : Step} {frag t t' e e' : Tree} {pos : List Nat}

theorem fills_here (edit : Tree → Except Text Tree) : Fills edit fun _ => [] :=
  fun _ e' _ _ => ⟨⟨e', rfl⟩, fun _ _ _ => .inl List.nil_prefix⟩

theorem editAt_local {edit : Tree → Except Text Tree} (edited : editAt lib edit steps t = .ok t') :
    ∃ e, Xml.Placed t t' e (addressed lib steps t) := by
  cases found : follow lib steps t with
  | some pos =>
    obtain ⟨e, e', there, -, rfl⟩ := editAt_there edited found
    refine ⟨e', ?_⟩
    have placed := (Xml.placed_self e e').under there
    rw [List.append_nil] at placed
    rw [follow_addressed found]
    exact placed
  | none => exact editAt_new (fills_here edit) edited found

theorem walkTo_append (last : Tree → List Nat) (front back : List Step) (t : Tree) :
    walkTo lib last (front ++ back) t = walkTo lib (walkTo lib last back) front t := by
  induction front generalizing t with
  | nil => rfl
  | cons step rest ih =>
    have same : walkTo lib last (rest ++ back) = walkTo lib (walkTo lib last back) rest := funext ih
    rw [List.cons_append, walkTo, walkTo, same]

theorem follow_append {front back : List Step} (found : follow lib front t = some pos) (there : t.sub pos = some e) :
    follow lib (front ++ back) t = (follow lib back e).map (pos ++ ·) := by
  induction front generalizing t pos with
  | nil =>
    cases found
    cases there
    simp
  | cons step rest ih =>
    obtain ⟨first, here, found⟩ := Option.bind_eq_some_iff.mp found
    obtain ⟨x, inside, found⟩ := Option.bind_eq_some_iff.mp found
    obtain ⟨second, later, rfl⟩ := Option.map_eq_some_iff.mp found
    rw [Xml.sub_append, inside] at there
    rw [List.cons_append, follow, here, Option.bind_some, inside, Option.bind_some, ih later there, Option.map_map]
    exact congrArg (Option.map · _) (funext fun q => (List.append_assoc first second q).symm)

theorem follow_missing {front back : List Step} (missing : follow lib front t = none) : follow lib (front ++ back) t = none := by
  induction front generalizing t with
  | nil => cases missing
  | cons step rest ih =>
    rw [List.cons_append, follow]
    rw [follow] at missing
    cases here : findAt lib t step with
    | none => rfl
    | some pos =>
      rw [here, Option.bind_some] at missing
      rw [Option.bind_some]
      cases there : t.sub pos with
      | none => rfl
      | some x =>
        rw [there, Option.bind_some, Option.map_eq_none_iff] at missing
        rw [Option.bind_some, ih missing]
        rfl

theorem replaceChild_ok (replaced : replaceChild lib leaf frag e = .ok e') :
    (∃ i, findAt lib e leaf = some [i] ∧ i < e.children.length ∧ e' = e.withChildren (e.children.eraseIdx i ++ [frag])) ∨
    (findAt lib e leaf = none ∧ e' = e.withChildren (e.children ++ [frag])) := by
  unfold replaceChild at replaced
  split at replaced
  · rename_i pos here
    obtain ⟨erased, removed, rfl⟩ := map_ok replaced
    unfold removeChild at removed
    split at removed
    · rename_i i
      split at removed
      · rename_i inside
        cases removed
        exact .inl ⟨i, here, inside, rfl⟩
      · cases removed
    · cases removed
  · rename_i missing
    exact .inr ⟨missing, (Except.ok.inj replaced).symm⟩

theorem replaceChild_fills (leaf : Step) (frag : Tree) : Fills (replaceChild lib leaf frag) (addressed lib [leaf]) := by
  intro e e' bare replaced
  rcases replaceChild_ok replaced with ⟨i, -, inside, -⟩ | ⟨missing, rfl⟩
  · rw [bare.2] at inside
    cases inside
  · have first : addressed lib [leaf] e = [0] := by
      rw [addressed, walkTo, missing, bare.2]
      rfl
    rw [first, bare.2]
    refine ⟨⟨frag, rfl⟩, ?_⟩
    have alone : Alone frag [] := fun _ _ _ => .inl List.nil_prefix
    have filled := alone_child bare alone
    rw [bare.2] at filled
    exact filled

end

/-- One edit after the other, each local in the tree that it finds; a path without steps is passed over. -/
def LocalEdits : List Text → List (List Nat) → Tree → Tree → Prop
  | [], places, t, t' => places = [] ∧ t' = t
  | xpath :: rest, places, t, t' =>
    if normalizeXpath xpath t = [] then LocalEdits rest places t t'
    else
      ∃ mid e later, places = addressed lib (normalizeXpath xpath t) t :: later ∧
        Xml.Placed t mid e (addressed lib (normalizeXpath xpath t) t) ∧ LocalEdits rest later mid t'

section

variable {lib} {t t' : Tree} {places : List (List Nat)}

/-- What none of the edits addresses stands where it stood, and has changed only on the way to an addressed element. -/
theorem LocalEdits.kept {xpaths : List Text} (edits : LocalEdits lib xpaths places t t') {p : List Nat}
    {x : Tree} (found : t.sub p = some x)
    (off : ∀ place ∈ places, ¬place <+: p) :
    ∃ x', t'.sub p = some x' ∧ x'.tag = x.tag ∧ x'.attrs = x.attrs ∧ x'.text = x.text ∧ ((∀ place ∈ places, ¬p <+: place) → x' = x) := by
  induction xpaths generalizing t places x with
  | nil =>
    obtain ⟨-, rfl⟩ := edits
    exact ⟨x, found, rfl, rfl, rfl, fun _ => rfl⟩
  | cons xpath rest ih =>
    rw [LocalEdits] at edits
    split at edits
    · exact ih edits found off
    · obtain ⟨mid, e, later, rfl, placed, edits⟩ := edits
      obtain ⟨here, others⟩ := List.forall_mem_cons.mp off
      obtain ⟨y, there, tag, attrs, text, same⟩ := placed.kept p x found here
      obtain ⟨x', there', tag', attrs', text', same'⟩ := ih edits there others
      refine ⟨x', there', tag'.trans tag, attrs'.trans attrs, text'.trans text, fun above => ?_⟩
      obtain ⟨first, others'⟩ := List.forall_mem_cons.mp above
      exact (same' others').trans (same first)

theorem bulk_local {updates : List (Text × Value)} (applied : updates.foldlM (bulkStep lib) t = .ok t') :
    ∃ places, LocalEdits lib (updates.map Prod.fst) places t t' := by
  induction updates generalizing t with
  | nil => exact ⟨[], rfl, (Except.ok.inj applied).symm⟩
  | cons update rest ih =>
    rw [List.foldlM_cons] at applied
    obtain ⟨mid, first, applied⟩ := bind_ok applied
    obtain ⟨places, edits⟩ := ih applied
    unfold bulkStep at first
    rw [List.map_cons]
    dsimp only at first
    split at first
    · rename_i empty
      obtain rfl := Except.ok.inj first
      exact ⟨places, (if_pos empty).mpr edits⟩
    · rename_i some'
      obtain ⟨e, placed⟩ := editAt_local first
      exact ⟨_ :: places, (if_neg some').mpr ⟨mid, e, places, rfl, placed, edits⟩⟩

end

end FfnNgfw.Config
