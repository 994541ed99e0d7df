import FfnNgfw.Config.Edits

/-!
# Edits in the file

An edit hands a document to `_save`, and what is edited next is the document that is read from
the file. An edit is local in the file when it is local in the document, and the file keeps what
the edit leaves alone.
-/

namespace FfnNgfw.Config
open Threatdb (Text)
open Saving (OwnWritable Everywhere Plain spaced squeeze newlines)

/-! ### What an element says -/

def said (e : Tree) : Tree := ofElement (Saving.content (toElement e))

def stored (e : Tree) : Tree := ofElement (Saving.lasting (toElement e))

section

variable {t t₁ t₂ x y e : Tree} {tag : Text} {attrs : List (Text × Text)} {text : Option Text} {children cs : List Tree} {pos : List Nat}

theorem toElements_eq (cs : List Tree) : toElements cs = cs.map toElement := by
  induction cs with
  | nil => rfl
  | cons c cs ih => rw [toElements, ih, List.map_cons]

theorem toElements_eq_nil : toElements cs = [] ↔ cs = [] := by rw [toElements_eq, List.map_eq_nil_iff]

theorem said_all (cs : List Tree) : ofElements (Saving.contentAll (toElements cs)) = cs.map said := by
  induction cs with
  | nil => rfl
  | cons c cs ih => rw [toElements, Saving.contentAll, ofElements, ih, List.map_cons, said]

theorem stored_all (cs : List Tree) : ofElements (Saving.lastingAll (toElements cs)) = cs.map stored := by
  induction cs with
  | nil => rfl
  | cons c cs ih => rw [toElements, Saving.lastingAll, ofElements, ih, List.map_cons, stored]

theorem said_node : said (.node tag attrs text children) = .node tag attrs (textOf (if children = [] then text.getD [] else []))
    (children.map said) := by
  rw [said, toElement, Saving.content, ofElement, said_all]
  simp only [toElements_eq_nil]

theorem stored_node : stored (.node tag attrs text children) =
    .node tag (attrs.map fun a => (a.1, spaced (squeeze a.2)))
      (textOf (if children = [] then squeeze (newlines (text.getD [])) else [])) (children.map stored) := by
  rw [stored, toElement, Saving.lasting, ofElement, stored_all]
  simp only [toElements_eq_nil]

theorem said_tag (e : Tree) : (said e).tag = e.tag := by
  cases e
  rw [said_node]
  rfl

theorem said_attrs (e : Tree) : (said e).attrs = e.attrs := by
  cases e
  rw [said_node]
  rfl

theorem said_children (e : Tree) : (said e).children = e.children.map said := by
  cases e
  rw [said_node]
  rfl

theorem stored_tag (e : Tree) : (stored e).tag = e.tag := by
  cases e
  rw [stored_node]
  rfl

theorem stored_attrs (e : Tree) : (stored e).attrs = e.attrs.map fun a => (a.1, spaced (squeeze a.2)) := by
  cases e
  rw [stored_node]
  rfl

theorem stored_children (e : Tree) : (stored e).children = e.children.map stored := by
  cases e
  rw [stored_node]
  rfl

theorem sub_map {f : Tree → Tree} (below : ∀ e, (f e).children = e.children.map f) (t : Tree) (p : List Nat) :
    (f t).sub p = (t.sub p).map f := by
  induction p generalizing t with
  | nil => rfl
  | cons i rest ih =>
    rw [Xml.sub_cons, Xml.sub_cons, below, List.getElem?_map]
    cases t.children[i]? with
    | none => rfl
    | some c => exact ih c

mutual

theorem content_read : ∀ e : Saving.Element, Saving.content (toElement (ofElement e)) = Saving.content e
  | .node tag attrs text children tail => by
    have same : (textOf text).getD [] = text := by
      rw [textOf]
      split
      · rename_i none
        rw [none]
        rfl
      · rfl
    have leaf : toElements (ofElements children) = [] ↔ children = [] := by
      cases children with
      | nil => exact ⟨fun _ => rfl, fun _ => rfl⟩
      | cons c cs =>
        rw [ofElements, toElements]
        exact ⟨fun no => (nomatch no), fun no => (nomatch no)⟩
    rw [ofElement, toElement, Saving.content, Saving.content, same, contentAll_read children]
    simp only [leaf]

theorem contentAll_read : ∀ cs : List Saving.Element, Saving.contentAll (toElements (ofElements cs)) = Saving.contentAll cs
  | [] => rfl
  | c :: cs => by rw [ofElements, toElements, Saving.contentAll, Saving.contentAll, content_read c, contentAll_read cs]

end

theorem loadFile_saved (writable : Everywhere OwnWritable (toElement t₁)) :
    ∃ file t', saveFile t₁ = .ok file ∧ loadFile file = some t' ∧ said t' = stored t₁ := by
  have outside : (toElement t₁).tail.all Saving.isBlank = true := by
    cases t₁
    rw [toElement]
    rfl
  obtain ⟨file, written, read⟩ := Saving.load_saved outside writable
  refine ⟨file, ofElement (Saving.saved (toElement t₁)), ?_, ?_, ?_⟩
  · rw [saveFile, written]
  · rw [loadFile, read]
    rfl
  · rw [said, content_read, Saving.content_saved, stored]

theorem textOf_inj {s s' : Text} : textOf s = textOf s' ↔ s = s' := by
  unfold textOf
  constructor
  · intro same
    split at same <;> split at same
    · rename_i empty empty'
      exact empty.trans empty'.symm
    · cases same
    · cases same
    · exact Option.some.inj same
  · rintro rfl
    rfl

/-- An element whose attributes, and whose text if it is a leaf, are read as they were written. -/
def Lasts (e : Tree) : Prop := (∀ a ∈ e.attrs, Plain a.2) ∧ (e.children = [] → Saving.Kept (e.text.getD []))

theorem stored_eq_iff : stored e = said e ↔ Lasts e ∧ ∀ c ∈ e.children, stored c = said c := by
  cases e with
  | node tag attrs text children =>
    rw [stored_node, said_node, Xml.node.injEq, Saving.map_plain_iff, textOf_inj, List.map_inj_left]
    constructor
    · rintro ⟨-, plain, texts, below⟩
      refine ⟨⟨plain, fun (leaf : children = []) => ?_⟩, below⟩
      rw [if_pos leaf, if_pos leaf] at texts
      exact (Saving.kept_iff _).mp texts
    · rintro ⟨⟨plain, texts⟩, below⟩
      refine ⟨rfl, plain, ?_, below⟩
      split
      · rename_i leaf
        exact (Saving.kept_iff _).mpr (texts leaf)
      · rfl

mutual

theorem stored_of_lasts : ∀ e : Tree, (∀ q y, e.sub q = some y → Lasts y) → stored e = said e
  | .node tag attrs text children => fun lasts => stored_eq_iff.mpr ⟨lasts [] _ rfl,
      stored_all_of_lasts children fun i c here q y found =>
      lasts (i :: q) y (by rw [Xml.sub_cons]; show (children[i]?).bind _ = _; rw [here]; exact found)⟩

theorem stored_all_of_lasts : ∀ cs : List Tree, (∀ (i : Nat) (c : Tree), cs[i]? = some c → ∀ q y, c.sub q = some y → Lasts y) →
    ∀ c ∈ cs, stored c = said c
  | [] => fun _ _ member => absurd member List.not_mem_nil
  | c :: cs => fun lasts => List.forall_mem_cons.mpr
      ⟨stored_of_lasts c fun q y found => lasts 0 c rfl q y found, stored_all_of_lasts cs fun i x here => lasts (i + 1) x here⟩

end

theorem Lasts.of_stored (same : said x = stored y) : Lasts x := by
  constructor
  · intro a member
    have pairs := congrArg Xml.attrs same
    rw [said_attrs, stored_attrs] at pairs
    rw [pairs] at member
    obtain ⟨b, -, rfl⟩ := List.mem_map.mp member
    exact fun c inside => (Saving.mem_spaced inside).1
  · intro leaf
    cases x with
    | node tag attrs text children =>
      cases y with
      | node tag' attrs' text' children' =>
        obtain rfl : children = [] := leaf
        rw [said_node, stored_node] at same
        obtain ⟨-, -, texts, below⟩ := Xml.node.inj same
        have leaf' : children' = [] := List.map_eq_nil_iff.mp below.symm
        rw [if_pos rfl, if_pos leaf', textOf_inj] at texts
        show Saving.Kept (text.getD [])
        rw [texts, ← Saving.kept_iff, Saving.newlines_same fun member => (Saving.mem_newlines (Saving.mem_squeeze member)).1 rfl,
          Saving.squeeze_again]

/-! ### Local edits -/

/-- What stands under none of the positions stands where it stood, with its name and its attributes, and unless it is on the way to
one of them it says what it said. -/
def Unchanged (places : List (List Nat)) (t t' : Tree) : Prop :=
  ∀ p x, t.sub p = some x → (∀ place ∈ places, ¬place <+: p) →
    ∃ x', t'.sub p = some x' ∧ x'.tag = x.tag ∧ x'.attrs = x.attrs ∧ ((∀ place ∈ places, ¬p <+: place) → said x' = said x)

/-- What stands under none of the positions is read as it was written. -/
def OthersLast (places : List (List Nat)) (t : Tree) : Prop :=
  ∀ p x, t.sub p = some x → (∀ place ∈ places, ¬place <+: p) →
    (∀ a ∈ x.attrs, Plain a.2) ∧ ((∀ place ∈ places, ¬p <+: place) → Lasts x)

/-- Nothing but the addressed element has changed, and it stands where it stood. What is new is under it, or on the way to it and
holds nothing else. -/
structure LocalEdit (place : List Nat) (t t' : Tree) : Prop where
  found : ∃ e, t'.sub place = some e
  unchanged : Unchanged [place] t t'
  fresh : ∀ p x, t.sub p = none → t'.sub p = some x → place <+: p ∨ (p <+: place ∧ x.children.length = 1)

section reread

variable {t t' t₁ t₂ : Tree} {places : List (List Nat)} {place : List Nat} (reread : said t' = stored t₁)

include reread

theorem reread_sub (p : List Nat) : (t'.sub p).map said = (t₁.sub p).map stored := by
  rw [← sub_map said_children, ← sub_map stored_children, reread]

theorem reread_some {p : List Nat} {y : Tree} (found : t₁.sub p = some y) : ∃ x, t'.sub p = some x ∧ said x = stored y := by
  have same := reread_sub reread p
  rw [found] at same
  exact Option.map_eq_some_iff.mp same

theorem reread_back {p : List Nat} {x : Tree} (found : t'.sub p = some x) : ∃ y, t₁.sub p = some y ∧ stored y = said x := by
  have same := reread_sub reread p
  rw [found] at same
  exact Option.map_eq_some_iff.mp same.symm

theorem Unchanged.last (unchanged : Unchanged places t t') : OthersLast places t := by
  intro p x found off
  obtain ⟨x', found', tag, attrs, same⟩ := unchanged p x found off
  obtain ⟨y, -, read⟩ := reread_back reread found'
  have lasts : Lasts x' := .of_stored read.symm
  refine ⟨attrs ▸ lasts.1, fun above => ?_⟩
  exact .of_stored ((same above).symm.trans read.symm)

theorem unchanged_of_last (last : OthersLast places t) (similar : stored t₁ = stored t₂)
    (kept : ∀ p x, t.sub p = some x → (∀ place ∈ places, ¬place <+: p) →
      ∃ y, t₂.sub p = some y ∧ y.tag = x.tag ∧ y.attrs = x.attrs ∧ ((∀ place ∈ places, ¬p <+: place) → y = x)) :
    Unchanged places t t' := by
  intro p x found off
  obtain ⟨y, there, tag, attrs, same⟩ := kept p x found off
  obtain ⟨x', found', read⟩ := reread_some (reread.trans similar) there
  have tag' : x'.tag = y.tag := by rw [← said_tag, read, stored_tag]
  have attrs' : x'.attrs = x.attrs := by
    rw [← said_attrs, read, stored_attrs, attrs]
    exact (Saving.map_plain_iff _).mpr (last p x found off).1
  refine ⟨x', found', tag'.trans tag, attrs', fun above => ?_⟩
  rw [read, same above]
  -- nothing below it is addressed either
  refine stored_of_lasts x fun q z inside => ?_
  have found : t.sub (p ++ q) = some z := by
    rw [Xml.sub_append, found]
    exact inside
  have apart : ∀ place ∈ places, ¬place <+: p ++ q := by
    intro place member under
    rcases List.prefix_or_prefix_of_prefix under (List.prefix_append p q) with above' | below
    · exact off place member above'
    · exact above place member below
  exact (last _ z found apart).2 fun place member below => above place member ((List.prefix_append p q).trans below)

theorem localEdit_of_placed {e : Tree} (similar : stored t₁ = stored t₂) (placed : Xml.Placed t t₂ e place) :
    LocalEdit place t t' ↔ OthersLast [place] t := by
  refine ⟨fun edit => edit.unchanged.last reread, fun last => ⟨?_, ?_, fun p x absent present => ?_⟩⟩
  · obtain ⟨x, found, -⟩ := reread_some (reread.trans similar) placed.found
    exact ⟨x, found⟩
  · refine unchanged_of_last reread last similar fun p x found off => ?_
    obtain ⟨y, there, tag, attrs, -, same⟩ := placed.kept p x found (off place List.mem_cons_self)
    exact ⟨y, there, tag, attrs, fun above => same (above place List.mem_cons_self)⟩
  · obtain ⟨y, there, read⟩ := reread_back (reread.trans similar) present
    refine (placed.fresh p y absent there).imp_right fun known => ⟨known.1, ?_⟩
    have one := known.2.2
    have size := congrArg (fun e => e.children.length) read
    rw [stored_children, said_children, List.length_map, List.length_map] at size
    omega

end reread

/-! ### Fragments -/

section fragments

variable {lib} {steps : List Step} {leaf : Step} {frag t t' t₁ e e' : Tree} {pos : List Nat} {i : Nat}

theorem rotate_eq {a b : Tree} {as : List Tree} : as ++ [a] = b :: as ↔ b = a ∧ ∀ s ∈ as, s = a := by
  induction as generalizing b with
  | nil =>
    rw [List.nil_append, List.singleton_inj]
    exact ⟨fun same => ⟨same.symm, fun _ member => absurd member List.not_mem_nil⟩, fun both => both.1.symm⟩
  | cons c as ih =>
    rw [List.cons_append, List.cons.injEq, ih, List.forall_mem_cons]
    constructor
    · rintro ⟨rfl, rfl, all⟩
      exact ⟨rfl, rfl, all⟩
    · rintro ⟨rfl, rfl, all⟩
      exact ⟨rfl, rfl, all⟩

theorem stored_withChildren {cs cs' : List Tree} (same : cs.map stored = cs'.map stored) :
    stored (e.withChildren cs) = stored (e.withChildren cs') := by
  have leaf : cs = [] ↔ cs' = [] := by
    rw [← List.map_eq_nil_iff (f := stored), same, List.map_eq_nil_iff]
  cases e
  rw [Xml.withChildren, Xml.withChildren, stored_node, stored_node, same]
  simp only [leaf]

theorem stored_replaceAt (pos : List Nat) {x y : Tree} (same : stored x = stored y) (t : Tree) :
    stored (t.replaceAt pos x) = stored (t.replaceAt pos y) := by
  induction pos generalizing t with
  | nil => exact same
  | cons i rest ih =>
    rw [Xml.replaceAt, Xml.replaceAt]
    split
    · rename_i child _
      apply stored_withChildren
      rw [List.map_set, List.map_set, ih child]
    · rfl

theorem sub_single (e : Tree) (k : Nat) : e.sub [k] = e.children[k]? := Option.bind_fun_some _

theorem moved_split :
    e.children.eraseIdx i ++ [frag] = e.children.take i ++ (e.children.drop (i + 1) ++ [frag]) := by
  rw [List.eraseIdx_eq_take_drop_succ, List.append_assoc]

/-- A fragment that goes to the end is in a file where the removed child was, if what was behind it is the same there. -/
theorem stored_moved (inside : i < e.children.length) (all : ∀ s ∈ e.children.drop (i + 1), stored s = stored frag) :
    stored (e.withChildren (e.children.eraseIdx i ++ [frag])) = stored (e.withChildren (e.children.set i frag)) := by
  apply stored_withChildren
  have turned : (e.children.drop (i + 1)).map stored ++ [stored frag] = stored frag :: (e.children.drop (i + 1)).map stored := by
    refine rotate_eq.mpr ⟨rfl, fun s member => ?_⟩
    obtain ⟨x, there, rfl⟩ := List.mem_map.mp member
    exact all x there
  rw [moved_split, List.map_append, List.map_append, List.map_singleton, turned, List.set_eq_take_append_cons_drop, if_pos inside,
    List.map_append, List.map_cons]

theorem siblings_last (last : OthersLast [pos ++ [i]] t) (there : t.sub pos = some e) : ∀ s ∈ e.children.drop (i + 1),
    stored s = said s := by
  intro s member
  obtain ⟨k, here⟩ := List.mem_iff_getElem?.mp member
  rw [List.getElem?_drop] at here
  refine stored_of_lasts s fun q z found => ?_
  have apart : ¬[i] <+: (i + 1 + k) :: q ∧ ¬(i + 1 + k) :: q <+: [i] := by
    rw [List.singleton_prefix_cons_iff, List.cons_prefix_cons]
    omega
  refine (last (pos ++ (i + 1 + k) :: q) z ?_ fun place member => ?_).2 fun place member => ?_
  · rw [Xml.sub_append, there]
    show (e.children[i + 1 + k]?).bind _ = _
    rw [here]
    exact found
  · rw [List.mem_singleton.mp member, List.prefix_append_right_inj]
    exact apart.1
  · rw [List.mem_singleton.mp member, List.prefix_append_right_inj]
    exact apart.2

/-- In a file where nothing but the child has changed, what was behind it is what the fragment is read as. -/
theorem moved_same (inside : i < e.children.length) (there : t.sub pos = some e)
    (reread : said t' = stored (t.replaceAt pos (e.withChildren (e.children.eraseIdx i ++ [frag]))))
    (unchanged : Unchanged [pos ++ [i]] t t') : ∀ s ∈ e.children.drop (i + 1), said s = stored frag := by
  have old (k : Nat) : t.sub (pos ++ [k]) = e.children[k]? := by
    rw [Xml.sub_append, there]
    exact sub_single e k
  have new (k : Nat) : (t.replaceAt pos (e.withChildren (e.children.eraseIdx i ++ [frag]))).sub (pos ++ [k]) =
      (e.children.eraseIdx i ++ [frag])[k]? := by
    rw [Xml.sub_replaceAt there]
    exact sub_single _ k
  have behind : ((e.children.drop (i + 1) ++ [frag]).map stored).tail = (e.children.drop (i + 1)).map said := by
    refine List.ext_getElem? fun k => ?_
    have moved : ((e.children.drop (i + 1) ++ [frag]).map stored).tail[k]? =
        ((e.children.eraseIdx i ++ [frag])[i + 1 + k]?).map stored := by
      have front : (e.children.take i).length = i := List.length_take_of_le (Nat.le_of_lt inside)
      rw [moved_split, List.getElem?_append_right (by omega), front, List.getElem?_tail, List.getElem?_map]
      congr 2
      omega
    rw [moved, List.getElem?_map, List.getElem?_drop]
    cases here : e.children[i + 1 + k]? with
    | some s =>
      have apart : ¬[i] <+: [i + 1 + k] ∧ ¬[i + 1 + k] <+: [i] := by
        rw [List.singleton_prefix_cons_iff, List.singleton_prefix_cons_iff]
        omega
      obtain ⟨x', found', -, -, same⟩ := unchanged (pos ++ [i + 1 + k]) s ((old _).trans here) fun place member => by
        rw [List.mem_singleton.mp member, List.prefix_append_right_inj]
        exact apart.1
      have known := same fun place member => by
        rw [List.mem_singleton.mp member, List.prefix_append_right_inj]
        exact apart.2
      obtain ⟨y, found, read⟩ := reread_back reread found'
      rw [new] at found
      rw [found, Option.map_some, Option.map_some, read, known]
    | none =>
      have beyond := List.getElem?_eq_none_iff.mp here
      rw [List.getElem?_eq_none (l := e.children.eraseIdx i ++ [frag])]
      · rfl
      · rw [List.length_append, List.length_eraseIdx_of_lt inside, List.length_singleton]
        omega
  have lasts := siblings_last (unchanged.last reread) there
  have turned : (e.children.drop (i + 1)).map stored = (e.children.drop (i + 1)).map said := List.map_congr_left lasts
  rw [List.map_append, ← turned, List.map_singleton] at behind
  intro s member
  rw [← lasts s member]
  have inMap := List.mem_map_of_mem (f := stored) member
  cases rest : (e.children.drop (i + 1)).map stored with
  | nil =>
    rw [rest] at inMap
    cases inMap
  | cons a as =>
    rw [rest] at behind inMap
    obtain ⟨rfl, all⟩ := rotate_eq.mp behind
    rcases List.mem_cons.mp inMap with same | later
    · exact same
    · exact all _ later

theorem fragment_local_iff (edited : editAt lib (replaceChild lib leaf frag) steps t = .ok t₁) (reread : said t' = stored t₁) :
    LocalEdit (addressed lib (steps ++ [leaf]) t) t t' ↔
      OthersLast [addressed lib (steps ++ [leaf]) t] t ∧ ∀ s ∈ siblingsAfter lib (steps ++ [leaf]) t, said s = stored frag := by
  have way : addressed lib (steps ++ [leaf]) t = walkTo lib (addressed lib [leaf]) steps t := walkTo_append _ steps [leaf] t
  cases found : follow lib steps t with
  | none =>
    have nothing : siblingsAfter lib (steps ++ [leaf]) t = [] := by
      unfold siblingsAfter
      rw [follow_missing found]
    obtain ⟨x, placed⟩ := editAt_new (replaceChild_fills leaf frag) edited found
    rw [← way] at placed
    rw [nothing, localEdit_of_placed reread rfl placed]
    exact (and_iff_left fun _ member => absurd member List.not_mem_nil).symm
  | some pos =>
    obtain ⟨e, e', there, replaced, rfl⟩ := editAt_there edited found
    unfold siblingsAfter
    rw [way, walkTo_follow found there, follow_append found there]
    rcases replaceChild_ok replaced with ⟨i, here, inside, rfl⟩ | ⟨missing, rfl⟩
    · obtain ⟨child, at'⟩ : ∃ child, e.sub [i] = some child := ⟨e.children[i], by rw [sub_single, List.getElem?_eq_getElem inside]⟩
      have own : follow lib [leaf] e = some [i] := by
        rw [follow, here, Option.bind_some, at']
        rfl
      rw [follow_addressed own, own]
      dsimp only [Option.map_some]
      rw [List.dropLast_concat, List.getLast?_concat, there]
      dsimp only
      refine ⟨fun edit => ⟨edit.unchanged.last reread, moved_same inside there reread edit.unchanged⟩, ?_⟩
      rintro ⟨last, all⟩
      have same := stored_moved inside fun s member => (siblings_last last there s member).trans (all s member)
      exact (localEdit_of_placed reread (stored_replaceAt pos same t) ((Xml.placed_set inside).under there)).mpr last
    · have own : follow lib [leaf] e = none := by
        rw [follow, missing]
        rfl
      have place : addressed lib [leaf] e = [e.children.length] := by
        rw [addressed, walkTo, missing]
        rfl
      rw [own, place, localEdit_of_placed reread rfl ((Xml.placed_append e frag).under there)]
      exact (and_iff_left fun _ member => absurd member List.not_mem_nil).symm

end fragments

theorem updateCandidate_ok {lib : Library} {xpath : Text} {value : Value} (edited : editCandidate lib t xpath value = .ok t₁)
    (writable : Everywhere OwnWritable (toElement t₁)) :
    ∃ file t', updateCandidate lib t xpath value = .ok file ∧ loadFile file = some t' ∧ said t' = stored t₁ := by
  obtain ⟨file, t', written, read, reread⟩ := loadFile_saved writable
  refine ⟨file, t', ?_, read, reread⟩
  rw [updateCandidate, edited]
  exact written

def ruleNode (name description : String) : Tree :=
  .node entryTag [(nameKey, name.toList)] none [.node "description".toList [] (some description.toList) []]

def ruleBase (rules : List Tree) : Tree := .node "config".toList [] none [.node rulesTag [] none rules]

def tagLibrary : Library where
  select e tag := (childIndex e (tag, none)).map fun i => [i]
  parse s := if s = "<entry><description>new</description></entry>".toList then
    some (.node entryTag [] none [.node "description".toList [] (some "new".toList) []]) else none

variable {P : Saving.Element → Prop} {description name : String}

theorem everywhere_node (own : P (toElement (.node tag attrs text children)))
    (all : ∀ c ∈ children, Everywhere P (toElement c)) : Everywhere P (toElement (.node tag attrs text children)) := by
  refine .intro own fun c member => ?_
  have inside : c ∈ toElements children := member
  rw [toElements_eq] at inside
  obtain ⟨d, there, rfl⟩ := List.mem_map.mp inside
  exact all d there

theorem ruleBase_all {rules : List Tree} (config : P (toElement (ruleBase rules)))
    (list : P (toElement (.node rulesTag [] none rules))) (all : ∀ r ∈ rules, Everywhere P (toElement r)) :
    Everywhere P (toElement (ruleBase rules)) :=
  everywhere_node config (List.forall_mem_singleton.mpr (everywhere_node list all))

theorem ruleNode_all (entry : P (toElement (ruleNode name description)))
    (leaf : P (toElement (.node "description".toList [] (some description.toList) []))) :
    Everywhere P (toElement (ruleNode name description)) :=
  everywhere_node entry (List.forall_mem_singleton.mpr (everywhere_node leaf fun _ no => absurd no List.not_mem_nil))

theorem writable_tag {tag s : Text} (valid : Saving.IsName tag) (ok : Saving.TextOk s) (children : List Saving.Element) :
    OwnWritable (.node tag [] s children []) :=
  ⟨valid, fun _ no => absurd no List.not_mem_nil, List.nodup_nil, fun _ no => absurd no List.not_mem_nil, ok,
    fun _ no => absurd no List.not_mem_nil⟩

theorem writable_rule (named : Saving.TextOk name.toList) (ok : Saving.TextOk description.toList) :
    Everywhere OwnWritable (toElement (ruleNode name description)) := by
  have key : Saving.IsName nameKey ∧ nameKey ≠ "xmlns".toList := ⟨⟨⟨'n', _, rfl, rfl⟩, List.all_eq_true.mp rfl⟩, by decide⟩
  refine ruleNode_all ⟨⟨⟨'e', _, rfl, rfl⟩, List.all_eq_true.mp rfl⟩, ?_, List.nodup_singleton _, ?_, ?_, ?_⟩
    (writable_tag ⟨⟨'d', _, rfl, rfl⟩, List.all_eq_true.mp rfl⟩ ok [])
  · exact List.forall_mem_singleton.mpr key
  · exact List.forall_mem_singleton.mpr named
  · exact fun _ no => absurd no List.not_mem_nil
  · exact fun _ no => absurd no List.not_mem_nil

theorem writable_base {rules : List Tree} (all : ∀ r ∈ rules, Everywhere OwnWritable (toElement r)) :
    Everywhere OwnWritable (toElement (ruleBase rules)) := by
  have empty : Saving.TextOk [] := fun _ no => absurd no List.not_mem_nil
  exact ruleBase_all (writable_tag ⟨⟨'c', _, rfl, rfl⟩, List.all_eq_true.mp rfl⟩ empty _)
    (writable_tag ⟨⟨'r', _, rfl, rfl⟩, List.all_eq_true.mp rfl⟩ empty _) all

theorem othersLast_of_all (places : List (List Nat)) (all : Everywhere Saving.KeepsOwn (toElement t)) : OthersLast places t := by
  intro p x found off
  have lasts : Lasts x := by
    clear off
    induction p generalizing t with
    | nil =>
      cases found
      cases x with
      | node tag attrs text children => exact ⟨all.own.attrs, fun (leaf : children = []) => all.own.text (toElements_eq_nil.mpr leaf)⟩
    | cons i rest ih =>
      obtain ⟨child, there, below⟩ := Xml.sub_cons_some found
      refine ih (all.inside _ ?_) below
      cases t with
      | node tag attrs text children =>
        show toElement child ∈ toElements children
        rw [toElements_eq]
        exact List.mem_map_of_mem (List.mem_of_getElem? there)
  exact ⟨lasts.1, fun _ => lasts⟩

theorem keeps_rule (plain : Plain name.toList) (kept : Saving.Kept description.toList) :
    Everywhere Saving.KeepsOwn (toElement (ruleNode name description)) :=
  ruleNode_all ⟨List.forall_mem_singleton.mpr plain, fun no => (nomatch no)⟩ ⟨fun _ no => absurd no List.not_mem_nil, fun _ => kept⟩

end

end FfnNgfw.Config
