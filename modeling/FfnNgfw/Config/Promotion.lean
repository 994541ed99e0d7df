import FfnNgfw.Config.Paths
import Mathlib.Data.Bool.AllAny

/-!
# Promoting a part of the candidate

A path that was printed for an element reads back as the steps to it (`normalizeXpath_pathAt`),
and in a tree whose siblings differ the steps lead to that element and no other. Promotion
puts the element where the same steps lead in the running configuration and leaves everything
else where it is.
-/

namespace FfnNgfw.Config
open Threatdb (Text strip)
open Policy (isSpace)

def keyOf (e : Tree) : Step := (e.tag, if e.tag = entryTag then e.get nameKey else none)

structure PlainTag (tag : Text) : Prop where
  full : tag ≠ []
  plain : ∀ c ∈ tag, c ≠ '.' ∧ c ≠ '[' ∧ c ≠ ']'

structure Unbracketed (name : Text) : Prop where
  plain : ∀ c ∈ name, c ≠ '[' ∧ c ≠ ']' ∧ c ≠ '\'' ∧ c ≠ '"'
  stripped : strip name = name

structure PlainName (name : Text) : Prop extends Unbracketed name where
  full : name ≠ []

/-- The children of an element: entries have names, members have no children, and of other
siblings no two have one key. -/
structure Siblings (nameOk : Text → Prop) (e : Tree) : Prop where
  names : ∀ c ∈ e.children, c.tag = entryTag → ∃ name, c.get nameKey = some name ∧ nameOk name
  leaves : ∀ c ∈ e.children, c.tag = memberTag → c.children = []
  keys : ∀ (i j : Nat) (c d : Tree), e.children[i]? = some c → e.children[j]? = some d → c.tag ≠ memberTag → keyOf c = keyOf d → i = j

structure Regular (e : Tree) : Prop extends Siblings PlainName e where
  tags : ∀ c ∈ e.children, PlainTag c.tag

structure Panos (root : Tree) : Prop where
  tag : PlainTag root.tag
  notEntry : root.tag ≠ entryTag
  regular : ∀ p e, root.sub p = some e → Regular e

variable {i : Nat} {name : Text} {e x c : Tree} {pos : List Nat} {step : Step}

theorem Panos.regular_below {root child : Tree} (h : ∀ p e, root.sub p = some e → Regular e) (there : root.children[i]? = some child) :
    ∀ p e, child.sub p = some e → Regular e := by
  intro p e found
  refine h (i :: p) e ?_
  rw [Xml.sub_cons, there]
  exact found

/-! ### Labels -/

def Whole (l : Text) : Prop := l ≠ [] ∧ ∀ rest current, splitFrom (l ++ rest) 0 current = splitFrom rest 0 (current ++ l)

theorem splitFrom_quiet {l : Text} (quiet : ∀ c ∈ l, c ≠ '[' ∧ c ≠ ']') {depth : Int} (inside : depth ≠ 0 ∨ ∀ c ∈ l, c ≠ '.')
    (rest current : Text) : splitFrom (l ++ rest) depth current = splitFrom rest depth (current ++ l) := by
  induction l generalizing current with
  | nil => simp
  | cons c l ih =>
    obtain ⟨⟨opens, closes⟩, quiet⟩ := List.forall_mem_cons.mp quiet
    have dot : ¬ (c = '.' ∧ depth = 0) := by
      rintro ⟨dot, zero⟩
      rcases inside with deep | plain
      · exact deep zero
      · exact plain c List.mem_cons_self dot
    have inside : depth ≠ 0 ∨ ∀ c ∈ l, c ≠ '.' := inside.imp_right fun plain c member => plain c (List.mem_cons_of_mem _ member)
    rw [List.cons_append, splitFrom, if_neg opens, if_neg closes, if_neg dot, ih quiet inside]
    simp

theorem PlainTag.whole {tag : Text} (h : PlainTag tag) : Whole tag :=
  ⟨h.full, fun rest current => splitFrom_quiet (fun c member => (h.plain c member).2)
    (.inr fun c member => (h.plain c member).1) rest current⟩

def entryLabel (name : Text) : Text := predicate ++ '=' :: (name ++ [']'])

theorem entryLabel_eq (name : Text) : entryLabel name = "entry".toList ++ '[' :: ("@name=".toList ++ (name ++ [']'])) := by
  have start : predicate = "entry".toList ++ '[' :: "@name".toList := by decide
  simp [entryLabel, start]

theorem bracketed_whole {front inside : Text} (quiet : ∀ c ∈ front, c ≠ '[' ∧ c ≠ ']') (plain : ∀ c ∈ front, c ≠ '.')
    (quiet' : ∀ c ∈ inside, c ≠ '[' ∧ c ≠ ']') : Whole (front ++ '[' :: (inside ++ [']'])) := by
  refine ⟨by simp, fun rest current => ?_⟩
  have split : front ++ '[' :: (inside ++ [']']) ++ rest = front ++ ('[' :: (inside ++ (']' :: rest))) := by simp
  rw [split, splitFrom_quiet quiet (.inr plain), splitFrom, if_pos rfl, splitFrom_quiet quiet' (.inl (by decide)),
    splitFrom, if_neg (by decide),
    if_pos rfl]
  simp

theorem entryLabel_whole (quiet : ∀ c ∈ name, c ≠ '[' ∧ c ≠ ']') : Whole (entryLabel name) := by
  rw [entryLabel_eq, ← List.append_assoc]
  refine bracketed_whole (List.all_iff_forall_prop.mp (by decide)) (List.all_iff_forall_prop.mp (by decide)) fun c member => ?_
  rcases List.mem_append.mp member with front | inside
  · have word : ∀ c ∈ "@name=".toList, c ≠ '[' ∧ c ≠ ']' := List.all_iff_forall_prop.mp (by decide)
    exact word c front
  · exact quiet c inside

theorem PlainName.whole (h : PlainName name) : Whole (entryLabel name) :=
  entryLabel_whole fun c member => ⟨(h.plain c member).1, (h.plain c member).2.1⟩

theorem label_eq (h : e.tag = entryTag → ∃ name, e.get nameKey = some name ∧ PlainName name) :
    (∃ name, e.tag = entryTag ∧ e.get nameKey = some name ∧ PlainName name ∧ label e = entryLabel name) ∨
      (e.tag ≠ entryTag ∧ label e = e.tag) := by
  by_cases entry : e.tag = entryTag
  · obtain ⟨name, named, plain⟩ := h entry
    exact .inl ⟨name, entry, named, plain, by simp [label, named, entry, entryLabel]⟩
  · refine .inr ⟨entry, ?_⟩
    unfold label
    split <;> simp [entry]

theorem label_whole (tag : PlainTag e.tag) (h : e.tag = entryTag → ∃ name, e.get nameKey = some name ∧ PlainName name) :
    Whole (label e) := by
  rcases label_eq h with ⟨name, -, -, plain, same⟩ | ⟨-, same⟩
  · exact same ▸ plain.whole
  · exact same ▸ tag.whole

theorem entryPredicate_tag {tag : Text} (h : PlainTag tag) : entryPredicate tag = none := by
  have no : ∀ raw : Text, (∀ c ∈ raw, c ≠ '[') → predicate.isPrefixOf raw = false := by
    intro raw plain
    by_contra yes
    have before : predicate <+: raw := List.isPrefixOf_iff_prefix.mp (by simpa using yes)
    exact plain '[' (before.subset (by decide)) rfl
  have raw : predicate.isPrefixOf (if tag.getLast? = some '\n' then tag.dropLast else tag) = false := by
    split
    · exact no _ fun c member => (h.plain c ((List.dropLast_sublist _).subset member)).2.1
    · exact no _ fun c member => (h.plain c member).2.1
  simp [entryPredicate, raw]

theorem strip_first (h : strip name = name) : name.dropWhile isSpace = name := by
  have shorter : name.length ≤ (name.dropWhile isSpace).length := by
    calc name.length = (strip name).length := by rw [h]
      _ ≤ ((name.dropWhile isSpace).reverse).length := by
        rw [strip, List.length_reverse]
        exact (List.dropWhile_sublist _).length_le
      _ = (name.dropWhile isSpace).length := List.length_reverse
  exact (List.dropWhile_sublist _).eq_of_length_le shorter

theorem predicateName_plain (h : PlainName name) : predicateName (name ++ [']']) = some name := by
  obtain ⟨first, rest, rfl⟩ := List.exists_cons_of_ne_nil h.full
  have start := strip_first h.stripped
  have solid : isSpace first = false := by
    by_contra space
    simp only [Bool.not_eq_false] at space
    rw [List.dropWhile_cons_of_pos space] at start
    have shorter := (@List.dropWhile_sublist _ rest isSpace).length_le
    rw [start] at shorter
    simp only [List.length_cons] at shorter
    omega
  have value : ((first :: rest) ++ [']']).dropWhile isSpace = (first :: rest) ++ [']'] := by
    rw [List.cons_append, List.dropWhile_cons_of_neg (by simp [solid])]
  obtain ⟨-, -, single, double⟩ := h.plain first List.mem_cons_self
  have closed : ']' ∉ first :: rest := fun member => (h.plain _ member).2.1 rfl
  have one : quoted '\'' ((first :: rest) ++ [']']) = none := by simp [quoted, single]
  have two : quoted '"' ((first :: rest) ++ [']']) = none := by simp [quoted, double]
  have three : unquoted ((first :: rest) ++ [']']) = some (first :: rest) := by
    unfold unquoted
    rw [List.dropLast_concat, List.getLast?_concat, if_pos ⟨rfl, by simp, closed⟩]
  simp only [predicateName, value, one, two, three, Option.orElse_none, Option.orElse_some]

theorem entryPredicate_entry (h : PlainName name) : entryPredicate (entryLabel name) = some name := by
  have last : (entryLabel name).getLast? ≠ some '\n' := by
    rw [entryLabel, ← List.cons_append, ← List.append_assoc, List.getLast?_concat]
    decide
  have starts : predicate.isPrefixOf (entryLabel name) = true := List.isPrefixOf_iff_prefix.mpr (List.prefix_append _ _)
  have behind : (entryLabel name).drop predicate.length = '=' :: (name ++ [']']) := by rw [entryLabel, List.drop_left]
  have solid : (('=' :: (name ++ [']'])).dropWhile isSpace) = '=' :: (name ++ [']']) := List.dropWhile_cons_of_neg (by decide)
  simp only [entryPredicate, if_neg last, starts, if_true, behind, solid, predicateName_plain h]

theorem parseStep_label (tag : PlainTag e.tag) (h : e.tag = entryTag → ∃ name, e.get nameKey = some name ∧ PlainName name) :
    parseStep (label e) = keyOf e := by
  rcases label_eq h with ⟨name, entry, named, plain, same⟩ | ⟨other, same⟩
  · rw [same, parseStep, entryPredicate_entry plain]
    simp [keyOf, entry, named, plain.stripped]
  · rw [same, parseStep, entryPredicate_tag tag]
    simp [keyOf, other]

/-! ### Reading a path back -/

def Splits (path : Text) (parts : List Text) : Prop :=
  path ≠ [] ∧ splitFrom path 0 [] = parts ∧ ∀ rest, splitFrom (path ++ '.' :: rest) 0 [] = parts ++ splitFrom rest 0 []

theorem splitFrom_dot (rest : Text) {current : Text} (full : current ≠ []) :
    splitFrom ('.' :: rest) 0 current = current :: splitFrom rest 0 [] := by
  rw [splitFrom, if_neg (by decide), if_neg (by decide), if_pos ⟨rfl, rfl⟩, if_neg full]

theorem Whole.splits {l : Text} (h : Whole l) : Splits l [l] := by
  obtain ⟨full, whole⟩ := h
  refine ⟨full, ?_, fun rest => ?_⟩
  · have read := whole [] []
    rw [List.append_nil] at read
    rw [read, List.nil_append, splitFrom, if_neg full]
  · rw [whole, List.nil_append, splitFrom_dot rest full]
    rfl

theorem Splits.extend {path l : Text} {parts : List Text} (h : Splits path parts) (last : Whole l) :
    Splits (Config.extend path l) (parts ++ [l]) := by
  obtain ⟨full, -, goes⟩ := h
  obtain ⟨full', whole⟩ := last
  have same : Config.extend path l = path ++ '.' :: l := by rw [Config.extend, if_neg full]
  refine ⟨by simp [same], ?_, fun rest => ?_⟩
  · have read := whole [] []
    rw [List.append_nil] at read
    rw [same, goes, read, List.nil_append, splitFrom, if_neg full']
  · rw [same, List.append_assoc, List.cons_append, goes, whole, List.nil_append, splitFrom_dot rest full', List.append_assoc]
    rfl

def stepsAt : Tree → List Nat → List Step
  | _, [] => []
  | e, i :: rest =>
    match e.children[i]? with
    | some child => keyOf child :: stepsAt child rest
    | none => []

theorem splits_pathAt {above path : Text} {parts : List Text} (regular : ∀ p e', e.sub p = some e' → Regular e')
    (there : e.sub pos = some x) (printed : pathAt e above pos = some path) (before : Splits (extend above (label e)) parts) :
    ∃ more, Splits path (parts ++ more) ∧ more.map parseStep = stepsAt e pos := by
  induction pos generalizing e above parts with
  | nil =>
    cases printed
    exact ⟨[], by rw [List.append_nil]; exact before, rfl⟩
  | cons i rest ih =>
    obtain ⟨child, found, below⟩ := Xml.sub_cons_some there
    have printed : pathAt child (extend above (label e)) rest = some path := by
      rw [pathAt, found] at printed
      exact printed
    have member := List.mem_of_getElem? found
    have here := regular [] e rfl
    have tag := here.tags child member
    have names := here.names child member
    obtain ⟨more, split, read⟩ := ih (Panos.regular_below regular found) below printed (before.extend (label_whole tag names))
    refine ⟨label child :: more, by rw [List.append_assoc] at split; exact split, ?_⟩
    rw [List.map_cons, parseStep_label tag names, read, stepsAt, found]

theorem normalizeXpath_pathAt {root x : Tree} {path : Text} (h : Panos root) (there : root.sub pos = some x)
    (printed : pathAt root [] pos = some path) : normalizeXpath path root = stepsAt root pos := by
  have same : label root = root.tag := by
    rcases label_eq fun entry => absurd entry h.notEntry with ⟨-, entry, -⟩ | ⟨-, same⟩
    · exact absurd entry h.notEntry
    · exact same
  have start : Splits (extend [] (label root)) [root.tag] := by
    rw [same]
    exact h.tag.whole.splits
  obtain ⟨more, ⟨-, split, -⟩, read⟩ := splits_pathAt h.regular there printed start
  have split : splitXpath path = root.tag :: more := split
  simp only [normalizeXpath, split, List.head?_cons, if_true, List.tail_cons, read]

def locate : Tree → List Step → Option (List Nat)
  | _, [] => some []
  | e, step :: rest => (childIndex e step).bind fun i => (e.children[i]?).bind fun child => (locate child rest).map (i :: ·)

theorem isStep_key (named : e.tag = entryTag → ∃ name, e.get nameKey = some name ∧ PlainName name) : isStep (keyOf e) e = true := by
  unfold isStep keyOf
  by_cases entry : e.tag = entryTag
  · obtain ⟨name, found, -⟩ := named entry
    simp [entry, found]
  · simp [entry]

theorem key_of_isStep {c d : Tree} (named : c.tag = entryTag → ∃ name, c.get nameKey = some name ∧ PlainName name)
    (h : isStep (keyOf c) d = true) : keyOf c = keyOf d := by
  unfold isStep keyOf at h
  unfold keyOf
  by_cases entry : c.tag = entryTag
  · obtain ⟨name, found, -⟩ := named entry
    simp only [entry, found, if_true, Bool.and_eq_true, decide_eq_true_eq] at h
    simp [entry, found, h.1, h.2]
  · simp only [entry, if_false, decide_eq_true_eq] at h
    simp [entry, h]

theorem childIndex_key (h : Regular e) (found : e.children[i]? = some c) (other : c.tag ≠ memberTag) :
    childIndex e (keyOf c) = some i := by
  have named := h.names c (List.mem_of_getElem? found)
  obtain ⟨inside, here⟩ := List.getElem?_eq_some_iff.mp found
  refine List.findIdx?_eq_some_iff_getElem.mpr ⟨inside, by rw [here]; exact isStep_key named, fun j earlier matched => ?_⟩
  have same := h.keys i j c _ found (List.getElem?_eq_getElem (by omega)) other (key_of_isStep named matched)
  omega

theorem locate_stepsAt (regular : ∀ p e', e.sub p = some e' → Regular e') (there : e.sub pos = some x)
    (other : x.tag ≠ memberTag) : locate e (stepsAt e pos) = some pos ∧ (stepsAt e pos).foldlM findChild e = some x := by
  induction pos generalizing e with
  | nil =>
    cases there
    exact ⟨rfl, rfl⟩
  | cons i rest ih =>
    obtain ⟨child, found, below⟩ := Xml.sub_cons_some there
    have here := regular [] e rfl
    have notMember : child.tag ≠ memberTag := by
      intro member
      have leaf := here.leaves child (List.mem_of_getElem? found) member
      cases rest with
      | nil =>
        cases below
        exact other member
      | cons j rest =>
        rw [Xml.sub_cons, leaf] at below
        cases below
    have index := childIndex_key here found notMember
    obtain ⟨place, walk⟩ := ih (Panos.regular_below regular found) below
    have steps : stepsAt e (i :: rest) = keyOf child :: stepsAt child rest := by rw [stepsAt, found]
    constructor
    · rw [steps, locate, index, Option.bind_some, found, Option.bind_some, place]
      rfl
    · have first : findChild e (keyOf child) = some child := by rw [findChild, index, Option.bind_some, found]
      rw [steps, List.foldlM_cons, first]
      exact walk

/-! ### Promoting -/

theorem eraseIdx_insertIdx {α : Type} {l : List α} (a : α) (inside : i < l.length) : (l.eraseIdx i).insertIdx i a = l.set i a := by
  induction l generalizing i with
  | nil => cases inside
  | cons b l ih =>
    cases i with
    | zero => rfl
    | succ i =>
      have inside : i < l.length := by simpa using inside
      simp [ih inside]

theorem isStep_createChild (step : Step) : isStep step (createChild step) = true := by
  obtain ⟨tag, name⟩ := step
  cases name with
  | none => simp [isStep, createChild, Xml.tag]
  | some name => simp [isStep, createChild, Xml.tag, Xml.get, Xml.attrs]

theorem isStep_congr {e e' : Tree} (tag : e'.tag = e.tag) (attrs : e'.attrs = e.attrs) : isStep step e' = isStep step e := by
  unfold isStep Xml.get
  rw [tag, attrs]

theorem promote_own (running : Tree) (steps : List Step) (source : Tree) :
    (promote running steps source).tag = running.tag ∧ (promote running steps source).attrs = running.attrs ∧
      (promote running steps source).text = running.text := by
  unfold promote
  split
  · exact ⟨rfl, rfl, rfl⟩
  · split <;> exact ⟨rfl, rfl, rfl⟩
  · split <;> exact ⟨rfl, rfl, rfl⟩

theorem childIndex_some (h : childIndex e step = some i) :
    i < e.children.length ∧ ∀ (j : Nat) c, j < i → e.children[j]? = some c → isStep step c = false := by
  obtain ⟨inside, -, first⟩ := List.findIdx?_eq_some_iff_getElem.mp h
  refine ⟨inside, fun j c earlier found => ?_⟩
  obtain ⟨_, rfl⟩ := List.getElem?_eq_some_iff.mp found
  simpa using first j earlier

theorem childIndex_set (h : childIndex e step = some i) (matched : isStep step c = true) :
    childIndex (e.withChildren (e.children.set i c)) step = some i := by
  obtain ⟨inside, first⟩ := childIndex_some h
  refine List.findIdx?_eq_some_iff_getElem.mpr ⟨by simpa using inside, by simpa using matched, fun j earlier => ?_⟩
  have here : j < e.children.length := by omega
  have before := first j _ earlier (List.getElem?_eq_getElem here)
  simp only [Xml.children_withChildren, List.getElem_set_ne (show i ≠ j by omega)]
  simp [before]

theorem childIndex_append (h : childIndex e step = none) (matched : isStep step c = true) :
    childIndex (e.withChildren (e.children ++ [c])) step = some e.children.length := by
  simp only [childIndex, Xml.children_withChildren, List.findIdx?_append]
  rw [show e.children.findIdx? (isStep step) = none from h]
  simp [List.findIdx?_cons, matched]

theorem promote_one {steps : List Step} (some' : steps ≠ []) (empty : e.children = []) (source : Tree) :
    (promote e steps source).children.length = 1 := by
  have absent (step : Step) : childIndex e step = none := by simp [childIndex, empty]
  match steps with
  | [] => exact absurd rfl some'
  | [last] =>
    rw [promote, absent]
    simp [empty]
  | step :: next :: rest =>
    rw [promote, absent]
    · simp [empty]
    · simp

theorem promote_placed {steps : List Step} {source : Tree} (some' : steps ≠ [])
    (last : ∀ step ∈ steps.getLast?, isStep step source = true)
    (running : Tree) : ∃ place, locate (promote running steps source) steps = some place ∧
      Xml.Placed running (promote running steps source) source place ∧
      ∀ before, running.sub place = some before → locate running steps = some place := by
  induction steps generalizing running with
  | nil => exact absurd rfl some'
  | cons step rest ih =>
    cases rest with
    | nil =>
      have matched := last step (by simp)
      unfold promote
      split
      · rename_i i found
        obtain ⟨inside, -⟩ := childIndex_some found
        rw [eraseIdx_insertIdx source inside]
        refine ⟨[i], ?_, Xml.placed_set inside, fun before there => ?_⟩
        · rw [locate, childIndex_set found matched]
          simp [locate, inside]
        · rw [locate, found]
          simp [locate, inside]
      · rename_i absent
        refine ⟨[running.children.length], ?_, Xml.placed_append _ _, fun before there => ?_⟩
        · rw [locate, childIndex_append absent matched]
          simp [locate]
        · simp [Xml.sub_cons] at there
    | cons next rest =>
      have last : ∀ step ∈ (next :: rest).getLast?, isStep step source = true := by simpa using last
      unfold promote
      split
      · rename_i i found
        obtain ⟨inside, -⟩ := childIndex_some found
        obtain ⟨inside', matched, -⟩ := List.findIdx?_eq_some_iff_getElem.mp found
        obtain ⟨place, leads, placed, replaced⟩ := ih (by simp) last (running.children[i])
        obtain ⟨tag, attrs, -⟩ := promote_own (running.children[i]) (next :: rest) source
        have set : running.children.modify i (fun child => promote child (next :: rest) source) =
            running.children.set i (promote (running.children[i]) (next :: rest) source) := by
          rw [List.modify_eq_set_getElem?]
          simp [inside]
        rw [set]
        refine ⟨i :: place, ?_, placed.set (List.getElem?_eq_getElem inside), fun before there => ?_⟩
        · rw [locate, childIndex_set found ((isStep_congr tag attrs).trans matched)]
          simp [inside, leads]
        · obtain ⟨child, here, below⟩ := Xml.sub_cons_some there
          cases (List.getElem?_eq_getElem inside).symm.trans here
          rw [locate, found]
          simp [inside, replaced before below]
      · rename_i absent
        obtain ⟨place, leads, placed, -⟩ := ih (by simp) last (createChild step)
        obtain ⟨tag, attrs, -⟩ := promote_own (createChild step) (next :: rest) source
        refine ⟨running.children.length :: place, ?_, Xml.Placed.append placed.found fun p x found => ?_, fun before there => ?_⟩
        · rw [locate, childIndex_append absent ((isStep_congr tag attrs).trans (isStep_createChild step))]
          simp [leads]
        · cases p with
          | nil =>
            cases found
            exact .inr ⟨List.nil_prefix, (promote_own _ _ _).2.2, promote_one (by simp) rfl source⟩
          | cons j p => exact placed.fresh (j :: p) x rfl found
        · simp [Xml.sub_cons] at there

theorem stepsAt_last (regular : ∀ p e', e.sub p = some e' → Regular e') (there : e.sub pos = some x)
    (below : pos ≠ []) : stepsAt e pos ≠ [] ∧ ∀ step ∈ (stepsAt e pos).getLast?, isStep step x = true := by
  induction pos generalizing e with
  | nil => exact absurd rfl below
  | cons i rest ih =>
    obtain ⟨child, found, under⟩ := Xml.sub_cons_some there
    have steps : stepsAt e (i :: rest) = keyOf child :: stepsAt child rest := by rw [stepsAt, found]
    rw [steps]
    refine ⟨by simp, ?_⟩
    cases rest with
    | nil =>
      have named := (regular [] e rfl).names child (List.mem_of_getElem? found)
      cases under
      simp [stepsAt, isStep_key named]
    | cons j rest =>
      obtain ⟨some', last⟩ := ih (Panos.regular_below regular found) under (by simp)
      obtain ⟨first, more, same⟩ := List.exists_cons_of_ne_nil some'
      rw [same] at last ⊢
      simpa using last

/-- The path that is printed for an element of the candidate leads `prepare_commit` to that
element. In the result it stands where the path leads, in the place of the element that the
path led to in the running configuration if there was one; nothing else changes. -/
theorem prepareCommit_promotes {candidate e : Tree} {pos : List Nat} {path : Text} (shape : Panos candidate)
    (there : candidate.sub pos = some e)
    (below : pos ≠ []) (other : e.tag ≠ memberTag) (printed : pathAt candidate [] pos = some path) (running : Tree) :
    ∃ result place, prepareCommit path candidate running = .ok result ∧
      locate candidate (normalizeXpath path candidate) = some pos ∧
      locate result (normalizeXpath path candidate) = some place ∧ Xml.Placed running result e place ∧
      ∀ before, running.sub place = some before → locate running (normalizeXpath path candidate) = some place := by
  obtain ⟨leads, walk⟩ := locate_stepsAt shape.regular there other
  obtain ⟨some', last⟩ := stepsAt_last shape.regular there below
  obtain ⟨place, ends, placed, replaced⟩ := promote_placed some' last running
  have parts := normalizeXpath_pathAt shape there printed
  refine ⟨promote running (stepsAt candidate pos) e, place, ?_, ?_, ?_, placed, ?_⟩
  · simp only [prepareCommit, parts, if_neg some', walk]
  · rw [parts]
    exact leads
  · rw [parts]
    exact ends
  · rw [parts]
    exact replaced

/-! A hostname is promoted into a running configuration that has no device yet. -/

def leaf (tag : String) (text : String) : Tree := .node tag.toList [] (some text.toList) []

def entryNode (name : String) (children : List Tree) : Tree := .node entryTag [(nameKey, name.toList)] none children

def treeNode (tag : String) (children : List Tree) : Tree := .node tag.toList [] none children

theorem regular_single (only : e.children = [c]) (tag : PlainTag c.tag)
    (names : c.tag = entryTag → ∃ name, c.get nameKey = some name ∧ PlainName name) (other : c.tag ≠ memberTag)
    (rest : ∀ p x, c.sub p = some x → Regular x) : ∀ p x, e.sub p = some x → Regular x := by
  have at0 {i : Nat} {d : Tree} (found : e.children[i]? = some d) : i = 0 ∧ d = c := by
    rw [only] at found
    cases i with
    | zero => exact ⟨rfl, by simpa using found.symm⟩
    | succ i => simp at found
  have member {d : Tree} (inside : d ∈ e.children) : d = c := by
    rw [only] at inside
    exact List.mem_singleton.mp inside
  intro p x found
  cases p with
  | nil =>
    cases found
    refine ⟨⟨fun d inside => member inside ▸ names, fun d inside tag => ?_, fun i j d d' here here' _ _ => ?_⟩,
      fun d inside => member inside ▸ tag⟩
    · exact absurd tag (member inside ▸ other)
    · rw [(at0 here).1, (at0 here').1]
  | cons i p =>
    obtain ⟨d, here, below⟩ := Xml.sub_cons_some found
    exact rest p x ((at0 here).2 ▸ below)

theorem regular_leaf (empty : e.children = []) : ∀ p x, e.sub p = some x → Regular x := by
  intro p x found
  cases p with
  | nil =>
    cases found
    refine ⟨⟨?_, ?_, ?_⟩, ?_⟩ <;> simp [empty]
  | cons i p =>
    obtain ⟨d, here, -⟩ := Xml.sub_cons_some found
    simp [empty] at here

def namedDevice : Tree := treeNode "config" [treeNode "devices" [entryNode "localhost.localdomain" [leaf "hostname" "fw"]]]

def hostnamePath : Text := "config.devices.entry[@name=localhost.localdomain].hostname".toList

theorem namedDevice_panos : Panos namedDevice := by
  have name : PlainName "localhost.localdomain".toList := ⟨⟨List.all_iff_forall_prop.mp (by decide), by decide⟩, by decide⟩
  refine ⟨⟨by decide, List.all_iff_forall_prop.mp (by decide)⟩, by decide, ?_⟩
  refine regular_single rfl ⟨by decide, List.all_iff_forall_prop.mp (by decide)⟩ (fun tag => absurd tag (by decide)) (by decide) ?_
  refine regular_single rfl ⟨by decide, List.all_iff_forall_prop.mp (by decide)⟩ (fun _ => ⟨_, rfl, name⟩) (by decide) ?_
  refine regular_single rfl ⟨by decide, List.all_iff_forall_prop.mp (by decide)⟩ (fun tag => absurd tag (by decide)) (by decide) ?_
  exact regular_leaf rfl

theorem hostname_promoted : ∃ result, prepareCommit hostnamePath namedDevice (treeNode "config" [leaf "version" "1"]) = .ok result ∧
    result.sub [1, 0, 0] = some (leaf "hostname" "fw") ∧ result.sub [0] = some (leaf "version" "1") := by
  have printed : pathAt namedDevice [] [0, 0, 0] = some hostnamePath := by decide +kernel
  obtain ⟨result, place, done, -, leads, placed, -⟩ :=
      prepareCommit_promotes namedDevice_panos (e := leaf "hostname" "fw") rfl (by simp) (by decide)
    printed (treeNode "config" [leaf "version" "1"])
  have ends : (prepareCommit hostnamePath namedDevice (treeNode "config" [leaf "version" "1"])).map
      (fun r => locate r (normalizeXpath hostnamePath namedDevice)) = .ok (some [1, 0, 0]) := by decide +kernel
  rw [done] at ends
  cases leads.symm.trans (Except.ok.inj ends)
  obtain ⟨x, found, -, -, -, same⟩ := placed.kept [0] (leaf "version" "1") rfl (by decide)
  exact ⟨result, done, placed.found, (same (by decide)) ▸ found⟩

/-! A dot in a tag is taken for the end of a step, and an empty name is not read as a name. -/

structure Shaped (root : Tree) : Prop where
  notEntry : root.tag ≠ entryTag
  siblings : ∀ p e, root.sub p = some e → Siblings Unbracketed e

theorem shaped_single (tag : String) (notEntry : tag.toList ≠ entryTag) (empty : c.children = [])
    (names : c.tag = entryTag → ∃ name, c.get nameKey = some name ∧ Unbracketed name) (other : c.tag ≠ memberTag) :
    Shaped (treeNode tag [c]) := by
  refine ⟨notEntry, fun p e found => ?_⟩
  have leaf : Siblings Unbracketed c := by refine ⟨?_, ?_, ?_⟩ <;> simp [empty]
  match p with
  | [] =>
    cases found
    refine ⟨?_, ?_, fun i j d d' here here' _ _ => ?_⟩
    · simpa [treeNode, Xml.children] using names
    · simpa [treeNode, Xml.children] using fun tag => absurd tag other
    · have first (k : Nat) (d : Tree) (here : (treeNode tag [c]).children[k]? = some d) : k = 0 := by
        cases k with
        | zero => rfl
        | succ k => simp [treeNode, Xml.children] at here
      rw [first i d here, first j d' here']
  | [i] =>
    obtain ⟨d, here, below⟩ := Xml.sub_cons_some found
    cases below
    cases i with
    | zero =>
      cases here
      exact leaf
    | succ i => simp [treeNode, Xml.children] at here
  | i :: j :: p =>
    obtain ⟨d, here, below⟩ := Xml.sub_cons_some found
    obtain ⟨d', here', -⟩ := Xml.sub_cons_some below
    cases i with
    | zero =>
      cases here
      simp [empty] at here'
    | succ i => simp [treeNode, Xml.children] at here

def dottedTag : Tree := treeNode "config" [leaf "a.b" "x"]

def unnamedEntry : Tree := treeNode "config" [entryNode "" []]

theorem path_not_read :
    (Shaped dottedTag ∧ dottedTag.sub [0] = some (leaf "a.b" "x") ∧ pathAt dottedTag [] [0] = some "config.a.b".toList ∧
      (prepareCommit "config.a.b".toList dottedTag dottedTag).isOk = false) ∧
    (Shaped unnamedEntry ∧ unnamedEntry.sub [0] = some (entryNode "" []) ∧
      pathAt unnamedEntry [] [0] = some "config.entry[@name=]".toList ∧
      (prepareCommit "config.entry[@name=]".toList unnamedEntry unnamedEntry).isOk = false) := by
  have empty : Unbracketed "".toList := ⟨List.all_iff_forall_prop.mp (by decide), by decide⟩
  refine ⟨⟨?_, rfl, by decide +kernel, by decide +kernel⟩, ⟨?_, rfl, by decide +kernel, by decide +kernel⟩⟩
  · exact shaped_single "config" (by decide) rfl (fun tag => absurd tag (by decide)) (by decide)
  · exact shaped_single "config" (by decide) rfl (fun _ => ⟨_, rfl, empty⟩) (by decide)

end FfnNgfw.Config
