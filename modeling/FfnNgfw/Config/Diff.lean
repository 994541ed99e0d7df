import FfnNgfw.Config.Promotion
import FfnNgfw.Lib.Dict
import FfnNgfw.Lib.Framing
import FfnNgfw.Policy.Nft
import Mathlib.Data.String.Basic

/-!
# The diff of two configurations

A configuration is flattened to a dictionary from paths to texts, and two configurations differ
where their dictionaries do. The order of the entries of a rulebase and of the members of a list
is part of what is flattened, that of other siblings is not.
-/

namespace FfnNgfw.Config
open Threatdb (Text strip)
open Framing (SelfDelimiting flatMap_ended)

def jsonChar (c : Char) : Text := (Policy.jsonChar c).toList

def jsonName : Option Text → Text
  | none => "null".toList
  | some s => '"' :: (s.flatMap jsonChar ++ ['"'])

/-- `json.dumps` of a list of names -/
def dumps : List (Option Text) → Text
  | [] => "[]".toList
  | name :: rest => '[' :: (jsonName name ++ (rest.flatMap (fun n => ", ".toList ++ jsonName n) ++ [']']))

/-! ### The diff -/

structure Diff where
  added : List (Text × Text)
  modified : List (Text × Text × Text)
  removed : List (Text × Text)

def Diff.hasChanges (d : Diff) : Bool := !(d.added.isEmpty && d.modified.isEmpty && d.removed.isEmpty)

def pathsOf (e : Tree) : Dict Text Text := Dict.ofItems (collectPaths dumps e [])

def diff (candidate running : Tree) : Diff :=
  let cand := pathsOf candidate
  let run := pathsOf running
  let keys := ((cand.items ++ run.items).map Prod.fst).dedup.insertionSort (· ≤ ·)
  { added := keys.filterMap fun k =>
      match cand.lookup k, run.lookup k with
      | some v, none => some (k, v)
      | _, _ => none
    modified := keys.filterMap fun k =>
      match cand.lookup k, run.lookup k with
      | some new, some old => if new ≠ old then some (k, old, new) else none
      | _, _ => none
    removed := keys.filterMap fun k =>
      match cand.lookup k, run.lookup k with
      | none, some v => some (k, v)
      | _, _ => none }

inductive Commit where
  | error (message : Text)
  | noChanges
  | committed (root : Tree)

/-- `prepare_commit`, of a path or of the whole candidate -/
def prepared (xpath : Option Text) (candidate running : Tree) : Except Text Tree :=
  match xpath with
  | some xpath => prepareCommit xpath candidate running
  | none => .ok candidate

/-- `commit`, up to the promotion; `refused` is what is not supported. -/
def commit (refused : Tree → Option Text) (xpath : Option Text) (candidate running : Tree) : Commit :=
  match prepared xpath candidate running with
  | .error message => .error message
  | .ok root =>
    match refused root with
    | some message => .error message
    | none => if (diff root running).hasChanges then .committed root else .noChanges

def entryNames (children : List Tree) : List (Option Text) := (children.filter (·.tag = entryTag)).map (·.get nameKey)

mutual

/-- Equal up to blanks around the texts and the order of siblings that are not in a list of members. In `rules` the
entries keep their order, and if `strict` all siblings do. -/
def Alike (strict : Prop) : Tree → Tree → Prop
  | .node tag attrs text children, e =>
    e.tag = tag ∧ e.attrs = attrs ∧ strip (e.text.getD []) = strip (text.getD []) ∧
      ∃ order, order.Perm e.children ∧ AllAlike strict children order ∧
        ((∃ c ∈ e.children, c.tag = memberTag) → order = e.children) ∧
        (tag = rulesTag → entryNames order = entryNames e.children ∧ (strict → order = e.children))

def AllAlike (strict : Prop) : List Tree → List Tree → Prop
  | [], others => others = []
  | c :: rest, others => ∃ d others', others = d :: others' ∧ Alike strict c d ∧ AllAlike strict rest others'

end

theorem allAlike_iff {strict : Prop} {cs ds : List Tree} : AllAlike strict cs ds ↔ List.Forall₂ (Alike strict) cs ds := by
  induction cs generalizing ds with
  | nil =>
    rw [AllAlike]
    exact ⟨fun empty => by subst empty; exact .nil, fun all => by cases all; rfl⟩
  | cons c rest ih =>
    rw [AllAlike]
    constructor
    · rintro ⟨d, others, rfl, first, later⟩
      exact .cons first (ih.mp later)
    · intro all
      cases all with
      | cons first later => exact ⟨_, _, rfl, first, ih.mpr later⟩

/-- What holds of every element of a PAN-OS configuration; tags are those of XML. -/
structure ShapedElement (e : Tree) : Prop where
  full : e.tag ≠ []
  letters : ∀ c ∈ e.tag, c ≠ '[' ∧ c ≠ ']' ∧ c ≠ '@'
  entry : e.tag = entryTag → ∃ name, e.attrs = [(nameKey, name)] ∧ ∀ c ∈ name, c ≠ '[' ∧ c ≠ ']'
  bare : e.tag ≠ entryTag → e.attrs = []
  text : e.children ≠ [] → strip (e.text.getD []) = []
  members : (∃ c ∈ e.children, c.tag = memberTag) → ∀ c ∈ e.children, c.tag = memberTag ∧ c.children = []
  keys : ((e.children.filter (·.tag ≠ memberTag)).map keyOf).Nodup
  apart : e.tag = entryTag → ∀ c ∈ e.children, c.tag ≠ entryTag

def ShapedTree (root : Tree) : Prop := ∀ p e, root.sub p = some e → ShapedElement e

def Undotted (root : Tree) : Prop := ∀ p e, root.sub p = some e → '.' ∉ e.tag

/-! ### The order of the entries is read back -/

def hexDigits (n : Nat) : Text := [Nat.digitChar (n / 4096 % 16), Nat.digitChar (n / 256 % 16),
    Nat.digitChar (n / 16 % 16), Nat.digitChar (n % 16)]

theorem hex4_toList (n : Nat) : (Policy.hex4 n).toList = hexDigits n := by
  simp [Policy.hex4, hexDigits, List.range_succ, Nat.shiftRight_eq_div_pow]

theorem digitChar_inj {a b : Nat} (small : a < 16) (small' : b < 16) (same : Nat.digitChar a = Nat.digitChar b) : a = b := by
  have all : ∀ a b : Fin 16, Nat.digitChar a = Nat.digitChar b → a = b := by decide
  exact congrArg Fin.val (all ⟨a, small⟩ ⟨b, small'⟩ same)

theorem hexDigits_inj {n m : Nat} (small : n < 65536) (small' : m < 65536) (same : hexDigits n = hexDigits m) : n = m := by
  unfold hexDigits at same
  obtain ⟨first, same⟩ := List.cons.inj same
  obtain ⟨second, same⟩ := List.cons.inj same
  obtain ⟨third, same⟩ := List.cons.inj same
  obtain ⟨fourth, -⟩ := List.cons.inj same
  have first := digitChar_inj (Nat.mod_lt _ (by decide)) (Nat.mod_lt _ (by decide)) first
  have second := digitChar_inj (Nat.mod_lt _ (by decide)) (Nat.mod_lt _ (by decide)) second
  have third := digitChar_inj (Nat.mod_lt _ (by decide)) (Nat.mod_lt _ (by decide)) third
  have fourth := digitChar_inj (Nat.mod_lt _ (by decide)) (Nat.mod_lt _ (by decide)) fourth
  omega

inductive Written (c : Char) : Text → Prop where
  | plain (other : c ≠ '"' ∧ c ≠ '\\') : Written c [c]
  | short (s : Char) (pair : (c, s) ∈ [('"', '"'), ('\\', '\\'), ('\n', 'n'), ('\r', 'r'), ('\t', 't'),
      (Char.ofNat 8, 'b'), (Char.ofNat 12, 'f')]) :
      Written c ['\\', s]
  | unit (small : c.toNat < 65536) : Written c ('\\' :: 'u' :: hexDigits c.toNat)
  | pair (large : 65536 ≤ c.toNat) : Written c ('\\' :: 'u' :: (hexDigits (0xd800 + (c.toNat - 0x10000) / 1024) ++
      ('\\' :: 'u' :: hexDigits (0xdc00 + (c.toNat - 0x10000) % 1024))))

theorem jsonChar_written (c : Char) : Written c (jsonChar c) := by
  have eq_ofNat (n : Nat) (same : c.toNat = n) : c = Char.ofNat n := by rw [← same, Char.ofNat_toNat]
  unfold jsonChar Policy.jsonChar
  split
  · rename_i same
    exact same ▸ .short '"' (by simp)
  split
  · rename_i same
    exact same ▸ .short '\\' (by simp)
  split
  · rename_i same
    exact same ▸ .short 'n' (by simp)
  split
  · rename_i same
    exact same ▸ .short 'r' (by simp)
  split
  · rename_i same
    exact same ▸ .short 't' (by simp)
  split
  · rename_i same
    exact eq_ofNat 8 same ▸ .short 'b' (by simp)
  split
  · rename_i same
    exact eq_ofNat 12 same ▸ .short 'f' (by simp)
  split
  · rename_i quote slash _ _ _ _ _ _
    have single : c.toString.toList = [c] := by simp [Char.toString]
    rw [single]
    exact .plain ⟨quote, slash⟩
  split
  · rename_i small
    rw [String.toList_append, hex4_toList]
    exact .unit small
  · rename_i large
    rw [String.toList_append, String.toList_append, String.toList_append, hex4_toList, hex4_toList]
    exact .pair (Nat.le_of_not_lt large)

theorem toNat_bounds (c : Char) : c.toNat < 0xd800 ∨ (0xdfff < c.toNat ∧ c.toNat < 0x110000) := c.valid

theorem hexDigits_append {n m : Nat} (small : n < 65536) (small' : m < 65536) {rest rest' : Text}
    (same : hexDigits n ++ rest = hexDigits m ++ rest') : n = m ∧ rest = rest' := by
  obtain ⟨digits, later⟩ := List.append_inj same rfl
  exact ⟨hexDigits_inj small small' digits, later⟩

theorem short_inj {a b s : Char}
    (pair : (a, s) ∈ [('"', '"'), ('\\', '\\'), ('\n', 'n'), ('\r', 'r'), ('\t', 't'), (Char.ofNat 8, 'b'), (Char.ofNat 12, 'f')])
    (pair' : (b, s) ∈ [('"', '"'), ('\\', '\\'), ('\n', 'n'), ('\r', 'r'), ('\t', 't'), (Char.ofNat 8, 'b'),
    (Char.ofNat 12, 'f')]) : a = b := by
  have all : ∀ p ∈ [('"', '"'), ('\\', '\\'), ('\n', 'n'), ('\r', 'r'), ('\t', 't'), (Char.ofNat 8, 'b'), (Char.ofNat 12, 'f')],
      ∀ q ∈ [('"', '"'), ('\\', '\\'), ('\n', 'n'), ('\r', 'r'), ('\t', 't'), (Char.ofNat 8, 'b'), (Char.ofNat 12, 'f')],
      p.2 = q.2 → p.1 = q.1 := by decide
  exact all _ pair _ pair' rfl

theorem short_ne_unit {a : Char}
    (pair : (a, 'u') ∈ [('"', '"'), ('\\', '\\'), ('\n', 'n'), ('\r', 'r'), ('\t', 't'), (Char.ofNat 8, 'b'),
    (Char.ofNat 12, 'f')]) : False := by
  have all : ∀ p ∈ [('"', '"'), ('\\', '\\'), ('\n', 'n'), ('\r', 'r'), ('\t', 't'), (Char.ofNat 8, 'b'), (Char.ofNat 12, 'f')],
      p.2 ≠ 'u' := by decide
  exact all _ pair rfl

theorem written_delimits {a b : Char} {x y rest rest' : Text} (here : Written a x) (there : Written b y)
    (same : x ++ rest = y ++ rest') :
    a = b ∧ rest = rest' := by
  have bounds := toNat_bounds a
  have bounds' := toNat_bounds b
  cases here with
  | plain other =>
    cases there with
    | plain _ =>
      obtain ⟨rfl, rfl⟩ := List.cons.inj same
      exact ⟨rfl, rfl⟩
    | short | unit | pair => exact absurd (List.cons.inj same).1 other.2
  | short s pair =>
    cases there with
    | plain other => exact absurd (List.cons.inj same).1.symm other.2
    | short s' pair' =>
      obtain ⟨rfl, rfl⟩ := List.cons.inj (List.cons.inj same).2
      exact ⟨short_inj pair pair', rfl⟩
    | unit | pair =>
      obtain rfl := (List.cons.inj (List.cons.inj same).2).1
      exact (short_ne_unit pair).elim
  | unit small =>
    cases there with
    | plain other => exact absurd (List.cons.inj same).1.symm other.2
    | short s' pair' =>
      obtain rfl := (List.cons.inj (List.cons.inj same).2).1
      exact (short_ne_unit pair').elim
    | unit small' =>
      obtain ⟨number, rfl⟩ := hexDigits_append small small' (List.cons.inj (List.cons.inj same).2).2
      exact ⟨Char.toNat_inj.mp number, rfl⟩
    | pair large =>
      simp only [List.cons_append, List.append_assoc] at same
      have later := (List.cons.inj (List.cons.inj same).2).2
      obtain ⟨number, -⟩ := hexDigits_append small (by omega) later
      omega
  | pair large =>
    cases there with
    | plain other => exact absurd (List.cons.inj same).1.symm other.2
    | short s' pair' =>
      obtain rfl := (List.cons.inj (List.cons.inj same).2).1
      exact (short_ne_unit pair').elim
    | unit small =>
      simp only [List.cons_append, List.append_assoc] at same
      have later := (List.cons.inj (List.cons.inj same).2).2
      obtain ⟨number, -⟩ := hexDigits_append (by omega) small later
      omega
    | pair large' =>
      simp only [List.cons_append, List.append_assoc] at same
      have later := (List.cons.inj (List.cons.inj same).2).2
      obtain ⟨high, later⟩ := hexDigits_append (by omega) (by omega) later
      obtain ⟨low, rfl⟩ := hexDigits_append (by omega) (by omega) (List.cons.inj (List.cons.inj later).2).2
      exact ⟨Char.toNat_inj.mp (by omega), rfl⟩

theorem jsonChar_delimits : SelfDelimiting jsonChar := fun a b _ _ => written_delimits (jsonChar_written a) (jsonChar_written b)

theorem jsonChar_ne_quote (c : Char) (rest rest' : Text) : jsonChar c ++ rest ≠ '"' :: rest' := by
  intro same
  have here := jsonChar_written c
  generalize jsonChar c = x at here same
  cases here with
  | plain other => exact other.1 (List.cons.inj same).1
  | short | unit | pair => exact absurd (List.cons.inj same).1 (by decide)

theorem jsonName_delimits : SelfDelimiting jsonName := by
  intro a b rest rest' same
  cases a with
  | none =>
    cases b with
    | none => exact ⟨rfl, List.append_cancel_left same⟩
    | some t => exact absurd (List.cons.inj same).1 (by decide)
  | some s =>
    cases b with
    | none => exact absurd (List.cons.inj same).1 (by decide)
    | some t =>
      have quotes : '"' :: (s.flatMap jsonChar ++ '"' :: rest) = '"' :: (t.flatMap jsonChar ++ '"' :: rest') := by
        simpa only [jsonName, List.cons_append, List.append_assoc, List.nil_append] using same
      have inner := (List.cons.inj quotes).2
      obtain ⟨rfl, rfl⟩ := flatMap_ended jsonChar_delimits jsonChar_ne_quote inner
      exact ⟨rfl, rfl⟩

theorem jsonName_head (name : Option Text) : ∃ c rest, jsonName name = c :: rest ∧ c ≠ ']' := by
  cases name with
  | none => exact ⟨'n', "ull".toList, rfl, by decide⟩
  | some s => exact ⟨'"', s.flatMap jsonChar ++ ['"'], rfl, by decide⟩

theorem dumps_inj {as bs : List (Option Text)} (same : dumps as = dumps bs) : as = bs := by
  have empty (name : Option Text) (rest : List (Option Text)) : dumps [] ≠ dumps (name :: rest) := by
    intro same
    obtain ⟨c, more, shape, other⟩ := jsonName_head name
    have inner := (List.cons.inj same).2
    rw [shape] at inner
    exact other (List.cons.inj inner).1.symm
  cases as with
  | nil =>
    cases bs with
    | nil => rfl
    | cons b bs => exact absurd same (empty b bs)
  | cons a as =>
    cases bs with
    | nil => exact absurd same.symm (empty a as)
    | cons b bs =>
      obtain ⟨rfl, later⟩ := jsonName_delimits _ _ _ _ (List.cons.inj same).2
      have own : SelfDelimiting fun n => ", ".toList ++ jsonName n := by
        intro n m rest rest' same
        rw [List.append_assoc, List.append_assoc] at same
        exact jsonName_delimits n m rest rest' (List.append_cancel_left same)
      have other (n : Option Text) (rest rest' : Text) : ", ".toList ++ jsonName n ++ rest ≠ ']' :: rest' :=
        fun same => absurd (List.cons.inj same).1 (by decide)
      obtain ⟨rfl, -⟩ := flatMap_ended own other later
      rfl

/-! ### Keys in parts -/

def orderPart : Text := "@order".toList

def memberPart (i : Nat) : Text := "member[".toList ++ Nat.toDigits 10 i ++ [']']

def orderBelow (e : Tree) : List (List Text × Text) :=
  if e.tag = rulesTag then [([orderPart], dumps (entryNames e.children))] else []

mutual

def below : Tree → List (List Text × Text)
  | .node tag attrs text children =>
    let e : Tree := .node tag attrs text children
    orderBelow e ++
      if isMemberList e then (e.findall memberTag).mapIdx fun i m => ([memberPart i], strip (m.text.getD []))
      else if children = [] then [([], strip (text.getD []))]
      else allBelow children

def allBelow : List Tree → List (List Text × Text)
  | [] => []
  | e :: rest => (below e).map (fun p => (label e :: p.1, p.2)) ++ allBelow rest

end

def printed (above : Text) (p : List Text × Text) : Text × Text := (p.1.foldl extend above, p.2)

section keys

variable {strict : Prop} {e c r : Tree} {children : List Tree}

theorem mem_allBelow {p : List Text × Text} : p ∈ allBelow children ↔ ∃ c ∈ children, ∃ ps, (ps, p.2) ∈ below c ∧
    p.1 = label c :: ps := by
  induction children with
  | nil => exact iff_of_false (by simp [allBelow]) fun ⟨_, member, _⟩ => absurd member List.not_mem_nil
  | cons e rest ih =>
    rw [allBelow, List.mem_append, List.mem_map, ih]
    constructor
    · rintro (⟨q, here, rfl⟩ | ⟨c, member, later⟩)
      · exact ⟨e, List.mem_cons_self, q.1, here, rfl⟩
      · exact ⟨c, List.mem_cons_of_mem e member, later⟩
    · rintro ⟨c, member, ps, there, parts⟩
      rcases List.mem_cons.mp member with rfl | member
      · exact .inl ⟨(ps, p.2), there, Prod.ext parts.symm rfl⟩
      · exact .inr ⟨c, member, ps, there, parts⟩

theorem ShapedTree.here (shaped : ShapedTree e) : ShapedElement e := shaped [] e rfl

theorem ShapedTree.child (shaped : ShapedTree e) (member : c ∈ e.children) : ShapedTree c := by
  obtain ⟨i, there⟩ := List.mem_iff_getElem?.mp member
  intro p x found
  refine shaped (i :: p) x ?_
  rw [Xml.sub_cons, there]
  exact found

theorem Undotted.child (undotted : Undotted e) (member : c ∈ e.children) : Undotted c := by
  obtain ⟨i, there⟩ := List.mem_iff_getElem?.mp member
  intro p x found
  refine undotted (i :: p) x ?_
  rw [Xml.sub_cons, there]
  exact found

theorem ShapedElement.label_cases (shaped : ShapedElement e) :
    (∃ name, e.tag = entryTag ∧ e.attrs = [(nameKey, name)] ∧ (∀ c ∈ name, c ≠ '[' ∧ c ≠ ']') ∧ label e = entryLabel name) ∨
      (e.tag ≠ entryTag ∧ e.attrs = [] ∧ label e = e.tag) := by
  by_cases entry : e.tag = entryTag
  · obtain ⟨name, attrs, plain⟩ := shaped.entry entry
    have get : e.get nameKey = some name := by simp [Xml.get, attrs]
    exact .inl ⟨name, entry, attrs, plain, by simp [label, get, entry, entryLabel]⟩
  · have attrs := shaped.bare entry
    have get : e.get nameKey = none := by simp [Xml.get, attrs]
    exact .inr ⟨entry, attrs, by rw [label, get]⟩

theorem entryLabel_open (name : Text) : '[' ∈ entryLabel name := by simp [entryLabel_eq]

theorem entryLabel_inj {name name' : Text} (same : entryLabel name = entryLabel name') : name = name' := by
  unfold entryLabel at same
  have inner := (List.cons.inj (List.append_cancel_left same)).2
  exact List.append_cancel_right inner

theorem label_inj (left : ShapedElement c) (right : ShapedElement r) (same : label c = label r) : c.tag = r.tag ∧ c.attrs = r.attrs := by
  rcases left.label_cases with ⟨name, tag, attrs, -, shown⟩ | ⟨-, attrs, shown⟩
  · rcases right.label_cases with ⟨name', tag', attrs', -, shown'⟩ | ⟨-, -, shown'⟩
    · obtain rfl := entryLabel_inj (shown.symm.trans (same.trans shown'))
      exact ⟨tag.trans tag'.symm, attrs.trans attrs'.symm⟩
    · have open' := entryLabel_open name
      rw [← shown, same, shown'] at open'
      exact absurd rfl (right.letters _ open').1
  · rcases right.label_cases with ⟨name', -, -, -, shown'⟩ | ⟨-, attrs', shown'⟩
    · have open' := entryLabel_open name'
      rw [← shown', ← same, shown] at open'
      exact absurd rfl (left.letters _ open').1
    · exact ⟨shown.symm.trans (same.trans shown'), attrs.trans attrs'.symm⟩

theorem label_of_same (tag : c.tag = r.tag) (attrs : c.attrs = r.attrs) : label c = label r := by
  unfold label Xml.get
  rw [tag, attrs]

theorem label_full (shaped : ShapedElement e) : label e ≠ [] := by
  rcases shaped.label_cases with ⟨name, -, -, -, shown⟩ | ⟨-, -, shown⟩
  · rw [shown]
    simp [entryLabel]
  · rw [shown]
    exact shaped.full

theorem label_ne_order (shaped : ShapedElement e) : label e ≠ orderPart := by
  rcases shaped.label_cases with ⟨name, -, -, -, shown⟩ | ⟨-, -, shown⟩
  · intro same
    have open' := entryLabel_open name
    rw [← shown, same] at open'
    exact absurd open' (by decide)
  · intro same
    have at' : '@' ∈ orderPart := by decide
    rw [← same, shown] at at'
    exact (shaped.letters _ at').2.2 rfl

theorem memberPart_open (i : Nat) : '[' ∈ memberPart i := List.mem_append_left _ (List.mem_append_left _ (by decide))

theorem at_not_mem (i : Nat) : '@' ∉ memberPart i := by
  intro member
  rcases List.mem_append.mp member with front | last
  · rcases List.mem_append.mp front with word | digit
    · exact absurd word (by decide)
    · exact absurd (Nat.isDigit_of_mem_toDigits (by decide) (by decide) digit) (by decide)
  · exact absurd (List.mem_singleton.mp last) (by decide)

theorem label_ne_member (shaped : ShapedElement e) (i : Nat) : label e ≠ memberPart i := by
  rcases shaped.label_cases with ⟨name, -, -, -, shown⟩ | ⟨-, -, shown⟩
  · intro same
    have inside : '@' ∈ predicate := by decide
    have at' : '@' ∈ label e := shown ▸ List.mem_append_left _ inside
    rw [same] at at'
    exact at_not_mem i at'
  · intro same
    have open' := memberPart_open i
    rw [← same, shown] at open'
    exact (shaped.letters _ open').1 rfl

theorem order_ne_member (i : Nat) : orderPart ≠ memberPart i := by
  intro same
  have open' := memberPart_open i
  rw [← same] at open'
  exact absurd open' (by decide)

theorem memberPart_inj {i j : Nat} (same : memberPart i = memberPart j) : i = j := by
  have inner := List.append_cancel_left (List.append_cancel_right same)
  have numbers := congrArg (Nat.ofDigitChars 10 · 0) inner
  simpa only [Nat.ofDigitChars_ten_toDigits] using numbers

/-! ### What the keys of an element are -/

def hasMember (e : Tree) : Prop := ∃ c ∈ e.children, c.tag = memberTag

theorem isMemberList_iff (shaped : ShapedElement e) : isMemberList e = true ↔ hasMember e := by
  unfold isMemberList Xml.findall
  rw [Bool.and_eq_true, decide_eq_true_eq, Bool.not_eq_true', List.isEmpty_eq_false_iff]
  constructor
  · rintro ⟨some', -⟩
    obtain ⟨c, inside⟩ := List.exists_mem_of_ne_nil _ some'
    obtain ⟨member, tag⟩ := List.mem_filter.mp inside
    exact ⟨c, member, by simpa using tag⟩
  · intro has
    have all : e.children.filter (·.tag = memberTag) = e.children :=
      List.filter_eq_self.mpr fun c member => decide_eq_true (shaped.members has c member).1
    obtain ⟨c, member, -⟩ := has
    rw [all]
    exact ⟨List.ne_nil_of_mem member, rfl⟩

theorem findall_members (shaped : ShapedElement e) (has : hasMember e) : e.findall memberTag = e.children :=
  List.filter_eq_self.mpr fun c member => decide_eq_true (shaped.members has c member).1

theorem below_eq (e : Tree) : below e = orderBelow e ++
    if isMemberList e then (e.findall memberTag).mapIdx fun i m => ([memberPart i], strip (m.text.getD []))
    else if e.children = [] then [([], strip (e.text.getD []))]
    else allBelow e.children := by
  cases e
  rfl

inductive Gives (e : Tree) : List Text → Text → Prop where
  | order (rules : e.tag = rulesTag) : Gives e [orderPart] (dumps (entryNames e.children))
  | member (has : hasMember e) (i : Nat) (m : Tree) (there : e.children[i]? = some m) : Gives e [memberPart i] (strip (m.text.getD []))
  | leaf (empty : e.children = []) : Gives e [] (strip (e.text.getD []))
  | child (no : ¬hasMember e) (c : Tree) (inside : c ∈ e.children) (ps : List Text) (v : Text) (deeper : (ps, v) ∈ below c) :
      Gives e (label c :: ps) v

variable {ps : List Text} {v : Text} {cs ds : List Tree}

theorem mem_below (shaped : ShapedElement e) : (ps, v) ∈ below e ↔ Gives e ps v := by
  rw [below_eq, List.mem_append]
  constructor
  · rintro (order | own)
    · unfold orderBelow at order
      split at order
      · rename_i rules
        cases List.mem_singleton.mp order
        exact .order rules
      · cases order
    · split at own
      · rename_i list
        have has := (isMemberList_iff shaped).mp list
        rw [findall_members shaped has] at own
        obtain ⟨i, inside, same⟩ := List.mem_mapIdx.mp own
        cases same
        exact .member has i _ (List.getElem?_eq_getElem inside)
      · rename_i list
        split at own
        · rename_i empty
          cases List.mem_singleton.mp own
          exact .leaf empty
        · obtain ⟨c, inside, qs, deeper, parts⟩ := mem_allBelow.mp own
          cases parts
          exact .child (fun has => list ((isMemberList_iff shaped).mpr has)) c inside qs v deeper
  · intro gives
    cases gives with
    | order rules =>
      unfold orderBelow
      rw [if_pos rules]
      exact .inl (List.mem_singleton.mpr rfl)
    | member has i m there =>
      obtain ⟨inside, same⟩ := List.getElem?_eq_some_iff.mp there
      rw [if_pos ((isMemberList_iff shaped).mpr has), findall_members shaped has]
      exact .inr (List.mem_mapIdx.mpr ⟨i, inside, by rw [same]⟩)
    | leaf empty =>
      have no : ¬isMemberList e = true := by
        rw [isMemberList_iff shaped]
        rintro ⟨c, member, -⟩
        rw [empty] at member
        cases member
      rw [if_neg no, if_pos empty]
      exact .inr (List.mem_singleton.mpr rfl)
    | child no c inside qs _ deeper =>
      rw [if_neg fun list => no ((isMemberList_iff shaped).mp list), if_neg (List.ne_nil_of_mem inside)]
      exact .inr (mem_allBelow.mpr ⟨c, inside, qs, deeper, rfl⟩)

/-! One way for each kind of key. -/

theorem Gives.of_order (shaped : ShapedTree e) (gives : Gives e [orderPart] v) : e.tag = rulesTag ∧
    v = dumps (entryNames e.children) := by
  generalize parts : [orderPart] = qs at gives
  cases gives with
  | order rules => exact ⟨rules, rfl⟩
  | member _ i => exact absurd (List.cons.inj parts).1 (order_ne_member i)
  | leaf => cases parts
  | child _ c inside => exact absurd (List.cons.inj parts).1.symm (label_ne_order (shaped.child inside).here)

theorem Gives.of_member (shaped : ShapedTree e) {i : Nat} (gives : Gives e [memberPart i] v) :
    hasMember e ∧ ∃ m, e.children[i]? = some m ∧ v = strip (m.text.getD []) := by
  generalize parts : [memberPart i] = qs at gives
  cases gives with
  | order => exact absurd (List.cons.inj parts).1.symm (order_ne_member i)
  | member has j m there =>
    obtain rfl := memberPart_inj (List.cons.inj parts).1
    exact ⟨has, m, there, rfl⟩
  | leaf => cases parts
  | child _ c inside => exact absurd (List.cons.inj parts).1.symm (label_ne_member (shaped.child inside).here i)

theorem Gives.of_leaf (gives : Gives e [] v) : e.children = [] ∧ v = strip (e.text.getD []) := by
  cases gives with
  | leaf empty => exact ⟨empty, rfl⟩

theorem Gives.of_child {d : Tree} (own : ShapedElement d) (gives : Gives e (label d :: ps) v) :
    ¬hasMember e ∧ ∃ c ∈ e.children, label d = label c ∧ (ps, v) ∈ below c := by
  generalize parts : label d :: ps = qs at gives
  cases gives with
  | order => exact absurd (List.cons.inj parts).1 (label_ne_order own)
  | member _ i => exact absurd (List.cons.inj parts).1 (label_ne_member own i)
  | leaf => cases parts
  | child no c inside _ _ deeper =>
    obtain ⟨same, rfl⟩ := List.cons.inj parts
    exact ⟨no, c, inside, same, deeper⟩

theorem sibling_eq (shaped : ShapedTree e) (no : ¬hasMember e) {c d : Tree} (member : c ∈ e.children) (member' : d ∈ e.children)
    (same : label c = label d) : c = d := by
  have other (x : Tree) (inside : x ∈ e.children) : x ∈ e.children.filter (·.tag ≠ memberTag) :=
    List.mem_filter.mpr ⟨inside, decide_eq_true fun tag => no ⟨x, inside, tag⟩⟩
  obtain ⟨tag, attrs⟩ := label_inj (shaped.child member).here (shaped.child member').here same
  refine List.inj_on_of_nodup_map shaped.here.keys (other c member) (other d member') ?_
  unfold keyOf Xml.get
  rw [tag, attrs]

theorem children_nodup (shaped : ShapedElement e) (no : ¬hasMember e) : e.children.Nodup := by
  have all : e.children.filter (·.tag ≠ memberTag) = e.children :=
    List.filter_eq_self.mpr fun c member => decide_eq_true fun tag => no ⟨c, member, tag⟩
  have keys := shaped.keys
  rw [all] at keys
  exact keys.of_map _

theorem mem_below_child (shaped : ShapedTree e) (no : ¬hasMember e) (member : c ∈ e.children) :
    (label c :: ps, v) ∈ below e ↔ (ps, v) ∈ below c := by
  rw [mem_below shaped.here]
  constructor
  · intro gives
    obtain ⟨-, d, inside, same, deeper⟩ := gives.of_child (shaped.child member).here
    exact sibling_eq shaped no member inside same ▸ deeper
  · exact fun deeper => .child no c member ps v deeper

theorem below_functional {v v' : Text} (shaped : ShapedTree e) (one : (ps, v) ∈ below e) (other : (ps, v') ∈ below e) :
    v = v' := by
  induction ps generalizing e with
  | nil =>
    rw [mem_below shaped.here] at one other
    exact one.of_leaf.2.trans other.of_leaf.2.symm
  | cons part rest ih =>
    rw [mem_below shaped.here] at one
    cases one with
    | order =>
      rw [mem_below shaped.here] at other
      exact (other.of_order shaped).2.symm
    | member has i m there =>
      rw [mem_below shaped.here] at other
      obtain ⟨-, m', there', value⟩ := other.of_member shaped
      obtain rfl := Option.some.inj (there.symm.trans there')
      exact value.symm
    | child no c inside _ _ deeper =>
      rw [mem_below_child shaped no inside] at other
      exact ih (shaped.child inside) deeper other

theorem below_some (e : Tree) (shaped : ShapedTree e) : ∃ p, p ∈ below e := by
  by_cases has : hasMember e
  · have ⟨c, member, _⟩ := has
    obtain ⟨i, there⟩ := List.mem_iff_getElem?.mp member
    exact ⟨_, (mem_below shaped.here).mpr (.member has i c there)⟩
  · cases shape : e.children with
    | nil => exact ⟨_, (mem_below shaped.here).mpr (.leaf shape)⟩
    | cons c rest =>
      have inside : c ∈ e.children := shape ▸ List.mem_cons_self
      have smaller : sizeOf c < sizeOf e := by
        cases e with
        | node tag attrs text children =>
          have := List.sizeOf_lt_of_mem inside
          simp only [Xml.children] at this
          simp only [Xml.node.sizeOf_spec]
          omega
      obtain ⟨p, deeper⟩ := below_some c (shaped.child inside)
      exact ⟨_, (mem_below shaped.here).mpr (.child has c inside p.1 p.2 deeper)⟩
termination_by sizeOf e

/-! ### Trees with the same keys -/

theorem alike_iff : Alike strict c r ↔ r.tag = c.tag ∧ r.attrs = c.attrs ∧ strip (r.text.getD []) = strip (c.text.getD []) ∧
    ∃ order, order.Perm r.children ∧ List.Forall₂ (Alike strict) c.children order ∧ (hasMember r → order = r.children) ∧
      (c.tag = rulesTag → entryNames order = entryNames r.children ∧ (strict → order = r.children)) := by
  cases c
  rw [Alike]
  simp only [allAlike_iff]
  rfl

theorem entryNames_congr (same : List.Forall₂ (fun c d => c.tag = d.tag ∧ c.attrs = d.attrs) cs ds) :
    entryNames cs = entryNames ds := by
  induction same with
  | nil => rfl
  | cons here _ ih =>
    obtain ⟨tag, attrs⟩ := here
    unfold entryNames at ih ⊢
    rw [List.filter_cons, List.filter_cons, tag]
    split
    · rw [List.map_cons, List.map_cons, ih, Xml.get, Xml.get, attrs]
    · exact ih

theorem matched_order {R : Tree → Tree → Prop} (nodup : (cs.map label).Nodup)
    (unique : ∀ d ∈ ds, ∀ d' ∈ ds, label d = label d' → d = d') (nodup' : ds.Nodup)
    (forth : ∀ c ∈ cs, ∃ d ∈ ds, label c = label d ∧ R c d) (back : ∀ d ∈ ds, ∃ c ∈ cs, label c = label d) :
    ∃ order, order.Perm ds ∧ List.Forall₂ R cs order := by
  have paired : ∀ cs : List Tree, (∀ c ∈ cs, ∃ d ∈ ds, label c = label d ∧ R c d) →
      ∃ order, (∀ d ∈ order, d ∈ ds) ∧ List.Forall₂ (fun c d => label c = label d ∧ R c d) cs order := by
    intro cs
    induction cs with
    | nil => exact fun _ => ⟨[], fun _ member => absurd member List.not_mem_nil, .nil⟩
    | cons c rest ih =>
      intro forth
      obtain ⟨d, member, same, related⟩ := forth c List.mem_cons_self
      obtain ⟨order, inside, all⟩ := ih fun x there => forth x (List.mem_cons_of_mem c there)
      exact ⟨d :: order, List.forall_mem_cons.mpr ⟨member, inside⟩, .cons ⟨same, related⟩ all⟩
  obtain ⟨order, inside, all⟩ := paired cs forth
  have labels : cs.map label = order.map label := by
    clear nodup forth back
    induction all with
    | nil => rfl
    | cons here _ ih => rw [List.map_cons, List.map_cons, here.1, ih fun d member => inside d (List.mem_cons_of_mem _ member)]
  have distinct : order.Nodup := (labels ▸ nodup).of_map _
  refine ⟨order, (List.perm_ext_iff_of_nodup distinct nodup').mpr fun d => ⟨inside d, fun member => ?_⟩, all.imp fun _ _ pair => pair.2⟩
  obtain ⟨c, there, same⟩ := back d member
  have found : label d ∈ order.map label := labels ▸ same ▸ List.mem_map_of_mem there
  obtain ⟨d', member', same'⟩ := List.mem_map.mp found
  exact unique d' (inside d' member') d member same' ▸ member'

theorem sizeOf_child {e c : Tree} (inside : c ∈ e.children) : sizeOf c < sizeOf e := by
  cases e with
  | node tag attrs text children =>
    have smaller := List.sizeOf_lt_of_mem inside
    simp only [Xml.children] at smaller
    simp only [Xml.node.sizeOf_spec]
    omega

theorem labels_nodup (shaped : ShapedTree e) (no : ¬hasMember e) : (e.children.map label).Nodup :=
  List.Nodup.map_on (fun _ member _ member' same => sibling_eq shaped no member member' same) (children_nodup shaped.here no)

section same

variable (left : ShapedTree c) (right : ShapedTree r) (keys : ∀ p, p ∈ below c ↔ p ∈ below r)

include left right keys

theorem members_of_keys (has : hasMember c) {i : Nat} {m : Tree} (there : c.children[i]? = some m) :
    hasMember r ∧ ∃ m', r.children[i]? = some m' ∧ strip (m.text.getD []) = strip (m'.text.getD []) :=
  ((mem_below right.here).mp ((keys _).mp ((mem_below left.here).mpr (.member has i m there)))).of_member right

theorem hasMember_of_keys (has : hasMember c) : hasMember r := by
  have ⟨m, member, _⟩ := has
  obtain ⟨i, there⟩ := List.mem_iff_getElem?.mp member
  exact (members_of_keys left right keys has there).1

theorem leaf_of_keys (empty : c.children = []) : r.children = [] ∧ strip (c.text.getD []) = strip (r.text.getD []) :=
  ((mem_below right.here).mp ((keys _).mp ((mem_below left.here).mpr (.leaf empty)))).of_leaf

theorem order_of_keys (rules : c.tag = rulesTag) : entryNames c.children = entryNames r.children :=
  dumps_inj (((mem_below right.here).mp ((keys _).mp ((mem_below left.here).mpr (.order rules)))).of_order right).2

theorem child_of_keys (no : ¬hasMember c) {d : Tree} (inside : d ∈ c.children) :
    ∃ d' ∈ r.children, label d = label d' ∧ ∀ p, p ∈ below d ↔ p ∈ below d' := by
  obtain ⟨p, deeper⟩ := below_some d (left.child inside)
  have given := (mem_below right.here).mp ((keys _).mp ((mem_below left.here).mpr (.child no d inside p.1 p.2 deeper)))
  obtain ⟨no', d', inside', same, -⟩ := given.of_child (left.child inside).here
  refine ⟨d', inside', same, fun q => ?_⟩
  have own : (label d :: q.1, q.2) ∈ below c ↔ (q.1, q.2) ∈ below d := mem_below_child left no inside
  have other : (label d' :: q.1, q.2) ∈ below r ↔ (q.1, q.2) ∈ below d' := mem_below_child right no' inside'
  rw [← same] at other
  exact own.symm.trans ((keys _).trans other)

end same

theorem alike_of_below (c r : Tree) (left : ShapedTree c) (right : ShapedTree r) (same : label c = label r)
    (keys : ∀ p, p ∈ below c ↔ p ∈ below r) : Alike False c r := by
  obtain ⟨tag, attrs⟩ := label_inj left.here right.here same
  rw [alike_iff]
  refine ⟨tag.symm, attrs.symm, ?_⟩
  have keys' := fun p => (keys p).symm
  by_cases has : hasMember c
  · have has' := hasMember_of_keys left right keys has
    have some' {e : Tree} (has : hasMember e) : e.children ≠ [] := by
      obtain ⟨m, member, -⟩ := has
      exact List.ne_nil_of_mem member
    have blank : strip (r.text.getD []) = strip (c.text.getD []) := by
      rw [left.here.text (some' has), right.here.text (some' has')]
    refine ⟨blank, r.children, .refl _, ?_, fun _ => rfl, fun _ => ⟨rfl, fun strict => strict.elim⟩⟩
    refine List.forall₂_iff_get.mpr ⟨?_, fun i inside inside' => ?_⟩
    · refine Nat.le_antisymm (Nat.le_of_not_lt fun more => ?_) (Nat.le_of_not_lt fun more => ?_)
      · obtain ⟨-, m, there, -⟩ := members_of_keys left right keys has (List.getElem?_eq_getElem more)
        exact absurd (List.getElem?_eq_some_iff.mp there).1 (Nat.lt_irrefl _)
      · obtain ⟨-, m, there, -⟩ := members_of_keys right left keys' has' (List.getElem?_eq_getElem more)
        exact absurd (List.getElem?_eq_some_iff.mp there).1 (Nat.lt_irrefl _)
    · obtain ⟨-, m, there, text⟩ := members_of_keys left right keys has (List.getElem?_eq_getElem inside)
      obtain ⟨_, rfl⟩ := List.getElem?_eq_some_iff.mp there
      obtain ⟨member, bare⟩ := left.here.members has _ (List.getElem_mem inside)
      obtain ⟨member', bare'⟩ := right.here.members has' _ (List.getElem_mem inside')
      have other : memberTag ≠ entryTag := by decide
      have attrs := (left.child (List.getElem_mem inside)).here.bare (member ▸ other)
      have attrs' := (right.child (List.getElem_mem inside')).here.bare (member' ▸ other)
      rw [alike_iff]
      refine ⟨member'.trans member.symm, attrs'.trans attrs.symm, text.symm, [], ?_⟩
      simp only [List.get_eq_getElem]
      rw [bare, bare']
      exact ⟨.refl _, .nil, fun _ => rfl, fun _ => ⟨rfl, fun strict => strict.elim⟩⟩
  · have no' : ¬hasMember r := fun has' => has (hasMember_of_keys right left keys' has')
    by_cases empty : c.children = []
    · obtain ⟨empty', text⟩ := leaf_of_keys left right keys empty
      rw [empty, empty']
      exact ⟨text.symm, [], .refl _, .nil, fun _ => rfl, fun _ => ⟨rfl, fun strict => strict.elim⟩⟩
    · have some' : r.children ≠ [] := fun empty' => empty (leaf_of_keys right left keys' empty').1
      have alike : ∀ d ∈ c.children, ∃ d' ∈ r.children, label d = label d' ∧
          (Alike False d d' ∧ d.tag = d'.tag ∧ d.attrs = d'.attrs) := by
        intro d inside
        have smaller := sizeOf_child inside
        obtain ⟨d', inside', same, keys⟩ := child_of_keys left right keys has inside
        have deeper := alike_of_below d d' (left.child inside) (right.child inside') same keys
        exact ⟨d', inside', same, deeper, label_inj (left.child inside).here (right.child inside').here same⟩
      have back : ∀ d' ∈ r.children, ∃ d ∈ c.children, label d = label d' := by
        intro d' inside'
        obtain ⟨d, inside, same, -⟩ := child_of_keys right left keys' no' inside'
        exact ⟨d, inside, same.symm⟩
      obtain ⟨order, perm, all⟩ := matched_order (labels_nodup left has) (fun d member d' member' => sibling_eq right no' member member')
        (children_nodup right.here no') alike back
      refine ⟨by rw [left.here.text empty, right.here.text some'], order, perm, all.imp fun _ _ pair => pair.1,
        fun has' => absurd has' no', fun rules => ⟨?_, fun strict => strict.elim⟩⟩
      rw [← entryNames_congr (all.imp fun _ _ pair => pair.2)]
      exact order_of_keys left right keys rules
termination_by sizeOf c

theorem forall₂_pairs {R : Tree → Tree → Prop} (all : List.Forall₂ R cs ds) :
    (∀ c ∈ cs, ∃ d ∈ ds, R c d) ∧ ∀ d ∈ ds, ∃ c ∈ cs, R c d := by
  induction all with
  | nil => exact ⟨fun _ member => absurd member List.not_mem_nil, fun _ member => absurd member List.not_mem_nil⟩
  | @cons c d cs ds here _ ih =>
    obtain ⟨forth, back⟩ := ih
    constructor
    · refine List.forall_mem_cons.mpr ⟨⟨d, List.mem_cons_self, here⟩, fun c member => ?_⟩
      obtain ⟨d', member', pair⟩ := forth c member
      exact ⟨d', List.mem_cons_of_mem d member', pair⟩
    · refine List.forall_mem_cons.mpr ⟨⟨c, List.mem_cons_self, here⟩, fun d member => ?_⟩
      obtain ⟨c', member', pair⟩ := back d member
      exact ⟨c', List.mem_cons_of_mem c member', pair⟩

theorem alike_own (same : Alike strict c r) : r.tag = c.tag ∧ r.attrs = c.attrs ∧ strip (r.text.getD []) = strip (c.text.getD []) := by
  obtain ⟨tag, attrs, text, -⟩ := alike_iff.mp same
  exact ⟨tag, attrs, text⟩

theorem below_of_alike (c r : Tree) (left : ShapedTree c) (right : ShapedTree r) (same : Alike False c r) (p : List Text × Text) :
    p ∈ below c ↔ p ∈ below r := by
  obtain ⟨tag, -, text, order, perm, all, members, rules⟩ := alike_iff.mp same
  obtain ⟨forth, back⟩ := forall₂_pairs all
  have has : hasMember c ↔ hasMember r := by
    constructor
    · rintro ⟨m, member, tag⟩
      obtain ⟨d, there, pair⟩ := forth m member
      exact ⟨d, perm.mem_iff.mp there, (alike_own pair).1.trans tag⟩
    · rintro ⟨m, member, tag⟩
      obtain ⟨d, there, pair⟩ := back m (perm.mem_iff.mpr member)
      exact ⟨d, there, (alike_own pair).1.symm.trans tag⟩
  have empty : c.children = [] ↔ r.children = [] := by
    rw [← List.length_eq_zero_iff, ← List.length_eq_zero_iff, all.length_eq, perm.length_eq]
  have names : List.Forall₂ (fun c d => c.tag = d.tag ∧ c.attrs = d.attrs) c.children order :=
    all.imp fun _ _ pair => ⟨(alike_own pair).1.symm, (alike_own pair).2.1.symm⟩
  obtain ⟨ps, v⟩ := p
  rw [mem_below left.here, mem_below right.here]
  constructor
  · intro gives
    cases gives with
    | order here =>
      rw [entryNames_congr names, (rules here).1]
      exact .order (tag.trans here)
    | member has' i m there =>
      rw [members (has.mp has')] at all
      obtain ⟨inside, rfl⟩ := List.getElem?_eq_some_iff.mp there
      obtain ⟨lengths, pairs⟩ := List.forall₂_iff_get.mp all
      have pair := pairs i inside (lengths ▸ inside)
      simp only [List.get_eq_getElem] at pair
      rw [← (alike_own pair).2.2]
      exact .member (has.mp has') i _ (List.getElem?_eq_getElem (lengths ▸ inside))
    | leaf none' =>
      rw [← text]
      exact .leaf (empty.mp none')
    | child no d inside qs _ deeper =>
      have smaller := sizeOf_child inside
      obtain ⟨d', there, pair⟩ := forth d inside
      have inside' := perm.mem_iff.mp there
      have own := alike_own pair
      rw [label_of_same own.1.symm own.2.1.symm]
      exact .child (fun has' => no (has.mpr has')) d' inside' qs v
        ((below_of_alike d d' (left.child inside) (right.child inside') pair (qs, v)).mp deeper)
  · intro gives
    cases gives with
    | order here =>
      rw [← (rules (tag.symm.trans here)).1, ← entryNames_congr names]
      exact .order (tag.symm.trans here)
    | member has' i m there =>
      rw [members has'] at all
      obtain ⟨inside, rfl⟩ := List.getElem?_eq_some_iff.mp there
      obtain ⟨lengths, pairs⟩ := List.forall₂_iff_get.mp all
      have pair := pairs i (lengths ▸ inside) inside
      simp only [List.get_eq_getElem] at pair
      rw [(alike_own pair).2.2]
      exact .member (has.mpr has') i _ (List.getElem?_eq_getElem (lengths ▸ inside))
    | leaf none' =>
      rw [text]
      exact .leaf (empty.mpr none')
    | child no d' inside' qs _ deeper =>
      obtain ⟨d, inside, pair⟩ := back d' (perm.mem_iff.mpr inside')
      have smaller := sizeOf_child inside
      have own := alike_own pair
      rw [← label_of_same own.1.symm own.2.1.symm]
      exact .child (fun has' => no (has.mp has')) d inside qs v
        ((below_of_alike d d' (left.child inside) (right.child inside') pair (qs, v)).mpr deeper)
termination_by sizeOf c

/-! ### Keys as they are printed -/

theorem extend_ne_nil {above l : Text} (full : l ≠ []) : extend above l ≠ [] := by
  unfold extend
  split
  · exact full
  · simp

theorem extend_full {above : Text} (full : above ≠ []) (l : Text) : extend above l = above ++ '.' :: l := if_neg full

theorem memberKey_eq (path : Text) (i : Nat) : memberKey path i = path ++ '.' :: memberPart i := by
  have dotted : ".member[".toList = '.' :: "member[".toList := by decide
  unfold memberKey memberPart
  rw [dotted]
  simp only [List.append_assoc, List.cons_append]

theorem foldl_printed (above l : Text) (ps : List Text) : (l :: ps).foldl extend above = ps.foldl extend (extend above l) := rfl

theorem collectPaths_eq (e : Tree) (shaped : ShapedTree e) (above : Text) :
    collectPaths dumps e above = (below e).map fun p => printed above (label e :: p.1, p.2) := by
  have full : extend above (label e) ≠ [] := extend_ne_nil (label_full shaped.here)
  have order : orderOf dumps e (extend above (label e)) = (orderBelow e).map fun p => printed above (label e :: p.1, p.2) := by
    unfold orderOf orderBelow
    split
    · rw [List.map_cons, List.map_nil, printed, foldl_printed, List.foldl_cons, List.foldl_nil, extend_full full]
      rfl
    · rfl
  have all : ∀ cs : List Tree, (∀ c ∈ cs, sizeOf c < sizeOf e ∧ ShapedTree c) → ∀ path : Text,
      collectAll dumps cs path = (allBelow cs).map fun p => printed path p := by
    intro cs
    induction cs with
    | nil => exact fun _ _ => rfl
    | cons c rest ih =>
      intro each path
      obtain ⟨⟨smaller, child⟩, later⟩ := List.forall_mem_cons.mp each
      rw [collectAll, allBelow, List.map_append, collectPaths_eq c child, ih later, List.map_map]
      rfl
  have shape : collectPaths dumps e above = orderOf dumps e (extend above (label e)) ++
      if isMemberList e then (e.findall memberTag).mapIdx fun i m => (memberKey (extend above (label e)) i, strip (m.text.getD []))
      else if e.children = [] then [(extend above (label e), strip (e.text.getD []))]
      else collectAll dumps e.children (extend above (label e)) := by
    cases e
    rw [collectPaths]
    rfl
  rw [shape, below_eq, List.map_append, order]
  congr 1
  split
  · refine List.ext_getElem? fun i => ?_
    rw [List.getElem?_mapIdx, List.getElem?_map, List.getElem?_mapIdx, Option.map_map]
    refine Option.map_congr fun m _ => ?_
    rw [memberKey_eq, ← extend_full full]
    rfl
  · split
    · rfl
    · rw [all e.children fun c inside => ⟨sizeOf_child inside, shaped.child inside⟩]
      rfl
termination_by sizeOf e

theorem label_whole' (shaped : ShapedElement e) (plain : '.' ∉ e.tag) : Whole (label e) := by
  rcases shaped.label_cases with ⟨name, -, -, quiet, shown⟩ | ⟨-, -, shown⟩
  · exact shown ▸ entryLabel_whole quiet
  · rw [shown]
    refine PlainTag.whole ⟨shaped.full, fun c member => ⟨?_, (shaped.letters c member).1, (shaped.letters c member).2.1⟩⟩
    rintro rfl
    exact plain member

theorem memberPart_whole (i : Nat) : Whole (memberPart i) := by
  have digits : ∀ c ∈ Nat.toDigits 10 i, c ≠ '[' ∧ c ≠ ']' := by
    intro c member
    have digit := Nat.isDigit_of_mem_toDigits (by decide) (by decide) member
    constructor
    · rintro rfl
      exact absurd digit (by decide)
    · rintro rfl
      exact absurd digit (by decide)
  have split : memberPart i = "member".toList ++ '[' :: (Nat.toDigits 10 i ++ [']']) := by
    have word : "member[".toList = "member".toList ++ ['['] := by decide
    unfold memberPart
    rw [word]
    simp only [List.append_assoc, List.cons_append, List.nil_append]
  rw [split]
  exact bracketed_whole (List.all_iff_forall_prop.mp (by decide)) (List.all_iff_forall_prop.mp (by decide)) digits

theorem orderPart_whole : Whole orderPart :=
  PlainTag.whole ⟨by decide, List.all_iff_forall_prop.mp (by decide)⟩

theorem below_whole (shaped : ShapedTree e) (plain : Undotted e) (key : (ps, v) ∈ below e) : ∀ p ∈ ps, Whole p := by
  induction ps generalizing e with
  | nil => exact fun _ member => absurd member List.not_mem_nil
  | cons part rest ih =>
    rw [mem_below shaped.here] at key
    cases key with
    | order => exact List.forall_mem_singleton.mpr orderPart_whole
    | member _ i => exact List.forall_mem_singleton.mpr (memberPart_whole i)
    | child no c inside _ _ deeper =>
      have here := label_whole' (shaped.child inside).here (plain.child inside [] c rfl)
      exact List.forall_mem_cons.mpr ⟨here, ih (shaped.child inside) (plain.child inside) deeper⟩

theorem splits_foldl {path : Text} {parts ps : List Text} (before : Splits path parts) (whole : ∀ p ∈ ps, Whole p) :
    Splits (ps.foldl extend path) (parts ++ ps) := by
  induction ps generalizing path parts with
  | nil =>
    rw [List.append_nil]
    exact before
  | cons p rest ih =>
    obtain ⟨here, later⟩ := List.forall_mem_cons.mp whole
    have further := ih (before.extend here) later
    rw [List.append_assoc] at further
    exact further

theorem printed_split (shaped : ShapedTree e) (plain : Undotted e) (key : (ps, v) ∈ below e) :
    splitFrom (printed [] (label e :: ps, v)).1 0 [] = label e :: ps := by
  have start : Splits (extend [] (label e)) [label e] := (label_whole' shaped.here (plain [] e rfl)).splits
  exact (splits_foldl start (below_whole shaped plain key)).2.1

theorem mem_paths (shaped : ShapedTree e) {k v : Text} :
    (k, v) ∈ collectPaths dumps e [] ↔ ∃ ps, (ps, v) ∈ below e ∧ k = (printed [] (label e :: ps, v)).1 := by
  rw [collectPaths_eq e shaped, List.mem_map]
  constructor
  · rintro ⟨⟨ps, w⟩, key, same⟩
    cases same
    exact ⟨ps, key, rfl⟩
  · rintro ⟨ps, key, rfl⟩
    exact ⟨(ps, v), key, rfl⟩

theorem lookup_pathsOf (shaped : ShapedTree e) (plain : Undotted e) {k v : Text} :
    (pathsOf e).lookup k = some v ↔ ∃ ps, (ps, v) ∈ below e ∧ k = (printed [] (label e :: ps, v)).1 := by
  rw [← mem_paths shaped]
  refine Dict.lookup_ofItems fun k v v' one other => ?_
  obtain ⟨ps, key, rfl⟩ := (mem_paths shaped).mp one
  obtain ⟨ps', key', same⟩ := (mem_paths shaped).mp other
  have split := printed_split shaped plain key
  rw [same, printed_split shaped plain key'] at split
  obtain ⟨-, rfl⟩ := List.cons.inj split
  exact below_functional shaped key key'

theorem pathsOf_same (left : ShapedTree c) (right : ShapedTree r) (plain : Undotted c) (plain' : Undotted r) :
    (∀ k, (pathsOf c).lookup k = (pathsOf r).lookup k) ↔ label c = label r ∧ ∀ p, p ∈ below c ↔ p ∈ below r := by
  constructor
  · intro same
    have key {e e' : Tree} (left : ShapedTree e) (right : ShapedTree e') (plain : Undotted e) (plain' : Undotted e')
        (same : ∀ k, (pathsOf e).lookup k = (pathsOf e').lookup k) {ps : List Text} {v : Text} (there : (ps, v) ∈ below e) :
        label e = label e' ∧ (ps, v) ∈ below e' := by
      have found := (lookup_pathsOf left plain).mpr ⟨ps, there, rfl⟩
      rw [same, lookup_pathsOf right plain'] at found
      obtain ⟨ps', there', equal⟩ := found
      have split := printed_split left plain there
      rw [equal, printed_split right plain' there'] at split
      obtain ⟨labels, rfl⟩ := List.cons.inj split
      exact ⟨labels.symm, there'⟩
    obtain ⟨p, there⟩ := below_some c left
    exact ⟨(key left right plain plain' same there).1, fun q => ⟨fun there => (key left right plain plain' same there).2,
      fun there => (key right left plain' plain (fun k => (same k).symm) there).2⟩⟩
  · rintro ⟨labels, keys⟩ k
    refine Option.ext fun v => ?_
    rw [lookup_pathsOf left plain, lookup_pathsOf right plain', labels]
    exact exists_congr fun ps => and_congr_left fun _ => keys (ps, v)

end keys

theorem hasChanges_iff (candidate running : Tree) :
    (diff candidate running).hasChanges = false ↔ ∀ k, (pathsOf candidate).lookup k = (pathsOf running).lookup k := by
  have keys {k : Text} : k ∈ ((((pathsOf candidate).items ++ (pathsOf running).items).map Prod.fst).dedup.insertionSort (· ≤ ·)) ↔
      ((pathsOf candidate).lookup k).isSome ∨ ((pathsOf running).lookup k).isSome := by
    simp only [List.mem_insertionSort, List.mem_dedup, List.mem_map, List.mem_append, Option.isSome_iff_exists, ← Dict.mem_items]
    constructor
    · rintro ⟨⟨k, v⟩, one | other, rfl⟩
      · exact .inl ⟨v, one⟩
      · exact .inr ⟨v, other⟩
    · rintro (⟨v, one⟩ | ⟨v, other⟩)
      · exact ⟨(k, v), .inl one, rfl⟩
      · exact ⟨(k, v), .inr other, rfl⟩
  unfold Diff.hasChanges diff
  simp only [Bool.not_eq_false', Bool.and_eq_true, List.isEmpty_iff, List.filterMap_eq_nil_iff, keys]
  constructor
  · rintro ⟨⟨added, modified⟩, removed⟩ k
    cases one : (pathsOf candidate).lookup k with
    | none =>
      cases other : (pathsOf running).lookup k with
      | none => rfl
      | some v =>
        have gone := removed k (.inr (by rw [other]; rfl))
        rw [one, other] at gone
        cases gone
    | some v =>
      cases other : (pathsOf running).lookup k with
      | none =>
        have new := added k (.inl (by rw [one]; rfl))
        rw [one, other] at new
        cases new
      | some w =>
        have changed := modified k (.inl (by rw [one]; rfl))
        rw [one, other] at changed
        dsimp only at changed
        split at changed
        · cases changed
        · rename_i equal
          rw [not_not.mp equal]
  · intro same
    refine ⟨⟨fun k _ => ?_, fun k _ => ?_⟩, fun k _ => ?_⟩
    all_goals
      rw [same k]
      cases (pathsOf running).lookup k <;> simp

/-- Of trees without dots in their tags the diff reports no changes exactly if they are alike; a commit then answers that there are
no changes exactly if the promotion would change nothing. -/
theorem diff_misses_nothing {candidate running : Tree} (shaped : ShapedTree candidate) (shaped' : ShapedTree running)
    (plain : Undotted candidate) (plain' : Undotted running) :
    ((diff candidate running).hasChanges = false ↔ Alike False candidate running) ∧
    ∀ refused xpath whole, prepared xpath whole running = .ok candidate → refused candidate = none →
      (commit refused xpath whole running = .noChanges ↔ Alike False candidate running) := by
  have reported : (diff candidate running).hasChanges = false ↔ Alike False candidate running := by
    rw [hasChanges_iff, pathsOf_same shaped shaped' plain plain']
    constructor
    · exact fun same => alike_of_below candidate running shaped shaped' same.1 same.2
    · intro alike
      have own := alike_own alike
      exact ⟨label_of_same own.1.symm own.2.1.symm, below_of_alike candidate running shaped shaped' alike⟩
  refine ⟨reported, fun refused xpath whole scope supported => ?_⟩
  rw [← reported]
  unfold commit
  rw [scope]
  dsimp only
  rw [supported]
  dsimp only
  cases (diff candidate running).hasChanges <;> simp

/-! ### Trees that the diff does not tell apart -/

theorem shaped_node {e : Tree} (own : ShapedElement e) (children : ∀ c ∈ e.children, ShapedTree c) : ShapedTree e := by
  intro p x found
  cases p with
  | nil =>
    cases found
    exact own
  | cons i rest =>
    obtain ⟨c, there, below⟩ := Xml.sub_cons_some found
    exact children c (List.mem_of_getElem? there) rest x below

theorem shaped_leaf {tag text : String} (full : tag.toList ≠ []) (letters : ∀ c ∈ tag.toList, c ≠ '[' ∧ c ≠ ']' ∧ c ≠ '@')
    (other : tag.toList ≠ entryTag) : ShapedTree (leaf tag text) := by
  refine shaped_node ?_ fun _ member => absurd member List.not_mem_nil
  exact ⟨full, letters, fun entry => absurd entry other, fun _ => rfl, fun some' => absurd rfl some',
    fun ⟨_, member, _⟩ => absurd member List.not_mem_nil,
    List.nodup_nil, fun entry => absurd entry other⟩

theorem shaped_entry {name : String} (quiet : ∀ c ∈ name.toList, c ≠ '[' ∧ c ≠ ']') : ShapedTree (entryNode name []) := by
  refine shaped_node ?_ fun _ member => absurd member List.not_mem_nil
  have full : entryTag ≠ [] := by decide
  have letters : ∀ c ∈ entryTag, c ≠ '[' ∧ c ≠ ']' ∧ c ≠ '@' := List.all_iff_forall_prop.mp (by decide)
  exact ⟨full, letters, fun _ => ⟨_, rfl, quiet⟩, fun other => absurd rfl other, fun some' => absurd rfl some',
    fun ⟨_, member, _⟩ => absurd member List.not_mem_nil, List.nodup_nil, fun _ _ member => absurd member List.not_mem_nil⟩

theorem shaped_branch {tag : String} {children : List Tree} (full : tag.toList ≠ [])
    (letters : ∀ c ∈ tag.toList, c ≠ '[' ∧ c ≠ ']' ∧ c ≠ '@')
    (other : tag.toList ≠ entryTag) (noMember : ∀ c ∈ children, c.tag ≠ memberTag)
    (keys : ((children.filter (·.tag ≠ memberTag)).map keyOf).Nodup)
    (each : ∀ c ∈ children, ShapedTree c) : ShapedTree (treeNode tag children) :=
  shaped_node ⟨full, letters, fun entry => absurd entry other, fun _ => rfl, fun _ => rfl,
    fun ⟨c, member, tag⟩ => absurd tag (noMember c member), keys, fun entry => absurd entry other⟩ each

def nestedTag : Tree := treeNode "config" [treeNode "a" [leaf "b" "x"]]

def noteLast : Tree := treeNode "rules" [entryNode "r" [], leaf "note" "x"]

def noteFirst : Tree := treeNode "rules" [leaf "note" "x", entryNode "r" []]

theorem dottedTag_shaped : ShapedTree dottedTag :=
  shaped_branch (by decide) (List.all_iff_forall_prop.mp (by decide)) (by decide) (by decide) (by decide) (List.forall_mem_singleton.mpr
    (shaped_leaf (by decide) (List.all_iff_forall_prop.mp (by decide)) (by decide)))

theorem nestedTag_shaped : ShapedTree nestedTag := by
  have inner : ShapedTree (treeNode "a" [leaf "b" "x"]) :=
    shaped_branch (by decide) (List.all_iff_forall_prop.mp (by decide)) (by decide) (by decide) (by decide)
      (List.forall_mem_singleton.mpr
      (shaped_leaf (by decide) (List.all_iff_forall_prop.mp (by decide)) (by decide)))
  exact shaped_branch (by decide) (List.all_iff_forall_prop.mp (by decide)) (by decide) (by decide)
    (by decide) (List.forall_mem_singleton.mpr inner)

theorem notes_shaped : ShapedTree noteLast ∧ ShapedTree noteFirst := by
  have entry : ShapedTree (entryNode "r" []) := shaped_entry (List.all_iff_forall_prop.mp (by decide))
  have note : ShapedTree (leaf "note" "x") := shaped_leaf (by decide) (List.all_iff_forall_prop.mp (by decide)) (by decide)
  have letters : ∀ c ∈ "rules".toList, c ≠ '[' ∧ c ≠ ']' ∧ c ≠ '@' := List.all_iff_forall_prop.mp (by decide)
  constructor
  · exact shaped_branch (by decide) letters (by decide) (by decide) (by decide)
      (List.forall_mem_cons.mpr ⟨entry, List.forall_mem_singleton.mpr note⟩)
  · exact shaped_branch (by decide) letters (by decide) (by decide) (by decide)
      (List.forall_mem_cons.mpr ⟨note, List.forall_mem_singleton.mpr entry⟩)

theorem undotted_notes : Undotted noteLast ∧ Undotted noteFirst := by
  have plain {e : Tree} (own : '.' ∉ e.tag) (children : ∀ c ∈ e.children, '.' ∉ c.tag ∧ c.children = []) : Undotted e := by
    intro p x found
    cases p with
    | nil =>
      cases found
      exact own
    | cons i rest =>
      obtain ⟨c, there, below⟩ := Xml.sub_cons_some found
      obtain ⟨clean, empty⟩ := children c (List.mem_of_getElem? there)
      cases rest with
      | nil =>
        cases below
        exact clean
      | cons j rest =>
        obtain ⟨d, deeper, -⟩ := Xml.sub_cons_some below
        rw [empty] at deeper
        cases deeper
  constructor
  · exact plain (by decide) (List.forall_mem_cons.mpr ⟨⟨by decide, rfl⟩, List.forall_mem_singleton.mpr ⟨by decide, rfl⟩⟩)
  · exact plain (by decide) (List.forall_mem_cons.mpr ⟨⟨by decide, rfl⟩, List.forall_mem_singleton.mpr ⟨by decide, rfl⟩⟩)

/-- A note before or behind the rules is the same to the diff. -/
theorem note_moved : Alike False noteLast noteFirst :=
  (diff_misses_nothing notes_shaped.1 notes_shaped.2 undotted_notes.1 undotted_notes.2).1.mp (by decide +kernel)

/-- A dot in a tag is not told from a step, and of what stands in `rules` only the entries have an order. -/
theorem moves_missed :
    (ShapedTree dottedTag ∧ ShapedTree nestedTag ∧ (diff dottedTag nestedTag).hasChanges = false ∧ ¬Alike True dottedTag nestedTag) ∧
    (ShapedTree noteLast ∧ ShapedTree noteFirst ∧ (diff noteLast noteFirst).hasChanges = false ∧ ¬Alike True noteLast noteFirst) := by
  refine ⟨⟨dottedTag_shaped, nestedTag_shaped, by decide +kernel, fun alike => ?_⟩,
    ⟨notes_shaped.1, notes_shaped.2, by decide +kernel, fun alike => ?_⟩⟩
  · obtain ⟨-, -, -, order, perm, all, -⟩ := alike_iff.mp alike
    cases all with
    | cons here _ =>
      obtain ⟨tag, -⟩ := alike_iff.mp here
      have only := List.mem_singleton.mp (perm.mem_iff.mp List.mem_cons_self)
      rw [only] at tag
      exact absurd tag (by decide)
  · obtain ⟨-, -, -, order, -, all, -, rules⟩ := alike_iff.mp alike
    rw [(rules rfl).2 trivial] at all
    cases all with
    | cons here _ => exact absurd (alike_iff.mp here).1 (by decide)

end FfnNgfw.Config
