import FfnNgfw.Threatdb.Text

/-!
# Documents

The text of an element as the two standard writers write it, and how a parser reads it: what is
written is read as the same tree, up to its line ends and the blanks in its attributes.
-/

namespace FfnNgfw.Config.Saving
open Threatdb (Text)

/-- An element with its text and what stands behind it; an empty text is also what is missing. -/
inductive Element where
  | node (tag : Text) (attrs : List (Text × Text)) (text : Text) (children : List Element) (tail : Text)

namespace Element

def tag : Element → Text
  | node tag _ _ _ _ => tag

def attrs : Element → List (Text × Text)
  | node _ attrs _ _ _ => attrs

def text : Element → Text
  | node _ _ text _ _ => text

def children : Element → List Element
  | node _ _ _ children _ => children

def tail : Element → Text
  | node _ _ _ _ tail => tail

def withTail (tail : Text) : Element → Element
  | node tag attrs text children _ => node tag attrs text children tail

end Element

/-! ### Writing -/

def escape (c : Char) : Text :=
  if c = '&' then "&amp;".toList else if c = '<' then "&lt;".toList else if c = '>' then "&gt;".toList else [c]

/-- `_escape_attrib` -/
def escapeAttr (c : Char) : Text :=
  if c = '"' then "&quot;".toList
  else if c = '\r' then "&#13;".toList
  else if c = '\n' then "&#10;".toList
  else if c = '\t' then "&#09;".toList
  else escape c

/-- `_write_data`, as it is before Python 3.13: in an attribute too, blanks are written as they are. -/
def writeData (c : Char) : Text := if c = '"' then "&quot;".toList else escape c

/-- What the two writers do differently: the end of an element without content, and the characters of texts and attributes. -/
structure Style where
  emptyEnd : Text
  data : Char → Text
  attr : Char → Text

/-- `ElementTree.tostring` -/
def etStyle : Style := ⟨" />".toList, escape, escapeAttr⟩

/-- `minidom` -/
def domStyle : Style := ⟨"/>".toList, writeData, writeData⟩

def attrText (style : Style) (a : Text × Text) : Text := ' ' :: (a.1 ++ '=' :: '"' :: (a.2.flatMap style.attr ++ ['"']))

def openTag (style : Style) (e : Element) : Text := '<' :: (e.tag ++ e.attrs.flatMap (attrText style))

def closeTag (e : Element) : Text := '<' :: '/' :: (e.tag ++ ['>'])

mutual

def write (style : Style) : Element → Text
  | .node tag attrs text children tail =>
    let e : Element := .node tag attrs text children tail
    openTag style e ++ if text = [] ∧ children = [] then style.emptyEnd
      else '>' :: (text.flatMap style.data ++ (writeAll style children ++ closeTag e))

def writeAll (style : Style) : List Element → Text
  | [] => []
  | c :: rest => write style c ++ (c.tail.flatMap style.data ++ writeAll style rest)

end

def declaration : Text := "<?xml version=\"1.0\" encoding=\"utf-8\"?>".toList

def isBlank (c : Char) : Bool := c ∈ [' ', '\t', '\n', '\r', Char.ofNat 11, Char.ofNat 12]

/-! ### Reading -/

def newlines : Text → Text
  | [] => []
  | '\r' :: '\n' :: rest => '\n' :: newlines rest
  | '\r' :: rest => '\n' :: newlines rest
  | c :: rest => c :: newlines rest

def entities : List (Text × Char) :=
  [("amp;".toList, '&'), ("lt;".toList, '<'), ("gt;".toList, '>'), ("quot;".toList, '"'), ("#13;".toList, '\r'), ("#10;".toList, '\n'),
    ("#9;".toList, '\t'), ("#09;".toList, '\t')]

def decode : Nat → Text → Text
  | 0, s => s
  | _ + 1, [] => []
  | n + 1, c :: rest =>
    if c = '&' then
      match entities.find? fun e => e.1.isPrefixOf rest with
      | some e => e.2 :: decode n (rest.drop e.1.length)
      | none => c :: decode n rest
    else c :: decode n rest

def textValue (raw : Text) : Text := decode raw.length (newlines raw)

def spaced (raw : Text) : Text := (newlines raw).map fun c => if c = '\n' ∨ c = '\t' then ' ' else c

def attrValue (raw : Text) : Text := decode raw.length (spaced raw)

def isNameStart (c : Char) : Bool :=
  c.isAlpha || c = '_' || [(0xc0, 0xd6), (0xd8, 0xf6), (0xf8, 0x2ff), (0x370, 0x37d), (0x37f, 0x1fff),
    (0x200c, 0x200d), (0x2070, 0x218f),
    (0x2c00, 0x2fef), (0x3001, 0xd7ff), (0xf900, 0xfdcf), (0xfdf0, 0xfffd), (0x10000, 0xeffff)].any fun r =>
    r.1 ≤ c.toNat && c.toNat ≤ r.2

def isNameChar (c : Char) : Bool :=
  isNameStart c || c.isDigit || c = '-' || c = '.' || c.toNat = 0xb7 || (0x300 ≤ c.toNat && c.toNat ≤ 0x36f) || c.toNat =
    0x203f || c.toNat = 0x2040

def readAttrs : Nat → Text → List (Text × Text) × Text
  | n + 1, ' ' :: rest =>
    let name := rest.takeWhile isNameChar
    match name, rest.drop name.length with
    | _ :: _, '=' :: '"' :: body =>
      let raw := body.takeWhile (· ≠ '"')
      let later := readAttrs n (body.drop (raw.length + 1))
      ((name, attrValue raw) :: later.1, later.2)
    | _, _ => ([], ' ' :: rest)
  | _, s => ([], s)

mutual

def readElement : Nat → Text → Option (Element × Text)
  | n + 1, '<' :: rest =>
    let tag := rest.takeWhile isNameChar
    let attrs := readAttrs rest.length (rest.drop tag.length)
    match attrs.2 with
    | '/' :: '>' :: later => some (.node tag attrs.1 [] [] [], later)
    | ' ' :: '/' :: '>' :: later => some (.node tag attrs.1 [] [] [], later)
    | '>' :: later =>
      let raw := later.takeWhile (· ≠ '<')
      match readChildren n (later.drop raw.length) with
      | some (children, '<' :: '/' :: ending) =>
        if (tag ++ ['>']).isPrefixOf ending then some (.node tag attrs.1 (textValue raw) children [],
          ending.drop (tag.length + 1)) else none
      | _ => none
    | _ => none
  | _, _ => none

def readChildren : Nat → Text → Option (List Element × Text)
  | _, '<' :: '/' :: rest => some ([], '<' :: '/' :: rest)
  | n + 1, s =>
    match readElement n s with
    | some (c, later) =>
      let raw := later.takeWhile (· ≠ '<')
      match readChildren n (later.drop raw.length) with
      | some (rest, ending) => some (c.withTail (textValue raw) :: rest, ending)
      | none => none
    | none => none
  | 0, _ => none

end

/-- A document: the declaration, if there is one, and an element. -/
def readDocument (t : Text) : Option Element :=
  let body := if declaration.isPrefixOf t then (t.drop declaration.length).dropWhile isBlank else t
  match readElement body.length body with
  | some (e, rest) => if rest.all isBlank then some e else none
  | none => none

inductive Everywhere (P : Element → Prop) : Element → Prop where
  | intro {e : Element} (own : P e) (below : ∀ c ∈ e.children, Everywhere P c) : Everywhere P e

def IsName (name : Text) : Prop := (∃ c rest, name = c :: rest ∧ isNameStart c = true) ∧ ∀ c ∈ name, isNameChar c = true

/-- `text_ok` -/
def TextOk (s : Text) : Prop :=
  ∀ c ∈ s, c = '\n' ∨ c = '\r' ∨ c = '\t' ∨ (32 ≤ c.toNat ∧ c.toNat ≤ 0xd7ff) ∨ (0xe000 ≤ c.toNat ∧ c.toNat ≤ 0xfffd) ∨
    (0x10000 ≤ c.toNat ∧ c.toNat ≤ 0x10ffff)

instance TextOk.decidable (s : Text) : Decidable (TextOk s) := List.decidableBAll _ s

/-- What can be written: names, distinct attributes that declare no namespace, and admitted characters. -/
structure OwnWritable (e : Element) : Prop where
  tag : IsName e.tag
  names : ∀ a ∈ e.attrs, IsName a.1 ∧ a.1 ≠ "xmlns".toList
  distinct : (e.attrs.map Prod.fst).Nodup
  values : ∀ a ∈ e.attrs, TextOk a.2
  text : TextOk e.text
  tail : TextOk e.tail

mutual

/-- The tree with its line ends and its attributes as they are read. -/
def normal (value : Text → Text) : Element → Element
  | .node tag attrs text children tail =>
    .node tag (attrs.map fun a => (a.1, value a.2)) (newlines text) (normalAll value children) (newlines tail)

def normalAll (value : Text → Text) : List Element → List Element
  | [] => []
  | c :: rest => normal value c :: normalAll value rest

end

theorem normalAll_eq (value : Text → Text) (cs : List Element) : normalAll value cs = cs.map (normal value) := by
  induction cs with
  | nil => rfl
  | cons c rest ih => rw [normalAll, List.map_cons, ih]

/-! ### Reading what was written -/

section reading

variable {style : Style} {value : Text → Text} {encode : Char → Text} {s raw rest : Text}

def Decodes (encode : Char → Text) : Prop := ∀ c, (encode c = [c] ∧ c ≠ '&') ∨ ∃ name, (name, c) ∈ entities ∧ encode c = '&' :: name

structure Escapes (encode : Char → Text) : Prop where
  decodes : Decodes encode
  lt : encode '<' ≠ ['<']
  blank : ∀ c, isBlank c = true → encode c = [c]

variable {c : Char} {e : Element}

theorem find_entity {name : Text} (entity : (name, c) ∈ entities) (rest : Text) :
    entities.find? (fun e => e.1.isPrefixOf (name ++ rest)) = some (name, c) := by
  unfold entities at entity
  simp only [List.mem_cons, List.not_mem_nil, or_false, Prod.mk.injEq] at entity
  rcases entity with ⟨rfl, rfl⟩ | ⟨rfl, rfl⟩ | ⟨rfl, rfl⟩ | ⟨rfl, rfl⟩ | ⟨rfl, rfl⟩ | ⟨rfl, rfl⟩ | ⟨rfl, rfl⟩ | ⟨rfl, rfl⟩ <;> rfl

theorem decode_flatMap {encode : Char → Text} (decodes : Decodes encode) (s : Text) {n : Nat} (enough : s.length ≤ n) :
    decode n (s.flatMap encode) = s := by
  induction s generalizing n with
  | nil => cases n <;> rfl
  | cons c s ih =>
    cases n with
    | zero => cases enough
    | succ n =>
      have later := ih (Nat.le_of_succ_le_succ enough)
      rw [List.flatMap_cons]
      rcases decodes c with ⟨same, other⟩ | ⟨name, entity, written⟩
      · rw [same, List.singleton_append, decode, if_neg other, later]
      · rw [written, List.cons_append, decode, if_pos rfl, find_entity entity]
        dsimp only
        rw [List.drop_left, later]

theorem escape_decodes : Decodes escape := by
  intro c
  unfold escape
  split
  · rename_i same
    exact .inr ⟨"amp;".toList, by simp [entities, same], rfl⟩
  · rename_i other
    split
    · rename_i same
      exact .inr ⟨"lt;".toList, by simp [entities, same], rfl⟩
    · split
      · rename_i same
        exact .inr ⟨"gt;".toList, by simp [entities, same], rfl⟩
      · exact .inl ⟨rfl, other⟩

theorem writeData_decodes : Decodes writeData := by
  intro c
  unfold writeData
  split
  · rename_i same
    exact .inr ⟨"quot;".toList, by simp [entities, same], rfl⟩
  · exact escape_decodes c

theorem escapeAttr_decodes : Decodes escapeAttr := by
  intro c
  unfold escapeAttr
  split
  · rename_i same
    exact .inr ⟨"quot;".toList, by simp [entities, same], rfl⟩
  split
  · rename_i same
    exact .inr ⟨"#13;".toList, by simp [entities, same], rfl⟩
  split
  · rename_i same
    exact .inr ⟨"#10;".toList, by simp [entities, same], rfl⟩
  split
  · rename_i same
    exact .inr ⟨"#09;".toList, by simp [entities, same], rfl⟩
  · exact escape_decodes c

theorem isBlank_cases (blank : isBlank c = true) :
    c = ' ' ∨ c = '\t' ∨ c = '\n' ∨ c = '\r' ∨ c = Char.ofNat 11 ∨ c = Char.ofNat 12 := by
  unfold isBlank at blank
  simpa only [List.mem_cons, List.not_mem_nil, or_false, decide_eq_true_eq] using blank

theorem escape_escapes : Escapes escape := by
  refine ⟨escape_decodes, by decide, fun c blank => ?_⟩
  rcases isBlank_cases blank with rfl | rfl | rfl | rfl | rfl | rfl <;> rfl

theorem writeData_escapes : Escapes writeData := by
  refine ⟨writeData_decodes, by decide, fun c blank => ?_⟩
  rcases isBlank_cases blank with rfl | rfl | rfl | rfl | rfl | rfl <;> rfl

theorem decodes_ne_nil (decodes : Decodes encode) (c : Char) : encode c ≠ [] := by
  rcases decodes c with ⟨same, -⟩ | ⟨name, -, written⟩
  · rw [same]
    exact List.cons_ne_nil _ _
  · rw [written]
    exact List.cons_ne_nil _ _

theorem mem_encode (decodes : Decodes encode) {c d : Char} (member : d ∈ encode c) :
    (d = c ∧ encode c = [c]) ∨ d ∉ ['\n', '\r', '\t', ' ', '"', '<'] := by
  have names : ∀ e ∈ entities, ∀ d ∈ '&' :: e.1, d ∉ ['\n', '\r', '\t', ' ', '"', '<'] := by simp [entities]
  rcases decodes c with ⟨same, -⟩ | ⟨name, entity, written⟩
  · exact .inl ⟨List.mem_singleton.mp (same ▸ member), same⟩
  · exact .inr (names _ entity d (written ▸ member))

theorem lt_not_mem (escapes : Escapes encode) (s : Text) : '<' ∉ s.flatMap encode := by
  intro member
  obtain ⟨c, -, inside⟩ := List.mem_flatMap.mp member
  rcases mem_encode escapes.decodes inside with ⟨rfl, same⟩ | no
  · exact escapes.lt same
  · exact no (by simp)

theorem takeWhile_text (escapes : Escapes encode) (s rest : Text) :
    (s.flatMap encode ++ '<' :: rest).takeWhile (· ≠ '<') = s.flatMap encode := by
  have clean : ∀ c ∈ s.flatMap encode, decide (c ≠ '<') = true := by
    intro c member
    exact decide_eq_true fun same => lt_not_mem escapes s (same ▸ member)
  rw [List.takeWhile_append_of_pos clean, List.takeWhile_cons_of_neg (by decide), List.append_nil]

theorem length_le_flatMap {α : Type} {encode : α → Text} (solid : ∀ c, encode c ≠ []) (s : List α) :
    s.length ≤ (s.flatMap encode).length := by
  induction s with
  | nil => exact Nat.le_refl _
  | cons c s ih =>
    have one := List.length_pos_iff.mpr (solid c)
    rw [List.flatMap_cons, List.length_append, List.length_cons]
    omega

theorem newlines_length (s : Text) : (newlines s).length ≤ s.length := by
  induction s using newlines.induct with
  | case1 => exact Nat.le_refl _
  | case2 rest ih =>
    rw [newlines, List.length_cons, List.length_cons, List.length_cons]
    omega
  | case3 rest other ih =>
    rw [newlines.eq_3 _ other, List.length_cons, List.length_cons]
    omega
  | case4 c rest other other' ih =>
    rw [newlines.eq_4 c rest other other', List.length_cons, List.length_cons]
    omega

theorem newlines_append {x : Text} (none' : '\r' ∉ x) (s : Text) : newlines (x ++ s) = x ++ newlines s := by
  induction x with
  | nil => rfl
  | cons c x ih =>
    rw [List.mem_cons, not_or] at none'
    rw [List.cons_append, newlines.eq_4, ih none'.2, List.cons_append]
    · exact fun _ same _ => none'.1 same.symm
    · exact fun same => none'.1 same.symm

theorem newlines_same (none' : '\r' ∉ s) : newlines s = s := by
  have appended := newlines_append none' []
  rw [List.append_nil] at appended
  exact appended.trans (List.append_nil s)

theorem mem_blank (escapes : Escapes encode) {c d : Char} (line : d = '\n' ∨ d = '\r') (member : d ∈ encode c) : d = c := by
  rcases mem_encode escapes.decodes member with ⟨same, -⟩ | no
  · exact same
  · rcases line with rfl | rfl <;> exact absurd (by simp) no

theorem newlines_escape (escapes : Escapes encode) (s : Text) : newlines (s.flatMap encode) = (newlines s).flatMap encode := by
  have line : encode '\n' = ['\n'] := escapes.blank _ rfl
  have return' : encode '\r' = ['\r'] := escapes.blank _ rfl
  induction s using newlines.induct with
  | case1 => rfl
  | case2 rest ih =>
    rw [List.flatMap_cons, List.flatMap_cons, return', line]
    show newlines ('\r' :: '\n' :: rest.flatMap encode) = _
    rw [newlines, newlines, ih, List.flatMap_cons, line]
    rfl
  | case3 rest other ih =>
    have start : ∀ t, rest.flatMap encode ≠ '\n' :: t := by
      intro t same
      cases rest with
      | nil => cases same
      | cons d rest =>
        obtain ⟨x, xs, shape⟩ := List.exists_cons_of_ne_nil (decodes_ne_nil escapes.decodes d)
        rw [List.flatMap_cons, shape, List.cons_append] at same
        obtain rfl := (List.cons.inj same).1
        have equal : '\n' = d := mem_blank escapes (.inl rfl) (shape ▸ List.mem_cons_self)
        exact other rest (equal ▸ rfl)
    rw [List.flatMap_cons, return']
    show newlines ('\r' :: rest.flatMap encode) = _
    rw [newlines.eq_3 _ start, newlines.eq_3 _ other, ih, List.flatMap_cons, line]
    rfl
  | case4 c rest other other' ih =>
    have plain : '\r' ∉ encode c := by
      intro member
      obtain rfl := mem_blank escapes (.inr rfl) member
      exact other' rfl
    rw [newlines.eq_4 c rest other other', List.flatMap_cons, List.flatMap_cons, newlines_append plain, ih]

theorem text_value (escapes : Escapes encode) (s : Text) : textValue (s.flatMap encode) = newlines s := by
  rw [textValue, newlines_escape escapes]
  apply decode_flatMap escapes.decodes
  exact (newlines_length s).trans (length_le_flatMap (decodes_ne_nil escapes.decodes) s)

/-- A style whose texts are read again, its attributes with these values. -/
structure Readable (style : Style) (value : Text → Text) : Prop where
  emptyEnd : style.emptyEnd = "/>".toList ∨ style.emptyEnd = " />".toList
  data : Escapes style.data
  quote : ∀ c, '"' ∉ style.attr c
  attr : ∀ v, attrValue (v.flatMap style.attr) = value v

theorem quote_not_mem (decodes : Decodes encode) (escaped : encode '"' ≠ ['"']) (c : Char) : '"' ∉ encode c := by
  intro member
  rcases mem_encode decodes member with ⟨rfl, same⟩ | no
  · exact escaped same
  · exact no (by simp)

theorem etStyle_readable : Readable etStyle id := by
  refine ⟨.inr rfl, escape_escapes, quote_not_mem escapeAttr_decodes (by decide), fun v => ?_⟩
  have plain : ∀ d ∈ v.flatMap escapeAttr, d ≠ '\n' ∧ d ≠ '\t' ∧ d ≠ '\r' := by
    intro d member
    obtain ⟨c, -, inside⟩ := List.mem_flatMap.mp member
    rcases mem_encode escapeAttr_decodes inside with ⟨rfl, same⟩ | no
    · refine ⟨?_, ?_, ?_⟩ <;> rintro rfl <;> cases same
    · simp only [List.mem_cons, not_or] at no
      exact ⟨no.1, no.2.2.1, no.2.1⟩
  have same : spaced (v.flatMap escapeAttr) = v.flatMap escapeAttr := by
    rw [spaced, newlines_same fun member => (plain _ member).2.2 rfl]
    conv_rhs => rw [← List.map_id (v.flatMap escapeAttr)]
    apply List.map_congr_left
    intro d member
    exact if_neg fun blank => blank.elim (plain d member).1 (plain d member).2.1
  show attrValue (v.flatMap escapeAttr) = v
  rw [attrValue, same]
  exact decode_flatMap escapeAttr_decodes v (length_le_flatMap (decodes_ne_nil escapeAttr_decodes) v)

theorem domStyle_readable : Readable domStyle spaced := by
  refine ⟨.inl rfl, writeData_escapes, quote_not_mem writeData_decodes (by decide), fun v => ?_⟩
  show attrValue (v.flatMap writeData) = spaced v
  have later : ∀ s : Text, (s.flatMap writeData).map (fun c => if c = '\n' ∨ c = '\t' then ' ' else c) =
      (s.map fun c => if c = '\n' ∨ c = '\t' then ' ' else c).flatMap writeData := by
    intro s
    rw [List.map_flatMap, List.flatMap_map]
    congr 1
    funext c
    by_cases blank : c = '\n' ∨ c = '\t'
    · rw [if_pos blank]
      rcases blank with rfl | rfl <;> rfl
    · rw [if_neg blank]
      conv_rhs => rw [← List.map_id (writeData c)]
      apply List.map_congr_left
      intro d inside
      refine if_neg fun line => ?_
      rcases mem_encode writeData_decodes inside with ⟨rfl, -⟩ | no
      · exact blank line
      · rcases line with rfl | rfl <;> exact absurd (by simp) no
  rw [attrValue, spaced, newlines_escape writeData_escapes, later]
  apply decode_flatMap writeData_decodes
  rw [List.length_map]
  exact (newlines_length v).trans (length_le_flatMap (decodes_ne_nil writeData_decodes) v)

theorem takeWhile_name {name : Text} (valid : IsName name) (stop : isNameChar c = false) (rest : Text) :
    (name ++ c :: rest).takeWhile isNameChar = name := by
  rw [List.takeWhile_append_of_pos valid.2, List.takeWhile_cons_of_neg (Bool.eq_false_iff.mp stop), List.append_nil]

def Ends (after : Text) : Prop := (∃ rest, after = '>' :: rest) ∨ (∃ rest, after = '/' :: rest) ∨ ∃ rest, after = ' ' :: '/' :: rest

theorem readAttrs_end {after : Text} (ends : Ends after) (n : Nat) : readAttrs n after = ([], after) := by
  cases n with
  | zero => rfl
  | succ n => rcases ends with ⟨rest, rfl⟩ | ⟨rest, rfl⟩ | ⟨rest, rfl⟩ <;> rfl

theorem readAttrs_written (readable : Readable style value) {after : Text} (ends : Ends after) {attrs : List (Text × Text)}
    (names : ∀ a ∈ attrs, IsName a.1) {n : Nat} (enough : attrs.length ≤ n) :
    readAttrs n (attrs.flatMap (attrText style) ++ after) = (attrs.map fun a => (a.1, value a.2), after) := by
  induction attrs generalizing n with
  | nil => exact readAttrs_end ends n
  | cons a attrs ih =>
    cases n with
    | zero => cases enough
    | succ n =>
      obtain ⟨name, v⟩ := a
      have valid := names _ List.mem_cons_self
      obtain ⟨⟨c, cs, shape, -⟩, -⟩ := valid
      have later := ih (fun b member => names b (List.mem_cons_of_mem _ member)) (Nat.le_of_succ_le_succ enough)
      have written : (((name, v) :: attrs).flatMap (attrText style) ++ after) =
          ' ' :: (name ++ '=' :: '"' :: (v.flatMap style.attr ++ '"' :: (attrs.flatMap (attrText style) ++ after))) := by
        simp [attrText, List.flatMap_cons]
      have clean : ∀ d ∈ v.flatMap style.attr, decide (d ≠ '"') = true := by
        intro d member
        obtain ⟨x, -, inside⟩ := List.mem_flatMap.mp member
        exact decide_eq_true fun same => readable.quote x (same ▸ inside)
      rw [written, readAttrs]
      dsimp only
      rw [takeWhile_name (names _ List.mem_cons_self) (by decide), List.drop_left]
      subst shape
      show ((c :: cs, attrValue ((v.flatMap style.attr ++ '"' :: _).takeWhile (· ≠ '"'))) ::
        (readAttrs n ((v.flatMap style.attr ++ '"' :: _).drop
          (((v.flatMap style.attr ++ '"' :: _).takeWhile (· ≠ '"')).length + 1))).1,
        (readAttrs n ((v.flatMap style.attr ++ '"' :: _).drop
          (((v.flatMap style.attr ++ '"' :: _).takeWhile (· ≠ '"')).length + 1))).2) = _
      rw [List.takeWhile_append_of_pos clean, List.takeWhile_cons_of_neg (by decide), List.append_nil, readable.attr, ← List.drop_drop,
        List.drop_left, List.drop_one, List.tail_cons, later]
      rfl

/-! ### Elements -/

theorem takeWhile_tag {tag after : Text} {attrs : List (Text × Text)} (valid : IsName tag) (ends : Ends after) :
    (tag ++ (attrs.flatMap (attrText style) ++ after)).takeWhile isNameChar = tag := by
  cases attrs with
  | cons a attrs => exact takeWhile_name valid (by decide) _
  | nil => rcases ends with ⟨rest, rfl⟩ | ⟨rest, rfl⟩ | ⟨rest, rfl⟩ <;> exact takeWhile_name valid (by decide) _

theorem emptyEnd_ends (readable : Readable style value) (rest : Text) : Ends (style.emptyEnd ++ rest) := by
  rcases readable.emptyEnd with same | same
  · rw [same]
    exact .inr (.inl ⟨_, rfl⟩)
  · rw [same]
    exact .inr (.inr ⟨_, rfl⟩)

theorem openTag_append (style : Style) (e : Element) (after : Text) :
    openTag style e ++ after = '<' :: (e.tag ++ (e.attrs.flatMap (attrText style) ++ after)) := by
  rw [openTag, List.cons_append, List.append_assoc]

theorem attrs_enough (style : Style) (e : Element) (after : Text) :
    e.attrs.length ≤ (e.tag ++ (e.attrs.flatMap (attrText style) ++ after)).length := by
  have solid : ∀ a, attrText style a ≠ [] := fun a => List.cons_ne_nil _ _
  have attrs := length_le_flatMap solid e.attrs
  rw [List.length_append, List.length_append]
  omega

theorem readElement_empty (readable : Readable style value) (own : OwnWritable e) (n : Nat) (rest : Text) :
    readElement (n + 1) (openTag style e ++ (style.emptyEnd ++ rest)) = some (.node e.tag (e.attrs.map fun a => (a.1, value a.2))
      [] [] [], rest) := by
  have ends := emptyEnd_ends readable rest
  rw [openTag_append, readElement]
  dsimp only
  rw [takeWhile_tag own.tag ends, List.drop_left, readAttrs_written readable ends (fun a member => (own.names a member).1)
    (attrs_enough ..)]
  rcases readable.emptyEnd with same | same
  · rw [same]
    rfl
  · rw [same]
    rfl

theorem readElement_content (readable : Readable style value) (own : OwnWritable e) {n : Nat} {inner rest : Text}
    {children : List Element}
    (starts : ∃ r, inner = '<' :: r) (inside : readChildren n inner = some (children, closeTag e ++ rest)) (text : Text) :
    readElement (n + 1) (openTag style e ++ '>' :: (text.flatMap style.data ++ inner)) =
      some (.node e.tag (e.attrs.map fun a => (a.1, value a.2)) (newlines text) children [], rest) := by
  obtain ⟨r, rfl⟩ := starts
  have ends : Ends ('>' :: (text.flatMap style.data ++ '<' :: r)) := .inl ⟨_, rfl⟩
  rw [openTag_append, readElement]
  dsimp only
  rw [takeWhile_tag own.tag ends, List.drop_left, readAttrs_written readable ends (fun a member => (own.names a member).1)
    (attrs_enough ..)]
  show (match readChildren n ((text.flatMap style.data ++
      '<' :: r).drop ((text.flatMap style.data ++ '<' :: r).takeWhile (· ≠ '<')).length) with
    | some (children, '<' :: '/' :: ending) =>
      if (e.tag ++ ['>']).isPrefixOf ending then
        some (Element.node e.tag (e.attrs.map fun (a : Text × Text) => (a.1, value a.2))
        (textValue ((text.flatMap style.data ++ '<' :: r).takeWhile (· ≠ '<'))) children [], ending.drop (e.tag.length + 1))
      else none
    | _ => none) = _
  rw [takeWhile_text readable.data, List.drop_left, inside]
  show (if (e.tag ++ ['>']).isPrefixOf ((e.tag ++ ['>']) ++ rest) then
    some (Element.node e.tag (e.attrs.map fun (a : Text × Text) => (a.1, value a.2))
    (textValue (text.flatMap style.data)) children [], ((e.tag ++ ['>']) ++ rest).drop (e.tag.length + 1)) else none) = _
  rw [if_pos (List.isPrefixOf_iff_prefix.mpr (List.prefix_append ..)), text_value readable.data]
  have dropped : ((e.tag ++ ['>']) ++ rest).drop (e.tag.length + 1) = rest := List.drop_left' (by rw [List.length_append]; rfl)
  rw [dropped]

theorem write_append_cons (style : Style) (own : OwnWritable e) (more : Text) :
    ∃ c rest, isNameStart c = true ∧ write style e ++ more = '<' :: c :: rest := by
  obtain ⟨⟨c, cs, shape, start⟩, -⟩ := own.tag
  cases e with
  | node tag attrs text children tail =>
    obtain rfl : tag = c :: cs := shape
    exact ⟨c, _, start, rfl⟩

theorem readChildren_cons (readable : Readable style value) {n : Nat} {e e' : Element} (own : OwnWritable e)
    {cs : List Element} {more ending : Text} (s : Text)
    (starts : ∃ r, more = '<' :: r)
    (first : readElement n (write style e ++ (s.flatMap style.data ++ more)) = some (e', s.flatMap style.data ++ more))
    (later : readChildren n more = some (cs, ending)) :
    readChildren (n + 1) (write style e ++ (s.flatMap style.data ++ more)) = some (e'.withTail (newlines s) :: cs, ending) := by
  obtain ⟨r, rfl⟩ := starts
  obtain ⟨c, rest, start, shape⟩ := write_append_cons style own (s.flatMap style.data ++ '<' :: r)
  have other : c ≠ '/' := by
    rintro rfl
    revert start
    decide
  rw [shape] at first ⊢
  rw [readChildren.eq_2 _ _ fun _ same => other (List.cons.inj (List.cons.inj same).2).1, first]
  dsimp only
  rw [takeWhile_text readable.data, List.drop_left, later, text_value readable.data]

theorem withTail_node (e : Element) (tail tail' : Text) : (e.withTail tail).withTail tail' = e.withTail tail' := by
  cases e
  rfl

theorem normal_withTail (e : Element) : (normal value e).withTail (newlines e.tail) = normal value e := by
  cases e with
  | node tag attrs text children tail => rw [normal]; rfl

theorem writeAll_starts {cs : List Element} (all : ∀ c ∈ cs, OwnWritable c) (rest : Text) :
    ∃ r, writeAll style cs ++ '<' :: rest = '<' :: r := by
  cases cs with
  | nil => exact ⟨rest, rfl⟩
  | cons c cs =>
    obtain ⟨d, r, -, shape⟩ := write_append_cons style (all c List.mem_cons_self)
        ((c.tail.flatMap style.data ++ writeAll style cs) ++ '<' :: rest)
    exact ⟨d :: r, by rw [writeAll, List.append_assoc, shape]⟩

mutual

theorem readElement_write (readable : Readable style value) : ∀ (e : Element), Everywhere OwnWritable e →
    ∀ n rest, (write style e).length ≤ n →
    readElement n (write style e ++ rest) = some ((normal value e).withTail [], rest)
  | .node tag attrs text children tail => fun writable n rest enough => by
    obtain ⟨own, below⟩ := writable
    have below : ∀ c ∈ children, Everywhere OwnWritable c := below
    cases n with
    | zero =>
      obtain ⟨c, r, -, shape⟩ := write_append_cons style own []
      rw [List.append_nil] at shape
      rw [shape] at enough
      cases enough
    | succ n =>
      rw [write] at enough ⊢
      rw [normal, Element.withTail]
      by_cases empty : text = [] ∧ children = []
      · rw [if_pos empty, List.append_assoc, readElement_empty readable own, empty.1, empty.2]
        rfl
      · rw [if_neg empty] at enough ⊢
        rw [List.append_assoc, List.cons_append, List.append_assoc, List.append_assoc]
        have starts := @writeAll_starts style _ (fun c member => by cases below c member; assumption)
          ('/' :: (tag ++ ['>']) ++ rest)
        have inside := readChildren_write readable children below n ((tag ++ ['>']) ++ rest) (by
          simp only [openTag, List.length_append, List.length_cons] at enough
          omega)
        exact readElement_content readable own starts inside text

theorem readChildren_write (readable : Readable style value) : ∀ (cs : List Element), (∀ c ∈ cs, Everywhere OwnWritable c) → ∀ n rest,
    (writeAll style cs).length + 1 ≤ n →
      readChildren n (writeAll style cs ++ '<' :: '/' :: rest) = some (normalAll value cs, '<' :: '/' :: rest)
  | [], _, n, rest, _ => by
    rw [writeAll, List.nil_append, normalAll, readChildren]
  | c :: cs, all, n, rest, enough => by
    have heads : ∀ d ∈ c :: cs, OwnWritable d := fun d member => by cases all d member; assumption
    have own := heads c List.mem_cons_self
    cases n with
    | zero => cases enough
    | succ n =>
      rw [writeAll, List.length_append, List.length_append] at enough
      obtain ⟨d, r, -, shape⟩ := write_append_cons style own []
      have long := congrArg List.length shape
      rw [List.append_nil, List.length_cons] at long
      have first := readElement_write readable c (all c List.mem_cons_self) n (c.tail.flatMap style.data ++
          (writeAll style cs ++ '<' :: '/' :: rest)) (by omega)
      have later := readChildren_write readable cs (fun e member => all e (List.mem_cons_of_mem _ member)) n rest (by omega)
      have starts := @writeAll_starts style _ (fun e member => heads e (List.mem_cons_of_mem _ member)) ('/' :: rest)
      rw [writeAll, List.append_assoc, List.append_assoc, readChildren_cons readable own c.tail starts first later,
        withTail_node, normal_withTail, normalAll]

end

theorem readDocument_write (readable : Readable style value) (writable : Everywhere OwnWritable e) {outside : Text}
    (blank : outside.all isBlank = true) : readDocument (write style e ++ outside) = some ((normal value e).withTail []) := by
  have own : OwnWritable e := by
    cases writable
    assumption
  obtain ⟨c, r, start, shape⟩ := write_append_cons style own outside
  have plain : ¬ declaration.isPrefixOf (write style e ++ outside) = true := by
    intro declared
    obtain ⟨more, same⟩ := List.isPrefixOf_iff_prefix.mp declared
    have second : '?' = c := (List.cons.inj (List.cons.inj (same.trans shape)).2).1
    subst second
    revert start
    decide
  rw [readDocument, if_neg plain, readElement_write readable e writable _ outside (by rw [List.length_append]; omega)]
  exact if_pos blank

theorem readDocument_declared (readable : Readable style value) (writable : Everywhere OwnWritable e) :
    readDocument (declaration ++ '\n' :: write style e) = some ((normal value e).withTail []) := by
  have own : OwnWritable e := by
    cases writable
    assumption
  obtain ⟨c, r, _, shape⟩ := write_append_cons style own []
  rw [List.append_nil] at shape
  have body : ('\n' :: write style e).dropWhile isBlank = write style e := by
    rw [List.dropWhile_cons_of_pos (by decide), shape]
    rfl
  have read := readElement_write readable e writable (write style e).length [] (Nat.le_refl _)
  rw [List.append_nil] at read
  rw [readDocument, if_pos (List.isPrefixOf_iff_prefix.mpr (List.prefix_append ..)), List.drop_left, body, read]
  rfl

end reading

end FfnNgfw.Config.Saving
