import FfnNgfw.Config.Document
import FfnNgfw.Lib.Separated

/-!
# Saving a configuration

A configuration is written, read again into another kind of tree, written with every element on
a line of its own, and then the lines that are blank are left out. Texts are characters here, not
their UTF-8 bytes, in which a line feed and the blanks of ASCII are the same bytes.
-/

namespace FfnNgfw.Config.Saving
open Threatdb (Text)

def textLine (indent s : Text) : Text := if s = [] then [] else indent ++ s.flatMap writeData ++ ['\n']

mutual

/-- `writexml` of `toprettyxml` -/
def pretty (indent : Text) : Element → Text
  | .node tag attrs text children tail =>
    let e : Element := .node tag attrs text children tail
    indent ++ openTag domStyle e ++
      if children = [] then if text = [] then domStyle.emptyEnd ++ ['\n'] else '>' :: (text.flatMap writeData ++ closeTag e ++ ['\n'])
      else '>' :: '\n' :: (textLine (indent ++ "  ".toList) text ++
        (prettyAll (indent ++ "  ".toList) children ++ (indent ++ closeTag e ++ ['\n'])))

def prettyAll (indent : Text) : List Element → Text
  | [] => []
  | c :: rest => pretty indent c ++ (textLine indent c.tail ++ prettyAll indent rest)

end

def isBlankLine (line : Text) : Bool := line.all isBlank

def kept (t : Text) : List Text := (t.splitOn '\n').filter fun line => !isBlankLine line

def clean (t : Text) : Text := ['\n'].intercalate (kept t)

/-- `_save`: the text that the file holds then. -/
def save (root : Element) : Option Text :=
  (readDocument (writeAll etStyle [root])).map fun dom => clean (declaration ++ '\n' :: pretty [] dom)

/-- `_load` -/
def load (file : Text) : Option Element := readDocument file

/-! ### Lines -/

def under (lines : List Text) : Text := lines.flatMap ('\n' :: ·)

section lines

variable {a b line : Text}

theorem under_append (as bs : List Text) : under (as ++ bs) = under as ++ under bs := List.flatMap_append

theorem cons_intercalate {lines : List Text} (some' : lines ≠ []) : '\n' :: ['\n'].intercalate lines = under lines := by
  induction lines with
  | nil => exact absurd rfl some'
  | cons line lines ih =>
    by_cases last : lines = []
    · subst last
      rw [List.intercalate_singleton]
      exact (List.append_nil _).symm
    · rw [List.intercalate_cons_of_ne_nil last, under, List.flatMap_cons, ← under, ← ih last, List.append_assoc]
      rfl

theorem kept_append_cons (a b : Text) : kept (a ++ '\n' :: b) = kept a ++ kept b := by
  rw [kept, List.splitOn_append_cons_self, List.filter_append]
  rfl

theorem kept_ended (a b : Text) : kept (a ++ ['\n'] ++ b) = kept (a ++ ['\n']) ++ kept b := by
  have nothing : kept [] = [] := rfl
  rw [List.append_assoc, List.singleton_append, kept_append_cons, kept_append_cons, nothing, List.append_nil]

theorem kept_line (whole : '\n' ∉ line) (solid : isBlankLine line = false) : kept line = [line] := by
  rw [kept, List.splitOn_eq_singleton whole, List.filter_cons_of_pos (by rw [solid]; rfl)]
  rfl

theorem kept_blank {t : Text} (blank : t.all isBlank = true) : kept t = [] := by
  rw [kept, List.filter_eq_nil_iff]
  intro line member solid
  have all : isBlankLine line = true := List.all_eq_true.mpr fun c inside =>
      List.all_eq_true.mp blank c (mem_of_mem_splitOn member inside).1
  rw [all] at solid
  cases solid

theorem mem_kept {t : Text} (member : line ∈ kept t) : isBlankLine line = false ∧ ∀ c ∈ line, c ∈ t ∧ c ≠ '\n' := by
  obtain ⟨there, solid⟩ := List.mem_filter.mp member
  exact ⟨by simpa using solid, fun c inside => mem_of_mem_splitOn there inside⟩

theorem kept_under {lines : List Text} (each : ∀ line ∈ lines, '\n' ∉ line ∧ isBlankLine line = false) {before after : Text}
    (blank : before.all isBlank = true) (blank' : after.all isBlank = true) :
    kept (before ++ (under lines ++ '\n' :: after)) = lines := by
  induction lines generalizing before with
  | nil =>
    have nothing : under [] = [] := rfl
    rw [nothing, List.nil_append, kept_append_cons, kept_blank blank, kept_blank blank', List.append_nil]
  | cons line lines ih =>
    obtain ⟨whole, solid⟩ := each line List.mem_cons_self
    have later := @ih (fun l member => each l (List.mem_cons_of_mem _ member)) [] rfl
    have step : before ++ (under (line :: lines) ++ '\n' :: after) = before ++ '\n' :: (line ++ (under lines ++ '\n' :: after)) := by
      rw [under, List.flatMap_cons, ← under, List.append_assoc, List.cons_append]
    have rest : kept (line ++ (under lines ++ '\n' :: after)) = line :: lines := by
      cases lines with
      | nil =>
        have nothing : under [] = [] := rfl
        rw [nothing, List.nil_append, kept_append_cons, kept_line whole solid, kept_blank blank', List.append_nil]
      | cons second lines =>
        rw [List.nil_append, under, List.flatMap_cons, ← under, List.append_assoc, List.cons_append] at later
        rw [under, List.flatMap_cons, ← under, List.append_assoc, List.cons_append, kept_append_cons, kept_line whole solid]
        have same : kept ('\n' :: (second ++ (under lines ++ '\n' :: after))) = kept (second ++ (under lines ++ '\n' :: after)) :=
          kept_append_cons [] _
        rw [same] at later
        rw [later]
        rfl
    rw [step, kept_append_cons, kept_blank blank, rest]
    rfl

theorem isBlank_writeData (c : Char) : (writeData c).all isBlank = isBlank c := by
  rcases writeData_decodes c with ⟨same, -⟩ | ⟨name, -, written⟩
  · rw [same]
    exact List.all_cons.trans (Bool.and_true _)
  · rw [written]
    cases blank : isBlank c with
    | false => rfl
    | true =>
      rw [writeData_escapes.blank c blank] at written
      have same := (List.cons.inj written).1
      subst same
      cases blank

theorem isBlankLine_writeData (line : Text) : isBlankLine (line.flatMap writeData) = isBlankLine line := by
  rw [isBlankLine, List.all_flatMap, isBlankLine]
  exact List.all_congr rfl fun c => isBlank_writeData c

theorem encode_blank {encode : Char → Text} (escapes : Escapes encode) {t : Text} (blank : t.all isBlank = true) :
    t.flatMap encode = t := by
  induction t with
  | nil => rfl
  | cons c t ih =>
    rw [List.all_cons, Bool.and_eq_true] at blank
    rw [List.flatMap_cons, escapes.blank c blank.1, ih blank.2]
    rfl

theorem newline_writeData {line : Text} (whole : '\n' ∉ line) : '\n' ∉ line.flatMap writeData := by
  intro member
  obtain ⟨c, inside, escaped⟩ := List.mem_flatMap.mp member
  exact whole (mem_blank writeData_escapes (.inl rfl) escaped ▸ inside)

theorem flatMap_intercalate (lines : List Text) :
    (['\n'].intercalate lines).flatMap writeData = ['\n'].intercalate (lines.map fun line => line.flatMap writeData) := by
  induction lines with
  | nil => rfl
  | cons line lines ih =>
    cases lines with
    | nil => rw [List.intercalate_singleton, List.map_singleton, List.intercalate_singleton]
    | cons second rest =>
      have one : ['\n'].flatMap writeData = ['\n'] := rfl
      rw [List.intercalate_cons_cons, List.flatMap_append, List.flatMap_append, ih, one, List.map_cons, List.map_cons, List.map_cons,
        List.intercalate_cons_cons]

theorem splitOn_writeData (t : Text) : (t.flatMap writeData).splitOn '\n' = (t.splitOn '\n').map fun line => line.flatMap writeData := by
  have text : ['\n'].intercalate (t.splitOn '\n') = t := List.intercalate_splitOn _
  conv_lhs => rw [← text, flatMap_intercalate]
  apply List.splitOn_intercalate
  · intro line member
    obtain ⟨l, there, rfl⟩ := List.mem_map.mp member
    exact newline_writeData fun inside => (mem_of_mem_splitOn there inside).2 rfl
  · exact fun none => List.splitOn_ne_nil _ _ (List.map_eq_nil_iff.mp none)

theorem filter_writeData (lines : List Text) : (lines.map fun line => line.flatMap writeData).filter (fun line => !isBlankLine line) =
    (lines.filter fun line => !isBlankLine line).map fun line => line.flatMap writeData := by
  rw [List.filter_map]
  congr 2
  funext line
  exact congrArg _ (isBlankLine_writeData line)

theorem kept_writeData (t : Text) : kept (t.flatMap writeData) = (kept t).map fun line => line.flatMap writeData := by
  rw [kept, splitOn_writeData, filter_writeData, kept]

theorem under_map (lines : List Text) : under (lines.map fun line => line.flatMap writeData) = (under lines).flatMap writeData := by
  rw [under, List.flatMap_map, under, List.flatMap_assoc]
  rfl

def innerLines (t : Text) : List Text := (t.splitOn '\n').tail.dropLast

/-- The lines without the blank ones between the first and the last. -/
def squeezeLines : List Text → List Text
  | first :: rest => first :: (rest.dropLast.filter (fun line => !isBlankLine line) ++ rest.getLast?.toList)
  | [] => []

def squeeze (t : Text) : Text := ['\n'].intercalate (squeezeLines (t.splitOn '\n'))

inductive Lines (t : Text) : Prop where
  | one (whole : '\n' ∉ t) (parts : t.splitOn '\n' = [t])
  | more (first last : Text) (inner : List Text) (parts : t.splitOn '\n' = first :: (inner ++ [last]))

theorem lines (t : Text) : Lines t := by
  cases shape : t.splitOn '\n' with
  | nil => exact absurd shape (List.splitOn_ne_nil _ _)
  | cons first rest =>
    rcases List.eq_nil_or_concat rest with rfl | ⟨inner, last, rfl⟩
    · have same : [ '\n'].intercalate (t.splitOn '\n') = t := List.intercalate_splitOn _
      rw [shape, List.intercalate_singleton] at same
      subst same
      have whole : '\n' ∉ first := fun member => (mem_of_mem_splitOn (shape ▸ List.mem_cons_self) member).2 rfl
      exact .one whole shape
    · exact .more first last inner (shape.trans (by rw [List.concat_eq_append]))

theorem squeezeLines_more (first last : Text) (inner : List Text) :
    squeezeLines (first :: (inner ++ [last])) = first :: (inner.filter (fun line => !isBlankLine line) ++ [last]) := by
  rw [squeezeLines, List.dropLast_concat, List.getLast?_concat]
  rfl

theorem squeeze_one {t : Text} (whole : '\n' ∉ t) : squeeze t = t := by
  rw [squeeze, List.splitOn_eq_singleton whole]
  exact List.intercalate_singleton

theorem squeeze_more {t first last : Text} {inner : List Text} (parts : t.splitOn '\n' = first :: (inner ++ [last])) :
    squeeze t = ['\n'].intercalate (first :: (inner.filter (fun line => !isBlankLine line) ++ [last])) := by
  rw [squeeze, parts, squeezeLines_more]

theorem squeezeLines_map (lines : List Text) :
    squeezeLines (lines.map fun line => line.flatMap writeData) = (squeezeLines lines).map fun line => line.flatMap writeData := by
  cases lines with
  | nil => rfl
  | cons first rest =>
    rcases List.eq_nil_or_concat rest with rfl | ⟨inner, last, rfl⟩
    · rfl
    · rw [List.concat_eq_append, List.map_cons, List.map_append, List.map_singleton, squeezeLines_more, squeezeLines_more, List.map_cons,
        List.map_append, List.map_singleton, filter_writeData]

theorem squeeze_writeData (t : Text) : squeeze (t.flatMap writeData) = (squeeze t).flatMap writeData := by
  rw [squeeze, splitOn_writeData, squeezeLines_map, squeeze, flatMap_intercalate]

theorem squeezeLines_ne_nil {lines : List Text} (some' : lines ≠ []) : squeezeLines lines ≠ [] := by
  cases lines with
  | nil => exact absurd rfl some'
  | cons first rest => exact List.cons_ne_nil _ _

theorem under_squeeze (t : Text) : '\n' :: squeeze t = under (squeezeLines (t.splitOn '\n')) :=
  cons_intercalate (squeezeLines_ne_nil (List.splitOn_ne_nil _ _))

theorem solid_append {a b : Text} (solid : isBlankLine a = false ∨ isBlankLine b = false) : isBlankLine (a ++ b) = false := by
  rw [isBlankLine, List.all_append, Bool.and_eq_false_iff]
  exact solid

theorem solid_of_mem {c : Char} (member : c ∈ line) (solid : isBlank c = false) : isBlankLine line = false := by
  rw [isBlankLine, List.all_eq_false]
  exact ⟨c, member, by rw [solid]; exact Bool.false_ne_true⟩

theorem splitOn_append {as bs : List Text} {la fb : Text} (left : a.splitOn '\n' = as ++ [la]) (right : b.splitOn '\n' = fb :: bs) :
    (a ++ b).splitOn '\n' = as ++ (la ++ fb) :: bs := by
  have whole : ∀ line ∈ as ++ (la ++ fb) :: bs, '\n' ∉ line := by
    have of : ∀ line, line ∈ a.splitOn '\n' ∨ line ∈ b.splitOn '\n' → '\n' ∉ line := by
      rintro line (there | there) inside
      · exact (mem_of_mem_splitOn there inside).2 rfl
      · exact (mem_of_mem_splitOn there inside).2 rfl
    rw [left, right] at of
    intro line member inside
    rcases List.mem_append.mp member with before | later
    · exact of line (.inl (List.mem_append_left _ before)) inside
    · rcases List.mem_cons.mp later with rfl | after
      · rcases List.mem_append.mp inside with here | here
        · exact of la (.inl (List.mem_append_right _ List.mem_cons_self)) here
        · exact of fb (.inr List.mem_cons_self) here
      · exact of line (.inr (List.mem_cons_of_mem _ after)) inside
  have text : '\n' :: (a ++ b) = under (as ++ (la ++ fb) :: bs) := by
    have first : '\n' :: a = under (as ++ [la]) := by
      rw [← left, ← cons_intercalate (List.splitOn_ne_nil _ _), List.intercalate_splitOn]
    have second : '\n' :: b = under (fb :: bs) := by
      rw [← right, ← cons_intercalate (List.splitOn_ne_nil _ _), List.intercalate_splitOn]
    have behind : b = fb ++ under bs := (List.cons.inj second).2
    rw [← List.cons_append, first, behind, under_append, under_append, List.append_assoc]
    simp [under]
  have some' : as ++ (la ++ fb) :: bs ≠ [] := List.append_ne_nil_of_right_ne_nil _ (List.cons_ne_nil _ _)
  rw [← cons_intercalate some'] at text
  rw [(List.cons.inj text).2]
  exact List.splitOn_intercalate _ whole some'

theorem mem_last {as : List Text} {la a' : Text} {c : Char} (parts : (a' ++ [c]).splitOn '\n' = as ++ [la])
    (other : c ≠ '\n') : c ∈ la := by
  have text : '\n' :: (a' ++ [c]) = under as ++ '\n' :: la := by
    have joined := cons_intercalate (List.splitOn_ne_nil '\n' (a' ++ [c]))
    rw [List.intercalate_splitOn, parts, under_append] at joined
    simpa [under] using joined
  rcases List.eq_nil_or_concat la with rfl | ⟨front, d, rfl⟩
  · have ends := congrArg List.getLast? text
    rw [← List.cons_append, List.getLast?_concat, List.getLast?_concat] at ends
    exact absurd (Option.some.inj ends) other
  · rw [List.concat_eq_append] at text ⊢
    have ends := congrArg List.getLast? text
    rw [← List.cons_append, List.getLast?_concat, ← List.cons_append, ← List.append_assoc, List.getLast?_concat] at ends
    rw [Option.some.inj ends]
    exact List.mem_append_right _ List.mem_cons_self

theorem mem_first {bs : List Text} {fb b' : Text} {c : Char} (parts : (c :: b').splitOn '\n' = fb :: bs)
    (other : c ≠ '\n') : c ∈ fb := by
  have text : c :: b' = fb ++ under bs := by
    have joined := cons_intercalate (List.splitOn_ne_nil '\n' (c :: b'))
    rw [List.intercalate_splitOn, parts] at joined
    exact (List.cons.inj joined).2
  cases fb with
  | cons d fb =>
    rw [(List.cons.inj text).1]
    exact List.mem_cons_self
  | nil =>
    cases bs with
    | nil => cases text
    | cons line bs => exact absurd (List.cons.inj text).1 other

theorem ne_newline {c : Char} (solid : isBlank c = false) : c ≠ '\n' := by
  rintro rfl
  cases solid

theorem squeeze_append (solid : (∃ a' c, a = a' ++ [c] ∧ isBlank c = false) ∨ ∃ c b', b = c :: b' ∧ isBlank c = false) :
    squeeze (a ++ b) = squeeze a ++ squeeze b := by
  have joint : ∀ as la fb bs, a.splitOn '\n' = as ++ [la] → b.splitOn '\n' = fb :: bs → isBlankLine (la ++ fb) = false := by
    intro as la fb bs left right
    rcases solid with ⟨a', c, rfl, solid⟩ | ⟨c, b', rfl, solid⟩
    · exact solid_append (.inl (solid_of_mem (mem_last left (ne_newline solid)) solid))
    · exact solid_append (.inr (solid_of_mem (mem_first right (ne_newline solid)) solid))
  have goal : under (squeezeLines ((a ++ b).splitOn '\n')) = '\n' :: squeeze a ++ squeeze b := by
    rw [under_squeeze]
    cases lines b with
    | one whole parts =>
      rw [squeeze_one whole]
      cases lines a with
      | one whole' parts' =>
        rw [@splitOn_append a b [] [] a b parts' parts, parts']
        simp [under, squeezeLines]
      | more first last inner parts' =>
        rw [@splitOn_append a b (first :: inner) [] last b parts' parts, parts', List.cons_append, squeezeLines_more, squeezeLines_more]
        simp [under]
    | more first' last' inner' parts =>
      have second := under_squeeze b
      rw [parts, squeezeLines_more] at second
      have behind : squeeze b = first' ++ under (inner'.filter (fun line => !isBlankLine line) ++ [last']) := (List.cons.inj second).2
      rw [behind]
      cases lines a with
      | one whole parts' =>
        rw [@splitOn_append a b [] (inner' ++ [last']) a first' parts' parts, List.nil_append, squeezeLines_more, parts']
        simp [under, squeezeLines]
      | more first last inner parts' =>
        have here := joint (first :: inner) last first' (inner' ++ [last']) parts' parts
        have shape : first :: inner ++ (last ++ first') :: (inner' ++ [last']) =
            first :: ((inner ++ (last ++ first') :: inner') ++ [last']) := by simp
        rw [@splitOn_append a b (first :: inner) (inner' ++ [last']) last first' parts' parts, shape,
          squeezeLines_more, parts', squeezeLines_more,
          List.filter_append, List.filter_cons_of_pos (by rw [here]; rfl)]
        simp [under]
  exact (List.cons.inj ((under_squeeze (a ++ b)).trans goal)).2

theorem under_kept {pre mid front : Text} {c d : Char} (whole : '\n' ∉ pre) (start : isBlank c = false) (finish : isBlank d = false)
    (starts : a = pre ++ c :: mid) (ends : a = front ++ [d]) : under (kept a) = '\n' :: squeeze a := by
  rw [under_squeeze]
  cases lines a with
  | one whole' parts =>
    have solid : isBlankLine a = false := solid_of_mem (c := c) (by rw [starts]; simp) start
    rw [kept_line whole' solid, parts]
    rfl
  | more first last inner parts =>
    have solidLast : isBlankLine last = false := by
      subst ends
      exact solid_of_mem (mem_last (List.cons_append ▸ parts) (ne_newline finish)) finish
    have solidFirst : isBlankLine first = false := by
      subst starts
      cases lines (c :: mid) with
      | one whole' parts' =>
        have none' : (pre ++ c :: mid).splitOn '\n' = [pre ++ c :: mid] :=
          List.splitOn_eq_singleton fun member => (List.mem_append.mp member).elim whole whole'
        rw [none'] at parts
        simp at parts
      | more first' last' inner' parts' =>
        have all := @splitOn_append pre (c :: mid) [] (inner' ++ [last']) pre first' (List.splitOn_eq_singleton whole) parts'
        rw [List.nil_append, parts] at all
        rw [(List.cons.inj all).1]
        exact solid_append (.inr (solid_of_mem (mem_first parts' (ne_newline start)) start))
    rw [kept, parts, squeezeLines_more, List.filter_cons_of_pos (p := fun line => !isBlankLine line) (by rw [solidFirst]; rfl),
      List.filter_append, List.filter_cons_of_pos (p := fun line => !isBlankLine line) (by rw [solidLast]; rfl)]
    rfl

end lines

/-! ### The tree that is saved -/

/-- What stands between two elements then: each line that is not blank, and the indent of what follows. -/
def between (indent outer s : Text) : Text := under (kept (indent ++ s)) ++ '\n' :: outer

mutual

/-- The tree with its elements on lines of their own, and without the blank lines in its texts and attributes. -/
def settle (indent : Text) : Element → Element
  | .node tag attrs text children tail =>
    .node tag (attrs.map fun a => (a.1, squeeze a.2))
      (if children = [] then squeeze text else between (indent ++ "  ".toList) (indent ++ "  ".toList) text)
      (settleAll (indent ++ "  ".toList) indent children) tail

def settleAll (inner outer : Text) : List Element → List Element
  | [] => []
  | c :: rest => (settle inner c).withTail (between inner (if rest = [] then outer else inner) c.tail) :: settleAll inner outer rest

end

section settling

variable {indent : Text}

def Spaces (indent : Text) : Prop := ∀ c ∈ indent, c = ' '

theorem Spaces.deeper (spaces : Spaces indent) : Spaces (indent ++ "  ".toList) := by
  intro c member
  rcases List.mem_append.mp member with before | more
  · exact spaces c before
  · have two : ∀ c ∈ "  ".toList, c = ' ' := by simp
    exact two c more

theorem Spaces.blank (spaces : Spaces indent) : indent.all isBlank = true :=
  List.all_eq_true.mpr fun c member => by
    rw [spaces c member]
    decide

theorem Spaces.whole (spaces : Spaces indent) : '\n' ∉ indent := fun member => by cases spaces _ member

theorem name_whole {name : Text} (valid : IsName name) : '\n' ∉ name := fun member => by cases valid.2 _ member

theorem isBlank_nameChar {c : Char} (valid : isNameChar c = true) : isBlank c = false := by
  cases blank : isBlank c with
  | false => rfl
  | true => rcases isBlank_cases blank with rfl | rfl | rfl | rfl | rfl | rfl <;> cases valid

theorem squeeze_attrText {a : Text × Text} (valid : IsName a.1) :
    squeeze (attrText domStyle a) = attrText domStyle (a.1, squeeze a.2) := by
  have front : '\n' ∉ ' ' :: (a.1 ++ "=\"".toList) := by
    have sign : '\n' ∉ "=\"".toList := by decide
    rw [List.mem_cons, List.mem_append]
    rintro (no | member | no)
    · cases no
    · exact name_whole valid member
    · exact sign no
  have shape : ∀ v, attrText domStyle (a.1, v) = (' ' :: (a.1 ++ "=\"".toList)) ++ (v.flatMap writeData ++ ['"']) := by
    intro v
    show ' ' :: (a.1 ++ '=' :: '"' :: (v.flatMap writeData ++ ['"'])) = ' ' :: ((a.1 ++ "=\"".toList) ++ (v.flatMap writeData ++ ['"']))
    rw [List.append_assoc]
    rfl
  have quote : squeeze ['"'] = ['"'] := rfl
  have ends : ' ' :: (a.1 ++ "=\"".toList) = (' ' :: (a.1 ++ ['='])) ++ ['"'] := by simp
  rw [shape (squeeze a.2), ← squeeze_writeData]
  show squeeze (attrText domStyle (a.1, a.2)) = _
  rw [shape a.2, squeeze_append (.inl ⟨_, '"', ends, by decide⟩), squeeze_append (.inr ⟨'"', [], rfl, by decide⟩),
    squeeze_one front, quote]

theorem squeeze_attrs {attrs : List (Text × Text)} (valid : ∀ a ∈ attrs, IsName a.1) :
    squeeze (attrs.flatMap (attrText domStyle)) = (attrs.map fun a => (a.1, squeeze a.2)).flatMap (attrText domStyle) := by
  induction attrs with
  | nil => rfl
  | cons a attrs ih =>
    have ends : attrText domStyle a = (' ' :: (a.1 ++ '=' :: '"' :: a.2.flatMap writeData)) ++ ['"'] := by
      show ' ' :: (a.1 ++ '=' :: '"' :: (a.2.flatMap writeData ++ ['"'])) = _
      simp
    rw [List.flatMap_cons, squeeze_append (.inl ⟨_, '"', ends, by decide⟩), squeeze_attrText (valid a List.mem_cons_self),
      ih fun b member => valid b (List.mem_cons_of_mem _ member), List.map_cons, List.flatMap_cons]

theorem closeTag_whole {e : Element} (own : OwnWritable e) : '\n' ∉ closeTag e := by
  simp only [closeTag, List.mem_cons, List.mem_append, List.not_mem_nil, not_or]
  exact ⟨by decide, by decide, name_whole own.tag, by decide, not_false⟩

theorem under_start {e : Element} (own : OwnWritable e) (spaces : Spaces indent) (s : Text)
    (ends : ∃ front, s = front ++ ['>']) (starts : ∃ c s', s = c :: s' ∧ isBlank c = false) :
    under (kept (indent ++ openTag domStyle e ++ s)) =
      '\n' :: (indent ++ ('<' :: (e.tag ++ (e.attrs.map fun a => (a.1, squeeze a.2)).flatMap (attrText domStyle))) ++ squeeze s) := by
  have shape : indent ++ openTag domStyle e ++ s = (indent ++ '<' :: e.tag) ++ (e.attrs.flatMap (attrText domStyle) ++ s) := by
    rw [openTag]
    simp
  have whole : '\n' ∉ indent ++ '<' :: e.tag := by
    rw [List.mem_append, List.mem_cons]
    rintro (no | no | no)
    · exact spaces.whole no
    · cases no
    · exact name_whole own.tag no
  obtain ⟨⟨c, cs, tag, start⟩, -⟩ := own.tag
  have solidTag : ∃ front d, indent ++ '<' :: e.tag = front ++ [d] ∧ isBlank d = false := by
    rcases List.eq_nil_or_concat e.tag with none | ⟨body, d, last⟩
    · rw [tag] at none
      cases none
    · refine ⟨indent ++ '<' :: body, d, by rw [last, List.concat_eq_append]; simp, ?_⟩
      apply isBlank_nameChar
      apply own.tag.2
      rw [last, List.concat_eq_append]
      simp
  obtain ⟨front, ends⟩ := ends
  have first : isBlank '<' = false := by decide
  have last : isBlank '>' = false := by decide
  rw [under_kept spaces.whole first last (by rw [openTag, List.append_assoc, List.cons_append])
      (by rw [ends, ← List.append_assoc]), shape,
    squeeze_append (.inl solidTag), squeeze_append (.inr starts), squeeze_one whole,
    squeeze_attrs fun a member => (own.names a member).1]
  simp

theorem under_nil : under [] = [] := rfl

theorem kept_return (a : Text) : kept (a ++ ['\n']) = kept a := by
  have nothing : kept [] = [] := rfl
  rw [kept_append_cons, nothing, List.append_nil]

theorem kept_textLine (spaces : Spaces indent) (s rest : Text) :
    kept (textLine indent s ++ rest) = (kept (indent ++ s)).map (fun line => line.flatMap writeData) ++ kept rest := by
  rw [textLine]
  split
  · rename_i none
    rw [none, List.append_nil, kept_blank spaces.blank]
    rfl
  · have written : indent ++ s.flatMap writeData = (indent ++ s).flatMap writeData := by
      rw [List.flatMap_append, encode_blank writeData_escapes spaces.blank]
    rw [List.append_assoc, List.singleton_append, kept_append_cons, written, kept_writeData]

theorem between_writeData {inner outer : Text} (spaces : Spaces outer) (s : Text) :
    (between inner outer s).flatMap writeData = under ((kept (inner ++ s)).map fun line => line.flatMap writeData) ++ '\n' :: outer := by
  have blank : ('\n' :: outer).all isBlank = true := by
    rw [List.all_cons, spaces.blank]
    rfl
  rw [between, List.flatMap_append, encode_blank writeData_escapes blank, under_map]

theorem pretty_ended (indent : Text) (e : Element) : ∃ a, pretty indent e = a ++ ['\n'] := by
  cases e with
  | node tag attrs text children tail =>
    rw [pretty]
    split
    · split
      · exact ⟨_, (List.append_assoc _ _ _).symm⟩
      · exact ⟨_, (List.append_assoc _ ('>' :: (_ ++ _)) ['\n']).symm⟩
    · refine ⟨indent ++ openTag domStyle (.node tag attrs text children tail) ++ '>' :: '\n' ::
        (textLine (indent ++ "  ".toList) text ++
        (prettyAll (indent ++ "  ".toList) children ++ (indent ++ closeTag (.node tag attrs text children tail)))), ?_⟩
      simp only [List.append_assoc, List.cons_append]

theorem kept_pretty_append (indent : Text) (e : Element) (rest : Text) :
    kept (pretty indent e ++ rest) = kept (pretty indent e) ++ kept rest := by
  obtain ⟨a, shape⟩ := pretty_ended indent e
  rw [shape, kept_ended]

theorem kept_prettyAll_append (spaces : Spaces indent) (cs : List Element) (rest : Text) :
    kept (prettyAll indent cs ++ rest) = kept (prettyAll indent cs) ++ kept rest := by
  induction cs with
  | nil => rfl
  | cons c cs ih =>
    rw [prettyAll, List.append_assoc, List.append_assoc, kept_pretty_append, kept_textLine spaces, ih,
      kept_pretty_append, kept_textLine spaces]
    simp only [List.append_assoc]

theorem write_withTail (style : Style) (e : Element) (tail : Text) : write style (e.withTail tail) = write style e := by
  cases e
  rw [Element.withTail, write, write]
  rfl

theorem tail_withTail (e : Element) (tail : Text) : (e.withTail tail).tail = tail := by
  cases e
  rfl

theorem settleAll_eq_nil {inner outer : Text} {cs : List Element} : settleAll inner outer cs = [] ↔ cs = [] := by
  cases cs with
  | nil => rw [settleAll]
  | cons c cs =>
    rw [settleAll]
    exact ⟨fun no => (nomatch no), fun no => (nomatch no)⟩

theorem squeeze_eq_nil {t : Text} (nothing : squeeze t = []) : t = [] := by
  cases lines t with
  | one whole parts => exact (squeeze_one whole).symm.trans nothing
  | more first last inner parts =>
    have shape := under_squeeze t
    rw [nothing, parts, squeezeLines_more] at shape
    simp [under] at shape

theorem closeTag_ends (e : Element) : ∃ front, closeTag e = front ++ ['>'] := ⟨'<' :: '/' :: e.tag, rfl⟩

theorem squeeze_content {e : Element} (own : OwnWritable e) (text : Text) :
    squeeze (['>'] ++ (text.flatMap writeData ++ closeTag e)) = ['>'] ++ ((squeeze text).flatMap writeData ++ closeTag e) := by
  have angle : squeeze ['>'] = ['>'] := rfl
  have before : ∃ a' c, ['>'] = a' ++ [c] ∧ isBlank c = false := ⟨[], '>', rfl, by decide⟩
  have behind : ∃ c b', closeTag e = c :: b' ∧ isBlank c = false := ⟨'<', _, rfl, by decide⟩
  rw [squeeze_append (.inl before), squeeze_append (.inr behind), angle, squeeze_writeData, squeeze_one (closeTag_whole own)]

mutual

theorem kept_pretty : ∀ (e : Element), Everywhere OwnWritable e → ∀ indent, Spaces indent →
    under (kept (pretty indent e)) = '\n' :: (indent ++ write domStyle (settle indent e))
  | .node tag attrs text [] tail => fun writable indent spaces => by
    have own : OwnWritable (.node tag attrs text [] tail) := by
      cases writable
      assumption
    rw [pretty, if_pos rfl, settle, if_pos rfl, settleAll, write]
    by_cases empty : text = []
    · subst empty
      have ends : squeeze domStyle.emptyEnd = domStyle.emptyEnd := rfl
      have none' : squeeze [] = [] := rfl
      rw [if_pos rfl, ← List.append_assoc, kept_return,
        under_start own spaces domStyle.emptyEnd ⟨['/'], rfl⟩ ⟨'/', ['>'], rfl, by decide⟩, ends, if_pos ⟨none', rfl⟩, List.append_assoc]
      rfl
    · obtain ⟨front, last⟩ := closeTag_ends (.node tag attrs text [] tail)
      have shape : indent ++ openTag domStyle (.node tag attrs text [] tail) ++
          '>' :: (text.flatMap writeData ++ closeTag (.node tag attrs text [] tail) ++ ['\n']) =
          (indent ++ openTag domStyle (.node tag attrs text [] tail) ++
            (['>'] ++ (text.flatMap writeData ++ closeTag (.node tag attrs text [] tail)))) ++ ['\n'] := by
        simp only [List.append_assoc, List.cons_append, List.nil_append]
      rw [if_neg empty, if_neg fun both => empty (squeeze_eq_nil both.1), shape, kept_return,
        under_start own spaces (['>'] ++ (text.flatMap writeData ++ closeTag (.node tag attrs text [] tail)))
          ⟨['>'] ++ (text.flatMap writeData ++ front), by rw [last, List.append_assoc, List.append_assoc]⟩ ⟨'>', _, rfl, by decide⟩,
        squeeze_content own, writeAll]
      simp only [openTag, Element.tag, Element.attrs, List.append_assoc, List.cons_append, List.nil_append]
      rfl
  | .node tag attrs text (c :: cs) tail => fun writable indent spaces => by
    obtain ⟨own, below⟩ := writable
    have joined := kept_prettyAll (c :: cs) below (indent ++ "  ".toList) indent spaces.deeper spaces
    have closing : kept (indent ++ closeTag (.node tag attrs text (c :: cs) tail)) =
        [indent ++ closeTag (.node tag attrs text (c :: cs) tail)] := by
      apply kept_line
      · rw [List.mem_append]
        rintro (no | no)
        · exact spaces.whole no
        · exact closeTag_whole own no
      · exact solid_append (.inr rfl)
    have shape : pretty indent (.node tag attrs text (c :: cs) tail) =
        (indent ++ openTag domStyle (.node tag attrs text (c :: cs) tail) ++ ['>']) ++
        '\n' :: (textLine (indent ++ "  ".toList) text ++ (prettyAll (indent ++ "  ".toList) (c :: cs) ++
          ((indent ++ closeTag (.node tag attrs text (c :: cs) tail)) ++ ['\n']))) := by
      rw [pretty, if_neg (List.cons_ne_nil c cs)]
      simp only [List.append_assoc, List.cons_append, List.nil_append]
    have several : settleAll (indent ++ "  ".toList) indent (c :: cs) ≠ [] :=
        fun none => List.cons_ne_nil c cs (settleAll_eq_nil.mp none)
    have angle : squeeze ['>'] = ['>'] := rfl
    have last : ∀ line : Text, under [line] = '\n' :: line := fun line => List.append_nil _
    rw [shape, kept_append_cons, kept_textLine spaces.deeper, kept_prettyAll_append spaces.deeper, kept_return, closing, under_append,
      under_append, under_append, under_start own spaces ['>'] ⟨[], rfl⟩ ⟨'>', [], rfl, by decide⟩, angle, last,
      settle, if_neg (List.cons_ne_nil c cs), write, if_neg fun both => several both.2]
    show _ = '\n' :: (indent ++ (_ ++ '>' :: ((between (indent ++ "  ".toList) (indent ++ "  ".toList) text).flatMap writeData ++ _)))
    rw [between_writeData spaces.deeper]
    have joined' := congrArg (· ++ closeTag (.node tag attrs text (c :: cs) tail)) joined
    simp only [if_neg (List.cons_ne_nil c cs), openTag, Element.tag, Element.attrs, List.append_assoc,
      List.cons_append, List.nil_append] at joined' ⊢
    rw [joined']
    rfl

theorem kept_prettyAll : ∀ (cs : List Element), (∀ c ∈ cs, Everywhere OwnWritable c) → ∀ inner outer, Spaces inner → Spaces outer →
    under (kept (prettyAll inner cs)) ++ '\n' :: outer =
      '\n' :: ((if cs = [] then outer else inner) ++ writeAll domStyle (settleAll inner outer cs))
  | [], _, inner, outer, _, _ => by
    rw [if_pos rfl, settleAll, writeAll, List.append_nil]
    rfl
  | c :: cs, writable, inner, outer, spaces, outside => by
    have first := kept_pretty c (writable c List.mem_cons_self) inner spaces
    have later := kept_prettyAll cs (fun d member => writable d (List.mem_cons_of_mem _ member)) inner outer spaces outside
    have next : Spaces (if cs = [] then outer else inner) := by
      split
      · exact outside
      · exact spaces
    rw [prettyAll, kept_pretty_append, kept_textLine spaces, under_append, under_append, first, List.append_assoc,
      List.append_assoc, later,
      if_neg (List.cons_ne_nil c cs), settleAll, writeAll, write_withTail, tail_withTail]
    show _ = '\n' :: (inner ++ (_ ++ ((between inner (if cs = [] then outer else inner) c.tail).flatMap writeData ++ _)))
    rw [between_writeData next]
    simp only [List.append_assoc, List.cons_append]

end

end settling

/-! ### Characters that are left -/

section characters

variable {t : Text} {c : Char}

theorem mem_newlines (member : c ∈ newlines t) : c ≠ '\r' ∧ (c ∈ t ∨ c = '\n') := by
  induction t using newlines.induct with
  | case1 => cases member
  | case2 rest ih =>
    rw [newlines] at member
    rcases List.mem_cons.mp member with rfl | later
    · exact ⟨by decide, .inr rfl⟩
    · exact (ih later).imp_right fun known => known.imp_left fun there => List.mem_cons_of_mem _ (List.mem_cons_of_mem _ there)
  | case3 rest other ih =>
    rw [newlines.eq_3 _ other] at member
    rcases List.mem_cons.mp member with rfl | later
    · exact ⟨by decide, .inr rfl⟩
    · exact (ih later).imp_right fun known => known.imp_left (List.mem_cons_of_mem _)
  | case4 d rest other other' ih =>
    rw [newlines.eq_4 d rest other other'] at member
    rcases List.mem_cons.mp member with rfl | later
    · exact ⟨fun same => other' same, .inl List.mem_cons_self⟩
    · exact (ih later).imp_right fun known => known.imp_left (List.mem_cons_of_mem _)

theorem mem_lines {first last line : Text} {inner : List Text} {p : Text → Bool} (parts : t.splitOn '\n' = first :: (inner ++ [last]))
    (member : line ∈ first :: (inner.filter p ++ [last])) : line ∈ t.splitOn '\n' := by
  rw [parts]
  rcases List.mem_cons.mp member with rfl | later
  · exact List.mem_cons_self
  · rcases List.mem_append.mp later with mid | final
    · exact List.mem_cons_of_mem _ (List.mem_append_left _ (List.mem_of_mem_filter mid))
    · exact List.mem_cons_of_mem _ (List.mem_append_right _ final)

theorem mem_squeeze (member : c ∈ squeeze t) : c ∈ t := by
  cases lines t with
  | one whole parts => exact squeeze_one whole ▸ member
  | more first last inner parts =>
    rw [squeeze_more parts] at member
    rcases mem_intercalate member with separator | ⟨line, there, inside⟩
    · obtain rfl := List.mem_singleton.mp separator
      by_contra whole
      rw [List.splitOn_eq_singleton whole] at parts
      simp at parts
    · exact (mem_of_mem_splitOn (mem_lines parts there) inside).1

theorem squeeze_lines {first last : Text} {inner : List Text} (parts : t.splitOn '\n' = first :: (inner ++ [last])) :
    (squeeze t).splitOn '\n' = first :: (inner.filter (fun line => !isBlankLine line) ++ [last]) := by
  rw [squeeze_more parts]
  apply List.splitOn_intercalate
  · intro line member inside
    exact (mem_of_mem_splitOn (mem_lines parts member) inside).2 rfl
  · exact List.cons_ne_nil _ _

theorem squeeze_again (t : Text) : squeeze (squeeze t) = squeeze t := by
  cases lines t with
  | one whole parts => rw [squeeze_one whole, squeeze_one whole]
  | more first last inner parts =>
    rw [squeeze_more (squeeze_lines parts), squeeze_more parts, List.filter_filter]
    simp only [Bool.and_self]

theorem squeeze_same_iff : squeeze t = t ↔ ∀ line ∈ innerLines t, isBlankLine line = false := by
  cases lines t with
  | one whole parts =>
    rw [innerLines, parts]
    exact ⟨fun _ line member => (nomatch member), fun _ => squeeze_one whole⟩
  | more first last inner parts =>
    have kept : inner.filter (fun line => !isBlankLine line) = inner ↔ ∀ line ∈ inner, isBlankLine line = false := by
      rw [List.filter_eq_self]
      exact forall₂_congr fun line _ => by rw [Bool.not_eq_true']
    rw [innerLines, parts, List.tail_cons, List.dropLast_concat, ← kept]
    refine ⟨fun same => ?_, fun all => ?_⟩
    · have again := squeeze_lines parts
      rw [same, parts] at again
      exact (List.append_cancel_right (List.cons.inj again).2).symm
    · rw [squeeze_more parts, all, ← parts]
      exact List.intercalate_splitOn _

def Kept (t : Text) : Prop := '\r' ∉ t ∧ ∀ line ∈ innerLines t, isBlankLine line = false

theorem kept_iff (t : Text) : squeeze (newlines t) = t ↔ Kept t := by
  refine ⟨fun same => ?_, fun kept => ?_⟩
  · have none' : '\r' ∉ t := by
      intro member
      rw [← same] at member
      exact (mem_newlines (mem_squeeze member)).1 rfl
    rw [newlines_same none'] at same
    exact ⟨none', squeeze_same_iff.mp same⟩
  · rw [newlines_same kept.1]
    exact squeeze_same_iff.mpr kept.2

def Plain (v : Text) : Prop := ∀ c ∈ v, c ≠ '\n' ∧ c ≠ '\t' ∧ c ≠ '\r'

instance Plain.decidable (v : Text) : Decidable (Plain v) := List.decidableBAll _ v

theorem mem_spaced (member : c ∈ spaced t) : (c ≠ '\n' ∧ c ≠ '\t' ∧ c ≠ '\r') ∧ (c ∈ t ∨ c = ' ') := by
  obtain ⟨d, there, rfl⟩ := List.mem_map.mp member
  obtain ⟨noReturn, from'⟩ := mem_newlines there
  by_cases blank : d = '\n' ∨ d = '\t'
  · rw [if_pos blank]
    exact ⟨by decide, .inr rfl⟩
  · rw [if_neg blank]
    rw [not_or] at blank
    exact ⟨⟨blank.1, blank.2, noReturn⟩, .inl (from'.resolve_right blank.1)⟩

theorem spaced_plain (plain : Plain t) : spaced t = t := by
  rw [spaced, newlines_same fun member => (plain _ member).2.2 rfl]
  conv_rhs => rw [← List.map_id t]
  apply List.map_congr_left
  intro d member
  exact if_neg fun blank => blank.elim (plain d member).1 (plain d member).2.1

theorem squeeze_plain (plain : Plain t) : squeeze t = t := squeeze_one fun member => (plain _ member).1 rfl

theorem plain_iff (v : Text) : spaced (squeeze v) = v ↔ Plain v := by
  refine ⟨fun same => ?_, fun plain => ?_⟩
  · intro c member
    rw [← same] at member
    exact (mem_spaced member).1
  · rw [squeeze_plain plain, spaced_plain plain]

end characters

/-! ### What is read again -/

section again

variable {P : Element → Prop} {e root : Element} {indent : Text} {A A' T : Char → Prop} {value : Text → Text}

theorem Everywhere.own (all : Everywhere P e) : P e := by
  cases all
  assumption

theorem Everywhere.inside (all : Everywhere P e) : ∀ c ∈ e.children, Everywhere P c := by
  cases all
  assumption

theorem Everywhere.imp {Q : Element → Prop} (each : ∀ e, P e → Q e) (all : Everywhere P e) : Everywhere Q e := by
  induction all with
  | intro own below ih => exact .intro (each _ own) ih

def saved (root : Element) : Element := (normal spaced (settle [] (normal id root))).withTail []

/-- Names, and characters of one kind in the attributes and of another in the texts. -/
structure Spelled (A T : Char → Prop) (e : Element) : Prop where
  tag : IsName e.tag
  names : ∀ a ∈ e.attrs, IsName a.1 ∧ a.1 ≠ "xmlns".toList
  distinct : (e.attrs.map Prod.fst).Nodup
  values : ∀ a ∈ e.attrs, ∀ c ∈ a.2, A c
  text : ∀ c ∈ e.text, T c
  tail : ∀ c ∈ e.tail, T c

def Admitted (c : Char) : Prop := TextOk [c]

theorem textOk_iff (s : Text) : TextOk s ↔ ∀ c ∈ s, Admitted c :=
  forall₂_congr fun c _ => ⟨fun ok _ member => List.mem_singleton.mp member ▸ ok, fun ok => ok c List.mem_cons_self⟩

theorem spelled_iff : OwnWritable e ↔ Spelled Admitted Admitted e :=
  ⟨fun own => ⟨own.tag, own.names, own.distinct, fun a member => (textOk_iff _).mp (own.values a member), (textOk_iff _).mp own.text,
      (textOk_iff _).mp own.tail⟩,
    fun own => ⟨own.tag, own.names, own.distinct, fun a member => (textOk_iff _).mpr (own.values a member), (textOk_iff _).mpr own.text,
      (textOk_iff _).mpr own.tail⟩⟩

theorem Spelled.map {tag text tail text' tail' : Text} {attrs : List (Text × Text)} {children children' : List Element}
    {T' : Char → Prop}
    (own : Spelled A T (.node tag attrs text children tail)) (value : Text → Text)
    (values : ∀ v, (∀ c ∈ v, A c) → ∀ c ∈ value v, A' c) (texts : ∀ c ∈ text', T' c) (tails : ∀ c ∈ tail', T' c) :
    Spelled A' T' (.node tag (attrs.map fun a => (a.1, value a.2)) text' children' tail') := by
  refine ⟨own.tag, ?_, ?_, ?_, texts, tails⟩
  · intro a member
    obtain ⟨b, there, rfl⟩ := List.mem_map.mp member
    exact own.names b there
  · show ((attrs.map fun a => (a.1, value a.2)).map Prod.fst).Nodup
    rw [List.map_map]
    exact own.distinct
  · intro a member
    obtain ⟨b, there, rfl⟩ := List.mem_map.mp member
    exact values b.2 (own.values b there)

theorem Spelled.withTail (own : Spelled A T e) {tail : Text} (tails : ∀ c ∈ tail, T c) : Spelled A T (e.withTail tail) := by
  cases e
  exact ⟨own.tag, own.names, own.distinct, own.values, own.text, tails⟩

theorem Everywhere.withTail (all : Everywhere (Spelled A T) e) {tail : Text} (tails : ∀ c ∈ tail, T c) :
    Everywhere (Spelled A T) (e.withTail tail) := by
  refine .intro (all.own.withTail tails) ?_
  cases e
  exact all.inside

theorem normal_children (value : Text → Text) (e : Element) : (normal value e).children = e.children.map (normal value) := by
  cases e
  rw [normal]
  exact normalAll_eq _ _

theorem normal_spelled (values : ∀ v, (∀ c ∈ v, A c) → ∀ c ∈ value v, A' c) (line : T '\n') (all : Everywhere (Spelled A T) e) :
    Everywhere (Spelled A' fun c => c ≠ '\r' ∧ T c) (normal value e) := by
  induction all with
  | intro own below ih =>
    rename_i e
    have texts : ∀ t : Text, (∀ c ∈ t, T c) → ∀ c ∈ newlines t, c ≠ '\r' ∧ T c := by
      intro t all c member
      obtain ⟨other, there | rfl⟩ := mem_newlines member
      · exact ⟨other, all c there⟩
      · exact ⟨other, line⟩
    refine .intro ?_ fun c member => ?_
    · cases e with
      | node tag attrs text children tail =>
        rw [normal]
        exact own.map value values (texts _ own.text) (texts _ own.tail)
    · rw [normal_children] at member
      obtain ⟨d, there, rfl⟩ := List.mem_map.mp member
      exact ih d there

theorem settle_children (indent : Text) (e : Element) :
    (settle indent e).children = settleAll (indent ++ "  ".toList) indent e.children := by
  cases e
  rw [settle]
  rfl

theorem mem_settleAll {inner outer : Text} {cs : List Element} {c : Element} (member : c ∈ settleAll inner outer cs) :
    ∃ d ∈ cs, ∃ space, (space = inner ∨ space = outer) ∧ c = (settle inner d).withTail (between inner space d.tail) := by
  induction cs with
  | nil =>
    rw [settleAll] at member
    cases member
  | cons d cs ih =>
    rw [settleAll] at member
    rcases List.mem_cons.mp member with rfl | later
    · refine ⟨d, List.mem_cons_self, _, ?_, rfl⟩
      split
      · exact .inr rfl
      · exact .inl rfl
    · obtain ⟨x, there, known⟩ := ih later
      exact ⟨x, List.mem_cons_of_mem d there, known⟩

theorem mem_between {inner outer s : Text} (spaces : Spaces inner) (outside : Spaces outer) (line : T '\n') (space : T ' ')
    (all : ∀ c ∈ s, T c) : ∀ c ∈ between inner outer s, T c := by
  have blank : ∀ {space : Text}, Spaces space → ∀ c ∈ space, T c := by
    intro _ spaces c member
    rw [spaces c member]
    exact space
  intro c member
  rw [between, under] at member
  rcases List.mem_append.mp member with inside | rest
  · obtain ⟨l, kept, here⟩ := List.mem_flatMap.mp inside
    rcases List.mem_cons.mp here with rfl | here
    · exact line
    · rcases List.mem_append.mp ((mem_kept kept).2 c here).1 with front | text
      · exact blank spaces c front
      · exact all c text
  · rcases List.mem_cons.mp rest with rfl | back
    · exact line
    · exact blank outside c back

theorem settle_spelled (line : T '\n') (space : T ' ') (all : Everywhere (Spelled A T) e) (spaces : Spaces indent) :
    Everywhere (Spelled A T) (settle indent e) := by
  induction all generalizing indent with
  | intro own below ih =>
    rename_i e
    refine .intro ?_ fun c member => ?_
    · cases e with
      | node tag attrs text children tail =>
        rw [settle]
        refine own.map squeeze (fun v all c member => all c (mem_squeeze member)) ?_ own.tail
        split
        · exact fun c member => own.text c (mem_squeeze member)
        · exact mem_between spaces.deeper spaces.deeper line space own.text
    · rw [settle_children] at member
      obtain ⟨d, there, outer, which, rfl⟩ := mem_settleAll member
      have outside : Spaces outer := by
        rcases which with rfl | rfl
        · exact spaces.deeper
        · exact spaces
      exact (ih d there spaces.deeper).withTail (mem_between spaces.deeper outside line space (below d there).own.tail)

theorem spaces_nil : Spaces [] := fun _ member => (nomatch member)

theorem admitted_line : Admitted '\n' := by
  show TextOk ['\n']
  decide

theorem admitted_space : Admitted ' ' := by
  show TextOk [' ']
  decide

theorem normal_writable (writable : Everywhere OwnWritable e) :
    Everywhere (Spelled Admitted fun c => c ≠ '\r' ∧ Admitted c) (normal id e) :=
  normal_spelled (fun _ all => all) admitted_line (writable.imp fun _ => spelled_iff.mp)

theorem writable_settled (writable : Everywhere OwnWritable e) :
    Everywhere (Spelled Admitted fun c => c ≠ '\r' ∧ Admitted c) (settle [] (normal id e)) := by
  exact settle_spelled ⟨by decide, admitted_line⟩ ⟨by decide, admitted_space⟩ (normal_writable writable) spaces_nil

theorem spelled_writable (all : Everywhere (Spelled Admitted fun c => c ≠ '\r' ∧ Admitted c) e) : Everywhere OwnWritable e :=
  all.imp fun _ own => spelled_iff.mpr ⟨own.tag, own.names, own.distinct, own.values, fun c member => (own.text c member).2,
    fun c member => (own.tail c member).2⟩

theorem settle_withTail (e : Element) (tail : Text) : settle indent (e.withTail tail) = (settle indent e).withTail tail := by
  cases e
  rw [Element.withTail, settle, settle]
  rfl

theorem save_eq (outside : root.tail.all isBlank = true) (writable : Everywhere OwnWritable root) :
    save root = some (declaration ++ '\n' :: write domStyle (settle [] (normal id root))) := by
  have tree : Everywhere OwnWritable ((normal id root).withTail []) :=
    spelled_writable ((normal_writable writable).withTail fun _ member => (nomatch member))
  have read : readDocument (writeAll etStyle [root]) = some ((normal id root).withTail []) := by
    rw [writeAll, writeAll, List.append_nil]
    show readDocument (write etStyle root ++ root.tail.flatMap escape) = _
    rw [encode_blank escape_escapes outside]
    exact readDocument_write etStyle_readable writable outside
  have shown := kept_pretty _ tree [] spaces_nil
  have declared : kept declaration = [declaration] := kept_line (by decide) (by decide)
  have some' : [declaration] ++ kept (pretty [] ((normal id root).withTail [])) ≠ [] := List.cons_ne_nil _ _
  have joined : '\n' :: clean (declaration ++ '\n' :: pretty [] ((normal id root).withTail [])) =
      '\n' :: (declaration ++ '\n' :: write domStyle (settle [] (normal id root))) := by
    rw [clean, kept_append_cons, declared, cons_intercalate some', under_append, shown, settle_withTail, write_withTail]
    rfl
  rw [save, read, Option.map_some, (List.cons.inj joined).2]

theorem load_saved (outside : root.tail.all isBlank = true) (writable : Everywhere OwnWritable root) :
    ∃ file, save root = some file ∧ load file = some (saved root) :=
  ⟨_, save_eq outside writable, readDocument_declared domStyle_readable (spelled_writable (writable_settled writable))⟩

theorem normal_same (values : ∀ v, (∀ c ∈ v, A c) → value v = v) (all : Everywhere (Spelled A (· ≠ '\r')) e) : normal value e = e := by
  induction all with
  | intro own below ih =>
    rename_i e
    cases e with
    | node tag attrs text children tail =>
      have same : children.map (normal value) = children := (List.map_congr_left ih).trans (List.map_id _)
      have pairs : (attrs.map fun a => (a.1, value a.2)) = attrs := by
        conv_rhs => rw [← List.map_id attrs]
        exact List.map_congr_left fun a member => Prod.ext rfl (values a.2 (own.values a member))
      have text' : newlines text = text := newlines_same fun member => own.text _ member rfl
      have tail' : newlines tail = tail := newlines_same fun member => own.tail _ member rfl
      rw [normal, normalAll_eq, same, pairs, text', tail']

theorem between_again {inner outer : Text} (spaces : Spaces inner) (outside : Spaces outer) (s : Text) :
    between inner outer (between inner outer s) = between inner outer s := by
  have lines : ∀ line ∈ kept (inner ++ s), '\n' ∉ line ∧ isBlankLine line = false := fun line member =>
    ⟨fun inside => ((mem_kept member).2 _ inside).2 rfl, (mem_kept member).1⟩
  have again : kept (inner ++ between inner outer s) = kept (inner ++ s) := kept_under lines spaces.blank outside.blank
  rw [between, again]
  rfl

mutual

theorem settle_again : ∀ (e : Element) (indent : Text), Spaces indent → settle indent (settle indent e) = settle indent e
  | .node tag attrs text children tail, indent, spaces => by
    have pairs : ((attrs.map fun a => (a.1, squeeze a.2)).map fun a => (a.1, squeeze a.2)) = attrs.map fun a => (a.1, squeeze a.2) := by
      rw [List.map_map]
      exact List.map_congr_left fun a _ => Prod.ext rfl (squeeze_again a.2)
    rw [settle, settle, settleAll_again children _ _ spaces.deeper spaces, pairs]
    simp only [settleAll_eq_nil]
    congr 1
    split
    · exact squeeze_again text
    · exact between_again spaces.deeper spaces.deeper text

theorem settleAll_again : ∀ (cs : List Element) (inner outer : Text), Spaces inner → Spaces outer →
    settleAll inner outer (settleAll inner outer cs) = settleAll inner outer cs
  | [], inner, outer, _, _ => rfl
  | c :: cs, inner, outer, spaces, outside => by
    have next : Spaces (if cs = [] then outer else inner) := by
      split
      · exact outside
      · exact spaces
    rw [settleAll, settleAll, settle_withTail, settle_again c inner spaces, withTail_node, tail_withTail,
      settleAll_again cs inner outer spaces outside]
    simp only [settleAll_eq_nil, between_again spaces next]

end

/-- Saving a tree that was saved writes the same text, if the attributes are read as they were written. -/
theorem save_again (outside : root.tail.all isBlank = true) (writable : Everywhere OwnWritable root)
    (plain : Everywhere (fun e => ∀ a ∈ e.attrs, Plain a.2) root) : save (saved root) = save root := by
  have spelled : Everywhere (Spelled (fun c => c ≠ '\n' ∧ c ≠ '\t' ∧ c ≠ '\r') Admitted) root := by
    clear outside
    induction writable with
    | intro own below ih =>
      have own' := spelled_iff.mp own
      exact .intro ⟨own.tag, own.names, own.distinct, plain.own, own'.text, own'.tail⟩ fun c member =>
        ih c member (plain.inside c member)
  -- nothing that the parser changes is left
  have settled : Everywhere (Spelled (fun c => c ≠ '\n' ∧ c ≠ '\t' ∧ c ≠ '\r') (· ≠ '\r')) (settle [] (normal id root)) :=
    settle_spelled (by decide) (by decide) ((normal_spelled (fun _ all => all) admitted_line spelled).imp fun _ own =>
      ⟨own.tag, own.names, own.distinct, own.values, fun c member => (own.text c member).1,
      fun c member => (own.tail c member).1⟩) spaces_nil
  have same : saved root = (settle [] (normal id root)).withTail [] := by
    rw [saved, normal_same (fun _ plain => spaced_plain plain) settled]
  have tree : Everywhere OwnWritable (saved root) := by
    rw [same]
    exact spelled_writable ((writable_settled writable).withTail fun _ member => (nomatch member))
  have blank : (saved root).tail.all isBlank = true := by
    rw [saved, tail_withTail]
    rfl
  have unread : normal id (saved root) = saved root := by
    rw [same]
    exact normal_same (fun _ _ => rfl) (settled.withTail fun _ member => (nomatch member))
  rw [save_eq blank tree, unread, same, settle_withTail, write_withTail, settle_again _ _ spaces_nil, ← save_eq outside writable]

end again

/-! ### What a configuration says -/

mutual

/-- An element without what only sets it apart: its name, its attributes, a leaf's text, and its children in their order. -/
def content : Element → Element
  | .node tag attrs text children _ => .node tag attrs (if children = [] then text else []) (contentAll children) []

def contentAll : List Element → List Element
  | [] => []
  | c :: rest => content c :: contentAll rest

end

mutual

def lasting : Element → Element
  | .node tag attrs text children _ =>
    .node tag (attrs.map fun a => (a.1, spaced (squeeze a.2))) (if children = [] then squeeze (newlines text) else [])
      (lastingAll children) []

def lastingAll : List Element → List Element
  | [] => []
  | c :: rest => lasting c :: lastingAll rest

end

section losses

variable {root : Element}

theorem normalAll_eq_nil {value : Text → Text} {cs : List Element} : normalAll value cs = [] ↔ cs = [] := by
  rw [normalAll_eq, List.map_eq_nil_iff]

theorem content_withTail (e : Element) (tail : Text) : content (e.withTail tail) = content e := by
  cases e
  rw [Element.withTail, content, content]

theorem normal_tail (value : Text → Text) (e : Element) (tail : Text) :
    content (normal value (e.withTail tail)) = content (normal value e) := by
  cases e
  rw [Element.withTail, normal, normal, content, content]

mutual

theorem content_settled : ∀ (e : Element) (indent : Text), content (normal spaced (settle indent (normal id e))) = lasting e
  | .node tag attrs text children tail, indent => by
    have unread : ∀ t : Text, newlines (squeeze (newlines t)) = squeeze (newlines t) := fun t =>
      newlines_same fun member => (mem_newlines (mem_squeeze member)).1 rfl
    rw [normal, settle, normal, content, contentAll_settled children, lasting, List.map_map, List.map_map]
    simp only [normalAll_eq_nil, settleAll_eq_nil]
    congr 1
    split
    · exact unread text
    · rfl

theorem contentAll_settled : ∀ (cs : List Element) (inner outer : Text),
    contentAll (normalAll spaced (settleAll inner outer (normalAll id cs))) = lastingAll cs
  | [], _, _ => rfl
  | c :: cs, inner, outer => by
    rw [normalAll, settleAll, normalAll, contentAll, normal_tail, content_settled c inner, contentAll_settled cs, lastingAll]

end

theorem content_saved (root : Element) : content (saved root) = lasting root := by
  rw [saved, content_withTail, content_settled]

structure KeepsOwn (e : Element) : Prop where
  attrs : ∀ a ∈ e.attrs, Plain a.2
  text : e.children = [] → Kept e.text

theorem map_plain_iff (attrs : List (Text × Text)) : (attrs.map fun a => (a.1, spaced (squeeze a.2))) = attrs ↔
    ∀ a ∈ attrs, Plain a.2 := by
  conv_lhs => rhs; rw [← List.map_id attrs]
  rw [List.map_inj_left]
  refine forall₂_congr fun a _ => ?_
  rw [← plain_iff]
  exact ⟨fun same => (Prod.ext_iff.mp same).2, fun same => Prod.ext rfl same⟩

mutual

theorem lasting_iff : ∀ e : Element, lasting e = content e ↔ Everywhere KeepsOwn e
  | .node tag attrs text children tail => by
    rw [lasting, content, Element.node.injEq, map_plain_iff, lastingAll_iff children]
    refine ⟨fun ⟨_, plain, texts, all, _⟩ => .intro ⟨plain, fun (leaf : children = []) => ?_⟩ all,
      fun all => ⟨rfl, all.own.attrs, ?_, all.inside, rfl⟩⟩
    · rw [if_pos leaf, if_pos leaf] at texts
      exact (kept_iff text).mp texts
    · split
      · rename_i leaf
        exact (kept_iff text).mpr (all.own.text leaf)
      · rfl

theorem lastingAll_iff : ∀ cs : List Element, lastingAll cs = contentAll cs ↔ ∀ c ∈ cs, Everywhere KeepsOwn c
  | [] => ⟨fun _ c member => (nomatch member), fun _ => rfl⟩
  | c :: cs => by rw [lastingAll, contentAll, List.cons.injEq, lasting_iff c, lastingAll_iff cs, List.forall_mem_cons]

end

/-- Loading what was saved gives the same content, and saving that writes the same text. -/
def SavedLosslessly (root : Element) : Prop :=
  ∃ file read, save root = some file ∧ load file = some read ∧ content read = content root ∧ save read = some file

/-- What is lost: carriage returns, blank lines in a text, and in an attribute each line end and tab. -/
theorem saved_losslessly_iff {root : Element} (outside : root.tail.all isBlank = true) (writable : Everywhere OwnWritable root) :
    SavedLosslessly root ↔ Everywhere KeepsOwn root := by
  obtain ⟨file, written, read⟩ := load_saved outside writable
  have same : content (saved root) = content root ↔ Everywhere KeepsOwn root := by
    rw [content_saved]
    exact lasting_iff root
  refine ⟨fun ⟨file', read', written', loaded, equal, _⟩ => ?_, fun keeps => ⟨file, saved root, written, read, same.mpr keeps, ?_⟩⟩
  · obtain rfl := Option.some.inj (written.symm.trans written')
    obtain rfl := Option.some.inj (read.symm.trans loaded)
    exact same.mp equal
  · rw [save_again outside writable (keeps.imp fun _ own => own.attrs), written]

def described (name description : Text) : Element :=
  .node "entry".toList [("name".toList, name)] [] [.node "description".toList [] description [] []] []

theorem described_writable {name description : Text} (named : TextOk name) (ok : TextOk description) :
    Everywhere OwnWritable (described name description) := by
  have entry : IsName "entry".toList := ⟨⟨'e', _, rfl, rfl⟩, List.all_eq_true.mp rfl⟩
  have key : IsName "name".toList := ⟨⟨'n', _, rfl, rfl⟩, List.all_eq_true.mp rfl⟩
  have tag : IsName "description".toList := ⟨⟨'d', _, rfl, rfl⟩, List.all_eq_true.mp rfl⟩
  have declares : "name".toList ≠ "xmlns".toList := by decide
  have nothing : TextOk [] := fun _ no => (nomatch no)
  refine .intro ⟨entry, ?_, List.nodup_singleton _, ?_, nothing, nothing⟩ ?_
  · intro a member
    obtain rfl := List.mem_singleton.mp member
    exact ⟨key, declares⟩
  · intro a member
    obtain rfl := List.mem_singleton.mp member
    exact named
  · intro c member
    obtain rfl := List.mem_singleton.mp member
    exact .intro ⟨tag, fun a no => (nomatch no), List.nodup_nil, fun a no => (nomatch no), ok, nothing⟩ fun c no => (nomatch no)

/-- Two lines and a tab in a text, and a quote in an attribute. -/
theorem two_lines_saved : SavedLosslessly (described "the \"web\"".toList "web\n\tand mail".toList) := by
  have quoted : Plain "the \"web\"".toList := by decide
  exact (saved_losslessly_iff rfl (described_writable (by decide) (by decide))).mpr <|
    .intro ⟨fun a member => List.mem_singleton.mp member ▸ quoted, fun no => (nomatch no)⟩ fun c member => by
      obtain rfl := List.mem_singleton.mp member
      exact .intro ⟨fun a no => (nomatch no), fun _ => ⟨by decide, by decide⟩⟩ fun c no => (nomatch no)

/-- Two paragraphs become two lines. -/
theorem paragraphs_lost :
    Everywhere OwnWritable (described "web".toList "web\n\nmail".toList) ∧
      ¬ SavedLosslessly (described "web".toList "web\n\nmail".toList) := by
  have writable : Everywhere OwnWritable (described "web".toList "web\n\nmail".toList) := described_writable (by decide) (by decide)
  refine ⟨writable, fun ⟨file, read, written, loaded, same, _⟩ => ?_⟩
  obtain ⟨file', written', loaded'⟩ := load_saved rfl writable
  obtain rfl := Option.some.inj (written.symm.trans written')
  obtain rfl := Option.some.inj (loaded.symm.trans loaded')
  rw [content_saved] at same
  have kept : Kept "web\n\nmail".toList := (((lasting_iff _).mp same).inside _ List.mem_cons_self).own.text rfl
  exact absurd (kept.2 [] (by decide)) (by decide)

end losses

end FfnNgfw.Config.Saving
