import Mathlib.Data.List.Basic
import Mathlib.Tactic.Common

/-!
# Element trees

An element has a tag, attributes, a text and children. A position is a list of child
numbers; `sub` is the element there. What stands behind an element is not part of it.
-/

namespace FfnNgfw

inductive Xml (α : Type) where
  | node (tag : α) (attrs : List (α × α)) (text : Option α) (children : List (Xml α))

namespace Xml

variable {α : Type}

def tag : Xml α → α
  | node tag _ _ _ => tag

def attrs : Xml α → List (α × α)
  | node _ attrs _ _ => attrs

def text : Xml α → Option α
  | node _ _ text _ => text

def children : Xml α → List (Xml α)
  | node _ _ _ children => children

def withChildren (e : Xml α) (children : List (Xml α)) : Xml α := node e.tag e.attrs e.text children

@[simp] theorem children_withChildren (e : Xml α) (cs : List (Xml α)) : (e.withChildren cs).children = cs := rfl

def sub : Xml α → List Nat → Option (Xml α)
  | e, [] => some e
  | e, i :: rest => (e.children[i]?).bind fun child => child.sub rest

@[simp] theorem sub_nil (e : Xml α) : e.sub [] = some e := rfl

theorem sub_cons (e : Xml α) (i : Nat) (rest : List Nat) : e.sub (i :: rest) = (e.children[i]?).bind fun child => child.sub rest := rfl

variable {e x t : Xml α} {pos : List Nat}

theorem sub_cons_some {i : Nat} {rest : List Nat} (h : e.sub (i :: rest) = some x) :
    ∃ child, e.children[i]? = some child ∧ child.sub rest = some x := Option.bind_eq_some_iff.mp h

section

variable [DecidableEq α]

/-- `element.get` -/
def get (e : Xml α) (key : α) : Option α := (e.attrs.find? (·.1 = key)).map Prod.snd

/-- `element.findall`, of one tag -/
def findall (e : Xml α) (tag : α) : List (Xml α) := e.children.filter (·.tag = tag)

end

theorem sub_append (e : Xml α) (p q : List Nat) : e.sub (p ++ q) = (e.sub p).bind fun x => x.sub q := by
  induction p generalizing e with
  | nil => rfl
  | cons i rest ih =>
    rw [List.cons_append, sub_cons, sub_cons, Option.bind_assoc]
    exact Option.bind_congr fun child _ => ih child

/-- Another element at a position; the tree itself where there is no such position. -/
def replaceAt : Xml α → List Nat → Xml α → Xml α
  | _, [], x => x
  | e, i :: rest, x =>
    match e.children[i]? with
    | some child => e.withChildren (e.children.set i (child.replaceAt rest x))
    | none => e

theorem sub_replaceAt (there : t.sub pos = some e) (q : List Nat) :
    (t.replaceAt pos x).sub (pos ++ q) = x.sub q := by
  induction pos generalizing t with
  | nil => rfl
  | cons i rest ih =>
    obtain ⟨child, found, below⟩ := sub_cons_some there
    rw [replaceAt, found, List.cons_append, sub_cons, children_withChildren,
      List.getElem?_set_self (List.getElem?_eq_some_iff.mp found).1]
    exact ih below

theorem replaceAt_append (there : t.sub pos = some e) (q : List Nat) :
    t.replaceAt (pos ++ q) x = t.replaceAt pos (e.replaceAt q x) := by
  induction pos generalizing t with
  | nil =>
    cases there
    rfl
  | cons i rest ih =>
    obtain ⟨child, found, below⟩ := sub_cons_some there
    rw [List.cons_append, replaceAt, replaceAt, found]
    dsimp only
    rw [ih below]

/-- `t'` is `t` with `e` at the position: an element that is not under it stands where it
stood, and unless it is on the way to it nothing in it has changed. What is new is under the
position, or on the way to it and holds nothing else. -/
structure Placed (t t' e : Xml α) (place : List Nat) : Prop where
  found : t'.sub place = some e
  kept : ∀ p x, t.sub p = some x → ¬ place <+: p →
    ∃ x', t'.sub p = some x' ∧ x'.tag = x.tag ∧ x'.attrs = x.attrs ∧ x'.text = x.text ∧ (¬ p <+: place → x' = x)
  fresh : ∀ p x, t.sub p = none → t'.sub p = some x → place <+: p ∨ (p <+: place ∧ x.text = none ∧ x.children.length = 1)

theorem placed_set {i : Nat} (inside : i < t.children.length) :
    Placed t (t.withChildren (t.children.set i e)) e [i] := by
  refine ⟨?_, fun p x found off => ?_, fun p x absent present => ?_⟩
  · rw [sub_cons, children_withChildren, List.getElem?_set_self inside]
    rfl
  · cases p with
    | nil =>
      cases found
      exact ⟨_, rfl, rfl, rfl, rfl, fun above => absurd (List.nil_prefix) above⟩
    | cons j rest =>
      have other : i ≠ j := by
        rintro rfl
        exact off (List.cons_prefix_cons.mpr ⟨rfl, List.nil_prefix⟩)
      refine ⟨x, ?_, rfl, rfl, rfl, fun _ => rfl⟩
      rw [sub_cons, children_withChildren, List.getElem?_set_ne other]
      exact found
  · cases p with
    | nil => cases absent
    | cons j rest =>
      by_cases same : i = j
      · subst same
        exact .inl (List.cons_prefix_cons.mpr ⟨rfl, List.nil_prefix⟩)
      · rw [sub_cons, children_withChildren, List.getElem?_set_ne same, ← sub_cons, absent] at present
        cases present

theorem placed_append (t e : Xml α) : Placed t (t.withChildren (t.children ++ [e])) e [t.children.length] := by
  refine ⟨?_, fun p x found off => ?_, fun p x absent present => ?_⟩
  · rw [sub_cons, children_withChildren]
    simp
  · cases p with
    | nil =>
      cases found
      exact ⟨_, rfl, rfl, rfl, rfl, fun above => absurd (List.nil_prefix) above⟩
    | cons j rest =>
      obtain ⟨child, there, below⟩ := sub_cons_some found
      refine ⟨x, ?_, rfl, rfl, rfl, fun _ => rfl⟩
      rw [sub_cons, children_withChildren, List.getElem?_append_left (List.getElem?_eq_some_iff.mp there).1, there]
      exact below
  · cases p with
    | nil => cases absent
    | cons j rest =>
      rw [sub_cons, children_withChildren] at present
      by_cases old : j < t.children.length
      · rw [List.getElem?_append_left old, ← sub_cons, absent] at present
        cases present
      · by_cases last : j = t.children.length
        · subst last
          exact .inl (List.cons_prefix_cons.mpr ⟨rfl, List.nil_prefix⟩)
        · have beyond : (t.children ++ [e])[j]? = none := List.getElem?_eq_none (by simp; omega)
          rw [beyond] at present
          cases present

theorem Placed.set {t e c c' : Xml α} {i : Nat} {place : List Nat} (there : t.children[i]? = some c) (h : Placed c c' e place) :
    Placed t (t.withChildren (t.children.set i c')) e (i :: place) := by
  have inside := (List.getElem?_eq_some_iff.mp there).1
  have here (rest : List Nat) : (t.withChildren (t.children.set i c')).sub (i :: rest) = c'.sub rest := by
    rw [sub_cons, children_withChildren, List.getElem?_set_self inside]
    rfl
  have there' (rest : List Nat) : t.sub (i :: rest) = c.sub rest := by
    rw [sub_cons, there]
    rfl
  refine ⟨by rw [here]; exact h.found, fun p x found off => ?_, fun p x absent present => ?_⟩
  · cases p with
    | nil =>
      cases found
      exact ⟨_, rfl, rfl, rfl, rfl, fun above => absurd (List.nil_prefix) above⟩
    | cons j rest =>
      by_cases same : i = j
      · subst same
        rw [there'] at found
        obtain ⟨x', found', facts, facts', facts'', equal⟩ := h.kept rest x found fun under =>
            off (List.cons_prefix_cons.mpr ⟨rfl, under⟩)
        refine ⟨x', by rw [here]; exact found', facts, facts', facts'', fun above => equal fun above' => ?_⟩
        exact above (List.cons_prefix_cons.mpr ⟨rfl, above'⟩)
      · refine ⟨x, ?_, rfl, rfl, rfl, fun _ => rfl⟩
        rw [sub_cons, children_withChildren, List.getElem?_set_ne same]
        exact found
  · cases p with
    | nil => cases absent
    | cons j rest =>
      by_cases same : i = j
      · subst same
        rw [there'] at absent
        rw [here] at present
        rcases h.fresh rest x absent present with under | ⟨above, bare⟩
        · exact .inl (List.cons_prefix_cons.mpr ⟨rfl, under⟩)
        · exact .inr ⟨List.cons_prefix_cons.mpr ⟨rfl, above⟩, bare⟩
      · rw [sub_cons, children_withChildren, List.getElem?_set_ne same, ← sub_cons, absent] at present
        cases present

theorem Placed.append {t e c' : Xml α} {place : List Nat} (found : c'.sub place = some e)
    (alone : ∀ p x, c'.sub p = some x → place <+: p ∨ (p <+: place ∧ x.text = none ∧ x.children.length = 1)) :
    Placed t (t.withChildren (t.children ++ [c'])) e (t.children.length :: place) := by
  have added := placed_append t c'
  have here (rest : List Nat) : (t.withChildren (t.children ++ [c'])).sub (t.children.length :: rest) = c'.sub rest := by
    rw [sub_cons, children_withChildren]
    simp
  refine ⟨by rw [here]; exact found, fun p x there off => ?_, fun p x absent present => ?_⟩
  · have outside : ¬ [t.children.length] <+: p := by
      rintro ⟨rest, rfl⟩
      obtain ⟨child, there, -⟩ := sub_cons_some there
      have inside := (List.getElem?_eq_some_iff.mp there).1
      omega
    obtain ⟨x', found', facts, facts', facts'', equal⟩ := added.kept p x there outside
    refine ⟨x', found', facts, facts', facts'', fun above => equal fun above' => above ?_⟩
    exact above'.trans (List.cons_prefix_cons.mpr ⟨rfl, List.nil_prefix⟩)
  · rcases added.fresh p x absent present with ⟨rest, rfl⟩ | ⟨above, bare⟩
    · rw [List.singleton_append] at present ⊢
      rw [here] at present
      rcases alone rest x present with under | ⟨above, bare⟩
      · exact .inl (List.cons_prefix_cons.mpr ⟨rfl, under⟩)
      · exact .inr ⟨List.cons_prefix_cons.mpr ⟨rfl, above⟩, bare⟩
    · exact .inr ⟨above.trans (List.cons_prefix_cons.mpr ⟨rfl, List.nil_prefix⟩), bare⟩

theorem placed_self (t e : Xml α) : Placed t e e [] where
  found := rfl
  kept _ _ _ off := absurd List.nil_prefix off
  fresh _ _ _ _ := .inl List.nil_prefix

theorem Placed.under {t e e' x : Xml α} {pos q : List Nat} (there : t.sub pos = some e) (h : Placed e e' x q) :
    Placed t (t.replaceAt pos e') x (pos ++ q) := by
  induction pos generalizing t with
  | nil =>
    cases there
    exact h
  | cons i rest ih =>
    obtain ⟨child, found, below⟩ := sub_cons_some there
    rw [replaceAt, found]
    exact (ih below).set found

end Xml

end FfnNgfw
