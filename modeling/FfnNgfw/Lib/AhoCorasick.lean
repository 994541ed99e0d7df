import FfnNgfw.Lib.Dict
import Mathlib.Data.Finset.Card
import Mathlib.Data.List.Infix
import Mathlib.Data.List.Nodup
import Mathlib.Logic.Function.Basic

/-!
# Aho-Corasick

The automaton that finds every occurrence of many patterns in one pass. Patterns are put
into a trie; failure links, computed breadth first, lead from a node to the node of the
longest proper suffix of its word that the trie has; each node takes over the output of
its failure link. A scan keeps to the node of the longest suffix read.
-/

namespace FfnNgfw

/-- Node 0 is the root. Nodes are numbered as they come, up to `size`. -/
structure Automaton (α τ : Type) where
  size : Nat
  goto : Nat → Dict α Nat
  fail : Nat → Nat
  out : Nat → List τ

namespace Automaton

variable {α τ : Type} [DecidableEq α]

def empty : Automaton α τ := ⟨1, fun _ => ∅, fun _ => 0, fun _ => []⟩

/-- A new node below `node`. -/
def grow (a : Automaton α τ) (node : Nat) (b : α) : Automaton α τ where
  size := a.size + 1
  goto := Function.update (Function.update a.goto node ((a.goto node).assign b a.size)) a.size ∅
  fail := Function.update a.fail a.size 0
  out := Function.update a.out a.size []

/-- Walk the pattern down from `node`, growing what is missing. -/
def insertFrom (a : Automaton α τ) (node : Nat) : List α → Automaton α τ × Nat
  | [] => (a, node)
  | b :: p =>
    match (a.goto node).lookup b with
    | some next => insertFrom a next p
    | none => insertFrom (a.grow node b) a.size p

def add (a : Automaton α τ) (p : List α) (tag : τ) : Automaton α τ :=
  let (a, node) := a.insertFrom 0 p
  { a with out := Function.update a.out node (a.out node ++ [tag]) }

/-- Along the failure links to a node that goes on with `b`, or to the root. -/
def follow (a : Automaton α τ) (b : α) : Nat → Nat → Nat
  | 0, f => f
  | fuel + 1, f => if f ≠ 0 ∧ (a.goto f).lookup b = none then follow a b fuel (a.fail f) else f

def next (a : Automaton α τ) (f : Nat) (b : α) : Nat := ((a.goto (a.follow b a.size f)).lookup b).getD 0

/-- The failure link and the output of a child of `cur`. -/
def settle (cur : Nat) (a : Automaton α τ) (e : α × Nat) : Automaton α τ :=
  let f := a.next (a.fail cur) e.1
  { a with
    fail := Function.update a.fail e.2 f
    out := Function.update a.out e.2 (a.out e.2 ++ a.out f) }

def buildLoop : Nat → List Nat → Automaton α τ → Automaton α τ
  | 0, _, a => a
  | _, [], a => a
  | fuel + 1, cur :: queue, a =>
    buildLoop fuel (queue ++ (a.goto cur).items.map Prod.snd) ((a.goto cur).items.foldl (settle cur) a)

def build (a : Automaton α τ) : Automaton α τ :=
  let first := (a.goto 0).items.map Prod.snd
  buildLoop a.size first { a with fail := first.foldl (fun fail n => Function.update fail n 0) a.fail }

def scanFrom (a : Automaton α τ) (node i : Nat) : List α → List (Nat × τ)
  | [] => []
  | b :: data => (a.out (a.next node b)).map (fun t => (i, t)) ++ scanFrom a (a.next node b) (i + 1) data

def iterMatches (a : Automaton α τ) (data : List α) : List (Nat × τ) := a.scanFrom 0 0 data

def addAll (a : Automaton α τ) (ps : List (List α × τ)) : Automaton α τ := ps.foldl (fun a p => a.add p.1 p.2) a

/-! The loops as they run, `none` when a loop is not over after so many rounds. -/

def followIn (a : Automaton α τ) (b : α) : Nat → Nat → Option Nat
  | 0, f => if f ≠ 0 ∧ (a.goto f).lookup b = none then none else some f
  | fuel + 1, f => if f ≠ 0 ∧ (a.goto f).lookup b = none then followIn a b fuel (a.fail f) else some f

def nextIn (fuel : Nat) (a : Automaton α τ) (f : Nat) (b : α) : Option Nat :=
  (a.followIn b fuel f).map fun f => ((a.goto f).lookup b).getD 0

def settleIn (fuel cur : Nat) (a : Automaton α τ) (e : α × Nat) : Option (Automaton α τ) :=
  (a.nextIn fuel (a.fail cur) e.1).map fun f =>
    { a with
      fail := Function.update a.fail e.2 f
      out := Function.update a.out e.2 (a.out e.2 ++ a.out f) }

def buildLoopIn (walk : Nat) : Nat → List Nat → Automaton α τ → Option (Automaton α τ)
  | _, [], a => some a
  | 0, _ :: _, _ => none
  | fuel + 1, cur :: queue, a =>
    ((a.goto cur).items.foldlM (settleIn walk cur) a).bind fun a' => buildLoopIn walk fuel (queue ++ (a.goto cur).items.map Prod.snd) a'

def buildIn (fuel : Nat) (a : Automaton α τ) : Option (Automaton α τ) :=
  let first := (a.goto 0).items.map Prod.snd
  buildLoopIn fuel fuel first { a with fail := first.foldl (fun fail n => Function.update fail n 0) a.fail }

def scanFromIn (fuel : Nat) (a : Automaton α τ) (node i : Nat) : List α → Option (List (Nat × τ))
  | [] => some []
  | b :: data => do
    let node ← a.nextIn fuel node b
    let later ← scanFromIn fuel a node (i + 1) data
    return (a.out node).map (fun t => (i, t)) ++ later

def iterMatchesIn (fuel : Nat) (a : Automaton α τ) (data : List α) : Option (List (Nat × τ)) := a.scanFromIn fuel 0 0 data

/-! What is to be found. -/

def tagsOf (ps : List (List α × τ)) (w : List α) : List τ := (ps.filter fun p => p.1 = w).map Prod.snd

def tagsAt (ps : List (List α × τ)) (w : List α) : List τ := (ps.filter fun p => p.1 <:+ w).map Prod.snd

def occurrences (ps : List (List α × τ)) (data : List α) : List (Nat × τ) :=
  (List.range data.length).flatMap fun i => (tagsAt ps (data.take (i + 1))).map fun t => (i, t)

theorem addAll_concat (a : Automaton α τ) (ps : List (List α × τ)) (p : List α × τ) :
    a.addAll (ps ++ [p]) = (a.addAll ps).add p.1 p.2 := List.foldl_concat ..

structure Trie (a : Automaton α τ) (word : Nat → List α) : Prop where
  pos : 0 < a.size
  root : word 0 = []
  child : ∀ n < a.size, ∀ b m, (a.goto n).lookup b = some m ↔ m < a.size ∧ word m = word n ++ [b]
  inj : ∀ n < a.size, ∀ m < a.size, word n = word m → n = m
  parent : ∀ m < a.size, m ≠ 0 → ∃ n < a.size, ∃ b, word m = word n ++ [b]
  short : ∀ n < a.size, (word n).length < a.size

variable {a : Automaton α τ} {word : Nat → List α} {n m : Nat} {b : α}

theorem trie_empty : Trie (empty : Automaton α τ) fun _ => [] := by
  have one : (empty : Automaton α τ).size = 1 := rfl
  refine ⟨Nat.zero_lt_one, rfl, fun n _ b m => ?_, fun n small m small' _ => ?_, fun m small some' => ?_, fun n _ => Nat.zero_lt_one⟩
  · simp [empty]
  · omega
  · omega

section grow

variable (trie : Trie a word) (inside : n < a.size) (missing : (a.goto n).lookup b = none)
include trie inside missing

theorem Trie.fresh : ∀ m < a.size, word m ≠ word n ++ [b] := by
  intro m small eq
  have found := (trie.child n inside b m).mpr ⟨small, eq⟩
  rw [missing] at found
  cases found

theorem Trie.fresh_below : ∀ m < a.size, ∀ c, word m ≠ word n ++ [b] ++ [c] := by
  intro m small c eq
  have nonroot : m ≠ 0 := by
    rintro rfl
    rw [trie.root] at eq
    simp at eq
  obtain ⟨l, small', c', split⟩ := trie.parent m small nonroot
  have ends := List.append_inj' (split.symm.trans eq) rfl
  exact trie.fresh inside missing l small' ends.1

theorem Trie.grow_child (m : Nat) (small : m < a.size + 1) (c : α) (l : Nat) :
    ((a.grow n b).goto m).lookup c = some l ↔
      l < a.size + 1 ∧ Function.update word a.size (word n ++ [b]) l = Function.update word a.size (word n ++ [b]) m ++ [c] := by
  have old : ∀ m < a.size, Function.update word a.size (word n ++ [b]) m = word m :=
    fun m small => Function.update_of_ne (Nat.ne_of_lt small) _ _
  have new : Function.update word a.size (word n ++ [b]) a.size = word n ++ [b] := Function.update_self ..
  by_cases last : m = a.size
  · subst last
    rw [new]
    refine iff_of_false (by simp [Automaton.grow]) ?_
    rintro ⟨small', eq⟩
    by_cases self : l = a.size
    · rw [self, new] at eq
      have := congrArg List.length eq
      simp at this
    · have small' : l < a.size := by omega
      rw [old l small'] at eq
      exact trie.fresh_below inside missing l small' c eq
  · have small : m < a.size := by omega
    rw [old m small]
    have goto : ((a.grow n b).goto m).lookup c = if m = n ∧ c = b then some a.size else (a.goto m).lookup c := by
      simp only [Automaton.grow, Function.update_of_ne last]
      by_cases here : m = n
      · subst here
        simp only [Function.update_self, Dict.lookup_assign, true_and]
      · simp only [Function.update_of_ne here, here, false_and, if_false]
    rw [goto]
    split
    · rename_i here
      obtain ⟨rfl, rfl⟩ := here
      constructor
      · intro same
        obtain rfl := Option.some.inj same
        exact ⟨Nat.lt_succ_self _, new⟩
      · rintro ⟨small', eq⟩
        by_cases self : l = a.size
        · rw [self]
        · have small' : l < a.size := by omega
          rw [old l small'] at eq
          exact absurd eq (trie.fresh inside missing l small')
    · rename_i other
      rw [trie.child m small]
      constructor
      · rintro ⟨small', eq⟩
        exact ⟨by omega, by rw [old l small', eq]⟩
      · rintro ⟨small', eq⟩
        by_cases self : l = a.size
        · rw [self, new] at eq
          obtain ⟨same, last⟩ := List.append_inj' eq rfl
          exact absurd ⟨trie.inj m small n inside same.symm, (List.cons.inj last).1.symm⟩ other
        · have small' : l < a.size := by omega
          rw [old l small'] at eq
          exact ⟨small', eq⟩

theorem Trie.grow : Trie (a.grow n b) (Function.update word a.size (word n ++ [b])) := by
  have old : ∀ m < a.size, Function.update word a.size (word n ++ [b]) m = word m :=
    fun m small => Function.update_of_ne (Nat.ne_of_lt small) _ _
  have new : Function.update word a.size (word n ++ [b]) a.size = word n ++ [b] := Function.update_self ..
  have sized : (a.grow n b).size = a.size + 1 := rfl
  refine ⟨Nat.succ_pos a.size, (old 0 trie.pos).trans trie.root, trie.grow_child inside missing, ?_, ?_, ?_⟩
  · intro m small l small' eq
    rw [sized] at small small'
    by_cases first : m = a.size <;> by_cases second : l = a.size
    · rw [first, second]
    · rw [first, new, old l (by omega)] at eq
      exact absurd eq.symm (trie.fresh inside missing l (by omega))
    · rw [second, new, old m (by omega)] at eq
      exact absurd eq (trie.fresh inside missing m (by omega))
    · rw [old m (by omega), old l (by omega)] at eq
      exact trie.inj m (by omega) l (by omega) eq
  · intro m small nonroot
    rw [sized] at small
    by_cases last : m = a.size
    · exact ⟨n, by omega, b, by rw [last, new, old n inside]⟩
    · obtain ⟨l, small', c, split⟩ := trie.parent m (by omega) nonroot
      exact ⟨l, by omega, c, by rw [old m (by omega), old l small', split]⟩
  · intro m small
    rw [sized] at small ⊢
    by_cases last : m = a.size
    · have := trie.short n inside
      rw [last, new, List.length_append, List.length_singleton]
      omega
    · have := trie.short m (by omega)
      rw [old m (by omega)]
      omega

end grow

/-- The outputs before the failure links are followed: the tags of the patterns that end
at the node. -/
structure Holds (a : Automaton α τ) (word : Nat → List α) (ps : List (List α × τ)) : Prop where
  trie : Trie a word
  out : ∀ n < a.size, (a.out n).Perm (tagsOf ps (word n))
  stored : ∀ p t, (p, t) ∈ ps → ∃ n < a.size, word n = p

variable {w data : List α} {fuel : Nat}

theorem mem_tagsOf {ps : List (List α × τ)} {t : τ} : t ∈ tagsOf ps w ↔ (w, t) ∈ ps := by
  simp [tagsOf]

theorem mem_tagsAt {ps : List (List α × τ)} {t : τ} : t ∈ tagsAt ps w ↔ ∃ p, (p, t) ∈ ps ∧ p <:+ w := by
  simp [tagsAt]

theorem tagsOf_concat (ps : List (List α × τ)) (p w : List α) (t : τ) :
    tagsOf (ps ++ [(p, t)]) w = tagsOf ps w ++ if p = w then [t] else [] := by
  unfold tagsOf
  rw [List.filter_append, List.map_append]
  congr 1
  by_cases here : p = w
  · simp [here]
  · simp [here]

theorem Holds.grow {ps : List (List α × τ)} (holds : Holds a word ps) (inside : n < a.size)
    (missing : (a.goto n).lookup b = none) : Holds (a.grow n b) (Function.update word a.size (word n ++ [b])) ps := by
  have old : ∀ m < a.size, Function.update word a.size (word n ++ [b]) m = word m :=
    fun m small => Function.update_of_ne (Nat.ne_of_lt small) _ _
  refine ⟨holds.trie.grow inside missing, fun m small => ?_, fun p t member => ?_⟩
  · have small : m < a.size + 1 := small
    by_cases last : m = a.size
    · subst last
      simp only [Automaton.grow, Function.update_self]
      have none' : tagsOf ps (word n ++ [b]) = [] := by
        apply List.eq_nil_iff_forall_not_mem.mpr
        intro t member
        obtain ⟨l, small', eq⟩ := holds.stored _ t (mem_tagsOf.mp member)
        exact holds.trie.fresh inside missing l small' eq
      rw [none']
    · simp only [Automaton.grow, Function.update_of_ne last]
      exact holds.out m (by omega)
  · obtain ⟨l, small', eq⟩ := holds.stored p t member
    exact ⟨l, Nat.lt_succ_of_lt small', by rw [old l small', eq]⟩

theorem Holds.insertFrom {ps : List (List α × τ)} (p : List α) (holds : Holds a word ps) (inside : n < a.size) :
    ∃ word', Holds (a.insertFrom n p).1 word' ps ∧ (a.insertFrom n p).2 < (a.insertFrom n p).1.size ∧
      word' (a.insertFrom n p).2 = word n ++ p := by
  induction p generalizing a word n with
  | nil => exact ⟨word, holds, inside, (List.append_nil _).symm⟩
  | cons b p ih =>
    rw [Automaton.insertFrom]
    cases found : (a.goto n).lookup b with
    | some m =>
      obtain ⟨small, eq⟩ := (holds.trie.child n inside b m).mp found
      obtain ⟨word', holds', inside', ends⟩ := ih holds small
      exact ⟨word', holds', inside', by rw [ends, eq, List.append_assoc]; rfl⟩
    | none =>
      obtain ⟨word', holds', inside', ends⟩ := ih (holds.grow inside found) (Nat.lt_succ_self a.size)
      exact ⟨word', holds', inside', by rw [ends, Function.update_self, List.append_assoc]; rfl⟩

theorem Holds.add {ps : List (List α × τ)} (holds : Holds a word ps) (p : List α) (tag : τ) :
    ∃ word', Holds (a.add p tag) word' (ps ++ [(p, tag)]) := by
  obtain ⟨word', holds', inside, ends⟩ := holds.insertFrom p holds.trie.pos
  rw [holds.trie.root, List.nil_append] at ends
  have added : a.add p tag = { (a.insertFrom 0 p).1 with
      out := Function.update (a.insertFrom 0 p).1.out (a.insertFrom 0 p).2 ((a.insertFrom 0 p).1.out (a.insertFrom 0 p).2 ++
      [tag]) } := rfl
  rw [added]
  generalize (a.insertFrom 0 p).1 = a', (a.insertFrom 0 p).2 = node at *
  obtain ⟨trie, out, stored⟩ := holds'
  refine ⟨word', ⟨trie.pos, trie.root, trie.child, trie.inj, trie.parent, trie.short⟩, fun n small => ?_, fun q t member => ?_⟩
  · have own := out n small
    rw [tagsOf_concat]
    by_cases here : n = node
    · subst here
      simp only [Function.update_self, ends, if_true]
      exact (ends ▸ own).append_right [tag]
    · have other : p ≠ word' n := fun same => here (trie.inj n small node inside (same.symm.trans ends.symm))
      simp only [Function.update_of_ne here, other, if_false, List.append_nil]
      exact own
  · rcases List.mem_append.mp member with before | new
    · exact stored q t before
    · obtain ⟨rfl, rfl⟩ := Prod.mk.inj (List.mem_singleton.mp new)
      exact ⟨node, inside, ends⟩

theorem holds_addAll (ps : List (List α × τ)) : ∃ word, Holds ((empty : Automaton α τ).addAll ps) word ps := by
  have from' : ∀ (a : Automaton α τ) (word : Nat → List α) (before : List (List α × τ)), Holds a word before →
      ∃ word', Holds (a.addAll ps) word' (before ++ ps) := by
    induction ps with
    | nil =>
      intro a word before holds
      exact ⟨word, by rwa [List.append_nil]⟩
    | cons p ps ih =>
      intro a word before holds
      obtain ⟨word', holds'⟩ := holds.add p.1 p.2
      obtain ⟨word'', holds''⟩ := ih _ word' _ holds'
      rw [List.append_assoc] at holds''
      exact ⟨word'', holds''⟩
  exact from' empty _ [] ⟨trie_empty, fun n _ => by simp [empty, tagsOf], fun p t member => by cases member⟩

/-! ### The longest suffix -/

/-- `u` is the longest suffix of `w` that is the word of a node. -/
structure Best (a : Automaton α τ) (word : Nat → List α) (w : List α) (n : Nat) : Prop where
  inside : n < a.size
  suffix : word n <:+ w
  longest : ∀ m < a.size, word m <:+ w → (word m).length ≤ (word n).length

omit [DecidableEq α] in
theorem Best.suffix_iff (best : Best a word w n) (inside : m < a.size) : word m <:+ w ↔ word m <:+ word n := by
  constructor
  · intro ends
    exact List.suffix_of_suffix_length_le ends best.suffix (best.longest m inside ends)
  · intro ends
    exact ends.trans best.suffix

theorem Trie.best_nil (trie : Trie a word) : Best a word [] 0 := by
  refine ⟨trie.pos, by rw [trie.root], fun m _ ends => ?_⟩
  rw [List.suffix_nil.mp ends]
  exact Nat.zero_le _

theorem Trie.nonempty (trie : Trie a word) (inside : n < a.size) (nonroot : n ≠ 0) : word n ≠ [] := by
  intro empty
  exact nonroot (trie.inj n inside 0 trie.pos (empty.trans trie.root.symm))

theorem Trie.node_of_prefix (trie : Trie a word) {v : List α} (inside : m < a.size) (eq : word m = v ++ [b]) :
    ∃ l < a.size, word l = v := by
  have nonroot : m ≠ 0 := by
    rintro rfl
    rw [trie.root] at eq
    simp at eq
  obtain ⟨l, small, c, split⟩ := trie.parent m inside nonroot
  exact ⟨l, small, (List.append_inj' (split.symm.trans eq) rfl).1⟩

/-- The failure link of a node leads to the longest proper suffix. -/
def Linked (a : Automaton α τ) (word : Nat → List α) (n : Nat) : Prop := Best a word (word n).tail (a.fail n)

omit [DecidableEq α] in
theorem suffix_tail {u v : List α} (ends : v <:+ u) (proper : v.length ≠ u.length) : v <:+ u.tail := by
  cases u with
  | nil => exact ends
  | cons x u =>
    rcases List.suffix_cons_iff.mp ends with same | inside
    · exact absurd (congrArg List.length same) proper
    · exact inside

/-- From a node that is at least as long as what can go on with `b`, the failure links
lead to the longest that does. -/
theorem follow_best (trie : Trie a word) (inside : n < a.size) (ends : word n <:+ w)
    (linked : ∀ m < a.size, m ≠ 0 → (word m).length ≤ (word n).length → Linked a word m)
    (reach : ∀ m < a.size, ∀ v, word m = v ++ [b] → v <:+ w → v.length ≤ (word n).length) (enough : (word n).length < fuel) :
    Best a word (w ++ [b]) (((a.goto (a.follow b fuel n)).lookup b).getD 0) := by
  induction fuel generalizing n with
  | zero => omega
  | succ fuel ih =>
    rw [follow]
    split
    · rename_i fails
      obtain ⟨nonroot, missing⟩ := fails
      have best : Best a word (word n).tail (a.fail n) := linked n inside nonroot (Nat.le_refl _)
      have shorter : (word (a.fail n)).length < (word n).length := by
        have bound := best.suffix.length_le
        have some' := List.length_pos_of_ne_nil (trie.nonempty inside nonroot)
        rw [List.length_tail] at bound
        omega
      apply ih best.inside ((best.suffix.trans (List.tail_suffix _)).trans ends)
      · intro m small nonroot' short
        exact linked m small nonroot' (by omega)
      · intro m small v eq inside'
        have bound := reach m small v eq inside'
        have other : v.length ≠ (word n).length := by
          intro same
          have equal : v = word n := (List.suffix_of_suffix_length_le inside' ends (by omega)).eq_of_length same
          have found := (trie.child n inside b m).mpr ⟨small, by rw [eq, equal]⟩
          rw [missing] at found
          cases found
        obtain ⟨l, small', named⟩ := trie.node_of_prefix small eq
        rw [← named]
        apply best.longest l small'
        rw [named]
        exact suffix_tail (List.suffix_of_suffix_length_le inside' ends bound) other
      · omega
    · rename_i stops
      cases found : (a.goto n).lookup b with
      | some l =>
        obtain ⟨small, eq⟩ := (trie.child n inside b l).mp found
        refine ⟨small, ?_, fun m small' ends' => ?_⟩
        · rw [Option.getD_some, eq]
          exact List.suffix_append_self_iff.mpr ends
        · rw [Option.getD_some, eq, List.length_append, List.length_singleton]
          rcases List.suffix_concat_iff.mp ends' with empty | ⟨v, split, inside'⟩
          · rw [empty]
            exact Nat.zero_le _
          · have bound := reach m small' v split inside'
            rw [split, List.length_append, List.length_singleton]
            omega
      | none =>
        have root : n = 0 := by
          by_contra nonroot
          exact stops ⟨nonroot, found⟩
        subst root
        rw [Option.getD_none]
        refine ⟨trie.pos, by rw [trie.root]; exact List.nil_suffix, fun m small' ends' => ?_⟩
        rcases List.suffix_concat_iff.mp ends' with empty | ⟨v, split, inside'⟩
        · rw [empty]
          exact Nat.zero_le _
        · have bound := reach m small' v split inside'
          rw [trie.root, List.length_nil, Nat.le_zero, List.length_eq_zero_iff] at bound
          have child := (trie.child 0 inside b m).mpr ⟨small', by rw [split, bound, trie.root]⟩
          rw [found] at child
          cases child

theorem next_best (trie : Trie a word) (best : Best a word w n)
    (linked : ∀ m < a.size, m ≠ 0 → (word m).length ≤ (word n).length → Linked a word m) (b : α) :
    Best a word (w ++ [b]) (a.next n b) := by
  apply follow_best trie best.inside best.suffix linked
  · intro m small v eq ends
    obtain ⟨l, small', named⟩ := trie.node_of_prefix small eq
    rw [← named] at ends ⊢
    exact best.longest l small' ends
  · exact trie.short n best.inside

theorem followIn_eq (trie : Trie a word) (b : α) {fuel fuel' : Nat} (inside : n < a.size)
    (linked : ∀ m < a.size, m ≠ 0 → (word m).length ≤ (word n).length → Linked a word m) (enough : (word n).length ≤ fuel)
    (enough' : (word n).length ≤ fuel') : a.followIn b fuel n = some (a.follow b fuel' n) := by
  induction fuel generalizing n fuel' with
  | zero =>
    have root : n = 0 := by
      by_contra nonroot
      have := List.length_pos_of_ne_nil (trie.nonempty inside nonroot)
      omega
    subst root
    cases fuel' <;> simp [followIn, follow]
  | succ fuel ih =>
    by_cases fails : n ≠ 0 ∧ (a.goto n).lookup b = none
    · have some' := List.length_pos_of_ne_nil (trie.nonempty inside fails.1)
      have best : Best a word (word n).tail (a.fail n) := linked n inside fails.1 (Nat.le_refl _)
      have shorter := best.suffix.length_le
      rw [List.length_tail] at shorter
      obtain ⟨k, rfl⟩ : ∃ k, fuel' = k + 1 := ⟨fuel' - 1, by omega⟩
      rw [followIn, follow, if_pos fails, if_pos fails]
      apply ih best.inside
      · intro m small nonroot short
        exact linked m small nonroot (by omega)
      · omega
      · omega
    · rw [followIn, if_neg fails]
      cases fuel' with
      | zero => rfl
      | succ k => rw [follow, if_neg fails]

theorem nextIn_eq (trie : Trie a word) (b : α) (inside : n < a.size)
    (linked : ∀ m < a.size, m ≠ 0 → (word m).length ≤ (word n).length → Linked a word m) (enough : a.size ≤ fuel) :
    a.nextIn fuel n b = some (a.next n b) := by
  have short := trie.short n inside
  rw [nextIn, followIn_eq trie b inside linked (by omega) (Nat.le_of_lt short)]
  rfl

/-! ### Failure links, breadth first -/

section build

variable {ps : List (List α × τ)} {cur : Nat}

structure Done (a : Automaton α τ) (word : Nat → List α) (ps : List (List α × τ)) (n : Nat) : Prop where
  linked : n ≠ 0 → Linked a word n
  out : (a.out n).Perm (tagsAt ps (word n))

def Fresh (a : Automaton α τ) (word : Nat → List α) (ps : List (List α × τ)) (n : Nat) : Prop :=
  (a.out n).Perm (tagsOf ps (word n))

/-- What `build` never changes. -/
structure Frame (a a' : Automaton α τ) : Prop where
  size : a'.size = a.size
  goto : a'.goto = a.goto

variable {a' : Automaton α τ} {queue : List Nat} {waits : Finset Nat}

theorem Trie.frame (trie : Trie a word) (frame : Frame a a') : Trie a' word := by
  obtain ⟨size, goto⟩ := frame
  refine ⟨?_, trie.root, ?_, ?_, ?_, ?_⟩
  all_goals rw [size]
  · exact trie.pos
  · rw [goto]
    exact trie.child
  · exact trie.inj
  · exact trie.parent
  · exact trie.short

omit [DecidableEq α] in
theorem Best.frame {w : List α} (frame : Frame a a') : Best a' word w n ↔ Best a word w n := by
  obtain ⟨size, -⟩ := frame
  constructor
  · rintro ⟨inside, suffix, longest⟩
    rw [size] at inside longest
    exact ⟨inside, suffix, longest⟩
  · rintro ⟨inside, suffix, longest⟩
    rw [← size] at inside longest
    exact ⟨inside, suffix, longest⟩

theorem settle_frame (cur : Nat) (a : Automaton α τ) (e : α × Nat) : Frame a (settle cur a e) := ⟨rfl, rfl⟩

theorem settle_other (cur : Nat) (a : Automaton α τ) (e : α × Nat) (other : n ≠ e.2) :
    (settle cur a e).fail n = a.fail n ∧ (settle cur a e).out n = a.out n :=
  ⟨Function.update_of_ne other _ _, Function.update_of_ne other _ _⟩

theorem Done.keep (frame : Frame a a') (fail : a'.fail n = a.fail n) (out : a'.out n = a.out n)
    (done : Done a word ps n) : Done a' word ps n := by
  refine ⟨fun nonroot => ?_, by rw [out]; exact done.out⟩
  rw [Linked, fail, Best.frame frame]
  exact done.linked nonroot

/-- The patterns that a word ends with: the word itself, and those its longest proper
suffix in the trie ends with. -/
theorem tagsAt_split (stored : ∀ p t, (p, t) ∈ ps → ∃ n < a.size, word n = p) {w : List α} {f : Nat} (nonempty : w ≠ [])
    (best : Best a word w.tail f) : (tagsOf ps w ++ tagsAt ps (word f)).Perm (tagsAt ps w) := by
  unfold tagsOf tagsAt
  rw [← List.map_append]
  apply List.Perm.map
  refine List.Perm.trans ?_ (List.filter_append_perm (fun p => p.1 = w) (ps.filter fun p => p.1 <:+ w))
  rw [List.filter_filter, List.filter_filter]
  have own : (ps.filter fun p => p.1 = w) = ps.filter fun p => p.1 = w && p.1 <:+ w := by
    apply List.filter_congr
    intro p _
    by_cases same : p.1 = w
    · simp [same]
    · simp [same]
  have proper : (ps.filter fun p => p.1 <:+ word f) = ps.filter fun p => !decide (p.1 = w) && p.1 <:+ w := by
    apply List.filter_congr
    rintro ⟨p, t⟩ member
    obtain ⟨l, small, rfl⟩ := stored p t member
    rw [Bool.eq_iff_iff, decide_eq_true_iff, Bool.and_eq_true, Bool.not_eq_true', decide_eq_false_iff_not, decide_eq_true_iff,
      ← best.suffix_iff small]
    have some' := List.length_pos_of_ne_nil nonempty
    constructor
    · intro ends
      refine ⟨fun same => ?_, ends.trans (List.tail_suffix _)⟩
      have short := ends.length_le
      rw [show word l = w from same, List.length_tail] at short
      omega
    · rintro ⟨other, ends⟩
      exact suffix_tail ends fun same => other (ends.eq_of_length same)
  rw [own, proper]

theorem settle_done (trie : Trie a word) (stored : ∀ p t, (p, t) ∈ ps → ∃ n < a.size, word n = p) (inside : cur < a.size)
    (nonroot : cur ≠ 0) (above : ∀ m < a.size, (word m).length ≤ (word cur).length → Done a word ps m)
    (child : (a.goto cur).lookup b = some n) (fresh : Fresh a word ps n) : Done (settle cur a (b, n)) word ps n := by
  obtain ⟨small, eq⟩ := (trie.child cur inside b n).mp child
  have best : Best a word (word cur).tail (a.fail cur) := (above cur inside (Nat.le_refl _)).linked nonroot
  have short : (word (a.fail cur)).length ≤ (word cur).length := (best.suffix.trans (List.tail_suffix _)).length_le
  have tail : (word n).tail = (word cur).tail ++ [b] := by
    rw [eq, List.tail_append_of_ne_nil (trie.nonempty inside nonroot)]
  have linked : Best a word (word n).tail (a.next (a.fail cur) b) := by
    rw [tail]
    exact next_best trie best (fun m small' nonroot' le => (above m small' (by omega)).linked nonroot') b
  have depth : (word (a.next (a.fail cur) b)).length ≤ (word cur).length := by
    have bound := linked.suffix.length_le
    rw [List.length_tail, eq, List.length_append, List.length_singleton] at bound
    omega
  have target := (above _ linked.inside depth).out
  have nonempty : word n ≠ [] := by simp [eq]
  refine ⟨fun _ => ?_, ?_⟩
  · rw [Linked, Best.frame (settle_frame cur a (b, n))]
    simpa only [settle, Function.update_self] using linked
  · simp only [settle, Function.update_self]
    exact (fresh.append target).trans (tagsAt_split stored nonempty linked)

theorem settleIn_eq (trie : Trie a word) (inside : cur < a.size) (nonroot : cur ≠ 0)
    (above : ∀ m < a.size, (word m).length ≤ (word cur).length → Done a word ps m) (e : α × Nat) {walk : Nat} (enough : a.size ≤ walk) :
    settleIn walk cur a e = some (settle cur a e) := by
  have best : Best a word (word cur).tail (a.fail cur) := (above cur inside (Nat.le_refl _)).linked nonroot
  have short : (word (a.fail cur)).length ≤ (word cur).length := (best.suffix.trans (List.tail_suffix _)).length_le
  rw [settleIn, nextIn_eq trie e.1 best.inside (fun m small nonroot' le => (above m small (by omega)).linked nonroot') enough]
  rfl

theorem settle_all (trie : Trie a word) (stored : ∀ p t, (p, t) ∈ ps → ∃ n < a.size, word n = p) (inside : cur < a.size)
    (nonroot : cur ≠ 0) (above : ∀ m < a.size, (word m).length ≤ (word cur).length → Done a word ps m)
    (es : List (α × Nat)) (children : ∀ e ∈ es, (a.goto cur).lookup e.1 = some e.2)
    (distinct : (es.map Prod.snd).Nodup) (fresh : ∀ e ∈ es, Fresh a word ps e.2) :
    Frame a (es.foldl (settle cur) a) ∧ (∀ e ∈ es, Done (es.foldl (settle cur) a) word ps e.2) ∧
      (∀ m, m ∉ es.map Prod.snd → (es.foldl (settle cur) a).fail m = a.fail m ∧ (es.foldl (settle cur) a).out m = a.out m) ∧
      ∀ walk, a.size ≤ walk → es.foldlM (settleIn walk cur) a = some (es.foldl (settle cur) a) := by
  induction es generalizing a with
  | nil =>
    refine ⟨⟨rfl, rfl⟩, ?_, fun m _ => ⟨rfl, rfl⟩, fun _ _ => rfl⟩
    intro e member
    cases member
  | cons e es ih =>
    obtain ⟨apart, distinct⟩ := List.nodup_cons.mp distinct
    have child := children e List.mem_cons_self
    have frame := settle_frame cur a e
    have here : Done (settle cur a e) word ps e.2 :=
      settle_done trie stored inside nonroot above child (fresh e List.mem_cons_self)
    have above' : ∀ m < a.size, (word m).length ≤ (word cur).length → Done (settle cur a e) word ps m := by
      intro m small short
      have other : m ≠ e.2 := by
        rintro rfl
        rw [((trie.child cur inside e.1 e.2).mp child).2, List.length_append, List.length_singleton] at short
        omega
      obtain ⟨fail, out⟩ := settle_other cur a e other
      exact (above m small short).keep frame fail out
    have fresh' : ∀ e' ∈ es, Fresh (settle cur a e) word ps e'.2 := by
      intro e' member
      have other : e'.2 ≠ e.2 := fun same => apart (same ▸ List.mem_map_of_mem member)
      rw [Fresh, (settle_other cur a e other).2]
      exact fresh e' (List.mem_cons_of_mem _ member)
    obtain ⟨frame', done, others, ended⟩ := ih (trie.frame frame) stored inside above'
      (fun e' member => children e' (List.mem_cons_of_mem _ member)) distinct fresh'
    rw [List.foldl_cons]
    refine ⟨⟨frame'.size, frame'.goto⟩, fun e' member => ?_, fun m outside => ?_, fun walk enough => ?_⟩
    · rcases List.mem_cons.mp member with rfl | later
      · obtain ⟨fail, out⟩ := others e'.2 apart
        exact here.keep frame' fail out
      · exact done e' later
    · rw [List.map_cons, List.mem_cons, not_or] at outside
      obtain ⟨fail, out⟩ := others m outside.2
      obtain ⟨fail', out'⟩ := settle_other cur a e outside.1
      exact ⟨fail.trans fail', out.trans out'⟩
    · rw [List.foldlM_cons, settleIn_eq trie inside nonroot above e enough]
      exact ended walk enough

/-- The children of a node, as `build` reads them off. -/
def kids (a : Automaton α τ) (n : Nat) : List Nat := (a.goto n).items.map Prod.snd

theorem Trie.mem_kids (trie : Trie a word) (inside : n < a.size) :
    m ∈ a.kids n ↔ m < a.size ∧ ∃ b, word m = word n ++ [b] := by
  rw [kids, List.mem_map]
  constructor
  · rintro ⟨e, member, rfl⟩
    obtain ⟨small, eq⟩ := (trie.child n inside e.1 e.2).mp (Dict.mem_items.mp member)
    exact ⟨small, e.1, eq⟩
  · rintro ⟨small, b, eq⟩
    exact ⟨(b, m), Dict.mem_items.mpr ((trie.child n inside b m).mpr ⟨small, eq⟩), rfl⟩

theorem Trie.kids_nodup (trie : Trie a word) (inside : n < a.size) : (a.kids n).Nodup := by
  apply List.Nodup.map_on ?_ (List.Nodup.of_map _ (Dict.items_nodup (a.goto n)))
  intro e member e' member' same
  have first := ((trie.child n inside e.1 e.2).mp (Dict.mem_items.mp member)).2
  have second := ((trie.child n inside e'.1 e'.2).mp (Dict.mem_items.mp member')).2
  rw [← same, first] at second
  have last := (List.cons.inj (List.append_cancel_left second)).1
  exact Prod.ext last same

/-- Breadth first: the nodes that wait hang below the queue, all others are done, and the
queue runs through the trie by depth. -/
structure Pending (a : Automaton α τ) (word : Nat → List α) (ps : List (List α × τ)) (queue : List Nat)
    (waits : Finset Nat) : Prop where
  trie : Trie a word
  stored : ∀ p t, (p, t) ∈ ps → ∃ n < a.size, word n = p
  queued : ∀ q ∈ queue, q < a.size ∧ q ≠ 0 ∧ q ∉ waits ∧ ∀ c ∈ a.kids q, c ∈ waits
  waiting : ∀ n ∈ waits, n < a.size ∧ n ≠ 0 ∧ Fresh a word ps n ∧ (∀ c ∈ a.kids n, c ∈ waits) ∧
    ∃ l < a.size, n ∈ a.kids l ∧ (l ∈ queue ∨ l ∈ waits)
  done : ∀ n < a.size, n ∉ waits → Done a word ps n
  distinct : queue.Nodup
  ordered : queue.Pairwise fun l m => (word l).length ≤ (word m).length ∧ (word m).length ≤ (word l).length + 1

theorem Pending.above (pending : Pending a word ps queue waits) (depth : Nat) :
    ∀ n ∈ waits, (word n).length ≤ depth → ∃ q ∈ queue, (word q).length < (word n).length := by
  induction depth with
  | zero =>
    intro n member short
    obtain ⟨small, nonroot, -⟩ := pending.waiting n member
    have := List.length_pos_of_ne_nil (pending.trie.nonempty small nonroot)
    omega
  | succ depth ih =>
    intro n member short
    obtain ⟨-, -, -, -, l, small, child, place⟩ := pending.waiting n member
    obtain ⟨-, b, eq⟩ := (pending.trie.mem_kids small).mp child
    have length := congrArg List.length eq
    rw [List.length_append, List.length_singleton] at length
    rcases place with queued | waits'
    · exact ⟨l, queued, by omega⟩
    · obtain ⟨q, queued, less⟩ := ih l waits' (by omega)
      exact ⟨q, queued, by omega⟩

theorem Pending.empty (pending : Pending a word ps [] waits) : ∀ n < a.size, Done a word ps n := by
  intro n small
  apply pending.done n small
  intro member
  obtain ⟨q, queued, -⟩ := pending.above _ n member (Nat.le_refl _)
  cases queued

theorem Pending.step (pending : Pending a word ps (cur :: queue) waits) :
    Frame a ((a.goto cur).items.foldl (settle cur) a) ∧
      Pending ((a.goto cur).items.foldl (settle cur) a) word ps (queue ++ a.kids cur) (waits \ (a.kids cur).toFinset) ∧
      ∀ walk, a.size ≤ walk → (a.goto cur).items.foldlM (settleIn walk cur) a = some ((a.goto cur).items.foldl (settle cur) a) := by
  obtain ⟨inside, nonroot, outside, mine⟩ := pending.queued cur List.mem_cons_self
  obtain ⟨apart, distinct⟩ := List.nodup_cons.mp pending.distinct
  obtain ⟨first, ordered⟩ := List.pairwise_cons.mp pending.ordered
  have trie := pending.trie
  have above : ∀ m < a.size, (word m).length ≤ (word cur).length → Done a word ps m := by
    intro m small short
    apply pending.done m small
    intro member
    obtain ⟨q, queued, less⟩ := pending.above _ m member (Nat.le_refl _)
    rcases List.mem_cons.mp queued with rfl | later
    · omega
    · have := (first q later).1
      omega
  have deep : ∀ c ∈ a.kids cur, (word c).length = (word cur).length + 1 := by
    intro c member
    obtain ⟨-, b, eq⟩ := (trie.mem_kids inside).mp member
    rw [eq, List.length_append, List.length_singleton]
  -- a node has one parent
  have only : ∀ l < a.size, ∀ c ∈ a.kids cur, c ∈ a.kids l → l = cur := by
    intro l small c member member'
    obtain ⟨-, b, eq⟩ := (trie.mem_kids inside).mp member
    obtain ⟨-, b', eq'⟩ := (trie.mem_kids small).mp member'
    exact trie.inj l small cur inside (List.append_inj' (eq'.symm.trans eq) rfl).1
  obtain ⟨frame, done, others, ended⟩ := settle_all trie pending.stored inside nonroot above (a.goto cur).items
    (fun e member => Dict.mem_items.mp member) (trie.kids_nodup inside)
    (fun e member => (pending.waiting e.2 (mine e.2 (List.mem_map_of_mem member))).2.2.1)
  have kids' : ∀ n, ((a.goto cur).items.foldl (settle cur) a).kids n = a.kids n := fun n => by rw [kids, frame.goto, kids]
  refine ⟨frame, ⟨trie.frame frame, ?_, ?_, ?_, ?_, ?_, ?_⟩, ended⟩
  · rw [frame.size]
    exact pending.stored
  · intro q queued
    rw [frame.size, kids']
    rcases List.mem_append.mp queued with before | new
    · obtain ⟨small, nonroot', outside', below⟩ := pending.queued q (List.mem_cons_of_mem _ before)
      refine ⟨small, nonroot', fun member => outside' (Finset.mem_sdiff.mp member).1, fun c child => ?_⟩
      refine Finset.mem_sdiff.mpr ⟨below c child, fun member => ?_⟩
      obtain rfl := only q small c (List.mem_toFinset.mp member) child
      exact apart before
    · obtain ⟨small, nonroot', -, below, -⟩ := pending.waiting q (mine q new)
      refine ⟨small, nonroot', fun member => (Finset.mem_sdiff.mp member).2 (List.mem_toFinset.mpr new), fun c child => ?_⟩
      refine Finset.mem_sdiff.mpr ⟨below c child, fun member => ?_⟩
      obtain rfl := only q small c (List.mem_toFinset.mp member) child
      exact outside (mine q new)
  · intro n remains
    obtain ⟨member, outside'⟩ := Finset.mem_sdiff.mp remains
    rw [List.mem_toFinset] at outside'
    obtain ⟨small, nonroot', fresh, below, l, small', child, place⟩ := pending.waiting n member
    rw [frame.size, kids']
    refine ⟨small, nonroot', ?_, fun c child => ?_, l, small', by rwa [kids'], ?_⟩
    · rw [Fresh, (others n outside').2]
      exact fresh
    · refine Finset.mem_sdiff.mpr ⟨below c child, fun member' => ?_⟩
      obtain rfl := only n small c (List.mem_toFinset.mp member') child
      exact outside member
    · by_cases kid : l ∈ a.kids cur
      · exact .inl (List.mem_append_right _ kid)
      · rcases place with queued | waits'
        · rcases List.mem_cons.mp queued with rfl | later
          · exact absurd child outside'
          · exact .inl (List.mem_append_left _ later)
        · exact .inr (Finset.mem_sdiff.mpr ⟨waits', fun member' => kid (List.mem_toFinset.mp member')⟩)
  · intro n small outside'
    rw [frame.size] at small
    by_cases kid : n ∈ a.kids cur
    · obtain ⟨e, member, rfl⟩ := List.mem_map.mp kid
      exact done e member
    · obtain ⟨fail, out⟩ := others n kid
      refine (pending.done n small fun member => ?_).keep frame fail out
      exact outside' (Finset.mem_sdiff.mpr ⟨member, fun member' => kid (List.mem_toFinset.mp member')⟩)
  · refine List.nodup_append.mpr ⟨distinct, trie.kids_nodup inside, ?_⟩
    rintro q queued c kid rfl
    exact (pending.queued q (List.mem_cons_of_mem _ queued)).2.2.1 (mine q kid)
  · refine List.pairwise_append.mpr ⟨ordered, ?_, ?_⟩
    · apply List.Pairwise.imp_of_mem ?_ (List.pairwise_of_forall fun _ _ => trivial)
      intro l m left right _
      rw [deep l left, deep m right]
      omega
    · intro q queued c kid
      have := first q queued
      rw [deep c kid]
      omega

theorem buildLoop_done {fuel : Nat} (pending : Pending a word ps queue waits)
    (enough : queue.length + waits.card ≤ fuel) :
    Frame a (buildLoop fuel queue a) ∧ (∀ n < a.size, Done (buildLoop fuel queue a) word ps n) ∧
      ∀ walk rounds, a.size ≤ walk → queue.length + waits.card ≤ rounds →
        buildLoopIn walk rounds queue a = some (buildLoop fuel queue a) := by
  induction fuel generalizing queue waits a with
  | zero =>
    obtain rfl : queue = [] := List.length_eq_zero_iff.mp (by omega)
    refine ⟨⟨rfl, rfl⟩, pending.empty, fun walk rounds _ _ => ?_⟩
    cases rounds <;> rfl
  | succ fuel ih =>
    cases queue with
    | nil =>
      refine ⟨⟨rfl, rfl⟩, pending.empty, fun walk rounds _ _ => ?_⟩
      cases rounds <;> rfl
    | cons cur queue =>
      obtain ⟨inside, -, -, mine⟩ := pending.queued cur List.mem_cons_self
      have card : (waits \ (a.kids cur).toFinset).card + (a.kids cur).length = waits.card := by
        rw [← List.toFinset_card_of_nodup (pending.trie.kids_nodup inside)]
        exact Finset.card_sdiff_add_card_eq_card fun c member => mine c (List.mem_toFinset.mp member)
      obtain ⟨frame, pending', settled⟩ := pending.step
      rw [List.length_cons] at enough
      obtain ⟨frame', done, ended⟩ := ih pending' (by rw [List.length_append]; omega)
      rw [frame.size] at done ended
      refine ⟨⟨frame'.size.trans frame.size, frame'.goto.trans frame.goto⟩, done, fun walk rounds wide many => ?_⟩
      rw [List.length_cons] at many
      obtain ⟨k, rfl⟩ : ∃ k, rounds = k + 1 := ⟨rounds - 1, by omega⟩
      rw [buildLoopIn, settled walk wide, Option.bind_some, buildLoop]
      exact ended walk k wide (by rw [List.length_append]; omega)

theorem Trie.mem_kids_root (trie : Trie a word) : n ∈ a.kids 0 ↔ n < a.size ∧ (word n).length = 1 := by
  rw [trie.mem_kids trie.pos, trie.root]
  constructor
  · rintro ⟨small, b, eq⟩
    exact ⟨small, by rw [eq]; rfl⟩
  · rintro ⟨small, length⟩
    obtain ⟨b, eq⟩ := List.length_eq_one_iff.mp length
    exact ⟨small, b, eq⟩

theorem pending_start (holds : Holds a word ps) (nonempty : ∀ p t, (p, t) ∈ ps → p ≠ []) (fail : Nat → Nat)
    (rooted : ∀ n ∈ a.kids 0, fail n = 0) :
    Pending { a with fail := fail } word ps (a.kids 0) ((Finset.range a.size \ {0}) \ (a.kids 0).toFinset) := by
  have trie := holds.trie
  have frame : Frame a { a with fail := fail } := ⟨rfl, rfl⟩
  have waits : ∀ n, n ∈ (Finset.range a.size \ {0}) \ (a.kids 0).toFinset ↔ n < a.size ∧ 1 < (word n).length := by
    intro n
    rw [Finset.mem_sdiff, Finset.mem_sdiff, Finset.mem_range, Finset.mem_singleton, List.mem_toFinset, trie.mem_kids_root]
    constructor
    · rintro ⟨⟨small, nonroot⟩, other⟩
      have some' := List.length_pos_of_ne_nil (trie.nonempty small nonroot)
      have : (word n).length ≠ 1 := fun one => other ⟨small, one⟩
      exact ⟨small, by omega⟩
    · rintro ⟨small, deep⟩
      refine ⟨⟨small, ?_⟩, by omega⟩
      rintro rfl
      rw [trie.root, List.length_nil] at deep
      omega
  have deeper : ∀ l < a.size, l ≠ 0 → ∀ c ∈ a.kids l, c < a.size ∧ 1 < (word c).length := by
    intro l small nonroot c member
    obtain ⟨small', b, eq⟩ := (trie.mem_kids small).mp member
    have some' := List.length_pos_of_ne_nil (trie.nonempty small nonroot)
    rw [eq, List.length_append, List.length_singleton]
    exact ⟨small', by omega⟩
  refine ⟨trie.frame frame, holds.stored, ?_, ?_, ?_, trie.kids_nodup trie.pos, ?_⟩
  · intro q queued
    obtain ⟨small, one⟩ := trie.mem_kids_root.mp queued
    have nonroot : q ≠ 0 := by
      rintro rfl
      rw [trie.root] at one
      cases one
    refine ⟨small, nonroot, fun member => ?_, fun c member => (waits c).mpr (deeper q small nonroot c member)⟩
    have := ((waits q).mp member).2
    omega
  · intro n member
    obtain ⟨small, deep⟩ := (waits n).mp member
    have nonroot : n ≠ 0 := by
      rintro rfl
      rw [trie.root, List.length_nil] at deep
      omega
    obtain ⟨l, small', b, eq⟩ := trie.parent n small nonroot
    refine ⟨small, nonroot, holds.out n small, fun c child => (waits c).mpr (deeper n small nonroot c child), l, small',
      (trie.mem_kids small').mpr ⟨small, b, eq⟩, ?_⟩
    rw [eq, List.length_append, List.length_singleton] at deep
    by_cases one : (word l).length = 1
    · exact .inl (trie.mem_kids_root.mpr ⟨small', one⟩)
    · exact .inr ((waits l).mpr ⟨small', by omega⟩)
  · intro n small outside
    have short : (word n).length ≤ 1 := by
      by_contra deep
      exact outside ((waits n).mpr ⟨small, by omega⟩)
    refine ⟨fun nonroot => ?_, ?_⟩
    · have some' := List.length_pos_of_ne_nil (trie.nonempty small nonroot)
      have tail : (word n).tail = [] := List.length_eq_zero_iff.mp (by rw [List.length_tail]; omega)
      have rooted' : fail n = 0 := rooted n (trie.mem_kids_root.mpr ⟨small, by omega⟩)
      rw [Linked, Best.frame frame, tail]
      simpa only [rooted'] using trie.best_nil
    · -- no pattern is a proper suffix of a single byte
      have same : tagsAt ps (word n) = tagsOf ps (word n) := by
        unfold tagsAt tagsOf
        congr 1
        apply List.filter_congr
        rintro ⟨p, t⟩ member
        rw [Bool.eq_iff_iff, decide_eq_true_iff, decide_eq_true_iff]
        have some' := List.length_pos_of_ne_nil (nonempty p t member)
        constructor
        · intro ends
          have bound : p.length ≤ (word n).length := ends.length_le
          exact ends.eq_of_length (show p.length = (word n).length by omega)
        · intro same
          exact same ▸ List.suffix_refl _
      rw [same]
      exact holds.out n small
  · apply List.Pairwise.imp_of_mem ?_ (List.pairwise_of_forall fun _ _ => trivial)
    intro l m left right _
    rw [(trie.mem_kids_root.mp left).2, (trie.mem_kids_root.mp right).2]
    omega

theorem fail_first (first : List Nat) (fail : Nat → Nat) (n : Nat) :
    first.foldl (fun fail n => Function.update fail n 0) fail n = if n ∈ first then 0 else fail n := by
  induction first generalizing fail with
  | nil => rfl
  | cons m first ih =>
    rw [List.foldl_cons, ih]
    by_cases later : n ∈ first
    · rw [if_pos later, if_pos (List.mem_cons_of_mem _ later)]
    · rw [if_neg later]
      by_cases here : n = m
      · rw [here, Function.update_self, if_pos List.mem_cons_self]
      · rw [Function.update_of_ne here, if_neg (by simp [here, later])]

theorem build_done (holds : Holds a word ps) (nonempty : ∀ p t, (p, t) ∈ ps → p ≠ []) :
    Trie a.build word ∧ a.build.size = a.size ∧ (∀ p t, (p, t) ∈ ps → ∃ n < a.build.size, word n = p) ∧
      (∀ n < a.build.size, Done a.build word ps n) ∧
      ∀ fuel, a.size ≤ fuel → a.buildIn fuel = some a.build := by
  have trie := holds.trie
  have start := pending_start holds nonempty ((a.kids 0).foldl (fun fail n => Function.update fail n 0) a.fail)
    fun n member => by rw [fail_first, if_pos member]
  have card : (a.kids 0).length + ((Finset.range a.size \ {0}) \ (a.kids 0).toFinset).card ≤ a.size := by
    rw [← List.toFinset_card_of_nodup (trie.kids_nodup trie.pos), ← Finset.card_union_of_disjoint Finset.disjoint_sdiff]
    rw [← Finset.card_range a.size]
    apply Finset.card_le_card
    intro n member
    rw [Finset.card_range] at member
    rcases Finset.mem_union.mp member with kid | waits
    · exact Finset.mem_range.mpr (trie.mem_kids_root.mp (List.mem_toFinset.mp kid)).1
    · exact (Finset.mem_sdiff.mp (Finset.mem_sdiff.mp waits).1).1
  obtain ⟨frame, done, ended⟩ := buildLoop_done start card
  have size : a.build.size = a.size := frame.size
  refine ⟨trie.frame ⟨frame.size, frame.goto⟩, size, ?_⟩
  rw [size]
  exact ⟨holds.stored, done, fun fuel enough => ended fuel fuel enough (card.trans enough)⟩

end build

omit [DecidableEq α] in
theorem suffix_take_iff {p data : List α} {i : Nat} (nonempty : p ≠ []) :
    i + p.length ≤ data.length ∧ p <:+ data.take (i + p.length) ↔ p <+: data.drop i := by
  constructor
  · rintro ⟨inside, front, whole⟩
    have length := congrArg List.length whole
    rw [List.length_append, List.length_take_of_le inside] at length
    obtain rfl : front.length = i := by omega
    rw [← List.take_append_drop (front.length + p.length) data, ← whole, List.append_assoc, List.drop_left]
    exact List.prefix_append _ _
  · rintro ⟨rest, whole⟩
    have length := congrArg List.length whole
    have some' := List.length_pos_of_ne_nil nonempty
    rw [List.length_append, List.length_drop] at length
    refine ⟨by omega, ?_⟩
    rw [← List.take_append_drop i data, ← whole, ← List.append_assoc, List.take_append_of_le_length]
    · rw [List.take_of_length_le]
      · exact List.suffix_append _ _
      · rw [List.length_append, List.length_take]
        omega
    · rw [List.length_append, List.length_take]
      omega

theorem tagsAt_best {ps : List (List α × τ)} (stored : ∀ p t, (p, t) ∈ ps → ∃ n < a.size, word n = p)
    (best : Best a word w n) : tagsAt ps (word n) = tagsAt ps w := by
  unfold tagsAt
  congr 1
  apply List.filter_congr
  rintro ⟨p, t⟩ member
  obtain ⟨m, small, rfl⟩ := stored p t member
  rw [decide_eq_decide]
  exact (best.suffix_iff small).symm

theorem scanFrom_perm {ps : List (List α × τ)} (trie : Trie a word) (done : ∀ n < a.size, Done a word ps n)
    (stored : ∀ p t, (p, t) ∈ ps → ∃ n < a.size, word n = p) (data : List α) {before : List α} (best : Best a word before n) :
    (a.scanFrom n before.length data).Perm
      ((List.range data.length).flatMap fun l => (tagsAt ps (before ++ data.take (l + 1))).map fun t => (before.length + l, t)) := by
  induction data generalizing before n with
  | nil => exact List.Perm.nil
  | cons b data ih =>
    have best' : Best a word (before ++ [b]) (a.next n b) :=
      next_best trie best (fun m small nonroot _ => (done m small).linked nonroot) b
    have here := (done _ best'.inside).out
    rw [tagsAt_best stored best'] at here
    have later := ih best'
    rw [List.length_append, List.length_singleton] at later
    rw [scanFrom, List.length_cons, List.range_succ_eq_map, List.flatMap_cons, List.flatMap_map]
    refine (here.map _).append (later.trans (List.Perm.of_eq ?_))
    simp only [List.take_succ_cons, List.append_assoc, List.singleton_append, Nat.succ_eq_add_one, Nat.add_assoc, Nat.add_comm 1]

theorem scanFromIn_eq {ps : List (List α × τ)} (trie : Trie a word) (done : ∀ n < a.size, Done a word ps n)
    (enough : a.size ≤ fuel) (data : List α) {before : List α} (best : Best a word before n) (i : Nat) :
    a.scanFromIn fuel n i data = some (a.scanFrom n i data) := by
  induction data generalizing before n i with
  | nil => rfl
  | cons b data ih =>
    have linked : ∀ m < a.size, m ≠ 0 → (word m).length ≤ (word n).length → Linked a word m :=
      fun m small nonroot _ => (done m small).linked nonroot
    rw [scanFromIn, nextIn_eq trie b best.inside linked enough, Option.bind_eq_bind, Option.bind_some,
      ih (next_best trie best linked b)]
    rfl

theorem loops_end {ps : List (List α × τ)} (nonempty : ∀ p t, (p, t) ∈ ps → p ≠ []) (data : List α)
    (enough : ((empty : Automaton α τ).addAll ps).size ≤ fuel) :
    ((empty : Automaton α τ).addAll ps).buildIn fuel = some ((empty : Automaton α τ).addAll ps).build ∧
      ((empty : Automaton α τ).addAll ps).build.iterMatchesIn fuel data =
        some (((empty : Automaton α τ).addAll ps).build.iterMatches data) := by
  obtain ⟨word, holds⟩ := holds_addAll ps
  obtain ⟨trie, size, -, done, built⟩ := build_done holds nonempty
  exact ⟨built fuel enough, scanFromIn_eq trie done (by omega) data trie.best_nil 0⟩

theorem iterMatches_perm {ps : List (List α × τ)} (nonempty : ∀ p t, (p, t) ∈ ps → p ≠ []) (data : List α) :
    (((empty : Automaton α τ).addAll ps).build.iterMatches data).Perm (occurrences ps data) := by
  obtain ⟨word, holds⟩ := holds_addAll ps
  obtain ⟨trie, -, stored, done, -⟩ := build_done holds nonempty
  have found := scanFrom_perm trie done stored data trie.best_nil
  simp only [List.length_nil, List.nil_append, Nat.zero_add] at found
  exact found

theorem mem_occurrences {ps : List (List α × τ)} {i : Nat} {t : τ} :
    (i, t) ∈ occurrences ps data ↔ i < data.length ∧ ∃ p, (p, t) ∈ ps ∧ p <:+ data.take (i + 1) := by
  unfold occurrences
  rw [List.mem_flatMap]
  constructor
  · rintro ⟨j, inside, member⟩
    obtain ⟨t', tagged, same⟩ := List.mem_map.mp member
    obtain ⟨rfl, rfl⟩ := Prod.mk.inj same
    exact ⟨List.mem_range.mp inside, mem_tagsAt.mp tagged⟩
  · rintro ⟨inside, found⟩
    exact ⟨i, List.mem_range.mpr inside, List.mem_map.mpr ⟨t, mem_tagsAt.mpr found, rfl⟩⟩

theorem mem_iterMatches {ps : List (List α × τ)} (nonempty : ∀ p t, (p, t) ∈ ps → p ≠ []) {i : Nat} {t : τ} :
    (i, t) ∈ ((empty : Automaton α τ).addAll ps).build.iterMatches data ↔
      i < data.length ∧ ∃ p, (p, t) ∈ ps ∧ p <:+ data.take (i + 1) := by
  rw [(iterMatches_perm nonempty data).mem_iff, mem_occurrences]

end Automaton
end FfnNgfw
