import FfnNgfw.Emulator.Bytes
import FfnNgfw.Lib.Fallible
import Mathlib.Order.Interval.Set.Basic
import Mathlib.Order.Lattice.Nat

/-!
# The fragments that are built

The states of a fragment are numbered one after the other, and what is built later changes
no state that is not its own.
-/

namespace FfnNgfw.Emulator
open Computability
open Threatdb (Text)

def Nfa.moves (nfa : Nfa) : Moves Nat UInt8 where
  silent q t := t ∈ nfa.eps q
  read q b t := ∃ bs, (bs, t) ∈ nfa.sym q ∧ (b.toNat : Int) ∈ bs

structure Nfa.Wf (nfa : Nfa) : Prop where
  eps : ∀ q t, t ∈ nfa.eps q → q < nfa.size ∧ t < nfa.size
  sym : ∀ q bs t, (bs, t) ∈ nfa.sym q → q < nfa.size ∧ t < nfa.size
  natural : ∀ q bs t, (bs, t) ∈ nfa.sym q → Natural bs

/-- The states from `n` up to `k` are the same. -/
def Same (n k : Nat) (nfa nfa' : Nfa) : Prop := ∀ q, n ≤ q → q < k → nfa'.eps q = nfa.eps q ∧ nfa'.sym q = nfa.sym q

/-- The states of `nfa` are kept. -/
structure Extends (nfa nfa' : Nfa) : Prop where
  size : nfa.size ≤ nfa'.size
  same : Same 0 nfa.size nfa nfa'

theorem Extends.refl (nfa : Nfa) : Extends nfa nfa := ⟨Nat.le_refl _, fun _ _ _ => ⟨rfl, rfl⟩⟩

theorem Extends.trans {a b c : Nfa} (first : Extends a b) (second : Extends b c) : Extends a c := by
  refine ⟨Nat.le_trans first.size second.size, fun q lower upper => ?_⟩
  have one := first.same q lower upper
  have two := second.same q lower (Nat.lt_of_lt_of_le upper first.size)
  exact ⟨two.1.trans one.1, two.2.trans one.2⟩

theorem nfa_still {nfa : Nfa} (wf : nfa.Wf) {q : Nat} (outside : nfa.size ≤ q) : nfa.moves.Still q := by
  refine ⟨fun t move => ?_, fun b t move => ?_⟩
  · have inside := (wf.eps q t move).1
    omega
  · obtain ⟨bs, member, -⟩ := move
    have inside := (wf.sym q bs t member).1
    omega

/-! ### New states and moves -/

variable {edges : List (Nat × Nat)}

theorem link_eps {nfa : Nfa} {q t : Nat} : t ∈ (nfa.link edges).eps q ↔ t ∈ nfa.eps q ∨ (q, t) ∈ edges := by
  induction edges generalizing nfa with
  | nil => simp [Nfa.link]
  | cons e edges ih =>
    have step : (nfa.link (e :: edges)) = (nfa.addEps e.1 e.2).link edges := rfl
    rw [step, ih, List.mem_cons]
    by_cases here : q = e.1
    · subst here
      simp only [Nfa.addEps, Function.update_self, List.mem_append, List.mem_singleton]
      have pair : (e.1, t) = e ↔ t = e.2 := ⟨fun same => by rw [← same], fun same => by rw [same]⟩
      rw [pair, or_assoc]
    · have other : (q, t) ≠ e := fun same => here (by rw [← same])
      simp only [Nfa.addEps, Function.update_of_ne here, other, false_or]

theorem link_frame (nfa : Nfa) (edges : List (Nat × Nat)) : (nfa.link edges).sym = nfa.sym ∧ (nfa.link edges).size = nfa.size := by
  induction edges generalizing nfa with
  | nil => exact ⟨rfl, rfl⟩
  | cons e edges ih => exact ih (nfa.addEps e.1 e.2)

theorem link_moves (nfa : Nfa) (edges : List (Nat × Nat)) : (nfa.link edges).moves = nfa.moves.join fun q t => (q, t) ∈ edges := by
  have silent : (nfa.link edges).moves.silent = (nfa.moves.join fun q t => (q, t) ∈ edges).silent := by
    funext q t
    exact propext link_eps
  have read : (nfa.link edges).moves.read = (nfa.moves.join fun q t => (q, t) ∈ edges).read := by
    show (fun q b t => ∃ bs, (bs, t) ∈ (nfa.link edges).sym q ∧ _) = _
    rw [(link_frame nfa edges).1]
    rfl
  exact congrArg₂ Moves.mk silent read

theorem link_eps_other {nfa : Nfa} {q : Nat} (other : ∀ e ∈ edges, e.1 ≠ q) : (nfa.link edges).eps q = nfa.eps q := by
  induction edges generalizing nfa with
  | nil => rfl
  | cons e edges ih =>
    have rest := @ih (nfa.addEps e.1 e.2) fun e member => other e (List.mem_cons_of_mem _ member)
    exact rest.trans (Function.update_of_ne (Ne.symm (other e List.mem_cons_self)) _ _)

theorem link_wf {nfa : Nfa} (wf : nfa.Wf) (more : Nat)
    (inside : ∀ e ∈ edges, e.1 < nfa.size + more ∧ e.2 < nfa.size + more) :
    ({ nfa with size := nfa.size + more }.link edges : Nfa).Wf := by
  have size := (link_frame { nfa with size := nfa.size + more } edges).2
  refine ⟨fun q t member => ?_, fun q bs t member => ?_, fun q bs t member => ?_⟩
  · rw [size]
    rcases link_eps.mp member with old | new
    · have bounds := wf.eps q t old
      show q < nfa.size + more ∧ t < nfa.size + more
      omega
    · exact inside (q, t) new
  · rw [(link_frame _ edges).1] at member
    rw [size]
    have bounds := wf.sym q bs t member
    show q < nfa.size + more ∧ t < nfa.size + more
    omega
  · rw [(link_frame _ edges).1] at member
    exact wf.natural q bs t member

theorem link_same {nfa : Nfa} {n k : Nat} (more : Nat) (outside : ∀ e ∈ edges, n ≤ e.1 → k ≤ e.1) :
    Same n k nfa ({ nfa with size := nfa.size + more }.link edges) := by
  intro q lower upper
  refine ⟨link_eps_other fun e member same => ?_, by rw [(link_frame _ edges).1]⟩
  have far := outside e member
  omega

structure Built (nfa nfa' : Nfa) (frag : Frag) (L : Language UInt8) : Prop where
  wf : nfa'.Wf
  grows : Extends nfa nfa'
  fragment : nfa'.moves.Fragment (Set.Ico nfa.size nfa'.size) frag.1 frag.2 L

theorem Fragment.same {nfa nfa' : Nfa} {n k s a : Nat} {L : Language UInt8} (fragment : nfa.moves.Fragment (Set.Ico n k) s a L)
    (same : Same n k nfa nfa') : nfa'.moves.Fragment (Set.Ico n k) s a L := by
  apply fragment.agree
  · intro q inside t
    show t ∈ nfa'.eps q ↔ t ∈ nfa.eps q
    rw [(same q inside.1 inside.2).1]
  · intro q inside b t
    show (∃ bs, (bs, t) ∈ nfa'.sym q ∧ _) ↔ ∃ bs, (bs, t) ∈ nfa.sym q ∧ _
    rw [(same q inside.1 inside.2).2]

def bytesLang (bs : List Int) : Language UInt8 := {w | ∃ b : UInt8, (b.toNat : Int) ∈ bs ∧ w = [b]}

theorem Denotes.lang {bs : List Int} {S : Set UInt8} (denotes : Denotes bs S) : (Regex.bytes S).lang = bytesLang bs := by
  ext w
  show (∃ b ∈ S, w = [b]) ↔ ∃ b : UInt8, (b.toNat : Int) ∈ bs ∧ w = [b]
  refine exists_congr fun b => ?_
  rw [denotes b]

theorem bytesetFrag_built {nfa : Nfa} {bs : List Int} (wf : nfa.Wf) (real : Real bs) (natural : Natural bs) :
    Built nfa (bytesetFrag bs nfa).2 (bytesetFrag bs nfa).1 (bytesLang bs) := by
  have fresh : nfa.sym nfa.size = [] := by
    apply List.eq_nil_iff_forall_not_mem.mpr
    rintro ⟨cs, t⟩ member
    have bounds := wf.sym nfa.size cs t member
    omega
  have sym : (bytesetFrag bs nfa).2.sym = Function.update nfa.sym nfa.size [(bs, nfa.size + 1)] := by
    show Function.update nfa.sym nfa.size (nfa.sym nfa.size ++ _) = _
    rw [fresh]
    rfl
  have wf' : (bytesetFrag bs nfa).2.Wf := by
    refine ⟨fun q t member => ?_, fun q cs t member => ?_, fun q cs t member => ?_⟩
    · have bounds := wf.eps q t member
      show q < nfa.size + 1 + 1 ∧ t < nfa.size + 1 + 1
      omega
    · show q < nfa.size + 1 + 1 ∧ t < nfa.size + 1 + 1
      rw [sym] at member
      by_cases here : q = nfa.size
      · subst here
        rw [Function.update_self, List.mem_singleton] at member
        cases member
        omega
      · rw [Function.update_of_ne here] at member
        have bounds := wf.sym q cs t member
        omega
    · rw [sym] at member
      by_cases here : q = nfa.size
      · subst here
        rw [Function.update_self, List.mem_singleton] at member
        cases member
        exact natural
      · rw [Function.update_of_ne here] at member
        exact wf.natural q cs t member
  have quiet : (bytesetFrag bs nfa).2.moves.Still (nfa.size + 1) := by
    refine ⟨fun t move => ?_, fun b t move => ?_⟩
    · have bounds := wf.eps _ t move
      omega
    · obtain ⟨cs, member, -⟩ := move
      rw [sym, Function.update_of_ne (by omega)] at member
      have bounds := wf.sym _ cs t member
      omega
  have step : ∀ b t, (bytesetFrag bs nfa).2.moves.read nfa.size b t ↔ (b.toNat : Int) ∈ bs ∧ t = nfa.size + 1 := by
    intro b t
    show (∃ cs, (cs, t) ∈ (bytesetFrag bs nfa).2.sym nfa.size ∧ _) ↔ _
    rw [sym, Function.update_self]
    constructor
    · rintro ⟨cs, member, inside⟩
      cases List.mem_singleton.mp member
      exact ⟨inside, rfl⟩
    · rintro ⟨inside, rfl⟩
      exact ⟨bs, List.mem_cons_self, inside⟩
  have still : ∀ t, ¬(bytesetFrag bs nfa).2.moves.silent nfa.size t := by
    intro t move
    have bounds := wf.eps nfa.size t move
    omega
  have inside : ∀ {q}, q ∈ Set.Ico nfa.size (bytesetFrag bs nfa).2.size → q = nfa.size ∨ q = nfa.size + 1 := by
    rintro q ⟨lower, upper⟩
    have upper : q < nfa.size + 1 + 1 := upper
    omega
  refine ⟨wf', ⟨by show nfa.size ≤ nfa.size + 1 + 1; omega, fun q _ upper => ⟨rfl, ?_⟩⟩, ⟨⟨?_, ?_⟩, ⟨?_, ?_⟩, ⟨?_, ?_⟩, fun w => ?_, ?_⟩⟩
  · rw [sym, Function.update_of_ne (by omega)]
  · intro q here t move
    rcases inside here with rfl | rfl
    · exact absurd move (still t)
    · exact absurd move (quiet.1 t)
  · intro q here b t move
    rcases inside here with rfl | rfl
    · obtain ⟨-, rfl⟩ := (step b t).mp move
      exact ⟨by omega, by show nfa.size + 1 < nfa.size + 1 + 1; omega⟩
    · exact absurd move (quiet.2 b t)
  · exact Nat.le_refl _
  · show nfa.size < nfa.size + 1 + 1
    omega
  · show nfa.size ≤ nfa.size + 1
    omega
  · show nfa.size + 1 < nfa.size + 1 + 1
    omega
  · constructor
    · have arrives : ∀ q u, (bytesetFrag bs nfa).2.moves.Path q w u → q = nfa.size → u = nfa.size + 1 → w ∈ bytesLang bs := by
        intro q u path entry exit
        subst entry
        cases path with
        | nil => omega
        | silent move => exact absurd move (still _)
        | @read _ t _ b w move rest =>
          obtain ⟨member, rfl⟩ := (step b t).mp move
          obtain ⟨rfl, -⟩ := quiet.path rest
          exact ⟨b, member, rfl⟩
      exact fun path => arrives _ _ path rfl rfl
    · rintro ⟨b, member, rfl⟩
      exact .read ((step b _).mpr ⟨member, rfl⟩) (.nil _)
  · intro q here
    rcases inside here with rfl | rfl
    · exact ⟨[], .nil _⟩
    · obtain ⟨b, member⟩ := real
      exact ⟨[b], .read ((step b _).mpr ⟨member, rfl⟩) (.nil _)⟩

theorem two_more (n k : Nat) (le : n ≤ k) : Set.Ico n k ∪ {k} ∪ {k + 1} = Set.Ico n (k + 1 + 1) := by
  ext q
  simp only [Set.mem_union, Set.mem_Ico, Set.mem_singleton_iff]
  omega

theorem emptyFrag_built {nfa : Nfa} (wf : nfa.Wf) : Built nfa (emptyFrag nfa).2 (emptyFrag nfa).1 1 := by
  have alone : ∀ q, nfa.size ≤ q → nfa.moves.Fragment {q} q q 1 := by
    intro q outside
    have still := nfa_still wf outside
    refine ⟨still.closed, rfl, rfl, fun w => ⟨fun path => (still.path path).1, ?_⟩, ?_⟩
    · rintro rfl
      exact .nil q
    · rintro _ rfl
      exact ⟨[], .nil _⟩
  have moves : (emptyFrag nfa).2.moves = nfa.moves.join fun q t => q = nfa.size ∧ t = nfa.size + 1 := by
    refine (link_moves nfa.newState.newState [(nfa.size, nfa.size + 1)]).trans (congrArg nfa.moves.join ?_)
    funext q t
    rw [List.mem_singleton, Prod.mk.injEq]
  have size : (emptyFrag nfa).2.size = nfa.size + 1 + 1 := (link_frame nfa.newState.newState _).2
  have both := (alone nfa.size (Nat.le_refl _)).link (alone (nfa.size + 1) (Nat.le_succ _)) (by simp)
  refine ⟨link_wf wf 2 ?_, ⟨by omega, link_same 2 ?_⟩, ?_⟩
  · intro e member
    rw [List.mem_singleton.mp member]
    exact ⟨by omega, by omega⟩
  · intro e member _
    rw [List.mem_singleton.mp member]
  · have region : ({nfa.size} : Set Nat) ∪ {nfa.size + 1} = Set.Ico nfa.size (nfa.size + 1 + 1) := by
      rw [← two_more nfa.size nfa.size (Nat.le_refl _), Set.Ico_self, Set.empty_union]
    rw [region, one_mul] at both
    rw [moves, size]
    exact both

theorem mem_quantEdges {c : Char} {s a fs fa q t : Nat} (known : c ∈ quantifiers) :
    (q, t) ∈ quantEdges c s a fs fa ↔ Moves.around s a fs fa (c != '+') (c != '?') q t := by
  simp only [quantifiers, List.mem_cons, List.not_mem_nil, or_false] at known
  rcases known with rfl | rfl | rfl <;> simp [quantEdges, Moves.around] <;> tauto

def Regex.quantified (c : Char) (r : Regex) : Regex := if c = '*' then .star r else if c = '+' then .plus r else .opt r

theorem quantified_lang {c : Char} (known : c ∈ quantifiers) (r : Regex) :
    (r.quantified c).lang = (if c != '+' then 1 else 0) + if c != '?' then r.lang * r.lang∗ else r.lang := by
  simp only [quantifiers, List.mem_cons, List.not_mem_nil, or_false] at known
  rcases known with rfl | rfl | rfl
  · show r.lang∗ = 1 + r.lang * r.lang∗
    exact (Language.one_add_self_mul_kstar_eq_kstar _).symm
  · show r.lang * r.lang∗ = 0 + r.lang * r.lang∗
    exact (zero_add _).symm
  · rfl

theorem applyQuant_built {nfa nfa' : Nfa} {frag : Frag} {c : Char} {L : Language UInt8} (built : Built nfa nfa' frag L)
    (known : c ∈ quantifiers) :
    Built nfa (applyQuant c frag nfa').2 (applyQuant c frag nfa').1
      ((if c != '+' then 1 else 0) + if c != '?' then L * L∗ else L) := by
  have grows := built.grows.size
  have entry := built.fragment.entry
  have exit := built.fragment.exit
  rw [Set.mem_Ico] at entry exit
  have sources : ∀ e ∈ quantEdges c nfa'.size (nfa'.size + 1) frag.1 frag.2, (e.1 = nfa'.size ∨ e.1 = frag.2) ∧
      (e.2 = nfa'.size + 1 ∨ e.2 = frag.1) := by
    rintro ⟨q, t⟩ member
    rcases (mem_quantEdges known).mp member with ⟨rfl, rfl⟩ | ⟨rfl, rfl⟩ | ⟨-, rfl, rfl⟩ | ⟨-, rfl, rfl⟩
    · exact ⟨.inl rfl, .inr rfl⟩
    · exact ⟨.inr rfl, .inl rfl⟩
    · exact ⟨.inl rfl, .inl rfl⟩
    · exact ⟨.inr rfl, .inr rfl⟩
  have size : (applyQuant c frag nfa').2.size = nfa'.size + 1 + 1 := (link_frame nfa'.newState.newState _).2
  have kept : Same 0 nfa.size nfa' (applyQuant c frag nfa').2 := by
    refine link_same 2 fun e member _ => ?_
    have source := (sources e member).1
    omega
  refine ⟨link_wf built.wf 2 ?_, ⟨by omega, fun q lower upper => ?_⟩, ?_⟩
  · intro e member
    have ends := sources e member
    omega
  · have one := built.grows.same q lower upper
    have two := kept q lower upper
    exact ⟨two.1.trans one.1, two.2.trans one.2⟩
  · have moves : (applyQuant c frag nfa').2.moves =
        nfa'.moves.join (Moves.around nfa'.size (nfa'.size + 1) frag.1 frag.2 (c != '+') (c != '?')) := by
      refine (link_moves nfa'.newState.newState _).trans (congrArg nfa'.moves.join ?_)
      funext q t
      exact propext (mem_quantEdges known)
    have around : (nfa'.moves.join (Moves.around nfa'.size (nfa'.size + 1) frag.1 frag.2 (c != '+') (c != '?'))).Fragment _ _ _ _ :=
      built.fragment.around (by simp) (by simp) (nfa_still built.wf (Nat.le_refl _)) (nfa_still built.wf (Nat.le_succ _)) (by omega)
    rw [two_more nfa.size nfa'.size grows] at around
    rw [moves, size]
    exact around

/-! ### Rows of fragments -/

/-- Fragments that take up the states from one number to another, one after the other. -/
inductive Row (nfa : Nfa) : Nat → List Frag → List (Language UInt8) → Nat → Prop where
  | nil (n : Nat) : Row nfa n [] [] n
  | cons {n k m : Nat} {frag : Frag} {frags : List Frag} {L : Language UInt8} {Ls : List (Language UInt8)} :
    nfa.moves.Fragment (Set.Ico n k) frag.1 frag.2 L → Row nfa k frags Ls m → Row nfa n (frag :: frags) (L :: Ls) m

section row

variable {nfa nfa' : Nfa} {n k m : Nat} {frag : Frag} {frags : List Frag} {L : Language UInt8} {Ls : List (Language UInt8)}

theorem Fragment.nonempty (fragment : nfa.moves.Fragment (Set.Ico n k) frag.1 frag.2 L) : n < k :=
  Nat.lt_of_le_of_lt fragment.entry.1 fragment.entry.2

theorem Row.le (row : Row nfa n frags Ls m) : n ≤ m := by
  induction row with
  | nil => exact Nat.le_refl _
  | cons fragment _ ih => exact Nat.le_trans (Nat.le_of_lt (Fragment.nonempty fragment)) ih

theorem Row.same (row : Row nfa n frags Ls m) (same : Same n m nfa nfa') : Row nfa' n frags Ls m := by
  induction row with
  | nil => exact .nil _
  | cons fragment row ih =>
    have small := Fragment.nonempty fragment
    have le := row.le
    refine .cons (Fragment.same fragment fun q lower upper => same q lower (by omega)) (ih fun q lower upper => same q (by omega) upper)

theorem Row.bounds (row : Row nfa n frags Ls m) : ∀ frag ∈ frags, (n ≤ frag.1 ∧ frag.1 < m) ∧ n ≤ frag.2 ∧ frag.2 < m := by
  induction row with
  | nil => exact fun frag member => absurd member List.not_mem_nil
  | cons fragment row ih =>
    intro frag' member
    have le := row.le
    have small := Fragment.nonempty fragment
    rcases List.mem_cons.mp member with rfl | later
    · have entry := fragment.entry
      have exit := fragment.exit
      rw [Set.mem_Ico] at entry exit
      omega
    · have bounds := ih frag' later
      omega

theorem chain_sym : (chain frag frags nfa).2.sym = nfa.sym := by
  induction frags generalizing frag nfa with
  | nil => rfl
  | cons next frags ih => exact ih.trans (link_frame nfa _).1

theorem chain_built (wf : nfa.Wf) (fragment : nfa.moves.Fragment (Set.Ico n k) frag.1 frag.2 L) (row : Row nfa k frags Ls m)
    (inside : m ≤ nfa.size) :
    (chain frag frags nfa).2.Wf ∧ (chain frag frags nfa).2.size = nfa.size ∧ Same 0 n nfa (chain frag frags nfa).2 ∧
      (chain frag frags nfa).2.moves.Fragment (Set.Ico n m) (chain frag frags nfa).1.1 (chain frag frags nfa).1.2 (L :: Ls).prod := by
  induction frags generalizing nfa frag L Ls k with
  | nil =>
    cases row
    refine ⟨wf, rfl, fun q _ _ => ⟨rfl, rfl⟩, ?_⟩
    rw [List.prod_singleton]
    exact fragment
  | cons next frags ih =>
    cases row with
    | @cons _ k' _ _ _ L' Ls' fragment' row =>
      have le := row.le
      have small := Fragment.nonempty fragment
      have small' := Fragment.nonempty fragment'
      have exit := fragment.exit
      have entry := fragment'.entry
      rw [Set.mem_Ico] at exit entry
      have moves : (nfa.link [(frag.2, next.1)]).moves = nfa.moves.join fun q t => q = frag.2 ∧ t = next.1 := by
        refine (link_moves nfa _).trans (congrArg nfa.moves.join ?_)
        funext q t
        rw [List.mem_singleton, Prod.mk.injEq]
      have wf' : (nfa.link [(frag.2, next.1)]).Wf := by
        refine link_wf wf 0 fun e member => ?_
        rw [List.mem_singleton.mp member]
        exact ⟨by show frag.2 < nfa.size; omega, by show next.1 < nfa.size; omega⟩
      have apart : Disjoint (Set.Ico n k) (Set.Ico k k') := by
        rw [Set.disjoint_left]
        rintro q ⟨-, upper⟩ ⟨lower, -⟩
        omega
      have region : Set.Ico n k ∪ Set.Ico k k' = Set.Ico n k' := Set.Ico_union_Ico_eq_Ico (by omega) (by omega)
      have both := fragment.link fragment' apart
      rw [region] at both
      rw [← moves] at both
      have size : (nfa.link [(frag.2, next.1)]).size = nfa.size := (link_frame nfa _).2
      have row' : Row (nfa.link [(frag.2, next.1)]) k' frags Ls' m := by
        refine row.same (link_same 0 fun e member lower => ?_)
        rw [List.mem_singleton.mp member] at lower ⊢
        have lower : k' ≤ frag.2 := lower
        omega
      obtain ⟨done, size', same, whole⟩ := @ih (nfa.link [(frag.2, next.1)]) k' (frag.1, next.2) (L * L') Ls' wf' both row' (by omega)
      refine ⟨done, size'.trans size, fun q lower upper => ?_, ?_⟩
      · have first : Same 0 n nfa (nfa.link [(frag.2, next.1)]) := by
          refine link_same 0 fun e member _ => ?_
          rw [List.mem_singleton.mp member]
          exact exit.1
        have one := first q lower upper
        have two := same q lower upper
        exact ⟨two.1.trans one.1, two.2.trans one.2⟩
      · rw [List.prod_cons, mul_assoc, ← List.prod_cons, ← List.prod_cons] at whole
        exact whole

theorem Row.parts (row : Row nfa n frags Ls m) :
    ∃ parts : List (Moves.Part Nat UInt8), parts.map (fun p => (p.entry, p.exit)) = frags ∧ parts.map Moves.Part.words = Ls ∧
      (∀ p ∈ parts, p.Here nfa.moves) ∧ Moves.regions parts = Set.Ico n m ∧
      ∀ p ∈ parts, ∀ p' ∈ parts, ∀ q ∈ p.region, q ∈ p'.region → p = p' := by
  induction row with
  | nil n =>
    refine ⟨[], rfl, rfl, fun p member => absurd member List.not_mem_nil, ?_, fun p member => absurd member List.not_mem_nil⟩
    rw [Set.Ico_self]
    ext q
    exact ⟨fun ⟨p, member, _⟩ => absurd member List.not_mem_nil, fun member => absurd member (Set.notMem_empty q)⟩
  | @cons n k m frag frags L Ls fragment row ih =>
    obtain ⟨parts, rfl, rfl, here, region, apart⟩ := ih
    have far : ∀ p ∈ parts, ∀ q ∈ p.region, k ≤ q := by
      intro p member q inside
      have within : q ∈ Moves.regions parts := ⟨p, member, inside⟩
      rw [region] at within
      exact within.1
    refine ⟨⟨Set.Ico n k, frag.1, frag.2, L⟩ :: parts, rfl, rfl, ?_, ?_, ?_⟩
    · intro p member
      rcases List.mem_cons.mp member with rfl | later
      · exact fragment
      · exact here p later
    · rw [← Set.Ico_union_Ico_eq_Ico (Nat.le_of_lt (Fragment.nonempty fragment)) row.le, ← region]
      ext q
      simp only [Moves.regions, Set.mem_ofPred_eq, List.mem_cons, exists_eq_or_imp, Set.mem_union]
    · intro p member p' member' q inside inside'
      rcases List.mem_cons.mp member with rfl | later
      · rcases List.mem_cons.mp member' with rfl | later'
        · rfl
        · exact absurd inside.2 (Nat.not_lt.mpr (far p' later' q inside'))
      · rcases List.mem_cons.mp member' with rfl | later'
        · exact absurd inside'.2 (Nat.not_lt.mpr (far p later q inside))
        · exact apart p later p' later' q inside inside'

theorem branch_built (wf : nfa.Wf) (row : Row nfa n frags Ls nfa.size) (some' : frags ≠ []) :
    (branch frags nfa).2.Wf ∧ nfa.size ≤ (branch frags nfa).2.size ∧ Same 0 n nfa (branch frags nfa).2 ∧
      (branch frags nfa).2.moves.Fragment (Set.Ico n (branch frags nfa).2.size)
        (branch frags nfa).1.1 (branch frags nfa).1.2 Ls.sum := by
  have bounds := row.bounds
  have le := row.le
  have size : (branch frags nfa).2.size = nfa.size + 1 + 1 := (link_frame nfa.newState.newState _).2
  have mem : ∀ {q t : Nat}, (q, t) ∈ (frags.flatMap fun frag => [(nfa.size, frag.1), (frag.2, nfa.size + 1)]) ↔
      (q = nfa.size ∧ ∃ frag ∈ frags, t = frag.1) ∨ (t = nfa.size + 1 ∧ ∃ frag ∈ frags, q = frag.2) := by
    intro q t
    simp only [List.mem_flatMap, List.mem_cons, Prod.mk.injEq, List.not_mem_nil, or_false]
    constructor
    · rintro ⟨frag, member, ⟨rfl, rfl⟩ | ⟨rfl, rfl⟩⟩
      · exact .inl ⟨rfl, frag, member, rfl⟩
      · exact .inr ⟨rfl, frag, member, rfl⟩
    · rintro (⟨rfl, frag, member, rfl⟩ | ⟨rfl, frag, member, rfl⟩)
      · exact ⟨frag, member, .inl ⟨rfl, rfl⟩⟩
      · exact ⟨frag, member, .inr ⟨rfl, rfl⟩⟩
  have ends : ∀ e ∈ (frags.flatMap fun frag => [(nfa.size, frag.1), (frag.2, nfa.size + 1)]), n ≤ e.1 ∧
      e.1 < nfa.size + 2 ∧ e.2 < nfa.size + 2 := by
    rintro ⟨q, t⟩ edge
    rcases mem.mp edge with ⟨rfl, frag, member, rfl⟩ | ⟨rfl, frag, member, rfl⟩
    · have known := bounds frag member
      show n ≤ nfa.size ∧ nfa.size < nfa.size + 2 ∧ frag.1 < nfa.size + 2
      omega
    · have known := bounds frag member
      show n ≤ frag.2 ∧ frag.2 < nfa.size + 2 ∧ nfa.size + 1 < nfa.size + 2
      omega
  refine ⟨link_wf wf 2 fun e member => (ends e member).2, by omega, link_same 2 fun e member _ => (ends e member).1, ?_⟩
  obtain ⟨parts, rfl, rfl, here, region, apart⟩ := row.parts
  have moves : (branch (parts.map fun p => (p.entry, p.exit)) nfa).2.moves =
      nfa.moves.join (Moves.fan nfa.size (nfa.size + 1) parts) := by
    refine (link_moves nfa.newState.newState _).trans (congrArg nfa.moves.join ?_)
    funext q t
    rw [mem]
    simp only [List.mem_map, exists_exists_and_eq_and, Moves.fan]
  have outside : ∀ q, nfa.size ≤ q → q ∉ Moves.regions parts := by
    intro q far inside
    rw [region] at inside
    exact absurd inside.2 (Nat.not_lt.mpr far)
  have whole := Moves.fan_fragment here (fun none' => some' (by rw [none']; rfl)) apart (outside _ (Nat.le_refl _))
      (outside _ (Nat.le_succ _))
    (nfa_still wf (Nat.le_refl _)) (nfa_still wf (Nat.le_succ _)) (Nat.succ_ne_self _)
  rw [region, two_more n nfa.size le] at whole
  rw [moves, size]
  exact whole

end row

end FfnNgfw.Emulator
