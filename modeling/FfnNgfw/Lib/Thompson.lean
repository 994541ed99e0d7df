import Mathlib.Computability.Language
import Mathlib.Order.CompletePartialOrder
import Mathlib.Tactic.Common

/-!
# Automata with silent moves

A fragment is a closed set of states with an entry and an exit, and reads the words of the
paths from one to the other. Fragments are joined by silent moves out of their exits: one
after the other, side by side between two new states, or around themselves.
-/

namespace FfnNgfw
open Computability

structure Moves (σ α : Type) where
  silent : σ → σ → Prop
  read : σ → α → σ → Prop

namespace Moves

variable {σ α : Type}

inductive Path (G : Moves σ α) : σ → List α → σ → Prop where
  | nil (s : σ) : Path G s [] s
  | silent {s t u : σ} {w : List α} : G.silent s t → Path G t w u → Path G s w u
  | read {s t u : σ} {a : α} {w : List α} : G.read s a t → Path G t w u → Path G s (a :: w) u

def join (G : Moves σ α) (E : σ → σ → Prop) : Moves σ α where
  silent s t := G.silent s t ∨ E s t
  read := G.read

variable {G : Moves σ α} {E : σ → σ → Prop} {R R₁ R₂ : Set σ} {s a t u : σ} {w v : List α} {L L₁ L₂ : Language α}

theorem Path.trans (first : G.Path s w t) (second : G.Path t v u) : G.Path s (w ++ v) u := by
  induction first with
  | nil => exact second
  | silent move _ ih => exact .silent move (ih second)
  | read move _ ih => exact .read move (ih second)

theorem Path.join (path : G.Path s w t) : (G.join E).Path s w t := by
  induction path with
  | nil => exact .nil _
  | silent move _ ih => exact .silent (.inl move) ih
  | read move _ ih => exact .read move ih

structure Closed (G : Moves σ α) (R : Set σ) : Prop where
  silent : ∀ q ∈ R, ∀ t, G.silent q t → t ∈ R
  read : ∀ q ∈ R, ∀ b t, G.read q b t → t ∈ R

theorem Closed.path (closed : G.Closed R) (path : G.Path s w t) (inside : s ∈ R) : t ∈ R := by
  induction path with
  | nil => exact inside
  | silent move _ ih => exact ih (closed.silent _ inside _ move)
  | read move _ ih => exact ih (closed.read _ inside _ _ move)

theorem Closed.escape (closed : G.Closed R) (path : (G.join E).Path s w u) (inside : s ∈ R) :
    G.Path s w u ∨ ∃ w₁ w₂ q t, w = w₁ ++ w₂ ∧ q ∈ R ∧ G.Path s w₁ q ∧ E q t ∧ (G.join E).Path t w₂ u := by
  induction path with
  | nil => exact .inl (.nil _)
  | @silent s t u w move rest ih =>
    rcases move with old | new
    · rcases ih (closed.silent _ inside _ old) with stays | ⟨w₁, w₂, q, t', rfl, member, front, exit, back⟩
      · exact .inl (.silent old stays)
      · exact .inr ⟨w₁, w₂, q, t', rfl, member, .silent old front, exit, back⟩
    · exact .inr ⟨[], w, s, t, rfl, inside, .nil s, new, rest⟩
  | @read s t u b w move rest ih =>
    rcases ih (closed.read _ inside _ _ move) with stays | ⟨w₁, w₂, q, t', rfl, member, front, exit, back⟩
    · exact .inl (.read move stays)
    · exact .inr ⟨b :: w₁, w₂, q, t', rfl, member, .read move front, exit, back⟩

theorem Closed.stays (closed : G.Closed R) (apart : ∀ q ∈ R, ∀ t, ¬E q t) (path : (G.join E).Path s w u)
    (inside : s ∈ R) : G.Path s w u := by
  rcases closed.escape path inside with stays | ⟨_, _, q, t, _, member, _, exit, _⟩
  · exact stays
  · exact absurd exit (apart q member t)

theorem Closed.join (closed : G.Closed R) (kept : ∀ q ∈ R, ∀ t, E q t → t ∈ R) : (G.join E).Closed R where
  silent q inside t move := move.elim (closed.silent q inside t) (kept q inside t)
  read := closed.read

theorem Closed.union (first : G.Closed R₁) (second : G.Closed R₂) : G.Closed (R₁ ∪ R₂) where
  silent q inside t move := inside.imp (fun inside => first.silent q inside t move) fun inside => second.silent q inside t move
  read q inside b t move := inside.imp (fun inside => first.read q inside b t move) fun inside => second.read q inside b t move

def Still (G : Moves σ α) (s : σ) : Prop := (∀ t, ¬G.silent s t) ∧ ∀ b t, ¬G.read s b t

theorem Still.path (still : G.Still s) (path : G.Path s w t) : w = [] ∧ t = s := by
  cases path with
  | nil => exact ⟨rfl, rfl⟩
  | silent move => exact absurd move (still.1 _)
  | read move => exact absurd move (still.2 _ _)

theorem Still.closed (still : G.Still s) : G.Closed {s} where
  silent q inside t move := by
    rw [Set.mem_singleton_iff.mp inside] at move
    exact absurd move (still.1 t)
  read q inside b t move := by
    rw [Set.mem_singleton_iff.mp inside] at move
    exact absurd move (still.2 b t)

structure Fragment (G : Moves σ α) (R : Set σ) (s a : σ) (L : Language α) : Prop where
  closed : G.Closed R
  entry : s ∈ R
  exit : a ∈ R
  words : ∀ w, G.Path s w a ↔ w ∈ L
  reached : ∀ q ∈ R, ∃ w, G.Path s w q

theorem Path.agree {G' : Moves σ α} (closed : G.Closed R) (silent : ∀ q ∈ R, ∀ t, G'.silent q t ↔ G.silent q t)
    (read : ∀ q ∈ R, ∀ b t, G'.read q b t ↔ G.read q b t) (inside : s ∈ R) : G'.Path s w t ↔ G.Path s w t := by
  constructor
  · intro path
    induction path with
    | nil => exact .nil _
    | silent move _ ih =>
      have old := (silent _ inside _).mp move
      exact .silent old (ih (closed.silent _ inside _ old))
    | read move _ ih =>
      have old := (read _ inside _ _).mp move
      exact .read old (ih (closed.read _ inside _ _ old))
  · intro path
    induction path with
    | nil => exact .nil _
    | silent move _ ih => exact .silent ((silent _ inside _).mpr move) (ih (closed.silent _ inside _ move))
    | read move _ ih => exact .read ((read _ inside _ _).mpr move) (ih (closed.read _ inside _ _ move))

theorem Fragment.agree {G' : Moves σ α} (fragment : G.Fragment R s a L) (silent : ∀ q ∈ R, ∀ t, G'.silent q t ↔ G.silent q t)
    (read : ∀ q ∈ R, ∀ b t, G'.read q b t ↔ G.read q b t) : G'.Fragment R s a L where
  closed := ⟨fun q inside t move => fragment.closed.silent q inside t ((silent q inside t).mp move),
    fun q inside b t move => fragment.closed.read q inside b t ((read q inside b t).mp move)⟩
  entry := fragment.entry
  exit := fragment.exit
  words w := (Path.agree fragment.closed silent read fragment.entry).trans (fragment.words w)
  reached q inside := by
    obtain ⟨w, path⟩ := fragment.reached q inside
    exact ⟨w, (Path.agree fragment.closed silent read fragment.entry).mpr path⟩

theorem Fragment.link {s₁ a₁ s₂ a₂ : σ} (first : G.Fragment R₁ s₁ a₁ L₁) (second : G.Fragment R₂ s₂ a₂ L₂) (apart : Disjoint R₁ R₂) :
    (G.join fun q t => q = a₁ ∧ t = s₂).Fragment (R₁ ∪ R₂) s₁ a₂ (L₁ * L₂) := by
  have alone : ∀ q ∈ R₂, ∀ t, ¬(q = a₁ ∧ t = s₂) := by
    rintro q inside t ⟨rfl, -⟩
    exact Set.disjoint_left.mp apart first.exit inside
  have cross : (G.join fun q t => q = a₁ ∧ t = s₂).silent a₁ s₂ := .inr ⟨rfl, rfl⟩
  refine ⟨?_, .inl first.entry, .inr second.exit, fun w => ⟨fun path => ?_, fun member => ?_⟩, fun q inside => ?_⟩
  · apply (first.closed.union second.closed).join
    rintro q _ t ⟨-, rfl⟩
    exact .inr second.entry
  · rcases first.closed.escape path first.entry with stays | ⟨w₁, w₂, q, t, rfl, -, front, ⟨rfl, rfl⟩, back⟩
    · exact absurd second.exit (Set.disjoint_left.mp apart (first.closed.path stays first.entry))
    · exact Language.append_mem_mul ((first.words w₁).mp front) ((second.words w₂).mp (second.closed.stays alone back second.entry))
  · obtain ⟨w₁, front, w₂, back, rfl⟩ := Language.mem_mul.mp member
    exact ((first.words w₁).mpr front).join.trans (.silent cross ((second.words w₂).mpr back).join)
  · rcases inside with inside | inside
    · obtain ⟨w, path⟩ := first.reached q inside
      exact ⟨w, path.join⟩
    · obtain ⟨w₁, front⟩ := first.reached a₁ first.exit
      obtain ⟨w, path⟩ := second.reached q inside
      exact ⟨w₁ ++ w, front.join.trans (.silent cross path.join)⟩

/-- A fragment between two new states, which may be passed over and may be repeated. -/
def around (s a fs fa : σ) (skip again : Bool) (q t : σ) : Prop :=
  (q = s ∧ t = fs) ∨ (q = fa ∧ t = a) ∨ (skip = true ∧ q = s ∧ t = a) ∨ (again = true ∧ q = fa ∧ t = fs)

section around

variable {fs fa : σ} {skip again : Bool}

theorem Fragment.repeats (fragment : G.Fragment R fs fa L) (entry : s ∉ R) (exit : a ∉ R) (still : G.Still a) (other : a ≠ s)
    {q : σ} (path : (G.join (around s a fs fa skip again)).Path q w u) (inside : q ∈ R) (target : u = a) :
    ∃ w₁ w₂, w = w₁ ++ w₂ ∧ G.Path q w₁ fa ∧ (w₂ = [] ∨ again = true ∧ w₂ ∈ L * L∗) := by
  induction path with
  | nil => exact absurd (target ▸ inside) exit
  | @silent q t u w move rest ih =>
    rcases move with old | ⟨rfl, -⟩ | ⟨rfl, rfl⟩ | ⟨-, rfl, -⟩ | ⟨repeat', rfl, rfl⟩
    · obtain ⟨w₁, w₂, rfl, front, back⟩ := ih (fragment.closed.silent q inside t old) target
      exact ⟨w₁, w₂, rfl, .silent old front, back⟩
    · exact absurd inside entry
    · -- the exit has no moves of its own, old or new
      have quiet : (G.join (around s t fs q skip again)).Still t := by
        refine ⟨fun t' move => ?_, still.2⟩
        rcases move with old | ⟨rfl, -⟩ | ⟨rfl, -⟩ | ⟨-, rfl, -⟩ | ⟨-, rfl, -⟩
        · exact still.1 t' old
        · exact other rfl
        · exact exit inside
        · exact other rfl
        · exact exit inside
      exact ⟨[], w, rfl, .nil q, .inl (quiet.path rest).1⟩
    · exact absurd inside entry
    · obtain ⟨w₁, w₂, rfl, front, back⟩ := ih fragment.entry target
      refine ⟨[], w₁ ++ w₂, rfl, .nil q, .inr ⟨repeat', ?_⟩⟩
      apply Language.append_mem_mul ((fragment.words w₁).mp front)
      rcases back with rfl | ⟨-, more⟩
      · exact Language.nil_mem_kstar L
      · rw [← Language.one_add_self_mul_kstar_eq_kstar]
        exact .inr more
  | @read q t u b w move rest ih =>
    obtain ⟨w₁, w₂, rfl, front, back⟩ := ih (fragment.closed.read q inside b t move) target
    exact ⟨b :: w₁, w₂, rfl, .read move front, back⟩

theorem Fragment.kstar_path (fragment : G.Fragment R fs fa L) (repeat' : again = true) (member : w ∈ L * L∗) :
    (G.join (around s a fs fa skip again)).Path fs w fa := by
  obtain ⟨v, first, rest, more, rfl⟩ := Language.mem_mul.mp member
  have start := ((fragment.words v).mpr first).join (E := around s a fs fa skip again)
  obtain ⟨parts, rfl, each⟩ := Language.mem_kstar.mp more
  clear more member first
  induction parts generalizing v with
  | nil => simpa using start
  | cons part parts ih =>
    have back : (G.join (around s a fs fa skip again)).silent fa fs := .inr (.inr (.inr (.inr ⟨repeat', rfl, rfl⟩)))
    have next := start.trans (.silent back ((fragment.words part).mpr (each part List.mem_cons_self)).join)
    have all := ih (v ++ part) next fun y member => each y (List.mem_cons_of_mem part member)
    rwa [List.append_assoc] at all

theorem Fragment.around (fragment : G.Fragment R fs fa L) (entry : s ∉ R) (exit : a ∉ R) (first : G.Still s)
    (last : G.Still a) (other : a ≠ s) :
    (G.join (around s a fs fa skip again)).Fragment (R ∪ {s} ∪ {a}) s a
      ((if skip then 1 else 0) + if again then L * L∗ else L) := by
  have enter : (G.join (Moves.around s a fs fa skip again)).silent s fs := .inr (.inl ⟨rfl, rfl⟩)
  have leave : (G.join (Moves.around s a fs fa skip again)).silent fa a := .inr (.inr (.inl ⟨rfl, rfl⟩))
  refine ⟨?_, .inl (.inr rfl), .inr rfl, fun w => ⟨fun path => ?_, fun member => ?_⟩, fun q inside => ?_⟩
  · apply ((fragment.closed.union first.closed).union last.closed).join
    rintro q _ t (⟨-, rfl⟩ | ⟨-, rfl⟩ | ⟨-, -, rfl⟩ | ⟨-, -, rfl⟩)
    · exact .inl (.inl fragment.entry)
    · exact .inr rfl
    · exact .inr rfl
    · exact .inl (.inl fragment.entry)
  · -- the first move goes into the fragment or past it
    rw [Language.mem_add]
    cases path with
    | nil => exact absurd rfl other
    | read move => exact absurd move (first.2 _ _)
    | @silent _ t _ _ move rest =>
      rcases move with old | ⟨-, rfl⟩ | ⟨rfl, -⟩ | ⟨skips, -, rfl⟩ | ⟨-, rfl, -⟩
      · exact absurd old (first.1 t)
      · right
        obtain ⟨w₁, w₂, rfl, front, back⟩ := fragment.repeats entry exit last other rest fragment.entry rfl
        have member := (fragment.words w₁).mp front
        rcases back with rfl | ⟨repeat', more⟩
        · rw [List.append_nil]
          split
          · rw [← List.append_nil w₁]
            exact Language.append_mem_mul member (Language.nil_mem_kstar L)
          · exact member
        · rw [if_pos repeat']
          apply Language.append_mem_mul member
          rw [← Language.one_add_self_mul_kstar_eq_kstar]
          exact .inr more
      · exact absurd fragment.exit entry
      · left
        have quiet : (G.join (Moves.around s t fs fa skip again)).Still t := by
          refine ⟨fun t' move => ?_, last.2⟩
          rcases move with old | ⟨rfl, -⟩ | ⟨rfl, -⟩ | ⟨-, rfl, -⟩ | ⟨-, rfl, -⟩
          · exact last.1 t' old
          · exact other rfl
          · exact exit fragment.exit
          · exact other rfl
          · exact exit fragment.exit
        rw [if_pos skips]
        exact (quiet.path rest).1
      · exact absurd fragment.exit entry
  · rcases (Language.mem_add _ _ _).mp member with empty | words
    · split at empty
      · rename_i skips
        obtain rfl := (Language.mem_one w).mp empty
        exact .silent (.inr (.inr (.inr (.inl ⟨skips, rfl, rfl⟩)))) (.nil a)
      · exact absurd empty (Language.notMem_zero w)
    · have inner : (G.join (Moves.around s a fs fa skip again)).Path fs w fa := by
        split at words
        · rename_i repeat'
          exact fragment.kstar_path repeat' words
        · exact ((fragment.words w).mpr words).join
      have whole := inner.trans (.silent leave (.nil a))
      rw [List.append_nil] at whole
      exact .silent enter whole
  · rcases inside with (inside | rfl) | rfl
    · obtain ⟨w, path⟩ := fragment.reached q inside
      exact ⟨w, .silent enter path.join⟩
    · exact ⟨[], .nil q⟩
    · obtain ⟨w, path⟩ := fragment.reached fa fragment.exit
      exact ⟨w ++ [], .silent enter (path.join.trans (.silent leave (.nil q)))⟩

end around

structure Part (σ α : Type) where
  region : Set σ
  entry : σ
  exit : σ
  words : Language α

def Part.Here (G : Moves σ α) (p : Part σ α) : Prop := G.Fragment p.region p.entry p.exit p.words

def fan (s a : σ) (parts : List (Part σ α)) (q t : σ) : Prop :=
  (q = s ∧ ∃ p ∈ parts, t = p.entry) ∨ (t = a ∧ ∃ p ∈ parts, q = p.exit)

theorem mem_sum {words : List (Language α)} : w ∈ words.sum ↔ ∃ L ∈ words, w ∈ L := by
  induction words with
  | nil => simp [Language.notMem_zero]
  | cons L words ih =>
    rw [List.sum_cons, Language.mem_add, ih]
    simp only [List.mem_cons, exists_eq_or_imp]

section fan

variable {parts : List (Part σ α)}

def regions (parts : List (Part σ α)) : Set σ := {q | ∃ p ∈ parts, q ∈ p.region}

theorem closed_regions (each : ∀ p ∈ parts, p.Here G) : G.Closed (regions parts) where
  silent q inside t move := by
    obtain ⟨p, member, here⟩ := inside
    exact ⟨p, member, (each p member).closed.silent q here t move⟩
  read q inside b t move := by
    obtain ⟨p, member, here⟩ := inside
    exact ⟨p, member, (each p member).closed.read q here b t move⟩

theorem fan_fragment (each : ∀ p ∈ parts, p.Here G) (some' : parts ≠ [])
    (apart : ∀ p ∈ parts, ∀ p' ∈ parts, ∀ q ∈ p.region, q ∈ p'.region → p = p') (entry : s ∉ regions parts) (exit : a ∉ regions parts)
    (first : G.Still s) (last : G.Still a) (other : a ≠ s) :
    (G.join (fan s a parts)).Fragment (regions parts ∪ {s} ∪ {a}) s a (parts.map Part.words).sum := by
  have enter : ∀ p ∈ parts, (G.join (fan s a parts)).silent s p.entry := fun p member => .inr (.inl ⟨rfl, p, member, rfl⟩)
  have leave : ∀ p ∈ parts, (G.join (fan s a parts)).silent p.exit a := fun p member => .inr (.inr ⟨rfl, p, member, rfl⟩)
  have quiet : (G.join (fan s a parts)).Still a := by
    refine ⟨fun t move => ?_, last.2⟩
    rcases move with old | ⟨rfl, -⟩ | ⟨-, p, member, rfl⟩
    · exact last.1 t old
    · exact other rfl
    · exact exit ⟨p, member, (each p member).exit⟩
  refine ⟨?_, .inl (.inr rfl), .inr rfl, fun w => ⟨fun path => ?_, fun member => ?_⟩, fun q inside => ?_⟩
  · apply (((closed_regions each).union first.closed).union last.closed).join
    rintro q _ t (⟨-, p, member, rfl⟩ | ⟨rfl, -⟩)
    · exact .inl (.inl ⟨p, member, (each p member).entry⟩)
    · exact .inr rfl
  · cases path with
    | nil => exact absurd rfl other
    | read move => exact absurd move (first.2 _ _)
    | @silent _ t _ _ move rest =>
      rcases move with old | ⟨-, p, member, rfl⟩ | ⟨-, p, member, rfl⟩
      · exact absurd old (first.1 t)
      · -- from a fragment only its own exit leads on, to the new exit
        rcases (each p member).closed.escape rest (each p member).entry with stays | ⟨w₁, w₂, q, t, rfl, inside, front, out, back⟩
        · exact absurd ⟨p, member, (each p member).closed.path stays (each p member).entry⟩ exit
        · rcases out with ⟨rfl, -⟩ | ⟨rfl, p', member', rfl⟩
          · exact absurd ⟨p, member, inside⟩ entry
          · obtain rfl := apart p member p' member' _ inside (each p' member').exit
            rw [(quiet.path back).1, List.append_nil]
            exact mem_sum.mpr ⟨p.words, List.mem_map_of_mem member, ((each p member).words w₁).mp front⟩
      · exact absurd ⟨p, member, (each p member).exit⟩ entry
  · obtain ⟨L, listed, here⟩ := mem_sum.mp member
    obtain ⟨p, member, rfl⟩ := List.mem_map.mp listed
    have whole := (((each p member).words w).mpr here).join.trans (.silent (leave p member) (.nil a))
    rw [List.append_nil] at whole
    exact .silent (enter p member) whole
  · rcases inside with (⟨p, member, here⟩ | rfl) | rfl
    · obtain ⟨w, path⟩ := (each p member).reached q here
      exact ⟨w, .silent (enter p member) path.join⟩
    · exact ⟨[], .nil q⟩
    · obtain ⟨p, rest, rfl⟩ := List.exists_cons_of_ne_nil some'
      obtain ⟨w, path⟩ := (each p List.mem_cons_self).reached p.exit (each p List.mem_cons_self).exit
      exact ⟨w ++ [], .silent (enter p List.mem_cons_self) (path.join.trans (.silent (leave p List.mem_cons_self) (.nil q)))⟩

end fan

end Moves
end FfnNgfw
