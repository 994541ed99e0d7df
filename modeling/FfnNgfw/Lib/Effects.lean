import Mathlib.Tactic.Common

/-!
# Effects that may raise

A program is a sequence of steps on a state, each of which may raise. A step that raises
has had its effect or it has not, and the caller cannot tell which; a handler runs on
whatever state is left. `Routine σ` gives the state a program leaves and whether it got
through.
-/

namespace FfnNgfw

inductive Outcome where
  | ok
  /-- raised, and nothing has happened -/
  | early
  /-- raised, and the effect is there -/
  | late
  deriving DecidableEq

abbrev Routine (σ : Type) := σ → σ × Bool

namespace Routine

variable {σ : Type}

def perform (o : Outcome) (f : σ → σ) : Routine σ := fun s =>
  match o with
  | .ok => (f s, true)
  | .early => (s, false)
  | .late => (f s, false)

def look (o : Outcome) : Routine σ := fun s => (s, o = .ok)

def skip : Routine σ := fun s => (s, true)

def raise : Routine σ := fun s => (s, false)

def seq (a b : Routine σ) : Routine σ := fun s => if (a s).2 then b (a s).1 else a s

def all : List (Routine σ) → Routine σ
  | [] => skip
  | a :: rest => seq a (all rest)

/-- Where `a` raises, `h` takes over. -/
def handle (a h : Routine σ) : Routine σ := fun s => if (a s).2 then a s else h (a s).1

variable {a b h : Routine σ}

theorem seq_of_ok {s : σ} (ok : (a s).2 = true) : seq a b s = b (a s).1 := if_pos ok

theorem seq_of_raise {s : σ} (raised : (a s).2 = false) : seq a b s = a s := if_neg (by simp [raised])

theorem seq_skip (a : Routine σ) : seq a skip = a := by
  funext s
  cases passed : (a s).2 with
  | true => exact (seq_of_ok passed).trans (Prod.ext rfl passed.symm)
  | false => exact seq_of_raise passed

theorem seq_look (o : Outcome) (b : Routine σ) (s : σ) : seq (look o) b s = if o = .ok then b s else (s, false) := by
  by_cases passed : o = .ok
  · rw [if_pos passed]
    exact seq_of_ok (decide_eq_true passed)
  · have raised : (look o s).2 = false := decide_eq_false passed
    rw [if_neg passed, seq_of_raise raised]
    exact Prod.ext rfl raised

theorem seq_perform (o : Outcome) (f : σ → σ) (b : Routine σ) (s : σ) : seq (perform o f) b s =
    match o with
    | .ok => b (f s)
    | .early => (s, false)
    | .late => (f s, false) := by
  cases o <;> rfl

theorem handle_of_ok {s : σ} (ok : (a s).2 = true) : handle a h s = a s := if_pos ok

theorem handle_of_raise {s : σ} (raised : (a s).2 = false) : handle a h s = h (a s).1 := if_neg (by simp [raised])

theorem perform_ok (o : Outcome) (f : σ → σ) (s : σ) : (perform o f s).2 = decide (o = .ok) := by
  cases o <;> rfl

theorem seq_ok (a b : Routine σ) (s : σ) : (seq a b s).2 = ((a s).2 && (b (a s).1).2) := by
  unfold seq
  cases passed : (a s).2 <;> simp [passed]

theorem seq_keeps (inv : σ → Prop) (first : ∀ s, inv s → inv (a s).1) (second : ∀ s, inv s → inv (b s).1)
    (s : σ) (holds : inv s) : inv (seq a b s).1 := by
  unfold seq
  split
  · exact second _ (first s holds)
  · exact first s holds

theorem all_keeps (inv : σ → Prop) {acts : List (Routine σ)} (each : ∀ a ∈ acts, ∀ s, inv s → inv (a s).1) (s : σ)
    (holds : inv s) : inv (all acts s).1 := by
  induction acts generalizing s with
  | nil => exact holds
  | cons a rest ih =>
    refine seq_keeps inv (each a List.mem_cons_self) (fun s' => ih (fun b member => each b (List.mem_cons_of_mem a member)) s') s holds

theorem perform_keeps (inv : σ → Prop) {o : Outcome} {f : σ → σ} (effect : ∀ s, inv s → inv (f s)) (s : σ) (holds : inv s) :
    inv (perform o f s).1 := by
  cases o with
  | ok => exact effect s holds
  | early => exact holds
  | late => exact effect s holds

theorem handle_keeps (inv : σ → Prop) (first : ∀ s, inv s → inv (a s).1) (second : ∀ s, inv s → inv (h s).1)
    (s : σ) (holds : inv s) : inv (handle a h s).1 := by
  unfold handle
  split
  · exact first s holds
  · exact second _ (first s holds)

end Routine

end FfnNgfw
