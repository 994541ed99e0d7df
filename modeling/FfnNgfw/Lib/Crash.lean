import Mathlib.Tactic.Common

/-!
# Programs that may be interrupted

A program over a state `σ` whose steps may fail or be cut off. Each step takes the next
fault of a list: it may raise or the process may die, before or after its effect. An
exception can be handled, a death cannot. `Ends` is the rule of pre- and postconditions:
one condition for the end of the program, one for wherever else it stops.
-/

namespace FfnNgfw

inductive Fault where
  | none
  | raise (after : Bool) (why : String)
  | crash (after : Bool)
  deriving DecidableEq

inductive Exit (α : Type) where
  | done (a : α)
  | raised (why : String)
  | crashed
  deriving DecidableEq

def Proc (σ α : Type) := List Fault → σ → Exit α × List Fault × σ

namespace Proc

variable {σ α β : Type}

def bind (c : Proc σ α) (k : α → Proc σ β) : Proc σ β := fun fs s =>
  match c fs s with
  | (.done a, fs, s) => k a fs s
  | (.raised why, fs, s) => (.raised why, fs, s)
  | (.crashed, fs, s) => (.crashed, fs, s)

instance : Monad (Proc σ) where
  pure a := fun fs s => (.done a, fs, s)
  bind := bind

/-- A step that computes `g` and leaves `f s`. -/
def step (f : σ → σ) (g : σ → α) : Proc σ α := fun fs s =>
  match fs with
  | [] => (.done (g s), [], f s)
  | .none :: fs => (.done (g s), fs, f s)
  | .raise after why :: fs => (.raised why, fs, if after then f s else s)
  | .crash after :: fs => (.crashed, fs, if after then f s else s)

def write (f : σ → σ) : Proc σ Unit := step f fun _ => ()

def ask (g : σ → α) : Proc σ α := step id g

def throw (why : String) : Proc σ α := fun fs s => (.raised why, fs, s)

def require (cond : Bool) (why : String) : Proc σ Unit := if cond then pure () else throw why

/-- Where `c` raises, the handler takes over. -/
def handle (c handler : Proc σ α) : Proc σ α := fun fs s =>
  match c fs s with
  | (.raised _, fs, s) => handler fs s
  | r => r

def each (body : α → Proc σ Unit) : List α → Proc σ Unit
  | [] => pure ()
  | a :: rest => do
    body a
    each body rest

def collect (body : α → Proc σ β) : List α → Proc σ (List β)
  | [] => pure []
  | a :: rest => do
    let b ← body a
    let bs ← collect body rest
    pure (b :: bs)

/-! ### Conditions -/

def Lands (post : α → σ → Prop) (broken : σ → Prop) : Exit α × List Fault × σ → Prop
  | (.done a, _, t) => post a t
  | (_, _, t) => broken t

/-- From `s` the program ends with `post`, or stops on the way in a state of `broken`. -/
def Ends (c : Proc σ α) (post : α → σ → Prop) (broken : σ → Prop) (s : σ) : Prop := ∀ fs, Lands post broken (c fs s)

variable {post : α → σ → Prop} {broken : σ → Prop} {s : σ}

variable {c : Proc σ α} {f : σ → σ} {g : σ → α} {items : List α}

theorem Ends.weaken {post' : α → σ → Prop} {broken' : σ → Prop} (h : Ends c post broken s)
    (done : ∀ a t, post a t → post' a t) (stopped : ∀ t, broken t → broken' t) : Ends c post' broken' s := by
  intro fs
  have here := h fs
  revert here
  rcases c fs s with ⟨a | why | _, rest, t⟩
  · exact done a t
  · exact stopped t
  · exact stopped t

theorem Ends.of_done (h : Ends c post broken s) {fs : List Fault} {a : α} (done : (c fs s).1 = .done a) :
    post a (c fs s).2.2 := by
  have here := h fs
  revert here done
  rcases c fs s with ⟨_ | _ | _, _, t⟩
  · rintro ⟨⟩
    exact id
  · exact nofun
  · exact nofun

theorem Ends.stops (h : Ends c post broken s) (done : ∀ a t, post a t → broken t) (fs : List Fault) :
    broken (c fs s).2.2 := by
  have here := h.weaken done (fun _ h => h) fs
  revert here
  rcases c fs s with ⟨_ | _ | _, _, t⟩ <;> exact id

theorem ends_pure {a : α} (h : post a s) : Ends (pure a : Proc σ α) post broken s := fun _ => h

theorem ends_bind {k : α → Proc σ β} {post : β → σ → Prop}
    (h : Ends c (fun a => Ends (k a) post broken) broken s) : Ends (c >>= k) post broken s := by
  intro fs
  have first := h fs
  change Lands post broken (bind c k fs s)
  unfold bind
  revert first
  rcases c fs s with ⟨a | why | _, rest, t⟩
  · exact fun first => first rest
  · exact id
  · exact id

theorem ends_step (untouched : broken s) (touched : broken (f s)) (h : post (g s) (f s)) :
    Ends (step f g) post broken s := by
  intro fs
  match fs with
  | [] => exact h
  | .none :: _ => exact h
  | .raise true _ :: _ => exact touched
  | .raise false _ :: _ => exact untouched
  | .crash true :: _ => exact touched
  | .crash false :: _ => exact untouched

theorem ends_write {post : Unit → σ → Prop} (untouched : broken s) (touched : broken (f s))
    (h : post () (f s)) : Ends (write f) post broken s := ends_step untouched touched h

theorem ends_ask (untouched : broken s) (h : post (g s) s) : Ends (ask g) post broken s :=
  ends_step untouched untouched h

theorem ends_throw {why : String} (h : broken s) : Ends (throw why : Proc σ α) post broken s := fun _ => h

theorem ends_require {cond : Bool} {why : String} {post : Unit → σ → Prop} (failed : broken s)
    (h : cond = true → post () s) : Ends (require cond why) post broken s := by
  unfold require
  split
  · exact ends_pure (h ‹_›)
  · exact ends_throw failed

theorem ends_handle {c handler : Proc σ α} {stopped : σ → Prop} (h : Ends c post stopped s)
    (dead : ∀ t, stopped t → broken t) (rescue : ∀ t, stopped t → Ends handler post broken t) :
    Ends (handle c handler) post broken s := by
  intro fs
  have first := h fs
  unfold handle
  revert first
  rcases c fs s with ⟨a | why | _, rest, t⟩
  · exact id
  · exact fun first => rescue t first rest
  · exact dead t

theorem ends_each {body : α → Proc σ Unit} (inv : List α → σ → Prop)
    (turn : ∀ a rest t, inv (a :: rest) t → Ends (body a) (fun _ => inv rest) broken t)
    (start : inv items s) : Ends (each body items) (fun _ => inv []) broken s := by
  induction items generalizing s with
  | nil => exact ends_pure start
  | cons a rest ih =>
    refine ends_bind ?_
    exact (turn a rest s start).weaken (fun _ t => ih) fun _ h => h

theorem ends_collect {body : α → Proc σ β} (inv : List α → List β → σ → Prop)
    (turn : ∀ a before bs t, inv before bs t → Ends (body a) (fun b => inv (before ++ [a]) (bs ++ [b])) broken t)
    (before : List α) (bs : List β) (start : inv before bs s) :
    Ends (collect body items) (fun out => inv (before ++ items) (bs ++ out)) broken s := by
  induction items generalizing s before bs with
  | nil =>
    refine ends_pure ?_
    simpa using start
  | cons a rest ih =>
    refine ends_bind ((turn a before bs s start).weaken (fun b t here => ?_) fun _ h => h)
    refine ends_bind ((ih _ _ here).weaken (fun out u after => ends_pure ?_) fun _ h => h)
    simpa using after

/-- Left alone, the program gets through from `s` with `post`. -/
def Completes (c : Proc σ α) (post : α → σ → Prop) (s : σ) : Prop := ∃ a t, c [] s = (.done a, [], t) ∧ post a t

theorem Completes.weaken {post' : α → σ → Prop} (h : Completes c post s)
    (done : ∀ a t, post a t → post' a t) : Completes c post' s := by
  obtain ⟨a, t, run, here⟩ := h
  exact ⟨a, t, run, done a t here⟩

theorem completes_pure {a : α} (h : post a s) : Completes (pure a : Proc σ α) post s := ⟨a, s, rfl, h⟩

theorem completes_bind {k : α → Proc σ β} {post : β → σ → Prop}
    (h : Completes c (fun a => Completes (k a) post) s) : Completes (c >>= k) post s := by
  obtain ⟨a, t, first, b, u, second, here⟩ := h
  refine ⟨b, u, ?_, here⟩
  change bind c k [] s = _
  unfold bind
  rw [first]
  exact second

theorem completes_write {post : Unit → σ → Prop} (h : post () (f s)) : Completes (write f) post s :=
  ⟨(), f s, rfl, h⟩

theorem completes_ask (h : post (g s) s) : Completes (ask g) post s := ⟨g s, s, rfl, h⟩

theorem completes_require {cond : Bool} {why : String} {post : Unit → σ → Prop} (met : cond = true) (h : post () s) :
    Completes (require cond why) post s := by
  unfold require
  rw [if_pos met]
  exact completes_pure h

theorem completes_each {body : α → Proc σ Unit} (inv : List α → σ → Prop)
    (turn : ∀ a rest t, inv (a :: rest) t → Completes (body a) (fun _ => inv rest) t)
    (start : inv items s) : Completes (each body items) (fun _ => inv []) s := by
  induction items generalizing s with
  | nil => exact completes_pure start
  | cons a rest ih =>
    refine completes_bind ?_
    exact (turn a rest s start).weaken fun _ t => ih

end Proc

end FfnNgfw
