import Mathlib.Data.List.Basic
import Mathlib.Tactic.Common

/-!
# Editing the candidate

Editors in any number of processes work on one candidate file: each reads it, checks the
revision it was given, edits in memory, compares the file with what it read and replaces it.
Reading, comparing and replacing are separate steps, in any order between the editors. What
`execute` does in memory is a function of the bytes it read.
-/

namespace FfnNgfw.Policy.Candidate

inductive Source where
  | candidate
  | running
  deriving DecidableEq

/-- The arguments of a call, and what it finds outside of the two files. -/
structure Request (Content : Type) where
  source : Source
  /-- create, update, delete, move and toggle; the other actions only report -/
  edits : Bool
  user : String
  /-- who holds the configuration lock when the call looks -/
  lockHolder : Option String
  revision : String
  /-- the checks of the configuration and the arguments that come before those of the actor -/
  inspect : Content → Except String Unit
  edit : Content → Except String Content
  /-- whether the file is read again before it is saved; the VRRP calls do not -/
  rereads : Bool

/-- How far a call has come: `original` is what it read, `raw` what it will write. -/
inductive Phase (Content : Type) where
  | idle
  | read (original : Content)
  | edited (original raw : Content)
  | saving (original raw : Content)
  | written (original raw : Content) (attempt : Nat)
  /-- the file was the original one when `seen` replacements had been made -/
  | compared (original raw : Content) (attempt seen : Nat)
  | reported
  | rejected (text : String)
  | updated (original raw : Content)
  deriving DecidableEq

structure Write (ι Content : Type) where
  editor : ι
  based : Content
  wrote : Content
  deriving DecidableEq

structure State (ι Content : Type) where
  candidate : Content
  running : Content
  temp : ι → Option Content
  phase : ι → Phase Content
  /-- every replacement so far -/
  writes : List (Write ι Content)

/-- One step of one editor; where it depends on the system, with the outcome. -/
inductive Action (ι : Type) where
  | read (i : ι)
  | execute (i : ι)
  | reread (i : ι)
  | writeTemp (i : ι) (ok : Bool)
  | compare (i : ι)
  | replace (i : ι) (ok : Bool)

def changedText : String := "Candidate changed during this edit"

section step

variable {ι Content : Type} [DecidableEq ι] [DecidableEq Content]

/-- What `execute` does with what it has read. -/
def Request.execute (r : Request Content) (digest : Content → String) (xml : Content) : Phase Content :=
  match r.inspect xml with
  | .error text => .rejected text
  | .ok _ =>
    if !r.edits then .reported
    else if r.source ≠ .candidate then .rejected "Running configuration is read only"
    else if r.user.isEmpty then .rejected "Authenticated actor required"
    else if r.lockHolder.any fun holder => holder ≠ r.user then .rejected "Configuration is locked by another administrator"
    else if r.revision ≠ digest xml then .rejected "Candidate changed. Refresh and review before retrying"
    else
      match r.edit xml with
      | .error text => .rejected text
      | .ok raw => if r.rereads then .edited xml raw else .saving xml raw

def State.enter (s : State ι Content) (i : ι) (p : Phase Content) : State ι Content :=
  { s with phase := fun j => if j = i then p else s.phase j }

def State.setTemp (s : State ι Content) (i : ι) (raw : Option Content) : State ι Content :=
  { s with temp := fun j => if j = i then raw else s.temp j }

/-- A step that is not due does nothing. `windows` says that `os.name` is `nt`. -/
def step (requests : ι → Request Content) (digest : Content → String) (windows : Bool) (s : State ι Content) :
    Action ι → State ι Content
  | .read i =>
    match s.phase i with
    | .idle => s.enter i (.read (match (requests i).source with | .candidate => s.candidate | .running => s.running))
    | _ => s
  | .execute i =>
    match s.phase i with
    | .read xml => s.enter i ((requests i).execute digest xml)
    | _ => s
  | .reread i =>
    match s.phase i with
    | .edited original raw => s.enter i (if s.candidate ≠ original then .rejected changedText else .saving original raw)
    | _ => s
  | .writeTemp i ok =>
    match s.phase i with
    | .saving original raw =>
      if ok then (s.setTemp i (some raw)).enter i (.written original raw 0) else s.enter i (.rejected "OSError")
    | _ => s
  | .compare i =>
    match s.phase i with
    | .written original raw attempt =>
      if s.candidate ≠ original then (s.setTemp i none).enter i (.rejected changedText)
      else s.enter i (.compared original raw attempt s.writes.length)
    | _ => s
  | .replace i ok =>
    match s.phase i with
    | .compared original raw attempt _ =>
      if ok then
        { (s.setTemp i none).enter i (.updated original raw) with
          candidate := raw
          writes := s.writes ++ [⟨i, original, raw⟩] }
      else if ¬windows ∨ attempt = 5 then (s.setTemp i none).enter i (.rejected "PermissionError")
      else s.enter i (.written original raw (attempt + 1))
    | _ => s

def run (requests : ι → Request Content) (digest : Content → String) (windows : Bool) (s : State ι Content)
    (actions : List (Action ι)) : State ι Content := actions.foldl (step requests digest windows) s

def initial (candidate running : Content) : State ι Content := ⟨candidate, running, fun _ => none, fun _ => .idle, []⟩

end step

/-! ### Edits are kept -/

section kept

variable {ι Content : Type}

def Chain : Content → List (Write ι Content) → Content → Prop
  | first, [], last => last = first
  | first, w :: rest, last => w.based = first ∧ Chain w.wrote rest last

theorem chain_append {first last : Content} {ws : List (Write ι Content)} (chain : Chain first ws last) {w : Write ι Content}
    (based : w.based = last) : Chain first (ws ++ [w]) w.wrote := by
  induction ws generalizing first with
  | nil => exact ⟨based.trans chain, rfl⟩
  | cons v rest ih => exact ⟨chain.1, ih chain.2⟩

theorem chain_next {first last : Content} {front rest : List (Write ι Content)} {w next : Write ι Content}
    (chain : Chain first (front ++ w :: next :: rest) last) : next.based = w.wrote := by
  induction front generalizing first with
  | nil => exact chain.2.1
  | cons v front ih => exact ih chain.2

/-- The call has accepted `original` for its edit, and `raw` is the edit of it. -/
def Request.Accepts (r : Request Content) (digest : Content → String) (original raw : Content) : Prop :=
  r.source = .candidate ∧ r.revision = digest original ∧ r.edit original = .ok raw

def Phase.pending : Phase Content → Option (Content × Content)
  | .edited original raw | .saving original raw | .written original raw _ | .compared original raw _ _ | .updated original raw =>
    some (original, raw)
  | .idle | .read _ | .reported | .rejected _ => none

variable (requests : ι → Request Content) (digest : Content → String) (first : Content) (s : State ι Content)

/-- No edit is lost: the calls that report an update are those that replaced the file, each
once, with an edit of what the replacement before it had written. -/
structure EditsKept : Prop where
  chain : Chain first s.writes s.candidate
  next : ∀ front w w' rest, s.writes = front ++ w :: w' :: rest → w'.based = w.wrote
  updated : ∀ i original raw, s.phase i = .updated original raw ↔ ⟨i, original, raw⟩ ∈ s.writes
  once : (s.writes.map Write.editor).Nodup
  fresh : ∀ w ∈ s.writes, (requests w.editor).revision = digest w.based ∧ (requests w.editor).edit w.based = .ok w.wrote
  rejected : ∀ i text, s.phase i = .rejected text → ∀ w ∈ s.writes, w.editor ≠ i

/-- What every step keeps where no comparison is out of date when the file is replaced. -/
structure Inv : Prop where
  chain : Chain first s.writes s.candidate
  compared : ∀ i original raw attempt seen, s.phase i = .compared original raw attempt seen →
    seen ≤ s.writes.length ∧ (seen = s.writes.length → s.candidate = original)
  accepted : ∀ i original raw, (s.phase i).pending = some (original, raw) → (requests i).Accepts digest original raw
  updated : ∀ i original raw, s.phase i = .updated original raw ↔ ⟨i, original, raw⟩ ∈ s.writes
  once : (s.writes.map Write.editor).Nodup

variable {requests digest first s}

theorem Inv.editsKept (inv : Inv requests digest first s) : EditsKept requests digest first s where
  chain := inv.chain
  next := by
    intro front w w' rest split
    have chain := inv.chain
    rw [split] at chain
    exact chain_next chain
  updated := inv.updated
  once := inv.once
  fresh := by
    intro w member
    have phase := (inv.updated w.editor w.based w.wrote).mpr member
    exact (inv.accepted w.editor w.based w.wrote (by rw [phase]; rfl)).2
  rejected := by
    rintro i text phase w member rfl
    have updated := (inv.updated w.editor w.based w.wrote).mpr member
    rw [phase] at updated
    cases updated

theorem Inv.setTemp [DecidableEq ι] (inv : Inv requests digest first s) (i : ι) (raw : Option Content) :
    Inv requests digest first (s.setTemp i raw) :=
  ⟨inv.chain, inv.compared, inv.accepted, inv.updated, inv.once⟩

theorem Inv.enter [DecidableEq ι] (inv : Inv requests digest first s) {i : ι} {p : Phase Content}
    (before : ∀ original raw, s.phase i ≠ .updated original raw) (after : ∀ original raw, p ≠ .updated original raw)
    (compared : ∀ original raw attempt seen, p = .compared original raw attempt seen →
      seen ≤ s.writes.length ∧ (seen = s.writes.length → s.candidate = original))
    (accepted : ∀ original raw, p.pending = some (original, raw) → (requests i).Accepts digest original raw) :
    Inv requests digest first (s.enter i p) where
  chain := inv.chain
  compared := by
    intro j original raw attempt seen phase
    by_cases here : j = i
    · subst here
      exact compared original raw attempt seen (by simpa [State.enter] using phase)
    · exact inv.compared j original raw attempt seen (by simpa [State.enter, here] using phase)
  accepted := by
    intro j original raw pending
    by_cases here : j = i
    · subst here
      exact accepted original raw (by simpa [State.enter] using pending)
    · exact inv.accepted j original raw (by simpa [State.enter, here] using pending)
  updated := by
    intro j original raw
    by_cases here : j = i
    · subst here
      have unwritten : ⟨j, original, raw⟩ ∉ s.writes := fun member => before original raw ((inv.updated j original raw).mpr member)
      simp [State.enter, after original raw, unwritten]
    · rw [← show s.phase j = (s.enter i p).phase j by simp [State.enter, here]]
      exact inv.updated j original raw
  once := inv.once

theorem Inv.replace [DecidableEq ι] (inv : Inv requests digest first s) {i : ι} {original raw : Content} {attempt seen : Nat}
    (phase : s.phase i = .compared original raw attempt seen) (current : s.candidate = original)
    (accepts : (requests i).Accepts digest original raw) :
    Inv requests digest first { (s.setTemp i none).enter i (.updated original raw) with
      candidate := raw
      writes := s.writes ++ [⟨i, original, raw⟩] } where
  chain := chain_append inv.chain current.symm
  compared := by
    intro j original' raw' attempt' seen' phase'
    have other : j ≠ i := by
      rintro rfl
      simp [State.enter] at phase'
    obtain ⟨early, -⟩ := inv.compared j original' raw' attempt' seen' (by simpa [State.enter, State.setTemp, other] using phase')
    simp only [List.length_append, List.length_singleton]
    exact ⟨by omega, fun late => by omega⟩
  accepted := by
    intro j original' raw' pending
    by_cases here : j = i
    · subst here
      have same : (original, raw) = (original', raw') := by simpa [State.enter, Phase.pending] using pending
      cases same
      exact accepts
    · exact inv.accepted j original' raw' (by simpa [State.enter, State.setTemp, here] using pending)
  updated := by
    intro j original' raw'
    rw [List.mem_append, List.mem_singleton]
    by_cases here : j = i
    · subst here
      have unwritten : ⟨j, original', raw'⟩ ∉ s.writes := by
        intro member
        have updated := (inv.updated j original' raw').mpr member
        rw [phase] at updated
        cases updated
      simp [State.enter, unwritten, eq_comm]
    · simpa [State.enter, State.setTemp, here] using inv.updated j original' raw'
  once := by
    rw [List.map_append, List.nodup_append]
    refine ⟨inv.once, by simp, ?_⟩
    intro j inside k single same
    obtain ⟨w, member, rfl⟩ := List.mem_map.mp inside
    have updated := (inv.updated w.editor w.based w.wrote).mpr member
    rw [same, List.mem_singleton.mp single, phase] at updated
    cases updated

end kept

section runs

variable {ι Content : Type} [DecidableEq ι] [DecidableEq Content] {requests : ι → Request Content} {digest : Content → String}
  {windows : Bool} {first : Content} {s : State ι Content}

/-- The file has not been replaced since the comparison that a replacement rests on. -/
def undisturbed (s : State ι Content) : Action ι → Bool
  | .replace i true =>
    match s.phase i with
    | .compared _ _ _ seen => seen = s.writes.length
    | _ => true
  | _ => true

def undisturbedRun (requests : ι → Request Content) (digest : Content → String) (windows : Bool) :
    State ι Content → List (Action ι) → Bool
  | _, [] => true
  | s, a :: rest => undisturbed s a && undisturbedRun requests digest windows (step requests digest windows s a) rest

omit [DecidableEq Content] in
theorem execute_cases (digest : Content → String) (r : Request Content) (xml : Content) :
    (r.execute digest xml).pending = none ∨
      ∃ raw, r.Accepts digest xml raw ∧ (r.execute digest xml = .edited xml raw ∨ r.execute digest xml = .saving xml raw) := by
  unfold Request.execute
  split
  · exact .inl rfl
  · split
    · exact .inl rfl
    · split
      · exact .inl rfl
      · rename_i source
        split
        · exact .inl rfl
        · split
          · exact .inl rfl
          · split
            · exact .inl rfl
            · rename_i revision
              cases edit : r.edit xml with
              | error text => exact .inl rfl
              | ok raw =>
                refine .inr ⟨raw, ⟨not_not.mp source, not_not.mp revision, edit⟩, ?_⟩
                dsimp only
                split
                · exact .inl rfl
                · exact .inr rfl

theorem step_inv (inv : Inv requests digest first s) {a : Action ι} (calm : undisturbed s a) :
    Inv requests digest first (step requests digest windows s a) := by
  cases a with
  | read i =>
    simp only [step]
    split
    · rename_i phase
      exact inv.enter (by simp [phase]) (by simp) (by simp) (by simp [Phase.pending])
    · exact inv
  | execute i =>
    simp only [step]
    split
    · rename_i xml phase
      obtain none' | ⟨raw, accepts, next⟩ := execute_cases digest (requests i) xml
      · refine inv.enter (by simp [phase]) ?_ ?_ (by simp [none'])
        · intro original raw same
          rw [same] at none'
          cases none'
        · intro original raw attempt seen same
          rw [same] at none'
          cases none'
      · refine inv.enter (by simp [phase]) ?_ ?_ ?_
        · rcases next with next | next <;> simp [next]
        · rcases next with next | next <;> simp [next]
        · intro original raw' pending
          have same : (xml, raw) = (original, raw') := by
            rcases next with next | next <;> rw [next] at pending <;> exact Option.some.inj pending
          cases same
          exact accepts
    · exact inv
  | reread i =>
    simp only [step]
    split
    · rename_i original raw phase
      have accepts := inv.accepted i original raw (by rw [phase]; rfl)
      split
      · exact inv.enter (by simp [phase]) (by simp) (by simp) (by simp [Phase.pending])
      · exact inv.enter (by simp [phase]) (by simp) (by simp) (by rintro _ _ ⟨⟩; exact accepts)
    · exact inv
  | writeTemp i ok =>
    simp only [step]
    split
    · rename_i original raw phase
      have accepts := inv.accepted i original raw (by rw [phase]; rfl)
      split
      · exact (inv.setTemp i _).enter (by simp [State.setTemp, phase]) (by simp) (by simp) (by rintro _ _ ⟨⟩; exact accepts)
      · exact inv.enter (by simp [phase]) (by simp) (by simp) (by simp [Phase.pending])
    · exact inv
  | compare i =>
    simp only [step]
    split
    · rename_i original raw attempt phase
      have accepts := inv.accepted i original raw (by rw [phase]; rfl)
      split
      · exact (inv.setTemp i _).enter (by simp [State.setTemp, phase]) (by simp) (by simp) (by simp [Phase.pending])
      · rename_i same
        refine inv.enter (by simp [phase]) (by simp) ?_ (by rintro _ _ ⟨⟩; exact accepts)
        rintro _ _ _ _ ⟨⟩
        exact ⟨Nat.le_refl _, fun _ => not_not.mp same⟩
    · exact inv
  | replace i ok =>
    simp only [step]
    split
    · rename_i original raw attempt seen phase
      have accepts := inv.accepted i original raw (by rw [phase]; rfl)
      split
      · rename_i done
        subst done
        obtain ⟨-, same⟩ := inv.compared i original raw attempt seen phase
        simp only [undisturbed, phase, decide_eq_true_eq] at calm
        exact inv.replace phase (same calm) accepts
      · split
        · exact (inv.setTemp i _).enter (by simp [State.setTemp, phase]) (by simp) (by simp) (by simp [Phase.pending])
        · exact inv.enter (by simp [phase]) (by simp) (by simp) (by rintro _ _ ⟨⟩; exact accepts)
    · exact inv

theorem run_inv {actions : List (Action ι)} (inv : Inv requests digest first s)
    (calm : undisturbedRun requests digest windows s actions) : Inv requests digest first (run requests digest windows s actions) := by
  induction actions generalizing s with
  | nil => exact inv
  | cons a rest ih =>
    obtain ⟨now, later⟩ := Bool.and_eq_true_iff.mp calm
    exact ih (step_inv inv now) later

omit [DecidableEq ι] [DecidableEq Content] in
theorem initial_inv (candidate running : Content) : Inv requests digest candidate (initial candidate running : State ι Content) where
  chain := rfl
  compared := by simp [initial]
  accepted := by simp [initial, Phase.pending]
  updated := by simp [initial]
  once := List.nodup_nil

/-- In every run in which the file is not replaced between an editor's last comparison and its
own replacement, no edit is lost. -/
theorem edits_kept (requests : ι → Request Content) (digest : Content → String) (windows : Bool) (candidate running : Content)
    (actions : List (Action ι)) (calm : undisturbedRun requests digest windows (initial candidate running) actions) :
    EditsKept requests digest candidate (run requests digest windows (initial candidate running) actions) :=
  (run_inv (initial_inv candidate running) calm).editsKept

end runs

/-- Both editors append their own letter to the candidate `a`, with its revision. -/
def sampleRequest (i : Bool) : Request String where
  source := .candidate
  edits := true
  user := "admin"
  lockHolder := none
  revision := "a"
  inspect := fun _ => .ok ()
  edit := fun xml => .ok (xml ++ if i then "b" else "c")
  rereads := true

def sampleUpTo (i : Bool) : List (Action Bool) := [.read i, .execute i, .reread i, .writeTemp i true, .compare i]

/-- Both compare before either replaces: both report an update, and one edit is gone. -/
theorem both_update :
    let s := run sampleRequest id false (initial "a" "")
      (sampleUpTo true ++ sampleUpTo false ++ [.replace true true, .replace false true])
    s.phase true = .updated "a" "ab" ∧ s.phase false = .updated "a" "ac" ∧ s.candidate = "ac" ∧
      ¬EditsKept sampleRequest id "a" s := by
  refine ⟨by decide +kernel, by decide +kernel, by decide +kernel, ?_⟩
  intro kept
  have lost := kept.next [] ⟨true, "a", "ab"⟩ ⟨false, "a", "ac"⟩ [] (by decide +kernel)
  simp at lost

/-- One after the other, the second edit is refused. -/
theorem edits_kept_sample :
    let s := run sampleRequest id false (initial "a" "")
      (sampleUpTo true ++ [.replace true true] ++ sampleUpTo false ++ [.replace false true])
    EditsKept sampleRequest id "a" s ∧ s.candidate = "ab" := by
  exact ⟨edits_kept sampleRequest id false "a" "" _ (by decide +kernel), by decide +kernel⟩

end FfnNgfw.Policy.Candidate
