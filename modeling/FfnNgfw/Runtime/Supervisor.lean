import FfnNgfw.Runtime.Atomic
import FfnNgfw.Runtime.Tokens

/-!
# The supervisor of the lease

`serve` and an apply of another process take turns under the network lock. One step of the
supervisor stands outside the lock: the renewal at the start of a tick, for a revision
that it remembers. A label says which of the processes takes its next step and what that
step meets; a label whose step is not due does nothing.
-/

namespace FfnNgfw.Runtime

open Policy

/-- One read of the interface owners and the ruleset; an empty one raises. -/
structure Reading where
  bindings : Option (List (String × Link))
  inventory : Bool

def listText (names : List String) : String :=
  "[" ++ ", ".intercalate ((names.mergeSort fun a b => decide (a ≤ b)).map fun name => "'" ++ name ++ "'") ++ "]"

def bindingsReason (old current : List (String × Link)) : String :=
  let gone := (old.map Prod.fst).filter fun name => name ∉ current.map Prod.fst
  let new := (current.map Prod.fst).filter fun name => name ∉ old.map Prod.fst
  let changed := (current.map Prod.fst).filter fun name => (old.lookup name).any fun link => current.lookup name ≠ some link
  "interface bindings differ (missing " ++ listText gone ++ ", new " ++ listText new ++ ", changed " ++ listText changed ++ ")"

section drift

variable {Script Table : Type} (nft : Nft Script Table) (w : World Table) (state : Saved)

def driftReads : Option String → List Reading → Except String (Option String)
  | reason, [] => .ok reason
  | _, r :: rest =>
    match r.bindings with
    | none => .error "Interface ownership cannot be read"
    | some current =>
      if current ≠ state.bindings then driftReads (some (bindingsReason state.bindings current)) rest
      else if ¬r.inventory then .error "Dataplane command failed"
      else if nft.fingerprint w.tables state.tables ≠ state.kernelDigest then
        driftReads (some "kernel ruleset differs from the applied generation") rest
      else .ok none

def drift (bootId : String) (hostLinks : List (Int × String)) (readings : Fin 3 → Reading) : Except String (Option String) :=
  if state.bootId ≠ bootId then .ok (some "dataplane boot identity changed")
  else if hostLinks ≠ state.hostLinks then .ok (some "service route link changed")
  else driftReads nft w state none (List.ofFn readings)

end drift

/-- Where an apply stands that holds the lock, from the closing of the gate on. -/
inductive Stage where
  | close | install | readback | store
  | closeAgain | rollback | restore | fault
  deriving DecidableEq

namespace Stage

variable {Script Table : Type} (nft : Nft Script Table) (p : Prepared Script) (before : World Table)

def effect : Stage → World Table → World Table
  | .close | .closeAgain => gateClosed nft
  | .install => installed nft p
  | .readback => id
  | .store => fun w => { w with stateFile := some { p.state with kernelDigest := nft.fingerprint w.tables p.plan.keys } }
  | .rollback => rolledBack nft before p
  | .restore => fun w => { w with stateFile := before.stateFile }
  | .fault => fun w => { w with fault := some "Policy rollback unconfirmed" }

/-- The stage after this one; none where the apply returns or raises. -/
def next (passed : Bool) : Stage → Option Stage
  | .close => if passed then some .install else none
  | .install => if passed then some .readback else some .closeAgain
  | .readback => if passed then some .store else some .closeAgain
  | .store => if passed then none else some .closeAgain
  | .closeAgain => if passed then some .rollback else none
  | .rollback => if passed then some .restore else some .fault
  | .restore => if passed then none else some .fault
  | .fault => none

def Loads (stage : Stage) : Prop := stage = .install ∨ stage = .rollback

instance (stage : Stage) : Decidable stage.Loads := inferInstanceAs (Decidable (_ ∨ _))

end Stage

structure Inside (Script Table : Type) where
  stage : Stage
  prepared : Prepared Script
  before : World Table

/-! ### The system -/

inductive Phase where
  /-- the gate is not known to be closed yet -/
  | starting
  /-- before a tick -/
  | idle
  /-- waiting for the lock -/
  | waiting
  | checking
  | replaying (state : Saved)
  /-- the tables have been verified -/
  | renewing
  /-- after a fault or an exception, before the gate is closed for it -/
  | closing
  | stopped
  deriving DecidableEq

def Phase.locked : Phase → Bool
  | .checking | .replaying _ | .renewing => true
  | _ => false

/-- The last two fields are history. `verified`: since the tables were last loaded, the
supervisor has found no drift or replayed them, under the lock. `foreign`: since then,
another process has loaded a batch. -/
structure System (Script Table : Type) where
  world : World Table
  phase : Phase
  lastForwarding : Option Nat
  other : Option (Inside Script Table)
  verified : Bool
  foreign : Bool

inductive Label (Script : Type) where
  /-- `gate_close_problem`, and the closing of the gate on the way out -/
  | close (o : Outcome)
  /-- `ready`: the collector has reported in time; `current`: it still has when the lease is looked at -/
  | tick (ready current : Bool) (o : Outcome)
  | lock
  | check (bootId : String) (hostLinks : List (Int × String)) (readings : Fin 3 → Reading)
  | replay (o : Outcome) (plan : Except String (Plan Script)) (sched : Schedule)
  /-- `published`: the health file is written after the renewal -/
  | renew (ready : Bool) (o : Outcome) (published : Bool)
  /-- an error under the lock that is none of the steps above -/
  | raise
  | stop (fault : Option String)
  | restart
  /-- `stop_transit` of the collector -/
  | collectorClose (o : Outcome)
  /-- the element of the lease set times out -/
  | expire
  /-- another process takes the lock and gets as far as the closing of the gate -/
  | enter (a : Attempt Script)
  | advance (o : Outcome)
  /-- another process is killed; the lock is free again -/
  | kill

section step

variable {Script Table : Type} (nft : Nft Script Table)

def renew (o : Outcome) : Routine (World Table) := fun w =>
  if (w.tables gateKey).isNone then Routine.raise w else Routine.perform o (fun w => { w with live := true }) w

def closed (o : Outcome) (w : World Table) : World Table := (Routine.perform o (gateClosed nft) w).1

def System.free (s : System Script Table) : Bool := s.other.isNone && !s.phase.locked

def close (s : System Script Table) (o : Outcome) : System Script Table :=
  if ¬s.free then s
  else
    match s.phase with
    | .starting => { s with world := closed nft o s.world, phase := if o = .ok then .idle else .starting }
    | .closing => { s with world := closed nft o s.world, phase := .idle, lastForwarding := none }
    | .stopped => { s with world := closed nft o s.world }
    | _ => s

def tick (s : System Script Table) (ready current : Bool) (o : Outcome) : System Script Table :=
  if s.phase ≠ .idle then s
  else if s.world.fault.isSome ∨ ¬ready then { s with phase := .closing }
  -- a generation this loop has already verified is renewed before the wait
  else if s.lastForwarding.isSome ∧ current then { s with phase := .waiting, world := (renew o s.world).1 }
  else { s with phase := .waiting }

def check (s : System Script Table) (bootId : String) (hostLinks : List (Int × String)) (readings : Fin 3 → Reading) :
    System Script Table :=
  if s.phase ≠ .checking then s
  else
    match s.world.stateFile with
    | none => { s with phase := .idle }
    | some state =>
      match drift nft s.world state bootId hostLinks readings with
      | .error _ => { s with phase := .closing }
      | .ok none => { s with phase := .renewing, verified := true, foreign := false }
      | .ok (some _) => { s with phase := .replaying state }

def replay (s : System Script Table) (o : Outcome) (plan : Except String (Plan Script)) (sched : Schedule) : System Script Table :=
  match s.phase with
  | .replaying state =>
    let result := Routine.seq (Routine.perform o (gateClosed nft)) (apply nft sched ⟨state.revision, state.xml⟩ true plan) s.world
    if result.2 then { s with world := result.1, phase := .renewing, verified := true, foreign := false }
    else { s with world := result.1, phase := .closing, verified := false }
  | _ => s

def renewLocked (s : System Script Table) (ready : Bool) (o : Outcome) (published : Bool) : System Script Table :=
  if s.phase ≠ .renewing then s
  else if ¬ready then { s with phase := .closing }
  else
    let result := renew o s.world
    if result.2 then
      { s with
        world := result.1
        phase := if published then .idle else .closing
        lastForwarding := s.world.stateFile.map Saved.revision }
    else { s with world := result.1, phase := .closing }

def enter (s : System Script Table) (a : Attempt Script) : System Script Table :=
  if ¬s.free then s
  else
    match prepare s.world a.request a.plan with
    | .error _ => s
    | .ok p =>
      if unchanged s.world p a.replay then s
      else
        let result := register a.sched p.metadata s.world
        { s with world := result.1, other := if result.2 then some ⟨.close, p, s.world⟩ else none }

def advance (s : System Script Table) (o : Outcome) : System Script Table :=
  match s.other with
  | none => s
  | some i =>
    let loaded : Bool := decide (i.stage.Loads ∧ o ≠ .early)
    { s with
      world := (Routine.perform o (i.stage.effect nft i.prepared i.before) s.world).1
      other := (i.stage.next (o = .ok)).map fun stage => { i with stage := stage }
      verified := s.verified && !loaded
      foreign := s.foreign || loaded }

def step (s : System Script Table) : Label Script → System Script Table
  | .close o => close nft s o
  | .tick ready current o => tick s ready current o
  | .lock => if s.phase = .waiting ∧ s.other.isNone then { s with phase := .checking } else s
  | .check bootId hostLinks readings => check nft s bootId hostLinks readings
  | .replay o plan sched => replay nft s o plan sched
  | .renew ready o published => renewLocked s ready o published
  | .raise => if s.phase.locked then { s with phase := .closing } else s
  | .stop fault => { s with phase := .stopped, lastForwarding := none, world := { s.world with fault := fault <|> s.world.fault } }
  | .restart => if s.phase = .stopped then { s with phase := .starting } else s
  | .collectorClose o => if s.free then { s with world := closed nft o s.world } else s
  | .expire => { s with world := { s.world with live := false } }
  | .enter a => enter s a
  | .advance o => advance nft s o
  | .kill => { s with other := none }

def runLabels (s : System Script Table) (labels : List (Label Script)) : System Script Table := labels.foldl (step nft) s

end step

/-! ### An apply that nobody disturbs -/

section undisturbed

variable {Script Table : Type} (nft : Nft Script Table) (sched : Schedule) (p : Prepared Script) (before : World Table)

/-- From this stage in the world `w`, the apply can end and leave the world `w'`. -/
def Ends (stage : Stage) (w w' : World Table) : Prop :=
  ∀ s : System Script Table, s.world = w → s.other = some ⟨stage, p, before⟩ →
    ∃ outcomes : List Outcome, (runLabels nft s (outcomes.map .advance)).world = w' ∧
      (runLabels nft s (outcomes.map .advance)).other = none

theorem ends_now {stage : Stage} {w : World Table} (o : Outcome) (last : stage.next (o = .ok) = none) :
    Ends nft p before stage w (Routine.perform o (stage.effect nft p before) w).1 := by
  rintro s rfl inside
  refine ⟨[o], ?_, ?_⟩
  · show (advance nft s o).world = _
    unfold advance
    rw [inside]
  · show (advance nft s o).other = none
    unfold advance
    rw [inside]
    dsimp only
    rw [last]
    rfl

theorem ends_later {stage stage' : Stage} {w w' : World Table} (o : Outcome) (follows : stage.next (o = .ok) = some stage')
    (rest : Ends nft p before stage' (Routine.perform o (stage.effect nft p before) w).1 w') : Ends nft p before stage w w' := by
  rintro s rfl inside
  obtain ⟨outcomes, ends⟩ := rest (advance nft s o) (by unfold advance; rw [inside]) (by
    unfold advance
    rw [inside]
    dsimp only
    rw [follows]
    rfl)
  exact ⟨o :: outcomes, ends⟩

theorem fault_ends (w : World Table) : Ends nft p before .fault w (recordFault sched w).1 := by
  unfold recordFault
  rw [Routine.all, Routine.seq_look]
  by_cases opened : sched .openJournal = .ok
  · rw [if_pos opened, Routine.all, Routine.seq_perform]
    cases sched .fault with
    | ok => exact ends_now nft p before .ok rfl
    | early => exact ends_now nft p before .early rfl
    | late => exact ends_now nft p before .late rfl
  · rw [if_neg opened]
    exact ends_now nft p before .early rfl

theorem rollback_ends (w : World Table) :
    Ends nft p before .rollback w (Routine.handle (undo nft sched before p) (recordFault sched) w).1 := by
  unfold Routine.handle
  rw [undo_eq]
  by_cases inventory : sched .rollbackInventory = .ok
  · rw [if_pos inventory]
    cases rollback : sched .rollback with
    | early => exact ends_later nft p before .early rfl (fault_ends nft sched p before w)
    | late => exact ends_later nft p before .late rfl (fault_ends nft sched p before _)
    | ok =>
      refine ends_later nft p before .ok rfl ?_
      by_cases reread : sched .rereadState = .ok
      · simp only [reread, if_true]
        by_cases same : w.stateFile = before.stateFile
        · simp only [same, if_true]
          have restored : Routine.perform .ok (Stage.restore.effect nft p before) (rolledBack nft before p w) =
              (rolledBack nft before p w, true) := by
            refine Prod.ext ?_ rfl
            show { rolledBack nft before p w with stateFile := before.stateFile } = rolledBack nft before p w
            rw [← same]
            rfl
          have ended : Ends nft p before .restore (rolledBack nft before p w) _ := ends_now nft p before .ok rfl
          rw [restored] at ended
          exact ended
        · simp only [same, if_false]
          cases restore : sched .restore with
          | ok => exact ends_now nft p before .ok rfl
          | early => exact ends_later nft p before .early rfl (fault_ends nft sched p before _)
          | late => exact ends_later nft p before .late rfl (fault_ends nft sched p before _)
      · simp only [reread, if_false]
        exact ends_later nft p before .early rfl (fault_ends nft sched p before _)
  · simp only [inventory, if_false]
    exact ends_later nft p before .early rfl (fault_ends nft sched p before w)

theorem closeGate_eq (listing flushing : Point) : closeGate nft sched listing flushing =
    Routine.perform (if sched listing = .ok then sched flushing else .early) (gateClosed nft) := by
  funext w
  unfold closeGate
  rw [Routine.seq_look]
  by_cases listed : sched listing = .ok
  · rw [if_pos listed, if_pos listed]
  · rw [if_neg listed, if_neg listed]
    rfl

theorem closeAgain_ends (w : World Table) : Ends nft p before .closeAgain w (recover nft sched before p w).1 := by
  unfold recover
  rw [Routine.all, closeGate_eq, Routine.seq_perform]
  cases (if sched .againList = .ok then sched .againFlush else .early) with
  | early => exact ends_now nft p before .early rfl
  | late => exact ends_now nft p before .late rfl
  | ok =>
    refine ends_later nft p before .ok rfl ?_
    have ended := rollback_ends nft sched p before (gateClosed nft w)
    dsimp only
    rw [Routine.all]
    unfold Routine.seq
    split
    · exact ended
    · exact ended

theorem install_ends (w : World Table) :
    Ends nft p before .install w (Routine.handle (activate nft sched p) (recover nft sched before p) w).1 := by
  unfold Routine.handle
  rw [activate_eq]
  cases install : sched .install with
  | early => exact ends_later nft p before .early rfl (closeAgain_ends nft sched p before w)
  | late => exact ends_later nft p before .late rfl (closeAgain_ends nft sched p before _)
  | ok =>
    refine ends_later nft p before .ok rfl ?_
    by_cases both : sched .readback = .ok ∧ sched .bindings = .ok
    · rw [if_pos both]
      refine ends_later nft p before .ok rfl ?_
      cases store : sched .store with
      | early => exact ends_later nft p before .early rfl (closeAgain_ends nft sched p before _)
      | late => exact ends_later nft p before .late rfl (closeAgain_ends nft sched p before _)
      | ok => exact ends_now nft p before .ok rfl
    · rw [if_neg both]
      exact ends_later nft p before .early rfl (closeAgain_ends nft sched p before _)

theorem close_ends (w : World Table) :
    Ends nft p before .close w (Routine.seq (closeGate nft sched .closeList .closeFlush)
      (Routine.handle (activate nft sched p) (recover nft sched before p)) w).1 := by
  rw [closeGate_eq, Routine.seq_perform]
  cases (if sched .closeList = .ok then sched .closeFlush else .early) with
  | early => exact ends_now nft p before .early rfl
  | late => exact ends_now nft p before .late rfl
  | ok => exact ends_later nft p before .ok rfl (install_ends nft sched p before _)

theorem preamble_registered {w : World Table} (passed : (register sched p.metadata w).2 = true) :
    preamble nft sched p w w = ((register sched p.metadata w).1, false) ∨
      preamble nft sched p w w = closeGate nft sched .closeList .closeFlush (register sched p.metadata w).1 := by
  unfold preamble
  rw [Routine.all, Routine.seq_of_ok passed, Routine.all, Routine.seq_look, Routine.all]
  by_cases inventory : sched .inventory = .ok
  · rw [if_pos inventory, Routine.seq_look]
    by_cases read : sched .readState = .ok
    · rw [if_pos read, Routine.all, Routine.all, Routine.all, Routine.seq_skip]
      unfold Routine.seq
      dsimp only
      split
      · exact Or.inr rfl
      · rename_i unlisted
        exact Or.inl (Prod.ext rfl (Bool.eq_false_iff.mpr unlisted))
    · rw [if_neg read]
      exact Or.inl rfl
  · rw [if_neg inventory]
    exact Or.inl rfl

/-- Another process that nobody disturbs does what `apply` does. -/
theorem enter_ends (s : System Script Table) (free : s.free = true) (a : Attempt Script) :
    ∃ labels : List (Label Script), (∀ l ∈ labels, l = .kill ∨ ∃ o, l = .advance o) ∧
      (runLabels nft (step nft s (.enter a)) labels).world = applied nft s.world a ∧
      (runLabels nft (step nft s (.enter a)) labels).other = none := by
  have alone : s.other = none := by
    unfold System.free at free
    rw [Bool.and_eq_true] at free
    exact Option.isNone_iff_eq_none.mp free.1
  show ∃ labels : List (Label Script), _ ∧ (runLabels nft (enter s a) labels).world = _ ∧ (runLabels nft (enter s a) labels).other = none
  unfold enter applied apply
  rw [if_neg (by simp [free])]
  cases prepare s.world a.request a.plan with
  | error e => exact ⟨[], nofun, rfl, alone⟩
  | ok p =>
    dsimp only
    by_cases idle : unchanged s.world p a.replay = true
    · rw [if_pos idle, if_pos idle]
      exact ⟨[], nofun, rfl, alone⟩
    rw [if_neg idle, if_neg idle]
    by_cases passed : (register a.sched p.metadata s.world).2 = true
    · rw [if_pos passed]
      rcases preamble_registered nft a.sched p passed with stopped | reached
      · refine ⟨[.kill], by simp, ?_, rfl⟩
        show (register a.sched p.metadata s.world).1 = _
        unfold applyPrepared
        rw [Routine.seq_of_raise (by rw [stopped]), stopped]
      · have ended := close_ends nft a.sched p s.world (register a.sched p.metadata s.world).1
        obtain ⟨outcomes, world, other⟩ := ended
          { s with world := (register a.sched p.metadata s.world).1, other := some ⟨.close, p, s.world⟩ } rfl rfl
        refine ⟨outcomes.map .advance, ?_, world.trans ?_, other⟩
        · intro l member
          obtain ⟨o, _, rfl⟩ := List.mem_map.mp member
          exact Or.inr ⟨o, rfl⟩
        · unfold applyPrepared Routine.seq
          rw [reached]
    · rw [if_neg passed, applyPrepared_stopped nft (Bool.eq_false_iff.mpr passed)]
      exact ⟨[], nofun, rfl, rfl⟩

end undisturbed

/-- An edit whose readback fails twice, under a supervisor that has just begun. -/
theorem edit_ends :
    let s : System String String := ⟨firstWorld, .starting, none, none, false, false⟩
    let a : Attempt String := ⟨⟨1, webPolicy⟩, false, .ok secondPlan, listingFails⟩
    ∃ labels : List (Label String), (∀ l ∈ labels, l = .kill ∨ ∃ o, l = .advance o) ∧
      (runLabels textNft (step textNft s (.enter a)) labels).world = applied textNft firstWorld a ∧
      (runLabels textNft (step textNft s (.enter a)) labels).other = none :=
  enter_ends textNft ⟨firstWorld, .starting, none, none, false, false⟩ rfl ⟨⟨1, webPolicy⟩, false, .ok secondPlan, listingFails⟩

end FfnNgfw.Runtime
