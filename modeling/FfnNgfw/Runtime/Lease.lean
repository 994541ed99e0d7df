import FfnNgfw.Runtime.Supervisor
import Mathlib.Data.List.Infix

/-!
# Who opens the gate

Transit is to be let in only under tables that the supervisor has verified since they were
loaded. The renewal under the lock keeps to that. The one outside the lock asks only
whether there is a revision to remember, and another process may have loaded tables since.
-/

namespace FfnNgfw.Runtime

variable {Script Table : Type}

def Admits (s s' : System Script Table) : Prop := s.world.live = false → s'.world.live = true → s'.verified = true

def Reopens (s : System Script Table) : Label Script → Prop
  | .tick ready current o =>
    s.phase = .idle ∧ s.world.fault = none ∧ ready = true ∧ s.lastForwarding.isSome = true ∧ current = true ∧ o ≠ .early ∧
      s.world.tables gateKey ≠ none ∧ s.world.live = false
  | _ => False

/-- It does so only where no other process has loaded a batch since the supervisor looked. -/
def Waits (s : System Script Table) (l : Label Script) : Prop := Reopens s l → s.foreign = false

structure Initial (s : System Script Table) : Prop where
  phase : s.phase = .starting
  lastForwarding : s.lastForwarding = none
  verified : s.verified = false

/-! ### The invariant -/

/-- A remembered revision stands for verified tables, unless another process has loaded
others since. -/
structure Leased (s : System Script Table) : Prop where
  exclusive : s.phase.locked = true → s.other = none
  renewing : s.phase = .renewing → s.verified = true ∧ s.foreign = false
  remembered : s.phase ≠ .closing → s.lastForwarding.isSome = true → s.verified = !s.foreign

theorem Initial.leased {s : System Script Table} (initial : Initial s) : Leased s := by
  obtain ⟨phase, lastForwarding, _⟩ := initial
  refine ⟨?_, ?_, ?_⟩
  · intro locked
    rw [phase] at locked
    cases locked
  · intro renewing
    cases phase.symm.trans renewing
  · intro _ remembered
    rw [lastForwarding] at remembered
    cases remembered

section steps

variable (nft : Nft Script Table) {s : System Script Table}

theorem Leased.world (leased : Leased s) (w : World Table) : Leased { s with world := w } :=
  ⟨leased.exclusive, leased.renewing, leased.remembered⟩

theorem leased_closing (s : System Script Table) : Leased { s with phase := .closing } := by
  refine ⟨nofun, nofun, ?_⟩
  intro other
  exact absurd rfl other

theorem leased_forgets (s : System Script Table) {phase : Phase} (unlocked : phase.locked = false) :
    Leased { s with phase := phase, lastForwarding := none } := by
  refine ⟨?_, ?_, nofun⟩
  · intro locked
    cases unlocked.symm.trans locked
  · rintro rfl
    cases unlocked

theorem leased_moves (leased : Leased s) (here : s.phase ≠ .closing) {phase : Phase} (exclusive : phase.locked = true → s.other = none)
    (settled : phase ≠ .renewing) : Leased { s with phase := phase } := by
  refine ⟨exclusive, ?_, ?_⟩
  · intro renewing
    exact absurd renewing settled
  · intro _ remembered
    exact leased.remembered here remembered

theorem leased_verified (s : System Script Table) (alone : s.other = none) :
    Leased { s with phase := .renewing, verified := true, foreign := false } :=
  ⟨fun _ => alone, fun _ => ⟨rfl, rfl⟩, fun _ _ => rfl⟩

theorem close_leased (leased : Leased s) (o : Outcome) : Leased (close nft s o) := by
  unfold close
  split
  · exact leased
  split
  · rename_i phase
    have moved : Leased { s with phase := if o = .ok then .idle else .starting } := by
      apply leased_moves leased
      · rw [phase]
        nofun
      · split <;> nofun
      · split <;> nofun
    exact moved.world _
  · exact (leased_forgets s rfl).world _
  · exact leased.world _
  · exact leased

theorem tick_leased (leased : Leased s) (ready current : Bool) (o : Outcome) : Leased (tick s ready current o) := by
  unfold tick
  split
  · exact leased
  rename_i phase
  rw [not_not] at phase
  have waits : Leased { s with phase := .waiting } := by
    apply leased_moves leased
    · rw [phase]
      nofun
    · nofun
    · nofun
  split
  · exact leased_closing s
  split
  · exact waits.world _
  · exact waits

theorem check_leased (leased : Leased s) (bootId : String) (hostLinks : List (Int × String)) (readings : Fin 3 → Reading) :
    Leased (check nft s bootId hostLinks readings) := by
  unfold check
  split
  · exact leased
  rename_i phase
  rw [not_not] at phase
  have here : s.phase ≠ .closing := by
    rw [phase]
    nofun
  have alone : s.other = none := by
    apply leased.exclusive
    rw [phase]
    rfl
  split
  · apply leased_moves leased here
    · nofun
    · nofun
  split
  · exact leased_closing s
  · exact leased_verified s alone
  · apply leased_moves leased here
    · exact fun _ => alone
    · nofun

theorem replay_leased (leased : Leased s) (o : Outcome) (plan : Except String (Plan Script)) (sched : Schedule) :
    Leased (replay nft s o plan sched) := by
  unfold replay
  split
  · rename_i state phase
    have alone : s.other = none := by
      apply leased.exclusive
      rw [phase]
      rfl
    dsimp only
    split
    · exact (leased_verified s alone).world _
    · refine ⟨nofun, nofun, ?_⟩
      intro other
      exact absurd rfl other
  · exact leased

theorem renewLocked_leased (leased : Leased s) (ready : Bool) (o : Outcome) (published : Bool) :
    Leased (renewLocked s ready o published) := by
  unfold renewLocked
  split
  · exact leased
  rename_i phase
  rw [not_not] at phase
  obtain ⟨verified, unchanged⟩ := leased.renewing phase
  split
  · exact leased_closing s
  dsimp only
  split
  · refine ⟨?_, ?_, ?_⟩
    · dsimp only
      split <;> nofun
    · dsimp only
      split <;> nofun
    · intro _ _
      show s.verified = !s.foreign
      rw [verified, unchanged]
      rfl
  · exact (leased_closing s).world _

theorem enter_leased (leased : Leased s) (a : Attempt Script) : Leased (enter s a) := by
  unfold enter
  split
  · exact leased
  rename_i free
  rw [not_not] at free
  split
  · exact leased
  split
  · exact leased
  · unfold System.free at free
    simp only [Bool.and_eq_true, Bool.not_eq_true'] at free
    refine ⟨?_, leased.renewing, leased.remembered⟩
    intro locked
    cases free.2.symm.trans locked

theorem advance_leased (leased : Leased s) (o : Outcome) : Leased (advance nft s o) := by
  unfold advance
  cases inside : s.other with
  | none => exact leased
  | some i =>
    -- the other process holds the lock, so the supervisor does not
    have outside : s.phase.locked ≠ true := by
      intro locked
      cases inside.symm.trans (leased.exclusive locked)
    refine ⟨fun locked => absurd locked outside, ?_, ?_⟩
    · intro renewing
      refine absurd ?_ outside
      rw [show s.phase = .renewing from renewing]
      rfl
    · intro here remembered
      have known := leased.remembered here remembered
      dsimp only
      rw [known]
      cases s.foreign <;> simp

theorem step_leased (leased : Leased s) (l : Label Script) : Leased (step nft s l) := by
  cases l with
  | close o => exact close_leased nft leased o
  | tick ready current o => exact tick_leased leased ready current o
  | lock =>
    unfold step
    dsimp only
    split
    · rename_i due
      apply leased_moves leased
      · rw [due.1]
        nofun
      · exact fun _ => Option.isNone_iff_eq_none.mp due.2
      · nofun
    · exact leased
  | check bootId hostLinks readings => exact check_leased nft leased bootId hostLinks readings
  | replay o plan sched => exact replay_leased nft leased o plan sched
  | renew ready o published => exact renewLocked_leased leased ready o published
  | raise =>
    unfold step
    dsimp only
    split
    · exact leased_closing s
    · exact leased
  | stop fault => exact (leased_forgets s rfl).world _
  | restart =>
    unfold step
    dsimp only
    split
    · rename_i stopped
      apply leased_moves leased
      · rw [stopped]
        nofun
      · nofun
      · nofun
    · exact leased
  | collectorClose o =>
    unfold step
    dsimp only
    split
    · exact leased.world _
    · exact leased
  | expire => exact leased.world _
  | enter a => exact enter_leased leased a
  | advance o => exact advance_leased nft leased o
  | kill => exact ⟨fun _ => rfl, leased.renewing, leased.remembered⟩

theorem run_leased (leased : Leased s) (labels : List (Label Script)) : Leased (runLabels nft s labels) := by
  induction labels generalizing s with
  | nil => exact leased
  | cons l rest ih => exact ih (step_leased nft leased l)

end steps

section shut

variable (nft : Nft Script Table)

variable {w : World Table}

theorem closed_shut (o : Outcome) (shut : w.live = false) : (closed nft o w).live = false := by
  unfold closed
  cases o with
  | ok => rfl
  | early => exact shut
  | late => rfl

theorem apply_shut (sched : Schedule) (request : Request) (replay : Bool) (plan : Except String (Plan Script))
    (shut : w.live = false) : (apply nft sched request replay plan w).1.live = false := by
  unfold apply
  split
  · exact shut
  · rename_i p _
    split
    · exact shut
    · exact (applyPrepared_within nft sched w p).closed shut

theorem register_shut (sched : Schedule) (metadata : List (Nat × Metadata)) (shut : w.live = false) :
    (register sched metadata w).1.live = false := by
  rw [register_eq]
  exact shut

theorem effect_shut (p : Prepared Script) (before : World Table) (stage : Stage) (o : Outcome)
    (shut : w.live = false) : (Routine.perform o (stage.effect nft p before) w).1.live = false := by
  apply Routine.perform_keeps (fun w => w.live = false) _ w shut
  intro w' h
  cases stage with
  | close | closeAgain | install | rollback => rfl
  | readback | store | restore | fault => exact h

theorem step_shut {s : System Script Table} (shut : s.world.live = false) {l : Label Script}
    (unticked : ∀ ready current o, l ≠ .tick ready current o) (unrenewed : ∀ ready o published, l ≠ .renew ready o published) :
    (step nft s l).world.live = false := by
  cases l with
  | tick ready current o => exact absurd rfl (unticked ready current o)
  | renew ready o published => exact absurd rfl (unrenewed ready o published)
  | close o =>
    show (close nft s o).world.live = false
    unfold close
    split
    · exact shut
    split
    · exact closed_shut nft o shut
    · exact closed_shut nft o shut
    · exact closed_shut nft o shut
    · exact shut
  | lock =>
    unfold step
    dsimp only
    split <;> exact shut
  | check bootId hostLinks readings =>
    show (check nft s bootId hostLinks readings).world.live = false
    unfold check
    split
    · exact shut
    split
    · exact shut
    split <;> exact shut
  | replay o plan sched =>
    show (replay nft s o plan sched).world.live = false
    unfold replay
    split
    · rename_i state _
      have kept := Routine.seq_keeps (fun w => w.live = false) (fun w h => closed_shut nft o h)
        (fun w h => apply_shut nft sched ⟨state.revision, state.xml⟩ true plan h) s.world shut
      dsimp only
      split <;> exact kept
    · exact shut
  | raise =>
    unfold step
    dsimp only
    split <;> exact shut
  | stop fault => exact shut
  | restart =>
    unfold step
    dsimp only
    split <;> exact shut
  | collectorClose o =>
    unfold step
    dsimp only
    split
    · exact closed_shut nft o shut
    · exact shut
  | expire => rfl
  | enter a =>
    show (enter s a).world.live = false
    unfold enter
    split
    · exact shut
    split
    · exact shut
    split
    · exact shut
    · exact register_shut a.sched _ shut
  | advance o =>
    show (advance nft s o).world.live = false
    unfold advance
    cases s.other with
    | none => exact shut
    | some i => exact effect_shut nft i.prepared i.before i.stage o shut
  | kill => exact shut

end shut

section renewals

variable (nft : Nft Script Table) {s : System Script Table}

theorem renew_live {o : Outcome} {w : World Table} (shut : w.live = false) :
    (renew o w).1.live = true ↔ w.tables gateKey ≠ none ∧ o ≠ .early := by
  unfold renew
  cases gate : w.tables gateKey with
  | none => simp [Routine.raise, shut]
  | some table =>
    cases o with
    | ok => simp [Routine.perform]
    | early => simp [Routine.perform, shut]
    | late => simp [Routine.perform]

theorem tick_admits_iff (leased : Leased s) (ready current : Bool) (o : Outcome) :
    Admits s (tick s ready current o) ↔ Waits s (.tick ready current o) := by
  unfold Admits Waits Reopens tick
  by_cases phase : s.phase = .idle
  · rw [if_neg (not_not.mpr phase)]
    by_cases faulty : s.world.fault.isSome = true ∨ ¬ready = true
    · rw [if_pos faulty]
      refine iff_of_true ?_ ?_
      · intro shut opened
        cases shut.symm.trans opened
      · rintro ⟨_, clean, rfl, _⟩
        simp [clean] at faulty
    rw [if_neg faulty]
    rw [not_or, not_not, Bool.not_eq_true, Option.isSome_eq_false_iff, Option.isNone_iff_eq_none] at faulty
    by_cases due : s.lastForwarding.isSome = true ∧ current = true
    · rw [if_pos due]
      have known : s.verified = !s.foreign := leased.remembered (by rw [phase]; nofun) due.1
      dsimp only
      rw [known, Bool.not_eq_true']
      constructor
      · rintro safe ⟨_, _, _, _, _, took, present, shut⟩
        exact safe shut ((renew_live shut).mpr ⟨present, took⟩)
      · intro waits shut opened
        obtain ⟨present, took⟩ := (renew_live shut).mp opened
        exact waits ⟨phase, faulty.1, faulty.2, due.1, due.2, took, present, shut⟩
    · rw [if_neg due]
      refine iff_of_true ?_ ?_
      · intro shut opened
        cases shut.symm.trans opened
      · rintro ⟨_, _, _, remembered, still, _⟩
        exact absurd ⟨remembered, still⟩ due
  · rw [if_pos phase]
    refine iff_of_true ?_ ?_
    · intro shut opened
      cases shut.symm.trans opened
    · rintro ⟨here, _⟩
      exact absurd here phase

theorem renewLocked_admits (leased : Leased s) (ready : Bool) (o : Outcome) (published : Bool) :
    Admits s (renewLocked s ready o published) := by
  intro shut opened
  unfold renewLocked at opened ⊢
  split
  · rename_i phase
    rw [if_pos phase] at opened
    cases shut.symm.trans opened
  rename_i phase
  obtain ⟨verified, _⟩ := leased.renewing (not_not.mp phase)
  split
  · exact verified
  dsimp only
  split
  · exact verified
  · exact verified

theorem step_admits_iff (leased : Leased s) (l : Label Script) : Admits s (step nft s l) ↔ Waits s l := by
  by_cases ticks : ∃ ready current o, l = .tick ready current o
  · obtain ⟨ready, current, o, rfl⟩ := ticks
    exact tick_admits_iff leased ready current o
  have idle : Waits s l := by
    intro reopens
    cases l with
    | tick ready current o => exact absurd ⟨ready, current, o, rfl⟩ ticks
    | _ => exact absurd reopens id
  refine iff_of_true ?_ idle
  by_cases renews : ∃ ready o published, l = .renew ready o published
  · obtain ⟨ready, o, published, rfl⟩ := renews
    exact renewLocked_admits leased ready o published
  intro shut opened
  have stays := step_shut nft shut (fun ready current o h => ticks ⟨ready, current, o, h⟩) fun ready o published h =>
      renews ⟨ready, o, published, h⟩
  cases stays.symm.trans opened

end renewals

/-- In a run of the two processes every step that opens the gate does so under verified
tables, just when no renewal outside the lock comes after the batch of another process and
before the supervisor has looked again. -/
theorem run_admits_iff (nft : Nft Script Table) {s : System Script Table} (initial : Initial s) (labels : List (Label Script)) :
    (∀ done l, done ++ [l] <+: labels → Admits (runLabels nft s done) (step nft (runLabels nft s done) l)) ↔
      ∀ done l, done ++ [l] <+: labels → Waits (runLabels nft s done) l := by
  have each := fun done l => step_admits_iff nft (run_leased nft initial.leased done) l
  constructor
  · intro admits done l inside
    exact (each done l).mp (admits done l inside)
  · intro waits done l inside
    exact (each done l).mpr (waits done l inside)

def leaseStart : System String String := ⟨firstWorld, .starting, none, none, false, false⟩

/-- The lease runs out, and the next tick renews it for the tables that were verified. -/
def renewal : List (Label String) :=
  [.close .ok, .tick true true .ok, .lock, .check "boot" [] (fun _ => ⟨some [], true⟩), .renew true .ok true, .expire]

theorem renewal_admits :
    Initial leaseStart ∧ (runLabels textNft leaseStart renewal).world.live = false ∧
      (runLabels textNft leaseStart (renewal ++ [.tick true true .ok])).world.live = true ∧
      Admits (runLabels textNft leaseStart renewal) (step textNft (runLabels textNft leaseStart renewal) (.tick true true .ok)) := by
  have initial : Initial leaseStart := ⟨rfl, rfl, rfl⟩
  have untouched : ∀ done ∈ List.inits (renewal ++ [Label.tick true true .ok]), (runLabels textNft leaseStart done).foreign = false := by
    decide +kernel
  refine ⟨initial, by decide +kernel, by decide +kernel, ?_⟩
  refine (run_admits_iff textNft initial (renewal ++ [.tick true true .ok])).mpr ?_ renewal _ (List.prefix_refl _)
  intro done l inside _
  exact untouched done ((List.mem_inits _ _).mpr ((List.prefix_append done [l]).trans inside))

/-- The supervisor verifies the first generation and opens the gate; another process closes
it and loads the batch of an edit. -/
def editing : List (Label String) :=
  [.close .ok, .tick true true .ok, .lock, .check "boot" [] (fun _ => ⟨some [], true⟩), .renew true .ok true,
    .enter ⟨⟨1, { vsys := [{ name := "vsys1" }] }⟩, false, .ok secondPlan, fun _ => .ok⟩, .advance .ok, .advance .ok]

theorem editing_opens_unverified :
    Initial leaseStart ∧ (runLabels textNft leaseStart editing).world.tables ("inet", "ffn_security") = some "new" ∧
      ¬Admits (runLabels textNft leaseStart editing) (step textNft (runLabels textNft leaseStart editing) (.tick true true .ok)) := by
  refine ⟨⟨rfl, rfl, rfl⟩, by decide +kernel, ?_⟩
  intro admits
  have verified := admits (by decide +kernel) (by decide +kernel)
  revert verified
  decide +kernel

end FfnNgfw.Runtime
