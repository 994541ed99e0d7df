import FfnNgfw.Runtime.Apply

/-!
# An apply that raises

A failed apply is to leave the tables and the STATE file as they were, or a fault in the
journal. It does, unless the handler raises where nobody is listening: in its own close of
the gate, which stands before the rollback, or in the journal after a rollback that has
not undone what the batch or the store had done.
-/

namespace FfnNgfw.Runtime

variable {Script Table : Type}

def SameTables (w w' : World Table) : Prop := ∀ key, key ≠ gateKey → w'.tables key = w.tables key

def AtomicOrFaulted (w : World Table) (result : World Table × Bool) : Prop :=
  result.2 = false → (SameTables w result.1 ∧ result.1.stateFile = w.stateFile) ∨ result.1.fault.isSome = true

/-! ### When a change is lost -/

section conditions

variable (nft : Nft Script Table) (sched : Schedule)

def Reaches (w : World Table) (p : Prepared Script) : Prop :=
  w.fault = none ∧ (∃ rules, w.rules.register p.metadata = .ok rules) ∧ sched .register = .ok ∧ sched .inventory = .ok ∧
    sched .readState = .ok ∧ (∀ key ∈ p.plan.keys, key ≠ gateKey → w.tables key ≠ none → sched (.listTable key) = .ok) ∧
    sched .closeList = .ok ∧ sched .closeFlush = .ok

def Activates : Prop := sched .install = .ok ∧ sched .readback = .ok ∧ sched .bindings = .ok ∧ sched .store = .ok

/-- The batch has had its effect, and made a table what it was not. -/
def TablesLeft (w : World Table) (p : Prepared Script) : Prop :=
  sched .install ≠ .early ∧ ∃ key, key ≠ gateKey ∧ loadScripts nft (p.plan.scripts nft.gate) w.tables key ≠ w.tables key

/-- The STATE file has been replaced by a different one when its write raises. -/
def StateLeft (w : World Table) (p : Prepared Script) : Prop :=
  sched .install = .ok ∧ sched .readback = .ok ∧ sched .bindings = .ok ∧ sched .store = .late ∧
    w.stateFile ≠ some { p.state with kernelDigest := nft.fingerprint (loadScripts nft (p.plan.scripts nft.gate) w.tables) p.plan.keys }

def GateStuck : Prop := sched .againList ≠ .ok ∨ sched .againFlush ≠ .ok

def Unrecorded : Prop := sched .openJournal ≠ .ok ∨ sched .fault = .early

def NoRollback : Prop := sched .rollbackInventory ≠ .ok ∨ sched .rollback = .early

def NoRestore : Prop := NoRollback sched ∨ sched .rollback = .late ∨ sched .rereadState ≠ .ok ∨ sched .restore = .early

/-- After a step of the activation has raised, a change stays, and no fault is recorded. -/
def Lost (w : World Table) (p : Prepared Script) : Prop :=
  Reaches sched w p ∧ ¬Activates sched ∧
    ((GateStuck sched ∧ (TablesLeft nft sched w p ∨ StateLeft nft sched w p)) ∨
      (¬GateStuck sched ∧ Unrecorded sched ∧
        ((NoRollback sched ∧ TablesLeft nft sched w p) ∨ (NoRestore sched ∧ StateLeft nft sched w p))))

end conditions

section steps

variable (nft : Nft Script Table) (sched : Schedule)

/-- What a step leaves alone that is about neither the tables nor the STATE file. -/
structure Untouched (w w' : World Table) : Prop where
  tables : SameTables w w'
  stateFile : w'.stateFile = w.stateFile
  fault : w'.fault = w.fault

theorem Untouched.refl (w : World Table) : Untouched w w := ⟨fun _ _ => rfl, rfl, rfl⟩

variable {w w' before : World Table}

theorem gateClosed_untouched (same : Untouched w w') : Untouched w (gateClosed nft w') := by
  obtain ⟨tables, stateFile, fault⟩ := same
  refine ⟨?_, stateFile, fault⟩
  intro key other
  unfold gateClosed
  dsimp only
  rw [if_neg fun gated => other gated.1]
  exact tables key other

theorem closeGate_untouched (listing flushing : Point) (same : Untouched w w') :
    Untouched w (closeGate nft sched listing flushing w').1 :=
  Routine.seq_keeps (Untouched w) (fun _ h => h) (Routine.perform_keeps (Untouched w) fun _ => gateClosed_untouched nft) w' same

theorem register_untouched (metadata : List (Nat × Metadata)) (same : Untouched w w') :
    Untouched w (register sched metadata w').1 := by
  unfold register
  split
  · exact same
  split
  · exact same
  · rename_i rules _
    have kept : ∀ s, Untouched w s → Untouched w { s with rules := rules } := fun _ h => ⟨h.tables, h.stateFile, h.fault⟩
    exact Routine.perform_keeps (Untouched w) kept w' same

theorem preamble_untouched (w : World Table) (p : Prepared Script) : Untouched w (preamble nft sched p w w).1 := by
  refine Routine.all_keeps (Untouched w) ?_ w (Untouched.refl w)
  intro a member w' same
  simp only [List.mem_cons, List.not_mem_nil, or_false] at member
  rcases member with rfl | rfl | rfl | rfl | rfl
  · exact register_untouched sched p.metadata same
  · exact same
  · exact same
  · exact same
  · exact closeGate_untouched nft sched .closeList .closeFlush same

theorem closeGate_ok (listing flushing : Point) (w : World Table) :
    (closeGate nft sched listing flushing w).2 = true ↔ sched listing = .ok ∧ sched flushing = .ok := by
  unfold closeGate
  rw [Routine.seq_ok, Routine.perform_ok]
  simp [Routine.look]

theorem preamble_ok (w : World Table) (p : Prepared Script) :
    (preamble nft sched p w w).2 = true ↔ Reaches sched w p := by
  have listed : (p.plan.keys.all fun key =>
      decide (key = gateKey) || (w.tables key).isNone || decide (sched (.listTable key) = .ok)) = true ↔
      ∀ key ∈ p.plan.keys, key ≠ gateKey → w.tables key ≠ none → sched (.listTable key) = .ok := by
    simp only [List.all_eq_true, Bool.or_eq_true, decide_eq_true_eq, Option.isNone_iff_eq_none, or_assoc]
    constructor
    · intro each key member other present
      rcases each key member with gated | absent | ok
      · exact absurd gated other
      · exact absurd absent present
      · exact ok
    · intro each key member
      by_cases gated : key = gateKey
      · exact Or.inl gated
      by_cases absent : w.tables key = none
      · exact Or.inr (Or.inl absent)
      · exact Or.inr (Or.inr (each key member gated absent))
  have registered : (register sched p.metadata w).2 = true ↔
      w.fault = none ∧ (∃ rules, w.rules.register p.metadata = .ok rules) ∧ sched .register = .ok := by
    unfold register
    cases fault : w.fault with
    | some text => simp [Routine.raise]
    | none =>
      rw [if_neg (by simp)]
      cases rules : w.rules.register p.metadata with
      | error e => simp [Routine.raise]
      | ok r =>
        dsimp only
        rw [Routine.perform_ok]
        simp
  unfold preamble Reaches
  simp only [Routine.all, Routine.seq_ok, Bool.and_eq_true, Routine.look, Routine.skip, listed, registered,
    decide_eq_true_eq, closeGate_ok, and_true]
  tauto

/-! ### The activation -/

theorem scripts_lookup (gate : Script) (p : Prepared Script) {key : TableKey} (member : key ∈ p.plan.keys) :
    ∃ script, (p.plan.scripts gate).lookup key = some script := by
  unfold Plan.keys at member
  unfold Plan.scripts
  rw [List.lookup_cons]
  by_cases gated : key = gateKey
  · exact ⟨gate, by simp [gated]⟩
  · have other : key ∈ p.plan.others.map Prod.fst := (List.mem_cons.mp member).resolve_left gated
    rw [beq_eq_false_iff_ne.mpr gated]
    dsimp only
    cases found : p.plan.others.lookup key with
    | some script => exact ⟨script, rfl⟩
    | none =>
      obtain ⟨row, inside, rfl⟩ := List.mem_map.mp other
      rw [List.lookup_eq_none_iff] at found
      exact absurd (found row inside) (by simp)

theorem scripts_lookup_none (gate : Script) (p : Prepared Script) {key : TableKey} (absent : key ∉ p.plan.keys) :
    (p.plan.scripts gate).lookup key = none := by
  rw [List.lookup_eq_none_iff]
  intro row member
  rw [bne_iff_ne]
  rintro rfl
  refine absent ?_
  rcases List.mem_cons.mp member with rfl | inside
  · exact List.mem_cons_self
  · exact List.mem_cons_of_mem _ (List.mem_map_of_mem inside)

theorem loadScripts_same (p : Prepared Script) (same : SameTables w w') :
    loadScripts nft (p.plan.scripts nft.gate) w'.tables = loadScripts nft (p.plan.scripts nft.gate) w.tables := by
  funext key
  unfold loadScripts
  by_cases member : key ∈ p.plan.keys
  · obtain ⟨script, found⟩ := scripts_lookup nft.gate p member
    rw [found]
  · rw [scripts_lookup_none nft.gate p member]
    refine same key ?_
    rintro rfl
    exact member List.mem_cons_self

theorem loadScripts_complete (p : Prepared Script) (tables : TableKey → Option Table) :
    (p.plan.keys.all fun key => (loadScripts nft (p.plan.scripts nft.gate) tables key).isSome) = true := by
  rw [List.all_eq_true]
  intro key member
  obtain ⟨script, found⟩ := scripts_lookup nft.gate p member
  unfold loadScripts
  rw [found]
  rfl

def installed (nft : Nft Script Table) (p : Prepared Script) (w : World Table) : World Table :=
    withTables (loadScripts nft (p.plan.scripts nft.gate) w.tables) w

def stored (nft : Nft Script Table) (p : Prepared Script) (w : World Table) : World Table :=
  { installed nft p w with
    stateFile := some { p.state with kernelDigest := nft.fingerprint (loadScripts nft (p.plan.scripts nft.gate) w.tables) p.plan.keys } }

theorem activate_eq (p : Prepared Script) (w : World Table) : activate nft sched p w =
    match sched .install with
    | .early => (w, false)
    | .late => (installed nft p w, false)
    | .ok =>
      if sched .readback = .ok ∧ sched .bindings = .ok then
        match sched .store with
        | .early => (installed nft p w, false)
        | .late => (stored nft p w, false)
        | .ok => (stored nft p w, true)
      else (installed nft p w, false) := by
  have complete := loadScripts_complete nft p w.tables
  unfold activate
  rw [Routine.all, Routine.seq_perform]
  cases sched .install with
  | early => rfl
  | late => rfl
  | ok =>
    dsimp only
    rw [Routine.all, Routine.seq_look]
    by_cases readback : sched .readback = .ok
    · rw [if_pos readback, Routine.all, Routine.seq_of_ok complete, Routine.all, Routine.seq_look]
      by_cases bindings : sched .bindings = .ok
      · rw [if_pos bindings, if_pos ⟨readback, bindings⟩, Routine.all, Routine.seq_perform]
        cases sched .store <;> rfl
      · rw [if_neg bindings, if_neg fun both => bindings both.2]
        rfl
    · rw [if_neg readback, if_neg fun both => readback both.1]
      rfl

/-- What the activation leaves, seen from the world before the apply. -/
structure Left (nft : Nft Script Table) (sched : Schedule) (w : World Table) (p : Prepared Script) (result : World Table × Bool) :
    Prop where
  through : result.2 = true ↔ Activates sched
  tables : SameTables w result.1 ↔ ¬TablesLeft nft sched w p
  stateFile : ¬Activates sched → (result.1.stateFile = w.stateFile ↔ ¬StateLeft nft sched w p)
  fault : result.1.fault = w.fault
  others : ∀ key, key ∉ p.plan.keys → result.1.tables key = w.tables key

theorem installed_same (p : Prepared Script) (same : Untouched w w') (took : sched .install ≠ .early) :
    SameTables w (installed nft p w') ↔ ¬TablesLeft nft sched w p := by
  have loaded : (installed nft p w').tables = loadScripts nft (p.plan.scripts nft.gate) w.tables := loadScripts_same nft p same.tables
  unfold SameTables TablesLeft
  rw [loaded]
  constructor
  · rintro kept ⟨_, key, other, differs⟩
    exact differs (kept key other)
  · intro none key other
    by_contra differs
    exact none ⟨took, key, other, differs⟩

theorem installed_others (p : Prepared Script) (same : Untouched w w') (key : TableKey)
    (absent : key ∉ p.plan.keys) : (installed nft p w').tables key = w.tables key := by
  have loaded : (installed nft p w').tables = loadScripts nft (p.plan.scripts nft.gate) w.tables := loadScripts_same nft p same.tables
  rw [loaded, loadScripts, scripts_lookup_none nft.gate p absent]

theorem activate_left (p : Prepared Script) (same : Untouched w w') :
    Left nft sched w p (activate nft sched p w') := by
  have others : ∀ key, key ∉ p.plan.keys → w'.tables key = w.tables key := by
    intro key absent
    refine same.tables key ?_
    rintro rfl
    exact absent List.mem_cons_self
  rw [activate_eq nft sched]
  cases install : sched .install with
  | early =>
    have stopped : ¬Activates sched := fun all => Outcome.noConfusion (install.symm.trans all.1)
    have kept : ¬StateLeft nft sched w p := fun left => Outcome.noConfusion (install.symm.trans left.1)
    exact ⟨iff_of_false Bool.false_ne_true stopped, iff_of_true same.tables fun left => left.1 install,
      fun _ => iff_of_true same.stateFile kept, same.fault, others⟩
  | late =>
    have stopped : ¬Activates sched := fun all => Outcome.noConfusion (install.symm.trans all.1)
    have kept : ¬StateLeft nft sched w p := fun left => Outcome.noConfusion (install.symm.trans left.1)
    exact ⟨iff_of_false Bool.false_ne_true stopped, installed_same nft sched p same (by simp [install]),
      fun _ => iff_of_true same.stateFile kept, same.fault, installed_others nft p same⟩
  | ok =>
    have tables := installed_same nft sched p same (by simp [install])
    dsimp only
    by_cases both : sched .readback = .ok ∧ sched .bindings = .ok
    · rw [if_pos both]
      cases store : sched .store with
      | early =>
        have stopped : ¬Activates sched := fun all => Outcome.noConfusion (store.symm.trans all.2.2.2)
        have kept : ¬StateLeft nft sched w p := fun left => Outcome.noConfusion (store.symm.trans left.2.2.2.1)
        exact ⟨iff_of_false Bool.false_ne_true stopped, tables, fun _ => iff_of_true same.stateFile kept, same.fault,
          installed_others nft p same⟩
      | late =>
        have stopped : ¬Activates sched := fun all => Outcome.noConfusion (store.symm.trans all.2.2.2)
        refine ⟨iff_of_false Bool.false_ne_true stopped, tables, fun _ => ?_, same.fault, installed_others nft p same⟩
        unfold stored StateLeft
        rw [loadScripts_same nft p same.tables]
        constructor
        · rintro stays ⟨_, _, _, _, differs⟩
          exact differs stays.symm
        · intro none
          by_contra differs
          exact none ⟨install, both.1, both.2, store, fun stays => differs stays.symm⟩
      | ok =>
        have all : Activates sched := ⟨install, both.1, both.2, store⟩
        exact ⟨iff_of_true rfl all, tables, fun stopped => absurd all stopped, same.fault, installed_others nft p same⟩
    · rw [if_neg both]
      have stopped : ¬Activates sched := fun all => both ⟨all.2.1, all.2.2.1⟩
      have kept : ¬StateLeft nft sched w p := fun left => both ⟨left.2.1, left.2.2.1⟩
      exact ⟨iff_of_false Bool.false_ne_true stopped, tables, fun _ => iff_of_true same.stateFile kept, same.fault,
        installed_others nft p same⟩

/-! ### The handler -/

theorem lookup_absent {α β : Type} [BEq α] [LawfulBEq α] (f : α → Option β) {keys : List α} {key : α} (absent : key ∉ keys) :
    (keys.filterMap fun k => (f k).map fun b => (k, b)).lookup key = none := by
  rw [List.lookup_eq_none_iff]
  intro row inside
  obtain ⟨k, there, made⟩ := List.mem_filterMap.mp inside
  obtain ⟨b, _, rfl⟩ := Option.map_eq_some_iff.mp made
  rw [bne_iff_ne]
  rintro rfl
  exact absent there

theorem lookup_present {α β : Type} [BEq α] [LawfulBEq α] (f : α → Option β) {keys : List α} {key : α} (present : key ∈ keys) :
    (keys.filterMap fun k => (f k).map fun b => (k, b)).lookup key = f key := by
  induction keys with
  | nil => cases present
  | cons k rest ih =>
    by_cases here : key = k
    · subst here
      cases found : f key with
      | some b => simp [found]
      | none =>
        have skips : ((key :: rest).filterMap fun k => (f k).map fun b => (k, b)) = rest.filterMap fun k =>
            (f k).map fun b => (k, b) := by
          simp [found]
        rw [skips]
        by_cases later : key ∈ rest
        · rw [ih later, found]
        · exact lookup_absent f later
    · have later := ih ((List.mem_cons.mp present).resolve_left here)
      cases found : f k with
      | none =>
        have skips : ((k :: rest).filterMap fun k => (f k).map fun b => (k, b)) = rest.filterMap fun k => (f k).map fun b => (k, b) := by
          simp [found]
        rw [skips, later]
      | some b =>
        have first : ((k :: rest).filterMap fun k => (f k).map fun b => (k, b)) =
            (k, b) :: rest.filterMap fun k => (f k).map fun b => (k, b) := by
          simp [found]
        rw [first, List.lookup_cons, beq_eq_false_iff_ne.mpr here]
        exact later

/-- The world with the tables of `before` loaded again. -/
def rolledBack (nft : Nft Script Table) (before : World Table) (p : Prepared Script) (w : World Table) : World Table :=
  withTables (loadScripts nft (rollbackScripts nft before p.plan.keys) (deleteTables p.plan.keys w.tables)) w

theorem rolledBack_same (p : Prepared Script)
    (others : ∀ key, key ∉ p.plan.keys → w.tables key = before.tables key) : SameTables before (rolledBack nft before p w) := by
  intro key other
  show loadScripts _ _ _ key = before.tables key
  unfold loadScripts deleteTables rollbackScripts
  by_cases member : key ∈ p.plan.keys
  · have script : rollbackScript nft before key = (before.tables key).map nft.list := if_neg other
    rw [lookup_present (rollbackScript nft before) member, if_pos member, script]
    cases table : before.tables key with
    | none => rfl
    | some t => exact congrArg some (nft.load_list t)
  · rw [lookup_absent (rollbackScript nft before) member, if_neg member]
    exact others key member

theorem undo_eq (before : World Table) (p : Prepared Script) (w : World Table) : undo nft sched before p w =
    if sched .rollbackInventory = .ok then
      match sched .rollback with
      | .early => (w, false)
      | .late => (rolledBack nft before p w, false)
      | .ok =>
        if sched .rereadState = .ok then
          if w.stateFile = before.stateFile then (rolledBack nft before p w, true)
          else Routine.perform (sched .restore) (fun w => { w with stateFile := before.stateFile }) (rolledBack nft before p w)
        else (rolledBack nft before p w, false)
    else (w, false) := by
  unfold undo
  rw [Routine.all, Routine.seq_look]
  by_cases inventory : sched .rollbackInventory = .ok
  · rw [if_pos inventory, if_pos inventory, Routine.all, Routine.seq_perform]
    cases sched .rollback with
    | early => rfl
    | late => rfl
    | ok =>
      dsimp only
      rw [Routine.all, Routine.seq_look, Routine.all, Routine.all, Routine.seq_skip]
      rfl
  · rw [if_neg inventory, if_neg inventory]

/-- What the rollback has put back, whether it got through or not. -/
structure Undone (sched : Schedule) (before w : World Table) (result : World Table × Bool) : Prop where
  tables : SameTables before result.1 ↔ SameTables before w ∨ ¬NoRollback sched
  stateFile : result.1.stateFile = before.stateFile ↔ w.stateFile = before.stateFile ∨ ¬NoRestore sched
  fault : result.1.fault = w.fault
  through : result.2 = true → SameTables before result.1 ∧ result.1.stateFile = before.stateFile

theorem undo_undone (p : Prepared Script) (others : ∀ key, key ∉ p.plan.keys → w.tables key = before.tables key) :
    Undone sched before w (undo nft sched before p w) := by
  have back := rolledBack_same nft p others
  have refused : ∀ {P : Prop}, false = true → P := fun h => Bool.noConfusion h
  rw [undo_eq nft sched]
  by_cases inventory : sched .rollbackInventory = .ok
  · rw [if_pos inventory]
    cases rollback : sched .rollback with
    | early =>
      have none : NoRollback sched := Or.inr rollback
      exact ⟨by simp [none], by simp [NoRestore, none], rfl, refused⟩
    | late =>
      have rolled : ¬NoRollback sched := by simp [NoRollback, inventory, rollback]
      have lost : NoRestore sched := Or.inr (Or.inl rollback)
      exact ⟨iff_of_true back (Or.inr rolled), by simp [lost, rolledBack, withTables], rfl, refused⟩
    | ok =>
      have rolled : ¬NoRollback sched := by simp [NoRollback, inventory, rollback]
      dsimp only
      by_cases reread : sched .rereadState = .ok
      · rw [if_pos reread]
        by_cases kept : w.stateFile = before.stateFile
        · rw [if_pos kept]
          exact ⟨iff_of_true back (Or.inr rolled), iff_of_true kept (Or.inl kept), rfl, fun _ => ⟨back, kept⟩⟩
        · rw [if_neg kept]
          cases restore : sched .restore with
          | early =>
            have lost : NoRestore sched := Or.inr (Or.inr (Or.inr restore))
            exact ⟨iff_of_true back (Or.inr rolled), by simp [lost, Routine.perform, rolledBack, withTables], rfl, refused⟩
          | late =>
            have put : ¬NoRestore sched := by simp [NoRestore, rolled, rollback, reread, restore]
            exact ⟨iff_of_true back (Or.inr rolled), iff_of_true rfl (Or.inr put), rfl, refused⟩
          | ok =>
            have put : ¬NoRestore sched := by simp [NoRestore, rolled, rollback, reread, restore]
            exact ⟨iff_of_true back (Or.inr rolled), iff_of_true rfl (Or.inr put), rfl, fun _ => ⟨back, rfl⟩⟩
      · rw [if_neg reread]
        have lost : NoRestore sched := Or.inr (Or.inr (Or.inl reread))
        exact ⟨iff_of_true back (Or.inr rolled), by simp [lost, rolledBack, withTables], rfl, refused⟩
  · rw [if_neg inventory]
    have none : NoRollback sched := Or.inl inventory
    exact ⟨by simp [none], by simp [NoRestore, none], rfl, refused⟩

theorem recordFault_eq (clean : w.fault = none) :
    (recordFault sched w).2 = false ∧ (recordFault sched w).1.tables = w.tables ∧ (recordFault sched w).1.stateFile = w.stateFile ∧
      ((recordFault sched w).1.fault.isSome = true ↔ ¬Unrecorded sched) := by
  unfold recordFault Unrecorded
  rw [Routine.all, Routine.seq_look]
  by_cases opened : sched .openJournal = .ok
  · rw [if_pos opened, Routine.all, Routine.seq_perform]
    cases sched .fault with
    | early => exact ⟨rfl, rfl, rfl, by simp [clean]⟩
    | late => exact ⟨rfl, rfl, rfl, by simp [opened]⟩
    | ok => exact ⟨rfl, rfl, rfl, by simp [Routine.all, Routine.seq, Routine.raise, opened]⟩
  · rw [if_neg opened]
    exact ⟨rfl, rfl, rfl, by simp [clean, opened]⟩

theorem recorded_or_put {stuck unrecorded noRollback noRestore tables state : Prop} (free : ¬stuck) :
    ((tables ∨ ¬noRollback) ∧ (state ∨ ¬noRestore)) ∨ ¬unrecorded ↔
      ¬((stuck ∧ ¬(tables ∧ state)) ∨ (¬stuck ∧ unrecorded ∧ ((noRollback ∧ ¬tables) ∨ (noRestore ∧ ¬state)))) := by
  by_cases silent : unrecorded
  · by_cases tables <;> by_cases state <;> simp [*]
  · simp [free, silent]

theorem recover_iff (p : Prepared Script) (clean : w.fault = none)
    (others : ∀ key, key ∉ p.plan.keys → w.tables key = before.tables key) :
    AtomicOrFaulted before (recover nft sched before p w) ↔
      ¬((GateStuck sched ∧ ¬(SameTables before w ∧ w.stateFile = before.stateFile)) ∨
        (¬GateStuck sched ∧ Unrecorded sched ∧
          ((NoRollback sched ∧ ¬SameTables before w) ∨ (NoRestore sched ∧ w.stateFile ≠ before.stateFile)))) := by
  have closing := closeGate_untouched nft sched .againList .againFlush (Untouched.refl w)
  have passes := closeGate_ok nft sched .againList .againFlush w
  generalize closed : closeGate nft sched .againList .againFlush w = result at closing passes
  obtain ⟨w', ok⟩ := result
  dsimp only at closing passes
  have sameTables : SameTables before w' ↔ SameTables before w := by
    constructor
    · exact fun same key other => (closing.tables key other).symm.trans (same key other)
    · exact fun same key other => (closing.tables key other).trans (same key other)
  have others' : ∀ key, key ∉ p.plan.keys → w'.tables key = before.tables key := by
    intro key absent
    refine (closing.tables key ?_).trans (others key absent)
    rintro rfl
    exact absent List.mem_cons_self
  have clean' : w'.fault = none := closing.fault.trans clean
  unfold recover AtomicOrFaulted
  simp only [Routine.all]
  cases ok with
  | false =>
    have stuck : GateStuck sched := by
      unfold GateStuck
      by_contra free
      rw [not_or, not_not, not_not] at free
      exact Bool.false_ne_true (passes.mpr free)
    rw [Routine.seq_of_raise (by rw [closed]), closed]
    simp [stuck, sameTables, closing.stateFile, clean']
  | true =>
    have free : ¬GateStuck sched := by
      rintro (listing | flushing)
      · exact listing (passes.mp rfl).1
      · exact flushing (passes.mp rfl).2
    obtain ⟨tables, stateFile, fault, through⟩ := undo_undone nft sched p others'
    rw [Routine.seq_of_ok (by rw [closed]), closed]
    dsimp only
    cases undone : (undo nft sched before p w').2 with
    | true =>
      obtain ⟨sameNow, stateNow⟩ := through undone
      rw [Routine.seq_of_ok (by rw [Routine.handle_of_ok undone]; exact undone), Routine.handle_of_ok undone]
      have noTables := tables.mp sameNow
      have noState := stateFile.mp stateNow
      rw [sameTables] at noTables
      rw [closing.stateFile] at noState
      refine iff_of_true (fun _ => Or.inl ⟨sameNow, stateNow⟩) ?_
      rintro (⟨stuck, _⟩ | ⟨_, _, ⟨none, dirty⟩ | ⟨none, dirty⟩⟩)
      · exact free stuck
      · exact noTables.elim dirty fun rolled => rolled none
      · exact noState.elim dirty fun put => put none
    | false =>
      obtain ⟨raised, kept, keptState, recorded⟩ := recordFault_eq sched (fault.trans clean')
      rw [Routine.seq_of_raise (by rw [Routine.handle_of_raise undone]; exact raised), Routine.handle_of_raise undone]
      have same : SameTables before (recordFault sched (undo nft sched before p w').1).1 ↔
          SameTables before (undo nft sched before p w').1 := by
        unfold SameTables
        rw [kept]
      rw [same, keptState, recorded, tables, stateFile, sameTables, closing.stateFile]
      simp only [raised, forall_const]
      exact recorded_or_put free

theorem applyPrepared_iff (w : World Table) (p : Prepared Script) :
    AtomicOrFaulted w (applyPrepared nft sched p w) ↔ ¬Lost nft sched w p := by
  have untouched := preamble_untouched nft sched w p
  have reaches := preamble_ok nft sched w p
  unfold applyPrepared
  cases passed : (preamble nft sched p w w).2 with
  | false =>
    have stopped : ¬Reaches sched w p := by
      rw [← reaches, passed]
      exact Bool.false_ne_true
    rw [Routine.seq_of_raise passed]
    exact iff_of_true (fun _ => Or.inl ⟨untouched.tables, untouched.stateFile⟩) fun lost => stopped lost.1
  | true =>
    have here := reaches.mp passed
    obtain ⟨through, tables, stateFile, fault, others⟩ := activate_left nft sched p untouched
    rw [Routine.seq_of_ok passed]
    cases activated : (activate nft sched p (preamble nft sched p w w).1).2 with
    | true =>
      rw [Routine.handle_of_ok activated]
      refine iff_of_true ?_ fun lost => lost.2.1 (through.mp activated)
      intro raised
      rw [activated] at raised
      cases raised
    | false =>
      have stopped : ¬Activates sched := by
        rw [← through, activated]
        exact Bool.false_ne_true
      have clean : (activate nft sched p (preamble nft sched p w w).1).1.fault = none := fault.trans here.1
      rw [Routine.handle_of_raise activated, recover_iff nft sched p clean others, not_and_or, tables, stateFile stopped, not_not, Ne,
        stateFile stopped, not_not]
      simp only [Lost, here, stopped, not_false_eq_true, true_and]

end steps

/-- An apply is atomic or faulted just when it does not lose a change. -/
theorem atomic_or_faulted_iff (nft : Nft Script Table) (sched : Schedule) (w : World Table) (request : Request) (replay : Bool)
    (plan : Except String (Plan Script)) :
    AtomicOrFaulted w (apply nft sched request replay plan w) ↔
      ∀ p, prepare w request plan = .ok p → unchanged w p replay = false → ¬Lost nft sched w p := by
  unfold apply
  cases prepared : prepare w request plan with
  | error e =>
    refine iff_of_true (fun _ => Or.inl ⟨fun _ _ => rfl, rfl⟩) ?_
    rintro p ⟨⟩
  | ok p =>
    dsimp only
    cases idle : unchanged w p replay with
    | true =>
      refine iff_of_true ?_ ?_
      · intro raised
        cases raised
      · rintro q ⟨⟩ busy
        exact absurd (idle.symm.trans busy) (by simp)
    | false =>
      rw [if_neg Bool.false_ne_true, applyPrepared_iff nft sched]
      constructor
      · rintro safe q ⟨⟩ _
        exact safe
      · intro safe
        exact safe p rfl idle

def textNft : Nft String String where
  load := id
  list := id
  load_list := fun _ => rfl
  gate := "set live"
  fingerprint := fun tables keys => ";".intercalate (keys.filterMap tables)

def firstPlan : Plan String := ⟨[(("inet", "ffn_security"), "old"), (("ip", "ffn_nat"), "nat")], [], [], "boot"⟩

def secondPlan : Plan String := { firstPlan with others := [(("inet", "ffn_security"), "new"), (("ip", "ffn_nat"), "nat")] }

/-- The first generation is in force: its tables, its STATE and its one token. -/
def firstWorld : World String where
  tables := loadScripts textNft (firstPlan.scripts textNft.gate) fun _ => none
  live := true
  stateFile := some ⟨1, 1, {}, [], [], "boot", firstPlan.keys, "set live;old;nat"⟩
  rules := ⟨[(4095, ⟨"implicit", "intrazone-default", 1, ⟨false, false, none⟩⟩)], by decide⟩
  fault := none

/-- The batch is loaded, and then `nft -j list ruleset` fails in the readback and again in the handler. -/
def listingFails : Schedule := fun point =>
  match point with
  | .readback | .againList => .early
  | _ => .ok

theorem secondPlan_neither_atomic_nor_faulted :
    ¬AtomicOrFaulted firstWorld
      (apply textNft listingFails ⟨1, { vsys := [{ name := "vsys1" }] }⟩ false (.ok secondPlan) firstWorld) := by
  intro atomic
  rcases atomic (by decide +kernel) with ⟨tables, _⟩ | fault
  · have security := tables ("inet", "ffn_security") (by decide)
    revert security
    decide +kernel
  · revert fault
    decide +kernel

end FfnNgfw.Runtime
