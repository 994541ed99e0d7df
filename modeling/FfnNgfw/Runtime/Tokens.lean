import FfnNgfw.Runtime.Atomic
import FfnNgfw.Runtime.Events

/-!
# Session tokens

A token is issued for a rule of a generation, kept in the journal with the rule it stands
for, set on a session as bits of its conntrack label and read back from the events of the
session. Within a generation the tokens are distinct, in the journal none is ever given a
second meaning, and the label decodes to the token that it was made of.
-/

namespace FfnNgfw.Runtime

open Policy

/-! ### One generation -/

theorem numbered_tokens (revision counter : Nat) (rules : List (String × String × Logging)) :
    (numbered revision counter rules).map Prod.fst = List.range' (revision * 2048 + counter + 1) rules.length := by
  induction rules generalizing counter with
  | nil => rfl
  | cons rule rest ih =>
    rw [List.length_cons, List.range'_succ, numbered, List.map_cons, ih]
    simp only [Nat.add_assoc]

def implicitRow (revision : Nat) : Nat × Metadata :=
  (implicitToken revision, ⟨"implicit", "intrazone-default", revision, ⟨false, false, none⟩⟩)

variable {revision token : Nat} {root : Config} {rows : List (Nat × Metadata)}
variable {identity : String × String}

theorem tokensFor_rows (issued : tokensFor root revision = .ok rows) :
    1 ≤ revision ∧ revision < 524287 ∧ ∃ rules, rules.length < 2047 ∧ rows = numbered revision 0 rules ++ [implicitRow revision] := by
  obtain ⟨rules, _, issued⟩ := bind_ok issued
  split at issued
  · cases issued
  rename_i room
  rw [not_or, not_not, not_le] at room
  obtain ⟨few, low, high⟩ := room
  cases issued
  exact ⟨low, high, rules.flatten, few, rfl⟩

theorem tokensFor_tokens (issued : tokensFor root revision = .ok rows) :
    1 ≤ revision ∧ revision < 524287 ∧
      ∃ count, count < 2047 ∧ rows.map Prod.fst = List.range' (revision * 2048 + 1) count ++ [revision * 2048 + 2047] := by
  obtain ⟨low, high, rules, few, rfl⟩ := tokensFor_rows issued
  refine ⟨low, high, rules.length, few, ?_⟩
  rw [List.map_append, numbered_tokens]
  rfl

theorem tokensOf_implicit (issued : tokensFor root revision = .ok rows) :
    tokensOf rows ("implicit", "intrazone-default") = some (implicitToken revision) := by
  obtain ⟨_, _, rules, _, rfl⟩ := tokensFor_rows issued
  unfold tokensOf
  rw [List.reverse_append, List.reverse_singleton, List.singleton_append, List.find?_cons_of_pos (by rfl)]
  rfl

theorem tokensFor_nodup (issued : tokensFor root revision = .ok rows) :
    (rows.map Prod.fst).Nodup := by
  obtain ⟨_, _, count, few, tokens⟩ := tokensFor_tokens issued
  rw [tokens, List.nodup_append]
  refine ⟨List.nodup_range', by simp, ?_⟩
  intro token numbered last implicit same
  rw [List.mem_singleton] at implicit
  rw [List.mem_range'_1] at numbered
  omega

theorem tokensFor_range (issued : tokensFor root revision = .ok rows)
    {row : Nat × Metadata} (member : row ∈ rows) : revision * 2048 < row.1 ∧ row.1 < (revision + 1) * 2048 ∧
    1 ≤ row.1 ∧ row.1 < 2 ^ 30 := by
  obtain ⟨low, high, count, few, tokens⟩ := tokensFor_tokens issued
  have inside : row.1 ∈ rows.map Prod.fst := List.mem_map_of_mem member
  rw [tokens, List.mem_append, List.mem_range'_1, List.mem_singleton] at inside
  omega

theorem tokensOf_mem
    (found : tokensOf rows identity = some token) : ∃ row ∈ rows, row.1 = token ∧ (row.2.scope, row.2.name) = identity := by
  obtain ⟨row, first, rfl⟩ := Option.map_eq_some_iff.mp found
  refine ⟨row, List.mem_reverse.mp (List.mem_of_find?_eq_some first), rfl, ?_⟩
  have matches' := List.find?_some first
  exact of_decide_eq_true matches'

theorem tokensOf_injective (nodup : (rows.map Prod.fst).Nodup) {identity other : String × String}
    (found : tokensOf rows identity = some token) (foundOther : tokensOf rows other = some token) :
    identity = other := by
  obtain ⟨row, member, rfl, rfl⟩ := tokensOf_mem found
  obtain ⟨row', member', same, rfl⟩ := tokensOf_mem foundOther
  rw [List.inj_on_of_nodup_map nodup member' member same]

/-! ### The journal -/

def Rules.Extends (after before : Rules) : Prop :=
  ∀ token metadata, before.entries.lookup token = some metadata → after.entries.lookup token = some metadata

theorem Rules.Extends.refl (rules : Rules) : rules.Extends rules := fun _ _ found => found

theorem Rules.Extends.trans {a b c : Rules} (later : c.Extends b) (earlier : b.Extends a) : c.Extends a :=
  fun token metadata found => later token metadata (earlier token metadata found)

theorem insert_extends {before after : Rules} {row : Nat × Metadata} (inserted : before.insert row = .ok after) :
    after.Extends before ∧ after.entries.lookup row.1 = some row.2 := by
  unfold Rules.insert at inserted
  split at inserted
  · rename_i old found
    split at inserted
    · rename_i same
      cases inserted
      exact ⟨Rules.Extends.refl before, found.trans (congrArg some same)⟩
    · cases inserted
  · rename_i absent
    cases inserted
    constructor
    · intro token metadata found
      show (before.entries ++ [row]).lookup token = some metadata
      rw [List.lookup_append, found]
      rfl
    · show (before.entries ++ [row]).lookup row.1 = some row.2
      rw [List.lookup_append, absent]
      exact List.lookup_cons_self

theorem register_extends {before after : Rules} (registered : before.register rows = .ok after) :
    after.Extends before ∧ ∀ row ∈ rows, after.entries.lookup row.1 = some row.2 := by
  refine foldlM_invariant (fun done rules => rules.Extends before ∧ ∀ row ∈ done, rules.entries.lookup row.1 = some row.2) ?_
    ⟨Rules.Extends.refl before, nofun⟩ registered
  rintro done rules row rules' ⟨kept, present⟩ inserted
  obtain ⟨extends', found⟩ := insert_extends inserted
  refine ⟨extends'.trans kept, ?_⟩
  intro row' member
  rcases List.mem_append.mp member with earlier | last
  · exact extends' _ _ (present row' earlier)
  · rw [List.mem_singleton.mp last]
    exact found

section steps

variable {Script Table : Type} (nft : Nft Script Table) (sched : Schedule) (rules : Rules) (before : World Table) (p : Prepared Script)

/-- The journal holds `rules`, the STATE file is the one from before or the prepared one, and
a gate that was closed is closed. -/
structure Within (w : World Table) : Prop where
  rules : w.rules = rules
  stateFile : w.stateFile = before.stateFile ∨ ∃ digest, w.stateFile = some { p.state with kernelDigest := digest }
  closed : before.live = false → w.live = false

theorem closeGate_within (listing flushing : Point) (w : World Table) (within : Within rules before p w) :
    Within rules before p (closeGate nft sched listing flushing w).1 := by
  apply Routine.seq_keeps (Within rules before p) (fun _ h => h) _ w within
  apply Routine.perform_keeps
  exact fun _ h => ⟨h.rules, h.stateFile, fun _ => rfl⟩

theorem activate_within (w : World Table) (within : Within rules before p w) : Within rules before p (activate nft sched p w).1 := by
  refine Routine.all_keeps (Within rules before p) ?_ w within
  intro a member
  simp only [List.mem_cons, List.not_mem_nil, or_false] at member
  rcases member with rfl | rfl | rfl | rfl | rfl
  · apply Routine.perform_keeps
    exact fun _ h => ⟨h.rules, h.stateFile, fun _ => rfl⟩
  · exact fun _ h => h
  · exact fun _ h => h
  · exact fun _ h => h
  · apply Routine.perform_keeps
    exact fun _ h => ⟨h.rules, Or.inr ⟨_, rfl⟩, h.closed⟩

theorem undo_within (w : World Table) (within : Within rules before p w) : Within rules before p (undo nft sched before p w).1 := by
  refine Routine.all_keeps (Within rules before p) ?_ w within
  intro a member
  simp only [List.mem_cons, List.not_mem_nil, or_false] at member
  rcases member with rfl | rfl | rfl | rfl
  · exact fun _ h => h
  · apply Routine.perform_keeps
    exact fun _ h => ⟨h.rules, h.stateFile, fun _ => rfl⟩
  · exact fun _ h => h
  · intro w' h
    dsimp only
    split
    · exact h
    · apply Routine.perform_keeps (Within rules before p) _ w' h
      exact fun _ h => ⟨h.rules, Or.inl rfl, h.closed⟩

theorem recordFault_within (w : World Table) (within : Within rules before p w) : Within rules before p (recordFault sched w).1 := by
  refine Routine.all_keeps (Within rules before p) ?_ w within
  intro a member
  simp only [List.mem_cons, List.not_mem_nil, or_false] at member
  rcases member with rfl | rfl | rfl
  · exact fun _ h => h
  · apply Routine.perform_keeps
    exact fun _ h => ⟨h.rules, h.stateFile, h.closed⟩
  · exact fun _ h => h

theorem recover_within (w : World Table) (within : Within rules before p w) :
    Within rules before p (recover nft sched before p w).1 := by
  refine Routine.all_keeps (Within rules before p) ?_ w within
  intro a member
  simp only [List.mem_cons, List.not_mem_nil, or_false] at member
  rcases member with rfl | rfl | rfl
  · exact closeGate_within nft sched rules before p .againList .againFlush
  · exact Routine.handle_keeps (Within rules before p) (undo_within nft sched rules before p) (recordFault_within sched rules before p)
  · exact fun _ h => h

theorem register_eq (metadata : List (Nat × Metadata)) (w : World Table) :
    (register sched metadata w).1 = { w with rules := (register sched metadata w).1.rules } := by
  unfold register
  split
  · rfl
  split
  · rfl
  · cases sched .register <;> rfl

theorem preamble_within : Within (register sched p.metadata before).1.rules before p (preamble nft sched p before before).1 := by
  generalize after : (register sched p.metadata before).1.rules = rules
  have registered : Within rules before p (register sched p.metadata before).1 := by
    rw [register_eq, after]
    exact ⟨rfl, Or.inl rfl, fun shut => shut⟩
  unfold preamble
  rw [Routine.all]
  unfold Routine.seq
  split
  · refine Routine.all_keeps (Within rules before p) ?_ _ registered
    intro a member
    simp only [List.mem_cons, List.not_mem_nil, or_false] at member
    rcases member with rfl | rfl | rfl | rfl
    · exact fun _ h => h
    · exact fun _ h => h
    · exact fun _ h => h
    · exact closeGate_within nft sched rules before p .closeList .closeFlush
  · exact registered

theorem applyPrepared_within :
    Within (register sched p.metadata before).1.rules before p (applyPrepared nft sched p before).1 := by
  have first := preamble_within nft sched before p
  unfold applyPrepared
  rw [Routine.seq]
  split
  · apply Routine.handle_keeps _ (activate_within nft sched _ before p) (recover_within nft sched _ before p)
    exact first
  · exact first

end steps

structure Attempt (Script : Type) where
  request : Request
  replay : Bool
  plan : Except String (Plan Script)
  sched : Schedule

section runs

variable {Script Table : Type} (nft : Nft Script Table)

def applied (w : World Table) (a : Attempt Script) : World Table := (apply nft a.sched a.request a.replay a.plan w).1

/-- The rows that an apply commits to the journal, whether it succeeds after that or fails. -/
def registered (w : World Table) (a : Attempt Script) : List (Nat × Metadata) :=
  match prepare w a.request a.plan with
  | .error _ => []
  | .ok p =>
    if unchanged w p a.replay ∨ w.fault.isSome ∨ a.sched .register = .early then []
    else
      match w.rules.register p.metadata with
      | .error _ => []
      | .ok _ => p.metadata

def registrations : World Table → List (Attempt Script) → List (Nat × Metadata)
  | _, [] => []
  | w, a :: rest => registered w a ++ registrations (applied nft w a) rest

theorem register_rules (sched : Schedule) (metadata : List (Nat × Metadata)) (w : World Table) :
    (register sched metadata w).1.rules =
      if w.fault.isSome ∨ sched .register = .early then w.rules
      else
        match w.rules.register metadata with
        | .error _ => w.rules
        | .ok rules => rules := by
  unfold register
  by_cases faulted : w.fault.isSome = true
  · rw [if_pos faulted, if_pos (Or.inl faulted)]
    rfl
  · rw [if_neg faulted]
    cases w.rules.register metadata with
    | error e => simp [Routine.raise]
    | ok rules => cases outcome : sched .register <;> simp [Routine.perform, faulted]

theorem applied_journal (w : World Table) (a : Attempt Script) :
    (applied nft w a).rules.Extends w.rules ∧ ∀ row ∈ registered w a, (applied nft w a).rules.entries.lookup row.1 = some row.2 := by
  unfold applied apply registered
  cases prepare w a.request a.plan with
  | error e => exact ⟨Rules.Extends.refl _, nofun⟩
  | ok p =>
    dsimp only
    by_cases idle : unchanged w p a.replay = true
    · rw [if_pos idle, if_pos (Or.inl idle)]
      exact ⟨Rules.Extends.refl _, nofun⟩
    rw [if_neg idle, (applyPrepared_within nft a.sched w p).rules, register_rules]
    by_cases stopped : w.fault.isSome = true ∨ a.sched .register = .early
    · rw [if_pos stopped, if_pos (Or.inr stopped)]
      exact ⟨Rules.Extends.refl _, nofun⟩
    rw [if_neg stopped, if_neg (not_or.mpr ⟨idle, stopped⟩)]
    cases written : w.rules.register p.metadata with
    | error e => exact ⟨Rules.Extends.refl _, nofun⟩
    | ok rules => exact register_extends written

theorem registrations_journaled (run : List (Attempt Script)) (w : World Table) :
    (run.foldl (applied nft) w).rules.Extends w.rules ∧
      ∀ row ∈ registrations nft w run, (run.foldl (applied nft) w).rules.entries.lookup row.1 = some row.2 := by
  induction run generalizing w with
  | nil => exact ⟨Rules.Extends.refl _, nofun⟩
  | cons a rest ih =>
    obtain ⟨step, now⟩ := applied_journal nft w a
    obtain ⟨later, rows⟩ := ih (applied nft w a)
    refine ⟨later.trans step, ?_⟩
    intro row member
    rcases List.mem_append.mp member with first | others
    · exact later _ _ (now row first)
    · exact rows row others

end runs

/-! ### No registration is refused -/

/-- The journal has the tokens of the generation in the STATE file. -/
def Backed {Table : Type} (w : World Table) : Prop :=
  ∀ old, w.stateFile = some old → ∀ rows, tokensFor old.xml old.tokenGeneration = .ok rows →
    ∀ row ∈ rows, w.rules.entries.lookup row.1 = some row.2

theorem register_present {rules : Rules}
    (present : ∀ row ∈ rows, rules.entries.lookup row.1 = some row.2) : rules.register rows = .ok rules := by
  unfold Rules.register
  induction rows with
  | nil => rfl
  | cons row rest ih =>
    have found := present row List.mem_cons_self
    have kept : rules.insert row = .ok rules := by
      unfold Rules.insert
      split
      · rename_i old found'
        rw [if_pos (Option.some.inj (found'.symm.trans found))]
      · rename_i absent
        cases absent.symm.trans found
    rw [List.foldlM_cons, kept]
    exact ih fun row' member => present row' (List.mem_cons_of_mem row member)

theorem register_fresh {rules : Rules} (nodup : (rows.map Prod.fst).Nodup)
    (fresh : ∀ row ∈ rows, row.1 ∉ rules.entries.map Prod.fst) : ∃ after, rules.register rows = .ok after := by
  unfold Rules.register
  induction rows generalizing rules with
  | nil => exact ⟨rules, rfl⟩
  | cons row rest ih =>
    have absent := lookup_none_iff.mpr (fresh row List.mem_cons_self)
    obtain ⟨next, inserted, entries⟩ : ∃ next, rules.insert row = .ok next ∧ next.entries = rules.entries ++ [row] := by
      unfold Rules.insert
      split
      · rename_i old found
        cases absent.symm.trans found
      · exact ⟨_, rfl, rfl⟩
    rw [List.map_cons, List.nodup_cons] at nodup
    rw [List.foldlM_cons, inserted]
    refine ih nodup.2 ?_
    intro row' member
    rw [entries, List.map_append, List.mem_append, List.map_singleton, List.mem_singleton]
    rintro (old | same)
    · exact fresh row' (List.mem_cons_of_mem row member) old
    · exact nodup.1 (same ▸ List.mem_map_of_mem member)

theorem le_maxToken {rules : Rules} (member : token ∈ rules.entries.map Prod.fst) : token ≤ rules.maxToken := by
  have bound : ∀ (tokens : List Nat) (start : Nat), start ≤ tokens.foldl max start ∧ ∀ t ∈ tokens, t ≤ tokens.foldl max start := by
    intro tokens
    induction tokens with
    | nil => exact fun start => ⟨le_refl start, nofun⟩
    | cons first rest ih =>
      intro start
      obtain ⟨low, each⟩ := ih (max start first)
      refine ⟨(le_max_left start first).trans low, ?_⟩
      intro t inside
      rcases List.mem_cons.mp inside with rfl | later
      · exact (le_max_right start t).trans low
      · exact each t later
  exact (bound _ 0).2 token member

section generations

variable {Script Table : Type} (nft : Nft Script Table) {w : World Table}

theorem prepare_metadata {request : Request} {plan : Except String (Plan Script)} {p : Prepared Script}
    (prepared : prepare w request plan = .ok p) :
    p.state.xml = request.xml ∧ p.state.tokenGeneration = tokenGeneration w request.xml ∧
      tokensFor request.xml (tokenGeneration w request.xml) = .ok p.metadata := by
  unfold prepare at prepared
  dsimp only at prepared
  split at prepared
  · cases prepared
  obtain ⟨plan', _, prepared⟩ := bind_ok prepared
  obtain ⟨metadata, issued, prepared⟩ := bind_ok prepared
  cases prepared
  exact ⟨rfl, rfl, issued⟩

theorem register_accepts (backed : Backed w) {request : Request} {plan : Except String (Plan Script)} {p : Prepared Script}
    (prepared : prepare w request plan = .ok p) : ∃ rules, w.rules.register p.metadata = .ok rules := by
  obtain ⟨_, _, issued⟩ := prepare_metadata prepared
  have edited : tokenGeneration w request.xml = w.rules.maxToken / 2048 + 1 → ∃ rules, w.rules.register p.metadata = .ok rules := by
    intro next
    refine register_fresh (tokensFor_nodup issued) ?_
    intro row member old
    obtain ⟨above, _⟩ := tokensFor_range issued member
    have below := le_maxToken old
    rw [next] at above
    omega
  cases saved : w.stateFile with
  | none =>
    apply edited
    unfold tokenGeneration
    rw [saved]
  | some old =>
    by_cases same : old.xml = request.xml
    · have kept : tokenGeneration w request.xml = old.tokenGeneration := by
        unfold tokenGeneration
        rw [saved]
        exact if_pos same
      rw [kept, ← same] at issued
      exact ⟨w.rules, register_present (backed old saved p.metadata issued)⟩
    · apply edited
      unfold tokenGeneration
      rw [saved]
      exact if_neg same

theorem register_passed {sched : Schedule} {metadata : List (Nat × Metadata)} (passed : (register sched metadata w).2 = true) :
    w.rules.register metadata = .ok (register sched metadata w).1.rules := by
  unfold register at passed ⊢
  split at passed
  · cases passed
  rename_i clean
  rw [if_neg clean]
  cases written : w.rules.register metadata with
  | error e =>
    rw [written] at passed
    cases passed
  | ok rules =>
    rw [written] at passed
    cases outcome : sched .register with
    | ok => rfl
    | early =>
      rw [outcome] at passed
      cases passed
    | late => rfl

theorem applyPrepared_stopped {sched : Schedule} {p : Prepared Script} (stopped : (register sched p.metadata w).2 = false) :
    applyPrepared nft sched p w = register sched p.metadata w := by
  have first : preamble nft sched p w w = register sched p.metadata w := Routine.seq_of_raise stopped
  unfold applyPrepared
  rw [Routine.seq_of_raise (by rw [first]; exact stopped), first]

theorem applied_backed (backed : Backed w) (a : Attempt Script) : Backed (applied nft w a) := by
  have kept : ∀ w' : World Table, w'.rules.Extends w.rules → w'.stateFile = w.stateFile → Backed w' := by
    intro w' extends' same old saved rows issued row member
    exact extends' _ _ (backed old (same ▸ saved) rows issued row member)
  have extended := (applied_journal nft w a).1
  unfold applied apply at extended ⊢
  cases prepared : prepare w a.request a.plan with
  | error e => exact backed
  | ok p =>
    rw [prepared] at extended
    dsimp only at extended ⊢
    by_cases idle : unchanged w p a.replay = true
    · rw [if_pos idle]
      exact backed
    rw [if_neg idle] at extended ⊢
    cases passed : (register a.sched p.metadata w).2 with
    | false =>
      refine kept _ extended ?_
      rw [applyPrepared_stopped nft passed, register_eq]
    | true =>
      obtain ⟨written, files, _⟩ := applyPrepared_within nft a.sched w p
      rcases files with same | ⟨digest, replaced⟩
      · exact kept _ extended same
      obtain ⟨xml, generation, issued⟩ := prepare_metadata prepared
      intro old saved rows reissued row member
      cases replaced.symm.trans saved
      rw [xml, generation, issued] at reissued
      cases reissued
      rw [written]
      exact (register_extends (register_passed passed)).2 row member

/-- In every run no apply is refused for a token that stands for something else. -/
theorem run_accepts (backed : Backed w) (run : List (Attempt Script)) {request : Request} {plan : Except String (Plan Script)}
    {p : Prepared Script} (prepared : prepare (run.foldl (applied nft) w) request plan = .ok p) :
    ∃ rules, (run.foldl (applied nft) w).rules.register p.metadata = .ok rules := by
  have reached : Backed (run.foldl (applied nft) w) := by
    clear prepared
    induction run generalizing w with
    | nil => exact backed
    | cons a rest ih => exact ih (applied_backed nft backed a)
  exact register_accepts reached prepared

end generations

/-- `ct label set` with the numbers of the bits. -/
def labelValue (bits : List Nat) : Nat := bits.foldr (fun bit value => value ||| 2 ^ bit) 0

theorem labelValue_testBit (bits : List Nat) (i : Nat) : (labelValue bits).testBit i = decide (i ∈ bits) := by
  induction bits with
  | nil => simp [labelValue]
  | cons bit rest ih =>
    show (labelValue rest ||| 2 ^ bit).testBit i = _
    rw [Nat.testBit_or, ih, Nat.testBit_two_pow]
    by_cases here : i = bit
    · simp [here]
    · simp [here, Ne.symm here]

theorem labelValue_labelBits (small : token < 2 ^ 30) : labelValue (labelBits token) = 2 * token + 1 := by
  apply Nat.eq_of_testBit_eq
  intro i
  rw [labelValue_testBit]
  cases i with
  | zero => simp [labelBits]
  | succ i =>
    have high : 30 ≤ i → token.testBit i = false := by
      intro beyond
      apply Nat.testBit_lt_two_pow
      exact lt_of_lt_of_le small (Nat.pow_le_pow_right (by omega) beyond)
    have half : (2 * token + 1) / 2 = token := by omega
    rw [Nat.testBit_succ, half]
    by_cases set : token.testBit i = true
    · have low : i < 30 := by
        by_contra beyond
        rw [high (not_lt.mp beyond)] at set
        cases set
      simp [labelBits, low, set]
    · simp [labelBits, set]

theorem labelToken_label (order : ByteOrder) (small : token < 2 ^ 30) :
    labelToken order (order.toBytes 16 (labelValue (labelBits token))) = some token := by
  have value := labelValue_labelBits small
  have fits : 2 * token + 1 < 256 ^ 16 := by omega
  unfold labelToken
  rw [value, order.fromBytes_toBytes fits]
  dsimp only
  rw [if_pos (by omega), show (2 * token + 1) / 2 = token by omega]

theorem label_of_token {tokens : Tokens} (found : tokens identity = some token)
    (low : 1 ≤ token) (high : token < 2 ^ 30) : label (some tokens) identity = .ok (some (labelBits token)) := by
  unfold label
  dsimp only
  rw [found]
  exact if_pos ⟨low, high⟩

theorem label_ok {tokens : Tokens} {bits : List Nat} (labelled : label (some tokens) identity = .ok (some bits)) :
    ∃ token, tokens identity = some token ∧ token < 2 ^ 30 ∧ bits = labelBits token := by
  unfold label at labelled
  dsimp only at labelled
  cases found : tokens identity with
  | none =>
    rw [found] at labelled
    cases labelled
  | some token =>
    rw [found] at labelled
    dsimp only at labelled
    split at labelled
    · rename_i range
      cases labelled
      exact ⟨token, rfl, range.2, rfl⟩
    · cases labelled

def webPolicy : Config where
  vsys := [{ name := "vsys1", security := [{ name := "web", action := .allow }] }]

def webRows (generation : Nat) : List (Nat × Metadata) :=
  [(generation * 2048 + 1, ⟨"vsys1", "web", generation, ⟨false, true, none⟩⟩), implicitRow generation]

def emptyWorld : World String := ⟨fun _ => none, false, none, ⟨[], List.nodup_nil⟩, none⟩

/-- The first apply fails in the readback, the second gets through, the third replays it. -/
def webRun : List (Attempt String) :=
  [⟨⟨0, webPolicy⟩, false, .ok firstPlan, listingFails⟩, ⟨⟨0, webPolicy⟩, false, .ok firstPlan, fun _ => .ok⟩,
    ⟨⟨1, webPolicy⟩, true, .ok firstPlan, fun _ => .ok⟩]

/-- After the run the journal takes one more generation. -/
theorem web_rows_accepted :
    ∃ p rules, prepare (webRun.foldl (applied textNft) emptyWorld) ⟨1, webPolicy⟩ (.ok firstPlan) = .ok p ∧
      (webRun.foldl (applied textNft) emptyWorld).rules.register p.metadata = .ok rules := by
  cases prepared : prepare (webRun.foldl (applied textNft) emptyWorld) ⟨1, webPolicy⟩ (.ok firstPlan) with
  | ok p =>
    obtain ⟨rules, accepted⟩ := run_accepts textNft (w := emptyWorld) nofun webRun prepared
    exact ⟨p, rules, rfl, accepted⟩
  | error e =>
    have through : (prepare (webRun.foldl (applied textNft) emptyWorld) ⟨1, webPolicy⟩ (.ok firstPlan)).toBool =
        true := by decide +kernel
    rw [prepared] at through
    cases through

def packAttribute (order : ByteOrder) (kind : Nat) (payload : List UInt8) : List UInt8 :=
  order.toBytes 2 (payload.length + 4) ++ order.toBytes 2 kind ++ payload ++ List.replicate (aligned payload.length - payload.length) 0

def webTuple (order : ByteOrder) (source destination : List UInt8) : List UInt8 :=
  packAttribute order 1 (packAttribute order 1 source ++ packAttribute order 2 destination) ++
    packAttribute order 2 (packAttribute order 1 [6] ++ packAttribute order 2 [0xc0, 0x01] ++ packAttribute order 3 [0x01, 0xbb])

def webMessage (order : ByteOrder) : Message where
  kind := 0x100
  flags := 0x600
  sequence := 0
  sender := 0
  body := [2, 0, 0, 0] ++ packAttribute order 1 (webTuple order [192, 0, 2, 7] [198, 51, 100, 1]) ++
    packAttribute order 2 (webTuple order [198, 51, 100, 1] [192, 0, 2, 7]) ++ packAttribute order 12 [0, 0, 0, 9] ++
    packAttribute order 22 (order.toBytes 16 (labelValue (labelBits 4097)))
  fits := by cases order <;> decide +kernel

def webEvent : Event where
  event := .start
  id := 9
  token := some 4097
  original := ⟨"192.0.2.7", "198.51.100.1", 6, some 49153, some 443, none, none, none⟩
  reply := ⟨"198.51.100.1", "192.0.2.7", 6, some 49153, some 443, none, none, none⟩
  originalCounters := none
  replyCounters := none
  status := none
  timeout := none
  zone := 0
  tcpState := none

def webData : Attributes :=
  [(1, webTuple .big [192, 0, 2, 7] [198, 51, 100, 1]), (2, webTuple .big [198, 51, 100, 1] [192, 0, 2, 7]), (12, [0, 0, 0, 9]),
    (22, ByteOrder.big.toBytes 16 (labelValue (labelBits 4097)))]

end FfnNgfw.Runtime
