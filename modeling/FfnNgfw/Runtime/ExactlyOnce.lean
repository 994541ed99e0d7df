import FfnNgfw.Runtime.Journal
import FfnNgfw.Runtime.Tokens

/-!
# Exactly-once accounting

Every operation moves a session in one of a few ways: it is admitted, refreshed, given up,
or an end is logged that no session stands for. What these ways keep, every run keeps, as
long as the kernel tells the story of a session in order and its snapshots are complete.
-/

namespace FfnNgfw.Runtime

variable {Time : Type}

def Entry.opens (k : Identity) (e : Entry Time) : Bool := (e.kind = .start ∨ e.kind = .recovered) ∧ e.data.identity = k

def Entry.closes (k : Identity) (e : Entry Time) : Bool := (e.kind = .end ∨ e.kind = .interrupted) ∧ e.data.identity = k

def openings (k : Identity) (events : List (Entry Time)) : Nat := events.countP (Entry.opens k)

def closings (k : Identity) (events : List (Entry Time)) : Nat := events.countP (Entry.closes k)

structure View (Time : Type) where
  row : Option (Session Time)
  openings : Nat
  closings : Nat

def Journal.view (j : Journal Time) (k : Identity) : View Time where
  row := j.sessions.lookup k
  openings := Runtime.openings k j.events
  closings := Runtime.closings k j.events

/-- The ways in which a session moves: `seen` says that it was observed, and `gone` that the kernel has it no more. -/
inductive Moved (seen gone : Prop) : View Time → View Time → Prop
  | same (v : View Time) : Moved seen gone v v
  | admitted (s : Session Time) (o c n : Nat) : seen → n ≤ 1 → Moved seen gone ⟨none, o, c⟩ ⟨some s, o + n, c⟩
  | refreshed (s s' : Session Time) (o c : Nat) : s'.data.rule = s.data.rule → Moved seen gone ⟨some s, o, c⟩ ⟨some s', o, c⟩
  | left (s : Session Time) (o c : Nat) : gone →
      Moved seen gone ⟨some s, o, c⟩ ⟨none, o, c + if s.data.rule.logging.end then 1 else 0⟩
  | stray (o c n : Nat) : gone → seen → Moved seen gone ⟨none, o, c⟩ ⟨none, o, c + n⟩

/-- A property of a session and of whether the kernel still has events of it, kept by every move. -/
def Stable (P : View Time → Prop → Prop) : Prop :=
  ∀ v v' seen gone before after, P v before → Moved seen gone v v' → (seen → before) → (after → before) → (gone → ¬after) → P v' after

/-- Opened once at most, not closed while it is there; what has been left or was never there has no more events. -/
def Fine (v : View Time) (ahead : Prop) : Prop :=
  v.openings ≤ 1 ∧ (v.row.isSome → v.closings = 0) ∧ (v.row = none → 0 < v.openings + v.closings → ¬ahead)

/-- A session that the rule logs the end of: there and not closed, or left and closed once. -/
def Accounted (v : View Time) (ahead : Prop) : Prop :=
  (∃ s, v.row = some s ∧ s.data.rule.logging.end = true ∧ v.closings = 0) ∨ (v.row = none ∧ v.closings = 1 ∧ ¬ahead)

theorem fine_stable : Stable (@Fine Time) := by
  intro v v' seen gone before after fine moved sees follows gone'
  obtain ⟨once, opened, closed⟩ := fine
  cases moved with
  | same => exact ⟨once, opened, fun absent some later => closed absent some (follows later)⟩
  | admitted s o c n saw small =>
    have new : ¬0 < o + c := fun some => closed rfl some (sees saw)
    exact ⟨by simp only at once ⊢; omega, fun _ => by simp only; omega, by simp⟩
  | refreshed s s' o c rule => exact ⟨once, fun _ => opened rfl, by simp⟩
  | left s o c ended => exact ⟨once, by simp, fun _ _ => gone' ended⟩
  | stray o c n ended saw => exact ⟨once, by simp, fun _ _ => gone' ended⟩

theorem accounted_stable : Stable (@Accounted Time) := by
  intro v v' seen gone before after accounted moved sees follows gone'
  rcases accounted with ⟨s, there, logs, none'⟩ | ⟨absent, one, ended⟩
  · cases moved with
    | same => exact .inl ⟨s, there, logs, none'⟩
    | admitted => simp at there
    | refreshed s₀ s' o c rule =>
      cases there
      exact .inl ⟨s', rfl, by rw [rule, logs], none'⟩
    | left s₀ o c away =>
      cases there
      simp only at none'
      exact .inr ⟨rfl, by simp [none', logs], gone' away⟩
    | stray => simp at there
  · cases moved with
    | same => exact .inr ⟨absent, one, fun later => ended (follows later)⟩
    | admitted s o c n saw => exact absurd (sees saw) ended
    | refreshed => simp at absent
    | left => simp at absent
    | stray o c n away saw => exact absurd (sees saw) ended

/-- A session is stored under its own identity, with the rule of its token. -/
def Journal.Consistent (j : Journal Time) : Prop :=
  ∀ k s, j.sessions.lookup k = some s → s.data.identity = k ∧ j.rules.entries.lookup s.token = some s.data.rule

theorem openings_append (k : Identity) (a b : List (Entry Time)) : openings k (a ++ b) = openings k a + openings k b :=
  List.countP_append

theorem closings_append (k : Identity) (a b : List (Entry Time)) : closings k (a ++ b) = closings k a + closings k b :=
  List.countP_append

theorem counts_of_other {k : Identity} {entries : List (Entry Time)} (other : ∀ e ∈ entries, e.data.identity ≠ k) :
    openings k entries = 0 ∧ closings k entries = 0 := by
  unfold openings closings
  constructor
  · rw [List.countP_eq_zero]
    intro e member
    simp [Entry.opens, other e member]
  · rw [List.countP_eq_zero]
    intro e member
    simp [Entry.closes, other e member]

variable {j : Journal Time} {boot reason : String} {live : Live} {rows : List Event} {now : Time}

theorem view_append_other {k : Identity} {sessions : Dict Identity (Session Time)} {entries : List (Entry Time)}
    (row : sessions.lookup k = j.sessions.lookup k) (other : ∀ e ∈ entries, e.data.identity ≠ k) :
    ({ j with sessions := sessions, events := j.events ++ entries } : Journal Time).view k = j.view k := by
  obtain ⟨opened, closed⟩ := counts_of_other other
  simp only [Journal.view, openings_append, closings_append, row, opened, closed, Nat.add_zero]

section record

variable [Zero Time] [Sub Time] [Max Time]

variable {boot : String} {j j' : Journal Time}

theorem recordRow_cases {now : Time} {row : Event} (h : j.recordRow boot (now, row) = .ok j') :
    j' = j ∨ ∃ token rule started event,
      j.rules.entries.lookup token = some rule ∧ event.identity = identity boot row ∧ event.rule = rule ∧
      (∀ s, j.sessions.lookup (identity boot row) = some s → s.token = token) ∧
      ((row.event = .end ∧ j' = { j with
          sessions := j.sessions.erase (identity boot row)
          events := j.events ++ if rule.logging.end then [⟨now, .end, token, event⟩] else [] }) ∨
       (row.event ≠ .end ∧ j' = { j with
          sessions := j.sessions.insert (identity boot row) ⟨token, started, now, event⟩
          events := j.events ++
            if ((j.sessions.lookup (identity boot row)).isNone ∧ row.event ≠ .end) ∧ rule.logging.start then
              [⟨now, .start, token, { event with event := .start }⟩] else [] })) := by
  unfold Journal.recordRow at h
  dsimp only at h
  split at h
  · exact .inl (Except.ok.inj h).symm
  · rename_i token known
    split at h
    · cases h
    · rename_i rule found
      split at h
      · cases h
      · rename_i same
        have own : ∀ s, j.sessions.lookup (identity boot row) = some s → s.token = token := by
          intro s there
          by_contra differs
          exact same (by simp [there, differs])
        split at h
        · rename_i ends
          split at h
          · cases h
          · exact .inr ⟨token, rule, none, _, found, by rfl, by rfl, own, .inl ⟨ends, (Except.ok.inj h).symm⟩⟩
        · rename_i goes
          exact .inr ⟨token, rule, _, _, found, by rfl, by rfl, own, .inr ⟨goes, (Except.ok.inj h).symm⟩⟩

theorem recordRow_consistent {now : Time} {row : Event} (consistent : j.Consistent)
    (h : j.recordRow boot (now, row) = .ok j') : j'.Consistent := by
  obtain rfl | ⟨token, rule, started, event, found, named, ruled, own, ⟨-, rfl⟩ | ⟨-, rfl⟩⟩ := recordRow_cases h
  · exact consistent
  · intro k s there
    by_cases here : k = identity boot row
    · subst here
      simp only [AList.lookup_erase] at there
      cases there
    · exact consistent k s (by simpa [AList.lookup_erase_ne here] using there)
  · intro k s there
    by_cases here : k = identity boot row
    · subst here
      simp only [AList.lookup_insert, Option.some.injEq] at there
      subst there
      exact ⟨named, by rw [ruled]; exact found⟩
    · exact consistent k s (by simpa [AList.lookup_insert_ne here] using there)

theorem recordRow_moved {now : Time} {row : Event} (consistent : j.Consistent)
    (h : j.recordRow boot (now, row) = .ok j') (k : Identity) :
    Moved (k = identity boot row) (k = identity boot row ∧ row.event = .end) (j.view k) (j'.view k) := by
  obtain rfl | ⟨token, rule, started, event, found, named, ruled, own, ⟨ends, rfl⟩ | ⟨goes, rfl⟩⟩ := recordRow_cases h
  · exact .same _
  · by_cases here : k = identity boot row
    · subst here
      have closed : closings (identity boot row) (if rule.logging.end then [⟨now, .end, token, event⟩] else []) =
          if rule.logging.end then 1 else 0 := by
        split <;> simp [closings, Entry.closes, named]
      have opened : openings (identity boot row) (if rule.logging.end then [⟨now, .end, token, event⟩] else []) = 0 := by
        split <;> simp [openings, Entry.opens]
      simp only [Journal.view, openings_append, closings_append, AList.lookup_erase, opened, closed, Nat.add_zero]
      cases there : j.sessions.lookup (identity boot row) with
      | none => exact .stray _ _ _ ⟨trivial, ends⟩ trivial
      | some s =>
        obtain ⟨-, stored⟩ := consistent _ s there
        rw [own s there, found] at stored
        cases stored
        exact .left s _ _ ⟨trivial, ends⟩
    · rw [view_append_other (AList.lookup_erase_ne here)]
      · exact .same _
      · intro e member
        split at member <;> simp at member
        subst member
        exact fun same => here (same.symm.trans named)
  · by_cases here : k = identity boot row
    · subst here
      simp only [Journal.view, openings_append, closings_append, AList.lookup_insert]
      cases there : j.sessions.lookup (identity boot row) with
      | none =>
        have closed : closings (identity boot row)
            (if ((none : Option (Session Time)).isNone ∧ row.event ≠ .end) ∧ rule.logging.start then
            [⟨now, .start, token, { event with event := .start }⟩] else []) = 0 := by
          split <;> simp [closings, Entry.closes]
        rw [closed]
        refine .admitted _ _ _ _ trivial ?_
        split <;> simp [openings, List.countP_cons]
        split <;> omega
      | some s =>
        obtain ⟨-, stored⟩ := consistent _ s there
        rw [own s there, found] at stored
        simp only [Option.isNone_some, Bool.false_eq_true, false_and, if_false]
        refine .refreshed s _ _ _ ?_
        rw [ruled]
        exact Option.some.inj stored
    · rw [view_append_other (AList.lookup_insert_ne here)]
      · exact .same _
      · intro e member
        split at member <;> simp at member
        subst member
        exact fun same => here (same.symm.trans named)

end record

/-! ### Snapshots -/

/-- Every session of the snapshot comes from a row, and is kept under the identity of that row. -/
def Shown (boot : String) (rows : List Event) (live : Live) : Prop :=
  ∀ k found, live.lookup k = some found → identity boot found.2 = k ∧ ∃ row ∈ rows, identity boot row = k

theorem shown_assign {row shown : Event} (holds : Shown boot rows live)
    (member : row ∈ rows) (same : identity boot shown = identity boot row) (token : Nat) :
    Shown boot rows (live.assign (identity boot row) (token, shown)) := by
  intro k found there
  rw [Dict.lookup_assign] at there
  by_cases here : k = identity boot row
  · rw [if_pos here] at there
    cases there
    exact ⟨same.trans here.symm, row, member, here.symm⟩
  · rw [if_neg here] at there
    exact holds k found there

theorem dumped_shown (boot : String) (rows : List Event) : Shown boot rows (dumped boot rows) := by
  unfold dumped
  refine List.foldlRecOn rows _ ?_ ?_
  · intro k found there
    simp at there
  · intro live holds row member
    split
    · exact holds
    · exact shown_assign holds member rfl _

theorem changed_shown {live live' : Live} {row : Event} (holds : Shown boot rows live)
    (member : row ∈ rows) (h : changed boot live row = .ok live') : Shown boot rows live' := by
  unfold changed at h
  dsimp only at h
  split at h
  · cases h
    intro k found there
    by_cases here : k = identity boot row
    · rw [here, AList.lookup_erase] at there
      cases there
    · rw [AList.lookup_erase_ne here] at there
      exact holds k found there
  · split at h
    · cases h
      exact holds
    · split at h
      · cases h
        exact shown_assign holds member rfl _
      · split at h
        · cases h
        · cases h
          exact shown_assign holds member (by rfl) _

theorem liveSessions_shown {rows changes : List Event}
    (h : liveSessions boot rows changes = .ok live) : Shown boot (rows ++ changes) live := by
  have first : Shown boot (rows ++ changes) (dumped boot rows) := by
    intro k found there
    obtain ⟨same, row, member, named⟩ := dumped_shown boot rows k found there
    exact ⟨same, row, List.mem_append_left changes member, named⟩
  refine foldlM_invariant (fun done live => done ⊆ changes → Shown boot (rows ++ changes) live) ?_ (fun _ => first) h
    (fun _ member => member)
  intro done live row live' holds step inside
  have member : row ∈ changes := inside (List.mem_append_right done List.mem_cons_self)
  exact changed_shown (holds fun _ m => inside (List.mem_append_left [row] m)) (List.mem_append_right rows member) step

theorem interruption_openings (k : Identity) (now : Time) (reason : String) (s : Session Time) :
    openings k (interruption now reason s) = 0 := by
  unfold interruption
  split <;> simp [openings, Entry.opens]

theorem interruption_closings (k : Identity) (now : Time) (reason : String) (s : Session Time) :
    closings k (interruption now reason s) = if s.data.identity = k ∧ s.data.rule.logging.end then 1 else 0 := by
  have named : (interrupted s.data reason).identity = s.data.identity := rfl
  unfold interruption
  split
  · rename_i logs
    by_cases here : s.data.identity = k <;> simp [closings, Entry.closes, named, here, logs]
  · rename_i silent
    simp [closings, silent]

theorem interruptions_openings (k : Identity) (now : Time) (reason : String) (items : List (Identity × Session Time)) :
    openings k (items.flatMap fun item => interruption now reason item.2) = 0 := by
  induction items with
  | nil => rfl
  | cons item rest ih => rw [List.flatMap_cons, openings_append, interruption_openings, ih]

theorem interruptions_closings {items : List (Identity × Session Time)} (own : ∀ item ∈ items, item.2.data.identity = item.1)
    (k : Identity) (now : Time) (reason : String) :
    (k ∉ items.map Prod.fst → closings k (items.flatMap fun item => interruption now reason item.2) = 0) ∧
    ((items.map Prod.fst).Nodup → ∀ s, (k, s) ∈ items →
      closings k (items.flatMap fun item => interruption now reason item.2) = if s.data.rule.logging.end then 1 else 0) := by
  induction items with
  | nil => exact ⟨fun _ => rfl, fun _ s member => by cases member⟩
  | cons item rest ih =>
    obtain ⟨absent, present⟩ := ih fun i member => own i (List.mem_cons_of_mem item member)
    rw [List.flatMap_cons, closings_append, interruption_closings, own item List.mem_cons_self]
    constructor
    · intro outside
      rw [List.map_cons, List.mem_cons, not_or] at outside
      rw [absent outside.2, if_neg fun both => outside.1 both.1.symm]
    · intro nodup s member
      obtain ⟨new, nodup⟩ := List.nodup_cons.mp nodup
      rcases List.mem_cons.mp member with rfl | member
      · rw [absent new]
        simp
      · have differs : item.1 ≠ k := fun same => new (same ▸ List.mem_map_of_mem member)
        rw [present nodup s member, if_neg fun both => differs both.1, Nat.zero_add]

/-- What one stored session of the snapshot does: nothing to the others, and the one was not in the table since it was cleared. -/
theorem restore_cases {previous : Dict Identity (Session Time)} {b b' : Journal Time}
    {key : Identity} {token : Nat} {row : Event} (h : b.restore boot now previous (key, token, row) = .ok b') :
    ∃ rule s entries, b.rules.entries.lookup token = some rule ∧ s.token = token ∧ s.data.rule = rule ∧
      s.data.identity = identity boot row ∧ (∀ old, previous.lookup key = some old → old.token = token ∧ entries = []) ∧
      (∀ e ∈ entries, e.data.identity = identity boot row) ∧ openings key entries ≤ 1 ∧ closings key entries = 0 ∧
      b' = { b with sessions := b.sessions.insert key s, events := b.events ++ entries } := by
  unfold Journal.restore at h
  dsimp only at h
  split at h
  · cases h
  · rename_i rule found
    split at h
    · cases h
    · rename_i same
      refine ⟨rule, _, _, found, ?_, ?_, ?_, ?_, ?_, ?_, ?_, (Except.ok.inj h).symm⟩
      · rfl
      · rfl
      · rfl
      · intro old there
        rw [there] at same ⊢
        refine ⟨by simpa using same, by simp⟩
      · intro e member
        split at member <;> simp at member
        subst member
        rfl
      · split <;> simp [openings, List.countP_cons]
        split <;> omega
      · split <;> simp [closings, Entry.closes]

/-- The sessions of the snapshot that are stored so far, over the journal `c` with its sessions cleared. -/
structure Restored (previous : Dict Identity (Session Time)) (c : Journal Time) (done : List (Identity × Nat × Event))
    (b : Journal Time) : Prop where
  rules : b.rules = c.rules
  consistent : b.Consistent
  others : ∀ k, k ∉ done.map Prod.fst → b.view k = c.view k
  stored : ∀ k, k ∈ done.map Prod.fst → ∃ s n, n ≤ 1 ∧
    b.view k = ⟨some s, (c.view k).openings + n, (c.view k).closings⟩ ∧
    ∀ old, previous.lookup k = some old → n = 0 ∧ s.token = old.token

theorem restore_restored {previous : Dict Identity (Session Time)} {c b b' : Journal Time}
    {done : List (Identity × Nat × Event)} {item : Identity × Nat × Event} (holds : Restored previous c done b)
    (new : item.1 ∉ done.map Prod.fst) (own : identity boot item.2.2 = item.1)
    (h : b.restore boot now previous item = .ok b') : Restored previous c (done ++ [item]) b' := by
  obtain ⟨key, token, row⟩ := item
  obtain ⟨rule, s, entries, found, tokened, ruled, named, again, entriesOwn, opened, closed, rfl⟩ := restore_cases h
  have own : identity boot row = key := own
  rw [own] at named entriesOwn
  have frame : ∀ k, k ≠ key →
      ({ b with sessions := b.sessions.insert key s, events := b.events ++ entries } : Journal Time).view k = b.view k :=
    fun k other => view_append_other (AList.lookup_insert_ne other)
      (fun e member same => other (same.symm.trans (entriesOwn e member)))
  refine ⟨holds.rules, ?_, ?_, ?_⟩
  · intro k s' there
    by_cases here : k = key
    · subst here
      simp only [AList.lookup_insert, Option.some.injEq] at there
      subst there
      exact ⟨named, by rw [tokened, ruled]; exact found⟩
    · exact holds.consistent k s' (by simpa [AList.lookup_insert_ne here] using there)
  · intro k outside
    rw [List.map_append, List.mem_append, not_or] at outside
    rw [frame k fun same => outside.2 (by simp [same]), holds.others k outside.1]
  · intro k inside
    by_cases here : k = key
    · subst here
      have before := holds.others k new
      refine ⟨s, openings k entries, opened, ?_, ?_⟩
      · rw [← before]
        simp only [Journal.view, AList.lookup_insert, openings_append, closings_append, closed, Nat.add_zero]
      · intro old there
        obtain ⟨same, nothing⟩ := again old there
        exact ⟨by rw [nothing]; rfl, tokened.trans same.symm⟩
    · rw [frame k here]
      refine holds.stored k ?_
      rw [List.map_append, List.mem_append] at inside
      exact inside.resolve_right (by simpa using here)

theorem cleared_view (consistent : j.Consistent) (now : Time) (live : Live) (reason : String) (k : Identity) :
    (j.cleared now live reason).view k = ⟨none, (j.view k).openings, (j.view k).closings +
      if ∃ s, j.sessions.lookup k = some s ∧ k ∉ live ∧ s.data.rule.logging.end then 1 else 0⟩ := by
  have own : ∀ item ∈ j.sessions.items.filter fun item => item.1 ∉ live, item.2.data.identity = item.1 := by
    intro item member
    have there := Dict.mem_items.mp (List.mem_of_mem_filter member)
    exact (consistent item.1 item.2 there).1
  have nodup : ((j.sessions.items.filter fun item => item.1 ∉ live).map Prod.fst).Nodup :=
    List.Nodup.sublist (List.filter_sublist.map Prod.fst) (Dict.items_nodup j.sessions)
  obtain ⟨absent, present⟩ := interruptions_closings own k now reason
  simp only [Journal.view, Journal.cleared, AList.lookup_empty, openings_append, interruptions_openings, closings_append, Nat.add_zero]
  congr 2
  by_cases lost : ∃ s, j.sessions.lookup k = some s ∧ k ∉ live
  · obtain ⟨s, there, outside⟩ := lost
    rw [present nodup s (List.mem_filter.mpr ⟨Dict.mem_items.mpr there, by simpa using outside⟩)]
    simp [there, outside]
  · rw [absent, if_neg]
    · rintro ⟨s, there, outside, -⟩
      exact lost ⟨s, there, outside⟩
    · intro inside
      obtain ⟨⟨k', s⟩, member, rfl⟩ := List.mem_map.mp inside
      obtain ⟨member, outside⟩ := List.mem_filter.mp member
      exact lost ⟨s, Dict.mem_items.mp member, by simpa using outside⟩

theorem cleared_restored :
    Restored j.sessions (j.cleared now live reason) [] (j.cleared now live reason) where
  rules := rfl
  consistent := by
    intro k s there
    simp [Journal.cleared] at there
  others := fun _ _ => rfl
  stored := fun _ inside => by cases inside

theorem reconciled_restored {j j' : Journal Time}
    (shown : Shown boot rows live) (h : j.reconciled boot now live reason = (j', none)) :
    ∃ after, Restored j.sessions (j.cleared now live reason) live.items after ∧ j' = { after with health := none } := by
  unfold Journal.reconciled at h
  split at h
  · rename_i after restored
    cases h
    refine ⟨after, ?_, rfl⟩
    refine foldlM_invariant (fun done b => (done.map Prod.fst).Nodup → done ⊆ live.items →
      Restored j.sessions (j.cleared now live reason) done b) ?_ (fun _ _ => cleared_restored) (foldlUntil_none restored)
      (Dict.items_nodup live) (fun _ member => member)
    intro done b item b' holds step nodup inside
    rw [List.map_append, List.nodup_append] at nodup
    have known := Dict.mem_items.mp (inside (List.mem_append_right done List.mem_cons_self) : (item.1, item.2) ∈ live.items)
    refine restore_restored (holds nodup.1 fun _ m => inside (List.mem_append_left [item] m)) ?_ (shown _ _ known).1 step
    exact fun again => nodup.2.2 _ again _ (by simp) rfl
  · cases h

theorem reconciled_moved {j j' : Journal Time}
    (consistent : j.Consistent) (shown : Shown boot rows live) (h : j.reconciled boot now live reason = (j', none)) :
    j'.rules = j.rules ∧ j'.Consistent ∧ ∀ k, Moved (k ∈ live) (k ∈ j.sessions ∧ k ∉ live) (j.view k) (j'.view k) := by
  obtain ⟨after, restored, rfl⟩ := reconciled_restored shown h
  refine ⟨restored.rules, restored.consistent, fun k => ?_⟩
  have cleared := cleared_view consistent now live reason k
  have keyed : k ∈ live.items.map Prod.fst ↔ k ∈ live := by
    rw [← AList.lookup_isSome, Option.isSome_iff_exists]
    simp [Dict.mem_items]
  change Moved _ _ _ (after.view k)
  by_cases alive : k ∈ live
  · obtain ⟨s, n, small, seen, again⟩ := restored.stored k (keyed.mpr alive)
    have kept : ¬∃ s, j.sessions.lookup k = some s ∧ k ∉ live ∧ s.data.rule.logging.end := fun ⟨_, _, outside, _⟩ => outside alive
    rw [seen, cleared, if_neg kept]
    cases there : j.sessions.lookup k with
    | none =>
      have before : j.view k = ⟨none, (j.view k).openings, (j.view k).closings⟩ := by simp [Journal.view, there]
      rw [before]
      exact .admitted s _ _ n alive small
    | some old =>
      obtain ⟨rfl, same⟩ := again old there
      have stored := (restored.consistent k s (congrArg View.row seen)).2
      rw [restored.rules, same] at stored
      have before : j.view k = ⟨some old, (j.view k).openings, (j.view k).closings⟩ := by simp [Journal.view, there]
      rw [before]
      exact .refreshed old s _ _ (Option.some.inj (stored.symm.trans (consistent k old there).2))
  · rw [restored.others k (fun inside => alive (keyed.mp inside)), cleared]
    cases there : j.sessions.lookup k with
    | none =>
      have before : j.view k = ⟨none, (j.view k).openings, (j.view k).closings⟩ := by simp [Journal.view, there]
      simp only [reduceCtorEq, false_and, exists_false, if_false, Nat.add_zero]
      rw [← before]
      exact .same _
    | some old =>
      have before : j.view k = ⟨some old, (j.view k).openings, (j.view k).closings⟩ := by simp [Journal.view, there]
      have logs : (∃ s, some old = some s ∧ k ∉ live ∧ s.data.rule.logging.end) ↔ old.data.rule.logging.end := by simp [alive]
      simp only [logs]
      rw [before]
      exact .left old _ _ ⟨AList.lookup_isSome.mp (by simp [there]), alive⟩

theorem bootChanged_spec (boot : String) (now : Identity → Time) {item : Identity × Session Time}
    (consistent : j.Consistent) (there : j.sessions.lookup item.1 = some item.2) :
    (j.bootChanged boot now item).Consistent ∧ (∀ k, k ≠ item.1 → (j.bootChanged boot now item).view k = j.view k) ∧
      ∀ k, Moved False (k = item.1 ∧ k.boot ≠ boot) (j.view k) ((j.bootChanged boot now item).view k) := by
  unfold Journal.bootChanged
  by_cases same : item.1.boot = boot
  · rw [if_pos same]
    exact ⟨consistent, fun _ _ => rfl, fun _ => .same _⟩
  · rw [if_neg same]
    have named := (consistent _ _ there).1
    have frame : ∀ k, k ≠ item.1 → ({ j with
        sessions := j.sessions.erase item.1
        events := j.events ++ interruption (now item.1) "dataplane-boot-changed" item.2 } : Journal Time).view k = j.view k := by
      intro k other
      refine view_append_other (AList.lookup_erase_ne other) ?_
      intro e member owned
      unfold interruption at member
      split at member <;> simp at member
      subst member
      exact other (owned.symm.trans named)
    refine ⟨?_, frame, ?_⟩
    · intro k s stays
      by_cases here : k = item.1
      · rw [here, AList.lookup_erase] at stays
        cases stays
      · rw [AList.lookup_erase_ne here] at stays
        exact consistent k s stays
    · intro k
      by_cases here : k = item.1
      · subst here
        have before : j.view item.1 = ⟨some item.2, (j.view item.1).openings, (j.view item.1).closings⟩ := by simp [Journal.view, there]
        rw [before]
        simp only [Journal.view, AList.lookup_erase, openings_append, closings_append, interruption_openings, interruption_closings,
          named, true_and, Nat.add_zero]
        exact .left item.2 _ _ same
      · rw [frame k here]
        exact .same _

theorem recoverBoot_keeps {P : View Time → Prop → Prop} (stable : Stable P) (boot : String) (now : Identity → Time) {k : Identity}
    {ahead : Prop} (items : List (Identity × Session Time)) (j : Journal Time) (consistent : j.Consistent)
    (nodup : (items.map Prod.fst).Nodup) (there : ∀ item ∈ items, j.sessions.lookup item.1 = some item.2)
    (gone : k ∈ items.map Prod.fst → k.boot ≠ boot → ¬ahead) (holds : P (j.view k) ahead) :
    (items.foldl (Journal.bootChanged boot now) j).rules = j.rules ∧ (items.foldl (Journal.bootChanged boot now) j).Consistent ∧
      P ((items.foldl (Journal.bootChanged boot now) j).view k) ahead := by
  induction items generalizing j with
  | nil => exact ⟨rfl, consistent, holds⟩
  | cons item rest ih =>
    obtain ⟨new, nodup⟩ := List.nodup_cons.mp nodup
    have rules : (j.bootChanged boot now item).rules = j.rules := by
      unfold Journal.bootChanged
      split <;> rfl
    obtain ⟨consistent, frame, moved⟩ := bootChanged_spec boot now consistent (there item List.mem_cons_self)
    rw [List.foldl_cons, ← rules]
    refine ih _ consistent nodup ?_ (fun inside => gone (List.mem_cons_of_mem _ inside)) ?_
    · intro other member
      have differs : other.1 ≠ item.1 := fun same => new (same ▸ List.mem_map_of_mem member)
      exact (congrArg View.row (frame other.1 differs)).trans (there other (List.mem_cons_of_mem item member))
    · refine stable _ _ _ _ _ _ holds (moved k) (fun no => no.elim) id ?_
      rintro ⟨here, other⟩
      exact gone (by simp [here]) other

/-! ### Runs -/

def observation (boot : String) (row : Event) : Identity × Bool := (identity boot row, row.event = .end)

/-- The events and dumped rows that an operation is given: whose they are, and whether they end the session. -/
def Op.observed : Op Time → List (Identity × Bool)
  | .recordBatch boot rows => rows.map fun row => observation boot row.2
  | .reconcile boot _ rows changes _ => (rows ++ changes).map (observation boot)
  | _ => []

def InOrder (observed : List (Identity × Bool)) : Prop := observed.Pairwise fun a b => a.2 = true → a.1 ≠ b.1

def KernelOrder (ops : List (Op Time)) : Prop := InOrder (ops.flatMap Op.observed)

def Op.Misses (j : Journal Time) (k : Identity) : Op Time → Prop
  | .reconcile boot _ rows changes _ => k ∈ j.sessions ∧ ∃ live, liveSessions boot rows changes = .ok live ∧ k ∉ live
  | .recoverBoot boot _ => k ∈ j.sessions ∧ k.boot ≠ boot
  | _ => False

theorem settled_transaction (j : Journal Time) (body : Journal Time → Journal Time × Option String) :
    (∃ text, Database.transaction ⟨j, j⟩ body = (⟨j, j⟩, some text)) ∨
      ∃ j', body j = (j', none) ∧ Database.transaction ⟨j, j⟩ body = (⟨j', j'⟩, none) := by
  unfold Database.transaction
  rcases done : body j with ⟨after, _ | text⟩
  · exact .inr ⟨after, rfl, by simp⟩
  · exact .inl ⟨text, by simp⟩

theorem fresh_fine (rules : Rules) (k : Identity) (ahead : Prop) : Fine ((⟨rules, ∅, [], none⟩ : Journal Time).view k) ahead :=
  ⟨Nat.zero_le 1, fun _ => rfl, fun _ some => absurd some (Nat.lt_irrefl 0)⟩

theorem fresh_consistent (rules : Rules) : (⟨rules, ∅, [], none⟩ : Journal Time).Consistent := by
  intro k s there
  simp at there

section runs

variable [Zero Time] [Sub Time] [Max Time]

/-- A session that a snapshot does not show, or that is of another boot, has no more events. -/
def Complete : Database Time → List (Op Time) → Prop
  | _, [] => True
  | db, op :: rest =>
    (∀ k, op.Misses db.committed k → ∀ later ∈ rest, k ∉ later.observed.map Prod.fst) ∧ Complete (db.perform op).1 rest

variable {P : View Time → Prop → Prop} {j : Journal Time}

theorem recordBatch_keeps (stable : Stable P) {boot : String} {k : Identity}
    {future : List (Identity × Bool)} (rows : List (Time × Event)) {j j' : Journal Time} (consistent : j.Consistent)
    (ordered : InOrder (rows.map (fun row => observation boot row.2) ++ future))
    (holds : P (j.view k) (k ∈ (rows.map (fun row => observation boot row.2) ++ future).map Prod.fst))
    (h : rows.foldlM (Journal.recordRow boot) j = .ok j') :
    j'.rules = j.rules ∧ j'.Consistent ∧ P (j'.view k) (k ∈ future.map Prod.fst) := by
  induction rows generalizing j with
  | nil =>
    cases h
    exact ⟨rfl, consistent, holds⟩
  | cons row rest ih =>
    rw [List.foldlM_cons] at h
    obtain ⟨next, first, h⟩ := bind_ok h
    obtain ⟨last, ordered⟩ := List.pairwise_cons.mp ordered
    have rules : next.rules = j.rules := by
      obtain rfl | ⟨_, _, _, _, _, _, _, _, ⟨_, rfl⟩ | ⟨_, rfl⟩⟩ := recordRow_cases first <;> rfl
    have kept := stable _ _ _ _ _ (k ∈ (rest.map (fun row => observation boot row.2) ++ future).map Prod.fst) holds
      (recordRow_moved consistent first k) (fun here => by simp [here, observation])
      (fun later => List.mem_cons_of_mem _ later) (by
        rintro ⟨rfl, ends⟩ later
        obtain ⟨observed, member, same⟩ := List.mem_map.mp later
        exact last observed member (by simp [observation, ends]) same.symm)
    obtain ⟨rules', done⟩ := ih (recordRow_consistent consistent first) ordered kept h
    exact ⟨rules'.trans rules, done⟩

theorem perform_keeps (stable : Stable P) (consistent : j.Consistent) (op : Op Time)
    {k : Identity} {future : List (Identity × Bool)} (ordered : InOrder (op.observed ++ future))
    (gone : op.Misses j k → k ∉ future.map Prod.fst) (holds : P (j.view k) (k ∈ (op.observed ++ future).map Prod.fst)) :
    ∃ j', ((Database.perform ⟨j, j⟩ op).1 = ⟨j', j'⟩) ∧ j'.rules.Extends j.rules ∧ j'.Consistent ∧
      P (j'.view k) (k ∈ future.map Prod.fst) := by
  have later : k ∈ future.map Prod.fst → k ∈ (op.observed ++ future).map Prod.fst := fun inside => by
    rw [List.map_append]
    exact List.mem_append_right _ inside
  have kept : P (j.view k) (k ∈ future.map Prod.fst) :=
    stable _ _ False False _ _ holds (.same _) (fun no => no.elim) later (fun no => no.elim)
  have unmoved : j.rules.Extends j.rules ∧ j.Consistent ∧ P (j.view k) (k ∈ future.map Prod.fst) :=
    ⟨Rules.Extends.refl _, consistent, kept⟩
  cases op with
  | register rows =>
    simp only [Database.perform]
    obtain ⟨text, failed⟩ | ⟨j', body, done⟩ := settled_transaction j fun j =>
      ({ j with rules := (foldlUntil Rules.insert j.rules rows).1 }, (foldlUntil Rules.insert j.rules rows).2)
    · exact ⟨j, congrArg Prod.fst failed, unmoved⟩
    · refine ⟨j', congrArg Prod.fst done, ?_⟩
      obtain ⟨rfl, none'⟩ := Prod.mk.inj body
      have registered : j.rules.register rows = .ok (foldlUntil Rules.insert j.rules rows).1 := foldlUntil_none (Prod.ext rfl none')
      have kept' := (register_extends registered).1
      refine ⟨kept', ?_, kept⟩
      intro k s there
      exact ⟨(consistent k s there).1, kept' _ _ (consistent k s there).2⟩
  | recordBatch boot rows =>
    simp only [Database.perform]
    obtain ⟨text, failed⟩ | ⟨j', body, done⟩ := settled_transaction j fun j => foldlUntil (Journal.recordRow boot) j rows
    · exact ⟨j, congrArg Prod.fst failed, unmoved⟩
    · obtain ⟨rules, kept⟩ := recordBatch_keeps stable rows consistent ordered holds (foldlUntil_none body)
      exact ⟨j', congrArg Prod.fst done, rules ▸ Rules.Extends.refl _, kept⟩
  | reconcile boot now rows changes reason =>
    simp only [Database.perform]
    cases snapshot : liveSessions boot rows changes with
    | error text => exact ⟨j, rfl, unmoved⟩
    | ok live =>
      obtain ⟨text, failed⟩ | ⟨j', body, done⟩ := settled_transaction j (Journal.reconciled boot now live reason)
      · exact ⟨j, congrArg Prod.fst failed, unmoved⟩
      · have shown := liveSessions_shown snapshot
        obtain ⟨rules, consistent', moved⟩ := reconciled_moved consistent shown body
        refine ⟨j', congrArg Prod.fst done, rules ▸ Rules.Extends.refl _, consistent', ?_⟩
        refine stable _ _ _ _ _ _ holds (moved k) ?_ later ?_
        · intro alive
          obtain ⟨found, there⟩ := Option.isSome_iff_exists.mp (AList.lookup_isSome.mpr alive)
          obtain ⟨-, row, member, named⟩ := shown k found there
          rw [List.map_append]
          refine List.mem_append_left _ ?_
          rw [← named]
          exact List.mem_map.mpr ⟨_, List.mem_map_of_mem member, rfl⟩
        · exact fun lost => gone ⟨lost.1, live, snapshot, lost.2⟩
  | recoverBoot boot now =>
    simp only [Database.perform]
    obtain ⟨text, failed⟩ | ⟨j', body, done⟩ := settled_transaction j fun j =>
      (j.sessions.items.foldl (Journal.bootChanged boot now) j, none)
    · exact ⟨j, congrArg Prod.fst failed, unmoved⟩
    · refine ⟨j', congrArg Prod.fst done, ?_⟩
      obtain ⟨rfl, -⟩ := Prod.mk.inj body
      have foreign : k ∈ j.sessions.items.map Prod.fst → k.boot ≠ boot → k ∉ future.map Prod.fst := by
        intro inside other
        refine gone ⟨?_, other⟩
        obtain ⟨item, member, rfl⟩ := List.mem_map.mp inside
        exact AList.lookup_isSome.mp (by rw [Dict.mem_items.mp member]; rfl)
      obtain ⟨rules, kept⟩ := recoverBoot_keeps stable boot now j.sessions.items j consistent (Dict.items_nodup j.sessions)
        (fun item member => Dict.mem_items.mp member) foreign kept
      exact ⟨rules ▸ Rules.Extends.refl _, kept⟩
  | fault reason => exact ⟨{ j with health := some reason }, rfl, unmoved⟩

theorem run_keeps (stable : Stable P) {k : Identity} (ops future : List (Op Time))
    (consistent : j.Consistent) (ordered : KernelOrder (ops ++ future)) (complete : Complete ⟨j, j⟩ (ops ++ future))
    (holds : P (j.view k) (k ∈ ((ops ++ future).flatMap Op.observed).map Prod.fst)) :
    ∃ j', Database.run ⟨j, j⟩ ops = ⟨j', j'⟩ ∧ j'.rules.Extends j.rules ∧ j'.Consistent ∧ Complete ⟨j', j'⟩ future ∧
      P (j'.view k) (k ∈ (future.flatMap Op.observed).map Prod.fst) := by
  induction ops generalizing j with
  | nil => exact ⟨j, rfl, Rules.Extends.refl _, consistent, complete, holds⟩
  | cons op rest ih =>
    obtain ⟨missing, complete⟩ := complete
    have ordered : InOrder (op.observed ++ (rest ++ future).flatMap Op.observed) := ordered
    obtain ⟨next, performed, extended, consistent, kept⟩ := perform_keeps stable consistent op ordered
      (by
        intro lost inside
        obtain ⟨observed, member, named⟩ := List.mem_map.mp inside
        obtain ⟨later, inRest, member⟩ := List.mem_flatMap.mp member
        exact missing k lost later inRest (named ▸ List.mem_map_of_mem member)) holds
    rw [performed] at complete
    obtain ⟨last, ran, extended', done⟩ := ih consistent (List.pairwise_append.mp ordered).2.1 complete kept
    refine ⟨last, ?_, extended'.trans extended, done⟩
    rw [Database.run, List.foldl_cons, performed]
    exact ran

theorem perform_settled (j : Journal Time) (op : Op Time) :
    (∃ text, Database.perform ⟨j, j⟩ op = (⟨j, j⟩, some text)) ∨ ∃ j', Database.perform ⟨j, j⟩ op = (⟨j', j'⟩, none) := by
  have settled : ∀ body : Journal Time → Journal Time × Option String,
      (∃ text, Database.transaction ⟨j, j⟩ body = (⟨j, j⟩, some text)) ∨ ∃ j', Database.transaction ⟨j, j⟩ body = (⟨j', j'⟩, none) := by
    intro body
    obtain failed | ⟨j', -, done⟩ := settled_transaction j body
    · exact .inl failed
    · exact .inr ⟨j', done⟩
  cases op with
  | register rows =>
    simp only [Database.perform]
    exact settled _
  | recordBatch boot rows =>
    simp only [Database.perform]
    exact settled _
  | reconcile boot now rows changes reason =>
    simp only [Database.perform]
    split
    · exact .inl ⟨_, rfl⟩
    · exact settled _
  | recoverBoot boot now =>
    simp only [Database.perform]
    exact settled _
  | fault reason =>
    simp only [Database.perform]
    exact settled _

theorem run_settled (ops : List (Op Time)) (j : Journal Time) : ∃ j', Database.run ⟨j, j⟩ ops = ⟨j', j'⟩ := by
  induction ops generalizing j with
  | nil => exact ⟨j, rfl⟩
  | cons op rest ih =>
    rw [Database.run, List.foldl_cons]
    obtain ⟨text, failed⟩ | ⟨next, done⟩ := perform_settled j op
    · rw [failed]
      exact ih j
    · rw [done]
      exact ih next

/-- In every run in which the kernel tells the story of each session in order, and no session
that a snapshot misses comes back: a session is opened at most once; one whose rule logs ends
and that was in the table is closed once when it has left, and not before; and a call that
raises changes no table. -/
theorem session_accounting (rules : Rules) (ops : List (Op Time)) (ordered : KernelOrder ops)
    (complete : Complete (Database.fresh rules) ops) :
    (∀ k, openings k ((Database.fresh rules).run ops).committed.events ≤ 1) ∧
    (∀ before after, ops = before ++ after → ∀ k s rule,
      ((Database.fresh rules).run before).committed.sessions.lookup k = some s →
      ((Database.fresh rules).run before).committed.rules.entries.lookup s.token = some rule → rule.logging.end = true →
      closings k ((Database.fresh rules).run ops).committed.events =
        if k ∈ ((Database.fresh rules).run ops).committed.sessions then 0 else 1) ∧
    ∀ before op after text, ops = before ++ op :: after →
      (((Database.fresh rules).run before).perform op).2 = some text →
      (((Database.fresh rules).run before).perform op).1 = (Database.fresh rules).run before := by
  refine ⟨?_, ?_, ?_⟩
  · intro k
    rw [← List.append_nil ops] at ordered complete
    obtain ⟨j, ran, -, -, -, fine⟩ := run_keeps (k := k) fine_stable ops [] (fresh_consistent rules) ordered complete
      (fresh_fine rules k _)
    have ran : (Database.fresh rules).run ops = ⟨j, j⟩ := ran
    rw [ran]
    exact fine.1
  · rintro before after rfl k s rule there found logs
    obtain ⟨middle, ran, -, consistent, complete, fine⟩ := run_keeps (k := k) fine_stable before after (fresh_consistent rules) ordered
      complete (fresh_fine rules k _)
    have ran : (Database.fresh rules).run before = ⟨middle, middle⟩ := ran
    rw [ran] at there found
    have stored := (consistent k s there).2.symm.trans found
    cases stored
    have ordered : KernelOrder (after ++ []) := by
      rw [List.append_nil]
      rw [KernelOrder, List.flatMap_append] at ordered
      exact (List.pairwise_append.mp ordered).2.1
    rw [← List.append_nil after] at complete
    -- from here on the session is there and not closed, or left and closed once
    obtain ⟨last, ran', -, -, -, accounted⟩ := run_keeps (k := k) accounted_stable after [] consistent ordered complete
      (.inl ⟨s, there, logs, fine.2.1 (by rw [Journal.view, there]; rfl)⟩)
    have whole : (Database.fresh rules).run (before ++ after) = ⟨last, last⟩ := by
      rw [Database.run, List.foldl_append]
      exact (congrArg (fun db => Database.run db after) ran).trans ran'
    rw [whole]
    rcases accounted with ⟨s', present, -, none'⟩ | ⟨absent, one, -⟩
    · rw [if_pos (AList.lookup_isSome.mp (by rw [show last.sessions.lookup k = some s' from present]; rfl))]
      exact none'
    · rw [if_neg (AList.lookup_eq_none.mp absent)]
      exact one
  · rintro before op after text - raised
    obtain ⟨middle, ran⟩ := run_settled before (⟨rules, ∅, [], none⟩ : Journal Time)
    have ran : (Database.fresh rules).run before = ⟨middle, middle⟩ := ran
    rw [ran] at raised ⊢
    obtain ⟨_, failed⟩ | ⟨_, done⟩ := perform_settled middle op
    · rw [failed]
    · rw [done] at raised
      cases raised

end runs

def sampleTuple : TupleData := ⟨"10.0.0.1", "192.0.2.1", 6, some 40000, some 443, none, none, none⟩

def sampleReply : TupleData := ⟨"192.0.2.1", "10.0.0.1", 6, some 443, some 40000, none, none, none⟩

def sampleEvent (kind : EventKind) (token : Option Nat) : Event :=
  ⟨kind, 7, token, sampleTuple, sampleReply, some ⟨3, 180⟩, some ⟨2, 120⟩, some 14, some 300, 0, some 3⟩

def sampleRules : Rules := ⟨[(2049, ⟨"vsys1", "web", 1, ⟨true, true, none⟩⟩)], by decide⟩

def sampleIdentity : Identity := ⟨"boot", 7, sampleTuple⟩

/-- A start, an update that lacks its token, a snapshot, and the end. -/
def sampleOps : List (Op Int) :=
  [.recordBatch "boot" [(1, sampleEvent .start (some 2049)), (2, sampleEvent .update none)],
    .reconcile "boot" 3 [sampleEvent .update (some 2049)] [] "gap", .recordBatch "boot" [(4, sampleEvent .end none)]]

theorem session_accounting_sample :
    openings sampleIdentity ((Database.fresh sampleRules).run sampleOps).committed.events ≤ 1 ∧
      closings sampleIdentity ((Database.fresh sampleRules).run sampleOps).committed.events = 1 := by
  have ordered : KernelOrder sampleOps := by
    unfold KernelOrder InOrder
    decide +kernel
  have complete : Complete (Database.fresh sampleRules) sampleOps := by
    refine ⟨fun k lost => lost.elim, ?_, fun k lost => lost.elim, trivial⟩
    rintro k ⟨-, live, shown, outside⟩ later member inside
    cases shown
    rw [List.mem_singleton.mp member] at inside
    have here : k = identity "boot" (sampleEvent .end none) := by simpa [Op.observed, observation] using inside
    subst here
    revert outside
    decide +kernel
  obtain ⟨opened, closed, -⟩ := session_accounting sampleRules sampleOps ordered complete
  refine ⟨opened sampleIdentity, ?_⟩
  have stored : (((Database.fresh sampleRules).run (sampleOps.take 1)).committed.sessions.lookup sampleIdentity).map Session.token =
      some 2049 := by
    decide +kernel
  obtain ⟨s, there, token⟩ := Option.map_eq_some_iff.mp stored
  have left : sampleIdentity ∉ ((Database.fresh sampleRules).run sampleOps).committed.sessions := by
    decide +kernel
  have once := closed (sampleOps.take 1) (sampleOps.drop 1) rfl sampleIdentity s ⟨"vsys1", "web", 1, ⟨true, true, none⟩⟩ there
    (by rw [token]; decide +kernel) rfl
  rw [once, if_neg left]

/-- A snapshot that does not show a session which is alive, or shows it without its token, closes
it; the next event opens it again. -/
theorem snapshot_reopens :
    let missing (rows : List Event) : List (Op Int) :=
      [.recordBatch "boot" [(1, sampleEvent .start (some 2049))], .reconcile "boot" 2 rows [] "gap",
        .recordBatch "boot" [(3, sampleEvent .update (some 2049)), (4, sampleEvent .end none)]]
    ∀ rows ∈ [[], [sampleEvent .update none]], KernelOrder (missing rows) ∧
      openings sampleIdentity ((Database.fresh sampleRules).run (missing rows)).committed.events = 2 ∧
      closings sampleIdentity ((Database.fresh sampleRules).run (missing rows)).committed.events = 2 := by
  unfold KernelOrder InOrder
  decide +kernel

end FfnNgfw.Runtime
