import FfnNgfw.Runtime.Journal
import Mathlib.Data.List.Induction

/-!
# The kernel's view after a snapshot

`reconcile` replays the changes that came in while the kernel was dumped over the rows of
the dump. A report without a label counts for nothing, and where a session ends and
starts again, what was reported of it before is dropped.
-/

namespace FfnNgfw.Runtime

variable {Time : Type}

/-! ### What the kernel has reported -/

section reports

variable (boot : String) (rows changes : List Event) (k : Identity)

def replayed : Bool :=
  changes.foldl
    (fun alive row =>
      if identity boot row = k then row.event ≠ .end && (alive || row.token.isSome) else alive)
    (rows.any fun row => identity boot row = k && row.token.isSome)

def takeDump (reports : List Event) (row : Event) : List Event :=
  if identity boot row = k ∧ row.token.isSome then [row] else reports

def takeChange (reports : List Event) (row : Event) : List Event :=
  if identity boot row = k then
    if row.event = .end then [] else if row.token.isSome then reports ++ [row] else reports
  else reports

/-- The reports of a session that count: the last labelled row of the dump and the labelled
changes, since it last ended. -/
def taken : List Event := changes.foldl (takeChange boot k) (rows.foldl (takeDump boot k) [])

/-- The rows of the dump for a session, and the last change of it. -/
def reported : List Event :=
  (rows.filter fun row => identity boot row = k) ++ ((changes.filter fun row => identity boot row = k).getLast?).toList

theorem mem_reported {boot : String} {rows changes : List Event} {k : Identity} {r : Event} (member : r ∈ reported boot rows changes k) :
    r ∈ rows ++ changes ∧ identity boot r = k := by
  rcases List.mem_append.mp member with dump | change
  · obtain ⟨inside, same⟩ := List.mem_filter.mp dump
    exact ⟨List.mem_append_left _ inside, of_decide_eq_true same⟩
  · obtain ⟨inside, same⟩ := List.mem_filter.mp (List.mem_of_getLast? (Option.mem_toList.mp change))
    exact ⟨List.mem_append_right _ inside, of_decide_eq_true same⟩

end reports

def readings : List (Event → Option Nat) :=
  [fun row => row.originalCounters.map Counters.packets, fun row => row.originalCounters.map Counters.bytes,
    fun row => row.replyCounters.map Counters.packets, fun row => row.replyCounters.map Counters.bytes]

def Covered (boot : String) (rows changes : List Event) (k : Identity) : Prop :=
  ∀ r ∈ reported boot rows changes k, ∀ reading ∈ readings, ∀ n, reading r = some n →
    ∃ t ∈ taken boot rows changes k, ∃ m, reading t = some m ∧ n ≤ m

structure TableView (boot : String) (rows changes : List Event) (before after : Journal Time) : Prop where
  live : ∀ k, k ∈ after.sessions ↔ replayed boot rows changes k = true
  known : ∀ k s s', before.sessions.lookup k = some s → after.sessions.lookup k = some s' →
    s'.token = s.token ∧ s'.started = s.started ∧ s'.data.started = s.started
  gap : ∀ k s', after.sessions.lookup k = some s' → s'.data.event = .recovered ∧ s'.data.eventGap = true

/-- The table shows what the kernel has reported: no counter is below one of the dump or of
the last change. -/
structure KernelView (boot : String) (rows changes : List Event) (before after : Journal Time) : Prop
    extends TableView boot rows changes before after where
  counters : ∀ k s', after.sessions.lookup k = some s' → ∀ r ∈ reported boot rows changes k, ∀ reading ∈ readings,
    ∀ n, reading r = some n → ∃ m, reading s'.data.row = some m ∧ n ≤ m

def Peak (row : Event) (reports : List Event) : Prop :=
  ∀ reading ∈ readings, ∀ n, (∃ m, reading row = some m ∧ n ≤ m) ↔ ∃ t ∈ reports, ∃ m, reading t = some m ∧ n ≤ m

theorem Peak.single (row : Event) : Peak row [row] := by
  intro reading _ n
  simp

def merged (row old : Event) : Event :=
  { row with
    originalCounters := newerCounters row.originalCounters old.originalCounters
    replyCounters := newerCounters row.replyCounters old.replyCounters }

theorem newerCounters_le (row old : Option Counters) (field : Counters → Nat)
    (either : field = Counters.packets ∨ field = Counters.bytes)
    (n : Nat) :
    (∃ m, (newerCounters row old).map field = some m ∧ n ≤ m) ↔
      (∃ m, old.map field = some m ∧ n ≤ m) ∨ ∃ m, row.map field = some m ∧ n ≤ m := by
  cases old with
  | none => simp [newerCounters]
  | some values =>
    cases row with
    | none => rcases either with rfl | rfl <;> simp [newerCounters]
    | some more => rcases either with rfl | rfl <;> simp [newerCounters]

theorem Peak.append {row old : Event} {reports : List Event} (peak : Peak old reports) : Peak (merged row old) (reports ++ [row]) := by
  intro reading member n
  have split : (∃ t ∈ reports ++ [row], ∃ m, reading t = some m ∧ n ≤ m) ↔
      (∃ m, reading old = some m ∧ n ≤ m) ∨ ∃ m, reading row = some m ∧ n ≤ m := by
    rw [peak reading member n]
    simp only [List.mem_append, List.mem_singleton]
    constructor
    · rintro ⟨t, inside | rfl, found⟩
      · exact .inl ⟨t, inside, found⟩
      · exact .inr found
    · rintro (⟨t, inside, found⟩ | found)
      · exact ⟨t, .inl inside, found⟩
      · exact ⟨row, .inr rfl, found⟩
  rw [split]
  simp only [readings, List.mem_cons, List.not_mem_nil, or_false] at member
  rcases member with rfl | rfl | rfl | rfl
  · exact newerCounters_le _ _ Counters.packets (.inl rfl) n
  · exact newerCounters_le _ _ Counters.bytes (.inr rfl) n
  · exact newerCounters_le _ _ Counters.packets (.inl rfl) n
  · exact newerCounters_le _ _ Counters.bytes (.inr rfl) n

/-- A session is in the snapshot exactly with the reports of it that count. -/
def Tracks (live : Live) (k : Identity) (reports : List Event) : Prop :=
  match live.lookup k with
  | none => reports = []
  | some (_, row) => reports ≠ [] ∧ Peak row reports

section tracks

variable {boot : String} {rows changes : List Event} {live live' : Live} {k : Identity} {reports : List Event} {row : Event}

theorem tracks_assign {token : Nat} (peak : Peak row reports) (some' : reports ≠ []) :
    Tracks (live.assign k (token, row)) k reports := by
  unfold Tracks
  rw [Dict.lookup_assign, if_pos rfl]
  exact ⟨some', peak⟩

theorem tracks_other {key : Identity} {token : Nat} (tracks : Tracks live k reports) (other : k ≠ key) (row : Event) :
    Tracks (live.assign key (token, row)) k reports := by
  unfold Tracks
  rw [Dict.lookup_assign, if_neg other]
  exact tracks

theorem dumped_tracks (boot : String) (rows : List Event) (k : Identity) :
    Tracks (dumped boot rows) k (rows.foldl (takeDump boot k) []) := by
  refine List.foldl_rel (r := fun live reports => Tracks live k reports) rfl fun row _ live reports tracks => ?_
  unfold takeDump
  cases labelled : row.token with
  | none =>
    rw [if_neg (by simp)]
    exact tracks
  | some token =>
    dsimp only
    by_cases same : identity boot row = k
    · subst same
      rw [if_pos (by simp)]
      exact tracks_assign (.single row) (List.cons_ne_nil _ _)
    · rw [if_neg fun both => same both.1]
      exact tracks_other tracks (Ne.symm same) row

theorem changed_tracks (tracks : Tracks live k reports) (step : changed boot live row = .ok live') :
    Tracks live' k (takeChange boot k reports row) := by
  unfold changed at step
  unfold takeChange
  dsimp only at step
  by_cases ends : row.event = .end
  · rw [if_pos ends] at step
    cases step
    rw [if_pos ends]
    by_cases same : identity boot row = k
    · rw [if_pos same]
      subst same
      unfold Tracks
      rw [AList.lookup_erase]
    · rw [if_neg same]
      unfold Tracks
      rw [AList.lookup_erase_ne (Ne.symm same)]
      exact tracks
  rw [if_neg ends] at step ⊢
  split at step
  · rename_i labelled
    cases step
    simpa [labelled] using tracks
  · rename_i token labelled
    rw [if_pos (show row.token.isSome = true by rw [labelled]; rfl)]
    by_cases same : identity boot row = k
    · subst same
      rw [if_pos rfl]
      unfold Tracks at tracks
      cases there : live.lookup (identity boot row) with
      | none =>
        rw [there] at step tracks
        cases step
        rw [show reports = [] from tracks]
        exact tracks_assign (.single row) (List.cons_ne_nil _ _)
      | some old =>
        rw [there] at step tracks
        dsimp only at step
        split at step
        · cases step
        · cases step
          exact tracks_assign tracks.2.append (by simp)
    · rw [if_neg same]
      split at step
      · cases step
        exact tracks_other tracks (Ne.symm same) row
      · split at step
        · cases step
        · cases step
          exact tracks_other tracks (Ne.symm same) _

theorem liveSessions_tracks (read : liveSessions boot rows changes = .ok live) (k : Identity) :
    Tracks live k (taken boot rows changes k) := by
  unfold liveSessions at read
  unfold taken
  have start := dumped_tracks boot rows k
  generalize dumped boot rows = first at read start
  generalize rows.foldl (takeDump boot k) [] = reports at start
  induction changes generalizing first reports with
  | nil =>
    cases read
    exact start
  | cons row changes ih =>
    rw [List.foldlM_cons] at read
    obtain ⟨next, step, rest⟩ := bind_ok read
    exact ih next rest _ (changed_tracks start step)

theorem replayed_iff (boot : String) (rows changes : List Event) (k : Identity) :
    replayed boot rows changes k = true ↔ taken boot rows changes k ≠ [] := by
  have start : (rows.any fun row => identity boot row = k && row.token.isSome) = true ↔ rows.foldl (takeDump boot k) [] ≠ [] := by
    induction rows using List.reverseRecOn with
    | nil => simp
    | append_singleton rows row ih =>
      rw [List.any_append, List.foldl_append, Bool.or_eq_true, ih]
      simp only [List.any_cons, List.any_nil, Bool.or_false, List.foldl_cons, List.foldl_nil, takeDump]
      by_cases here : identity boot row = k ∧ row.token.isSome
      · simp [here]
      · rw [if_neg here]
        have missed : (decide (identity boot row = k) && row.token.isSome) = false := by
          rw [← Bool.not_eq_true, Bool.and_eq_true, decide_eq_true_eq]
          exact here
        simp [missed]
  refine List.foldl_rel (r := fun (alive : Bool) reports => alive = true ↔ reports ≠ []) start fun row _ alive reports before => ?_
  unfold takeChange
  by_cases same : identity boot row = k
  · rw [if_pos same, if_pos same]
    by_cases ends : row.event = .end
    · simp [ends]
    · rw [if_neg ends]
      cases labelled : row.token.isSome with
      | true => simp [ends]
      | false => simpa [ends] using before
  · rw [if_neg same, if_neg same]
    exact before

end tracks

/-! ### The table -/

section table

variable {boot : String} {now : Time} {rows changes : List Event} {live : Live} {reason : String} {j j' b b' : Journal Time}
  {previous : Dict Identity (Session Time)}

def Stored (previous : Dict Identity (Session Time)) (k : Identity) (token : Nat) (row : Event) (s : Session Time) : Prop :=
  s.token = token ∧ s.data.row = row ∧ s.data.event = .recovered ∧ s.data.eventGap = true ∧ s.data.started = s.started ∧
    s.started = (previous.lookup k).bind Session.started ∧ ∀ old, previous.lookup k = some old → old.token = token

theorem restore_stored {key : Identity} {token : Nat} {row : Event} (step : b.restore boot now previous (key, token, row) = .ok b') :
    (∀ k, k ≠ key → b'.sessions.lookup k = b.sessions.lookup k) ∧
      ∃ s, b'.sessions.lookup key = some s ∧ Stored previous key token row s := by
  unfold Journal.restore at step
  dsimp only at step
  split at step
  · cases step
  · split at step
    · cases step
    · rename_i rule _ kept
      cases step
      refine ⟨fun k other => AList.lookup_insert_ne other, _, AList.lookup_insert _, rfl, rfl, rfl, rfl, rfl, rfl, ?_⟩
      intro old there
      by_contra different
      rw [there] at kept
      exact kept (by simpa using different)

theorem reconciled_stored (done : j.reconciled boot now live reason = (j', none)) (k : Identity) :
    match live.lookup k with
    | none => j'.sessions.lookup k = none
    | some (token, row) => ∃ s, j'.sessions.lookup k = some s ∧ Stored j.sessions k token row s := by
  unfold Journal.reconciled at done
  split at done
  · rename_i after restored
    cases done
    have each := foldlM_invariant
      (fun (done : List (Identity × Nat × Event)) (b : Journal Time) =>
        (∀ k, k ∉ done.map Prod.fst → b.sessions.lookup k = none) ∧
          ((done.map Prod.fst).Nodup → ∀ item ∈ done, ∃ s, b.sessions.lookup item.1 = some s ∧
            Stored j.sessions item.1 item.2.1 item.2.2 s))
      (fun done b item b' holds step => by
        obtain ⟨others, s, there, stored⟩ := restore_stored step
        refine ⟨fun k outside => ?_, fun nodup item' member => ?_⟩
        · rw [List.map_append, List.mem_append, not_or] at outside
          rw [others k fun same => outside.2 (by simp [same])]
          exact holds.1 k outside.1
        · rw [List.map_append, List.nodup_append] at nodup
          rcases List.mem_append.mp member with earlier | last
          · rw [others item'.1 fun same => nodup.2.2 _ (List.mem_map_of_mem earlier) _ (by simp) same]
            exact holds.2 nodup.1 item' earlier
          · rw [List.mem_singleton.mp last]
            exact ⟨s, there, stored⟩)
      ⟨fun k _ => AList.lookup_empty k, by simp⟩ (foldlUntil_none restored)
    cases found : live.lookup k with
    | none =>
      refine each.1 k fun inside => ?_
      obtain ⟨item, member, rfl⟩ := List.mem_map.mp inside
      rw [Dict.mem_items.mp member] at found
      cases found
    | some entry => exact each.2 (Dict.items_nodup live) (k, entry) (Dict.mem_items.mpr found)
  · cases done

end table

section perform

variable [Zero Time] [Sub Time] [Max Time] {boot : String} {now : Time} {rows changes : List Event} {reason : String}
  {db db' : Database Time}

theorem reconcile_stored (done : db.perform (.reconcile boot now rows changes reason) = (db', none)) :
    db'.committed = db'.working ∧ ∀ k,
      (taken boot rows changes k = [] → db'.working.sessions.lookup k = none) ∧
        (taken boot rows changes k ≠ [] → ∃ token row s, db'.working.sessions.lookup k = some s ∧
          Stored db.working.sessions k token row s ∧ Peak row (taken boot rows changes k)) := by
  simp only [Database.perform] at done
  split at done
  · cases done
  · rename_i live read
    unfold Database.transaction at done
    split at done
    · rename_i after body
      cases done
      refine ⟨rfl, fun k => ?_⟩
      have tracks := liveSessions_tracks read k
      have stored := reconciled_stored body k
      unfold Tracks at tracks
      cases found : live.lookup k with
      | none =>
        rw [found] at tracks stored
        exact ⟨fun _ => stored, fun some' => absurd tracks some'⟩
      | some entry =>
        rw [found] at tracks stored
        obtain ⟨s, there, stored⟩ := stored
        exact ⟨fun none' => absurd none' tracks.1, fun _ => ⟨entry.1, entry.2, s, there, stored, tracks.2⟩⟩
    · cases done

theorem reconcile_table (done : db.perform (.reconcile boot now rows changes reason) = (db', none)) :
    TableView boot rows changes db.working db'.working := by
  obtain ⟨-, stored⟩ := reconcile_stored done
  have there (k : Identity) (s' : Session Time) (found : db'.working.sessions.lookup k = some s') :
      ∃ token row, Stored db.working.sessions k token row s' := by
    by_cases none' : taken boot rows changes k = []
    · rw [(stored k).1 none'] at found
      cases found
    · obtain ⟨token, row, s, same, data, -⟩ := (stored k).2 none'
      rw [same] at found
      cases found
      exact ⟨token, row, data⟩
  refine ⟨fun k => ?_, fun k s s' before found => ?_, fun k s' found => ?_⟩
  · rw [replayed_iff, ← AList.lookup_isSome]
    by_cases none' : taken boot rows changes k = []
    · simp [(stored k).1 none', none']
    · obtain ⟨token, row, s, same, -⟩ := (stored k).2 none'
      simp [same, none']
  · obtain ⟨token, row, tokened, -, -, -, data, started, kept⟩ := there k s' found
    rw [before] at started
    exact ⟨tokened.trans (kept s before).symm, started, data.trans started⟩
  · obtain ⟨token, row, -, -, event, gap, -⟩ := there k s' found
    exact ⟨event, gap⟩

/-- The table always has the sessions that are alive, with their start and their token; its
counters are those the kernel reported exactly where no report is above those that count. -/
theorem reconcile_view_iff (done : db.perform (.reconcile boot now rows changes reason) = (db', none)) :
    TableView boot rows changes db.working db'.working ∧
      (KernelView boot rows changes db.working db'.working ↔
        ∀ k, replayed boot rows changes k = true → Covered boot rows changes k) := by
  have table := reconcile_table done
  obtain ⟨-, stored⟩ := reconcile_stored done
  refine ⟨table, fun view k alive r member reading known n shown => ?_, fun covered => ⟨table, ?_⟩⟩
  · obtain ⟨token, row, s, found, ⟨-, data, -⟩, peak⟩ := (stored k).2 ((replayed_iff _ _ _ _).mp alive)
    have held := view.counters k s found r member reading known n shown
    rw [data] at held
    exact (peak reading known n).mp held
  · intro k s' found r member reading known n shown
    have alive := (table.live k).mp (AList.lookup_isSome.mp (by rw [found]; rfl))
    obtain ⟨token, row, s, same, ⟨-, data, -⟩, peak⟩ := (stored k).2 ((replayed_iff _ _ _ _).mp alive)
    rw [same] at found
    cases found
    rw [data]
    exact (peak reading known n).mpr (covered k alive r member reading known n shown)

end perform

def queryReport (token : Option Nat) (packets : Nat) : Event :=
  ⟨.update, 9, token, ⟨"10.0.0.9", "192.0.2.1", 17, some 5353, some 53, none, none, none⟩,
    ⟨"192.0.2.1", "10.0.0.9", 17, some 53, some 5353, none, none, none⟩, some ⟨packets, 80 * packets⟩, none, none, some 30, 0, none⟩

def queryRules : Rules := ⟨[(2049, ⟨"vsys1", "dns", 1, ⟨false, true, none⟩⟩)], by decide⟩

/-- A journal with the session in it takes a dump, over which a labelled change came in. -/
theorem reconcile_view_labelled :
    let db := ((Database.fresh queryRules).perform (.recordBatch "boot" [((1 : Int), queryReport (some 2049) 4)])).1
    let rows := [queryReport (some 2049) 10]
    let changes := [queryReport (some 2049) 20]
    db.working.sessions.lookup (identity "boot" (queryReport none 0)) ≠ none ∧
      KernelView "boot" rows changes db.working (db.perform (.reconcile "boot" 3 rows changes "gap")).1.working := by
  intro db rows changes
  have done : (db.perform (.reconcile "boot" 3 rows changes "gap")).2 = none := by decide +kernel
  refine ⟨by decide +kernel, (reconcile_view_iff (Prod.ext rfl done)).2.mpr fun k _ r member reading _ n shown => ?_⟩
  obtain ⟨inside, rfl⟩ := mem_reported member
  have same : identity "boot" r = identity "boot" (queryReport none 0) := by
    rcases List.mem_append.mp inside with dump | change
    · rw [List.mem_singleton.mp dump]
      rfl
    · rw [List.mem_singleton.mp change]
      rfl
  have counted : taken "boot" rows changes (identity "boot" (queryReport none 0)) = rows ++ changes := by decide +kernel
  rw [same, counted]
  exact ⟨r, inside, n, shown, le_rfl⟩

/-- The last change is not labelled: the session keeps the ten packets of the dump, although
the kernel has reported twenty. -/
theorem unlabelled_change_lost :
    let db : Database Int := Database.fresh queryRules
    let rows := [queryReport (some 2049) 10]
    let changes := [queryReport none 20]
    let done := db.perform (.reconcile "boot" 3 rows changes "gap")
    done.2 = none ∧ ¬ KernelView "boot" rows changes db.working done.1.working := by
  intro db rows changes done
  refine ⟨by decide +kernel, fun view => ?_⟩
  let k := identity "boot" (queryReport none 0)
  have last : queryReport none 20 ∈ reported "boot" rows changes k := by decide +kernel
  have packets : (done.1.working.sessions.lookup k).map (fun s => s.data.row.originalCounters.map Counters.packets) =
      some (some 10) := by
    decide +kernel
  obtain ⟨s', found, ten⟩ := Option.map_eq_some_iff.mp packets
  obtain ⟨m, held, low⟩ := view.counters k s' found _ last _ (List.mem_cons_self ..) 20 rfl
  rw [ten] at held
  cases held
  exact absurd low (by decide)

end FfnNgfw.Runtime
