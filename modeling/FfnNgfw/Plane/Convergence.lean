import FfnNgfw.Plane.AtMostOnce

/-!
# Recovery

A row that the leaf has reconciled stays as it is (`Reconciled`). What a resolve tells its
client is such a row; what a relay keeps of the same request is only written by an apply that
goes through it. So the nodes agree after a resolve when the apply was sent to the leaf.
-/

namespace FfnNgfw.Plane

variable {D : Type} {cfg : Nat → Config} {digest : Request → D}

theorem Path.unique {resource : String} {n m m' : Nat} (h : Path cfg resource n m) (h' : Path cfg resource n m') : m = m' := by
  induction h with
  | here stays =>
    cases h' with
    | here _ => rfl
    | next goes _ => cases stays.symm.trans goes
  | next goes _ ih =>
    cases h' with
    | here stays => cases stays.symm.trans goes
    | next _ rest => exact ih rest

theorem Path.le {resource : String} {n m : Nat} (h : Path cfg resource n m) : n ≤ m := by
  induction h with
  | here _ => exact Nat.le_refl _
  | next _ _ ih => omega

variable (cfg digest) in
inductive RowChange (s : Net D) (n : Nat) (q : Request) (phase : Phase) (n' : Nat) (id : String) : Option (Row D) → Prop where
  | same : RowChange s n q phase n' id (s.row n' id)
  | journaled {text : String} : n' = n → id = q.id → q.action = .apply → s.row n q.id = none →
      (relays cfg n q.resource = true → phase = .arrived) →
      RowChange s n q phase n' id (some (rowOf cfg digest n q text))
  | delivered {row : Row D} {child : Nat} {peer : Task} {r : Response} : n' = n → id = q.id → s.row n q.id = some row → row.intent = q →
      relays cfg n row.resource = true → q.action = .apply → phase = .waiting child → s.tasks[child]? = some peer →
      peer.phase = .answered r → RowChange s n q phase n' id (some { row with response := { r with trace := (cfg n).role :: r.trace } })
  | settled {row : Row D} {r : Response} : n' = n → s.row n id = some row → row.response.state = .unknown →
      relays cfg n row.resource = false → (r.state = .reconciled → r.id = some id ∧ r.trace = [(cfg n).role]) →
      RowChange s n q phase n' id (some { row with response := r })

section moves

variable {s s' : Net D} {t n : Nat} {q : Request} {phase : Phase}

theorem superseded_row {status : Fields} {flags : List (String × Option Json)} {items : List (String × Row D)} (n' : Nat) (id : String)
    (distinct : (items.map Prod.fst).Nodup) (rows : ∀ item ∈ items, s.row n item.1 = some item.2) :
    (items.foldl (supersedeRow cfg n status flags) s).row n' id = s.row n' id ∨
      (n' = n ∧ ∃ row r, (id, row) ∈ items ∧ r.id = some id ∧ r.trace = [(cfg n).role] ∧
        (items.foldl (supersedeRow cfg n status flags) s).row n' id = some { row with response := r }) := by
  induction items generalizing s with
  | nil => exact .inl rfl
  | cons item rest ih =>
    obtain ⟨fresh, distinct⟩ := List.nodup_cons.mp distinct
    obtain ⟨there, rows⟩ := List.forall_mem_cons.mp rows
    rw [List.foldl_cons]
    rcases @supersedeRow_cases D cfg n status flags s item with same | ⟨result, flag, same, -⟩
    · rw [same]
      rcases ih distinct rows with kept | ⟨here, row, r, member, found⟩
      · exact .inl kept
      · exact .inr ⟨here, row, r, List.mem_cons_of_mem _ member, found⟩
    · rw [same]
      generalize answer : respond cfg n (some item.1) .reconciled result none = r
      have others : ∀ item' ∈ rest, (s.record n item.1 r (.superseded status flags flag)).row n item'.1 = some item'.2 := by
        intro item' member
        rw [Net.row_record, if_neg]
        · exact rows item' member
        · rintro ⟨-, equal⟩
          exact fresh (equal ▸ List.mem_map_of_mem member)
      rcases ih distinct others with kept | ⟨here, row, r', member, found⟩
      · rw [kept, Net.row_record]
        split
        · rename_i equal
          obtain ⟨rfl, rfl⟩ := equal
          exact .inr ⟨rfl, item.2, r, List.mem_cons_self, by rw [← answer]; rfl, by rw [← answer]; rfl, by rw [there]; rfl⟩
        · exact .inl rfl
      · exact .inr ⟨here, row, r', List.mem_cons_of_mem _ member, found⟩

variable (h : Sound cfg digest s) (mine : s.tasks[t]? = some ⟨n, q, phase⟩) (moved : Moved cfg digest s t n q phase s')

include h mine moved

theorem Moved.rows (n' : Nat) (id : String) : RowChange cfg digest s n q phase n' id (s'.row n' id) := by
  have fair := h.fair t _ mine
  have inserted {text : String} {s' : Net D} (journal : s'.row n' id = (s.insert n (rowOf cfg digest n q text)).row n' id)
      (action : q.action = .apply) (absent : s.row n q.id = none) (first : relays cfg n q.resource = true → phase = .arrived) :
      RowChange cfg digest s n q phase n' id (s'.row n' id) := by
    rw [journal, Net.row_insert]
    split
    · rename_i equal
      exact .journaled equal.1 equal.2 action absent first
    · exact .same
  have superseded {status : Fields} {flags : List (String × Option Json)} (here : relays cfg n q.resource = false) :
      RowChange cfg digest s n q phase n' id
        (((s.unknownRows n q.resource).foldl (supersedeRow cfg n status flags) s).row n' id) := by
    rcases @superseded_row D cfg s n status flags _ n' id (unknownRows_nodup s n q.resource)
      fun item member => (Net.mem_unknownRows.mp member).1 with same | ⟨rfl, row, r, member, name, trace, found⟩
    · rw [same]
      exact .same
    · obtain ⟨there, resource, unknown⟩ := Net.mem_unknownRows.mp member
      rw [found]
      exact .settled rfl there unknown (resource ▸ here) fun _ => ⟨name, trace⟩
  have recorded (id' : String) (r : Response) (cause : Cause) {row : Row D} (there : s.row n id' = some row)
      (unknown : row.response.state = .unknown) (here : relays cfg n row.resource = false)
      (shape : r.state = .reconciled → r.id = some id' ∧ r.trace = [(cfg n).role]) :
      RowChange cfg digest s n q phase n' id ((s.record n id' r cause).row n' id) := by
    rw [Net.row_record]
    split
    · rename_i equal
      obtain ⟨rfl, rfl⟩ := equal
      rw [there]
      exact .settled rfl there unknown here shape
    · exact .same
  cases moved with
  | relayNew away action absent => exact inserted rfl action absent fun _ => rfl
  | inserts absent =>
    refine inserted rfl (fair.validating rfl).1 absent fun away => ?_
    cases (fair.here (.inl rfl)).symm.trans away
  | @supersedes status flags s₁ phase' folded _ _ =>
    have change := @superseded status flags (fair.here (.inl rfl))
    rw [← folded] at change
    exact change
  | @blocked status flags s₁ r folded _ =>
    have change := @superseded status flags (fair.here (.inl rfl))
    rw [← folded] at change
    exact change
  | @ran result r applied =>
    obtain ⟨-, row, found, -, resource, unknown⟩ := fair.applying rfl
    refine recorded q.id r (.ran result) found unknown (by rw [resource]; exact fair.here (.inl rfl)) fun reconciled => ?_
    cases applied.symm.trans reconciled
  | @resolves id' status observed resolved r named _ _ given _ =>
    obtain ⟨-, -, id'', named', row, found, resource, unknown⟩ := fair.resolving rfl
    cases named.symm.trans named'
    refine recorded id' resolved (.resolved status observed) found unknown (by rw [resource]; exact fair.here (.inl rfl)) fun _ => ?_
    exact given ▸ ⟨rfl, rfl⟩
  | @delivers child answered r action found given _ =>
    obtain ⟨away, present⟩ := fair.away (.inr ⟨child, rfl⟩)
    obtain ⟨row, there, intent⟩ := present action
    have away : relays cfg n row.resource = true := by rw [(h.kept.rows _ _ row there).2.1, intent]; exact away
    show RowChange cfg digest s n q _ n' id ((s.record n q.id _ .relayed).row n' id)
    rw [Net.row_record]
    split
    · rename_i equal
      obtain ⟨rfl, rfl⟩ := equal
      rw [there]
      exact .delivered rfl rfl there intent away action rfl found given
    · exact .same
  | _ => exact .same

theorem Moved.tasks {t' : Nat} {task : Task} (found : s'.tasks[t']? = some task) :
    (t' ≠ t ∧ s.tasks[t']? = some task) ∨ (t' = t ∧ task.node = n ∧ task.request = q) ∨
    (s.tasks.length ≤ t' ∧ task.node = n + 1 ∧ task.phase = .arrived ∧
      ((phase = .forwarding ∧ task.request = q) ∨ task.request.action = .inventory)) := by
  have plain (s₁ : Net D) {phase' : Phase} (tasks : s₁.tasks = s.tasks) (found : (s₁.setPhase t phase').tasks[t']? = some task) :
      (t' ≠ t ∧ s.tasks[t']? = some task) ∨ (t' = t ∧ task.node = n ∧ task.request = q) ∨
      (s.tasks.length ≤ t' ∧ task.node = n + 1 ∧ task.phase = .arrived ∧
        ((phase = .forwarding ∧ task.request = q) ∨ task.request.action = .inventory)) := by
    by_cases same : t' = t
    · subst same
      rw [tasks_me (tasks ▸ mine) found]
      exact .inr (.inl ⟨rfl, rfl, rfl⟩)
    · exact .inl ⟨same, tasks ▸ tasks_other same found⟩
  have spawned {q' : Request} {phase' : Phase} (why : (phase = .forwarding ∧ q' = q) ∨ q'.action = .inventory)
      (found : ((s.spawn (n + 1) q').setPhase t phase').tasks[t']? = some task) :
      (t' ≠ t ∧ s.tasks[t']? = some task) ∨ (t' = t ∧ task.node = n ∧ task.request = q) ∨
      (s.tasks.length ≤ t' ∧ task.node = n + 1 ∧ task.phase = .arrived ∧
        ((phase = .forwarding ∧ task.request = q) ∨ task.request.action = .inventory)) := by
    by_cases same : t' = t
    · subst same
      have there : (s.spawn (n + 1) q').tasks[t']? = some ⟨n, q, phase⟩ := by
        simp only [Net.spawn]
        rw [List.getElem?_append_left (List.getElem?_eq_some_iff.mp mine).1]
        exact mine
      rw [tasks_me there found]
      exact .inr (.inl ⟨rfl, rfl, rfl⟩)
    · have found := tasks_other same found
      simp only [Net.spawn] at found
      by_cases old : t' < s.tasks.length
      · rw [List.getElem?_append_left old] at found
        exact .inl ⟨same, found⟩
      · rw [List.getElem?_append_right (by omega)] at found
        cases List.mem_singleton.mp (List.mem_of_getElem? found)
        exact .inr (.inr ⟨by omega, rfl, rfl, why⟩)
  cases moved with
  | probes _ => exact spawned (.inr rfl) found
  | forwards => exact spawned (.inl ⟨rfl, rfl⟩) found
  | @supersedes status flags s₁ phase' folded _ _ | @blocked status flags s₁ r folded _ =>
    have tasks := (@superseded D cfg digest s n status flags _ h.kept (unknownRows_nodup s n q.resource)
      fun item member => (Net.mem_unknownRows.mp member).1).2.2.1
    rw [← folded] at tasks
    exact plain s₁ tasks found
  | relayNew _ _ _ => exact plain (s.insert n (rowOf cfg digest n q awaiting)) rfl found
  | inserts _ => exact plain (s.insert n (rowOf cfg digest n q interrupted)) rfl found
  | starts => exact plain (s.note (.started n q)) rfl found
  | @sends r => exact plain (s.note (.answered t n q r)) rfl found
  | @ran result r _ => exact plain (s.record n q.id r (.ran result)) rfl found
  | @resolves id status observed resolved r _ _ _ _ _ => exact plain (s.record n id resolved (.resolved status observed)) rfl found
  | @delivers child answered r _ _ _ _ =>
    exact plain (s.record n q.id { r with trace := (cfg n).role :: r.trace } .relayed) rfl found
  | _ => exact plain s rfl found

end moves

end FfnNgfw.Plane

/-!
## What the nodes say after a resolve

A reconciled answer to a resolve rests on a row that the leaf has reconciled (`Resolved`), and
that row stays. A later query or retry that reaches the leaf is answered from it; the relays on
the way pass the answer on, and keep it if it is the answer to an apply.
-/

namespace FfnNgfw.Plane

variable {D : Type} {cfg : Nat → Config} {digest : Request → D}

section moves

variable {s s' : Net D} {t n : Nat} {q : Request} {phase : Phase}

theorem superseded_answered {status : Fields} {flags : List (String × Option Json)} {items : List (String × Row D)} {t' n' : Nat}
    {q' : Request} {x : Response} (member : .answered t' n' q' x ∈ (items.foldl (supersedeRow cfg n status flags) s).log) :
    .answered t' n' q' x ∈ s.log := by
  induction items generalizing s with
  | nil => exact member
  | cons item rest ih =>
    have before := ih member
    rcases @supersedeRow_cases D cfg n status flags s item with same | ⟨result, flag, same, -⟩
    · rwa [same] at before
    · rw [same] at before
      simpa [Net.record] using before

theorem Moved.answered (moved : Moved cfg digest s t n q phase s') {t' n' : Nat} {q' : Request} {x : Response}
    (member : .answered t' n' q' x ∈ s'.log) :
    .answered t' n' q' x ∈ s.log ∨ (t' = t ∧ n' = n ∧ q' = q ∧ phase = .answering x) := by
  cases moved with
  | @sends r =>
    rcases List.mem_append.mp member with before | new
    · exact .inl before
    · cases List.mem_singleton.mp new
      exact .inr ⟨rfl, rfl, rfl, rfl⟩
  | @supersedes status flags s₁ phase' folded _ _ =>
    subst folded
    exact .inl (superseded_answered member)
  | @blocked status flags s₁ r folded _ =>
    subst folded
    exact .inl (superseded_answered member)
  | _ => exact .inl (by simpa [Net.spawn, Net.setPhase, Net.insert, Net.note, Net.record, Net.finish, Net.leave] using member)

theorem Moved.grown (h : Sound cfg digest s) (moved : Moved cfg digest s t n q phase s') : s.tasks.length ≤ s'.tasks.length := by
  have folded {status : Fields} {flags : List (String × Option Json)} :
      ((s.unknownRows n q.resource).foldl (supersedeRow cfg n status flags) s).tasks = s.tasks :=
    (@superseded D cfg digest s n status flags _ h.kept (unknownRows_nodup s n q.resource)
      fun item member => (Net.mem_unknownRows.mp member).1).2.2.1
  cases moved with
  | supersedes same _ _ =>
    subst same
    simp [Net.setPhase, folded]
  | blocked same _ =>
    subst same
    simp [Net.setPhase, Net.finish, Net.leave, folded]
  | _ => simp [Net.spawn, Net.setPhase, Net.insert, Net.note, Net.record, Net.finish, Net.leave]

inductive Gives (s s' : Net D) (n : Nat) (q : Request) (phase : Phase) (x : Response) : Prop where
  | had : phase = .answering x → Gives s s' n q phase x
  | other : q.action ≠ .resolve ∨ x.state ≠ .reconciled → Gives s s' n q phase x
  | resolved {id : String} {r : Response} {cause : Cause} : phase = .resolving → get q.payload "request_id" = some (.str id) →
      s'.row = (s.record n id r cause).row → r.state = .reconciled → Gives s s' n q phase x
  | passed {child : Nat} {peer : Task} {r : Response} : phase = .waiting child → s.tasks[child]? = some peer → peer.phase = .answered r →
      r.state = x.state → Gives s s' n q phase x

theorem Moved.gives (h : Sound cfg digest s) (mine : s.tasks[t]? = some ⟨n, q, phase⟩) (moved : Moved cfg digest s t n q phase s')
    {phase' : Phase} {x : Response} (found : s'.tasks[t]? = some ⟨n, q, phase'⟩)
    (given : phase' = .answering x ∨ phase' = .answered x) : Gives s s' n q phase x := by
  have me (s₁ : Net D) {φ : Phase} (there : s₁.tasks[t]? = some ⟨n, q, phase⟩)
      (found : (s₁.setPhase t φ).tasks[t]? = some ⟨n, q, phase'⟩) : φ = .answering x ∨ φ = .answered x := by
    cases tasks_me there found
    exact given
  have spawned {q' : Request} {φ : Phase} (found : ((s.spawn (n + 1) q').setPhase t φ).tasks[t]? = some ⟨n, q, phase'⟩) :
      φ = .answering x ∨ φ = .answered x := by
    refine me (s.spawn (n + 1) q') ?_ found
    simp only [Net.spawn]
    rw [List.getElem?_append_left (List.getElem?_eq_some_iff.mp mine).1]
    exact mine
  have folded {status : Fields} {flags : List (String × Option Json)} :
      ((s.unknownRows n q.resource).foldl (supersedeRow cfg n status flags) s).tasks = s.tasks :=
    (@superseded D cfg digest s n status flags _ h.kept (unknownRows_nodup s n q.resource)
      fun item member => (Net.mem_unknownRows.mp member).1).2.2.1
  cases moved with
  | probes _ => simpa using spawned found
  | forwards => simpa using spawned found
  | relayNew _ _ _ => simpa using me (s.insert n (rowOf cfg digest n q awaiting)) mine found
  | inserts _ => simpa using me (s.insert n (rowOf cfg digest n q interrupted)) mine found
  | starts => simpa using me (s.note (.started n q)) mine found
  | relayOld _ _ => simpa using me s mine found
  | reads _ _ => simpa using me s mine found
  | queues _ => simpa using me s mine found
  | locks _ => simpa using me s mine found
  | locksResource => simpa using me s mine found
  | goes goes =>
    cases goes <;> simpa using me s mine found
  | aborts => simpa using me s mine found
  | @supersedes status flags s₁ _ same phase _ =>
    subst same phase
    simpa using me _ (folded ▸ mine) found
  | @blocked status flags s₁ r same state =>
    subst same
    rcases me _ (folded ▸ mine) found with same | same
    · cases same
      exact .other (.inr (by simp [state]))
    · cases same
  | @ran result r state =>
    rcases me (s.record n q.id r (.ran result)) mine found with same | same
    · cases same
      exact .other (.inr (by simp [state]))
    · cases same
  | @resolves id status observed resolved r named _ _ given' _ =>
    exact .resolved rfl named (show _ = (s.record n id resolved (.resolved status observed)).row from rfl) (given' ▸ rfl)
  | delivers action _ _ _ => exact .other (.inl (by simp [action]))
  | @finishes _ r _ _ _ answers =>
    rcases me s mine found with same | same
    · cases same
      cases answers with
      | own _ state => exact .other (.inr state)
      | stored action _ _ _ => exact .other (.inl (by simp [action]))
      | passed waits _ there gave _ same => exact .passed waits there gave (same ▸ rfl)
    · cases same
  | @sends r =>
    rcases me (s.note (.answered t n q r)) mine found with same | same
    · cases same
    · cases same
      exact .had rfl

end moves

/-! ### What a reconciled answer rests on -/

variable (cfg) in
/-- The row of the request is reconciled at the node that runs the resource. -/
structure Reconciled (s : Net D) (m : Nat) (resource id : String) (row : Row D) : Prop where
  found : s.row m id = some row
  about : row.resource = resource
  state : row.response.state = .reconciled
  stays : relays cfg m resource = false
  runs : ((cfg m).commands.lookup resource).isSome = true

variable (cfg) in
/-- If the answer to a resolve is reconciled, so is the row that it names. -/
def Resolved (s : Net D) (n : Nat) (q : Request) (x : Response) : Prop :=
  q.action = .resolve → x.state = .reconciled → ∃ id m row, get q.payload "request_id" = some (.str id) ∧ Path cfg q.resource n m ∧
    Reconciled cfg s m q.resource id row

variable (cfg) in
structure Recovered (s : Net D) : Prop where
  shape : ∀ n id row, s.row n id = some row → relays cfg n row.resource = false → row.response.state = .reconciled →
    row.response.id = some id ∧ row.response.trace = [(cfg n).role]
  answers : ∀ (t : Nat) task x, s.tasks[t]? = some task → task.phase = .answering x ∨ task.phase = .answered x →
    Resolved cfg s task.node task.request x
  log : ∀ t n q x, .answered t n q x ∈ s.log → t < s.tasks.length ∧ Resolved cfg s n q x

section recovered

variable {s s' : Net D} {t n : Nat} {q : Request} {phase : Phase}

theorem Reconciled.rows {m : Nat} {resource id : String} {row : Row D} (h : Reconciled cfg s m resource id row)
    (same : s'.row m id = s.row m id) : Reconciled cfg s' m resource id row :=
  ⟨same.trans h.found, h.about, h.state, h.stays, h.runs⟩

theorem Reconciled.moved {m : Nat} {resource id : String} {row : Row D} (h : Reconciled cfg s m resource id row)
    (sound : Sound cfg digest s) (mine : s.tasks[t]? = some ⟨n, q, phase⟩) (moved : Moved cfg digest s t n q phase s') :
    Reconciled cfg s' m resource id row := by
  refine h.rows ?_
  have change := moved.rows sound mine m id
  generalize after : s'.row m id = found at change
  cases change with
  | same => rfl
  | journaled here name _ absent _ =>
    subst here name
    cases absent.symm.trans h.found
  | delivered here name there _ away _ _ _ _ =>
    subst here name
    cases there.symm.trans h.found
    rw [h.about] at away
    cases away.symm.trans h.stays
  | settled here there unknown _ _ =>
    subst here
    cases there.symm.trans h.found
    cases unknown.symm.trans h.state

theorem Resolved.mono {x : Response} (h : Resolved cfg s n q x)
    (kept : ∀ m resource id row, Reconciled cfg s m resource id row → Reconciled cfg s' m resource id row) : Resolved cfg s' n q x := by
  intro action state
  obtain ⟨id, m, row, named, path, reconciled⟩ := h action state
  exact ⟨id, m, row, named, path, kept m _ id row reconciled⟩

theorem Recovered.outer (h : Recovered cfg s) (journal : s'.journal = s.journal) (grown : s.tasks.length ≤ s'.tasks.length)
    (answers : ∀ (t : Nat) task x, s'.tasks[t]? = some task → task.phase = .answering x ∨ task.phase = .answered x →
      s.tasks[t]? = some task)
    (log : ∀ t n q x, .answered t n q x ∈ s'.log → .answered t n q x ∈ s.log) : Recovered cfg s' := by
  have rows : s'.row = s.row := by funext n id; simp only [Net.row, journal]
  have kept : ∀ m resource id row, Reconciled cfg s m resource id row → Reconciled cfg s' m resource id row :=
    fun m resource id row before => before.rows (by rw [rows])
  refine ⟨by rw [rows]; exact h.shape, fun t task x found given => ?_, fun t n q x member => ?_⟩
  · exact (h.answers t task x (answers t task x found given) given).mono kept
  · obtain ⟨old, resolved⟩ := h.log t n q x (log t n q x member)
    exact ⟨by omega, resolved.mono kept⟩

theorem Recovered.moved (h : Recovered cfg s) (sound : Sound cfg digest s) (mine : s.tasks[t]? = some ⟨n, q, phase⟩)
    (moved : Moved cfg digest s t n q phase s') (grown : s.tasks.length ≤ s'.tasks.length) : Recovered cfg s' := by
  have fair := sound.fair t _ mine
  have kept : ∀ m resource id row, Reconciled cfg s m resource id row → Reconciled cfg s' m resource id row :=
    fun m resource id row before => before.moved sound mine moved
  refine ⟨fun n' id row found here state => ?_, fun t' task x found given => ?_, fun t' n' q' x member => ?_⟩
  · have change := moved.rows sound mine n' id
    rw [found] at change
    generalize after : some row = found' at change
    cases change with
    | same => exact h.shape n' id row after.symm here state
    | journaled _ _ _ _ _ =>
      cases after
      cases state
    | delivered place _ there _ away _ _ _ _ =>
      cases after
      subst place
      cases here.symm.trans away
    | settled place there _ _ shape =>
      cases after
      subst place
      exact shape state
  · rcases moved.tasks sound mine found with ⟨-, before⟩ | ⟨rfl, rfl, rfl⟩ | ⟨-, -, fresh, -⟩
    · exact (h.answers t' task x before given).mono kept
    · cases moved.gives sound mine found given with
      | had same => exact (h.answers t' _ x mine (.inl same)).mono kept
      | other no => exact fun action state => absurd state (no.resolve_left (not_not_intro action))
      | @resolved id r cause resolving named rows state =>
        intro action _
        obtain ⟨-, runs, id', named', row, there, resource, -⟩ := fair.resolving resolving
        cases named.symm.trans named'
        have stays := fair.here (.inl (by rw [resolving]; rfl))
        refine ⟨id, task.node, { row with response := r }, named, .here stays, ⟨?_, resource, state, stays, runs⟩⟩
        rw [rows, Net.row_record, if_pos ⟨rfl, rfl⟩]
        exact congrArg _ there
      | @passed child peer r waits there gave same =>
        intro action state
        obtain ⟨peer', there', node, request⟩ := fair.child child waits
        cases there.symm.trans there'
        have before := (h.answers child peer r there (.inr gave)).mono kept
        rw [node, request] at before
        obtain ⟨id, m, row, named, path, reconciled⟩ := before action (same.trans state)
        exact ⟨id, m, row, named, .next (fair.away (.inr ⟨child, waits⟩)).1 path, reconciled⟩
    · rcases given with given | given <;> cases fresh.symm.trans given
  · rcases moved.answered member with before | ⟨rfl, rfl, rfl, answering⟩
    · obtain ⟨old, resolved⟩ := h.log t' n' q' x before
      exact ⟨by omega, resolved.mono kept⟩
    · have old := (List.getElem?_eq_some_iff.mp mine).1
      exact ⟨by omega, (h.answers t' _ x mine (.inl answering)).mono kept⟩

theorem Recovered.arrive {q : Request} (h : Recovered cfg s) : Recovered cfg (s.spawn n q) := by
  refine h.outer rfl (by simp [Net.spawn]) (fun t task x found given => ?_) (by simp [Net.spawn])
  simp only [Net.spawn] at found
  by_cases old : t < s.tasks.length
  · rwa [List.getElem?_append_left old] at found
  · rw [List.getElem?_append_right (by omega)] at found
    cases List.mem_singleton.mp (List.mem_of_getElem? found)
    rcases given with given | given <;> cases given

theorem Recovered.crash (h : Recovered cfg s) : Recovered cfg (s.crash n) := by
  refine h.outer rfl (by simp [Net.crash]) (fun t task x found given => ?_) (by simp [Net.crash])
  simp only [Net.crash, List.getElem?_map] at found
  obtain ⟨before, present, same⟩ := Option.map_eq_some_iff.mp found
  split at same
  · subst same
    rcases given with given | given <;> cases given
  · exact same ▸ present

theorem Recovered.step [DecidableEq D] {a : Act} (h : Recovered cfg s) (sound : Sound cfg digest s)
    (step : step cfg digest s a = some s') : Recovered cfg s' := by
  cases a with
  | arrive n raw =>
    simp only [Plane.step] at step
    split at step
    · cases step
      exact h.outer rfl (Nat.le_refl _) (fun _ _ _ found _ => found) (by simp [Net.note])
    · cases step
      exact h.arrive
  | step t input =>
    obtain ⟨task, found, moves⟩ := Option.bind_eq_some_iff.mp step
    have moved := advance_moved moves
    exact h.moved sound found moved (moved.grown sound)
  | crash n =>
    cases step
    exact h.crash

end recovered

/-- An apply that arrives under the id of `q₀` is `q₀`. -/
def Act.Only (q₀ : Request) : Act → Prop
  | .arrive _ raw => ∀ q, check raw = some q → q.action = .apply → q.id = q₀.id → q = q₀
  | _ => True

variable (cfg) in
def Act.Direct (q₀ : Request) : Act → Prop
  | .arrive n raw => ∀ q, check raw = some q → q.action = .apply → q.id = q₀.id → q = q₀ ∧ relays cfg n q₀.resource = false
  | _ => True

variable (cfg) in
structure Unrelayed (q₀ : Request) (s : Net D) : Prop where
  tasks : ∀ (t : Nat) task, s.tasks[t]? = some task → task.request.action = .apply → task.request.id = q₀.id →
    task.request = q₀ ∧ relays cfg task.node q₀.resource = false
  rows : ∀ n row, s.row n q₀.id = some row → row.intent = q₀ ∧ q₀.action = .apply ∧ relays cfg n q₀.resource = false

section unrelayed

variable {s s' : Net D} {t n : Nat} {q q₀ : Request} {phase : Phase}

theorem Unrelayed.moved (h : Unrelayed cfg q₀ s) (sound : Sound cfg digest s) (mine : s.tasks[t]? = some ⟨n, q, phase⟩)
    (moved : Moved cfg digest s t n q phase s') : Unrelayed cfg q₀ s' := by
  have fair := sound.fair t _ mine
  refine ⟨fun t' task found action name => ?_, fun n' row found => ?_⟩
  · rcases moved.tasks sound mine found with ⟨-, before⟩ | ⟨-, node, request⟩ | ⟨-, -, -, ⟨away, request⟩ | probe⟩
    · exact h.tasks t' task before action name
    · rw [request] at action name
      rw [node, request]
      exact h.tasks t _ mine action name
    · rw [request] at action name
      obtain ⟨same, stays⟩ := h.tasks t _ mine action name
      have goes := (fair.away (.inl away)).1
      dsimp only at same stays goes
      rw [same, stays] at goes
      cases goes
    · cases probe.symm.trans action
  · have change := moved.rows sound mine n' q₀.id
    rw [found] at change
    generalize after : some row = found' at change
    cases change with
    | same => exact h.rows n' row after.symm
    | journaled place name action _ _ =>
      cases after
      obtain ⟨same, stays⟩ := h.tasks t _ mine action name.symm
      dsimp only at same stays
      exact ⟨same, same ▸ action, place ▸ stays⟩
    | delivered place name there _ _ _ _ _ _ =>
      cases after
      rw [← name] at there
      obtain ⟨same, action, stays⟩ := h.rows n _ there
      exact ⟨same, action, place ▸ stays⟩
    | settled place there _ _ _ =>
      cases after
      obtain ⟨same, action, stays⟩ := h.rows n _ there
      exact ⟨same, action, place ▸ stays⟩

theorem Unrelayed.step [DecidableEq D] {a : Act} (h : Unrelayed cfg q₀ s) (sound : Sound cfg digest s) (direct : a.Direct cfg q₀)
    (step : step cfg digest s a = some s') : Unrelayed cfg q₀ s' := by
  cases a with
  | arrive n raw =>
    simp only [Plane.step] at step
    split at step
    · cases step
      exact ⟨h.tasks, h.rows⟩
    · rename_i q accepted
      cases step
      refine ⟨fun t task found action name => ?_, h.rows⟩
      simp only [Net.spawn] at found
      by_cases old : t < s.tasks.length
      · rw [List.getElem?_append_left old] at found
        exact h.tasks t task found action name
      · rw [List.getElem?_append_right (by omega)] at found
        cases List.mem_singleton.mp (List.mem_of_getElem? found)
        exact direct q accepted action name
  | step t input =>
    obtain ⟨task, found, moves⟩ := Option.bind_eq_some_iff.mp step
    exact h.moved sound found (advance_moved moves)
  | crash n =>
    cases step
    refine ⟨fun t task found action name => ?_, h.rows⟩
    simp only [Net.crash, List.getElem?_map] at found
    obtain ⟨before, present, same⟩ := Option.map_eq_some_iff.mp found
    split at same
    · subst same
      exact h.tasks t before present action name
    · exact h.tasks t task (same ▸ present) action name

theorem run_unrelayed [DecidableEq D] {acts : List Act} (injective : Function.Injective digest) (sound : Sound cfg digest s)
    (recovered : Recovered cfg s) (h : Unrelayed cfg q₀ s) (direct : ∀ a ∈ acts, a.Direct cfg q₀)
    (done : run cfg digest s acts = some s') : Recovered cfg s' ∧ Unrelayed cfg q₀ s' := by
  induction acts generalizing s with
  | nil =>
    cases done
    exact ⟨recovered, h⟩
  | cons a rest ih =>
    obtain ⟨next, first, later⟩ := Option.bind_eq_some_iff.mp done
    obtain ⟨here, direct⟩ := List.forall_mem_cons.mp direct
    exact ih (sound.step injective first) (recovered.step sound first) (h.step sound here first) direct later

end unrelayed

end FfnNgfw.Plane
