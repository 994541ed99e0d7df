import FfnNgfw.Plane.Moves

/-!
# At most once, and never over an unknown outcome

What each task rests on (`Fair`) is kept while the other tasks move (`Frame`): a task in a
locked part is alone in it, and a relayed apply only touches the row of its own request. With
it every step keeps what the journals and the log say of each other (`Kept`).
-/

namespace FfnNgfw.Plane

variable {D : Type} {cfg : Nat → Config} {digest : Request → D}

namespace Net

variable {s : Net D}

def row (s : Net D) (n : Nat) (id : String) : Option (Row D) := (s.journal n).lookup id

theorem row_insert (n n' : Nat) (row : Row D) (id : String) :
    (s.insert n row).row n' id = if n' = n ∧ id = row.intent.id then some row else s.row n' id := by
  by_cases here : n' = n
  · subst here
    simp [Net.row, insert, Dict.lookup_assign]
  · simp [Net.row, insert, here]

theorem row_record (n n' : Nat) (id id' : String) (r : Response) (cause : Cause) :
    (s.record n id r cause).row n' id' =
      if n' = n ∧ id' = id then (s.row n id).map fun row => { row with response := r } else s.row n' id' := by
  by_cases here : n' = n
  · subst here
    simp only [Net.row, record, Function.update_self, rewrite, true_and]
    cases found : (s.journal n').lookup id with
    | none =>
      by_cases same : id' = id
      · subst same
        simp [found]
      · simp [same]
    | some row =>
      rw [Dict.lookup_assign]
      by_cases same : id' = id
      · simp [same]
      · simp [same]
  · simp [Net.row, record, here]

theorem mem_unknownRows {n : Nat} {resource id : String} {row : Row D} :
    (id, row) ∈ s.unknownRows n resource ↔ s.row n id = some row ∧ row.resource = resource ∧ row.response.state = .unknown := by
  simp [unknownRows, Net.row, List.mem_filter, Dict.mem_items]

theorem unknownRows_nil {n : Nat} {resource : String} :
    s.unknownRows n resource = [] ↔ ∀ id row, s.row n id = some row → row.resource = resource → row.response.state ≠ .unknown := by
  rw [List.eq_nil_iff_forall_not_mem]
  constructor
  · intro none id row found same unknown
    exact none (id, row) (mem_unknownRows.mpr ⟨found, same, unknown⟩)
  · rintro none ⟨id, row⟩ member
    obtain ⟨found, same, unknown⟩ := mem_unknownRows.mp member
    exact none id row found same unknown

end Net

/-- The controller reported success, the revision that was named is the one that the status
shows, or a reboot flag names the identity that the write was bound to. -/
def Cause.Holds (q : Request) : Cause → Prop
  | .ran _ => True
  | .resolved status observed => matchesRevision status observed = true
  | .superseded status flags flag => ∃ bound current, boundIdentity q.payload = some bound ∧ observedIdentity status = some current ∧
      rebooted flags bound current = some flag
  | .relayed => False

def Settled (log : List Event) (n : Nat) (q : Request) : Prop := ∃ r cause, .recorded n q.id r cause ∈ log ∧ cause.Holds q

variable (cfg) in
/-- Requests on the resource that come to `n` are carried out at `m`. -/
inductive Path (resource : String) : Nat → Nat → Prop where
  | here {n : Nat} : relays cfg n resource = false → Path resource n n
  | next {n m : Nat} : relays cfg n resource = true → Path resource (n + 1) m → Path resource n m

variable (cfg) in
/-- The leaf has recorded the request as applied, because its controller did it. -/
def Applied (log : List Event) (n : Nat) (q : Request) : Prop :=
  ∃ m r result, Path cfg q.resource n m ∧ .recorded m q.id r (.ran result) ∈ log ∧ r.state = .applied

def Event.starts (n : Nat) (id : String) : Event → Bool
  | .started n' q => n' = n && q.id = id
  | _ => false

theorem Settled.mono {log log' : List Event} {n : Nat} {q : Request} (h : Settled log n q) (more : log <+: log') : Settled log' n q := by
  obtain ⟨r, cause, member, holds⟩ := h
  exact ⟨r, cause, more.subset member, holds⟩

theorem Applied.mono {log log' : List Event} {n : Nat} {q : Request} (h : Applied cfg log n q) (more : log <+: log') :
    Applied cfg log' n q := by
  obtain ⟨m, r, result, path, member, applied⟩ := h
  exact ⟨m, r, result, path, more.subset member, applied⟩

variable (cfg digest) in
structure Kept (s : Net D) : Prop where
  rows : ∀ n id row, s.row n id = some row → row.intent.id = id ∧ row.resource = row.intent.resource ∧ row.digest = digest row.intent ∧
    .journaled n row.intent ∈ s.log
  journaled : ∀ n q, .journaled n q ∈ s.log → ∃ row, s.row n q.id = some row ∧ row.intent = q
  settled : ∀ n id row, s.row n id = some row → relays cfg n row.resource = false →
    row.response.state = .unknown ∨ Settled s.log n row.intent
  applied : ∀ n id row, s.row n id = some row → row.response.state = .applied → Applied cfg s.log n row.intent
  once : ∀ n id, s.log.countP (Event.starts n id) ≤ 1
  started : ∀ before n q after, s.log = before ++ .started n q :: after → .journaled n q ∈ before ∧
    ∀ q', .journaled n q' ∈ before → q'.resource = q.resource → q' ≠ q → Settled before n q'
  answered : ∀ before t n q r after, s.log = before ++ .answered t n q r :: after → r.state = .applied → Applied cfg before n q

def Pending (s : Net D) (n : Nat) (q : Request) : Prop :=
  ∃ row, s.row n q.id = some row ∧ row.intent = q ∧ row.resource = q.resource ∧ row.response.state = .unknown

variable (cfg) in
structure Fair (s : Net D) (t : Nat) (task : Task) : Prop where
  holds : task.phase.inside = true → task.request.writes = true → s.lock task.node = some t
  here : task.phase.inside = true ∨ task.phase = .wantsLock → relays cfg task.node task.request.resource = false
  away : task.phase = .forwarding ∨ (∃ child, task.phase = .waiting child) → relays cfg task.node task.request.resource = true ∧
    (task.request.action = .apply → ∃ row, s.row task.node task.request.id = some row ∧ row.intent = task.request)
  child : ∀ child : Nat, task.phase = .waiting child → ∃ peer, s.tasks[child]? = some peer ∧ peer.node = task.node + 1 ∧
    peer.request = task.request
  resolving : task.phase = .resolving → task.request.action = .resolve ∧
    ((cfg task.node).commands.lookup task.request.resource).isSome = true ∧ ∃ id, Resolves s task.node task.request id
  superseding : task.phase = .superseding → task.request.action = .apply
  validating : task.phase = .validating → task.request.action = .apply ∧ s.unknownRows task.node task.request.resource = []
  journaled : task.phase = .journaled → task.request.action = .apply ∧
    Pending s task.node task.request ∧
    (∀ q, .started task.node q ∈ s.log → q.id ≠ task.request.id) ∧
    ∀ id row, s.row task.node id = some row → row.resource = task.request.resource → row.response.state = .unknown → id = task.request.id
  applying : task.phase = .applying → task.request.action = .apply ∧ Pending s task.node task.request
  answer : ∀ r, task.phase = .answering r ∨ task.phase = .answered r → r.state = .applied → Applied cfg s.log task.node task.request

theorem fair_arrived {s : Net D} {t n : Nat} {q : Request} : Fair cfg s t ⟨n, q, .arrived⟩ where
  holds := by simp [Phase.inside]
  here := by simp [Phase.inside]
  away := by simp
  child := by simp
  resolving := by simp
  superseding := by simp
  validating := by simp
  journaled := by simp
  applying := by simp
  answer := by simp

theorem fair_dead {s : Net D} {t n : Nat} {q : Request} : Fair cfg s t ⟨n, q, .dead⟩ where
  holds := by simp [Phase.inside]
  here := by simp [Phase.inside]
  away := by simp
  child := by simp
  resolving := by simp
  superseding := by simp
  validating := by simp
  journaled := by simp
  applying := by simp
  answer := by simp

variable (cfg) in
/-- What a step leaves to the other tasks; at a node in `own` it may do more. -/
structure Frame (own : Option Nat) (s s' : Net D) : Prop where
  rows : ∀ n id row, s.row n id = some row → ∃ row', s'.row n id = some row' ∧ row'.intent = row.intent
  same : ∀ n, own ≠ some n → ∀ id row, relays cfg n row.resource = false → (s'.row n id = some row ↔ s.row n id = some row)
  started : ∀ n q, own ≠ some n → .started n q ∈ s'.log → .started n q ∈ s.log
  log : s.log <+: s'.log
  peers : ∀ (child : Nat) peer, s.tasks[child]? = some peer → ∃ peer', s'.tasks[child]? = some peer' ∧ peer'.node = peer.node ∧
    peer'.request = peer.request

theorem Fair.frame {s s' : Net D} {own : Option Nat} {t : Nat} {task : Task} (h : Fair cfg s t task) (frame : Frame cfg own s s')
    (lock : s.lock task.node = some t → s'.lock task.node = some t)
    (apart : task.phase.inside = true → task.request.writes = true → own ≠ some task.node) : Fair cfg s' t task := by
  have kept {q : Request} (found : ∃ row, s.row task.node q.id = some row ∧ row.intent = q) :
      ∃ row, s'.row task.node q.id = some row ∧ row.intent = q := by
    obtain ⟨row, found, same⟩ := found
    obtain ⟨row', found', same'⟩ := frame.rows _ _ _ found
    exact ⟨row', found', same'.trans same⟩
  have pending (inside : task.phase.inside = true) (writes : task.request.writes = true)
      (found : Pending s task.node task.request) : Pending s' task.node task.request := by
    obtain ⟨row, found, intent, resource, unknown⟩ := found
    have here : relays cfg task.node row.resource = false := by rw [resource]; exact h.here (.inl inside)
    exact ⟨row, (frame.same _ (apart inside writes) _ _ here).mpr found, intent, resource, unknown⟩
  refine ⟨fun inside writes => lock (h.holds inside writes), h.here, fun phase => ?_, fun child phase => ?_, fun phase => ?_,
    h.superseding, fun phase => ?_, fun phase => ?_, fun phase => ?_, fun r phase applied => (h.answer r phase applied).mono frame.log⟩
  · exact ⟨(h.away phase).1, fun apply => kept ((h.away phase).2 apply)⟩
  · obtain ⟨peer, found, node, request⟩ := h.child child phase
    obtain ⟨peer', found', node', request'⟩ := frame.peers child peer found
    exact ⟨peer', found', node'.trans node, request'.trans request⟩
  · obtain ⟨action, known, id, named, row, found, resource, unknown⟩ := h.resolving phase
    have inside : task.phase.inside = true := by rw [phase]; rfl
    have writes : task.request.writes = true := by simp [Request.writes, action]
    have here : relays cfg task.node row.resource = false := by rw [resource]; exact h.here (.inl inside)
    exact ⟨action, known, id, named, row, (frame.same _ (apart inside writes) _ _ here).mpr found, resource, unknown⟩
  · obtain ⟨action, free⟩ := h.validating phase
    have inside : task.phase.inside = true := by rw [phase]; rfl
    have writes : task.request.writes = true := by simp [Request.writes, action]
    refine ⟨action, Net.unknownRows_nil.mpr fun id row found resource => ?_⟩
    have here : relays cfg task.node row.resource = false := by rw [resource]; exact h.here (.inl inside)
    exact Net.unknownRows_nil.mp free id row ((frame.same _ (apart inside writes) _ _ here).mp found) resource
  · obtain ⟨action, present, fresh, alone⟩ := h.journaled phase
    have inside : task.phase.inside = true := by rw [phase]; rfl
    have writes : task.request.writes = true := by simp [Request.writes, action]
    refine ⟨action, pending inside writes present, fun q started => fresh q (frame.started _ q (apart inside writes) started), ?_⟩
    intro id row found resource unknown
    have here : relays cfg task.node row.resource = false := by rw [resource]; exact h.here (.inl inside)
    exact alone id row ((frame.same _ (apart inside writes) _ _ here).mp found) resource unknown
  · obtain ⟨action, present⟩ := h.applying phase
    exact ⟨action, pending (by rw [phase]; rfl) (by simp [Request.writes, action]) present⟩

/-! ### Frames -/

section frames

variable {own : Option Nat} {s s₁ s₂ : Net D}

theorem Frame.refl : Frame cfg own s s :=
  ⟨fun _ _ row found => ⟨row, found, rfl⟩, fun _ _ _ _ _ => Iff.rfl, fun _ _ _ h => h, List.prefix_rfl,
    fun _ peer found => ⟨peer, found, rfl, rfl⟩⟩

theorem Frame.trans (first : Frame cfg own s s₁) (second : Frame cfg own s₁ s₂) : Frame cfg own s s₂ := by
  refine ⟨fun n id row found => ?_, fun n other id row here => ?_, fun n q other started => ?_, first.log.trans second.log,
    fun child peer found => ?_⟩
  · obtain ⟨row₁, found₁, same₁⟩ := first.rows n id row found
    obtain ⟨row₂, found₂, same₂⟩ := second.rows n id row₁ found₁
    exact ⟨row₂, found₂, same₂.trans same₁⟩
  · exact (second.same n other id row here).trans (first.same n other id row here)
  · exact first.started n q other (second.started n q other started)
  · obtain ⟨peer₁, found₁, node₁, request₁⟩ := first.peers child peer found
    obtain ⟨peer₂, found₂, node₂, request₂⟩ := second.peers child peer₁ found₁
    exact ⟨peer₂, found₂, node₂.trans node₁, request₂.trans request₁⟩

theorem frame_tasks (journal : s₁.journal = s.journal) (log : s₁.log = s.log)
    (peers : ∀ (child : Nat) peer, s.tasks[child]? = some peer → ∃ peer', s₁.tasks[child]? = some peer' ∧ peer'.node = peer.node ∧
      peer'.request = peer.request) : Frame cfg own s s₁ := by
  have rows : s₁.row = s.row := by funext n id; simp only [Net.row, journal]
  refine ⟨fun n id row found => ⟨row, rows ▸ found, rfl⟩, fun n _ id row _ => by rw [rows], fun n q _ h => log ▸ h,
    log ▸ List.prefix_rfl, peers⟩

theorem peers_setPhase (t : Nat) (phase : Phase) (child : Nat) (peer : Task) (found : s.tasks[child]? = some peer) :
    ∃ peer', (s.setPhase t phase).tasks[child]? = some peer' ∧ peer'.node = peer.node ∧ peer'.request = peer.request := by
  simp only [Net.setPhase, List.getElem?_modify, found]
  by_cases here : t = child
  · exact ⟨_, rfl, by simp [here], by simp [here]⟩
  · exact ⟨_, rfl, by simp [here], by simp [here]⟩

theorem frame_setPhase (t : Nat) (phase : Phase) : Frame cfg own s (s.setPhase t phase) :=
  frame_tasks rfl rfl (peers_setPhase t phase)

theorem frame_leave (t : Nat) (phase : Phase) : Frame cfg own s (s.leave t phase) :=
  frame_tasks rfl rfl (peers_setPhase t phase)

theorem frame_note {e : Event} (journal : s₁.journal = s.journal) (log : s₁.log = s.log ++ [e])
    (quiet : ∀ n q, own ≠ some n → e ≠ .started n q)
    (peers : ∀ (child : Nat) peer, s.tasks[child]? = some peer → s₁.tasks[child]? = some peer) : Frame cfg own s s₁ := by
  have rows : s₁.row = s.row := by funext n id; simp only [Net.row, journal]
  refine ⟨fun n id row found => ⟨row, rows ▸ found, rfl⟩, fun n _ id row _ => by rw [rows], fun n q other h => ?_,
    log ▸ List.prefix_append _ _, fun child peer found => ⟨peer, peers child peer found, rfl, rfl⟩⟩
  rw [log] at h
  rcases List.mem_append.mp h with before | new
  · exact before
  · exact absurd (List.mem_singleton.mp new).symm (quiet n q other)

theorem frame_spawn (n : Nat) (q : Request) : Frame cfg own s (s.spawn n q) := by
  refine frame_note rfl rfl (by simp) fun child peer found => ?_
  simp only [Net.spawn]
  rw [List.getElem?_append_left (List.getElem?_eq_some_iff.mp found).1]
  exact found

theorem mem_log_append {log : List Event} {e e' : Event} (h : e ∈ log ++ [e']) (different : e ≠ e') : e ∈ log := by
  rcases List.mem_append.mp h with before | new
  · exact before
  · exact absurd (List.mem_singleton.mp new) different

theorem frame_insert {n : Nat} {row : Row D} (absent : s.row n row.intent.id = none)
    (away : own ≠ some n → relays cfg n row.resource = true) : Frame cfg own s (s.insert n row) := by
  refine ⟨fun n' id row' found => ?_, fun n' other id row' here => ?_, fun n' q other h => mem_log_append h (by simp),
    List.prefix_append _ _, fun child peer found => ⟨peer, found, rfl, rfl⟩⟩
  · refine ⟨row', ?_, rfl⟩
    rw [Net.row_insert, if_neg]
    · exact found
    · rintro ⟨rfl, rfl⟩
      cases absent.symm.trans found
  · rw [Net.row_insert]
    split
    · rename_i same
      obtain ⟨rfl, rfl⟩ := same
      rw [absent]
      constructor
      · intro equal
        cases equal
        cases (away other).symm.trans here
      · intro equal
        cases equal
    · exact Iff.rfl

theorem frame_record {n : Nat} {id : String} {r : Response} {cause : Cause}
    (away : own ≠ some n → ∀ row, s.row n id = some row → relays cfg n row.resource = true) :
    Frame cfg own s (s.record n id r cause) := by
  refine ⟨fun n' id' row found => ?_, fun n' other id' row here => ?_, fun n' q other h => mem_log_append h (by simp),
    List.prefix_append _ _, fun child peer found => ⟨peer, found, rfl, rfl⟩⟩
  · rw [Net.row_record]
    split
    · rename_i same
      obtain ⟨rfl, rfl⟩ := same
      exact ⟨{ row with response := r }, by rw [found]; rfl, rfl⟩
    · exact ⟨row, found, rfl⟩
  · rw [Net.row_record]
    split
    · rename_i same
      obtain ⟨rfl, rfl⟩ := same
      constructor
      · intro equal
        obtain ⟨before, found, rfl⟩ := Option.map_eq_some_iff.mp equal
        cases (away other before found).symm.trans here
      · intro found
        cases (away other row found).symm.trans here
    · exact Iff.rfl

end frames

/-! ### What the journals and the log say -/

section kept

variable {s s' : Net D}

theorem split_append {log before after : List Event} {e x : Event} (h : log ++ [e] = before ++ x :: after) :
    (x = e ∧ before = log) ∨ ∃ after', log = before ++ x :: after' := by
  rcases List.eq_nil_or_concat after with rfl | ⟨after', last, rfl⟩
  · have same := List.append_inj' h rfl
    exact .inl ⟨(List.cons.inj same.2).1.symm, same.1.symm⟩
  · refine .inr ⟨after', ?_⟩
    have regroup : before ++ x :: after'.concat last = (before ++ x :: after') ++ [last] := by simp
    rw [regroup] at h
    exact (List.append_inj' h rfl).1

theorem Kept.tasks (h : Kept cfg digest s) (journal : s'.journal = s.journal) (log : s'.log = s.log) : Kept cfg digest s' := by
  have rows : s'.row = s.row := by funext n id; simp only [Net.row, journal]
  constructor
  · rw [rows, log]; exact h.rows
  · rw [rows, log]; exact h.journaled
  · rw [rows, log]; exact h.settled
  · rw [rows, log]; exact h.applied
  · rw [log]; exact h.once
  · rw [log]; exact h.started
  · rw [log]; exact h.answered

theorem Kept.note {e : Event} (h : Kept cfg digest s) (journal : s'.journal = s.journal) (log : s'.log = s.log ++ [e])
    (noRow : ∀ n q, e ≠ .journaled n q)
    (starts : ∀ n q, e = .started n q → .journaled n q ∈ s.log ∧ (∀ q', .started n q' ∈ s.log → q'.id ≠ q.id) ∧
      ∀ q', .journaled n q' ∈ s.log → q'.resource = q.resource → q' ≠ q → Settled s.log n q')
    (answers : ∀ t n q r, e = .answered t n q r → r.state = .applied → Applied cfg s.log n q) : Kept cfg digest s' := by
  have rows : s'.row = s.row := by funext n id; simp only [Net.row, journal]
  have more : s.log <+: s'.log := log ▸ List.prefix_append _ _
  refine ⟨fun n id row found => ?_, fun n q member => ?_, fun n id row found here => ?_,
    fun n id row found applied => ?_, fun n id => ?_,
    fun before n q after split => ?_, fun before t n q r after split applied => ?_⟩
  · obtain ⟨same, resource, digest, journaled⟩ := h.rows n id row (rows ▸ found)
    exact ⟨same, resource, digest, more.subset journaled⟩
  · rw [log] at member
    rw [rows]
    exact h.journaled n q (mem_log_append member fun same => noRow n q same.symm)
  · exact (h.settled n id row (rows ▸ found) here).imp_right fun settled => settled.mono more
  · exact (h.applied n id row (rows ▸ found) applied).mono more
  · rw [log, List.countP_append]
    have before := h.once n id
    by_cases new : Event.starts n id e = true
    · cases e with
      | started n' q =>
        simp only [Event.starts, Bool.and_eq_true, decide_eq_true_eq] at new
        obtain ⟨rfl, rfl⟩ := new
        obtain ⟨-, fresh, -⟩ := starts n' q rfl
        have none : s.log.countP (Event.starts n' q.id) = 0 := by
          rw [List.countP_eq_zero]
          intro e member match'
          cases e with
          | started n q' =>
            simp only [Event.starts, Bool.and_eq_true, decide_eq_true_eq] at match'
            obtain ⟨rfl, same⟩ := match'
            exact fresh q' member same
          | _ => cases match'
        rw [none, List.countP_singleton]
        split <;> omega
      | _ => cases new
    · rw [List.countP_singleton, if_neg new]
      omega
  · rw [log] at split
    rcases split_append split with ⟨rfl, rfl⟩ | ⟨after', earlier⟩
    · obtain ⟨journaled, -, others⟩ := starts n q rfl
      exact ⟨journaled, others⟩
    · exact h.started before n q after' earlier
  · rw [log] at split
    rcases split_append split with ⟨rfl, rfl⟩ | ⟨after', earlier⟩
    · exact answers t n q r rfl applied
    · exact h.answered before t n q r after' earlier applied

theorem countP_quiet {log : List Event} {e : Event} {n : Nat} {id : String} (quiet : Event.starts n id e = false) :
    (log ++ [e]).countP (Event.starts n id) = log.countP (Event.starts n id) := by
  rw [List.countP_append, List.countP_singleton, quiet]
  simp

theorem Kept.insert {n : Nat} {q : Request} {text : String} (h : Kept cfg digest s) (absent : s.row n q.id = none) :
    Kept cfg digest (s.insert n (rowOf cfg digest n q text)) := by
  have more : s.log <+: (s.insert n (rowOf cfg digest n q text)).log := List.prefix_append _ _
  have rows (n' : Nat) (id : String) (row : Row D) (found : (s.insert n (rowOf cfg digest n q text)).row n' id = some row) :
      (n' = n ∧ id = q.id ∧ row = rowOf cfg digest n q text) ∨ s.row n' id = some row := by
    rw [Net.row_insert] at found
    split at found
    · rename_i same
      exact .inl ⟨same.1, same.2, (Option.some.inj found).symm⟩
    · exact .inr found
  refine ⟨fun n' id row found => ?_, fun n' q' member => ?_, fun n' id row found here => ?_, fun n' id row found applied => ?_,
    fun n' id => ?_, fun before n' q' after split => ?_, fun before t n' q' r after split applied => ?_⟩
  · rcases rows n' id row found with ⟨rfl, rfl, rfl⟩ | before
    · exact ⟨rfl, rfl, rfl, List.mem_append_right _ (List.mem_singleton.mpr rfl)⟩
    · obtain ⟨same, resource, digest, journaled⟩ := h.rows n' id row before
      exact ⟨same, resource, digest, more.subset journaled⟩
  · rcases List.mem_append.mp member with before | new
    · obtain ⟨row, found, same⟩ := h.journaled n' q' before
      refine ⟨row, ?_, same⟩
      rw [Net.row_insert, if_neg]
      · exact found
      · rintro ⟨rfl, other⟩
        rw [other] at found
        cases absent.symm.trans found
    · cases List.mem_singleton.mp new
      exact ⟨rowOf cfg digest n q text, by rw [Net.row_insert]; simp [rowOf], rfl⟩
  · rcases rows n' id row found with ⟨rfl, rfl, rfl⟩ | before
    · exact .inl rfl
    · exact (h.settled n' id row before here).imp_right fun settled => settled.mono more
  · rcases rows n' id row found with ⟨rfl, rfl, rfl⟩ | before
    · cases applied
    · exact (h.applied n' id row before applied).mono more
  · exact (countP_quiet rfl).trans_le (h.once n' id)
  · rcases split_append split with ⟨same, -⟩ | ⟨after', earlier⟩
    · cases same
    · exact h.started before n' q' after' earlier
  · rcases split_append split with ⟨same, -⟩ | ⟨after', earlier⟩
    · cases same
    · exact h.answered before t n' q' r after' earlier applied

theorem Kept.record {n : Nat} {id : String} {r : Response} {cause : Cause} {row : Row D} (h : Kept cfg digest s)
    (there : s.row n id = some row) (holds : relays cfg n row.resource = false → cause.Holds row.intent)
    (applies : r.state = .applied → Applied cfg (s.log ++ [.recorded n id r cause]) n row.intent) :
    Kept cfg digest (s.record n id r cause) := by
  have more : s.log <+: (s.record n id r cause).log := List.prefix_append _ _
  have rows (n' : Nat) (id' : String) (row' : Row D) (found : (s.record n id r cause).row n' id' = some row') :
      (n' = n ∧ id' = id ∧ row' = { row with response := r }) ∨ s.row n' id' = some row' := by
    rw [Net.row_record] at found
    split at found
    · rename_i same
      rw [there] at found
      exact .inl ⟨same.1, same.2, (Option.some.inj found).symm⟩
    · exact .inr found
  have own := h.rows n id row there
  refine ⟨fun n' id' row' found => ?_, fun n' q member => ?_, fun n' id' row' found here => ?_, fun n' id' row' found applied => ?_,
    fun n' id' => ?_, fun before n' q after split => ?_, fun before t n' q r' after split applied => ?_⟩
  · rcases rows n' id' row' found with ⟨rfl, rfl, rfl⟩ | before
    · exact ⟨own.1, own.2.1, own.2.2.1, more.subset own.2.2.2⟩
    · obtain ⟨same, resource, digest, journaled⟩ := h.rows n' id' row' before
      exact ⟨same, resource, digest, more.subset journaled⟩
  · obtain ⟨before, found, same⟩ := h.journaled n' q (mem_log_append member (by simp))
    rw [Net.row_record]
    split
    · rename_i equal
      obtain ⟨rfl, rfl⟩ := equal
      exact ⟨{ before with response := r }, by rw [found]; rfl, same⟩
    · exact ⟨before, found, same⟩
  · rcases rows n' id' row' found with ⟨rfl, rfl, rfl⟩ | before
    · refine .inr ⟨r, cause, List.mem_append_right _ ?_, holds here⟩
      rw [own.1]
      exact List.mem_singleton.mpr rfl
    · exact (h.settled n' id' row' before here).imp_right fun settled => settled.mono more
  · rcases rows n' id' row' found with ⟨rfl, rfl, rfl⟩ | before
    · exact applies applied
    · exact (h.applied n' id' row' before applied).mono more
  · exact (countP_quiet rfl).trans_le (h.once n' id')
  · rcases split_append split with ⟨same, -⟩ | ⟨after', earlier⟩
    · cases same
    · exact h.started before n' q after' earlier
  · rcases split_append split with ⟨same, -⟩ | ⟨after', earlier⟩
    · cases same
    · exact h.answered before t n' q r' after' earlier applied

end kept

section superseding

variable {s : Net D} {n : Nat} {status : Fields} {flags : List (String × Option Json)}

theorem supersedeRow_cases (s : Net D) (item : String × Row D) : supersedeRow cfg n status flags s item = s ∨
    ∃ result flag, supersedeRow cfg n status flags s item =
        s.record n item.1 (respond cfg n (some item.1) .reconciled result none) (.superseded status flags flag) ∧
      (Cause.superseded status flags flag).Holds item.2.intent := by
  unfold supersedeRow
  split
  · rename_i bound current named observed
    split
    · rename_i flag found
      exact .inr ⟨_, flag, rfl, bound, current, named, observed, found⟩
    · exact .inl rfl
  · exact .inl rfl

theorem unknownRows_nodup (s : Net D) (n : Nat) (resource : String) : ((s.unknownRows n resource).map Prod.fst).Nodup :=
  (Dict.items_nodup _).sublist (List.filter_sublist.map _)

theorem superseded {items : List (String × Row D)} (h : Kept cfg digest s) (distinct : (items.map Prod.fst).Nodup)
    (rows : ∀ item ∈ items, s.row n item.1 = some item.2) :
    Kept cfg digest (items.foldl (supersedeRow cfg n status flags) s) ∧
      Frame cfg (some n) s (items.foldl (supersedeRow cfg n status flags) s) ∧
      (items.foldl (supersedeRow cfg n status flags) s).tasks = s.tasks ∧
      (items.foldl (supersedeRow cfg n status flags) s).lock = s.lock := by
  induction items generalizing s with
  | nil => exact ⟨h, Frame.refl, rfl, rfl⟩
  | cons item rest ih =>
    obtain ⟨fresh, distinct⟩ := List.nodup_cons.mp distinct
    obtain ⟨there, rows⟩ := List.forall_mem_cons.mp rows
    rw [List.foldl_cons]
    rcases @supersedeRow_cases D cfg n status flags s item with same | ⟨result, flag, same, holds⟩
    · rw [same]
      exact ih h distinct rows
    · rw [same]
      generalize answer : respond cfg n (some item.1) .reconciled result none = r
      have state : r.state = .reconciled := by rw [← answer]; rfl
      have kept : Kept cfg digest (s.record n item.1 r (.superseded status flags flag)) :=
        h.record there (fun _ => holds) fun applied => by rw [state] at applied; cases applied
      have frame : Frame cfg (some n) s (s.record n item.1 r (.superseded status flags flag)) :=
        frame_record fun other => absurd rfl other
      have others : ∀ item' ∈ rest, (s.record n item.1 r (.superseded status flags flag)).row n item'.1 = some item'.2 := by
        intro item' member
        rw [Net.row_record, if_neg]
        · exact rows item' member
        · rintro ⟨-, equal⟩
          exact fresh (equal ▸ List.mem_map_of_mem member)
      obtain ⟨kept', frame', tasks, lock⟩ := ih kept distinct others
      exact ⟨kept', frame.trans frame', tasks, lock⟩

end superseding

/-! ### Every step -/

variable (cfg digest) in
structure Sound (s : Net D) : Prop where
  kept : Kept cfg digest s
  fair : ∀ (t : Nat) task, s.tasks[t]? = some task → Fair cfg s t task

section sound

variable {s s' : Net D} {t n : Nat} {q : Request} {phase : Phase}

theorem Sound.others {own : Option Nat} (h : Sound cfg digest s) (mine : s.tasks[t]? = some ⟨n, q, phase⟩) (kept : Kept cfg digest s')
    (frame : Frame cfg own s s') (alone : ∀ m, own = some m → m = n ∧ phase.inside = true ∧ q.writes = true)
    (locks : ∀ t' m, t' ≠ t → s.lock m = some t' → s'.lock m = some t')
    (tasks : ∀ (t' : Nat) task, t' ≠ t → s'.tasks[t']? = some task → s.tasks[t']? = some task ∨ ∃ n q, task = ⟨n, q, .arrived⟩)
    (me : ∀ task, s'.tasks[t]? = some task → Fair cfg s' t task) : Sound cfg digest s' := by
  refine ⟨kept, fun t' task found => ?_⟩
  by_cases same : t' = t
  · subst same
    exact me task found
  · rcases tasks t' task same found with before | ⟨n', q', rfl⟩
    · have fair := h.fair t' task before
      refine fair.frame frame (locks t' task.node same) fun inside writes owns => ?_
      obtain ⟨place, inside', writes'⟩ := alone _ owns
      have first := fair.holds inside writes
      have second := (h.fair t _ mine).holds inside' writes'
      rw [place] at first
      exact same (Option.some.inj (first.symm.trans second))
    · exact fair_arrived

variable {phase' : Phase} {r : Response}

theorem tasks_other {t' : Nat} {task : Task} (other : t' ≠ t) (h : (s.setPhase t phase').tasks[t']? = some task) :
    s.tasks[t']? = some task := by
  rcases Net.tasks_setPhase h with ⟨same, -⟩ | ⟨-, found⟩
  · exact absurd same other
  · exact found

theorem tasks_me {task : Task} (mine : s.tasks[t]? = some ⟨n, q, phase⟩)
    (h : (s.setPhase t phase').tasks[t]? = some task) : task = ⟨n, q, phase'⟩ := by
  rcases Net.tasks_setPhase h with ⟨-, before, found, same⟩ | ⟨other, -⟩
  · cases mine.symm.trans found
    exact same
  · exact absurd rfl other

theorem lock_leave {t' m : Nat} (other : t' ≠ t) (h : s.lock m = some t') : (s.leave t phase').lock m = some t' := by
  simp only [Net.leave]
  rw [if_neg, h]
  rw [h]
  exact fun same => other (Option.some.inj same)

theorem fair_plain (outside : phase'.inside = false) (notWaiting : phase' ≠ .wantsLock) (notAway : phase' ≠ .forwarding)
    (noChild : ∀ child, phase' ≠ .waiting child)
    (answer : ∀ r, phase' = .answering r ∨ phase' = .answered r → r.state = .applied → Applied cfg s.log n q) :
    Fair cfg s t ⟨n, q, phase'⟩ where
  holds := by simp [outside]
  here := by simp [outside, notWaiting]
  away := by simp [notAway, noChild]
  child := by simp [noChild]
  resolving := by rintro rfl; cases outside
  superseding := by rintro rfl; cases outside
  validating := by rintro rfl; cases outside
  journaled := by rintro rfl; cases outside
  applying := by rintro rfl; cases outside
  answer := answer

theorem fair_answering (answer : r.state = .applied → Applied cfg s.log n q) : Fair cfg s t ⟨n, q, .answering r⟩ := by
  refine fair_plain rfl (by simp) (by simp) (by simp) fun r' same => ?_
  rcases same with same | same
  · cases same
    exact answer
  · cases same

theorem fair_inside (inside : phase'.inside = true) (holds : q.writes = true → s.lock n = some t)
    (here : relays cfg n q.resource = false)
    (resolving : phase' = .resolving → q.action = .resolve ∧ ((cfg n).commands.lookup q.resource).isSome = true ∧
      ∃ id, Resolves s n q id)
    (superseding : phase' = .superseding → q.action = .apply)
    (validating : phase' = .validating → q.action = .apply ∧ s.unknownRows n q.resource = [])
    (journaled : phase' = .journaled → q.action = .apply ∧ Pending s n q ∧
      (∀ q', .started n q' ∈ s.log → q'.id ≠ q.id) ∧
      ∀ id row, s.row n id = some row → row.resource = q.resource → row.response.state = .unknown → id = q.id)
    (applying : phase' = .applying → q.action = .apply ∧ Pending s n q) :
    Fair cfg s t ⟨n, q, phase'⟩ where
  holds := fun _ => holds
  here := fun _ => here
  away := by
    rintro (rfl | ⟨child, rfl⟩)
    · cases inside
    · cases inside
  child := by rintro child rfl; cases inside
  resolving := resolving
  superseding := superseding
  validating := validating
  journaled := journaled
  applying := applying
  answer := by
    rintro r (rfl | rfl)
    · cases inside
    · cases inside

variable (h : Sound cfg digest s) (mine : s.tasks[t]? = some ⟨n, q, phase⟩)

include h mine

theorem Sound.setPhase (me : Fair cfg (s.setPhase t phase') t ⟨n, q, phase'⟩) :
    Sound cfg digest (s.setPhase t phase') := by
  have frame : Frame cfg none s (s.setPhase t phase') := frame_setPhase t phase'
  refine h.others mine (h.kept.tasks rfl rfl) frame (by simp) (fun _ _ _ held => held)
    (fun t' task other found => .inl (tasks_other other found)) fun task found => ?_
  rw [tasks_me mine found]
  exact me

theorem Sound.leave (me : Fair cfg (s.leave t phase') t ⟨n, q, phase'⟩) : Sound cfg digest (s.leave t phase') := by
  have frame : Frame cfg none s (s.leave t phase') := frame_leave t phase'
  refine h.others mine (h.kept.tasks rfl rfl) frame (by simp) (fun _ _ other held => lock_leave other held)
    (fun t' task other found => .inl (tasks_other other found)) fun task found => ?_
  rw [tasks_me mine found]
  exact me

theorem Sound.spawn {n' : Nat} {q' : Request}
    (me : Fair cfg ((s.spawn n' q').setPhase t phase') t ⟨n, q, phase'⟩) : Sound cfg digest ((s.spawn n' q').setPhase t phase') := by
  have kept : Kept cfg digest (s.spawn n' q') := h.kept.note rfl rfl (by simp) (by simp) (by simp)
  have there : (s.spawn n' q').tasks[t]? = some ⟨n, q, phase⟩ := by
    simp only [Net.spawn]
    rw [List.getElem?_append_left (List.getElem?_eq_some_iff.mp mine).1]
    exact mine
  have frame : Frame cfg none s ((s.spawn n' q').setPhase t phase') := (frame_spawn n' q').trans (frame_setPhase t phase')
  refine h.others mine (kept.tasks rfl rfl) frame (by simp) (fun _ _ _ held => held) (fun t' task other found => ?_) fun task found => ?_
  · have found := tasks_other other found
    simp only [Net.spawn] at found
    by_cases new : t' < s.tasks.length
    · rw [List.getElem?_append_left new] at found
      exact .inl found
    · rw [List.getElem?_append_right (by omega)] at found
      have first : t' - s.tasks.length = 0 := by
        by_contra later
        rw [List.getElem?_eq_none (by simp; omega)] at found
        cases found
      rw [first] at found
      exact .inr ⟨n', q', (Option.some.inj found).symm⟩
  · rw [tasks_me there found]
    exact me

theorem Sound.insert {text : String} {own : Option Nat} (absent : s.row n q.id = none)
    (away : own ≠ some n → relays cfg n q.resource = true) (alone : ∀ m, own = some m → m = n ∧ phase.inside = true ∧ q.writes = true)
    (me : Fair cfg ((s.insert n (rowOf cfg digest n q text)).setPhase t phase') t ⟨n, q, phase'⟩) :
    Sound cfg digest ((s.insert n (rowOf cfg digest n q text)).setPhase t phase') := by
  have frame : Frame cfg own s (s.insert n (rowOf cfg digest n q text)) := frame_insert absent away
  refine h.others mine ((h.kept.insert absent).tasks rfl rfl) (frame.trans (frame_setPhase t phase')) alone (fun _ _ _ held => held)
    (fun t' task other found => ?_) fun task found => ?_
  · have found : ((s.insert n (rowOf cfg digest n q text)).tasks)[t']? = some task := tasks_other other found
    exact .inl found
  · have there : (s.insert n (rowOf cfg digest n q text)).tasks[t]? = some ⟨n, q, phase⟩ := mine
    rw [tasks_me there found]
    exact me

theorem Sound.record {id : String} {r r' : Response} {cause : Cause} {row : Row D} {own : Option Nat} (there : s.row n id = some row)
    (away : own ≠ some n → relays cfg n row.resource = true) (alone : ∀ m, own = some m → m = n ∧ phase.inside = true ∧ q.writes = true)
    (holds : relays cfg n row.resource = false → cause.Holds row.intent)
    (applies : r.state = .applied → Applied cfg (s.log ++ [.recorded n id r cause]) n row.intent)
    (answers : r'.state = .applied → Applied cfg (s.log ++ [.recorded n id r cause]) n q) :
    Sound cfg digest ((s.record n id r cause).finish t r') := by
  have frame : Frame cfg own s (s.record n id r cause) := by
    refine frame_record fun other row' found => ?_
    cases there.symm.trans found
    exact away other
  have mine' : (s.record n id r cause).tasks[t]? = some ⟨n, q, phase⟩ := mine
  refine h.others mine ((h.kept.record there holds applies).tasks rfl rfl) (frame.trans (frame_leave t _)) alone
    (fun t' m other held => ?_) (fun t' task other found => ?_) fun task found => ?_
  · have held : (s.record n id r cause).lock m = some t' := held
    exact lock_leave other held
  · have found : ((s.record n id r cause).tasks)[t']? = some task := tasks_other other found
    exact .inl found
  · rw [tasks_me mine' found]
    exact fair_answering answers

theorem Sound.answers (injective : Function.Injective digest) (answers : Answers cfg digest s n q phase r)
    (applied : r.state = .applied) : Applied cfg s.log n q := by
  cases answers with
  | own other _ => exact absurd applied other
  | @stored row apply found same equal =>
    obtain ⟨-, -, digest', -⟩ := h.kept.rows n q.id row found
    have intent : row.intent = q := injective (digest'.symm.trans same)
    rw [← intent]
    exact h.kept.applied n q.id row found (equal ▸ applied)
  | @passed child probe r₀ waits _ found answered id equal =>
    obtain ⟨peer, found', node, request⟩ := (h.fair t _ mine).child child waits
    cases found.symm.trans found'
    have below := (h.fair child _ found).answer r₀ (.inr answered) (by rw [equal] at applied; exact applied)
    obtain ⟨m, r', result, path, member, state⟩ := below
    rw [request] at path member
    rw [node] at path
    exact ⟨m, r', result, .next ((h.fair t _ mine).away (.inr ⟨child, waits⟩)).1 path, member, state⟩

theorem Sound.inside (inside : phase.inside = true) (goes : Goes cfg s n q phase') :
    Sound cfg digest (s.setPhase t phase') := by
  have fair := h.fair t _ mine
  refine h.setPhase mine ?_
  have holds : q.writes = true → s.lock n = some t := fair.holds inside
  have here : relays cfg n q.resource = false := fair.here (.inl inside)
  cases goes with
  | commanding _ _ => exact fair_inside rfl holds here (by simp) (by simp) (by simp) (by simp) (by simp)
  | @resolving id action known resolves =>
    exact fair_inside rfl holds here (fun _ => ⟨action, known, id, resolves⟩) (by simp) (by simp) (by simp) (by simp)
  | superseding action => exact fair_inside rfl holds here (by simp) (fun _ => action) (by simp) (by simp) (by simp)
  | validating action free => exact fair_inside rfl holds here (by simp) (by simp) (fun _ => ⟨action, free⟩) (by simp) (by simp)

omit h mine in
theorem writes_apply (action : q.action = .apply) : q.writes = true := by
  simp [Request.writes, action]

theorem Sound.inserts (phase_eq : phase = .validating) (absent : s.row n q.id = none) :
    Sound cfg digest ((s.insert n (rowOf cfg digest n q interrupted)).setPhase t .journaled) := by
  subst phase_eq
  have fair := h.fair t _ mine
  obtain ⟨action, free⟩ := fair.validating rfl
  have alone : ∀ m, some n = some m → m = n ∧ Phase.validating.inside = true ∧ q.writes = true :=
    fun m same => ⟨(Option.some.inj same).symm, rfl, writes_apply action⟩
  refine h.insert mine absent (fun other => absurd rfl other) alone ?_
  refine fair_inside rfl (fair.holds rfl) (fair.here (.inl rfl)) (by simp) (by simp) (by simp) (fun _ => ⟨action, ?_, ?_, ?_⟩) (by simp)
  · refine ⟨rowOf cfg digest n q interrupted, ?_, rfl, rfl, rfl⟩
    show (s.insert n (rowOf cfg digest n q interrupted)).row n q.id = _
    rw [Net.row_insert, if_pos ⟨rfl, rfl⟩]
  · intro q' started same
    have started : .started n q' ∈ s.log := mem_log_append started (by simp)
    obtain ⟨before, after, split⟩ := List.append_of_mem started
    obtain ⟨journaled, -⟩ := h.kept.started before n q' after split
    obtain ⟨row, found, -⟩ := h.kept.journaled n q' (split ▸ List.mem_append_left _ journaled)
    rw [same] at found
    cases absent.symm.trans found
  · intro id row found resource unknown
    have found : (s.insert n (rowOf cfg digest n q interrupted)).row n id = some row := found
    rw [Net.row_insert] at found
    split at found
    · rename_i same
      exact same.2
    · exact absurd unknown (Net.unknownRows_nil.mp free id row found resource)

theorem Sound.starts (phase_eq : phase = .journaled) : Sound cfg digest ((s.note (.started n q)).setPhase t .applying) := by
  subst phase_eq
  have fair := h.fair t _ mine
  obtain ⟨action, pending, fresh, alone⟩ := fair.journaled rfl
  have pending' := pending
  obtain ⟨row, found, intent, -, -⟩ := pending
  have here := fair.here (.inl rfl)
  have intent : row.intent = q := intent
  have journaled : .journaled n q ∈ s.log := intent ▸ (h.kept.rows n q.id row found).2.2.2
  have kept : Kept cfg digest (s.note (.started n q)) := by
    refine h.kept.note rfl rfl (by simp) (fun n' q' same => ?_) (by simp)
    cases same
    refine ⟨journaled, fresh, fun q' journaled' resource different => ?_⟩
    obtain ⟨row', found', rfl⟩ := h.kept.journaled n q' journaled'
    obtain ⟨-, resource', -, -⟩ := h.kept.rows _ _ row' found'
    have here' : relays cfg n row'.resource = false := by rw [resource', resource]; exact here
    rcases h.kept.settled n _ row' found' here' with unknown | settled
    · have same := alone _ row' found' (resource'.trans resource) unknown
      rw [same] at found'
      cases found.symm.trans found'
      exact absurd intent different
    · exact settled
  have frame : Frame cfg (some n) s (s.note (.started n q)) := by
    refine frame_note rfl rfl (fun n' q' other same => ?_) fun _ _ found => found
    cases same
    exact other rfl
  refine h.others mine (kept.tasks rfl rfl) (frame.trans (frame_setPhase t .applying))
    (fun m same => ⟨(Option.some.inj same).symm, rfl, writes_apply action⟩) (fun _ _ _ held => held) (fun t' task other found => ?_)
    fun task found => ?_
  · have found : (s.note (.started n q)).tasks[t']? = some task := tasks_other other found
    exact .inl found
  · have there : (s.note (.started n q)).tasks[t]? = some ⟨n, q, .journaled⟩ := mine
    rw [tasks_me there found]
    exact fair_inside rfl (fair.holds rfl) here (by simp) (by simp) (by simp) (by simp) fun _ => ⟨action, pending'⟩

theorem Sound.supersedes {status : Fields} {flags : List (String × Option Json)} {s₁ s' : Net D}
    (phase_eq : phase = .superseding) (folded : s₁ = (s.unknownRows n q.resource).foldl (supersedeRow cfg n status flags) s)
    (after : s' = s₁.setPhase t phase' ∨ s' = s₁.leave t phase') (me : s₁.lock = s.lock → Fair cfg s' t ⟨n, q, phase'⟩) :
    Sound cfg digest s' := by
  subst phase_eq
  have action := (h.fair t _ mine).superseding rfl
  obtain ⟨kept, frame, tasks, lock⟩ := @superseded D cfg digest s n status flags _ h.kept (unknownRows_nodup s n q.resource)
    fun item member => (Net.mem_unknownRows.mp member).1
  rw [← folded] at kept frame tasks lock
  have mine' : s₁.tasks[t]? = some ⟨n, q, .superseding⟩ := tasks ▸ mine
  have alone : ∀ m, some n = some m → m = n ∧ Phase.superseding.inside = true ∧ q.writes = true :=
    fun m same => ⟨(Option.some.inj same).symm, rfl, writes_apply action⟩
  rcases after with rfl | rfl
  · refine h.others mine (kept.tasks rfl rfl) (frame.trans (frame_setPhase t phase')) alone (fun t' m _ held => ?_)
      (fun t' task other found => .inl (tasks ▸ tasks_other other found)) fun task found => ?_
    · exact (congrFun lock m).trans held
    · rw [tasks_me mine' found]
      exact me lock
  · refine h.others mine (kept.tasks rfl rfl) (frame.trans (frame_leave t phase')) alone (fun t' m other held => ?_)
      (fun t' task other found => .inl (tasks ▸ tasks_other other found)) fun task found => ?_
    · exact lock_leave other ((congrFun lock m).trans held)
    · rw [tasks_me mine' found]
      exact me lock

theorem Sound.ran {result : Fields} (phase_eq : phase = .applying) (state : r.state = .applied) :
    Sound cfg digest ((s.record n q.id r (.ran result)).finish t r) := by
  subst phase_eq
  have fair := h.fair t _ mine
  obtain ⟨action, row, found, intent, -, -⟩ := fair.applying rfl
  have intent : row.intent = q := intent
  have recorded : Applied cfg (s.log ++ [.recorded n q.id r (.ran result)]) n q :=
    ⟨n, r, result, .here (fair.here (.inl rfl)), List.mem_append_right _ (List.mem_singleton.mpr rfl), state⟩
  exact h.record mine found (fun other => absurd rfl other)
    (fun m same => ⟨(Option.some.inj same).symm, rfl, writes_apply action⟩) (fun _ => trivial)
      (fun _ => intent ▸ recorded) fun _ => recorded

theorem Sound.resolves {id : String} {status : Fields} {observed : Json} {resolved r : Response} (phase_eq : phase = .resolving)
    (named : get q.payload "request_id" = some (.str id)) (same : matchesRevision status observed = true)
    (state : resolved.state = .reconciled) (state' : r.state = .reconciled) :
    Sound cfg digest ((s.record n id resolved (.resolved status observed)).finish t r) := by
  subst phase_eq
  obtain ⟨action, -, id', named', row, found, -, -⟩ := (h.fair t _ mine).resolving rfl
  cases named.symm.trans named'
  have writes : q.writes = true := by simp [Request.writes, show q.action = .resolve from action]
  exact h.record mine found (fun other => absurd rfl other) (fun m same => ⟨(Option.some.inj same).symm, rfl, writes⟩) (fun _ => same)
    (fun applied => by rw [state] at applied; cases applied) fun applied => by rw [state'] at applied; cases applied

theorem Sound.delivers {child : Nat} {answered : Task} (phase_eq : phase = .waiting child) (action : q.action = .apply)
    (found : s.tasks[child]? = some answered) (given : answered.phase = .answered r) :
    Sound cfg digest ((s.record n q.id { r with trace := (cfg n).role :: r.trace } .relayed).finish t
      { r with trace := (cfg n).role :: r.trace }) := by
  subst phase_eq
  have fair := h.fair t _ mine
  obtain ⟨away, present⟩ := fair.away (.inr ⟨child, rfl⟩)
  obtain ⟨row, there, intent⟩ := present action
  have intent : row.intent = q := intent
  have resource : row.resource = q.resource := by rw [(h.kept.rows _ _ row there).2.1, intent]
  have away : relays cfg n row.resource = true := by rw [resource]; exact away
  have recorded (applied : r.state = .applied) :
      Applied cfg (s.log ++ [.recorded n q.id { r with trace := (cfg n).role :: r.trace } .relayed]) n q := by
    obtain ⟨peer, found', node, request⟩ := fair.child child rfl
    cases found.symm.trans found'
    obtain ⟨m, r', result, path, member, state⟩ := (h.fair child _ found).answer r (.inr given) applied
    rw [request] at path member
    rw [node] at path
    exact ⟨m, r', result, .next (resource ▸ away) path, List.mem_append_left _ member, state⟩
  have outside : (none : Option Nat) ≠ some n → relays cfg n row.resource = true := fun _ => away
  exact h.record mine there outside (by simp) (fun here => by rw [away] at here; cases here)
    (fun applied => intent ▸ recorded applied) recorded

theorem Sound.moved {s' : Net D} (injective : Function.Injective digest) (moved : Moved cfg digest s t n q phase s') :
    Sound cfg digest s' := by
  have fair := h.fair t _ mine
  cases moved with
  | probes _ => exact h.spawn mine (fair_plain rfl (by simp) (by simp) (by simp) (by simp))
  | relayNew away _ absent =>
    have outside : (none : Option Nat) ≠ some n → relays cfg n q.resource = true := fun _ => away
    refine h.insert mine absent outside (by simp) ?_
    refine ⟨by simp [Phase.inside], by simp [Phase.inside], fun _ => ⟨away, fun _ => ?_⟩, by simp, by simp,
      by simp, by simp, by simp, by simp, by simp⟩
    refine ⟨rowOf cfg digest n q awaiting, ?_, rfl⟩
    show (s.insert n (rowOf cfg digest n q awaiting)).row n q.id = _
    rw [Net.row_insert, if_pos ⟨rfl, rfl⟩]
  | relayOld away present =>
    refine h.setPhase mine ?_
    refine ⟨by simp [Phase.inside], by simp [Phase.inside], fun _ => ⟨away, fun action => ?_⟩, by simp,
      by simp, by simp, by simp, by simp, by simp, by simp⟩
    obtain ⟨row, found, same, -⟩ := present action
    exact ⟨row, found, injective ((h.kept.rows n q.id row found).2.2.1.symm.trans same)⟩
  | reads here reading =>
    refine h.setPhase mine (fair_inside rfl (fun writes => ?_) here (by simp) (by simp) (by simp) (by simp) (by simp))
    rw [reading] at writes
    cases writes
  | queues here =>
    exact h.setPhase mine ⟨by simp [Phase.inside], fun _ => here, by simp, by simp, by simp, by simp, by simp, by simp, by simp, by simp⟩
  | forwards =>
    refine h.spawn mine ?_
    obtain ⟨away, present⟩ := fair.away (.inl rfl)
    refine ⟨by simp [Phase.inside], by simp [Phase.inside], fun _ => ⟨away, present⟩, fun child same => ?_,
      by simp, by simp, by simp, by simp, by simp, by simp⟩
    cases same
    refine peers_setPhase t _ _ ⟨n + 1, q, .arrived⟩ ?_
    simp [Net.spawn]
  | locks free =>
    have frame : Frame cfg none s { s.setPhase t .wantsResource with lock := Function.update s.lock n (some t) } :=
      frame_tasks rfl rfl (peers_setPhase t _)
    refine h.others mine (h.kept.tasks rfl rfl) frame (by simp) (fun t' m other held => ?_)
      (fun t' task other found => .inl (tasks_other other found)) fun task found => ?_
    · dsimp only
      rw [Function.update_of_ne]
      · exact held
      · rintro rfl
        cases free.symm.trans held
    · rw [tasks_me mine found]
      exact fair_inside rfl (fun _ => Function.update_self ..) (fair.here (.inr rfl)) (by simp) (by simp) (by simp) (by simp) (by simp)
  | @locksResource resourceLock =>
    have frame : Frame cfg none s { s.setPhase t .local with resourceLock := resourceLock } :=
      frame_tasks rfl rfl (peers_setPhase t _)
    refine h.others mine (h.kept.tasks rfl rfl) frame (by simp) (fun _ _ _ held => held)
      (fun t' task other found => .inl (tasks_other other found)) fun task found => ?_
    rw [tasks_me mine found]
    exact fair_inside rfl (fair.holds rfl) (fair.here (.inl rfl)) (by simp) (by simp) (by simp) (by simp) (by simp)
  | goes goes => exact h.inside mine rfl goes
  | @supersedes status flags s₁ phase' folded validating free =>
    subst validating
    refine h.supersedes mine rfl folded (.inl rfl) fun lock => ?_
    have action := fair.superseding rfl
    refine fair_inside rfl (fun writes => ?_) (fair.here (.inl rfl)) (by simp) (by simp) (fun _ => ⟨action, free⟩) (by simp) (by simp)
    exact (congrFun lock n).trans (fair.holds rfl writes)
  | @blocked status flags s₁ r folded state =>
    refine h.supersedes mine rfl folded (.inr rfl) fun _ => fair_answering fun applied => ?_
    rw [state] at applied
    cases applied
  | inserts absent => exact h.inserts mine rfl absent
  | aborts => exact h.leave mine fair_dead
  | starts => exact h.starts mine rfl
  | ran state => exact h.ran mine rfl state
  | resolves named _ same resolved answer =>
    exact h.resolves mine rfl named same (by rw [resolved]; rfl) (by rw [answer]; rfl)
  | delivers action found given _ => exact h.delivers mine rfl action found given
  | finishes _ _ _ answers => exact h.leave mine (fair_answering fun applied => h.answers mine injective answers applied)
  | @sends r =>
    have kept : Kept cfg digest (s.note (.answered t n q r)) := by
      refine h.kept.note rfl rfl (by simp) (by simp) fun t' n' q' r' same applied => ?_
      cases same
      exact fair.answer r (.inl rfl) applied
    have frame : Frame cfg none s (s.note (.answered t n q r)) := frame_note rfl rfl (by simp) fun _ _ found => found
    have there : (s.note (.answered t n q r)).tasks[t]? = some ⟨n, q, .answering r⟩ := mine
    refine h.others mine (kept.tasks rfl rfl) (frame.trans (frame_setPhase t _)) (by simp) (fun _ _ _ held => held)
      (fun t' task other found => ?_) fun task found => ?_
    · have found : (s.note (.answered t n q r)).tasks[t']? = some task := tasks_other other found
      exact .inl found
    · rw [tasks_me there found]
      refine fair_plain rfl (by simp) (by simp) (by simp) fun r' same applied => ?_
      rcases same with same | same
      · cases same
      · cases same
        exact (fair.answer r (.inl rfl) applied).mono (List.prefix_append _ _)

end sound

/-! ### Every run -/

section runs

variable {s s' : Net D}

theorem init_sound : Sound cfg digest (Net.init : Net D) := by
  refine ⟨⟨?_, ?_, ?_, ?_, ?_, ?_, ?_⟩, ?_⟩ <;> simp [Net.init, Net.row]

theorem Sound.outer (h : Sound cfg digest s) (kept : Kept cfg digest s') (frame : Frame cfg none s s')
    (tasks : ∀ (t : Nat) task, s'.tasks[t]? = some task →
      (s.tasks[t]? = some task ∧ (s.lock task.node = some t → s'.lock task.node = some t)) ∨ (∃ n q, task = ⟨n, q, .arrived⟩) ∨
      ∃ n q, task = ⟨n, q, .dead⟩) : Sound cfg digest s' := by
  refine ⟨kept, fun t task found => ?_⟩
  rcases tasks t task found with ⟨before, lock⟩ | ⟨n, q, rfl⟩ | ⟨n, q, rfl⟩
  · exact (h.fair t task before).frame frame lock (by simp)
  · exact fair_arrived
  · exact fair_dead

theorem Sound.arrive {n : Nat} {q : Request} (h : Sound cfg digest s) : Sound cfg digest (s.spawn n q) := by
  refine h.outer (h.kept.note rfl rfl (by simp) (by simp) (by simp)) (frame_spawn n q) fun t task found => ?_
  simp only [Net.spawn] at found
  by_cases old : t < s.tasks.length
  · rw [List.getElem?_append_left old] at found
    exact .inl ⟨found, fun held => held⟩
  · rw [List.getElem?_append_right (by omega)] at found
    exact .inr (.inl ⟨n, q, List.mem_singleton.mp (List.mem_of_getElem? found)⟩)

theorem Sound.crash {n : Nat} (h : Sound cfg digest s) : Sound cfg digest (s.crash n) := by
  have frame : Frame cfg none s (s.crash n) := by
    refine frame_tasks rfl rfl fun child peer found => ?_
    simp only [Net.crash, List.getElem?_map, found, Option.map_some]
    split <;> exact ⟨_, rfl, rfl, rfl⟩
  refine h.outer (h.kept.tasks rfl rfl) frame fun t task found => ?_
  simp only [Net.crash, List.getElem?_map] at found
  obtain ⟨before, present, same⟩ := Option.map_eq_some_iff.mp found
  split at same
  · exact .inr (.inr ⟨before.node, before.request, same.symm⟩)
  · rename_i elsewhere
    subst same
    refine .inl ⟨present, fun held => ?_⟩
    simp only [Net.crash]
    rw [Function.update_of_ne elsewhere]
    exact held

variable [DecidableEq D]

theorem Sound.step {a : Act} (injective : Function.Injective digest) (h : Sound cfg digest s) (step : step cfg digest s a = some s') :
    Sound cfg digest s' := by
  cases a with
  | arrive n raw =>
    simp only [Plane.step] at step
    split at step
    · cases step
      refine h.outer (h.kept.note rfl rfl (by simp) (by simp) (by simp)) (frame_note rfl rfl (by simp) fun _ _ found => found)
        fun t task found => .inl ⟨found, fun held => held⟩
    · cases step
      exact h.arrive
  | step t input =>
    obtain ⟨task, found, moves⟩ := Option.bind_eq_some_iff.mp step
    exact h.moved found injective (advance_moved moves)
  | crash n =>
    cases step
    exact h.crash

theorem run_sound {acts : List Act} (injective : Function.Injective digest) (h : Sound cfg digest s)
    (done : run cfg digest s acts = some s') : Sound cfg digest s' := by
  induction acts generalizing s with
  | nil =>
    cases done
    exact h
  | cons a rest ih =>
    obtain ⟨next, first, later⟩ := Option.bind_eq_some_iff.mp done
    exact ih (h.step injective first) later

variable (cfg) in
/-- Each request id starts a controller at most once, for the one request journaled under it,
and only once every earlier apply on the resource has a known outcome; and nobody answers
applied before the leaf has recorded it. -/
structure Orderly (log : List Event) : Prop where
  once : ∀ n id, log.countP (Event.starts n id) ≤ 1
  journaled : ∀ before n q after, log = before ++ .started n q :: after →
    .journaled n q ∈ before ∧ ∀ q', .journaled n q' ∈ log → q'.id = q.id → q' = q
  settled : ∀ before n q after, log = before ++ .started n q :: after →
    ∀ q', .journaled n q' ∈ before → q'.resource = q.resource → q' ≠ q → Settled before n q'
  answered : ∀ before t n q r after, log = before ++ .answered t n q r :: after → r.state = .applied → Applied cfg before n q

/-- In every run of the chain, whatever is lost, retried or crashes, the log is orderly. -/
theorem applies_once {acts : List Act} (injective : Function.Injective digest) (done : run cfg digest Net.init acts = some s) :
    Orderly cfg s.log := by
  have sound : Sound cfg digest s := run_sound injective init_sound done
  refine ⟨sound.kept.once, fun before n q after split => ?_, fun before n q after split => (sound.kept.started before n q after split).2,
    sound.kept.answered⟩
  have journaled := (sound.kept.started before n q after split).1
  refine ⟨journaled, fun q' journaled' same => ?_⟩
  obtain ⟨row, found, rfl⟩ := sound.kept.journaled n q (split ▸ List.mem_append_left _ journaled)
  obtain ⟨row', found', rfl⟩ := sound.kept.journaled n q' journaled'
  rw [same] at found'
  cases found.symm.trans found'
  rfl

end runs

/-! Two planes: an apply is sent through the relay and the leaf crashes under it; it is
resolved at the leaf, and the next apply is carried out. -/

def twoPlanes (n : Nat) : Config :=
  if n = 0 then ⟨.mp, true, ∅⟩ else ⟨.dp, false, (∅ : Dict String (List Action)).assign "network" [.status, .validate, .apply]⟩

def message (action id : String) (payload : Fields) : Json :=
  .obj [("action", .str action), ("id", .str id), ("payload", .obj payload), ("resource", .str "network"), ("v", .int 1)]

def steps (t : Nat) (inputs : List Input) : List Act := inputs.map (.step t)

def firstId : String := "11111111-1111-4111-8111-111111111111"

def secondId : String := "22222222-2222-4222-8222-222222222222"

def thirdId : String := "33333333-3333-4333-8333-333333333333"

def fine (fields : Fields) : Input := .command (.ok (.obj fields))

def crashAndRecover : List Act :=
  .arrive 0 (message "apply" firstId [("revision", .int 0)]) :: steps 0 [.go, .go] ++ steps 1 [.go, .go, .go, .go, fine [], .go] ++
  [.crash 1] ++ steps 0 [.lost, .go] ++
  .arrive 1 (message "resolve" secondId [("observed_revision", .int 1), ("request_id", .str firstId)]) ::
    steps 2 [.go, .go, .go, .go, fine [("revision", .int 1)], .go] ++
  .arrive 0 (message "apply" thirdId [("revision", .int 1)]) :: steps 3 [.go, .go] ++
    steps 4 [.go, .go, .go, .go, fine [], .go, fine [("revision", .int 2)], .go] ++ steps 3 [.go, .go]

def Event.brief : Event → Option (Nat × String × Outcome)
  | .started n q => some (n, q.id, .unknown)
  | .answered _ n q r => some (n, q.id, r.state)
  | _ => none

theorem crashAndRecover_orderly : ∃ s, run twoPlanes id Net.init crashAndRecover = some s ∧
    s.log.filterMap Event.brief = [(1, firstId, .unknown), (0, firstId, .unknown), (1, secondId, .reconciled), (1, thirdId, .unknown),
      (1, thirdId, .applied), (0, thirdId, .applied)] ∧ Orderly twoPlanes s.log := by
  have ends : (run twoPlanes id Net.init crashAndRecover).map (fun s => s.log.filterMap Event.brief) =
      some [(1, firstId, .unknown), (0, firstId, .unknown), (1, secondId, .reconciled), (1, thirdId, .unknown),
        (1, thirdId, .applied), (0, thirdId, .applied)] := by decide +kernel
  obtain ⟨s, done, facts⟩ := Option.map_eq_some_iff.mp ends
  exact ⟨s, done, facts, applies_once Function.injective_id done⟩

end FfnNgfw.Plane
