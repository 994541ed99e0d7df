import FfnNgfw.Plane.Node

/-!
# What a step of a task can do

`advance_moved` says once what a task does at a step: which rows it reads, inserts and
rewrites, and what it does next. The invariants go through its cases.
-/

namespace FfnNgfw.Plane

variable {D : Type}

namespace Net

variable {s : Net D}

theorem tasks_setPhase {t t' : Nat} {phase : Phase} {task : Task} (h : (s.setPhase t phase).tasks[t']? = some task) :
    (t' = t ∧ ∃ before, s.tasks[t]? = some before ∧ task = { before with phase := phase }) ∨ (t' ≠ t ∧ s.tasks[t']? = some task) := by
  simp only [setPhase, List.getElem?_modify] at h
  obtain ⟨before, found, same⟩ := Option.map_eq_some_iff.mp h
  by_cases here : t = t'
  · subst here
    exact .inl ⟨rfl, before, found, by simpa using same.symm⟩
  · refine .inr ⟨Ne.symm here, ?_⟩
    rw [if_neg here] at same
    exact same ▸ found

end Net

/-- Between two steps of a locked part, or asking for the lock of the resource. -/
def Phase.inside : Phase → Bool
  | .wantsResource | .local | .commanding | .resolving | .superseding | .validating | .journaled | .applying => true
  | _ => false

def Request.writes (q : Request) : Bool := q.action ≠ .status && q.action ≠ .refresh

def Resolves (s : Net D) (n : Nat) (q : Request) (id : String) : Prop :=
  get q.payload "request_id" = some (.str id) ∧ ∃ row, (s.journal n).lookup id = some row ∧ row.resource = q.resource ∧
    row.response.state = .unknown

variable (cfg : Nat → Config)

inductive Goes (s : Net D) (n : Nat) (q : Request) : Phase → Prop where
  | commanding : q.action ≠ .apply → q.action ≠ .resolve → Goes s n q .commanding
  | resolving {id : String} : q.action = .resolve → ((cfg n).commands.lookup q.resource).isSome = true → Resolves s n q id →
      Goes s n q .resolving
  | superseding : q.action = .apply → Goes s n q .superseding
  | validating : q.action = .apply → s.unknownRows n q.resource = [] → Goes s n q .validating

variable (digest : Request → D)

/-- Where an answer comes from: it is the node's own and says that nothing was applied or
reconciled, it stands in the journal, or the peer gave it. -/
inductive Answers (s : Net D) (n : Nat) (q : Request) (phase : Phase) (r : Response) : Prop where
  | own : r.state ≠ .applied → r.state ≠ .reconciled → Answers s n q phase r
  | stored {row : Row D} : q.action = .apply → (s.journal n).lookup q.id = some row → row.digest = digest q → r = row.response →
      Answers s n q phase r
  | passed {child : Nat} {probe : Task} {r₀ : Response} : phase = .waiting child → q.action ≠ .apply → s.tasks[child]? = some probe →
      probe.phase = .answered r₀ → r₀.id = some q.id → r = { r₀ with trace := (cfg n).role :: r₀.trace } → Answers s n q phase r

inductive Moved (s : Net D) (t n : Nat) (q : Request) : Phase → Net D → Prop where
  | probes {id : String} : q.action = .inventory →
      Moved s t n q .arrived ((s.spawn (n + 1) ⟨id, inventoryName, .inventory, []⟩).setPhase t (.probing s.tasks.length))
  | relayNew : relays cfg n q.resource = true → q.action = .apply → (s.journal n).lookup q.id = none →
      Moved s t n q .arrived ((s.insert n (rowOf cfg digest n q awaiting)).setPhase t .forwarding)
  | relayOld : relays cfg n q.resource = true →
      (q.action = .apply → ∃ row, (s.journal n).lookup q.id = some row ∧ row.digest = digest q ∧
        row.response.state ≠ .applied ∧ row.response.state ≠ .reconciled) →
      Moved s t n q .arrived (s.setPhase t .forwarding)
  | reads : relays cfg n q.resource = false → q.writes = false → Moved s t n q .arrived (s.setPhase t .wantsResource)
  | queues : relays cfg n q.resource = false → Moved s t n q .arrived (s.setPhase t .wantsLock)
  | forwards : Moved s t n q .forwarding ((s.spawn (n + 1) q).setPhase t (.waiting s.tasks.length))
  | locks : s.lock n = none →
      Moved s t n q .wantsLock { s.setPhase t .wantsResource with lock := Function.update s.lock n (some t) }
  | locksResource {resourceLock : Nat → String → Option Nat} :
      Moved s t n q .wantsResource { s.setPhase t .local with resourceLock := resourceLock }
  | goes {phase : Phase} : Goes cfg s n q phase → Moved s t n q .local (s.setPhase t phase)
  | supersedes {status : Fields} {flags : List (String × Option Json)} {s₁ : Net D} {phase : Phase} :
      s₁ = (s.unknownRows n q.resource).foldl (supersedeRow cfg n status flags) s → phase = .validating →
      s₁.unknownRows n q.resource = [] → Moved s t n q .superseding (s₁.setPhase t phase)
  | blocked {status : Fields} {flags : List (String × Option Json)} {s₁ : Net D} {r : Response} :
      s₁ = (s.unknownRows n q.resource).foldl (supersedeRow cfg n status flags) s → r.state = .rejected →
      Moved s t n q .superseding (s₁.finish t r)
  | inserts : (s.journal n).lookup q.id = none →
      Moved s t n q .validating ((s.insert n (rowOf cfg digest n q interrupted)).setPhase t .journaled)
  | aborts : Moved s t n q .validating (s.leave t .dead)
  | starts : Moved s t n q .journaled ((s.note (.started n q)).setPhase t .applying)
  | ran {result : Fields} {r : Response} : r.state = .applied →
      Moved s t n q .applying ((s.record n q.id r (.ran result)).finish t r)
  | resolves {id : String} {status : Fields} {observed : Json} {resolved r : Response} : get q.payload "request_id" = some (.str id) →
      get q.payload "observed_revision" = some observed → matchesRevision status observed = true →
      resolved = respond cfg n (some id) .reconciled (.obj [("observed_revision", (revisionOf status).getD .null)]) none →
      r = respond cfg n (some q.id) .reconciled resolved.json none →
      Moved s t n q .resolving ((s.record n id resolved (.resolved status observed)).finish t r)
  | delivers {child : Nat} {answered : Task} {r : Response} : q.action = .apply → s.tasks[child]? = some answered →
      answered.phase = .answered r → r.id = some q.id →
      Moved s t n q (.waiting child)
        ((s.record n q.id { r with trace := (cfg n).role :: r.trace } .relayed).finish t { r with trace := (cfg n).role :: r.trace })
  | finishes {phase : Phase} {r : Response} : phase ≠ .dead → (∀ r, phase ≠ .answering r) → (∀ r, phase ≠ .answered r) →
      Answers cfg digest s n q phase r → Moved s t n q phase (s.finish t r)
  | sends {r : Response} :
      Moved s t n q (.answering r) ((s.note (.answered t n q r)).setPhase t (.answered r))

/-! ### Every step -/

section inversion

variable {cfg digest} {s s' : Net D} {t : Nat} {task : Task} {input : Input}

variable {n : Nat} {q : Request}

theorem finishes_own {phase : Phase} {r : Response} (alive : phase ≠ .dead)
    (open' : ∀ r, phase ≠ .answering r) (open'' : ∀ r, phase ≠ .answered r) (notApplied : r.state ≠ .applied)
    (notReconciled : r.state ≠ .reconciled) : Moved cfg digest s t n q phase (s.finish t r) :=
  .finishes alive open' open'' (.own notApplied notReconciled)

variable [DecidableEq D]

theorem relay_moved (h : relays cfg n q.resource = true) :
    Moved cfg digest s t n q .arrived (relay cfg digest s t n q) := by
  unfold relay
  split
  · rename_i other
    exact .relayOld h fun apply => absurd apply other
  · rename_i apply
    simp only [ne_eq, not_not] at apply
    split
    · rename_i row found
      split
      · exact finishes_own (by simp) (by simp) (by simp) (by simp [rejected, respond]) (by simp [rejected, respond])
      · rename_i same
        simp only [ne_eq, not_not] at same
        split
        · exact .finishes (by simp) (by simp) (by simp) (.stored apply found same rfl)
        · rename_i open'
          exact .relayOld h fun _ => ⟨row, found, same, fun x => open' (.inl x), fun x => open' (.inr x)⟩
    · rename_i absent
      exact .relayNew h apply absent

theorem dispatch_moved : Moved cfg digest s t n q .arrived (dispatch cfg digest s t n q) := by
  unfold dispatch
  split
  · exact relay_moved ‹_›
  · rename_i here
    have here : relays cfg n q.resource = false := by simpa using here
    split
    · rename_i reading
      exact .reads here (by rcases reading with h | h <;> simp [Request.writes, h])
    · exact .queues here

omit [DecidableEq D] in
theorem validate_moved (apply : q.action = .apply) (free : s.unknownRows n q.resource = []) :
    Moved cfg digest s t n q .local (validate cfg s t n q) := by
  unfold validate
  split
  · exact .goes (.validating apply free)
  · exact finishes_own (by simp) (by simp) (by simp) (by simp [rejected, respond]) (by simp [rejected, respond])

theorem beginApply_moved (apply : q.action = .apply) :
    Moved cfg digest s t n q .local (beginApply cfg digest s t n q) := by
  unfold beginApply
  split
  · rename_i row found
    split
    · exact finishes_own (by simp) (by simp) (by simp) (by simp [rejected, respond]) (by simp [rejected, respond])
    · rename_i same
      simp only [ne_eq, not_not] at same
      exact .finishes (by simp) (by simp) (by simp) (.stored apply found same rfl)
  · dsimp only
    split
    · rename_i free
      exact validate_moved apply (List.isEmpty_iff.mp free)
    · split
      · exact .goes (.superseding apply)
      · exact finishes_own (by simp) (by simp) (by simp) (by simp [rejected, respond]) (by simp [rejected, respond])

omit [DecidableEq D] in
theorem recover_moved (known : ((cfg n).commands.lookup q.resource).isSome = true)
    (recovers : q.action = .result ∨ q.action = .resolve) :
    Moved cfg digest s t n q .local (recover cfg s t n q) := by
  have refused (detail : String) : Moved cfg digest s t n q .local (s.finish t (rejected cfg n q detail)) :=
    finishes_own (by simp) (by simp) (by simp) (by simp [rejected, respond]) (by simp [rejected, respond])
  unfold recover
  extract_lets allowed
  split
  · rename_i id named
    split
    · exact refused _
    · split
      · exact refused _
      · rename_i row found
        obtain ⟨found, resource⟩ := Option.filter_eq_some_iff.mp found
        split
        · exact finishes_own (by simp) (by simp) (by simp) (by simp [respond]) (by simp [respond])
        · rename_i other
          split
          · exact refused _
          · rename_i unknown
            simp only [ne_eq, not_not] at unknown
            split
            · exact .goes (.resolving (recovers.resolve_left other) known ⟨named, row, found, of_decide_eq_true resource, unknown⟩)
            · exact refused _
  · exact refused _

theorem begin_moved : Moved cfg digest s t n q .local (begin cfg digest s t n q) := by
  have refused (detail : String) : Moved cfg digest s t n q .local (s.finish t (rejected cfg n q detail)) :=
    finishes_own (by simp) (by simp) (by simp) (by simp [rejected, respond]) (by simp [rejected, respond])
  unfold begin
  split
  · exact refused _
  · rename_i known
    split
    · exact recover_moved (by simpa [Option.isSome_iff_ne_none] using known) ‹_›
    · rename_i other
      split
      · exact beginApply_moved ‹_›
      · rename_i notApply
        split
        · exact .goes (.commanding notApply fun h => other (.inr h))
        · exact refused _

omit [DecidableEq D] in
theorem resolve_moved {outcome : Except Failure Json} :
    Moved cfg digest s t n q .resolving (resolve cfg s t n q outcome) := by
  have refused (detail : String) : Moved cfg digest s t n q .resolving (s.finish t (rejected cfg n q detail)) :=
    finishes_own (by simp) (by simp) (by simp) (by simp [rejected, respond]) (by simp [rejected, respond])
  unfold resolve
  split
  · rename_i id observed status named revision _
    split
    · exact .resolves named revision ‹_› rfl rfl
    · exact refused _
  · exact refused _
  · exact refused _

omit [DecidableEq D] in
theorem supersede_moved {outcome : Except Failure Json} {flags : List (String × Option Json)} :
    Moved cfg digest s t n q .superseding (supersede cfg s t n q outcome flags) := by
  unfold supersede
  split
  · exact finishes_own (by simp) (by simp) (by simp) (by simp [rejected, respond]) (by simp [rejected, respond])
  · dsimp only
    split
    · rename_i free
      unfold validate
      split
      · exact .supersedes rfl rfl (List.isEmpty_iff.mp free)
      · exact .blocked rfl rfl
    · exact .blocked rfl rfl

omit [DecidableEq D] in
theorem deliver_moved {n child : Nat} {answered : Task} {r : Response} (found : s.tasks[child]? = some answered)
    (phase : answered.phase = .answered r) : Moved cfg digest s t n q (.waiting child) (deliver cfg s t n q r) := by
  unfold deliver
  split
  · rename_i accepted
    dsimp only
    split
    · exact .delivers ‹_› found phase accepted.1
    · exact .finishes (by simp) (by simp) (by simp) (.passed rfl ‹_› found phase accepted.1 rfl)
  · exact finishes_own (by simp) (by simp) (by simp) (by simp [downstreamUnknown, respond]) (by simp [downstreamUnknown, respond])

theorem advance_moved (h : advance cfg digest s t task input = some s') :
    Moved cfg digest s t task.node task.request task.phase s' := by
  obtain ⟨n, q, phase⟩ := task
  have own {phase : Phase} {r : Response} (alive : phase ≠ .dead) (open' : ∀ r, phase ≠ .answering r)
      (open'' : ∀ r, phase ≠ .answered r) (notApplied : r.state ≠ .applied) (notReconciled : r.state ≠ .reconciled) :
      Moved cfg digest s t n q phase (s.finish t r) := finishes_own alive open' open'' notApplied notReconciled
  unfold advance at h
  dsimp only at h ⊢
  split at h
  · split at h
    · split at h
      · cases h
      · cases h
        exact own (by simp) (by simp) (by simp) (by simp [inventoryOf, respond]) (by simp [inventoryOf, respond])
    · cases h
      exact dispatch_moved
  · split at h
    · rename_i asks
      cases h
      exact .probes asks.1
    · cases h
  · split at h
    · cases h
      exact own (by simp) (by simp) (by simp) (by simp [inventoryOf, respond]) (by simp [inventoryOf, respond])
    · cases h
  · cases h
    exact own (by simp) (by simp) (by simp) (by simp [inventoryOf, respond]) (by simp [inventoryOf, respond])
  · cases h
    exact .forwards
  · cases h
    exact own (by simp) (by simp) (by simp) (by simp [downstreamUnknown, respond]) (by simp [downstreamUnknown, respond])
  · split at h
    · rename_i found
      cases h
      exact deliver_moved found rfl
    · cases h
  · cases h
    exact own (by simp) (by simp) (by simp) (by simp [downstreamUnknown, respond]) (by simp [downstreamUnknown, respond])
  · split at h
    · cases h
      exact .locks ‹_›
    · cases h
  · split at h
    · cases h
      exact .locksResource
    · cases h
  · cases h
    exact begin_moved
  · split at h
    · cases h
      refine own (by simp) (by simp) (by simp) ?_ ?_ <;> simp only [respond] <;> split <;> simp
    · cases h
      exact own (by simp) (by simp) (by simp) (by simp [rejected, respond]) (by simp [rejected, respond])
  · cases h
    exact resolve_moved
  · cases h
    exact supersede_moved
  · split at h
    · cases h
      exact .inserts ‹_›
    · cases h
      exact .aborts
    · cases h
      exact own (by simp) (by simp) (by simp) (by simp [rejected, respond]) (by simp [rejected, respond])
  · split at h
    · cases h
      exact .starts
    · cases h
      exact own (by simp) (by simp) (by simp) (by simp [unknownApply, respond]) (by simp [unknownApply, respond])
  · split at h
    · cases h
      exact .ran rfl
    · cases h
      exact own (by simp) (by simp) (by simp) (by simp [unknownApply, respond]) (by simp [unknownApply, respond])
  · cases h
    exact .sends
  · cases h

end inversion

end FfnNgfw.Plane
