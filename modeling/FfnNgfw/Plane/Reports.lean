import FfnNgfw.Plane.Convergence

/-!
# Asking again

Once the leaf has reconciled a request, each task that asks for it again goes one way: down the
chain, to the row at the leaf, and back with what the row says. A relay says unknown only if a
reply was lost, or if it refuses the reply because two nodes of the chain have one role.
-/

namespace FfnNgfw.Plane

variable {D : Type} {cfg : Nat → Config} {digest : Request → D}

theorem Path.from {resource : String} {n m k : Nat} (h : Path cfg resource n m) (low : n ≤ k) (high : k ≤ m) :
    Path cfg resource k m := by
  induction h with
  | @here n stays =>
    obtain rfl : k = n := by omega
    exact .here stays
  | @next n m goes rest ih =>
    by_cases first : n = k
    · exact first ▸ .next goes rest
    · exact ih (by omega) high

variable (cfg) in
def roles (m n : Nat) : List Role := (List.range' n (m + 1 - n)).map fun k => (cfg k).role

theorem roles_end (m : Nat) : roles cfg m m = [(cfg m).role] := by
  have one : m + 1 - m = 1 := by omega
  simp [roles, one]

theorem roles_next {m n : Nat} (before : n < m) : roles cfg m n = (cfg n).role :: roles cfg m (n + 1) := by
  have count : m + 1 - n = (m + 1 - (n + 1)) + 1 := by omega
  simp only [roles]
  rw [count, List.range'_succ, List.map_cons]

variable (cfg) in
def Distinct (resource : String) (m : Nat) : Prop :=
  ∀ i j, Path cfg resource i m → Path cfg resource j m → (cfg i).role = (cfg j).role → i = j

theorem four_roles : ∀ a b c d : Role, a ≠ b → a ≠ c → a ≠ d → b ≠ c → b ≠ d → c ≠ d → False := by
  rintro (_ | _ | _) (_ | _ | _) (_ | _ | _) (_ | _ | _) <;> simp

theorem Distinct.short {resource : String} {m n : Nat} (h : Distinct cfg resource m) (path : Path cfg resource n m) : m ≤ n + 2 := by
  by_contra long
  have apart {i j : Nat} (low : n ≤ i) (less : i < j) (high : j ≤ m) : (cfg i).role ≠ (cfg j).role := by
    intro same
    have equal := h i j (path.from low (by omega)) (path.from (by omega) high) same
    omega
  exact four_roles (cfg n).role (cfg (n + 1)).role (cfg (n + 2)).role (cfg (n + 3)).role (apart (by omega) (by omega) (by omega))
    (apart (by omega) (by omega) (by omega)) (apart (by omega) (by omega) (by omega)) (apart (by omega) (by omega) (by omega))
    (apart (by omega) (by omega) (by omega)) (apart (by omega) (by omega) (by omega))

theorem Distinct.taken {resource : String} {m n : Nat} (h : Distinct cfg resource m) (path : Path cfg resource n m) (before : n < m) :
    (roles cfg m (n + 1)).length < 3 ∧ (cfg n).role ∉ roles cfg m (n + 1) := by
  have short := h.short path
  refine ⟨by simp only [roles, List.length_map, List.length_range']; omega, fun member => ?_⟩
  obtain ⟨k, within, same⟩ := List.mem_map.mp member
  obtain ⟨low, high⟩ := List.mem_range'_1.mp within
  have equal := h k n (path.from (by omega) (by omega)) path same
  omega

/-! ### What is reported -/

def Request.Queries (q₀ q : Request) : Prop :=
  q.action = .result ∧ q.resource = q₀.resource ∧ q.payload = [("request_id", .str q₀.id)]

/-- What the answer to a retry or to a query of the request says. -/
structure Reports (q₀ : Request) (reconciled : Response) (q : Request) (x : Response) : Prop where
  retry : q = q₀ → x.state = .reconciled ∧ x.result = reconciled.result
  query : q₀.Queries q → x.state = .observed ∧ x.result = reconciled.json

section later

variable (cfg) (N m : Nat) (row : Row D) (q₀ : Request) (excuse : Prop)

structure Told (n : Nat) (q : Request) (x : Response) : Prop where
  id : x.id = some q.id
  trace : x.trace = roles cfg m n
  reports : Reports q₀ row.response q x

def Good (n : Nat) (q : Request) (x : Response) : Prop := Told cfg m row q₀ n q x ∨ (excuse ∧ x.state = .unknown)

def Expected (n : Nat) (q : Request) : Phase → Prop
  | .arrived | .forwarding | .wantsLock | .wantsResource | .local | .dead => True
  | .waiting child => N ≤ child
  | .answering x | .answered x => Good cfg m row q₀ excuse n q x
  | _ => False

/-- What holds from the answer to the resolve on; the tasks from `N` on came later. -/
structure Tracked (s : Net D) : Prop where
  action : q₀.action = .apply
  shape : row.response.id = some q₀.id ∧ row.response.trace = [(cfg m).role]
  leaf : Reconciled cfg s m q₀.resource q₀.id row
  grown : N ≤ s.tasks.length
  tasks : ∀ (t : Nat) task, s.tasks[t]? = some task → task.request.action = .apply → task.request.id = q₀.id →
    task.request = q₀ ∧ (relays cfg task.node q₀.resource = true → N ≤ t)
  rows : ∀ n row', s.row n q₀.id = some row' → row'.intent = q₀ ∧ (Path cfg q₀.resource n m → relays cfg n q₀.resource = true →
    row'.response.state = .unknown ∨ Told cfg m row q₀ n q₀ row'.response)
  phases : ∀ (t : Nat) task, s.tasks[t]? = some task → N ≤ t → Path cfg q₀.resource task.node m →
    task.request = q₀ ∨ q₀.Queries task.request → Expected cfg N m row q₀ excuse task.node task.request task.phase
  log : ∀ t n q x, .answered t n q x ∈ s.log → N ≤ t → Path cfg q₀.resource n m → q = q₀ ∨ q₀.Queries q →
    Good cfg m row q₀ excuse n q x

end later

section told

variable {N m n t : Nat} {row : Row D} {q₀ q : Request} {excuse : Prop} {x : Response} {s s' : Net D}

theorem Told.up (h : Told cfg m row q₀ (n + 1) q x) (before : n < m) :
    Told cfg m row q₀ n q { x with trace := (cfg n).role :: x.trace } :=
  ⟨h.id, by rw [roles_next before, ← h.trace], ⟨h.reports.retry, h.reports.query⟩⟩

theorem Good.up (h : Good cfg m row q₀ excuse (n + 1) q x) (before : n < m) :
    Good cfg m row q₀ excuse n q { x with trace := (cfg n).role :: x.trace } := by
  rcases h with told | ⟨excused, unknown⟩
  · exact .inl (told.up before)
  · exact .inr ⟨excused, unknown⟩

theorem Tracked.retried (h : Tracked cfg N m row q₀ excuse s) : Told cfg m row q₀ m q₀ row.response := by
  refine ⟨h.shape.1, by rw [roles_end, h.shape.2], fun _ => ⟨h.leaf.state, rfl⟩, fun query => ?_⟩
  cases query.1.symm.trans h.action

theorem Tracked.queried (h : Tracked cfg N m row q₀ excuse s) :
    Told cfg m row q₀ m q (respond cfg m (some q.id) .observed row.response.json none) ∨ ¬ q₀.Queries q := by
  by_cases query : q₀.Queries q
  · refine .inl ⟨rfl, by rw [roles_end]; rfl, fun same => ?_, fun _ => ⟨rfl, rfl⟩⟩
    rw [same] at query
    cases query.1.symm.trans h.action
  · exact .inr query

variable [DecidableEq D]

theorem Tracked.begins (h : Tracked cfg N m row q₀ excuse s) (sound : Sound cfg digest s) (asks : q = q₀ ∨ q₀.Queries q) :
    ∃ x, begin cfg digest s t m q = s.finish t x ∧ Told cfg m row q₀ m q x := by
  have known : ((cfg m).commands.lookup q₀.resource).isNone = false := by
    simpa [Option.isNone_iff_eq_none, Option.isSome_iff_ne_none] using h.leaf.runs
  have there : (s.journal m).lookup q₀.id = some row := h.leaf.found
  rcases asks with rfl | ⟨action, resource, payload⟩
  · have same : row.digest = digest q := by
      rw [(sound.kept.rows _ _ row h.leaf.found).2.2.1, (h.rows _ row h.leaf.found).1]
    refine ⟨row.response, ?_, h.retried⟩
    simp [begin, known, h.action, beginApply, there, same]
  · refine ⟨respond cfg m (some q.id) .observed row.response.json none, ?_,
      h.queried.resolve_right (not_not_intro ⟨action, resource, payload⟩)⟩
    have known : ((cfg m).commands.lookup q.resource).isNone = false := resource ▸ known
    simp [begin, recover, known, action, resource, payload, get, there, h.leaf.about, Option.filter]

theorem Tracked.passes (h : Tracked cfg N m row q₀ excuse s) (sound : Sound cfg digest s) (asks : q = q₀ ∨ q₀.Queries q)
    (path : Path cfg q₀.resource n m) (goes : relays cfg n q₀.resource = true) :
    (∃ s₁ : Net D, s₁.tasks = s.tasks ∧ relay cfg digest s t n q = s₁.setPhase t .forwarding) ∨
      ∃ x, relay cfg digest s t n q = s.finish t x ∧ Told cfg m row q₀ n q x := by
  rcases asks with rfl | ⟨action, -, -⟩
  · simp only [relay, h.action]
    simp only [ne_eq, not_true_eq_false, if_false]
    split
    · rename_i row' found
      obtain ⟨intent, known⟩ := h.rows n row' found
      have same : row'.digest = digest q := by rw [(sound.kept.rows _ _ row' found).2.2.1, intent]
      simp only [same, not_true_eq_false, if_false]
      split
      · rename_i settled
        refine .inr ⟨row'.response, rfl, (known path goes).resolve_left fun unknown => ?_⟩
        rw [unknown] at settled
        simp at settled
      · exact .inl ⟨s, rfl, rfl⟩
    · exact .inl ⟨s.insert n (rowOf cfg digest n q awaiting), rfl, rfl⟩
  · refine .inl ⟨s, rfl, ?_⟩
    simp [relay, action]

omit [DecidableEq D] in
theorem Good.delivered (h : Good cfg m row q₀ excuse (n + 1) q x) (path : Path cfg q₀.resource n m) (before : n < m)
    (clash : ¬ Distinct cfg q₀.resource m → excuse) :
    ∃ (s₁ : Net D) (y : Response), deliver cfg s t n q x = s₁.finish t y ∧ s₁.tasks = s.tasks ∧ Good cfg m row q₀ excuse n q y := by
  unfold deliver
  split
  · refine ⟨_, _, rfl, ?_, h.up before⟩
    split <;> rfl
  · rename_i refused
    refine ⟨s, _, rfl, rfl, .inr ⟨?_, rfl⟩⟩
    rcases h with told | ⟨excused, -⟩
    · refine clash fun distinct => refused ⟨told.id, ?_⟩
      rw [told.trace]
      exact distinct.taken path before
    · exact excused

end told

section steps

variable {N m n t : Nat} {row : Row D} {q₀ q : Request} {excuse : Prop} {s s' : Net D}

theorem Path.here_or {resource : String} (path : Path cfg resource n m) :
    (n = m ∧ relays cfg n resource = false) ∨ (n < m ∧ relays cfg n resource = true ∧ Path cfg resource (n + 1) m) := by
  cases path with
  | here stays => exact .inl ⟨rfl, stays⟩
  | next goes rest =>
    have order := rest.le
    exact .inr ⟨by omega, goes, rest⟩

variable [DecidableEq D]

theorem Tracked.advances {task after : Task} {input : Input} (h : Tracked cfg N m row q₀ excuse s) (sound : Sound cfg digest s)
    (mine : s.tasks[t]? = some task) (late : N ≤ t) (path : Path cfg q₀.resource task.node m)
    (asks : task.request = q₀ ∨ q₀.Queries task.request) (lost : input = .lost → excuse) (clash : ¬ Distinct cfg q₀.resource m → excuse)
    (moves : advance cfg digest s t task input = some s') (found : s'.tasks[t]? = some after) :
    Expected cfg N m row q₀ excuse task.node task.request after.phase := by
  have expected := h.phases t task mine late path asks
  have fair := sound.fair t task mine
  obtain ⟨n, q, phase⟩ := task
  dsimp only at path asks expected fair ⊢
  have resource : q.resource = q₀.resource := by
    rcases asks with rfl | ⟨-, same, -⟩
    · rfl
    · exact same
  have me (s₁ : Net D) {φ : Phase} (tasks : s₁.tasks = s.tasks) (found : (s₁.setPhase t φ).tasks[t]? = some after)
      (good : Expected cfg N m row q₀ excuse n q φ) : Expected cfg N m row q₀ excuse n q after.phase := by
    rw [tasks_me (tasks ▸ mine) found]
    exact good
  cases phase with
  | arrived =>
    have action : q.action = .apply ∨ q.action = .result := by
      rcases asks with rfl | ⟨action, -, -⟩
      · exact .inl h.action
      · exact .inr action
    cases input with
    | go =>
      have other : q.action ≠ .inventory := by rcases action with same | same <;> simp [same]
      simp only [advance, other, if_false, Option.some.injEq] at moves
      subst moves
      rcases path.here_or with ⟨-, stays⟩ | ⟨-, goes, -⟩
      · have writes : ¬ (q.action = .status ∨ q.action = .refresh) := by rcases action with same | same <;> simp [same]
        simp only [dispatch, resource, stays, writes, if_false, Bool.false_eq_true] at found
        exact me _ rfl found trivial
      · simp only [dispatch, resource, goes, if_true] at found
        rcases h.passes sound asks path goes with ⟨s₁, tasks, same⟩ | ⟨x, same, told⟩
        · rw [same] at found
          exact me s₁ tasks found trivial
        · rw [same] at found
          exact me _ rfl found (.inl told)
    | probe id =>
      have other : ¬ (q.action = .inventory ∧ (cfg n).peer = true) := by rcases action with same | same <;> simp [same]
      simp only [advance] at moves
      rw [if_neg other] at moves
      cases moves
    | _ => cases moves
  | forwarding =>
    cases input with
    | go =>
      cases moves
      have there : (s.spawn (n + 1) q).tasks[t]? = some ⟨n, q, .forwarding⟩ := by
        simp only [Net.spawn]
        rw [List.getElem?_append_left (List.getElem?_eq_some_iff.mp mine).1]
        exact mine
      rw [tasks_me there found]
      exact h.grown
    | lost =>
      cases moves
      exact me _ rfl found (.inr ⟨lost rfl, rfl⟩)
    | _ => cases moves
  | waiting child =>
    cases input with
    | go =>
      simp only [advance] at moves
      split at moves
      · rename_i peerNode peerRequest x there
        cases moves
        obtain ⟨goes, -⟩ := fair.away (.inr ⟨child, rfl⟩)
        obtain ⟨peer, there', node, request⟩ := fair.child child rfl
        cases there.symm.trans there'
        dsimp only at node request goes
        rw [resource] at goes
        rw [node, request] at there
        obtain ⟨-, stays⟩ | ⟨before, -, rest⟩ := path.here_or
        · cases stays.symm.trans goes
        · have good : Good cfg m row q₀ excuse (n + 1) q x := h.phases child _ there expected rest asks
          obtain ⟨s₁, y, same, tasks, good'⟩ := @Good.delivered D cfg m n t row q₀ q excuse x s good path before clash
          rw [same] at found
          exact me s₁ tasks found good'
      · cases moves
    | lost =>
      cases moves
      exact me _ rfl found (.inr ⟨lost rfl, rfl⟩)
    | _ => cases moves
  | wantsLock | wantsResource =>
    cases input with
    | go =>
      simp only [advance] at moves
      split at moves
      · cases moves
        exact me _ rfl found trivial
      · cases moves
    | _ => cases moves
  | «local» =>
    cases input with
    | go =>
      cases moves
      have stays : relays cfg n q₀.resource = false := resource ▸ fair.here (.inl rfl)
      obtain ⟨rfl, -⟩ | ⟨-, goes, -⟩ := path.here_or
      · obtain ⟨x, same, told⟩ := h.begins (t := t) sound asks
        rw [same] at found
        exact me _ rfl found (.inl told)
      · cases stays.symm.trans goes
    | _ => cases moves
  | answering x =>
    cases input with
    | go =>
      cases moves
      exact me (s.note (.answered t n q x)) rfl found expected
    | _ => cases moves
  | answered x => cases input <;> cases moves
  | dead => cases input <;> cases moves
  | _ => exact expected.elim

theorem Tracked.moved {task : Task} {input : Input} (h : Tracked cfg N m row q₀ excuse s) (sound : Sound cfg digest s)
    (mine : s.tasks[t]? = some task) (lost : input = .lost → excuse) (clash : ¬ Distinct cfg q₀.resource m → excuse)
    (moves : advance cfg digest s t task input = some s') : Tracked cfg N m row q₀ excuse s' := by
  have moved := advance_moved moves
  have fair := sound.fair t task mine
  refine ⟨h.action, h.shape, h.leaf.moved sound mine moved, h.grown.trans (moved.grown sound), ?_, ?_, ?_, ?_⟩
  · intro t' task' found action name
    rcases moved.tasks sound mine found with ⟨-, before⟩ | ⟨same, node, request⟩ | ⟨late, -, -, ⟨-, request⟩ | probe⟩
    · exact h.tasks t' task' before action name
    · rw [request] at action name
      rw [same, node, request]
      exact h.tasks t task mine action name
    · rw [request] at action name
      rw [request]
      exact ⟨(h.tasks t task mine action name).1, fun _ => h.grown.trans late⟩
    · cases probe.symm.trans action
  · intro n' row' found
    have change := moved.rows sound mine n' q₀.id
    rw [found] at change
    generalize after : some row' = found' at change
    cases change with
    | same => exact h.rows n' row' after.symm
    | journaled _ name action _ _ =>
      cases after
      exact ⟨(h.tasks t task mine action name.symm).1, fun _ _ => .inl rfl⟩
    | @delivered row'' child peer x place name there intent away action waits asked gave =>
      cases after
      obtain ⟨same, late⟩ := h.tasks t task mine action name.symm
      refine ⟨intent.trans same, fun path goes => ?_⟩
      subst place
      obtain ⟨-, stays⟩ | ⟨before, -, rest⟩ := path.here_or
      · cases stays.symm.trans goes
      · have expected := h.phases t task mine (late goes) path (.inl same)
        rw [waits] at expected
        obtain ⟨peer', asked', node, request⟩ := fair.child child waits
        cases asked.symm.trans asked'
        have good := h.phases child peer asked expected (node ▸ rest) (.inl (request.trans same))
        rw [gave, node, request, same] at good
        rcases Good.up good before with told | ⟨-, unknown⟩
        · exact .inr told
        · exact .inl unknown
    | settled place there _ stays _ =>
      cases after
      obtain ⟨intent, -⟩ := h.rows _ _ there
      refine ⟨intent, fun _ goes => ?_⟩
      rw [(sound.kept.rows _ _ _ there).2.1, intent, ← place] at stays
      cases stays.symm.trans goes
  · intro t' task' found late path asks
    rcases moved.tasks sound mine found with ⟨-, before⟩ | ⟨same, node, request⟩ | ⟨-, -, fresh, -⟩
    · exact h.phases t' task' before late path asks
    · subst same
      rw [node] at path ⊢
      rw [request] at asks ⊢
      exact h.advances sound mine late path asks lost clash moves found
    · rw [fresh]
      trivial
  · intro t' n' q' x member late path asks
    rcases moved.answered member with before | ⟨same, node, request, answering⟩
    · exact h.log t' n' q' x before late path asks
    · subst same node request
      have expected := h.phases t' task mine late path asks
      rwa [answering] at expected

theorem Tracked.step {a : Act} (h : Tracked cfg N m row q₀ excuse s) (sound : Sound cfg digest s) (only : a.Only q₀)
    (lost : ∀ t, a = .step t .lost → excuse) (clash : ¬ Distinct cfg q₀.resource m → excuse) (step : step cfg digest s a = some s') :
    Tracked cfg N m row q₀ excuse s' := by
  cases a with
  | arrive n raw =>
    simp only [Plane.step] at step
    split at step
    · cases step
      refine ⟨h.action, h.shape, h.leaf.rows rfl, h.grown, h.tasks, h.rows, h.phases, fun t n q x member => ?_⟩
      exact h.log t n q x (by simpa [Net.note] using member)
    · rename_i q accepted
      cases step
      have split {t : Nat} {task : Task} (found : (s.spawn n q).tasks[t]? = some task) :
          s.tasks[t]? = some task ∨ (N ≤ t ∧ task = ⟨n, q, .arrived⟩) := by
        simp only [Net.spawn] at found
        by_cases old : t < s.tasks.length
        · rw [List.getElem?_append_left old] at found
          exact .inl found
        · rw [List.getElem?_append_right (by omega)] at found
          exact .inr ⟨h.grown.trans (by omega), List.mem_singleton.mp (List.mem_of_getElem? found)⟩
      refine ⟨h.action, h.shape, h.leaf.rows rfl, h.grown.trans (by simp [Net.spawn]), fun t task found action name => ?_, h.rows,
        fun t task found late path asks => ?_, fun t n q x member => h.log t n q x (by simpa [Net.spawn] using member)⟩
      · rcases split found with before | ⟨late, rfl⟩
        · exact h.tasks t task before action name
        · exact ⟨only q accepted action name, fun _ => late⟩
      · rcases split found with before | ⟨-, rfl⟩
        · exact h.phases t task before late path asks
        · trivial
  | step t input =>
    obtain ⟨task, found, moves⟩ := Option.bind_eq_some_iff.mp step
    exact h.moved sound found (fun same => lost t (same ▸ rfl)) clash moves
  | crash n =>
    cases step
    have split {t : Nat} {task : Task} (found : (s.crash n).tasks[t]? = some task) :
        ∃ before, s.tasks[t]? = some before ∧ task.node = before.node ∧ task.request = before.request ∧
          (task.phase = .dead ∨ task.phase = before.phase) := by
      simp only [Net.crash, List.getElem?_map] at found
      obtain ⟨before, present, same⟩ := Option.map_eq_some_iff.mp found
      split at same
      · subst same
        exact ⟨before, present, rfl, rfl, .inl rfl⟩
      · subst same
        exact ⟨before, present, rfl, rfl, .inr rfl⟩
    refine ⟨h.action, h.shape, h.leaf.rows rfl, h.grown.trans (by simp [Net.crash]), fun t task found action name => ?_, h.rows,
      fun t task found late path asks => ?_, h.log⟩
    · obtain ⟨before, present, node, request, -⟩ := split found
      rw [request] at action name
      rw [node, request]
      exact h.tasks t before present action name
    · obtain ⟨before, present, node, request, phase | phase⟩ := split found
      · rw [phase]
        trivial
      · rw [node] at path ⊢
        rw [request] at asks ⊢
        rw [phase]
        exact h.phases t before present late path asks

theorem run_tracked {later : List Act} (injective : Function.Injective digest) (h : Tracked cfg N m row q₀ excuse s)
    (sound : Sound cfg digest s) (only : ∀ a ∈ later, a.Only q₀) (lost : ∀ t, .step t .lost ∈ later → excuse)
    (clash : ¬ Distinct cfg q₀.resource m → excuse) (done : run cfg digest s later = some s') :
    Tracked cfg N m row q₀ excuse s' := by
  induction later generalizing s with
  | nil =>
    cases done
    exact h
  | cons a rest ih =>
    obtain ⟨next, first, then'⟩ := Option.bind_eq_some_iff.mp done
    obtain ⟨here, only⟩ := List.forall_mem_cons.mp only
    have step : Tracked cfg N m row q₀ excuse next :=
      h.step sound here (fun t same => lost t (same ▸ List.mem_cons_self)) clash first
    exact ih step (sound.step injective first) only (fun t member => lost t (List.mem_cons_of_mem _ member)) then'

end steps

/-! ### Every run -/

section runs

variable {s : Net D} {t n : Nat} {q q₀ : Request} {x : Response}

theorem init_recovered : Recovered cfg (Net.init : Net D) := by
  refine ⟨?_, ?_, ?_⟩ <;> simp [Net.init, Net.row]

theorem init_unrelayed : Unrelayed cfg q₀ (Net.init : Net D) := by
  refine ⟨?_, ?_⟩ <;> simp [Net.init, Net.row]

variable [DecidableEq D]

/-- A request that went straight to the node that runs its resource is listed nowhere once a
resolve of it is answered reconciled, and later queries and retries through any node report
what the leaf has recorded, unless a reply is lost. -/
theorem reconciled_everywhere {acts : List Act} (injective : Function.Injective digest) (done : run cfg digest Net.init acts = some s)
    (direct : ∀ a ∈ acts, a.Direct cfg q₀) (answered : .answered t n q x ∈ s.log) (action : q.action = .resolve)
    (named : get q.payload "request_id" = some (.str q₀.id)) (reconciled : x.state = .reconciled) :
    ∃ m row, Path cfg q.resource n m ∧ s.row m q₀.id = some row ∧ row.response.state = .reconciled ∧
      (∀ k, Path cfg q.resource k m → q₀.id ∉ s.blocked k q.resource) ∧
      ∀ later s', run cfg digest s later = some s' → (∀ a ∈ later, a.Only q₀) →
        ∀ t' n' q' x', .answered t' n' q' x' ∈ s'.log → s.tasks.length ≤ t' → Path cfg q.resource n' m →
          q' = q₀ ∨ q₀.Queries q' →
          Reports q₀ row.response q' x' ∨
            (x'.state = .unknown ∧ ((∃ t, .step t .lost ∈ later) ∨ ¬ Distinct cfg q.resource m)) := by
  have sound : Sound cfg digest s := run_sound injective init_sound done
  obtain ⟨recovered, unrelayed⟩ := run_unrelayed injective init_sound init_recovered init_unrelayed direct done
  obtain ⟨id, m, row, named', path, leaf⟩ := (recovered.log t n q x answered).2 action reconciled
  cases named.symm.trans named'
  obtain ⟨intent, apply, stays⟩ := unrelayed.rows m row leaf.found
  have resource : q.resource = q₀.resource := by
    rw [← leaf.about, (sound.kept.rows _ _ _ leaf.found).2.1, intent]
  rw [resource] at path leaf ⊢
  refine ⟨m, row, path, leaf.found, leaf.state, fun k way listed => ?_, fun later s' done' only t' n' q' x' member late way asks => ?_⟩
  · obtain ⟨⟨id, row'⟩, unknown, same⟩ := List.mem_map.mp listed
    obtain ⟨there, -, unknown⟩ := Net.mem_unknownRows.mp unknown
    dsimp only at same
    rw [same] at there
    obtain ⟨rfl, -⟩ | ⟨-, goes, -⟩ := way.here_or
    · cases there.symm.trans leaf.found
      cases unknown.symm.trans leaf.state
    · cases (unrelayed.rows k row' there).2.2.symm.trans goes
  · have start : Tracked cfg s.tasks.length m row q₀
        ((∃ t, .step t .lost ∈ later) ∨ ¬ Distinct cfg q₀.resource m) s := by
      refine ⟨apply, recovered.shape m _ row leaf.found (by rw [leaf.about]; exact stays) leaf.state, leaf, Nat.le_refl _,
        fun t task found action name => ?_, fun k row' found => ?_, fun t task found late => ?_, fun t n q x member late => ?_⟩
      · obtain ⟨same, here⟩ := unrelayed.tasks t task found action name
        exact ⟨same, fun goes => by cases here.symm.trans goes⟩
      · obtain ⟨same, -, here⟩ := unrelayed.rows k row' found
        exact ⟨same, fun _ goes => by cases here.symm.trans goes⟩
      · have old := (List.getElem?_eq_some_iff.mp found).1
        omega
      · have old := (recovered.log t n q x member).1
        omega
    have tracked := run_tracked injective start sound only (fun t member => .inl ⟨t, member⟩) .inr done'
    rcases tracked.log t' n' q' x' member late way asks with told | ⟨excused, unknown⟩
    · exact .inl told.reports
    · exact .inr ⟨unknown, excused⟩

end runs

/-! The apply is sent to the leaf, which crashes under it. It is resolved, queried and retried
through the relay. -/

def Event.answer : Event → Option (Nat × Nat × Request × Outcome)
  | .answered t n q r => some (t, n, q, r.state)
  | _ => none

theorem mem_answer {log : List Event} {t n : Nat} {q : Request} {state : Outcome} (h : (t, n, q, state) ∈ log.filterMap Event.answer) :
    ∃ x, .answered t n q x ∈ log ∧ x.state = state := by
  obtain ⟨e, member, same⟩ := List.mem_filterMap.mp h
  cases e with
  | answered t' n' q' x =>
    cases same
    exact ⟨x, member, rfl⟩
  | _ => cases same

def firstApply : Request := ⟨firstId, "network", .apply, [("revision", .int 0)]⟩

def firstResolve : Request := ⟨secondId, "network", .resolve, [("observed_revision", .int 1), ("request_id", .str firstId)]⟩

def firstQuery : Request := ⟨thirdId, "network", .result, [("request_id", .str firstId)]⟩

def applyAtLeaf : List Act :=
  .arrive 1 (message "apply" firstId [("revision", .int 0)]) :: steps 0 [.go, .go, .go, .go, fine [], .go] ++ [.crash 1] ++
  .arrive 0 (message "resolve" secondId [("observed_revision", .int 1), ("request_id", .str firstId)]) ::
    steps 1 [.go, .go] ++ steps 2 [.go, .go, .go, .go, fine [("revision", .int 1)], .go] ++ steps 1 [.go, .go]

def askAgain : List Act :=
  .arrive 0 (message "result" thirdId [("request_id", .str firstId)]) :: steps 3 [.go, .go] ++ steps 4 [.go, .go, .go, .go, .go] ++
    steps 3 [.go, .go] ++
  .arrive 0 (message "apply" firstId [("revision", .int 0)]) :: steps 5 [.go, .go] ++ steps 6 [.go, .go, .go, .go, .go] ++
    steps 5 [.go, .go]

theorem applyAtLeaf_direct : ∀ a ∈ applyAtLeaf, a.Direct twoPlanes firstApply := by
  have first : check (message "apply" firstId [("revision", .int 0)]) = some firstApply := by decide +kernel
  have second : check (message "resolve" secondId [("observed_revision", .int 1), ("request_id", .str firstId)]) =
      some firstResolve := by
    decide +kernel
  intro a member
  cases a with
  | arrive n raw =>
    have which : (n = 1 ∧ raw = message "apply" firstId [("revision", .int 0)]) ∨
        n = 0 ∧ raw = message "resolve" secondId [("observed_revision", .int 1), ("request_id", .str firstId)] := by
      simpa [applyAtLeaf, steps] using member
    intro q accepted action _
    rcases which with ⟨rfl, rfl⟩ | ⟨-, rfl⟩
    · cases first.symm.trans accepted
      exact ⟨rfl, by decide +kernel⟩
    · cases second.symm.trans accepted
      cases action
  | _ => trivial

theorem askAgain_only : ∀ a ∈ askAgain, a.Only firstApply := by
  have first : check (message "apply" firstId [("revision", .int 0)]) = some firstApply := by decide +kernel
  have second : check (message "result" thirdId [("request_id", .str firstId)]) = some firstQuery := by decide +kernel
  intro a member
  cases a with
  | arrive n raw =>
    have which : (n = 0 ∧ raw = message "result" thirdId [("request_id", .str firstId)]) ∨
        n = 0 ∧ raw = message "apply" firstId [("revision", .int 0)] := by
      simpa [askAgain, steps] using member
    intro q accepted action _
    rcases which with ⟨-, rfl⟩ | ⟨-, rfl⟩
    · cases second.symm.trans accepted
      cases action
    · cases first.symm.trans accepted
      rfl
  | _ => trivial

theorem applyAtLeaf_reconciled : ∃ s s', run twoPlanes id Net.init applyAtLeaf = some s ∧ run twoPlanes id s askAgain = some s' ∧
    firstId ∉ s.blocked 0 "network" ∧
    ∃ row x x', s.row 1 firstId = some row ∧ row.response.state = .reconciled ∧
      .answered 3 0 firstQuery x ∈ s'.log ∧ x.state = .observed ∧ Reports firstApply row.response firstQuery x ∧
      .answered 5 0 firstApply x' ∈ s'.log ∧ x'.state = .reconciled ∧ Reports firstApply row.response firstApply x' := by
  have ends : (run twoPlanes id Net.init applyAtLeaf).map (fun s => (s.log.filterMap Event.answer, s.tasks.length)) =
      some ([(2, 1, firstResolve, .reconciled), (1, 0, firstResolve, .reconciled)], 3) := by decide +kernel
  have again : ((run twoPlanes id Net.init applyAtLeaf).bind fun s => run twoPlanes id s askAgain).map
      (fun s => s.log.filterMap Event.answer) = some [(2, 1, firstResolve, .reconciled), (1, 0, firstResolve, .reconciled),
        (4, 1, firstQuery, .observed), (3, 0, firstQuery, .observed), (6, 1, firstApply, .reconciled),
        (5, 0, firstApply, .reconciled)] := by decide +kernel
  obtain ⟨s, done, facts⟩ := Option.map_eq_some_iff.mp ends
  rw [done, Option.bind_some] at again
  obtain ⟨s', done', facts'⟩ := Option.map_eq_some_iff.mp again
  obtain ⟨log, tasks⟩ := Prod.mk.inj facts
  have way : Path twoPlanes "network" 0 1 := .next (by decide +kernel) (.here (by decide +kernel))
  obtain ⟨x₀, resolved, reconciled⟩ := @mem_answer s.log 1 0 firstResolve .reconciled (by rw [log]; simp)
  obtain ⟨m, row, path, there, state, cleared, later⟩ :=
    reconciled_everywhere Function.injective_id done applyAtLeaf_direct resolved rfl (by decide +kernel) reconciled
  cases path.unique way
  obtain ⟨x, asked, observed⟩ := @mem_answer s'.log 3 0 firstQuery .observed (by rw [facts']; simp)
  obtain ⟨x', retried, settled⟩ := @mem_answer s'.log 5 0 firstApply .reconciled (by rw [facts']; simp)
  refine ⟨s, s', done, done', cleared 0 way, row, x, x', there, state, asked, observed, ?_, retried, settled, ?_⟩
  · rcases later askAgain s' done' askAgain_only _ _ _ x asked (by omega) way (.inr ⟨rfl, rfl, rfl⟩) with reports | ⟨unknown, -⟩
    · exact reports
    · cases observed.symm.trans unknown
  · rcases later askAgain s' done' askAgain_only _ _ _ x' retried (by omega) way (.inl rfl) with reports | ⟨unknown, -⟩
    · exact reports
    · cases settled.symm.trans unknown

/-! The same request sent through the relay: the resolve is answered reconciled through the
relay, and the row that the relay keeps of the apply is still unknown. -/

def applyThroughRelay : List Act :=
  .arrive 0 (message "apply" firstId [("revision", .int 0)]) :: steps 0 [.go, .go] ++
    steps 1 [.go, .go, .go, .go, fine [], .go, .command (.error .other), .go] ++ steps 0 [.go, .go] ++
  .arrive 0 (message "resolve" secondId [("observed_revision", .int 1), ("request_id", .str firstId)]) ::
    steps 2 [.go, .go] ++ steps 3 [.go, .go, .go, .go, fine [("revision", .int 1)], .go] ++ steps 2 [.go, .go]

theorem relay_still_lists : ¬ ∀ (s : Net Request) (t n k m : Nat) (q q₀ : Request) (x : Response),
    run twoPlanes id Net.init applyThroughRelay = some s → .answered t n q x ∈ s.log → q.action = .resolve →
    get q.payload "request_id" = some (.str q₀.id) → x.state = .reconciled → Path twoPlanes q.resource n m → n ≤ k → k ≤ m →
    q₀.id ∉ (s.blocked k q.resource).take blockedShown := by
  intro claim
  have ends : (run twoPlanes id Net.init applyThroughRelay).map
      (fun s => (s.log.filterMap Event.answer, (s.blocked 0 "network").take blockedShown)) =
      some ([(1, 1, firstApply, .unknown), (0, 0, firstApply, .unknown), (3, 1, firstResolve, .reconciled),
        (2, 0, firstResolve, .reconciled)], [firstId]) := by decide +kernel
  obtain ⟨s, done, facts⟩ := Option.map_eq_some_iff.mp ends
  obtain ⟨log, blocked⟩ := Prod.mk.inj facts
  obtain ⟨x, resolved, reconciled⟩ := @mem_answer s.log 2 0 firstResolve .reconciled (by rw [log]; simp)
  have way : Path twoPlanes "network" 0 1 := .next (by decide +kernel) (.here (by decide +kernel))
  refine claim s 2 0 0 1 firstResolve firstApply x done resolved rfl (by decide +kernel) reconciled way (Nat.le_refl _) (by omega) ?_
  show firstId ∈ (s.blocked 0 "network").take blockedShown
  rw [blocked]
  exact List.mem_singleton_self _

end FfnNgfw.Plane
