import FfnNgfw.Plane.Protocol
import Mathlib.Data.List.Sort

/-!
# The plane daemons of a chain

Node `n + 1` is the peer of node `n`. A request is a task at a node; it runs from one await
to the next without interruption, waits for the locks of its node, for a controller or for
the answer of its peer. Journals survive a crash; the tasks and locks of the node do not.
What controllers report, which reboot flags there are and which replies are lost are inputs.
-/

namespace FfnNgfw.Plane

/-- `commands` holds the actions that have a controller. -/
structure Config where
  role : Role
  peer : Bool
  commands : Dict String (List Action)

structure Row (D : Type) where
  digest : D
  resource : String
  response : Response
  intent : Request

/-- How a controller call fails: a `ValueError` with its text, or otherwise. -/
inductive Failure where
  | value (text : String)
  | other

inductive Phase where
  | arrived
  | forwarding
  | waiting (child : Nat)
  | probing (child : Nat)
  | wantsLock
  | wantsResource
  | «local»
  | commanding
  | resolving
  | superseding
  | validating
  | journaled
  | applying
  | answering (response : Response)
  | answered (response : Response)
  | dead

structure Task where
  node : Nat
  request : Request
  phase : Phase

inductive Cause where
  | ran (result : Fields)
  | resolved (status : Fields) (observed : Json)
  | superseded (status : Fields) (flags : List (String × Option Json)) (flag : String)
  | relayed

/-- What has happened: a task began, a row was inserted, a controller was started on an apply,
a row was rewritten, an answer was sent. -/
inductive Event where
  | arrived (t n : Nat) (q : Request)
  | journaled (n : Nat) (q : Request)
  | started (n : Nat) (q : Request)
  | recorded (n : Nat) (id : String) (response : Response) (cause : Cause)
  | answered (t n : Nat) (q : Request) (response : Response)
  | turnedAway (n : Nat) (response : Response)

structure Net (D : Type) where
  journal : Nat → Dict String (Row D)
  lock : Nat → Option Nat
  resourceLock : Nat → String → Option Nat
  tasks : List Task
  log : List Event

inductive Input where
  | go
  | probe (id : String)
  | command (outcome : Except Failure Json)
  | status (outcome : Except Failure Json) (flags : List (String × Option Json))
  | lost

inductive Act where
  | arrive (n : Nat) (raw : Json)
  | step (t : Nat) (input : Input)
  | crash (n : Nat)

/-! ### Controllers -/

def Failure.detail : Failure → String
  | .value text => text
  | .other => "Controller unavailable or rejected request"

/-- `command`, after the runner has returned. -/
def settle (outcome : Except Failure Json) : Except Failure Fields :=
  match outcome with
  | .ok (.obj fields) => .ok fields
  | .ok _ => .error (.value "controller response must be an object")
  | .error failure => .error failure

def unsupported : String := "unsupported resource operation"

namespace Net

variable {D : Type}

def init : Net D := ⟨fun _ => ∅, fun _ => none, fun _ _ => none, [], []⟩

variable (s : Net D)

def setPhase (t : Nat) (phase : Phase) : Net D := { s with tasks := s.tasks.modify t fun task => { task with phase := phase } }

def note (e : Event) : Net D := { s with log := s.log ++ [e] }

def spawn (n : Nat) (q : Request) : Net D :=
  { s with tasks := s.tasks ++ [⟨n, q, .arrived⟩], log := s.log ++ [.arrived s.tasks.length n q] }

def insert (n : Nat) (row : Row D) : Net D :=
  { s with journal := Function.update s.journal n ((s.journal n).assign row.intent.id row), log := s.log ++ [.journaled n row.intent] }

def rewrite (journal : Dict String (Row D)) (id : String) (response : Response) : Dict String (Row D) :=
  match journal.lookup id with
  | none => journal
  | some row => journal.assign id { row with response := response }

def record (n : Nat) (id : String) (response : Response) (cause : Cause) : Net D :=
  { s with
    journal := Function.update s.journal n (rewrite (s.journal n) id response), log := s.log ++ [.recorded n id response cause] }

def leave (t : Nat) (phase : Phase) : Net D :=
  { s.setPhase t phase with
    lock := fun n => if s.lock n = some t then none else s.lock n
    resourceLock := fun n resource => if s.resourceLock n resource = some t then none else s.resourceLock n resource }

def finish (t : Nat) (response : Response) : Net D := s.leave t (.answering response)

def crash (n : Nat) : Net D :=
  { s with
    lock := Function.update s.lock n none, resourceLock := Function.update s.resourceLock n fun _ => none
    tasks := s.tasks.map fun task => if task.node = n then { task with phase := .dead } else task }

/-- The rows of the resource whose outcome is unknown, oldest first. -/
def unknownRows (n : Nat) (resource : String) : List (String × Row D) :=
  (s.journal n).items.filter fun item => item.2.resource = resource ∧ item.2.response.state = .unknown

/-- The requests that `describe` lists as blocking the resource, before the list is cut. -/
def blocked (n : Nat) (resource : String) : List String := (s.unknownRows n resource).map Prod.fst

end Net

/-- `BLOCKED_SHOWN` -/
def blockedShown : Nat := 32

section daemon

variable {D : Type} [DecidableEq D] (cfg : Nat → Config) (digest : Request → D)

def relays (n : Nat) (resource : String) : Bool := (cfg n).peer && ((cfg n).commands.lookup resource).isNone

def permits (n : Nat) (resource : String) (action : Action) : Bool := ((cfg n).commands.lookup resource).any (action ∈ ·)

def respond (n : Nat) (id : Option String) (state : Outcome) (result : Json) (error : Option String) : Response :=
  ⟨id, error.isNone, state, result, error, [(cfg n).role]⟩

def rejected (n : Nat) (q : Request) (detail : String) : Response := respond cfg n (some q.id) .rejected .null (some detail)

def sorted (names : List String) : List String := (names.insertionSort (· ≤ ·)).dedup

def describeResource (s : Net D) (n : Nat) (resource : String) : Json :=
  let controller := ((cfg n).commands.lookup resource).getD []
  let waiting := s.blocked n resource
  let recovery := if .apply ∈ controller ∨ waiting ≠ [] then ["result", "resolve"] else []
  let names (texts : List String) : Json := .list ((sorted texts).map .str)
  .obj [("actions", names (controller.map Action.text ++ recovery)), ("blocked", .list ((waiting.take blockedShown).map .str)),
    ("blocked_total", .int waiting.length), ("controller", names (controller.map Action.text)),
    ("relayed", .bool ((cfg n).commands.lookup resource).isNone)]

def describe (s : Net D) (n : Nat) : Fields :=
  let rows := (s.journal n).items.filter fun item => item.2.response.state = .unknown
  let resources := sorted ((cfg n).commands.items.map Prod.fst ++ rows.map fun item => item.2.resource)
  [("relays", .bool (cfg n).peer), ("resources", .obj (resources.map fun resource => (resource, describeResource cfg s n resource))),
    ("role", .str (cfg n).role.text)]

def peerOf (probe : Request) (role : Role) (response : Option Response) : Json :=
  match response with
  | some ⟨id, true, _, .obj fields, _, trace⟩ =>
    if id = some probe.id ∧ trace.length < 3 ∧ role ∉ trace then .obj (fields ++ [("reachable", .bool true)])
    else .obj [("reachable", .bool false)]
  | _ => .obj [("reachable", .bool false)]

def inventoryOf (s : Net D) (n : Nat) (q : Request) (peer : List (String × Json)) : Response :=
  respond cfg n (some q.id) .observed (.obj (peer ++ describe cfg s n)) none

def awaiting : String := "Awaiting downstream outcome"

def downstreamUnknown (n : Nat) (q : Request) : Response :=
  respond cfg n (some q.id) .unknown .null (some "Downstream outcome unknown; query request ID before retrying")

def rowOf (n : Nat) (q : Request) (error : String) : Row D :=
  ⟨digest q, q.resource, respond cfg n (some q.id) .unknown .null (some error), q⟩

/-- An apply is journaled before it is passed on, and answered from the journal once it is settled. -/
def relay (s : Net D) (t n : Nat) (q : Request) : Net D :=
  if q.action ≠ .apply then s.setPhase t .forwarding
  else
    match (s.journal n).lookup q.id with
    | some row =>
      if row.digest ≠ digest q then s.finish t (rejected cfg n q "request ID reused with different content")
      else if row.response.state = .applied ∨ row.response.state = .reconciled then s.finish t row.response
      else s.setPhase t .forwarding
    | none => (s.insert n (rowOf cfg digest n q awaiting)).setPhase t .forwarding

/-- The peer's answer is taken if it is to this request and has not been through this node. -/
def deliver (s : Net D) (t n : Nat) (q : Request) (response : Response) : Net D :=
  if response.id = some q.id ∧ response.trace.length < 3 ∧ (cfg n).role ∉ response.trace then
    let response := { response with trace := (cfg n).role :: response.trace }
    (if q.action = .apply then s.record n q.id response .relayed else s).finish t response
  else s.finish t (downstreamUnknown cfg n q)

/-! ### The leaf -/

def validate (s : Net D) (t n : Nat) (q : Request) : Net D :=
  if permits cfg n q.resource .validate then s.setPhase t .validating else s.finish t (rejected cfg n q unsupported)

def blockedError : String := "resource has an unknown outcome; reconcile before another apply"

def beginApply (s : Net D) (t n : Nat) (q : Request) : Net D :=
  match (s.journal n).lookup q.id with
  | some row =>
    if row.digest ≠ digest q then s.finish t (rejected cfg n q "request ID reused with different content") else s.finish t row.response
  | none =>
    let rows := s.unknownRows n q.resource
    if rows.isEmpty then validate cfg s t n q
    else if rows.any (fun item => (boundIdentity item.2.intent.payload).isSome) && permits cfg n q.resource .status then
      s.setPhase t .superseding
    else s.finish t (rejected cfg n q blockedError)

/-- `result` and `resolve` -/
def recover (s : Net D) (t n : Nat) (q : Request) : Net D :=
  let allowed := if q.action = .result then ["request_id"] else ["observed_revision", "request_id"]
  match get q.payload "request_id" with
  | some (.str id) =>
    if q.payload.map Prod.fst ≠ allowed then s.finish t (rejected cfg n q "invalid result/reconciliation request")
    else
      match ((s.journal n).lookup id).filter (·.resource = q.resource) with
      | none => s.finish t (rejected cfg n q "request not found")
      | some row =>
        if q.action = .result then s.finish t (respond cfg n (some q.id) .observed row.response.json none)
        else if row.response.state ≠ .unknown then s.finish t (rejected cfg n q "only unknown requests require reconciliation")
        else if permits cfg n q.resource .status then s.setPhase t .resolving
        else s.finish t (rejected cfg n q unsupported)
  | _ => s.finish t (rejected cfg n q "invalid result/reconciliation request")

def begin (s : Net D) (t n : Nat) (q : Request) : Net D :=
  if ((cfg n).commands.lookup q.resource).isNone then s.finish t (rejected cfg n q "unsupported resource")
  else if q.action = .result ∨ q.action = .resolve then recover cfg s t n q
  else if q.action = .apply then beginApply cfg digest s t n q
  else if permits cfg n q.resource q.action then s.setPhase t .commanding
  else s.finish t (rejected cfg n q unsupported)

def resolve (s : Net D) (t n : Nat) (q : Request) (outcome : Except Failure Json) : Net D :=
  match get q.payload "request_id", get q.payload "observed_revision", settle outcome with
  | some (.str id), some observed, .ok status =>
    if matchesRevision status observed then
      let resolved := respond cfg n (some id) .reconciled (.obj [("observed_revision", (revisionOf status).getD .null)]) none
      (s.record n id resolved (.resolved status observed)).finish t (respond cfg n (some q.id) .reconciled resolved.json none)
    else s.finish t (rejected cfg n q "observed revision changed; review runtime status again")
  | _, _, .error failure => s.finish t (rejected cfg n q failure.detail)
  | _, _, .ok _ => s.finish t (rejected cfg n q "observed revision changed; review runtime status again")

/-- The row is reconciled if its write named a boot identity that a flagged reboot replaced. -/
def supersedeRow (n : Nat) (status : Fields) (flags : List (String × Option Json)) (s : Net D) (item : String × Row D) : Net D :=
  match boundIdentity item.2.intent.payload, observedIdentity status with
  | some bound, some current =>
    match rebooted flags bound current with
    | some flag =>
      s.record n item.1
        (respond cfg n (some item.1) .reconciled
          (.obj [("observed_revision", (revisionOf status).getD .null), ("reboot_flag", .str flag),
          ("superseded_by", .str current)]) none)
        (.superseded status flags flag)
    | none => s
  | _, _ => s

def supersede (s : Net D) (t n : Nat) (q : Request) (outcome : Except Failure Json) (flags : List (String × Option Json)) : Net D :=
  match settle outcome with
  | .error _ => s.finish t (rejected cfg n q blockedError)
  | .ok status =>
    let s := (s.unknownRows n q.resource).foldl (supersedeRow cfg n status flags) s
    if (s.unknownRows n q.resource).isEmpty then validate cfg s t n q else s.finish t (rejected cfg n q blockedError)

def interrupted : String := "Apply interrupted or incomplete; reconcile runtime state"

def unknownApply (n : Nat) (q : Request) : Response := respond cfg n (some q.id) .unknown .null (some interrupted)

def dispatch (s : Net D) (t n : Nat) (q : Request) : Net D :=
  if relays cfg n q.resource then relay cfg digest s t n q
  else if q.action = .status ∨ q.action = .refresh then s.setPhase t .wantsResource
  else s.setPhase t .wantsLock

def advance (s : Net D) (t : Nat) (task : Task) (input : Input) : Option (Net D) :=
  let n := task.node
  let q := task.request
  match task.phase, input with
  | .arrived, .go =>
    if q.action = .inventory then if (cfg n).peer then none else some (s.finish t (inventoryOf cfg s n q []))
    else some (dispatch cfg digest s t n q)
  | .arrived, .probe id =>
    if q.action = .inventory ∧ (cfg n).peer then
      some ((s.spawn (n + 1) ⟨id, inventoryName, .inventory, []⟩).setPhase t (.probing s.tasks.length))
    else none
  -- the source describes the node before it asks the peer
  | .probing child, .go =>
    match s.tasks[child]? with
    | some ⟨_, probe, .answered response⟩ =>
      some (s.finish t (inventoryOf cfg s n q [("peer", peerOf probe (cfg n).role (some response))]))
    | _ => none
  | .probing _, .lost => some (s.finish t (inventoryOf cfg s n q [("peer", .obj [("reachable", .bool false)])]))
  | .forwarding, .go => some ((s.spawn (n + 1) q).setPhase t (.waiting s.tasks.length))
  | .forwarding, .lost => some (s.finish t (downstreamUnknown cfg n q))
  | .waiting child, .go =>
    match s.tasks[child]? with
    | some ⟨_, _, .answered response⟩ => some (deliver cfg s t n q response)
    | _ => none
  | .waiting _, .lost => some (s.finish t (downstreamUnknown cfg n q))
  | .wantsLock, .go =>
    if s.lock n = none then some { s.setPhase t .wantsResource with lock := Function.update s.lock n (some t) } else none
  | .wantsResource, .go =>
    if s.resourceLock n q.resource = none then
      some { s.setPhase t .local with
        resourceLock := Function.update s.resourceLock n (Function.update (s.resourceLock n) q.resource (some t)) }
    else none
  | .local, .go => some (begin cfg digest s t n q)
  | .commanding, .command outcome =>
    match settle outcome with
    | .ok result =>
      some (s.finish t (respond cfg n (some q.id) (if q.action = .validate then .validated else .observed) (.obj result) none))
    | .error failure => some (s.finish t (rejected cfg n q failure.detail))
  | .resolving, .command outcome => some (resolve cfg s t n q outcome)
  | .superseding, .status outcome flags => some (supersede cfg s t n q outcome flags)
  | .validating, .command outcome =>
    match settle outcome, (s.journal n).lookup q.id with
    | .ok _, none => some ((s.insert n (rowOf cfg digest n q interrupted)).setPhase t .journaled)
    -- A relayed apply has taken the id in the meantime: the insertion raises, and there is no answer.
    | .ok _, some _ => some (s.leave t .dead)
    | .error failure, _ => some (s.finish t (rejected cfg n q failure.detail))
  | .journaled, .go =>
    if permits cfg n q.resource .apply then some ((s.note (.started n q)).setPhase t .applying)
    else some (s.finish t (unknownApply cfg n q))
  | .applying, .command outcome =>
    match settle outcome with
    | .ok result =>
      let answer := respond cfg n (some q.id) .applied (.obj result) none
      some ((s.record n q.id answer (.ran result)).finish t answer)
    | .error _ => some (s.finish t (unknownApply cfg n q))
  | .answering response, .go => some ((s.note (.answered t n q response)).setPhase t (.answered response))
  | _, _ => none

def step (s : Net D) : Act → Option (Net D)
  | .arrive n raw =>
    match check raw with
    | none => some (s.note (.turnedAway n (respond cfg n none .rejected .null (some "Invalid plane request"))))
    | some q => some (s.spawn n q)
  | .step t input => (s.tasks[t]?).bind fun task => advance cfg digest s t task input
  | .crash n => some (s.crash n)

def run (s : Net D) : List Act → Option (Net D)
  | [] => some s
  | a :: rest => (step cfg digest s a).bind fun next => run next rest

end daemon

end FfnNgfw.Plane
