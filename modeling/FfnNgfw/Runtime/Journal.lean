import FfnNgfw.Lib.Dict
import FfnNgfw.Lib.Fallible
import FfnNgfw.Runtime.Apply
import FfnNgfw.Runtime.Events

/-!
# The session journal

The journal keeps the rules by token, the sessions that are alive and the events that the
rules ask for. An event moves one session, `reconcile` replaces the sessions by a snapshot
of the kernel, and `recoverBoot` drops those of another boot. Each operation is one
transaction of the database.
-/

namespace FfnNgfw.Runtime

variable {Time : Type}

structure Identity where
  boot : String
  id : Nat
  original : TupleData
  deriving DecidableEq

inductive RecordKind where
  | start
  | update
  | «end»
  | recovered
  | interrupted
  deriving DecidableEq

def EventKind.record : EventKind → RecordKind
  | .start => .start
  | .update => .update
  | .end => .end

/-- The data that is stored with a session or an event; `row` has the fields of the conntrack event. -/
structure Record (Time : Type) where
  event : RecordKind
  row : Event
  bootId : String
  rule : Metadata
  started : Option Time
  ended : Option Time
  durationSeconds : Option Time
  eventGap : Bool
  reason : Option String
  countersComplete : Option Bool
  deriving DecidableEq

def Record.identity (record : Record Time) : Identity := ⟨record.bootId, record.row.id, record.row.original⟩

structure Session (Time : Type) where
  token : Nat
  started : Option Time
  updated : Time
  data : Record Time
  deriving DecidableEq

structure Entry (Time : Type) where
  observed : Time
  kind : RecordKind
  token : Nat
  data : Record Time
  deriving DecidableEq

structure Journal (Time : Type) where
  rules : Rules
  sessions : Dict Identity (Session Time)
  events : List (Entry Time)
  health : Option String

def identity (boot : String) (row : Event) : Identity := ⟨boot, row.id, row.original⟩

section record

variable [Zero Time] [Sub Time] [Max Time]

def newRecord (boot : String) (now : Time) (row : Event) (rule : Metadata) (started : Option Time) (gap : Bool) :
    Record Time where
  event := row.event.record
  row := row
  bootId := boot
  rule := rule
  started := started
  ended := if row.event = .end then some now else none
  durationSeconds := if row.event = .end then started.map fun first => max 0 (now - first) else none
  eventGap := gap
  reason := none
  countersComplete := none

/-- `_record` -/
def Journal.recordRow (boot : String) (j : Journal Time) (observed : Time × Event) : Except String (Journal Time) :=
  let (now, row) := observed
  let key := identity boot row
  let old := j.sessions.lookup key
  match row.token.or (old.map Session.token) with
  | none => .ok j
  | some token =>
    let row := { row with token := some token }
    match j.rules.entries.lookup token with
    | none => .error "No durable rule generation for owned conntrack event"
    | some rule =>
      if old.any fun session => session.token ≠ token then .error "Session changed its Security rule identity"
      else
        let firstAdmission := old.isNone ∧ row.event ≠ .end
        let started := match old with
          | some session => session.started
          | none => if firstAdmission then some now else none
        let event := newRecord boot now row rule started (old.any fun session => session.data.eventGap)
        if row.event = .end then
          if rule.logging.end ∧ ¬(row.originalCounters.isSome ∧ row.replyCounters.isSome) then
            .error "Session-end accounting counters are missing"
          else .ok { j with
            sessions := j.sessions.erase key
            events := j.events ++ if rule.logging.end then [⟨now, .end, token, event⟩] else [] }
        else .ok { j with
          sessions := j.sessions.insert key ⟨token, started, now, event⟩
          events := j.events ++
            if firstAdmission ∧ rule.logging.start then [⟨now, .start, token, { event with event := .start }⟩] else [] }

end record

/-! ### Snapshots -/

abbrev Live := Dict Identity (Nat × Event)

def dumped (boot : String) (rows : List Event) : Live :=
  rows.foldl (fun live row =>
    match row.token with
    | none => live
    | some token => live.assign (identity boot row) (token, row)) ∅

def newerCounters (row old : Option Counters) : Option Counters :=
  match old with
  | none => row
  | some values => some ⟨max values.packets ((row.map Counters.packets).getD 0), max values.bytes ((row.map Counters.bytes).getD 0)⟩

def changed (boot : String) (live : Live) (row : Event) : Except String Live :=
  let key := identity boot row
  if row.event = .end then .ok (live.erase key)
  else
    match row.token with
    | none => .ok live
    | some token =>
      match live.lookup key with
      | none => .ok (live.assign key (token, row))
      | some old =>
        if old.1 ≠ token then .error "Snapshot token changed"
        else .ok (live.assign key (token, { row with
          originalCounters := newerCounters row.originalCounters old.2.originalCounters
          replyCounters := newerCounters row.replyCounters old.2.replyCounters }))

def liveSessions (boot : String) (rows changes : List Event) : Except String Live :=
  changes.foldlM (changed boot) (dumped boot rows)

def interrupted (record : Record Time) (reason : String) : Record Time :=
  { record with
    event := .interrupted
    reason := some reason
    ended := none
    durationSeconds := none
    countersComplete := some false }

def interruption (now : Time) (reason : String) (session : Session Time) : List (Entry Time) :=
  if session.data.rule.logging.end then [⟨now, .interrupted, session.token, interrupted session.data reason⟩] else []

def recovered (boot : String) (row : Event) (rule : Metadata) (started : Option Time) : Record Time where
  event := .recovered
  row := row
  bootId := boot
  rule := rule
  started := started
  ended := none
  durationSeconds := none
  eventGap := true
  reason := none
  countersComplete := none

/-- One live session of the snapshot is stored; `previous` is the sessions table as it was. -/
def Journal.restore (boot : String) (now : Time) (previous : Dict Identity (Session Time)) (j : Journal Time)
    (item : Identity × Nat × Event) : Except String (Journal Time) :=
  let (key, token, row) := item
  match j.rules.entries.lookup token with
  | none => .error "No durable rule generation for snapshot session"
  | some rule =>
    let old := previous.lookup key
    if old.any fun session => session.token ≠ token then .error "Snapshot changed durable session identity"
    else
      let record := recovered boot row rule (old.bind Session.started)
      .ok { j with
        sessions := j.sessions.insert key ⟨token, record.started, now, record⟩
        events := j.events ++ if old.isNone ∧ rule.logging.start then [⟨now, .recovered, token, record⟩] else [] }

/-- The sessions that the snapshot does not show are given up, and the table is emptied. -/
def Journal.cleared (now : Time) (live : Live) (reason : String) (j : Journal Time) : Journal Time :=
  { j with
    sessions := ∅
    events := j.events ++ (j.sessions.items.filter fun item => item.1 ∉ live).flatMap fun item => interruption now reason item.2 }

/-- What `reconcile` writes. -/
def Journal.reconciled (boot : String) (now : Time) (live : Live) (reason : String) (j : Journal Time) :
    Journal Time × Option String :=
  match foldlUntil (Journal.restore boot now j.sessions) (j.cleared now live reason) live.items with
  | (after, none) => ({ after with health := none }, none)
  | (after, some text) => (after, some text)

/-- What `recover_boot` does with one session. -/
def Journal.bootChanged (boot : String) (now : Identity → Time) (j : Journal Time) (item : Identity × Session Time) : Journal Time :=
  if item.1.boot = boot then j
  else { j with
    sessions := j.sessions.erase item.1
    events := j.events ++ interruption (now item.1) "dataplane-boot-changed" item.2 }

structure Database (Time : Type) where
  committed : Journal Time
  working : Journal Time

/-- `with self.db`: an error rolls back what has been written. -/
def Database.transaction (db : Database Time) (body : Journal Time → Journal Time × Option String) :
    Database Time × Option String :=
  match body db.working with
  | (after, none) => (⟨after, after⟩, none)
  | (_, some text) => (⟨db.committed, db.committed⟩, some text)

/-- The calls of a journal; each comes from the journal of one boot. -/
inductive Op (Time : Type) where
  | register (rows : List (Nat × Metadata))
  | recordBatch (boot : String) (rows : List (Time × Event))
  | reconcile (boot : String) (now : Time) (rows changes : List Event) (reason : String)
  | recoverBoot (boot : String) (now : Identity → Time)
  | fault (reason : String)

section database

variable [Zero Time] [Sub Time] [Max Time]

def Database.perform (db : Database Time) : Op Time → Database Time × Option String
  | .register rows => db.transaction fun j =>
    let (rules, failure) := foldlUntil Rules.insert j.rules rows
    ({ j with rules := rules }, failure)
  | .recordBatch boot rows => db.transaction fun j => foldlUntil (Journal.recordRow boot) j rows
  | .reconcile boot now rows changes reason =>
    match liveSessions boot rows changes with
    | .error text => (db, some text)
    | .ok live => db.transaction (Journal.reconciled boot now live reason)
  | .recoverBoot boot now => db.transaction fun j => (j.sessions.items.foldl (Journal.bootChanged boot now) j, none)
  | .fault reason => db.transaction fun j => ({ j with health := some reason }, none)

def Database.run (db : Database Time) (ops : List (Op Time)) : Database Time := ops.foldl (fun db op => (db.perform op).1) db

def Database.fresh (rules : Rules) : Database Time := ⟨⟨rules, ∅, [], none⟩, ⟨rules, ∅, [], none⟩⟩

end database

end FfnNgfw.Runtime
