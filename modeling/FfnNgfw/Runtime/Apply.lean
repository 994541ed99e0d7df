import FfnNgfw.Lib.Effects
import FfnNgfw.Lib.Fallible
import FfnNgfw.Policy.Nft

/-!
# Applying a policy generation

`apply` installs the gate, the Security table, the NAT table and the guards as one nft
batch and stores the generation, or tries to put back what was there. Every command, read
and write on the way may raise. What `prepare` reads from the platform is given as a plan.
-/

namespace FfnNgfw.Runtime

open Policy

abbrev TableKey := String × String

def gateKey : TableKey := ("inet", "ffn_policy_gate")

/-- nft as far as whole tables go: a listing loads to the table that it lists. With it the
script of the gate, and the digest of tables as they are read back. -/
structure Nft (Script Table : Type) where
  load : Script → Table
  list : Table → Script
  load_list : ∀ t, load (list t) = t
  gate : Script
  fingerprint : (TableKey → Option Table) → List TableKey → String

/-! ### Tokens -/

structure Metadata where
  scope : String
  name : String
  revision : Nat
  logging : Logging
  deriving DecidableEq

/-- The `rules` table of the journal, with the token as its key. -/
structure Rules where
  entries : List (Nat × Metadata)
  unique : (entries.map Prod.fst).Nodup

theorem lookup_none_iff {entries : List (Nat × Metadata)} {token : Nat} :
    entries.lookup token = none ↔ token ∉ entries.map Prod.fst := by
  induction entries with
  | nil => simp
  | cons e rest ih =>
    rw [List.lookup_cons, List.map_cons, List.mem_cons]
    by_cases same : token = e.1
    · simp [same]
    · simp [same, beq_eq_false_iff_ne.mpr same, ih]

def Rules.insert (rules : Rules) (row : Nat × Metadata) : Except String Rules :=
  match found : rules.entries.lookup row.1 with
  | some old => if old = row.2 then .ok rules else .error "A Security session token cannot be reused"
  | none => .ok ⟨rules.entries ++ [row], by
      rw [List.map_append, List.nodup_append]
      have new := lookup_none_iff.mp found
      exact ⟨rules.unique, by simp, fun token member other single same => new (by
        rw [List.mem_singleton.mp single] at same
        exact same ▸ member)⟩⟩

def Rules.register (rules : Rules) (rows : List (Nat × Metadata)) : Except String Rules := rows.foldlM Rules.insert rules

def Rules.maxToken (rules : Rules) : Nat := (rules.entries.map Prod.fst).foldl max 0

def allowedRules (root : Config) (owner : Vsys) : Except String (List (String × String × Logging)) := do
  let rows ← compilePolicy root owner
  if blockers rows ≠ [] then throw ("; ".intercalate (blockers rows))
  else return rows.filterMap fun row =>
    match row.compiled with
    | .ok (_, action) => if action.type = .allow then some (owner.name, row.name, action.logging) else none
    | .error _ => none

def implicitToken (revision : Nat) : Nat := revision * 2048 + 2047

/-- The tokens of the allowed rules, numbered from `counter + 1` on. -/
def numbered (revision : Nat) : Nat → List (String × String × Logging) → List (Nat × Metadata)
  | _, [] => []
  | counter, (scope, name, logging) :: rest =>
    (revision * 2048 + (counter + 1), ⟨scope, name, revision, logging⟩) :: numbered revision (counter + 1) rest

def tokensFor (root : Config) (revision : Nat) : Except String (List (Nat × Metadata)) := do
  let rules ← (owners root).mapM (allowedRules root)
  if 2047 ≤ rules.flatten.length ∨ ¬(1 ≤ revision ∧ revision < 524287) then throw "Security generation capacity exhausted"
  else return numbered revision 0 rules.flatten ++
    [(implicitToken revision, ⟨"implicit", "intrazone-default", revision, ⟨false, false, none⟩⟩)]

/-- The tokens by the rules they stand for; a later rule of the same name takes the place of an earlier one. -/
def tokensOf (rows : List (Nat × Metadata)) : Tokens := fun id =>
  (rows.reverse.find? fun row => (row.2.scope, row.2.name) = id).map Prod.fst

/-! ### State -/

structure Link where
  device : String
  index : Nat
  ifalias : String
  deriving DecidableEq

structure Saved where
  revision : Nat
  tokenGeneration : Nat
  xml : Config
  hostLinks : List (Int × String)
  bindings : List (String × Link)
  bootId : String
  tables : List TableKey
  kernelDigest : String
  deriving DecidableEq

structure World (Table : Type) where
  tables : TableKey → Option Table
  /-- the lease set of the gate has an element -/
  live : Bool
  stateFile : Option Saved
  rules : Rules
  fault : Option String

/-- What `prepare` gets from the platform: a script for each table beside the gate, and the
links and bindings that the scripts are for. -/
structure Plan (Script : Type) where
  others : List (TableKey × Script)
  hostLinks : List (Int × String)
  bindings : List (String × Link)
  bootId : String

def Plan.keys {Script : Type} (plan : Plan Script) : List TableKey := gateKey :: plan.others.map Prod.fst

def Plan.scripts {Script : Type} (gate : Script) (plan : Plan Script) : List (TableKey × Script) := (gateKey, gate) :: plan.others

structure Request where
  revision : Nat
  xml : Config

structure Prepared (Script : Type) where
  plan : Plan Script
  state : Saved
  metadata : List (Nat × Metadata)

/-- The same policy keeps its generation; an edited one takes the first that no journaled
token is of. -/
def tokenGeneration {Table : Type} (w : World Table) (xml : Config) : Nat :=
  match w.stateFile with
  | some old => if old.xml = xml then old.tokenGeneration else w.rules.maxToken / 2048 + 1
  | none => w.rules.maxToken / 2048 + 1

def prepare {Script Table : Type} (w : World Table) (request : Request) (plan : Except String (Plan Script)) :
    Except String (Prepared Script) := do
  let revision := (w.stateFile.map Saved.revision).getD 0
  if request.revision ≠ revision then throw "Security revision changed; refresh before retrying"
  else
    let plan ← plan
    let same := w.stateFile.any fun old => old.xml = request.xml
    let generation := tokenGeneration w request.xml
    let metadata ← tokensFor request.xml generation
    return ⟨plan, ⟨if same then revision else revision + 1, generation, request.xml, plan.hostLinks,
      plan.bindings, plan.bootId, plan.keys, ""⟩,
      metadata⟩

/-! ### Applying -/

/-- The places where `apply` may raise. -/
inductive Point where
  | register | inventory | readState | listTable (key : TableKey)
  | closeList | closeFlush
  | install | readback | bindings | store
  | againList | againFlush
  | rollbackInventory | rollback | rereadState | restore
  | openJournal | fault
  deriving DecidableEq

abbrev Schedule := Point → Outcome

section apply

variable {Script Table : Type} (nft : Nft Script Table) (sched : Schedule)

/-- The lease set is emptied, or the gate is made with an empty one. -/
def gateClosed (w : World Table) : World Table :=
  { w with
    live := false
    tables := fun key => if key = gateKey ∧ w.tables key = none then some (nft.load nft.gate) else w.tables key }

def closeGate (listing flushing : Point) : Routine (World Table) :=
  Routine.seq (Routine.look (sched listing)) (Routine.perform (sched flushing) (gateClosed nft))

/-- Tables are deleted and made again, so a script leaves nothing of what was there. -/
def loadScripts (scripts : List (TableKey × Script)) (tables : TableKey → Option Table) : TableKey → Option Table := fun key =>
  match scripts.lookup key with
  | some script => some (nft.load script)
  | none => tables key

def deleteTables (keys : List TableKey) (tables : TableKey → Option Table) : TableKey → Option Table := fun key =>
  if key ∈ keys then none else tables key

/-- The gate is among the tables, and a gate just loaded has no element. -/
def withTables (tables : TableKey → Option Table) (w : World Table) : World Table := { w with tables := tables, live := false }

def register (metadata : List (Nat × Metadata)) : Routine (World Table) := fun w =>
  if w.fault.isSome then Routine.raise w
  else
    match w.rules.register metadata with
    | .error _ => Routine.raise w
    | .ok rules => Routine.perform (sched .register) (fun w => { w with rules := rules }) w

/-- The gate comes back closed, another table as it is listed now. -/
def rollbackScript (before : World Table) (key : TableKey) : Option Script :=
  if key = gateKey then some nft.gate else (before.tables key).map nft.list

def rollbackScripts (before : World Table) (keys : List TableKey) : List (TableKey × Script) :=
  keys.filterMap fun key => (rollbackScript nft before key).map fun script => (key, script)

/-- The batch, its readback, the interface owners again, and the STATE file. -/
def activate (p : Prepared Script) : Routine (World Table) :=
  Routine.all
    [Routine.perform (sched .install) fun w => withTables (loadScripts nft (p.plan.scripts nft.gate) w.tables) w,
      Routine.look (sched .readback),
      fun w => (w, p.plan.keys.all fun key => (w.tables key).isSome),
      Routine.look (sched .bindings),
      Routine.perform (sched .store) fun w =>
      { w with stateFile := some { p.state with kernelDigest := nft.fingerprint w.tables p.plan.keys } }]

def undo (before : World Table) (p : Prepared Script) : Routine (World Table) :=
  Routine.all
    [Routine.look (sched .rollbackInventory),
      Routine.perform (sched .rollback) fun w =>
        withTables (loadScripts nft (rollbackScripts nft before p.plan.keys) (deleteTables p.plan.keys w.tables)) w,
      Routine.look (sched .rereadState),
      fun w => if w.stateFile = before.stateFile then Routine.skip w
        else Routine.perform (sched .restore) (fun w => { w with stateFile := before.stateFile }) w]

/-- The reason that the failed rollback gives is left out of the text. -/
def recordFault : Routine (World Table) :=
  Routine.all
    [Routine.look (sched .openJournal),
      Routine.perform (sched .fault) fun w => { w with fault := some "Policy rollback unconfirmed" }, Routine.raise]

def recover (before : World Table) (p : Prepared Script) : Routine (World Table) :=
  Routine.all
    [closeGate nft sched .againList .againFlush, Routine.handle (undo nft sched before p) (recordFault sched), Routine.raise]

/-- The tokens are durable, and the tables listed for a rollback, before the gate is closed. -/
def preamble (p : Prepared Script) (before : World Table) : Routine (World Table) :=
  Routine.all
    [register sched p.metadata, Routine.look (sched .inventory), Routine.look (sched .readState),
      fun w => (w, p.plan.keys.all fun key =>
      decide (key = gateKey) || (before.tables key).isNone || decide (sched (.listTable key) = .ok)),
      closeGate nft sched .closeList .closeFlush]

def applyPrepared (p : Prepared Script) : Routine (World Table) := fun before =>
  Routine.seq (preamble nft sched p before)
    (Routine.handle (activate nft sched p) (recover nft sched before p)) before

def unchanged (w : World Table) (p : Prepared Script) (replay : Bool) : Bool :=
  !replay && w.stateFile.any fun old =>
    decide (old.xml = p.state.xml) && decide (old.bindings = p.state.bindings) && decide (old.bootId = p.state.bootId)

def apply (request : Request) (replay : Bool) (plan : Except String (Plan Script)) : Routine (World Table) := fun w =>
  match prepare w request plan with
  | .error _ => Routine.raise w
  | .ok p => if unchanged w p replay then Routine.skip w else applyPrepared nft sched p w

end apply

end FfnNgfw.Runtime
