import FfnNgfw.Portable.FlowCache

/-!
# Disposition accounting

`dp_poll_once` counts every frame it receives, and the three switches over a decision
count what became of it. A decision is a byte of a policy row or an argument of a
command, and one that is none of the five codes is counted nowhere.
-/

namespace FfnNgfw.Portable
open Mem

/-! ### Polling -/

def dpBurst : Nat := 32

/-- The frames that one call of the backend's `rx` returns. With each goes whether the
backend's `tx` would take it. -/
structure Burst where
  frames : List (Packet × Bool)
  bounded : frames.length ≤ dpBurst

def Passes (dec : Int) : Prop := dec = fpForward ∨ dec = fpInspect

instance (dec : Int) : Decidable (Passes dec) := inferInstanceAs (Decidable (_ ∨ _))

def pollFrame (c : DpCtx) (frame : Packet × Bool) : DpCtx :=
  let (c, res, _) := dpProcess { c with statRx := c.statRx + 1 } frame.1
  if Passes res.decision then
    if frame.2 then { c with statTx := c.statTx + 1 } else { c with statTxFail := c.statTxFail + 1 }
  else c

/-- `none` when the backend has no `rx`. -/
def dpPollOnce (c : DpCtx) (rx : Option Burst) : DpCtx :=
  let c := dpHeartbeat (dpServiceCommands c).1
  match rx with
  | none => c
  | some burst => burst.frames.foldl pollFrame c

inductive Act where
  | attach (base : Option Mem) (size : Nat) (create : Bool)
  | activate (bank : UInt32)
  /-- the management plane writes the region -/
  | host (m : Mem)
  | poll (rx : Option Burst)

def act (c : DpCtx) : Act → DpCtx
  | .attach base size create => (dpRegionAttach c base size create).1
  | .activate bank => (dpActivateBank c bank).1
  | .host m => { c with region := c.region.map fun _ => m }
  | .poll rx => dpPollOnce c rx

def acts (c : DpCtx) (xs : List Act) : DpCtx := xs.foldl act c

def DpCtx.disposed (c : DpCtx) : UInt64 :=
  c.statForward + c.statInspect + c.statDrop + c.statPunt + c.statLocal + c.statParseErr

def DpCtx.passed (c : DpCtx) : UInt64 := c.statForward + c.statInspect

def DpCtx.sent (c : DpCtx) : UInt64 := c.statTx + c.statTxFail

structure Balanced (c : DpCtx) : Prop where
  received : c.statRx = c.disposed
  passed : c.sent = c.passed

def Known (dec : Int) : Prop :=
  dec = fpForward ∨ dec = fpInspect ∨ dec = fpPuntFpga ∨ dec = fpDrop ∨ dec = fpLocal

instance (dec : Int) : Decidable (Known dec) := inferInstanceAs (Decidable (_ ∨ _))

def RowsKnown (t : Tables) : Prop := ∀ r ∈ t.policy, Known r.action.toNat

/-- The rows of the bank, if they are loaded, have known actions. -/
def BankKnown (c : DpCtx) (bank : UInt32) : Prop :=
  BankPresent c bank → ∀ m, c.region = some m → RowsKnown (dpTablesLoad m (some (bankOff bank)) (bankAvail c bank)).1

def CommandKnown (c : DpCtx) (cmd : Cmd) (a0 : UInt64) : Prop :=
  match cmd with
  | .setBank => BankKnown c a0.toUInt32
  | .setDefault => Known (intOfU64 a0)
  | .nop | .ping | .getStats | .flushFlows | .shutdown | .unknown _ => True

def ServiceKnown : Nat → DpCtx → Prop
  | 0, _ => True
  | fuel + 1, c =>
    match popCommand c with
    | none => True
    | some (c, cmd, a0) => CommandKnown c cmd a0 ∧ ServiceKnown fuel (execCommand c cmd a0)

def ActKnown (c : DpCtx) : Act → Prop
  | .activate bank => BankKnown c bank
  | .poll _ => ServiceKnown c.pending c
  | .attach _ _ _ | .host _ => True

def ActsKnown : DpCtx → List Act → Prop
  | _, [] => True
  | c, x :: xs => ActKnown c x ∧ ActsKnown (act c x) xs

/-! ### Counters -/

variable {c : DpCtx}

theorem countDecision_disposed {dec : Int} (known : Known dec) :
    (countDecision c dec).disposed = c.disposed + 1 := by
  unfold countDecision DpCtx.disposed
  rcases known with rfl | rfl | rfl | rfl | rfl
  all_goals simp [fpForward, fpInspect, fpPuntFpga, fpDrop, fpLocal]
  all_goals ac_rfl

theorem countDecision_passed (c : DpCtx) (dec : Int) :
    (countDecision c dec).passed = c.passed + if Passes dec then 1 else 0 := by
  unfold countDecision DpCtx.passed Passes
  by_cases forward : dec = fpForward
  · simp only [forward, if_true, true_or]
    ac_rfl
  · by_cases inspect : dec = fpInspect
    · simp only [inspect, if_true, or_true]
      rw [if_neg (by decide)]
      ac_rfl
    · simp only [forward, inspect, or_self, if_false, UInt64.add_zero]
      repeat' split
      all_goals rfl

structure SameFrames (c c' : DpCtx) : Prop where
  received : c'.statRx = c.statRx
  sent : c'.sent = c.sent

theorem countDecision_frames (c : DpCtx) (dec : Int) : SameFrames c (countDecision c dec) := by
  unfold countDecision
  repeat' split
  all_goals exact ⟨rfl, rfl⟩

structure SameCounters (c c' : DpCtx) : Prop extends SameFrames c c' where
  disposed : c'.disposed = c.disposed
  passed : c'.passed = c.passed

theorem countCached_eq {dec : Int} (cacheable : Cacheable dec) :
    countCached c dec = countDecision c dec := by
  unfold countCached countDecision
  rcases cacheable with rfl | rfl | rfl
  all_goals rfl

theorem decision_cacheable (e : FlowEnt) : Cacheable e.decision := by
  unfold FlowEnt.decision Cacheable
  repeat' split
  · exact Or.inr (Or.inl rfl)
  · exact Or.inl rfl
  · exact Or.inr (Or.inr rfl)

theorem cacheMiss_counted (c : DpCtx) (t : Tuple) (key : FlowKey) (slot : Option Nat) (len : UInt32) :
    ∃ c₁, SameCounters c c₁ ∧ (cacheMiss c t key slot len).1 = countDecision c₁ (c.classify t).1 ∧
      (cacheMiss c t key slot len).2.decision = (c.classify t).1 := by
  refine ⟨_, ?_, rfl, rfl⟩
  cases slot with
  | some i => exact ⟨⟨rfl, rfl⟩, rfl, rfl⟩
  | none =>
    dsimp only
    cases (dpFlowInsert c.flows key).2 with
    | none => exact ⟨⟨rfl, rfl⟩, rfl, rfl⟩
    | some i => exact ⟨⟨rfl, rfl⟩, rfl, rfl⟩

theorem process_counted (c : DpCtx) (p : Packet) :
    (SameFrames c (dpProcess c p).1 ∧ (dpProcess c p).1.disposed = c.disposed + 1 ∧
      (dpProcess c p).1.passed = c.passed ∧ ¬Passes (dpProcess c p).2.1.decision) ∨
    ∃ c₁, SameCounters c c₁ ∧ (dpProcess c p).1 = countDecision c₁ (dpProcess c p).2.1.decision ∧
      (Cacheable (dpProcess c p).2.1.decision ∨ ∃ t, (dpProcess c p).2.1.decision = (c.classify t).1) := by
  cases parsed : dpParse p with
  | error rc =>
    refine Or.inl ?_
    rw [dpProcess, parsed]
    refine ⟨⟨rfl, rfl⟩, ?_, rfl, ?_⟩
    · unfold DpCtx.disposed parseFailed
      dsimp only
      ac_rfl
    · unfold parseFailed
      dsimp only
      split
      · decide
      · decide
  | ok t =>
    refine Or.inr ?_
    rw [process_ok parsed]
    dsimp only
    have missed (slot : Option Nat) := cacheMiss_counted c t (dpFlowKeyFromTuple t) slot p.len
    unfold processTuple
    dsimp only
    cases dpFlowLookup c.flows (dpFlowKeyFromTuple t) with
    | none =>
      obtain ⟨c₁, same, counted, decided⟩ := missed none
      exact ⟨c₁, same, by rw [decided]; exact counted, Or.inr ⟨t, decided⟩⟩
    | some i =>
      dsimp only
      split
      · refine ⟨_, ?_, countCached_eq (decision_cacheable (c.flows.ent i)), Or.inl (decision_cacheable _)⟩
        exact ⟨⟨rfl, rfl⟩, rfl, rfl⟩
      · obtain ⟨c₁, same, counted, decided⟩ := missed (some i)
        exact ⟨c₁, same, by rw [decided]; exact counted, Or.inr ⟨t, decided⟩⟩

/-! ### What is kept by a poll -/

/-- The rows in use and the default are decisions that are counted. -/
structure PolicyKnown (c : DpCtx) : Prop where
  rows : RowsKnown c.tables
  default : Known c.defaultDecision

theorem classify_known (known : PolicyKnown c) (t : Tuple) : Known (c.classify t).1 := by
  unfold DpCtx.classify dpClassify
  cases found : c.tables.select t with
  | none => exact known.default
  | some out =>
    obtain ⟨i, r⟩ := out
    dsimp only
    split
    · exact known.default
    · exact known.rows r (firstMatchFrom_mem found)

theorem cacheable_known {dec : Int} (cacheable : Cacheable dec) : Known dec := by
  rcases cacheable with forward | inspect | drop
  · exact Or.inl forward
  · exact Or.inr (Or.inl inspect)
  · exact Or.inr (Or.inr (Or.inr (Or.inl drop)))

theorem process_disposed (known : PolicyKnown c) (p : Packet) :
    (dpProcess c p).1.disposed = c.disposed + 1 := by
  rcases process_counted c p with ⟨_, disposed, _⟩ | ⟨c₁, same, counted, origin⟩
  · exact disposed
  · have decided : Known (dpProcess c p).2.1.decision := by
      rcases origin with cacheable | ⟨t, classified⟩
      · exact cacheable_known cacheable
      · rw [classified]
        exact classify_known known t
    rw [counted, countDecision_disposed decided, same.disposed]

theorem process_passed (c : DpCtx) (p : Packet) :
    (dpProcess c p).1.passed = c.passed + (if Passes (dpProcess c p).2.1.decision then 1 else 0) ∧
      SameFrames c (dpProcess c p).1 := by
  rcases process_counted c p with ⟨frames, _, passed, notPassed⟩ | ⟨c₁, same, counted, _⟩
  · rw [if_neg notPassed, UInt64.add_zero]
    exact ⟨passed, frames⟩
  · have frames := countDecision_frames c₁ (dpProcess c p).2.1.decision
    rw [counted, countDecision_passed, same.passed]
    exact ⟨rfl, frames.received.trans same.received, frames.sent.trans same.sent⟩

structure Accounted (c : DpCtx) : Prop where
  known : PolicyKnown c
  balanced : Balanced c

theorem Accounted.kept {c c' : DpCtx} (h : Accounted c) (known : PolicyKnown c') (same : SameCounters c c') :
    Accounted c' := by
  obtain ⟨received, passed⟩ := h.balanced
  refine ⟨known, ?_, ?_⟩
  · rw [same.received, same.disposed, received]
  · rw [same.sent, same.passed, passed]

theorem pollFrame_accounted (h : Accounted c) (frame : Packet × Bool) : Accounted (pollFrame c frame) := by
  obtain ⟨known, received, passed⟩ := h
  have knownRx : PolicyKnown { c with statRx := c.statRx + 1 } := ⟨known.rows, known.default⟩
  have policy := process_policy { c with statRx := c.statRx + 1 } frame.1
  have disposed := process_disposed knownRx frame.1
  have counts := process_passed { c with statRx := c.statRx + 1 } frame.1
  generalize out : dpProcess { c with statRx := c.statRx + 1 } frame.1 = r at policy disposed counts
  obtain ⟨passes, frames⟩ := counts
  have rx : r.1.statRx = r.1.disposed := by
    rw [frames.received, disposed]
    exact congrArg (· + 1) received
  have knownOut : PolicyKnown r.1 := by
    constructor
    · rw [policy.1]
      exact known.rows
    · rw [policy.2]
      exact known.default
  have sent : r.1.sent = c.passed := frames.sent.trans passed
  unfold pollFrame
  rw [out]
  dsimp only
  split
  · rename_i isPassed
    rw [if_pos isPassed] at passes
    split
    · refine ⟨⟨knownOut.rows, knownOut.default⟩, rx, ?_⟩
      refine Eq.trans ?_ passes.symm
      rw [show DpCtx.passed { c with statRx := c.statRx + 1 } = c.passed from rfl, ← sent]
      unfold DpCtx.sent
      dsimp only
      ac_rfl
    · refine ⟨⟨knownOut.rows, knownOut.default⟩, rx, ?_⟩
      refine Eq.trans ?_ passes.symm
      rw [show DpCtx.passed { c with statRx := c.statRx + 1 } = c.passed from rfl, ← sent]
      unfold DpCtx.sent
      dsimp only
      ac_rfl
  · rename_i notPassed
    rw [if_neg notPassed, UInt64.add_zero] at passes
    exact ⟨knownOut, rx, sent.trans passes.symm⟩

theorem activate_accounted (h : Accounted c) {bank : UInt32} (loaded : BankKnown c bank) :
    Accounted (dpActivateBank c bank).1 := by
  have empty : RowsKnown Tables.zero := nofun
  rcases activate_cases c bank with ⟨_, same, _⟩ | ⟨_, _, cleared, _⟩ | ⟨present, _, _, m, t, region, rfl, after⟩
  · rw [same]
    exact h
  · rw [cleared]
    exact h.kept ⟨empty, h.known.default⟩ ⟨⟨rfl, rfl⟩, rfl, rfl⟩
  · rw [after]
    exact h.kept ⟨loaded present m region, h.known.default⟩ ⟨⟨rfl, rfl⟩, rfl, rfl⟩

theorem execCommand_accounted (h : Accounted c) {cmd : Cmd} {a0 : UInt64} (known : CommandKnown c cmd a0) :
    Accounted (execCommand c cmd a0) := by
  cases cmd with
  | setBank =>
    have activated : Accounted (dpActivateBank c a0.toUInt32).1 := activate_accounted h known
    unfold execCommand setBank
    dsimp only
    split
    · exact activated.kept ⟨activated.known.rows, activated.known.default⟩ ⟨⟨rfl, rfl⟩, rfl, rfl⟩
    · exact activated.kept ⟨activated.known.rows, activated.known.default⟩ ⟨⟨rfl, rfl⟩, rfl, rfl⟩
  | setDefault => exact h.kept ⟨h.known.rows, known⟩ ⟨⟨rfl, rfl⟩, rfl, rfl⟩
  | nop | ping | getStats | flushFlows | shutdown | unknown _ =>
    exact h.kept ⟨h.known.rows, h.known.default⟩ ⟨⟨rfl, rfl⟩, rfl, rfl⟩

theorem serviceLoop_accounted {fuel : Nat} (h : Accounted c) (known : ServiceKnown fuel c) (handled : Nat) :
    Accounted (serviceLoop fuel c handled).1 := by
  induction fuel generalizing c handled with
  | zero => exact h
  | succ fuel ih =>
    unfold ServiceKnown at known
    unfold serviceLoop dpServiceOne
    cases popped : popCommand c with
    | none => exact h
    | some out =>
      obtain ⟨c₁, cmd, a0⟩ := out
      rw [popped] at known
      obtain ⟨first, rest⟩ := known
      obtain ⟨r, rfl⟩ := popCommand_region popped
      have before : Accounted { c with region := r } := h.kept ⟨h.known.rows, h.known.default⟩ ⟨⟨rfl, rfl⟩, rfl, rfl⟩
      exact ih (execCommand_accounted before first) rest (handled + 1)

theorem frames_accounted (h : Accounted c) (frames : List (Packet × Bool)) :
    Accounted (frames.foldl pollFrame c) := by
  induction frames generalizing c with
  | nil => exact h
  | cons frame frames ih => exact ih (pollFrame_accounted h frame)

theorem act_accounted (h : Accounted c) {x : Act} (known : ActKnown c x) : Accounted (act c x) := by
  have recorded {c' : DpCtx} (same : c'.tables = c.tables ∧ c'.defaultDecision = c.defaultDecision)
      (counters : SameCounters c c') : Accounted c' :=
    h.kept ⟨same.1 ▸ h.known.rows, same.2 ▸ h.known.default⟩ counters
  cases x with
  | attach base size create =>
    unfold act dpRegionAttach
    cases base with
    | none => exact h
    | some m =>
      dsimp only
      repeat' split
      · exact h
      all_goals exact recorded ⟨rfl, rfl⟩ ⟨⟨rfl, rfl⟩, rfl, rfl⟩
  | activate bank => exact activate_accounted h known
  | host m => exact recorded ⟨rfl, rfl⟩ ⟨⟨rfl, rfl⟩, rfl, rfl⟩
  | poll rx =>
    have served : Accounted (dpServiceCommands c).1 := serviceLoop_accounted h known 0
    have beaten : Accounted (dpHeartbeat (dpServiceCommands c).1) :=
      served.kept ⟨served.known.rows, served.known.default⟩ ⟨⟨rfl, rfl⟩, rfl, rfl⟩
    unfold act dpPollOnce
    cases rx with
    | none => exact beaten
    | some burst => exact frames_accounted beaten burst.frames

theorem init_accounted {calloc : Bool} {ioInit : Rc} {slots : UInt32}
    (h : dpInit calloc ioInit slots = some (c, .ok)) : Accounted c := by
  unfold dpInit at h
  obtain ⟨⟨flows, rc⟩, _, same⟩ := Option.map_eq_some_iff.mp h
  cases (congrArg Prod.fst same : _ = c)
  refine ⟨⟨nofun, Or.inr (Or.inr (Or.inr (Or.inl rfl)))⟩, rfl, rfl⟩

/-- As long as the rows that are loaded and the defaults that are set are decisions
that the dataplane knows, every frame is accounted for. -/
theorem dispositions_balance {calloc : Bool} {ioInit : Rc} {slots : UInt32} {c : DpCtx}
    (init : dpInit calloc ioInit slots = some (c, .ok)) (xs : List Act) (known : ActsKnown c xs) :
    Balanced (acts c xs) := by
  have all (c : DpCtx) (h : Accounted c) (xs : List Act) (known : ActsKnown c xs) : Accounted (acts c xs) := by
    induction xs generalizing c with
    | nil => exact h
    | cons x xs ih => exact ih (act c x) (act_accounted h known.1) known.2
  exact (all c (init_accounted init) xs known).balanced

def initCtx : DpCtx := ((dpInit true .ok 1).get dpInit_one).1

def oneFrame : Burst := ⟨[(icmpPacket 0x0A000001 0x0A000002 1, true)], by decide⟩

/-- Bank 0 holds one row, which forwards traffic from 10.0.0.1 to 10.0.0.2. -/
def ruledRegion : Mem :=
  Mem.write (fun _ => 0) offBank0 ((mkpolicy [⟨0, 0, .net 0x0A000001 32, .net 0x0A000002 32, 0⟩]).getD [])

def attachedActs : List Act := [.attach (some ruledRegion) (offBank1 + bankSize) true]

/-- The row is activated, and a `DP_CMD_SET_DEFAULT` with `FP_INSPECT` is in the ring. -/
def preparedActs : List Act :=
  attachedActs ++ [.activate 0,
    .host (((acts initCtx (attachedActs ++ [.activate 0])).region.bind fun m =>
      ringPush m offCmdRing ⟨4, 1, 0, 0⟩).getD fun _ => 0)]

/-- The first frame matches the row. The second takes the default, and is not sent. -/
def twoFrames : Burst :=
  ⟨[(icmpPacket 0x0A000001 0x0A000002 1, true), (icmpPacket 0x0A000009 0x0A000008 1, false)], by decide⟩

/-- A row is activated and a default is set before the frames are received. -/
theorem twoFrames_balance :
    dpInit true .ok 1 = some (initCtx, .ok) ∧ (acts initCtx preparedActs).tables.policy.map (·.action) = [0] ∧
      served (acts initCtx preparedActs) .serve = some (.setDefault, 1) ∧
      Balanced (acts initCtx (preparedActs ++ [.poll (some twoFrames)])) := by
  have init : dpInit true .ok 1 = some (initCtx, .ok) := rfl
  have rows : (acts initCtx preparedActs).tables.policy.map (·.action) = [0] := by decide +kernel
  have took : served (acts initCtx preparedActs) .serve = some (.setDefault, 1) := by decide +kernel
  have bank : BankKnown (acts initCtx attachedActs) 0 := by
    have loaded : ((acts initCtx attachedActs).region.map fun m =>
        (dpTablesLoad m (some (bankOff 0)) (bankAvail (acts initCtx attachedActs) 0)).1.policy.map (·.action)) =
          some [0] := by decide +kernel
    intro _ m region r row
    rw [region, Option.map_some] at loaded
    have action : r.action ∈ [0] := Option.some.inj loaded ▸ List.mem_map.mpr ⟨r, row, rfl⟩
    rw [List.mem_singleton.mp action]
    exact .inl rfl
  have service : ServiceKnown (acts initCtx preparedActs).pending (acts initCtx preparedActs) := by
    have pending : (acts initCtx preparedActs).pending = 1 := by decide +kernel
    rw [pending, ServiceKnown]
    have popped : (popCommand (acts initCtx preparedActs)).map Prod.snd = some (.setDefault, 1) := took
    obtain ⟨⟨c, cmd, a0⟩, popped, same⟩ := Option.map_eq_some_iff.mp popped
    cases same
    rw [popped]
    exact ⟨.inr (.inl (by decide)), trivial⟩
  exact ⟨init, rows, took, dispositions_balance init _ ⟨trivial, bank, trivial, service, trivial⟩⟩

/-- A command ring with one SET_DEFAULT of a decision that is none of the five. -/
def oddDefault : Mem :=
  let m := stLe32 (fun _ => 0) offCmdRing 1
  let m := stLe16 m (offCmdRing + ringHdrSz) 4
  stLe64 m (offCmdRing + ringHdrSz + 8) 9

def oddActs : List Act := [.attach (some fun _ => 0) (offBank1 + bankSize) true, .host oddDefault, .poll (some oneFrame)]

/-- The frame is received, takes the default, and is counted nowhere. -/
theorem oddActs_not_balanced : dpInit true .ok 1 = some (initCtx, .ok) ∧ ¬Balanced (acts initCtx oddActs) := by
  refine ⟨rfl, fun balanced => ?_⟩
  have received := balanced.received
  revert received
  decide +kernel

end FfnNgfw.Portable
