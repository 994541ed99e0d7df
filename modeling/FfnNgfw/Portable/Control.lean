import FfnNgfw.Portable.Abi
import FfnNgfw.Portable.Tables
import FfnNgfw.Portable.Process

/-!
# Control plane of the portable dataplane

Region handshake, bank activation and the command loop (`ffn_dp_oct.c`). The
content of the shared region is part of the context; the management plane may
change it between any two steps.
-/

namespace FfnNgfw.Portable
open Mem

def dpDefaultFlows : UInt32 := 262144

/-- `dp_init`: `none` when sizing the flow table does not end. `ioInit` is what the
I/O backend's own initialiser returns. -/
def dpInit (calloc : Bool) (ioInit : Rc) (flowSlots : UInt32) : Option (DpCtx × Rc) :=
  (dpFlowInit calloc (if flowSlots ≠ 0 then flowSlots else dpDefaultFlows)).map fun (flows, rc) =>
    let c : DpCtx :=
      { region := none, regionSize := 0, activeBank := 0, defaultDecision := fpDrop, stop := false,
        tables := Tables.zero, flows := flows, statRx := 0, statTx := 0, statTxFail := 0, statForward := 0,
        statInspect := 0, statDrop := 0, statPunt := 0, statLocal := 0, statCacheHit := 0, statClassify := 0,
        statParseErr := 0, statFlowFull := 0 }
    (c, if rc ≠ .ok then rc else ioInit)

theorem dpInit_one : (dpInit true .ok 1).isSome := rfl

def dpSetState (c : DpCtx) (state : DpState) : DpCtx :=
  { c with region := c.region.map fun m => stLe32 m offDpState state.code }

def dpHeartbeat (c : DpCtx) : DpCtx :=
  { c with region := c.region.map fun m => stLe64 m offDpHeartbeat (ldLe64 m offDpHeartbeat + 1) }

def dpRegionAttach (c : DpCtx) (base : Option Mem) (size : Nat) (create : Bool) : DpCtx × Rc :=
  match base with
  | none => (c, .errShort)
  | some m =>
    if size < offStats then (c, .errShort)
    else
      let m := if create then ringInit (ringInit (ffnDpHdrInit m .boot) offCmdRing) offEvtRing else m
      let c := { c with region := some m, regionSize := size }
      if ffnDpHdrValid m then (dpSetState c .handshake, .ok) else (c, .errHandshake)

def bankOff (bank : UInt32) : Nat := if bank = 0 then offBank0 else offBank1

def bankAvail (c : DpCtx) (bank : UInt32) : Nat := min (c.regionSize - bankOff bank) bankSize

def dpActivateBank (c : DpCtx) (bank : UInt32) : DpCtx × Rc :=
  match c.region with
  | none => (c, .errBank)
  | some m =>
    if 1 < bank then (c, .errBank)
    else if c.regionSize < bankOff bank + fpHdrSizeW then (c, .errShort)
    else
      let (tables, rc) := dpTablesLoad m (some (bankOff bank)) (bankAvail c bank)
      let c := { c with tables := tables }
      if rc ≠ .ok then (c, rc)
      else
        ({ c with activeBank := bank, region := some (stLe32 m offActiveBank bank),
                  -- a policy change invalidates cached verdicts
                  flows := dpFlowFlush c.flows }, .ok)

def pushEvt (c : DpCtx) (e : Evt) (a0 a1 a2 : UInt64) : DpCtx :=
  { c with region := c.region.map fun m => (ringPush m offEvtRing ⟨e.code, a0, a1, a2⟩).getD m }

def intOfU64 (a : UInt64) : Int := a.toUInt32.toBitVec.toInt

def setBank (c : DpCtx) (a0 : UInt64) : DpCtx :=
  let (c, rc) := dpActivateBank c a0.toUInt32
  if rc = .ok then
    pushEvt (dpSetState c .ready) .ready a0 (UInt64.ofNat c.tables.policy.length) 0
  else pushEvt c .error (UInt64.ofNat (-rc.code).toNat) a0 0

def execCommand (c : DpCtx) (cmd : Cmd) (a0 : UInt64) : DpCtx :=
  match cmd with
  | .ping => pushEvt c .pong a0 0 0
  | .setBank => setBank c a0
  | .setDefault => { c with defaultDecision := intOfU64 a0 }
  | .flushFlows => { c with flows := dpFlowFlush c.flows }
  | .getStats => pushEvt c .stats c.statForward c.statDrop c.statCacheHit
  | .shutdown => { c with stop := true }
  | .nop | .unknown _ => c

/-- Dequeue a command: `none` when the ring is empty or no region is attached. -/
def popCommand (c : DpCtx) : Option (DpCtx × Cmd × UInt64) :=
  match c.region with
  | none => none
  | some m =>
    (ringPop m offCmdRing).map fun (m, d) => ({ c with region := some m }, Cmd.ofCode d.opcode, d.arg0)

def dpServiceOne (c : DpCtx) : Option DpCtx :=
  (popCommand c).map fun (c, cmd, a0) => execCommand c cmd a0

def serviceLoop : Nat → DpCtx → Nat → DpCtx × Nat
  | 0, c, handled => (c, handled)
  | fuel + 1, c, handled =>
    match dpServiceOne c with
    | none => (c, handled)
    | some c => serviceLoop fuel c (handled + 1)

def DpCtx.pending (c : DpCtx) : Nat :=
  match c.region with
  | none => 0
  | some m => (ringHead m offCmdRing - ringTail m offCmdRing).toNat

def dpServiceCommands (c : DpCtx) : DpCtx × Nat := serviceLoop c.pending c 0

/-- A dataplane that holds a flow table of `slots` slots, has attached a region with
the policy of `rules` in bank 0, and has not activated it yet. Bank 1 is zeroed. -/
def attachedCtx (slots : UInt32) (rules : List Rule) : Option DpCtx :=
  (dpInit true .ok slots).map fun (c, _) =>
    (dpRegionAttach c (some (Mem.write (fun _ => 0) offBank0 ((mkpolicy rules).getD []))) (offBank1 + bankSize) true).1

def loadedCtx (rules : List Rule) : DpCtx :=
  (dpActivateBank ((attachedCtx 1 rules).get rfl) 0).1

/-! ### What the control plane leaves alone -/

theorem popCommand_region {c c₁ : DpCtx} {cmd : Cmd} {a0 : UInt64} (h : popCommand c = some (c₁, cmd, a0)) :
    ∃ r, c₁ = { c with region := r } := by
  unfold popCommand at h
  split at h
  · cases h
  · obtain ⟨⟨m, d⟩, _, same⟩ := Option.map_eq_some_iff.mp h
    cases same
    exact ⟨some m, rfl⟩

def BankAccepted (c : DpCtx) (bank : UInt32) : Prop :=
  ∃ m, c.region = some m ∧ (dpTablesLoad m (some (bankOff bank)) (bankAvail c bank)).2 = .ok

def BankPresent (c : DpCtx) (bank : UInt32) : Prop :=
  c.region ≠ none ∧ bank ≤ 1 ∧ bankOff bank + fpHdrSizeW ≤ c.regionSize

theorem activate_cases (c : DpCtx) (bank : UInt32) :
    (¬BankPresent c bank ∧ (dpActivateBank c bank).1 = c ∧ (dpActivateBank c bank).2 ≠ .ok) ∨
    (BankPresent c bank ∧ ¬BankAccepted c bank ∧
      (dpActivateBank c bank).1 = { c with tables := Tables.zero } ∧ (dpActivateBank c bank).2 ≠ .ok) ∨
    (BankPresent c bank ∧ BankAccepted c bank ∧ (dpActivateBank c bank).2 = .ok ∧
      ∃ m t, c.region = some m ∧ t = (dpTablesLoad m (some (bankOff bank)) (bankAvail c bank)).1 ∧
        (dpActivateBank c bank).1 =
          { c with tables := t, activeBank := bank, region := some (stLe32 m offActiveBank bank),
                   flows := dpFlowFlush c.flows }) := by
  unfold dpActivateBank BankPresent BankAccepted
  cases hr : c.region with
  | none => exact Or.inl ⟨fun h => h.1 rfl, rfl, by simp⟩
  | some m =>
    dsimp only
    split
    · rename_i big
      exact Or.inl ⟨fun h => absurd big (UInt32.not_lt.mpr h.2.1), rfl, by simp⟩
    · rename_i small
      split
      · rename_i short
        exact Or.inl ⟨fun h => by omega, rfl, by simp⟩
      · rename_i long
        refine Or.inr ?_
        have present : some m ≠ none ∧ bank ≤ 1 ∧ bankOff bank + fpHdrSizeW ≤ c.regionSize :=
          ⟨by simp, UInt32.not_lt.mp small, by omega⟩
        split
        · rename_i failed
          refine Or.inl ⟨present, ?_, ?_, failed⟩
          · rintro ⟨m', same, ok⟩
            cases same
            exact failed ok
          · simp only [dpTablesLoad_failed failed]
        · rename_i accepted
          simp only [ne_eq, Decidable.not_not] at accepted
          exact Or.inr ⟨present, ⟨m, rfl, accepted⟩, rfl, m, _, rfl, rfl, rfl⟩

end FfnNgfw.Portable

/-!
## Failed policy activation

`dp_tables_load` clears the table it is given before it looks at the blob, and
`dp_activate_bank` gives it the table in use. An activation that the loader
rejects therefore leaves an empty policy behind, with the active bank and the
flow cache of the old one.
-/

namespace FfnNgfw.Portable
open Mem

/-- The policy in force is the same: the rows, the active bank and what every
later packet is given. -/
def SamePolicy (c c' : DpCtx) : Prop :=
  c'.tables = c.tables ∧ c'.activeBank = c.activeBank ∧ ∀ ps, (processAll c' ps).2 = (processAll c ps).2

def ActivationAtomic (c : DpCtx) (bank : UInt32) : Prop :=
  (dpActivateBank c bank).2 ≠ .ok → SamePolicy c (dpActivateBank c bank).1

/-- A failed `DP_CMD_SET_BANK` changes nothing, whatever the turn of the command loop. -/
def CommandAtomic (c : DpCtx) : Prop :=
  ∀ c₁ a0, popCommand c = some (c₁, .setBank, a0) → (dpActivateBank c₁ a0.toUInt32).2 ≠ .ok →
    ∀ c', dpServiceOne c = some c' → SamePolicy c c'

def LoaderRejects (c : DpCtx) (bank : UInt32) : Prop := BankPresent c bank ∧ ¬BankAccepted c bank

theorem samePolicy_region (c : DpCtx) (r : Option Mem) : SamePolicy c { c with region := r } :=
  ⟨rfl, rfl, processAll_region c r⟩

theorem samePolicy_trans {a b c : DpCtx} (h : SamePolicy a b) (k : SamePolicy b c) : SamePolicy a c :=
  ⟨k.1.trans h.1, k.2.1.trans h.2.1, fun ps => (k.2.2 ps).trans (h.2.2 ps)⟩

theorem setBank_failed {c : DpCtx} {a0 : UInt64} (failed : (dpActivateBank c a0.toUInt32).2 ≠ .ok) :
    ∃ r, setBank c a0 = { (dpActivateBank c a0.toUInt32).1 with region := r } := by
  unfold setBank
  dsimp only
  rw [if_neg failed]
  exact ⟨_, rfl⟩

/-- After a failed activation the policy is the same exactly when the loader was
not reached, or there was no policy to lose. -/
theorem activate_failed_iff {c : DpCtx} {bank : UInt32} (failed : (dpActivateBank c bank).2 ≠ .ok) :
    SamePolicy c (dpActivateBank c bank).1 ↔ (LoaderRejects c bank → c.tables = Tables.zero) := by
  rcases activate_cases c bank with ⟨absent, same, _⟩ | ⟨present, rejected, cleared, _⟩ | ⟨_, _, ok, _⟩
  · rw [same]
    exact ⟨fun _ rejects => absurd rejects.1 absent, fun _ => ⟨rfl, rfl, fun _ => rfl⟩⟩
  · rw [cleared]
    constructor
    · intro kept _
      exact kept.1.symm
    · intro empty
      rw [← empty ⟨present, rejected⟩]
      exact ⟨rfl, rfl, fun _ => rfl⟩
  · exact absurd ok failed

theorem activate_failed_of_rejects {c : DpCtx} {bank : UInt32} (rejects : LoaderRejects c bank) :
    (dpActivateBank c bank).2 ≠ .ok := by
  rcases activate_cases c bank with ⟨absent, _⟩ | ⟨_, _, _, failed⟩ | ⟨_, accepted, _⟩
  · exact absurd rejects.1 absent
  · exact failed
  · exact absurd accepted rejects.2

theorem samePolicy_command_iff {c c₁ : DpCtx} {a0 : UInt64} (popped : popCommand c = some (c₁, .setBank, a0))
    (failed : (dpActivateBank c₁ a0.toUInt32).2 ≠ .ok) :
    SamePolicy c (setBank c₁ a0) ↔ SamePolicy c₁ (dpActivateBank c₁ a0.toUInt32).1 := by
  obtain ⟨r, rfl⟩ := popCommand_region popped
  obtain ⟨r', after⟩ := setBank_failed failed
  rw [after]
  have back : SamePolicy { c with region := r } c := samePolicy_region { c with region := r } c.region
  have undo (d : DpCtx) : SamePolicy { d with region := r' } d :=
    samePolicy_region { d with region := r' } d.region
  exact ⟨fun h => samePolicy_trans back (samePolicy_trans h (undo _)),
    fun h => samePolicy_trans (samePolicy_region c r) (samePolicy_trans h (samePolicy_region _ r'))⟩

/-- Failed activation is atomic, called directly or through the command ring,
exactly in the contexts where the loader does not reject the blob of a bank it
was given while a policy is loaded. -/
theorem activation_atomic_iff (c : DpCtx) :
    (∀ bank, ActivationAtomic c bank ↔ (LoaderRejects c bank → c.tables = Tables.zero)) ∧
    (CommandAtomic c ↔ ∀ c₁ a0, popCommand c = some (c₁, .setBank, a0) →
      LoaderRejects c₁ a0.toUInt32 → c.tables = Tables.zero) := by
  refine ⟨fun bank => ⟨fun atomic rejects => ?_, fun empty failed => ?_⟩, ?_⟩
  · have failed := activate_failed_of_rejects rejects
    exact (activate_failed_iff failed).mp (atomic failed) rejects
  · exact (activate_failed_iff failed).mpr empty
  · constructor
    · intro atomic c₁ a0 popped rejects
      have failed := activate_failed_of_rejects rejects
      have kept := atomic c₁ a0 popped failed _ (by rw [dpServiceOne, popped]; rfl)
      have empty := (activate_failed_iff failed).mp ((samePolicy_command_iff popped failed).mp kept) rejects
      obtain ⟨r, rfl⟩ := popCommand_region popped
      exact empty
    · intro empty c₁ a0 popped failed c' served
      have ran : c' = setBank c₁ a0 := by
        rw [dpServiceOne, popped] at served
        exact (Option.some.inj served).symm
      rw [ran, samePolicy_command_iff popped failed, activate_failed_iff failed]
      obtain ⟨r, rfl⟩ := popCommand_region popped
      exact empty _ a0 popped

def allowAny : Rule := ⟨0, 0, .any, .any, 0⟩

theorem allowAny_not_atomic : ¬ActivationAtomic (loadedCtx [allowAny]) 1 := by
  intro atomic
  have kept := (atomic (by decide)).1
  have rows : ((dpActivateBank (loadedCtx [allowAny]) 1).1.tables.policy.length) = 1 := by rw [kept]; decide
  exact absurd rows (by decide)

end FfnNgfw.Portable
