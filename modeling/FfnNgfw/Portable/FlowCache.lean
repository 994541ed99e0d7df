import FfnNgfw.Portable.Control

/-!
# What the flow cache answers

The cache is seen as a partial map from conversations to verdicts. Processing a
packet changes the map at the packet's own conversation only, and a stored
verdict is the one that classification gave to the first packet of the
conversation that was forwarded, inspected or dropped.
-/

namespace FfnNgfw.Portable
open Mem

/-! ### Entries -/

/-- The decisions that an entry can hold. The others are evaluated again. -/
def Cacheable (dec : Int) : Prop := dec = fpForward ∨ dec = fpInspect ∨ dec = fpDrop

instance (dec : Int) : Decidable (Cacheable dec) := by
  unfold Cacheable
  infer_instance

def FlowEnt.cached (e : FlowEnt) : Option (Int × UInt16 × UInt16) :=
  if e.verdict = .unset then none else some (e.decision, e.ruleId, e.egress)

def FlowEnt.Wf (e : FlowEnt) : Prop := e.verdict = .unset → e.flags = 0

def FlowEnt.fresh (k : FlowKey) : FlowEnt := { FlowEnt.zero with key := k, used := true }

section entries

variable (e : FlowEnt) (len : UInt32) (dec : Int) (ruleId egress : UInt16)

theorem record_key : (e.record len dec ruleId egress).key = e.key := by
  unfold FlowEnt.record
  dsimp only
  repeat' split
  all_goals rfl

theorem record_used : (e.record len dec ruleId egress).used = e.used := by
  unfold FlowEnt.record
  dsimp only
  repeat' split
  all_goals rfl

theorem record_wf (wf : e.Wf) (unset : e.verdict = .unset) : (e.record len dec ruleId egress).Wf := by
  unfold FlowEnt.record FlowEnt.Wf
  dsimp only
  have flags := wf unset
  repeat' split
  all_goals simp [flags]

theorem record_cached (wf : e.Wf) (unset : e.verdict = .unset) :
    (e.record len dec ruleId egress).cached = if Cacheable dec then some (dec, ruleId, egress) else none := by
  have flags := wf unset
  unfold FlowEnt.record FlowEnt.cached FlowEnt.decision Cacheable
  dsimp only
  by_cases forward : dec = fpForward
  · simp [forward, flags]
  by_cases inspect : dec = fpInspect
  · simp [inspect, flags, ffInspect, fpInspect, fpForward]
  by_cases drop : dec = fpDrop
  · simp [drop, fpDrop, fpInspect, fpForward]
  · simp [forward, inspect, drop]

theorem touch_cached : (e.touch len).cached = e.cached := rfl

theorem touch_wf (wf : e.Wf) : (e.touch len).Wf := wf

theorem fresh_wf (k : FlowKey) : (FlowEnt.fresh k).Wf := fun _ => rfl

end entries

def FlowTable.Room (ft : FlowTable) (k : FlowKey) : Prop := ∃ i, ft.probe k = .free i

/-- `ft'` is `ft` with the entry `e` under `k`. -/
structure Stores (ft ft' : FlowTable) (k : FlowKey) (e : FlowEnt) : Prop where
  wf : ft'.Wf
  self : ft'.get k = some e
  other : ∀ k', k' ≠ k → ft'.get k' = ft.get k'
  room : ∀ k', ft'.Room k' → ft.Room k'
  taken : ¬ft'.Room k

variable {ft : FlowTable} {k : FlowKey}

theorem not_room_of_hit {i : Nat} (h : ft.probe k = .hit i) : ¬ft.Room k := by
  rintro ⟨j, free⟩
  rw [h] at free
  cases free

theorem get_none_of_full (full : ft.probe k = .full) : ft.get k = none :=
  Scheme.get_eq_none fun j hit => by
    rw [FlowTable.probe, hit] at full
    cases full

theorem get_none_of_empty (empty : ft.ent = fun _ => FlowEnt.zero) (k : FlowKey) : ft.get k = none := by
  apply Scheme.get_eq_none
  intro i hit
  have used := (Scheme.probe_hit hit).1
  rw [empty] at used
  cases used

theorem set_hit {i : Nat} {e : FlowEnt} (wf : ft.Wf)
    (found : ft.probe k = .hit i) (used : e.used = true) (key : e.key = k) : Stores ft (ft.set i e) k e := by
  have old := Scheme.probe_hit found
  have sameUsed : e.used = (ft.ent i).used := used.trans old.1.symm
  have sameKey : e.key = (ft.ent i).key := key.trans old.2.symm
  have probes : ∀ k', (ft.set i e).probe k' = ft.probe k' := fun k' => Scheme.probe_update sameUsed sameKey k'
  refine ⟨Scheme.Wf.update wf sameUsed sameKey, Scheme.get_update found used key,
    fun k' other => Scheme.get_update_of_ne found used key other, ?_, ?_⟩
  · rintro k' ⟨j, free⟩
    exact ⟨j, (probes k').symm.trans free⟩
  · exact not_room_of_hit ((probes k).trans found)

theorem set_free {i : Nat} {e : FlowEnt} (wf : ft.Wf)
    (found : ft.probe k = .free i) (used : e.used = true) (key : e.key = k) (count : UInt32) :
    Stores ft { ft.set i e with count := count } k e := by
  refine ⟨Scheme.Wf.insert wf found used key, Scheme.get_insert found used key,
    fun k' other => Scheme.get_insert_of_ne wf found key other, ?_, ?_⟩
  · rintro k' ⟨j, free⟩
    cases there : ft.probe k' with
    | free l => exact ⟨l, there⟩
    | hit l =>
      have still : ({ ft.set i e with count := count } : FlowTable).probe k' = .hit l :=
        Scheme.probe_insert_hit found there
      rw [still] at free
      cases free
    | full =>
      have still : ({ ft.set i e with count := count } : FlowTable).probe k' = .full :=
        Scheme.probe_insert_full found there
      rw [still] at free
      cases free
  · exact not_room_of_hit (Scheme.probe_insert_self found used key)

/-! ### One packet -/

@[simp] theorem countCached_flows (c : DpCtx) (dec : Int) : (countCached c dec).flows = c.flows := by
  unfold countCached
  repeat' split
  all_goals rfl

@[simp] theorem countDecision_flows (c : DpCtx) (dec : Int) : (countDecision c dec).flows = c.flows := by
  unfold countDecision
  repeat' split
  all_goals rfl

def classified (c : DpCtx) (t : Tuple) : DpResult :=
  ⟨some t, (c.classify t).1, (c.classify t).2.1, (c.classify t).2.2, false, false⟩

theorem cacheMiss_some (c : DpCtx) (t : Tuple) (k : FlowKey) (i : Nat) (len : UInt32) :
    (cacheMiss c t k (some i) len).1.flows =
        c.flows.set i ((c.flows.ent i).record len (c.classify t).1 (c.classify t).2.1 (c.classify t).2.2) ∧
      (cacheMiss c t k (some i) len).2 = classified c t := by
  unfold cacheMiss
  exact ⟨countDecision_flows _ _, rfl⟩

theorem insert_free {i : Nat} (found : ft.probe k = .free i) :
    dpFlowInsert ft k = ({ ft.set i (FlowEnt.fresh k) with count := ft.count + 1 }, some i) := by
  rw [dpFlowInsert, found]
  rfl

theorem insert_full (found : ft.probe k = .full) :
    dpFlowInsert ft k = (ft, none) := by
  rw [dpFlowInsert, found]

theorem cacheMiss_none {c : DpCtx} (t : Tuple) (len : UInt32) (absent : dpFlowLookup c.flows k = none) :
    (cacheMiss c t k none len).2 = classified c t ∧
      ((∃ i n, c.flows.probe k = .free i ∧ (cacheMiss c t k none len).1.flows =
          { c.flows.set i ((FlowEnt.fresh k).record len (c.classify t).1 (c.classify t).2.1 (c.classify t).2.2) with
            count := n }) ∨
        (c.flows.probe k = .full ∧ (cacheMiss c t k none len).1.flows = c.flows)) := by
  unfold dpFlowLookup at absent
  refine ⟨rfl, ?_⟩
  cases found : c.flows.probe k with
  | hit i => simp [found] at absent
  | full =>
    refine Or.inr ⟨rfl, ?_⟩
    simp only [cacheMiss, insert_full found, countDecision_flows]
  | free i =>
    refine Or.inl ⟨i, c.flows.count + 1, rfl, ?_⟩
    simp only [cacheMiss, insert_free found, countDecision_flows]
    simp [FlowTable.set]

section paths

variable {c : DpCtx} {p : Packet} {t : Tuple} {i : Nat} (parsed : dpParse p = .ok t)
include parsed

theorem process_hit (found : dpFlowLookup c.flows (dpFlowKeyFromTuple t) = some i)
    (set : (c.flows.ent i).verdict ≠ .unset) :
    dpProcess c p = ((cacheHit c t i p.len).1, (cacheHit c t i p.len).2, .ok) := by
  simp only [process_ok parsed, processTuple, found, if_pos set]

theorem process_unset (found : dpFlowLookup c.flows (dpFlowKeyFromTuple t) = some i)
    (unset : (c.flows.ent i).verdict = .unset) :
    dpProcess c p = ((cacheMiss c t (dpFlowKeyFromTuple t) (some i) p.len).1,
      (cacheMiss c t (dpFlowKeyFromTuple t) (some i) p.len).2, .ok) := by
  simp only [process_ok parsed, processTuple, found, unset, ne_eq, not_true_eq_false, if_false]

theorem process_absent (absent : dpFlowLookup c.flows (dpFlowKeyFromTuple t) = none) :
    dpProcess c p = ((cacheMiss c t (dpFlowKeyFromTuple t) none p.len).1,
      (cacheMiss c t (dpFlowKeyFromTuple t) none p.len).2, .ok) := by
  simp only [process_ok parsed, processTuple, absent]

end paths

theorem process_cases {c : DpCtx} {p : Packet} {t : Tuple} (parsed : dpParse p = .ok t) (wf : c.flows.Wf) :
    (∃ e, c.flows.get (dpFlowKeyFromTuple t) = some e ∧ e.verdict ≠ .unset ∧
      Stores c.flows (dpProcess c p).1.flows (dpFlowKeyFromTuple t) (e.touch p.len) ∧
      (dpProcess c p).2.1 = ⟨some t, e.decision, e.ruleId, e.egress, true, decide (e.verdict = .reset)⟩) ∨
    ((dpProcess c p).2.1 = classified c t ∧
      ((∃ e, e.verdict = .unset ∧
          (c.flows.get (dpFlowKeyFromTuple t) = some e ∨
            (c.flows.get (dpFlowKeyFromTuple t) = none ∧ c.flows.Room (dpFlowKeyFromTuple t) ∧
              e = FlowEnt.fresh (dpFlowKeyFromTuple t))) ∧
          Stores c.flows (dpProcess c p).1.flows (dpFlowKeyFromTuple t)
            (e.record p.len (c.classify t).1 (c.classify t).2.1 (c.classify t).2.2)) ∨
        (c.flows.probe (dpFlowKeyFromTuple t) = .full ∧ (dpProcess c p).1.flows = c.flows))) := by
  cases lookup : dpFlowLookup c.flows (dpFlowKeyFromTuple t) with
  | some i =>
    have found : c.flows.probe (dpFlowKeyFromTuple t) = .hit i := by
      unfold dpFlowLookup at lookup
      split at lookup
      · cases lookup; assumption
      · cases lookup
    have stored := Scheme.probe_hit found
    have get : c.flows.get (dpFlowKeyFromTuple t) = some (c.flows.ent i) := Scheme.get_hit found
    by_cases unset : (c.flows.ent i).verdict = .unset
    · obtain ⟨flows, out⟩ := cacheMiss_some c t (dpFlowKeyFromTuple t) i p.len
      rw [process_unset parsed lookup unset]
      refine Or.inr ⟨out, Or.inl ⟨c.flows.ent i, unset, Or.inl get, ?_⟩⟩
      rw [flows]
      exact set_hit wf found ((record_used _ _ _ _ _).trans stored.1) ((record_key _ _ _ _ _).trans stored.2)
    · rw [process_hit parsed lookup unset]
      refine Or.inl ⟨c.flows.ent i, get, unset, ?_, rfl⟩
      simp only [cacheHit, countCached_flows]
      exact set_hit wf found stored.1 stored.2
  | none =>
    rw [process_absent parsed lookup]
    obtain ⟨out, ⟨i, n, found, flows⟩ | ⟨full, flows⟩⟩ := cacheMiss_none t p.len lookup
    · have get : c.flows.get (dpFlowKeyFromTuple t) = none :=
        Scheme.get_eq_none fun j hit => by
          rw [FlowTable.probe, hit] at found
          cases found
      refine Or.inr ⟨out, Or.inl ⟨FlowEnt.fresh _, rfl, Or.inr ⟨get, ⟨i, found⟩, rfl⟩, ?_⟩⟩
      rw [flows]
      exact set_free wf found (record_used _ _ _ _ _) (record_key _ _ _ _ _) n
    · exact Or.inr ⟨out, Or.inr ⟨full, flows⟩⟩

/-! ### What a packet leaves alone -/

theorem countCached_policy (c : DpCtx) (dec : Int) :
    (countCached c dec).tables = c.tables ∧ (countCached c dec).defaultDecision = c.defaultDecision := by
  unfold countCached
  repeat' split
  all_goals exact ⟨rfl, rfl⟩

theorem countDecision_policy (c : DpCtx) (dec : Int) :
    (countDecision c dec).tables = c.tables ∧ (countDecision c dec).defaultDecision = c.defaultDecision := by
  unfold countDecision
  repeat' split
  all_goals exact ⟨rfl, rfl⟩

theorem cacheMiss_policy (c : DpCtx) (t : Tuple) (k : FlowKey) (slot : Option Nat) (len : UInt32) :
    (cacheMiss c t k slot len).1.tables = c.tables ∧
      (cacheMiss c t k slot len).1.defaultDecision = c.defaultDecision := by
  unfold cacheMiss
  dsimp only
  obtain ⟨tables, default⟩ := countDecision_policy _ (c.classify t).1
  rw [tables, default]
  cases slot with
  | some i => exact ⟨rfl, rfl⟩
  | none => cases (dpFlowInsert c.flows k).2 <;> exact ⟨rfl, rfl⟩

theorem process_policy (c : DpCtx) (p : Packet) :
    (dpProcess c p).1.tables = c.tables ∧ (dpProcess c p).1.defaultDecision = c.defaultDecision := by
  unfold dpProcess
  cases dpParse p with
  | error rc => exact ⟨rfl, rfl⟩
  | ok t =>
    unfold processTuple
    dsimp only
    split
    · split
      · exact countCached_policy _ _
      · exact cacheMiss_policy _ _ _ _ _
    · exact cacheMiss_policy _ _ _ _ _

theorem process_classify (c : DpCtx) (p : Packet) (t : Tuple) : (dpProcess c p).1.classify t = c.classify t := by
  unfold DpCtx.classify
  rw [(process_policy c p).1, (process_policy c p).2]

theorem process_error {c : DpCtx} {p : Packet} {rc : Rc} (failed : dpParse p = .error rc) :
    (dpProcess c p).1.flows = c.flows ∧ (dpProcess c p).2.1.fromCache = false := by
  unfold dpProcess
  rw [failed]
  exact ⟨rfl, rfl⟩

end FfnNgfw.Portable

/-!
## Runs of the portable dataplane

A run interleaves packets with control traffic in any order. The management plane
writes commands and policy banks into the shared region, so that its content is
arbitrary before each step.
-/

namespace FfnNgfw.Portable
open Mem

inductive Event where
  | packet (p : Packet)
  /-- one turn of the loop of `dp_service_commands` -/
  | serve
  | heartbeat
  /-- the management plane writes the region -/
  | host (m : Mem)
  | attach (base : Option Mem) (size : Nat) (create : Bool)
  | activate (bank : UInt32)

def step (c : DpCtx) : Event → DpCtx
  | .packet p => (dpProcess c p).1
  | .serve => (dpServiceOne c).getD c
  | .heartbeat => dpHeartbeat c
  | .host m => { c with region := c.region.map fun _ => m }
  | .attach base size create => (dpRegionAttach c base size create).1
  | .activate bank => (dpActivateBank c bank).1

def run : DpCtx → List Event → DpCtx
  | c, [] => c
  | c, event :: rest => run (step c event) rest

def served (c : DpCtx) : Event → Option (Cmd × UInt64)
  | .serve => (popCommand c).map Prod.snd
  | _ => none

def Reachable (c : DpCtx) : Prop :=
  ∃ calloc ioInit slots c₀ events, dpInit calloc ioInit slots = some (c₀, .ok) ∧ c = run c₀ events

theorem run_append (c : DpCtx) (xs ys : List Event) : run c (xs ++ ys) = run (run c xs) ys := by
  induction xs generalizing c with
  | nil => rfl
  | cons event xs ih => exact ih (step c event)

theorem run_snoc (c : DpCtx) (xs : List Event) (event : Event) : run c (xs ++ [event]) = step (run c xs) event :=
  run_append c xs [event]

theorem activate_flows (c : DpCtx) (bank : UInt32) :
    ((dpActivateBank c bank).1.flows = c.flows ∨ (dpActivateBank c bank).1.flows = dpFlowFlush c.flows) ∧
      (dpActivateBank c bank).1.defaultDecision = c.defaultDecision := by
  rcases activate_cases c bank with ⟨_, same, _⟩ | ⟨_, _, cleared, _⟩ | ⟨_, _, _, _, _, _, _, after⟩
  · rw [same]
    exact ⟨Or.inl rfl, rfl⟩
  · rw [cleared]
    exact ⟨Or.inl rfl, rfl⟩
  · rw [after]
    exact ⟨Or.inr rfl, rfl⟩

theorem setBank_flows (c : DpCtx) (a0 : UInt64) :
    ((setBank c a0).flows = c.flows ∨ (setBank c a0).flows = dpFlowFlush c.flows) ∧
      (setBank c a0).defaultDecision = c.defaultDecision := by
  unfold setBank
  dsimp only
  split
  · exact activate_flows c a0.toUInt32
  · exact activate_flows c a0.toUInt32

theorem execCommand_flows (c : DpCtx) (cmd : Cmd) (a0 : UInt64) :
    ((execCommand c cmd a0).flows = c.flows ∨ (execCommand c cmd a0).flows = dpFlowFlush c.flows) ∧
      (cmd ≠ .setDefault → (execCommand c cmd a0).defaultDecision = c.defaultDecision) := by
  cases cmd with
  | setBank => exact ⟨(setBank_flows c a0).1, fun _ => (setBank_flows c a0).2⟩
  | flushFlows => exact ⟨Or.inr rfl, fun _ => rfl⟩
  | setDefault => exact ⟨Or.inl rfl, fun ne => absurd rfl ne⟩
  | nop | ping | getStats | shutdown | unknown _ => exact ⟨Or.inl rfl, fun _ => rfl⟩

theorem step_served {c : DpCtx} {event : Event} {cmd : Cmd} {a0 : UInt64} (took : served c event = some (cmd, a0)) :
    ∃ r, step c event = execCommand { c with region := r } cmd a0 := by
  cases event with
  | serve =>
    obtain ⟨⟨c₁, _⟩, popped, same⟩ := Option.map_eq_some_iff.mp took
    cases same
    obtain ⟨r, rfl⟩ := popCommand_region popped
    exact ⟨r, by rw [step, dpServiceOne, popped]; rfl⟩
  | packet | heartbeat | host | attach | activate => cases took

theorem attach_flows (c : DpCtx) (base : Option Mem) (size : Nat) (create : Bool) :
    (dpRegionAttach c base size create).1.flows = c.flows ∧
      (dpRegionAttach c base size create).1.defaultDecision = c.defaultDecision := by
  cases base with
  | none => exact ⟨rfl, rfl⟩
  | some m =>
    simp only [dpRegionAttach]
    repeat' split
    all_goals exact ⟨rfl, rfl⟩

theorem step_flows (c : DpCtx) (event : Event) :
    (∃ p, event = .packet p) ∨ (step c event).flows = c.flows ∨ (step c event).flows = dpFlowFlush c.flows := by
  cases event with
  | packet p => exact Or.inl ⟨p, rfl⟩
  | serve =>
    refine Or.inr ?_
    cases took : served c .serve with
    | none =>
      have idle : popCommand c = none := Option.map_eq_none_iff.mp took
      rw [step, dpServiceOne, idle]
      exact Or.inl rfl
    | some command =>
      obtain ⟨r, after⟩ := step_served took
      rw [after]
      exact (execCommand_flows { c with region := r } command.1 command.2).1
  | heartbeat | host => exact Or.inr (Or.inl rfl)
  | attach base size create => exact Or.inr (Or.inl (attach_flows c base size create).1)
  | activate bank => exact Or.inr (activate_flows c bank).1

theorem step_default {c : DpCtx} {event : Event} (kept : ∀ a0, served c event ≠ some (.setDefault, a0)) :
    (step c event).defaultDecision = c.defaultDecision := by
  cases event with
  | packet p => exact (process_policy c p).2
  | serve =>
    cases took : served c .serve with
    | none =>
      have idle : popCommand c = none := Option.map_eq_none_iff.mp took
      rw [step, dpServiceOne, idle]
      rfl
    | some command =>
      obtain ⟨cmd, a0⟩ := command
      obtain ⟨r, after⟩ := step_served took
      rw [after]
      refine (execCommand_flows { c with region := r } cmd a0).2 ?_
      rintro rfl
      exact kept a0 took
  | heartbeat | host => rfl
  | attach base size create => exact (attach_flows c base size create).2
  | activate bank => exact (activate_flows c bank).2

structure Sound (ft : FlowTable) : Prop where
  wf : ft.Wf
  entries : ∀ k e, ft.get k = some e → e.Wf

theorem sound_empty {ft : FlowTable} (empty : ft.ent = fun _ => FlowEnt.zero) : Sound ft :=
  ⟨wf_zero empty, by simp [get_none_of_empty empty]⟩

theorem sound_stores {ft ft' : FlowTable} {k : FlowKey} {e : FlowEnt} (sound : Sound ft)
    (stores : Stores ft ft' k e) (ok : e.Wf) : Sound ft' := by
  refine ⟨stores.wf, fun k' e' get => ?_⟩
  by_cases same : k' = k
  · subst same
    rw [stores.self] at get
    cases get
    exact ok
  · rw [stores.other k' same] at get
    exact sound.entries k' e' get

theorem process_sound {c : DpCtx} (p : Packet) (sound : Sound c.flows) : Sound (dpProcess c p).1.flows := by
  cases parsed : dpParse p with
  | error rc =>
    rw [(process_error parsed).1]
    exact sound
  | ok t =>
    rcases process_cases parsed sound.wf with ⟨e, get, _, stores, _⟩ | ⟨_, ⟨e, unset, origin, stores⟩ | ⟨_, same⟩⟩
    · exact sound_stores sound stores (touch_wf e p.len (sound.entries _ e get))
    · refine sound_stores sound stores (record_wf e _ _ _ _ ?_ unset)
      rcases origin with get | ⟨_, _, rfl⟩
      · exact sound.entries _ e get
      · exact fresh_wf _
    · rw [same]
      exact sound

theorem step_sound {c : DpCtx} (event : Event) (sound : Sound c.flows) : Sound (step c event).flows := by
  rcases step_flows c event with ⟨p, rfl⟩ | same | flushed
  · exact process_sound p sound
  · rw [same]
    exact sound
  · rw [flushed]
    exact sound_empty rfl

theorem run_sound {c : DpCtx} (events : List Event) (sound : Sound c.flows) : Sound (run c events).flows := by
  induction events generalizing c with
  | nil => exact sound
  | cons event rest ih => exact ih (step_sound event sound)

theorem init_empty {calloc : Bool} {ioInit : Rc} {slots : UInt32} {c : DpCtx}
    (h : dpInit calloc ioInit slots = some (c, .ok)) : c.flows.ent = fun _ => FlowEnt.zero := by
  unfold dpInit dpFlowInit at h
  simp only [Option.map_map, Option.map_eq_some_iff] at h
  obtain ⟨p, _, same⟩ := h
  exact (congrArg (fun r : DpCtx × Rc => r.1.flows.ent) same).symm

theorem reachable_sound {c : DpCtx} (reach : Reachable c) : Sound c.flows := by
  obtain ⟨calloc, ioInit, slots, c₀, events, init, rfl⟩ := reach
  exact run_sound events (sound_empty (init_empty init))

end FfnNgfw.Portable
