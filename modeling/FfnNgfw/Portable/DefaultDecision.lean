import Mathlib.Data.List.Induction
import FfnNgfw.Portable.CacheFidelity

/-!
# Changing the default decision

`DP_CMD_SET_DEFAULT` does not touch the cache. A conversation without a cached
verdict is given the new default by every packet that matches no row, unless its
other direction matches a row: the verdict of that row then covers both.
-/

namespace FfnNgfw.Portable
open Mem

/-- The decision of a packet among `events`, of the conversation of `t`, that was
classified by a row of the policy in force. -/
def RowDecided (c : DpCtx) (events : List Event) (t : Tuple) (dec : Int) : Prop :=
  ∃ pre q rest u, events = pre ++ .packet q :: rest ∧ dpParse q = .ok u ∧ SameConversation u t ∧
    (run c pre).tables.select u ≠ none ∧ (dpProcess (run c pre) q).2.1.fromCache = false ∧
    (dpProcess (run c pre) q).2.1.decision = dec

theorem rowDecided_append {c : DpCtx} {events : List Event} {t : Tuple} {dec : Int} (more : List Event)
    (h : RowDecided c events t dec) : RowDecided c (events ++ more) t dec := by
  obtain ⟨pre, q, rest, u, rfl, found⟩ := h
  exact ⟨pre, q, rest ++ more, u, by rw [List.append_assoc, List.cons_append], found⟩

def KeepsDefault (c : DpCtx) (events : List Event) : Prop :=
  ∀ pre event rest, events = pre ++ event :: rest → ∀ a0, served (run c pre) event ≠ some (.setDefault, a0)

theorem keepsDefault_left {c : DpCtx} {xs ys : List Event} (kept : KeepsDefault c (xs ++ ys)) : KeepsDefault c xs := by
  rintro pre event rest rfl
  exact kept pre event (rest ++ ys) (by rw [List.append_assoc, List.cons_append])

theorem run_default {c : DpCtx} {events : List Event} (kept : KeepsDefault c events) :
    (run c events).defaultDecision = c.defaultDecision := by
  induction events using List.reverseRecOn with
  | nil => rfl
  | append_singleton events event ih =>
    rw [run_snoc, step_default (kept events event [] rfl), ih (keepsDefault_left kept)]

/-- Every verdict cached for the conversation of `t` is the default `d` or was given
by a row. -/
structure Settled (c : DpCtx) (events : List Event) (t : Tuple) (d : Int) : Prop where
  sound : Sound (run c events).flows
  default : (run c events).defaultDecision = d
  line : ∀ e, (run c events).flows.get (dpFlowKeyFromTuple t) = some e → e.verdict ≠ .unset →
    e.decision = d ∨ RowDecided c events t e.decision

theorem classify_default {c : DpCtx} {t : Tuple} (unmatched : c.tables.select t = none) :
    (c.classify t).1 = c.defaultDecision := by
  simp [DpCtx.classify, dpClassify, unmatched]

theorem record_decision {e : FlowEnt} {len : UInt32} {dec : Int} {ruleId egress : UInt16} (wf : e.Wf)
    (unset : e.verdict = .unset) (set : (e.record len dec ruleId egress).verdict ≠ .unset) :
    (e.record len dec ruleId egress).decision = dec := by
  have cached := record_cached e len dec ruleId egress wf unset
  rw [FlowEnt.cached, if_neg set] at cached
  split at cached
  · exact congrArg Prod.fst (Option.some.inj cached)
  · cases cached

section settled

variable {c : DpCtx} {events : List Event} {t : Tuple} {d : Int} (settled : Settled c events t d)
include settled

theorem settled_line_append (more : List Event) {e : FlowEnt}
    (get : (run c events).flows.get (dpFlowKeyFromTuple t) = some e) (set : e.verdict ≠ .unset) :
    e.decision = d ∨ RowDecided c (events ++ more) t e.decision :=
  (settled.line e get set).imp id (rowDecided_append more)

theorem settled_classified {q : Packet} {u : Tuple} (parsed : dpParse q = .ok u) (same : SameConversation u t)
    (out : (dpProcess (run c events) q).2.1 = classified (run c events) u) :
    ((run c events).classify u).1 = d ∨
      RowDecided c (events ++ [.packet q]) t ((run c events).classify u).1 := by
  cases found : (run c events).tables.select u with
  | none => exact Or.inl ((classify_default found).trans settled.default)
  | some row =>
    refine Or.inr ⟨events, q, [], u, rfl, parsed, same, ?_, ?_, ?_⟩
    · rw [found]; simp
    · rw [out]; rfl
    · rw [out]; rfl

theorem settled_packet (q : Packet) : Settled c (events ++ [.packet q]) t d := by
  have after : run c (events ++ [.packet q]) = (dpProcess (run c events) q).1 := run_snoc c events (.packet q)
  refine ⟨?_, ?_, ?_⟩
  · rw [after]
    exact process_sound q settled.sound
  · rw [after, (process_policy (run c events) q).2]
    exact settled.default
  · rw [after]
    intro e get set
    by_cases inside : InConversation t q
    · obtain ⟨u, parsed, same⟩ := inside
      have key : dpFlowKeyFromTuple t = dpFlowKeyFromTuple u := ((flowKey_eq_iff u t).mpr same).symm
      rw [key] at get
      rcases process_cases parsed settled.sound.wf with
        ⟨old, found, _, stores, _⟩ | ⟨out, ⟨old, unset, origin, stores⟩ | ⟨full, kept⟩⟩
      · rw [stores.self] at get
        cases get
        rw [← key] at found
        exact settled_line_append (e := old) settled [.packet q] found set
      · rw [stores.self] at get
        cases get
        have ok : old.Wf := by
          rcases origin with found | ⟨_, _, rfl⟩
          · exact settled.sound.entries _ old found
          · exact fresh_wf _
        rw [record_decision ok unset set]
        exact settled_classified settled parsed same out
      · rw [kept, get_none_of_full full] at get
        cases get
    · rw [(process_get_other settled.sound.wf inside).2] at get
      exact settled_line_append settled [.packet q] get set

theorem settled_step {event : Event} (kept : ∀ a0, served (run c events) event ≠ some (.setDefault, a0)) :
    Settled c (events ++ [event]) t d := by
  rcases step_flows (run c events) event with ⟨p, rfl⟩ | same | flushed
  · exact settled_packet settled p
  · refine ⟨?_, ?_, ?_⟩
    · rw [run_snoc]
      exact step_sound event settled.sound
    · rw [run_snoc, step_default kept]
      exact settled.default
    · rw [run_snoc, same]
      intro e get set
      exact settled_line_append settled [event] get set
  · refine ⟨?_, ?_, ?_⟩
    · rw [run_snoc]
      exact step_sound event settled.sound
    · rw [run_snoc, step_default kept]
      exact settled.default
    · rw [run_snoc, flushed]
      intro e get
      rw [get_none_of_empty rfl] at get
      cases get

theorem settled_run {more : List Event} (kept : KeepsDefault c (events ++ more)) :
    Settled c (events ++ more) t d := by
  induction more using List.reverseRecOn with
  | nil =>
    rw [List.append_nil]
    exact settled
  | append_singleton more event ih =>
    rw [← List.append_assoc] at kept ⊢
    exact settled_step (ih (keepsDefault_left kept)) (kept (events ++ more) event [] rfl)

end settled

theorem settled_decision {c : DpCtx} {events : List Event} {t : Tuple} {d : Int} {p : Packet}
    (settled : Settled c events t d) (parsed : dpParse p = .ok t)
    (unmatched : (run c events).tables.select t = none) :
    (dpProcess (run c events) p).2.1.decision = d ∨
      ((dpProcess (run c events) p).2.1.fromCache = true ∧
        RowDecided c events t (dpProcess (run c events) p).2.1.decision) := by
  rcases process_cases parsed settled.sound.wf with ⟨e, get, set, _, out⟩ | ⟨out, _⟩
  · rw [out]
    exact (settled.line e get set).imp id fun row => ⟨rfl, row⟩
  · rw [out]
    exact Or.inl ((classify_default unmatched).trans settled.default)

/-- After `DP_CMD_SET_DEFAULT` and until the next one, a packet that matches no row
is given the new default if its conversation was without a cached verdict at some
time since the command, unless the cache answers with the decision of a row. -/
theorem default_takes_effect {c : DpCtx} (reach : Reachable c) {a0 : UInt64}
    (set : served c .serve = some (.setDefault, a0)) {mid rest : List Event}
    (kept : KeepsDefault (step c .serve) (mid ++ rest)) {p : Packet} {t : Tuple} (parsed : dpParse p = .ok t)
    (undecided : Undecided (run (step c .serve) mid).flows (dpFlowKeyFromTuple t))
    (unmatched : (run (step c .serve) (mid ++ rest)).tables.select t = none) :
    (dpProcess (run (step c .serve) (mid ++ rest)) p).2.1.decision = intOfU64 a0 ∨
      ((dpProcess (run (step c .serve) (mid ++ rest)) p).2.1.fromCache = true ∧
        RowDecided (step c .serve) (mid ++ rest) t
          (dpProcess (run (step c .serve) (mid ++ rest)) p).2.1.decision) := by
  obtain ⟨r, after⟩ := step_served set
  have default : (step c .serve).defaultDecision = intOfU64 a0 := by
    rw [after]
    rfl
  have start : Settled (step c .serve) mid t (intOfU64 a0) := by
    refine ⟨run_sound mid (step_sound .serve (reachable_sound reach)), ?_, ?_⟩
    · rw [run_default (keepsDefault_left kept), default]
    · intro e get set
      exact absurd (undecided e get) set
  exact settled_decision (settled_run start kept) parsed unmatched

/-! ### The reply of a forwarded request -/

def DefaultApplies (c : DpCtx) (a0 : UInt64) (events : List Event) (p : Packet) : Prop :=
  served c .serve = some (.setDefault, a0) → KeepsDefault (step c .serve) events →
    ∀ t, dpParse p = .ok t → (run (step c .serve) events).tables.select t = none →
      (dpProcess (run (step c .serve) events) p).2.1.decision = intOfU64 a0

/-- Requests from 10.0.0.1 to 10.0.0.2 are forwarded. No row covers the replies. -/
def forwardRules : List Rule := [⟨0, 0, .net 0x0A000001 32, .net 0x0A000002 32, 0⟩]

/-- The region after the management plane has pushed a `DP_CMD_SET_DEFAULT` with `FP_DROP`. -/
def setDefaultRegion : Mem :=
  ((loadedCtx forwardRules).region.bind fun m => ringPush m offCmdRing ⟨4, 3, 0, 0⟩).getD fun _ => 0

def setDefaultCtx : DpCtx := step (loadedCtx forwardRules) (.host setDefaultRegion)

theorem setDefaultCtx_reachable : Reachable setDefaultCtx :=
  ⟨true, .ok, 1, (dpInit true .ok 1).get rfl |>.1,
    [.attach (some (Mem.write (fun _ => 0) offBank0 ((mkpolicy forwardRules).getD []))) (offBank1 + bankSize) true,
      .activate 0, .host setDefaultRegion], rfl, rfl⟩

/-- The one row of `forwardRules` as `dpTablesLoad` reads it. -/
def forwardRow : PolicyRow := ⟨0x0A000001, 0xFFFFFFFF, 0x0A000002, 0xFFFFFFFF, 0, 65535, 0, 65535, 0, 1, 0, 0, 0xFFFF, 1⟩

theorem setDefaultCtx_loaded : served setDefaultCtx .serve = some (.setDefault, 3) ∧
    (step setDefaultCtx .serve).tables = ⟨1, [forwardRow], by decide⟩ := ⟨rfl, by decide +kernel⟩

theorem setDefaultCtx_eq : step setDefaultCtx .serve =
    { step setDefaultCtx .serve with tables := ⟨1, [forwardRow], by decide⟩ } := by
  rw [← setDefaultCtx_loaded.2]

theorem keepsDefault_request : KeepsDefault (step setDefaultCtx .serve) [.packet request] := by
  intro pre event rest split a0
  have first : event = .packet request := by
    cases pre with
    | nil => exact (List.cons.inj split).1.symm
    | cons _ pre => cases pre <;> cases (List.cons.inj split).2
  rw [first]
  intro took
  cases took

theorem reply_forwarded :
    (run (step setDefaultCtx .serve) [.packet request]).tables.select ⟨0x0A000002, 0x0A000001, 0, 0, 1, 1, 0⟩ = none ∧
      (dpProcess (run (step setDefaultCtx .serve) [.packet request]) reply).2.1.decision = fpForward := by
  have same : (run (step setDefaultCtx .serve) [.packet request]).tables = (step setDefaultCtx .serve).tables :=
    (process_policy (step setDefaultCtx .serve) request).1
  have after : run (step setDefaultCtx .serve) [.packet request] = (dpProcess (step setDefaultCtx .serve) request).1 :=
    rfl
  rw [same, after, process_ok oneWay_parsed.2, process_ok oneWay_parsed.1, setDefaultCtx_eq]
  exact ⟨rfl, rfl⟩

theorem reply_not_defaultApplies :
    Reachable setDefaultCtx ∧ ¬DefaultApplies setDefaultCtx 3 [.packet request] reply := by
  refine ⟨setDefaultCtx_reachable, fun applies => ?_⟩
  have drop := applies setDefaultCtx_loaded.1 keepsDefault_request _ oneWay_parsed.2 reply_forwarded.1
  rw [reply_forwarded.2] at drop
  revert drop
  decide

/-! ### A default that changes while flows are cached -/

def stray : Packet := icmpPacket 0x0A000009 0x0A000008 1
def late : Packet := icmpPacket 0x0A000003 0x0A000004 1

theorem stray_late_parsed : dpParse stray = .ok ⟨0x0A000009, 0x0A000008, 0, 0, 1, 1, 0⟩ ∧
    dpParse late = .ok ⟨0x0A000003, 0x0A000004, 0, 0, 1, 1, 0⟩ := ⟨rfl, rfl⟩

def wideCtx : DpCtx := (dpActivateBank ((attachedCtx 4 forwardRules).get rfl) 0).1

/-- A `DP_CMD_SET_DEFAULT` with `FP_FORWARD` waits in the ring. -/
def pushedCtx : DpCtx :=
  step wideCtx (.host ((wideCtx.region.bind fun m => ringPush m offCmdRing ⟨4, 0, 0, 0⟩).getD fun _ => 0))

/-- A packet has been dropped by default before the command is served. -/
def changedCtx : DpCtx := (dpProcess pushedCtx stray).1

theorem pushedCtx_reachable : Reachable pushedCtx :=
  ⟨true, .ok, 4, (dpInit true .ok 4).get rfl |>.1,
    [.attach (some (Mem.write (fun _ => 0) offBank0 ((mkpolicy forwardRules).getD []))) (offBank1 + bankSize) true,
      .activate 0, .host ((wideCtx.region.bind fun m => ringPush m offCmdRing ⟨4, 0, 0, 0⟩).getD fun _ => 0)], rfl, rfl⟩

theorem changedCtx_reachable : Reachable changedCtx := by
  obtain ⟨calloc, ioInit, slots, c₀, events, init, same⟩ := pushedCtx_reachable
  exact ⟨calloc, ioInit, slots, c₀, events ++ [.packet stray], init, by rw [run_snoc, ← same]; rfl⟩

theorem pushedCtx_loaded : (popCommand pushedCtx).map Prod.snd = some (.setDefault, 0) ∧
    pushedCtx.tables = ⟨1, [forwardRow], by decide⟩ := ⟨rfl, by decide +kernel⟩

theorem changedCtx_served : served changedCtx .serve = some (.setDefault, 0) := by
  have region : changedCtx.region = pushedCtx.region :=
    congrArg (fun out => out.1.region) (process_region pushedCtx pushedCtx.region stray)
  have popped := pushedCtx_loaded.1
  unfold popCommand at popped
  unfold served popCommand
  rw [region]
  exact popped

theorem pushedCtx_eq : pushedCtx = { pushedCtx with tables := ⟨1, [forwardRow], by decide⟩ } := by
  rw [← pushedCtx_loaded.2]

theorem changedCtx_flows : (changedCtx.flows.count = 1 ∧ changedCtx.defaultDecision = fpDrop) ∧
    pushedCtx.tables.select ⟨0x0A000003, 0x0A000004, 0, 0, 1, 1, 0⟩ = none := by
  unfold changedCtx
  rw [process_ok stray_late_parsed.1, pushedCtx_eq]
  exact ⟨⟨rfl, rfl⟩, rfl⟩

theorem served_changed : (step changedCtx .serve).tables = pushedCtx.tables ∧ (step changedCtx .serve).flows = changedCtx.flows := by
  obtain ⟨r, after⟩ := step_served changedCtx_served
  rw [after]
  exact ⟨(process_policy pushedCtx stray).1, rfl⟩

theorem late_undecided : Undecided (run (step changedCtx .serve) [.packet request]).flows
    (dpFlowKeyFromTuple ⟨0x0A000003, 0x0A000004, 0, 0, 1, 1, 0⟩) := by
  have strange : ¬InConversation ⟨0x0A000003, 0x0A000004, 0, 0, 1, 1, 0⟩ stray := by
    rintro ⟨u, parsed, same⟩
    rw [stray_late_parsed.1] at parsed
    cases parsed
    exact absurd same (by decide)
  have other : ¬InConversation ⟨0x0A000003, 0x0A000004, 0, 0, 1, 1, 0⟩ request := by
    rintro ⟨u, parsed, same⟩
    rw [oneWay_parsed.1] at parsed
    cases parsed
    exact absurd same (by decide)
  have wf := (step_sound .serve (reachable_sound changedCtx_reachable)).wf
  have before := (process_get_other wf other).2
  rw [served_changed.2] at before
  intro e get
  have empty : pushedCtx.flows.get (dpFlowKeyFromTuple ⟨0x0A000003, 0x0A000004, 0, 0, 1, 1, 0⟩) = none := get_none_of_empty rfl _
  rw [← (process_get_other (reachable_sound pushedCtx_reachable).wf strange).2] at empty
  have absent : (run (step changedCtx .serve) [.packet request]).flows.get
      (dpFlowKeyFromTuple ⟨0x0A000003, 0x0A000004, 0, 0, 1, 1, 0⟩) = none := before.trans empty
  rw [absent] at get
  cases get

theorem packets_tables (c : DpCtx) (ps : List Packet) : (run c (ps.map .packet)).tables = c.tables := by
  induction ps generalizing c with
  | nil => rfl
  | cons p ps ih =>
    rw [List.map_cons, run, ih]
    exact (process_policy c p).1

theorem late_takes_default :
    Reachable changedCtx ∧ changedCtx.flows.count = 1 ∧ changedCtx.defaultDecision = fpDrop ∧
      served changedCtx .serve = some (.setDefault, 0) ∧
      (dpProcess (run (step changedCtx .serve) ([.packet request] ++ [.packet late])) late).2.1.decision = fpForward := by
  refine ⟨changedCtx_reachable, changedCtx_flows.1.1, changedCtx_flows.1.2, changedCtx_served, ?_⟩
  have kept : KeepsDefault (step changedCtx .serve) ([.packet request] ++ [.packet late]) := by
    intro pre event rest split a0 took
    have packet : ∃ p, event = .packet p := by
      have member : event ∈ [.packet request] ++ [.packet late] := by rw [split]; simp
      rcases List.mem_append.mp member with first | last
      · exact ⟨request, List.mem_singleton.mp first⟩
      · exact ⟨late, List.mem_singleton.mp last⟩
    obtain ⟨p, rfl⟩ := packet
    cases took
  have unmatched (ps : List Packet) : (run (step changedCtx .serve) (ps.map .packet)).tables.select
      ⟨0x0A000003, 0x0A000004, 0, 0, 1, 1, 0⟩ = none := by
    rw [packets_tables, served_changed.1, changedCtx_flows.2]
  rcases default_takes_effect changedCtx_reachable changedCtx_served kept stray_late_parsed.2 late_undecided
      (unmatched [request, late]) with
    forward | ⟨-, pre, q, rest, u, split, parsed, same, row, -⟩
  · exact forward.trans (by decide)
  -- Of the two packets before it the one is of another conversation and the other matches no row.
  rcases pre with _ | ⟨_, _ | ⟨_, pre⟩⟩
  · obtain rfl : request = q := Event.packet.inj (List.cons.inj split).1
    rw [oneWay_parsed.1] at parsed
    cases parsed
    exact absurd same (by decide)
  · obtain ⟨rfl, split'⟩ := List.cons.inj split
    obtain rfl : late = q := Event.packet.inj (List.cons.inj split').1
    rw [stray_late_parsed.2] at parsed
    cases parsed
    exact absurd (unmatched [request]) row
  · cases pre <;> cases (List.cons.inj (List.cons.inj split).2).2

end FfnNgfw.Portable
