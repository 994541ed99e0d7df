import FfnNgfw.Portable.FlowCache

/-!
# The cache repeats one decision per conversation

A run starts with an empty cache and processes packets under one policy. Each
entry then holds the answer of the first packet of its conversation that was
forwarded, inspected or dropped. A conversation that is being punted or handed
to the local stack is classified again with every packet.
-/

namespace FfnNgfw.Portable
open Mem

/-- Where a run starts: after `dp_init`, a successful activation, or a flush. -/
inductive FreshStart : DpCtx → Prop where
  | init (calloc : Bool) (ioInit : Rc) (slots : UInt32) (c : DpCtx)
      (h : dpInit calloc ioInit slots = some (c, .ok)) : FreshStart c
  | activate (c : DpCtx) (bank : UInt32) (h : (dpActivateBank c bank).2 = .ok) :
      FreshStart (dpActivateBank c bank).1
  | flush (c : DpCtx) (a0 : UInt64) : FreshStart (execCommand c .flushFlows a0)

theorem fresh_empty {c : DpCtx} (h : FreshStart c) : c.flows.ent = fun _ => FlowEnt.zero := by
  cases h with
  | init calloc ioInit slots _ h =>
    exact init_empty h
  | activate c bank ok =>
    rcases activate_cases c bank with ⟨_, _, failed⟩ | ⟨_, _, _, failed⟩ | ⟨_, _, _, m, t, _, _, after⟩
    · exact absurd ok failed
    · exact absurd ok failed
    · rw [after]
      rfl
  | flush c a0 => rfl

/-! ### Histories -/

/-- The conversations seen since the cache was empty, each with the answer that
classification gives to the packet. -/
abbrev History := List (FlowKey × Int × UInt16 × UInt16)

def answered (h : History) (k : FlowKey) : Option (Int × UInt16 × UInt16) :=
  (h.find? fun r => decide (r.1 = k) && decide (Cacheable r.2.1)).map Prod.snd

theorem answered_append (h h' : History) (k : FlowKey) : answered (h ++ h') k = (answered h k).or (answered h' k) := by
  unfold answered
  rw [List.find?_append]
  cases h.find? fun r => decide (r.1 = k) && decide (Cacheable r.2.1) <;> rfl

theorem answered_one (r : FlowKey × Int × UInt16 × UInt16) (k : FlowKey) :
    answered [r] k = if r.1 = k ∧ Cacheable r.2.1 then some r.2 else none := by
  unfold answered
  by_cases hit : r.1 = k ∧ Cacheable r.2.1
  · simp [hit.1, hit.2]
  · rw [if_neg hit, List.find?_eq_none.mpr (by simpa using hit), Option.map_none]

variable {h : History} {k : FlowKey} {p : Packet} {t : Tuple} {ps : List Packet}

theorem answered_other {r : FlowKey × Int × UInt16 × UInt16} (other : k ≠ r.1) :
    answered (h ++ [r]) k = answered h k := by
  rw [answered_append, answered_one, if_neg fun hit => other hit.1.symm, Option.or_none]

theorem answered_none (unseen : ∀ r ∈ h, r.1 ≠ k) : answered h k = none := by
  unfold answered
  rw [List.find?_eq_none.mpr, Option.map_none]
  intro r member
  simp [unseen r member]

structure CacheInv (ft : FlowTable) (h : History) : Prop extends Sound ft where
  seen : ∀ r ∈ h, ¬ft.Room r.1
  line : ∀ k e, ft.get k = some e → e.cached = answered h k

theorem inv_empty {ft : FlowTable} (empty : ft.ent = fun _ => FlowEnt.zero) : CacheInv ft [] := by
  exact ⟨sound_empty empty, by simp, by simp [get_none_of_empty empty]⟩

theorem inv_stores {ft ft' : FlowTable} {e : FlowEnt}
    {a : Int × UInt16 × UInt16} (inv : CacheInv ft h) (stores : Stores ft ft' k e) (ok : e.Wf)
    (line : e.cached = answered (h ++ [(k, a)]) k) : CacheInv ft' (h ++ [(k, a)]) := by
  refine ⟨sound_stores inv.toSound stores ok, ?_, ?_⟩
  · intro r member room
    rcases List.mem_append.mp member with old | new
    · exact inv.seen r old (stores.room r.1 room)
    · rw [List.mem_singleton] at new
      subst new
      exact stores.taken room
  · intro k' e' get
    by_cases same : k' = k
    · subst same
      rw [stores.self] at get
      cases get
      exact line
    · rw [stores.other k' same] at get
      rw [answered_other same]
      exact inv.line k' e' get

theorem process_inv {c : DpCtx} (inv : CacheInv c.flows h) (parsed : dpParse p = .ok t) :
    CacheInv (dpProcess c p).1.flows (h ++ [(dpFlowKeyFromTuple t, c.classify t)]) := by
  rcases process_cases parsed inv.wf with ⟨e, get, set, stores, _⟩ | ⟨_, ⟨e, unset, origin, stores⟩ | ⟨full, same⟩⟩
  · refine inv_stores inv stores (touch_wf e p.len (inv.entries _ e get)) ?_
    have line := inv.line _ e get
    rw [touch_cached, answered_append, ← line]
    simp [FlowEnt.cached, set]
  · -- The conversation has no answer yet: its entry is unset, or it was never seen.
    have ok : e.Wf := by
      rcases origin with get | ⟨_, _, rfl⟩
      · exact inv.entries _ e get
      · exact fresh_wf _
    have before : answered h (dpFlowKeyFromTuple t) = none := by
      rcases origin with get | ⟨_, room, _⟩
      · rw [← inv.line _ e get]
        simp [FlowEnt.cached, unset]
      · apply answered_none
        intro r member same
        exact inv.seen r member (same ▸ room)
    refine inv_stores inv stores (record_wf e _ _ _ _ ok unset) ?_
    rw [record_cached e _ _ _ _ ok unset, answered_append, before, answered_one]
    simp
  · rw [same]
    have absent := get_none_of_full full
    refine ⟨inv.toSound, ?_, ?_⟩
    · intro r member
      rcases List.mem_append.mp member with old | new
      · exact inv.seen r old
      · rw [List.mem_singleton] at new
        subst new
        rintro ⟨i, free⟩
        rw [full] at free
        cases free
    · intro k e get
      have other : k ≠ dpFlowKeyFromTuple t := by
        rintro rfl
        rw [absent] at get
        cases get
      rw [answered_other other]
      exact inv.line k e get

/-! ### Runs -/

theorem processAll_append (c : DpCtx) (xs ys : List Packet) :
    (processAll c (xs ++ ys)).1 = (processAll (processAll c xs).1 ys).1 := by
  induction xs generalizing c with
  | nil => rfl
  | cons p xs ih => exact ih (dpProcess c p).1

theorem processAll_classify (c : DpCtx) (ps : List Packet) (t : Tuple) :
    (processAll c ps).1.classify t = c.classify t := by
  induction ps generalizing c with
  | nil => rfl
  | cons p ps ih => exact (ih (dpProcess c p).1).trans (process_classify c p t)

def history (c : DpCtx) : List Packet → History
  | [] => []
  | p :: ps =>
    match dpParse p with
    | .ok t => (dpFlowKeyFromTuple t, c.classify t) :: history c ps
    | .error _ => history c ps

theorem processAll_inv {c c₀ : DpCtx} (ps : List Packet) (inv : CacheInv c.flows h)
    (policy : ∀ t, c.classify t = c₀.classify t) :
    CacheInv (processAll c ps).1.flows (h ++ history c₀ ps) := by
  induction ps generalizing c h with
  | nil =>
    rw [history, List.append_nil]
    exact inv
  | cons p ps ih =>
    have kept : ∀ t, (dpProcess c p).1.classify t = c₀.classify t := fun t =>
      (process_classify c p t).trans (policy t)
    have step : (processAll c (p :: ps)).1 = (processAll (dpProcess c p).1 ps).1 := rfl
    rw [step]
    cases parsed : dpParse p with
    | error rc =>
      have flows := (process_error (c := c) parsed).1
      have same : history c₀ (p :: ps) = history c₀ ps := by simp only [history, parsed]
      rw [same]
      exact ih (flows ▸ inv) kept
    | ok t =>
      have rest := ih (process_inv inv parsed) kept
      have grown : history c₀ (p :: ps) = (dpFlowKeyFromTuple t, c₀.classify t) :: history c₀ ps := by
        simp only [history, parsed]
      rw [List.append_assoc, policy t] at rest
      rw [grown]
      exact rest

def InConversation (t : Tuple) (q : Packet) : Prop := ∃ u, dpParse q = .ok u ∧ SameConversation u t

theorem answered_history {c : DpCtx} {a : Int × UInt16 × UInt16} (h : answered (history c ps) k = some a) :
    ∃ pre q post u, ps = pre ++ q :: post ∧ dpParse q = .ok u ∧ dpFlowKeyFromTuple u = k ∧
      Cacheable (c.classify u).1 ∧ a = c.classify u ∧ answered (history c pre) k = none := by
  induction ps with
  | nil => cases h
  | cons p ps ih =>
    cases parsed : dpParse p with
    | error rc =>
      have same : ∀ qs, history c (p :: qs) = history c qs := fun qs => by simp only [history, parsed]
      rw [same] at h
      obtain ⟨pre, q, post, u, split, rest⟩ := ih h
      exact ⟨p :: pre, q, post, u, by rw [split, List.cons_append], by rw [same]; exact rest⟩
    | ok t =>
      have grown : ∀ qs, history c (p :: qs) = (dpFlowKeyFromTuple t, c.classify t) :: history c qs := fun qs => by
        simp only [history, parsed]
      by_cases first : dpFlowKeyFromTuple t = k ∧ Cacheable (c.classify t).1
      · rw [grown, answered, List.find?_cons_of_pos (by simp [first.1, first.2])] at h
        exact ⟨[], p, ps, t, rfl, parsed, first.1, first.2, (Option.some.inj h).symm, rfl⟩
      · have skip : ∀ r, answered ((dpFlowKeyFromTuple t, c.classify t) :: r) k = answered r k := fun r => by
          rw [answered, answered, List.find?_cons_of_neg (by simpa using first)]
        rw [grown, skip] at h
        obtain ⟨pre, q, post, u, split, key, same, can, line, before⟩ := ih h
        exact ⟨p :: pre, q, post, u, by rw [split, List.cons_append], key, same, can, line,
          by rw [grown, skip]; exact before⟩

theorem history_append (c : DpCtx) (xs ys : List Packet) : history c (xs ++ ys) = history c xs ++ history c ys := by
  induction xs with
  | nil => rfl
  | cons p xs ih =>
    rw [List.cons_append]
    cases parsed : dpParse p with
    | error rc => simp only [history, parsed, ih]
    | ok t => simp only [history, parsed, ih, List.cons_append]

def given (c : DpCtx) (ps : List Packet) (p : Packet) : DpResult := (dpProcess (processAll c ps).1 p).2.1

theorem given_nil {c : DpCtx} (parsed : dpParse p = .ok t) :
    given c [] p = (processTuple c t p.len).2 := by
  rw [given, processAll, process_ok parsed]

theorem given_cons {c : DpCtx} {p q : Packet} (parsed : dpParse q = .ok t) :
    given c (q :: ps) p = given (processTuple c t q.len).1 ps p := by
  rw [given, processAll, process_ok parsed]
  rfl

theorem fromCache_answered {c : DpCtx} (inv : CacheInv c.flows h) (cached : (dpProcess c p).2.1.fromCache = true) :
    ∃ t, dpParse p = .ok t ∧ answered h (dpFlowKeyFromTuple t) =
      some ((dpProcess c p).2.1.decision, (dpProcess c p).2.1.ruleId, (dpProcess c p).2.1.egress) := by
  cases parsed : dpParse p with
  | error rc =>
    rw [(process_error parsed).2] at cached
    cases cached
  | ok t =>
    refine ⟨t, rfl, ?_⟩
    rcases process_cases parsed inv.wf with ⟨e, get, set, _, out⟩ | ⟨out, _⟩
    · rw [← inv.line _ e get, out, FlowEnt.cached, if_neg set]
    · rw [out] at cached
      cases cached

theorem classified_of_unanswered {c : DpCtx} (inv : CacheInv c.flows h)
    (parsed : dpParse p = .ok t) (unanswered : answered h (dpFlowKeyFromTuple t) = none) :
    (dpProcess c p).2.1 = classified c t := by
  rcases process_cases parsed inv.wf with ⟨e, get, set, _, _⟩ | ⟨out, _⟩
  · have line := inv.line _ e get
    rw [unanswered, FlowEnt.cached, if_neg set] at line
    cases line
  · exact out

def Undecided (ft : FlowTable) (k : FlowKey) : Prop := ∀ e, ft.get k = some e → e.verdict = .unset

theorem undecided_after {c : DpCtx} (wf : c.flows.Wf) (parsed : dpParse p = .ok t)
    (other : ¬Cacheable (dpProcess c p).2.1.decision) :
    Undecided (dpProcess c p).1.flows (dpFlowKeyFromTuple t) := by
  intro e' get'
  rcases process_cases parsed wf with ⟨e, _, _, _, out⟩ | ⟨out, ⟨e, unset, _, stores⟩ | ⟨full, same⟩⟩
  · refine absurd ?_ other
    rw [out]
    unfold FlowEnt.decision Cacheable
    dsimp only
    repeat' split
    all_goals simp
  · rw [stores.self] at get'
    rw [out] at other
    cases get'
    unfold Cacheable classified at other
    simp only [not_or] at other
    obtain ⟨forward, inspect, drop⟩ := other
    simp only [FlowEnt.record, if_neg forward, if_neg inspect, if_neg drop]
  · rw [same, get_none_of_full full] at get'
    cases get'

theorem process_get_other {c : DpCtx} (wf : c.flows.Wf) (outside : ¬InConversation t p) :
    (dpProcess c p).1.flows.Wf ∧
      (dpProcess c p).1.flows.get (dpFlowKeyFromTuple t) = c.flows.get (dpFlowKeyFromTuple t) := by
  cases parsed : dpParse p with
  | error rc =>
    rw [(process_error parsed).1]
    exact ⟨wf, rfl⟩
  | ok u =>
    have ne : dpFlowKeyFromTuple t ≠ dpFlowKeyFromTuple u := fun same =>
      outside ⟨u, parsed, (flowKey_eq_iff u t).mp same.symm⟩
    rcases process_cases parsed wf with ⟨_, _, _, stores, _⟩ | ⟨_, ⟨_, _, _, stores⟩ | ⟨_, same⟩⟩
    · exact ⟨stores.wf, stores.other _ ne⟩
    · exact ⟨stores.wf, stores.other _ ne⟩
    · rw [same]
      exact ⟨wf, rfl⟩

theorem processAll_get_other {c : DpCtx} (wf : c.flows.Wf) (outside : ∀ q ∈ ps, ¬InConversation t q) :
    (processAll c ps).1.flows.Wf ∧
      (processAll c ps).1.flows.get (dpFlowKeyFromTuple t) = c.flows.get (dpFlowKeyFromTuple t) := by
  induction ps generalizing c with
  | nil => exact ⟨wf, rfl⟩
  | cons p ps ih =>
    obtain ⟨wf₁, get₁⟩ := process_get_other wf (outside p List.mem_cons_self)
    obtain ⟨wf₂, get₂⟩ := ih wf₁ fun q member => outside q (List.mem_cons_of_mem p member)
    exact ⟨wf₂, get₂.trans get₁⟩

theorem not_fromCache_of_undecided {c : DpCtx} (wf : c.flows.Wf) (parsed : dpParse p = .ok t)
    (undecided : Undecided c.flows (dpFlowKeyFromTuple t)) : (dpProcess c p).2.1 = classified c t := by
  rcases process_cases parsed wf with ⟨e, get, set, _, _⟩ | ⟨out, _⟩
  · exact absurd (undecided e get) set
  · exact out

/-- The packet gets what classification gave to the first packet of its conversation
that was forwarded, inspected or dropped. -/
def Repeats (c : DpCtx) (ps : List Packet) (p : Packet) : Prop :=
  ∃ t pre q post u, dpParse p = .ok t ∧ ps = pre ++ q :: post ∧ dpParse q = .ok u ∧ SameConversation u t ∧
    (∀ pre' q' post', pre = pre' ++ q' :: post' → InConversation t q' → ¬Cacheable (given c pre' q').decision) ∧
    given c pre q = classified c u ∧ Cacheable (c.classify u).1 ∧
    ((given c ps p).decision, (given c ps p).ruleId, (given c ps p).egress) = c.classify u

section run

variable {c : DpCtx} (start : FreshStart c)
include start

theorem fresh_inv (ps : List Packet) : CacheInv (processAll c ps).1.flows (history c ps) := by
  have inv := processAll_inv ps (inv_empty (fresh_empty start)) fun t => rfl
  rwa [List.nil_append] at inv

theorem given_unanswered {ps : List Packet} {p : Packet} {t : Tuple} (parsed : dpParse p = .ok t)
    (unanswered : answered (history c ps) (dpFlowKeyFromTuple t) = none) : given c ps p = classified c t := by
  have out := classified_of_unanswered (fresh_inv start ps) parsed unanswered
  unfold given
  rw [out, classified, classified, processAll_classify]

theorem uncacheable_of_unanswered {pre post : List Packet} {q : Packet} {t : Tuple}
    (unanswered : answered (history c (pre ++ q :: post)) (dpFlowKeyFromTuple t) = none)
    (inside : InConversation t q) : ¬Cacheable (given c pre q).decision := by
  obtain ⟨u, parsed, same⟩ := inside
  rw [history_append, answered_append, Option.or_eq_none_iff] at unanswered
  have key : dpFlowKeyFromTuple u = dpFlowKeyFromTuple t := (flowKey_eq_iff u t).mpr same
  rw [given_unanswered start parsed (key ▸ unanswered.1)]
  intro can
  have first := unanswered.2
  rw [history, parsed] at first
  simp only at first
  rw [← List.singleton_append, answered_append, Option.or_eq_none_iff, answered_one, if_pos ⟨key, can⟩] at first
  cases first.1

theorem repeats_of_fromCache {ps : List Packet} {p : Packet} (cached : (given c ps p).fromCache = true) :
    Repeats c ps p := by
  obtain ⟨t, parsed, answer⟩ := fromCache_answered (fresh_inv start ps) cached
  obtain ⟨pre, q, post, u, split, parsedq, key, can, line, before⟩ := answered_history answer
  refine ⟨t, pre, q, post, u, parsed, split, parsedq, (flowKey_eq_iff u t).mp key, ?_, ?_, can, line⟩
  · rintro pre' q' post' rfl inside
    exact uncacheable_of_unanswered start before inside
  · exact given_unanswered start parsedq (key ▸ before)

theorem classified_after_uncacheable {pre post : List Packet} {p q : Packet} {t : Tuple}
    (parsed : dpParse p = .ok t) (inside : InConversation t q) (last : ∀ q' ∈ post, ¬InConversation t q')
    (other : ¬Cacheable (given c pre q).decision) : given c (pre ++ q :: post) p = classified c t := by
  obtain ⟨u, parsedq, same⟩ := inside
  have wf := (fresh_inv start pre).wf
  have undecided := undecided_after wf parsedq other
  have key : dpFlowKeyFromTuple u = dpFlowKeyFromTuple t := (flowKey_eq_iff u t).mpr same
  have wf₁ : (dpProcess (processAll c pre).1 q).1.flows.Wf := (process_inv (fresh_inv start pre) parsedq).wf
  obtain ⟨wf₂, get⟩ := processAll_get_other wf₁ last
  rw [key, Undecided, ← get] at undecided
  have after : (processAll c (pre ++ q :: post)).1 = (processAll (dpProcess (processAll c pre).1 q).1 post).1 :=
    processAll_append c pre (q :: post)
  unfold given
  rw [after, not_fromCache_of_undecided wf₂ parsed undecided, classified, classified, ← after, processAll_classify]

/-- A packet answered from the cache repeats the first answer of its conversation
that an entry can hold. A conversation that was last punted or handed to the local
stack is not answered from the cache. -/
theorem cache_fidelity (ps : List Packet) (p : Packet) :
    ((given c ps p).fromCache = true → Repeats c ps p) ∧
    (∀ t pre q post, dpParse p = .ok t → ps = pre ++ q :: post → InConversation t q →
      (∀ q' ∈ post, ¬InConversation t q') →
      ((given c pre q).decision = fpPuntFpga ∨ (given c pre q).decision = fpLocal) →
      (given c ps p).fromCache = false) := by
  refine ⟨repeats_of_fromCache start, ?_⟩
  rintro t pre q post parsed rfl inside last punted
  have other : ¬Cacheable (given c pre q).decision := by
    rcases punted with punt | stack
    · rw [punt]; decide
    · rw [stack]; decide
  rw [classified_after_uncacheable start parsed inside last other]
  rfl

end run

/-! ### A conversation that is first handed to the local stack -/

def RepeatsFirst (c : DpCtx) (ps : List Packet) (p : Packet) : Prop :=
  ∀ t pre q post u, dpParse p = .ok t → ps = pre ++ q :: post → dpParse q = .ok u → SameConversation u t →
    (∀ q' ∈ pre, ¬InConversation t q') →
    ((given c ps p).decision, (given c ps p).ruleId, (given c ps p).egress) = c.classify u

/-- Traffic from 10.0.0.1 to 10.0.0.2 is for the local stack, the other direction is
forwarded. -/
def oneWayRules : List Rule :=
  [⟨4, 0, .net 0x0A000001 32, .net 0x0A000002 32, 0⟩, ⟨0, 0, .net 0x0A000002 32, .net 0x0A000001 32, 0⟩]

def oneWayCtx : DpCtx := loadedCtx oneWayRules

def request : Packet := icmpPacket 0x0A000001 0x0A000002 1
def reply : Packet := icmpPacket 0x0A000002 0x0A000001 1

theorem oneWayCtx_fresh : FreshStart oneWayCtx := .activate _ 0 (by decide)

theorem oneWay_parsed : dpParse request = .ok ⟨0x0A000001, 0x0A000002, 0, 0, 1, 1, 0⟩ ∧
    dpParse reply = .ok ⟨0x0A000002, 0x0A000001, 0, 0, 1, 1, 0⟩ := ⟨rfl, rfl⟩

/-- The first packet is for the local stack, and the third is answered from the cache with the
decision of the second. -/
theorem oneWay_given : (given oneWayCtx [] request).decision = fpLocal ∧
    (oneWayCtx.classify ⟨0x0A000001, 0x0A000002, 0, 0, 1, 1, 0⟩).1 = fpLocal ∧
    (given oneWayCtx [request, reply] request).fromCache = true ∧
    (given oneWayCtx [request, reply] request).decision = fpForward := by
  have tables : oneWayCtx.tables = ⟨1,
      [⟨0x0A000001, 0xFFFFFFFF, 0x0A000002, 0xFFFFFFFF, 0, 65535, 0, 65535, 0, 1, 4, 0, 0xFFFF, 1⟩,
       ⟨0x0A000002, 0xFFFFFFFF, 0x0A000001, 0xFFFFFFFF, 0, 65535, 0, 65535, 0, 1, 0, 0, 0xFFFF, 2⟩],
      by decide⟩ := by decide +kernel
  have loaded : oneWayCtx = { oneWayCtx with tables := ⟨1,
      [⟨0x0A000001, 0xFFFFFFFF, 0x0A000002, 0xFFFFFFFF, 0, 65535, 0, 65535, 0, 1, 4, 0, 0xFFFF, 1⟩,
       ⟨0x0A000002, 0xFFFFFFFF, 0x0A000001, 0xFFFFFFFF, 0, 65535, 0, 65535, 0, 1, 0, 0, 0xFFFF, 2⟩], by decide⟩ } := by
    rw [← tables]
  rw [given_nil oneWay_parsed.1, given_cons oneWay_parsed.1, given_cons oneWay_parsed.2, given_nil oneWay_parsed.1, loaded]
  decide +kernel

theorem request_not_repeatsFirst :
    FreshStart oneWayCtx ∧ (given oneWayCtx [request, reply] request).fromCache = true ∧
      ¬RepeatsFirst oneWayCtx [request, reply] request := by
  obtain ⟨-, classified, cached, forwarded⟩ := oneWay_given
  refine ⟨oneWayCtx_fresh, cached, fun first => ?_⟩
  have same := first _ [] request [reply] _ oneWay_parsed.1 rfl oneWay_parsed.1 (by decide) (by simp)
  rw [← same, forwarded] at classified
  exact absurd classified (by decide)

theorem request_repeats :
    FreshStart oneWayCtx ∧ (given oneWayCtx [request, reply] request).fromCache = true ∧
      Repeats oneWayCtx [request, reply] request ∧ (given oneWayCtx [request] reply).fromCache = false := by
  obtain ⟨local', -, cached, -⟩ := oneWay_given
  refine ⟨oneWayCtx_fresh, cached, (cache_fidelity oneWayCtx_fresh [request, reply] request).1 cached, ?_⟩
  exact (cache_fidelity oneWayCtx_fresh [request] reply).2 _ [] request [] oneWay_parsed.2 rfl
    ⟨_, oneWay_parsed.1, by decide⟩ (by simp) (Or.inr local')

end FfnNgfw.Portable
