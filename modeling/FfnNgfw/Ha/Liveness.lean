import FfnNgfw.Ha.Roles
import Mathlib.Data.List.Chain

/-!
# What a box knows of its peer

`ffn_ha_tick` believes the peer up only on a recent hello, and takes it back only after
hellos have come for the hold time. A tick that finds the peer silent too long starts
the hold time over, so a gap goes unseen only between two ticks.
-/

namespace FfnNgfw.Ha

/-! ### Hellos and ticks of a run -/

/-- Neither another protocol's frame nor an echo of our own hello. -/
def Hello.fromPeer (h : Hello) (deviceId : UInt8) : Bool := h.magic == ha1Magic && h.deviceId != deviceId

def Op.helloTime (deviceId : UInt8) : Op → Option UInt64
  | .hello h nowMs => if h.fromPeer deviceId then some nowMs else none
  | .tick _ => none

def Op.tickTime : Op → Option UInt64
  | .hello _ _ => none
  | .tick nowMs => some nowMs

def peerHellos (deviceId : UInt8) (ops : List Op) : List UInt64 := ops.filterMap (Op.helloTime deviceId)

def tickTimes (ops : List Op) : List UInt64 := ops.filterMap Op.tickTime

def run (st : State) (ops : List Op) : State := ops.foldl step st

/-- At most `gap` milliseconds pass from `a` to `b`. -/
def Within (gap : Nat) (a b : UInt64) : Prop := b.toNat ≤ a.toNat + gap

instance (gap : Nat) (a b : UInt64) : Decidable (Within gap a b) := inferInstanceAs (Decidable (_ ≤ _))

/-- Up to `nowMs`, hellos have come for `hold` milliseconds with no gap longer than `gap`. -/
def Arriving (hold gap : Nat) (heard : List UInt64) (nowMs : UInt64) : Prop :=
  ∃ earlier first rest, heard = earlier ++ first :: rest ∧ first.toNat + hold ≤ nowMs.toNat ∧
    (first :: rest ++ [nowMs]).IsChain (Within gap)

structure Timers (st st' : State) : Prop where
  deviceId : st'.deviceId = st.deviceId
  holdMs : st'.holdMs = st.holdMs
  heartbeatMs : st'.heartbeatMs = st.heartbeatMs
  peerTimeoutMs : st'.peerTimeoutMs = st.peerTimeoutMs

theorem hello_cases {st : State} (on : Enabled st) (h : Hello) (nowMs : UInt64) :
    (h.fromPeer st.deviceId = false ∧ onHello st h nowMs = st) ∨
    (h.fromPeer st.deviceId = true ∧ onHello st h nowMs =
      { st with
        hellosRx := st.hellosRx + 1
        peerLastSeenMs := nowMs
        tentativeSinceMs := if !st.peerUp ∧ st.tentativeSinceMs = 0 then nowMs else st.tentativeSinceMs }) := by
  unfold onHello
  rw [if_neg (by simp [on.1])]
  by_cases magic : h.magic = ha1Magic
  · rw [if_neg (not_not_intro magic)]
    by_cases own : h.deviceId = st.deviceId
    · rw [if_pos own]
      exact .inl ⟨by simp [Hello.fromPeer, own], rfl⟩
    · rw [if_neg own]
      exact .inr ⟨by simp [Hello.fromPeer, magic, own], rfl⟩
  · rw [if_pos magic]
    exact .inl ⟨by simp [Hello.fromPeer, magic], rfl⟩

variable {nowMs : UInt64} {ops : List Op}

theorem silence_le {st : State} (past : st.peerLastSeenMs ≤ nowMs) :
    silence st nowMs ≤ st.peerTimeoutMs.toUInt64 ↔ Within st.peerTimeoutMs.toNat st.peerLastSeenMs nowMs := by
  rw [silence, if_pos past, UInt64.le_iff_toNat_le, UInt64.toNat_sub_of_le _ _ past, Within]
  simp only [UInt32.toNat_toUInt64]
  omega

theorem tick_peer {st : State} (on : Enabled st) (past : st.peerLastSeenMs ≤ nowMs) :
    let st' := (tick st nowMs).1
    let recent := Within st.peerTimeoutMs.toNat st.peerLastSeenMs nowMs
    Timers st st' ∧ st'.peerLastSeenMs = st.peerLastSeenMs ∧
    ((st'.peerUp = false ∧ st'.tentativeSinceMs = 0) ∨
      (st.peerUp = false ∧ st.tentativeSinceMs ≠ 0 ∧ recent ∧ st.holdMs.toUInt64 ≤ nowMs - st.tentativeSinceMs ∧
        st'.peerUp = true ∧ st'.tentativeSinceMs = 0) ∨
      (st' = st ∧ (st.peerUp = true ∨ st.tentativeSinceMs ≠ 0 → recent))) := by
  have recent := silence_le past
  unfold tick
  rw [if_neg (by simp [on.1, on.2])]
  by_cases up : st.peerUp = true
  · rw [if_pos up]
    by_cases lost : st.peerTimeoutMs.toUInt64 < silence st nowMs
    · rw [if_pos lost]
      exact ⟨⟨rfl, rfl, rfl, rfl⟩, rfl, .inl ⟨rfl, rfl⟩⟩
    · rw [if_neg lost]
      exact ⟨⟨rfl, rfl, rfl, rfl⟩, rfl, .inr (.inr ⟨rfl, fun _ => recent.mp (UInt64.not_lt.mp lost)⟩)⟩
  · rw [if_neg up]
    by_cases heard : st.tentativeSinceMs ≠ 0 ∧ silence st nowMs ≤ st.peerTimeoutMs.toUInt64
    · rw [if_pos heard]
      by_cases held : st.holdMs.toUInt64 ≤ nowMs - st.tentativeSinceMs
      · rw [if_pos held]
        exact ⟨⟨rfl, rfl, rfl, rfl⟩, rfl,
          .inr (.inl ⟨by simpa using up, heard.1, recent.mp heard.2, held, rfl, rfl⟩)⟩
      · rw [if_neg held]
        exact ⟨⟨rfl, rfl, rfl, rfl⟩, rfl, .inr (.inr ⟨rfl, fun _ => recent.mp heard.2⟩)⟩
    · rw [if_neg heard]
      by_cases lost : st.peerTimeoutMs.toUInt64 < silence st nowMs
      · rw [if_pos lost]
        exact ⟨⟨rfl, rfl, rfl, rfl⟩, rfl, .inl ⟨by simpa using up, rfl⟩⟩
      · rw [if_neg lost]
        exact ⟨⟨rfl, rfl, rfl, rfl⟩, rfl, .inr (.inr ⟨rfl, fun _ => recent.mp (UInt64.not_lt.mp lost)⟩)⟩

/-! ### The last hello -/

/-- The peer is known, if at all, by the last of the hellos heard. -/
structure Seen (st : State) (heard : List UInt64) (clock : UInt64) : Prop where
  past : st.peerLastSeenMs ≤ clock
  last : st.peerUp = true ∨ st.tentativeSinceMs ≠ 0 → st.peerLastSeenMs ∈ heard.getLast?
  since : st.tentativeSinceMs ≤ clock

theorem timely_cons {clock : UInt64} {op : Op} (timely : Timely clock (op :: ops)) :
    clock ≤ op.time ∧ Timely op.time ops := by
  simp only [Timely, List.map_cons] at timely
  obtain ⟨first, rest⟩ := List.pairwise_cons.mp timely
  exact ⟨first _ List.mem_cons_self, rest⟩

variable {st : State} {heard : List UInt64} {clock : UInt64}

theorem Seen.tick (seen : Seen st heard clock) (on : Enabled st) (next : clock ≤ nowMs) :
    Seen (tick st nowMs).1 heard nowMs := by
  have past := UInt64.le_trans seen.past next
  obtain ⟨-, same, ⟨down, none'⟩ | ⟨-, heard', -, -, -, none'⟩ | ⟨keep, -⟩⟩ := tick_peer on past
  · refine ⟨same ▸ past, fun known => ?_, by simp [none']⟩
    rcases known with up | begun
    · rw [down] at up
      cases up
    · exact absurd none' begun
  · exact ⟨same ▸ past, fun _ => same ▸ seen.last (.inr heard'), by simp [none']⟩
  · rw [keep]
    exact ⟨past, seen.last, UInt64.le_trans seen.since next⟩

theorem Seen.hello (seen : Seen st heard clock) (on : Enabled st) (h : Hello) (next : clock ≤ nowMs) :
    Seen (onHello st h nowMs) (heard ++ (Op.helloTime st.deviceId (.hello h nowMs)).toList) nowMs := by
  rcases hello_cases on h nowMs with ⟨other, same⟩ | ⟨peer, result⟩
  · rw [same, Op.helloTime, other]
    simp only [Bool.false_eq_true, if_false, Option.toList_none, List.append_nil]
    exact ⟨UInt64.le_trans seen.past next, seen.last, UInt64.le_trans seen.since next⟩
  · rw [result, Op.helloTime, peer]
    refine ⟨UInt64.le_refl nowMs, fun _ => by simp, ?_⟩
    change (if _ then nowMs else st.tentativeSinceMs) ≤ nowMs
    split
    · exact UInt64.le_refl nowMs
    · exact UInt64.le_trans seen.since next

theorem step_timers (on : Enabled st) (past : st.peerLastSeenMs ≤ clock) {op : Op} (next : clock ≤ op.time) :
    Timers st (step st op) := by
  cases op with
  | hello h nowMs =>
    rcases hello_cases on h nowMs with ⟨-, same⟩ | ⟨-, result⟩
    · rw [step, same]
      exact ⟨rfl, rfl, rfl, rfl⟩
    · rw [step, result]
      exact ⟨rfl, rfl, rfl, rfl⟩
  | tick nowMs => exact (tick_peer on (UInt64.le_trans past next)).1

theorem Seen.step (seen : Seen st heard clock) (on : Enabled st) {op : Op} (next : clock ≤ op.time) :
    Seen (step st op) (heard ++ (op.helloTime st.deviceId).toList) op.time := by
  cases op with
  | hello h nowMs => exact seen.hello on h next
  | tick nowMs =>
    rw [Op.helloTime, Option.toList_none, List.append_nil]
    exact seen.tick on next

theorem peerHellos_cons (deviceId : UInt8) (op : Op) (ops : List Op) :
    peerHellos deviceId (op :: ops) = (op.helloTime deviceId).toList ++ peerHellos deviceId ops := by
  cases heard : op.helloTime deviceId <;> simp [peerHellos, heard]

theorem tickTimes_cons (op : Op) (ops : List Op) : tickTimes (op :: ops) = op.tickTime.toList ++ tickTimes ops := by
  cases heard : op.tickTime <;> simp [tickTimes, heard]

theorem Seen.run (seen : Seen st heard clock) (on : Enabled st) (timely : Timely clock (ops ++ [.tick nowMs])) :
    Enabled (run st ops) ∧ Timers st (run st ops) ∧ ∃ before ≤ nowMs,
      Seen (run st ops) (heard ++ peerHellos st.deviceId ops) before := by
  induction ops generalizing st heard clock with
  | nil =>
    refine ⟨on, ⟨rfl, rfl, rfl, rfl⟩, clock, (timely_cons timely).1, ?_⟩
    rw [peerHellos, List.filterMap_nil, List.append_nil]
    exact seen
  | cons op ops ih =>
    obtain ⟨next, rest⟩ := timely_cons timely
    have timers := step_timers on seen.past next
    obtain ⟨enabled, later, before, bound, now⟩ := ih (seen.step on next) (step_enabled on op) rest
    refine ⟨enabled, ⟨later.deviceId.trans timers.deviceId, later.holdMs.trans timers.holdMs,
      later.heartbeatMs.trans timers.heartbeatMs, later.peerTimeoutMs.trans timers.peerTimeoutMs⟩, before, bound, ?_⟩
    rw [timers.deviceId] at now
    rwa [peerHellos_cons, ← List.append_assoc]

/-! ### The hold time -/

/-- Where the remaining ticks of a run stand to what came before: the first within a
heartbeat of the last tick, or else, for a first tick, soon after every hello. -/
structure Paced (st : State) (ticked : Option UInt64) (heard : List UInt64) (ops : List Op) : Prop where
  regular : (ticked.toList ++ tickTimes ops).IsChain (Within st.heartbeatMs.toNat)
  prompt : ticked = none → ∀ τ ∈ (tickTimes ops).head?, ∀ h ∈ heard ++ peerHellos st.deviceId ops,
    Within (st.peerTimeoutMs.toNat + st.heartbeatMs.toNat) h τ

/-- Since the debounce began, no gap was longer than the ticks allow. -/
structure Steady (st : State) (ticked : Option UInt64) (heard : List UInt64) : Prop where
  chain : st.tentativeSinceMs ≠ 0 → ∃ earlier rest, heard = earlier ++ st.tentativeSinceMs :: rest ∧
    (st.tentativeSinceMs :: rest).IsChain (Within (st.peerTimeoutMs.toNat + st.heartbeatMs.toNat))
  ticked : st.tentativeSinceMs ≠ 0 → ∀ τ ∈ ticked, Within st.peerTimeoutMs.toNat st.peerLastSeenMs τ

variable {ticked : Option UInt64}

theorem Paced.cons {st' : State} {op : Op} (paced : Paced st ticked heard (op :: ops)) (timers : Timers st st') :
    Paced st' (op.tickTime.orElse fun _ => ticked) (heard ++ (op.helloTime st.deviceId).toList) ops := by
  obtain ⟨regular, prompt⟩ := paced
  rw [tickTimes_cons] at regular prompt
  rw [peerHellos_cons] at prompt
  refine ⟨?_, fun none' => ?_⟩
  · rw [timers.heartbeatMs]
    cases tick : op.tickTime with
    | none => simpa [tick] using regular
    | some τ =>
      rw [tick] at regular
      simpa using (List.isChain_append.mp regular).2.1
  · rw [timers.heartbeatMs, timers.peerTimeoutMs, timers.deviceId]
    cases tick : op.tickTime with
    | none =>
      rw [tick] at none' prompt
      simpa [List.append_assoc] using prompt none'
    | some τ =>
      rw [tick] at none'
      cases none'

theorem next_tick (timely : Timely clock (ops ++ [.tick nowMs])) :
    ∃ τ ∈ (tickTimes (ops ++ [.tick nowMs])).head?, clock ≤ τ := by
  induction ops generalizing clock with
  | nil => exact ⟨nowMs, rfl, (timely_cons timely).1⟩
  | cons op ops ih =>
    obtain ⟨next, rest⟩ := timely_cons timely
    cases op with
    | hello h x =>
      obtain ⟨τ, first, later⟩ := ih rest
      exact ⟨τ, by rwa [List.cons_append, tickTimes_cons], UInt64.le_trans next later⟩
    | tick x => exact ⟨x, rfl, next⟩

theorem Paced.soon {h : Hello} {x nowMs : UInt64} (paced : Paced st ticked heard (.hello h x :: ops ++ [.tick nowMs]))
    (timely : Timely clock (.hello h x :: ops ++ [.tick nowMs])) (steady : Steady st ticked heard)
    (seen : Seen st heard clock) (begun : st.tentativeSinceMs ≠ 0) :
    Within (st.peerTimeoutMs.toNat + st.heartbeatMs.toNat) st.peerLastSeenMs x := by
  obtain ⟨τ, first, later⟩ := next_tick (timely_cons timely).2
  have later' : x.toNat ≤ τ.toNat := UInt64.le_iff_toNat_le.mp later
  have member : st.peerLastSeenMs ∈ heard := List.mem_of_getLast? (seen.last (.inr begun))
  obtain ⟨regular, prompt⟩ := paced
  rw [List.cons_append, tickTimes_cons] at regular prompt
  cases tick : ticked with
  | none =>
    have bound := prompt tick τ first st.peerLastSeenMs (List.mem_append_left _ member)
    unfold Within at bound ⊢
    omega
  | some last =>
    have recent := steady.ticked begun last tick
    rw [tick] at regular
    have beat := (List.isChain_append.mp regular).2.2 last rfl τ first
    unfold Within at recent beat ⊢
    omega

theorem Steady.hello (steady : Steady st ticked heard) (seen : Seen st heard clock) (on : Enabled st) {h : Hello} {x : UInt64}
    (soon : st.tentativeSinceMs ≠ 0 → Within (st.peerTimeoutMs.toNat + st.heartbeatMs.toNat) st.peerLastSeenMs x)
    (past : ∀ τ ∈ ticked, τ ≤ x) :
    Steady (onHello st h x) ticked (heard ++ (Op.helloTime st.deviceId (.hello h x)).toList) := by
  rcases hello_cases on h x with ⟨other, same⟩ | ⟨peer, result⟩
  · rw [same, Op.helloTime, other]
    simpa using steady
  rw [result, Op.helloTime, peer]
  refine ⟨fun begun => ?_, fun _ τ tick => ?_⟩
  · dsimp only at begun ⊢
    by_cases starts : (!st.peerUp) = true ∧ st.tentativeSinceMs = 0
    · rw [if_pos starts] at begun ⊢
      exact ⟨heard, [], rfl, .singleton x⟩
    · rw [if_neg starts] at begun ⊢
      obtain ⟨earlier, rest, split, chain⟩ := steady.chain begun
      refine ⟨earlier, rest ++ [x], by simp [split], ?_⟩
      rw [← List.cons_append]
      refine List.isChain_append.mpr ⟨chain, .singleton x, fun last ends first begins => ?_⟩
      -- The last hello of the debounce is the last one seen.
      have seenLast : st.peerLastSeenMs ∈ heard.getLast? := seen.last (.inr begun)
      rw [split, List.getLast?_append_cons] at seenLast
      obtain rfl : last = st.peerLastSeenMs := Option.some.inj (ends.symm.trans seenLast)
      obtain rfl : x = first := by simpa using begins
      exact soon begun
  · have before := UInt64.le_iff_toNat_le.mp (past τ tick)
    change τ.toNat ≤ x.toNat + st.peerTimeoutMs.toNat
    omega

theorem Steady.tick (steady : Steady st ticked heard) (on : Enabled st) {x : UInt64} (past : st.peerLastSeenMs ≤ x) :
    Steady (tick st x).1 (some x) heard := by
  obtain ⟨-, -, ⟨-, none'⟩ | ⟨-, -, -, -, -, none'⟩ | ⟨keep, recent⟩⟩ := tick_peer on past
  · exact ⟨fun begun => absurd none' begun, fun begun => absurd none' begun⟩
  · exact ⟨fun begun => absurd none' begun, fun begun => absurd none' begun⟩
  · rw [keep]
    refine ⟨steady.chain, fun begun τ tick => ?_⟩
    obtain rfl : x = τ := by simpa using tick
    exact recent (.inr begun)

theorem Steady.run (steady : Steady st ticked heard) (seen : Seen st heard clock) (on : Enabled st)
    (past : ∀ τ ∈ ticked, τ ≤ clock) (timely : Timely clock (ops ++ [.tick nowMs]))
    (paced : Paced st ticked heard (ops ++ [.tick nowMs])) :
    ∃ ticked', Steady (run st ops) ticked' (heard ++ peerHellos st.deviceId ops) := by
  induction ops generalizing st heard clock ticked with
  | nil =>
    rw [peerHellos, List.filterMap_nil, List.append_nil]
    exact ⟨ticked, steady⟩
  | cons op ops ih =>
    obtain ⟨next, rest⟩ := timely_cons timely
    have timers := step_timers on seen.past next
    have seen' := seen.step on next
    have paced' := paced.cons timers
    rw [peerHellos_cons, ← List.append_assoc]
    cases op with
    | hello h x =>
      have before : ∀ τ ∈ ticked, τ ≤ x := fun τ tick => UInt64.le_trans (past τ tick) next
      have now : Steady (step st (.hello h x)) ticked _ := steady.hello seen on (paced.soon timely steady seen) before
      have done := ih now seen' (step_enabled on _) before rest paced'
      rwa [timers.deviceId] at done
    | tick x =>
      have before : ∀ τ ∈ some x, τ ≤ x := fun τ tick => Option.some.inj tick ▸ UInt64.le_refl x
      have now : Steady (step st (.tick x)) (some x) heard := steady.tick on (UInt64.le_trans seen.past next)
      rw [Op.helloTime, Option.toList_none, List.append_nil] at seen' paced' ⊢
      have done := ih now seen' (step_enabled on _) before rest paced'
      rwa [timers.deviceId] at done

theorem Seen.recent (seen : Seen st heard clock) (on : Enabled st) (next : clock ≤ nowMs)
    (up : (Ha.tick st nowMs).1.peerUp = true) :
    st.peerLastSeenMs ∈ heard ∧ Within st.peerTimeoutMs.toNat st.peerLastSeenMs nowMs := by
  obtain ⟨-, -, ⟨down, -⟩ | ⟨-, begun, recent, -⟩ | ⟨keep, recent⟩⟩ := tick_peer on (UInt64.le_trans seen.past next)
  · rw [down] at up
    cases up
  · exact ⟨List.mem_of_getLast? (seen.last (.inr begun)), recent⟩
  · rw [keep] at up
    exact ⟨List.mem_of_getLast? (seen.last (.inl up)), recent (.inl up)⟩

theorem Steady.arriving (steady : Steady st ticked heard) (seen : Seen st heard clock) (on : Enabled st)
    (next : clock ≤ nowMs) (down : st.peerUp = false) (up : (Ha.tick st nowMs).1.peerUp = true) :
    Arriving st.holdMs.toNat (st.peerTimeoutMs.toNat + st.heartbeatMs.toNat) heard nowMs := by
  obtain ⟨-, -, ⟨still, -⟩ | ⟨-, begun, recent, held, -⟩ | ⟨keep, -⟩⟩ := tick_peer on (UInt64.le_trans seen.past next)
  · rw [still] at up
    cases up
  · obtain ⟨earlier, rest, split, chain⟩ := steady.chain begun
    have since := UInt64.le_trans seen.since next
    rw [UInt64.le_iff_toNat_le, UInt64.toNat_sub_of_le _ _ since] at held
    simp only [UInt32.toNat_toUInt64] at held
    rw [UInt64.le_iff_toNat_le] at since
    refine ⟨earlier, st.tentativeSinceMs, rest, split, by omega, ?_⟩
    refine List.isChain_append.mpr ⟨chain, .singleton nowMs, fun last ends first begins => ?_⟩
    have seenLast : st.peerLastSeenMs ∈ heard.getLast? := seen.last (.inr begun)
    rw [split, List.getLast?_append_cons] at seenLast
    obtain rfl : last = st.peerLastSeenMs := Option.some.inj (ends.symm.trans seenLast)
    obtain rfl : nowMs = first := by simpa using begins
    unfold Within at recent ⊢
    omega
  · rw [keep, down] at up
    cases up

/-! ### What a box concludes -/

/-- `ffn_ha_state_init`, with the timers that were configured. -/
def started (deviceId : UInt8) (mode : Mode) (algo : Algo) (startMs : UInt64) (holdMs heartbeatMs peerTimeoutMs : UInt32) : State :=
  { stateInit deviceId mode algo startMs with holdMs := holdMs, heartbeatMs := heartbeatMs, peerTimeoutMs := peerTimeoutMs }

section view

variable (deviceId : UInt8) (mode : Mode) (algo : Algo) (startMs : UInt64) (holdMs heartbeatMs peerTimeoutMs : UInt32)

def TicksRegular (ops : List Op) : Prop := (tickTimes ops).IsChain (Within heartbeatMs.toNat)

/-- The first tick is not more than a timeout and a heartbeat after the first hello. -/
def FirstTickPrompt (ops : List Op) : Prop :=
  ∀ τ ∈ (tickTimes ops).head?, ∀ h ∈ peerHellos deviceId ops, Within (peerTimeoutMs.toNat + heartbeatMs.toNat) h τ

instance (ops : List Op) : Decidable (TicksRegular heartbeatMs ops) := inferInstanceAs (Decidable (List.IsChain _ _))

instance (ops : List Op) : Decidable (FirstTickPrompt deviceId heartbeatMs peerTimeoutMs ops) :=
  have : DecidablePred fun τ => ∀ h ∈ peerHellos deviceId ops, Within (peerTimeoutMs.toNat + heartbeatMs.toNat) h τ :=
    fun _ => List.decidableBAll _ _
  Option.decidableForallMem (tickTimes ops).head?

/-- The tick at `nowMs` turns `peer_up` true. -/
def TurnsUp (ops : List Op) (nowMs : UInt64) : Prop :=
  let st := run (started deviceId mode algo startMs holdMs heartbeatMs peerTimeoutMs) ops
  st.peerUp = false ∧ (tick st nowMs).1.peerUp = true

instance (ops : List Op) (nowMs : UInt64) :
    Decidable (TurnsUp deviceId mode algo startMs holdMs heartbeatMs peerTimeoutMs ops nowMs) :=
  inferInstanceAs (Decidable (_ ∧ _))

variable {deviceId mode algo startMs holdMs heartbeatMs peerTimeoutMs}

theorem run_disabled {st : State} (off : st.enabled = false) (ops : List Op) : run st ops = st := by
  induction ops with
  | nil => rfl
  | cons op ops ih =>
    have same : step st op = st := by
      cases op with
      | hello h x => simp [step, onHello, off]
      | tick x => simp [step, tick, off]
    rw [run, List.foldl_cons, same]
    exact ih

theorem started_seen : Seen (started deviceId mode algo startMs holdMs heartbeatMs peerTimeoutMs) [] startMs := by
  refine ⟨UInt64.le_refl startMs, fun known => ?_, by simp [started, stateInit]⟩
  rcases known with up | begun
  · cases up
  · exact absurd rfl begun

theorem started_enabled (on : mode ≠ .disabled) : Enabled (started deviceId mode algo startMs holdMs heartbeatMs peerTimeoutMs) :=
  ⟨by simp [started, stateInit, on], on⟩

theorem started_steady : Steady (started deviceId mode algo startMs holdMs heartbeatMs peerTimeoutMs) none [] :=
  ⟨fun begun => absurd rfl begun, fun begun => absurd rfl begun⟩

end view

/-- After a tick, `peer_up` rests on a hello not older than the timeout; and it turns
true only after hellos have come for the hold time, with no gap longer than a timeout
and a heartbeat. -/
theorem peer_view_sound (deviceId : UInt8) (mode : Mode) (algo : Algo) (startMs : UInt64)
    (holdMs heartbeatMs peerTimeoutMs : UInt32) (ops : List Op) (nowMs : UInt64)
    (timely : Timely startMs (ops ++ [.tick nowMs])) :
    let st := run (started deviceId mode algo startMs holdMs heartbeatMs peerTimeoutMs) ops
    ((tick st nowMs).1.peerUp = true → ∃ h ∈ peerHellos deviceId ops, h ≤ nowMs ∧ Within peerTimeoutMs.toNat h nowMs) ∧
    (TicksRegular heartbeatMs (ops ++ [.tick nowMs]) →
      FirstTickPrompt deviceId heartbeatMs peerTimeoutMs (ops ++ [.tick nowMs]) →
      TurnsUp deviceId mode algo startMs holdMs heartbeatMs peerTimeoutMs ops nowMs →
      Arriving holdMs.toNat (peerTimeoutMs.toNat + heartbeatMs.toNat) (peerHellos deviceId ops) nowMs) := by
  intro st
  by_cases off : mode = .disabled
  · -- A box without a peer stays as it was started.
    have same : st = started deviceId mode algo startMs holdMs heartbeatMs peerTimeoutMs :=
      run_disabled (by simp [started, stateInit, off]) ops
    have down : (tick st nowMs).1.peerUp = false := by
      rw [same]
      simp [tick, started, stateInit, off]
    refine ⟨fun up => ?_, fun _ _ turns => ?_⟩
    · rw [down] at up
      cases up
    · have up : (tick st nowMs).1.peerUp = true := turns.2
      rw [down] at up
      cases up
  · let st₀ := started deviceId mode algo startMs holdMs heartbeatMs peerTimeoutMs
    have on : Enabled st₀ := started_enabled off
    have seen₀ : Seen st₀ [] startMs := started_seen
    obtain ⟨enabled, timers, before, next, seen⟩ := seen₀.run on timely
    have heartbeat : st.heartbeatMs = heartbeatMs := timers.heartbeatMs
    have timeout : st.peerTimeoutMs = peerTimeoutMs := timers.peerTimeoutMs
    have hold : st.holdMs = holdMs := timers.holdMs
    refine ⟨fun up => ?_, fun regular prompt turns => ?_⟩
    · obtain ⟨member, recent⟩ := seen.recent enabled next up
      exact ⟨_, member, UInt64.le_trans seen.past next, timeout ▸ recent⟩
    · have paced : Paced st₀ none [] (ops ++ [.tick nowMs]) := ⟨regular, fun _ => prompt⟩
      obtain ⟨ticked, steady⟩ := started_steady.run seen₀ on (by simp) timely paced
      have arriving := steady.arriving seen enabled next turns.1 turns.2
      rw [← heartbeat, ← timeout, ← hold]
      exact arriving

/-- Hellos in the fourth and sixth second, ticks from the fifth on. -/
theorem peer_view_six_seconds :
    let ops : List Op := [.hello ⟨ha1Magic, 1⟩ 4000, .tick 5000, .hello ⟨ha1Magic, 1⟩ 6000]
    TurnsUp 0 .activeActive .ipHash 0 2000 1000 3000 ops 6000 ∧
      Arriving 2000 4000 (peerHellos 0 ops) 6000 := by
  intro ops
  have turns : TurnsUp 0 .activeActive .ipHash 0 2000 1000 3000 ops 6000 := by decide
  have regular : TicksRegular 1000 (ops ++ [.tick 6000]) := by decide
  have prompt : FirstTickPrompt 0 1000 3000 (ops ++ [.tick 6000]) := by decide
  have timely : Timely 0 (ops ++ [.tick 6000]) := by decide
  exact ⟨turns, (peer_view_sound 0 .activeActive .ipHash 0 2000 1000 3000 ops 6000 timely).2 regular prompt turns⟩

/-- With the first tick late, a gap of a thousand seconds goes unseen: the ticks are
regular, for there is only one. -/
theorem late_first_tick :
    ¬ ∀ ops nowMs, Timely 0 (ops ++ [.tick nowMs]) → TicksRegular 1000 (ops ++ [.tick nowMs]) →
      TurnsUp 0 .activeActive .ipHash 0 2000 1000 3000 ops nowMs → Arriving 2000 4000 (peerHellos 0 ops) nowMs := by
  intro all
  have arriving := all [.hello ⟨ha1Magic, 1⟩ 1000, .hello ⟨ha1Magic, 1⟩ 1001000] 1001000 (by decide) (by decide) (by decide)
  obtain ⟨earlier, first, rest, split, held, chain⟩ := arriving
  have heard : peerHellos 0 [.hello ⟨ha1Magic, 1⟩ 1000, .hello ⟨ha1Magic, 1⟩ 1001000] = [1000, 1001000] := by decide
  rw [heard] at split
  rcases earlier with _ | ⟨a, _ | ⟨b, more⟩⟩
  · obtain ⟨rfl, rfl⟩ := List.cons.inj split
    revert chain
    decide
  · simp only [List.cons_append, List.nil_append, List.cons.injEq] at split
    obtain ⟨-, rfl, -⟩ := split
    revert held
    decide
  · simp at split

end FfnNgfw.Ha
