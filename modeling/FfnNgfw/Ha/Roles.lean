import FfnNgfw.Ha.Core

/-!
# One inspection per frame

Two boxes are joined by HA3. A frame that one of them forwards arrives at the other,
which never forwards it again. When the two agree on who owns what, the box that
inspects does not depend on where a frame comes in or on its direction.
-/

namespace FfnNgfw.Ha

/-- Every decision but `forward` has the box inspect the frame itself. -/
def Decision.inspects (d : Decision) : Bool := d ≠ .forward

abbrev Pair := Bool → State

/-- The boxes that a frame comes to, with their decisions, for at most `fuel` of them. -/
def visits (boxes : Pair) (k : FlowKey) : Nat → Bool → Bool → List (Bool × Decision)
  | 0, _, _ => []
  | fuel + 1, box, fromPeer =>
    let d := haDecide (boxes box) k fromPeer
    (box, d) :: if d = .forward then visits boxes k fuel (!box) true else []

/-- However long the frame is followed, it makes at most one hop, and `box` is the one
box that inspects it. -/
def InspectedAt (boxes : Pair) (k : FlowKey) (ingress box : Bool) : Prop :=
  ∀ fuel, 2 ≤ fuel →
    (visits boxes k fuel ingress false).length ≤ 2 ∧
      ((visits boxes k fuel ingress false).filter fun v => v.2.inspects).map Prod.fst = [box]

def Enabled (st : State) : Prop := st.enabled = true ∧ st.mode ≠ .disabled

instance (st : State) : Decidable (Enabled st) := inferInstanceAs (Decidable (_ ∧ _))

section enabled

variable {st : State} (on : Enabled st) (k : FlowKey)
include on

theorem decide_fromPeer : haDecide st k true = .fromPeer := by
  obtain ⟨enabled, mode⟩ := on
  unfold haDecide
  rw [if_neg (by simp [enabled, mode]), if_pos rfl]

theorem decide_ingress : haDecide st k false =
    if haOwner st k = st.deviceId then .local_ else if st.peerUp then .forward else .takeover := by
  obtain ⟨enabled, mode⟩ := on
  unfold haDecide
  rw [if_neg (by simp [enabled, mode]), if_neg (by simp)]

end enabled

/-- The peer's box where the flow is the peer's and the peer is thought to be up. -/
def inspector (boxes : Pair) (k : FlowKey) (ingress : Bool) : Bool :=
  if haDecide (boxes ingress) k false = .forward then !ingress else ingress

theorem inspected_at (boxes : Pair) (on : ∀ box, Enabled (boxes box)) (k : FlowKey) (ingress : Bool) :
    InspectedAt boxes k ingress (inspector boxes k ingress) := by
  intro fuel enough
  obtain ⟨n, rfl⟩ : ∃ n, fuel = n + 2 := ⟨fuel - 2, by omega⟩
  unfold inspector visits
  dsimp only
  by_cases forwards : haDecide (boxes ingress) k false = .forward
  · rw [if_pos forwards, if_pos forwards, visits, forwards, decide_fromPeer (on (!ingress)), if_neg (by simp)]
    exact ⟨Nat.le_refl 2, rfl⟩
  · rw [if_neg forwards, if_neg forwards]
    refine ⟨by simp, ?_⟩
    have inspects : (haDecide (boxes ingress) k false).inspects = true := by simp [Decision.inspects, forwards]
    rw [List.filter_cons, if_pos inspects]
    rfl

/-! ### Both directions -/

theorem normalizeKey_symm (sip dip : UInt32) (sport dport : UInt16) (proto : UInt8) :
    normalizeKey dip sip dport sport proto = normalizeKey sip dip sport dport proto := by
  unfold normalizeKey
  by_cases below : sip < dip
  · rw [if_pos (Or.inl below), if_neg]
    rintro (above | ⟨rfl, _⟩)
    · exact UInt32.lt_asymm below above
    · exact UInt32.lt_irrefl _ below
  · by_cases same : sip = dip
    · subst same
      simp only [UInt32.lt_irrefl, true_and, false_or]
      by_cases ports : sport ≤ dport
      · rw [if_pos ports]
        split
        · rename_i back
          rw [UInt16.le_antisymm ports back]
        · rfl
      · rw [if_neg ports, if_pos]
        rcases UInt16.le_total sport dport with le | ge
        · exact absurd le ports
        · exact ge
    · have above : dip < sip := UInt32.lt_of_le_of_ne (UInt32.not_lt.mp below) (Ne.symm same)
      rw [if_pos (Or.inl above), if_neg]
      rintro (again | ⟨rfl, _⟩)
      · exact below again
      · exact same rfl

/-- The boxes have ids 0 and 1, count two devices, agree on algorithm and primary, and
each holds the other to be up. -/
structure Agree (boxes : Pair) : Prop where
  ids : ((boxes false).deviceId = 0 ∧ (boxes true).deviceId = 1) ∨ ((boxes false).deviceId = 1 ∧ (boxes true).deviceId = 0)
  two : ∀ box, (boxes box).ndevices = 2
  algo : (boxes false).algo = (boxes true).algo
  primary : (boxes false).primaryDevice = (boxes true).primaryDevice
  up : ∀ box, (boxes box).peerUp = true

/-- Under the primary algorithm the primary is one of the two boxes. -/
def PrimaryInPair (boxes : Pair) : Prop :=
  (boxes false).algo = .primary → (boxes false).primaryDevice = 0 ∨ (boxes false).primaryDevice = 1

theorem mod_two (v : UInt32) : (v % (2 : UInt8).toUInt32).toUInt8 = 0 ∨ (v % (2 : UInt8).toUInt32).toUInt8 = 1 := by
  have cases : (v % 2).toNat = 0 ∨ (v % 2).toNat = 1 := by
    rw [UInt32.toNat_mod]
    exact Nat.mod_two_eq_zero_or_one v.toNat
  rcases cases with zero | one
  · exact Or.inl (by rw [show v % (2 : UInt8).toUInt32 = 0 from UInt32.toNat_inj.mp zero]; rfl)
  · exact Or.inr (by rw [show v % (2 : UInt8).toUInt32 = 1 from UInt32.toNat_inj.mp one]; rfl)

section agree

variable {boxes : Pair} (agree : Agree boxes)
include agree

theorem owner_agrees (k : FlowKey) (box : Bool) : haOwner (boxes box) k = haOwner (boxes false) k := by
  cases box with
  | false => rfl
  | true =>
    unfold haOwner
    rw [agree.two true, agree.two false, agree.algo, agree.primary]

theorem owner_in_pair (inPair : PrimaryInPair boxes) (k : FlowKey) :
    haOwner (boxes false) k = 0 ∨ haOwner (boxes false) k = 1 := by
  unfold haOwner
  rw [agree.two false]
  dsimp only
  cases algo : (boxes false).algo with
  | primary => exact inPair algo
  | ipModulo => exact mod_two k.ipLo
  | ipHash => exact mod_two (haHash k)

theorem owner_box (inPair : PrimaryInPair boxes) (k : FlowKey) :
    ∃ box, haOwner (boxes false) k = (boxes box).deviceId ∧ haOwner (boxes false) k ≠ (boxes (!box)).deviceId := by
  rcases agree.ids with ⟨first, second⟩ | ⟨first, second⟩ <;> rcases owner_in_pair agree inPair k with zero | one
  · exact ⟨false, by rw [zero, first], by rw [zero, Bool.not_false, second]; simp⟩
  · exact ⟨true, by rw [one, second], by rw [one, Bool.not_true, first]; simp⟩
  · exact ⟨true, by rw [zero, second], by rw [zero, Bool.not_true, first]; simp⟩
  · exact ⟨false, by rw [one, first], by rw [one, Bool.not_false, second]; simp⟩

theorem inspector_owner (on : ∀ box, Enabled (boxes box)) {k : FlowKey} {box : Bool}
    (owns : haOwner (boxes false) k = (boxes box).deviceId) (other : haOwner (boxes false) k ≠ (boxes (!box)).deviceId)
    (ingress : Bool) : inspector boxes k ingress = box := by
  unfold inspector
  rw [decide_ingress (on ingress), owner_agrees agree, agree.up ingress]
  by_cases here : ingress = box
  · subst here
    rw [if_pos owns]
    rfl
  · have there : ingress = !box := by
      cases ingress <;> cases box <;> simp_all
    subst there
    rw [if_neg other]
    simp

end agree

/-- Every frame is inspected once, and boxes that agree inspect a conversation at one
place. -/
def InspectsOnce (boxes : Pair) : Prop :=
  (∀ k ingress, ∃ box, InspectedAt boxes k ingress box) ∧
    (Agree boxes → ∀ sip dip sport dport proto, ∃ box, ∀ ingress,
      InspectedAt boxes (normalizeKey sip dip sport dport proto) ingress box ∧
        InspectedAt boxes (normalizeKey dip sip dport sport proto) ingress box)

theorem inspects_once (boxes : Pair) (on : ∀ box, Enabled (boxes box)) (inPair : Agree boxes → PrimaryInPair boxes) :
    InspectsOnce boxes := by
  refine ⟨fun k ingress => ⟨_, inspected_at boxes on k ingress⟩, fun agree sip dip sport dport proto => ?_⟩
  obtain ⟨box, owns, other⟩ := owner_box agree (inPair agree) (normalizeKey sip dip sport dport proto)
  refine ⟨box, fun ingress => ?_⟩
  have here := inspected_at boxes on (normalizeKey sip dip sport dport proto) ingress
  rw [inspector_owner agree on owns other] at here
  rw [normalizeKey_symm sip dip]
  exact ⟨here, here⟩

/-- A pair as `ffn_ha_state_init` sets it up, once both peers have been heard. -/
def pairOf (mode : Mode) (algo : Algo) : Pair := fun box =>
  { stateInit (if box then 1 else 0) mode algo 0 with peerUp := true }

theorem pairOf_inspects_once : InspectsOnce (pairOf .activeActive .ipHash) :=
  inspects_once _ (by decide) fun _ primary => absurd primary (by decide)

/-- Boxes 0 and 1 that take box 7 for the primary one: each holds the other to own
every flow. -/
def strangePair : Pair := fun box => { pairOf .activeActive .primary box with primaryDevice := 7 }

theorem strangePair_not_inspectsOnce : (∀ box, Enabled (strangePair box)) ∧ ¬InspectsOnce strangePair := by
  refine ⟨by decide, fun once => ?_⟩
  have agree : Agree strangePair := ⟨Or.inl ⟨rfl, rfl⟩, by decide, rfl, rfl, by decide⟩
  obtain ⟨box, inspected⟩ := once.2 agree 1 2 3 4 6
  have fromFirst := ((inspected false).1 2 (Nat.le_refl 2)).2
  have fromSecond := ((inspected true).1 2 (Nat.le_refl 2)).2
  have differ : ((visits strangePair (normalizeKey 1 2 3 4 6) 2 false false).filter fun v => v.2.inspects).map Prod.fst ≠
      ((visits strangePair (normalizeKey 1 2 3 4 6) 2 true false).filter fun v => v.2.inspects).map Prod.fst := by
    decide
  exact differ (fromFirst.trans fromSecond.symm)

end FfnNgfw.Ha

/-!
## Roles in an active/passive pair

While both boxes of an active/passive pair are up, the primary one is to be active and
the other one passive. Failback hands out the roles of an active/active pair, so the
second box is passive only until it first believes its peer.
-/

namespace FfnNgfw.Ha

inductive Op where
  | hello (h : Hello) (nowMs : UInt64)
  | tick (nowMs : UInt64)
  deriving DecidableEq

def Op.time : Op → UInt64
  | .hello _ nowMs => nowMs
  | .tick nowMs => nowMs

def step (st : State) : Op → State
  | .hello h nowMs => onHello st h nowMs
  | .tick nowMs => (tick st nowMs).1

def steps : State → List Op → List (State × Op)
  | _, [] => []
  | st, op :: ops => (st, op) :: steps (step st op) ops

def reached (st : State) (ops : List Op) : List State := st :: (steps st ops).map fun s => step s.1 s.2

def Timely (startMs : UInt64) (ops : List Op) : Prop := (startMs :: ops.map Op.time).Pairwise (· ≤ ·)

instance (startMs : UInt64) (ops : List Op) : Decidable (Timely startMs ops) := inferInstanceAs (Decidable (List.Pairwise _ _))

/-- With the peer up, the primary box is active and the other one passive. -/
def RoleOk (st : State) : Prop :=
  st.peerUp = true → st.hstate = if st.deviceId = st.primaryDevice then .active else .passive

instance (st : State) : Decidable (RoleOk st) := inferInstanceAs (Decidable (_ → _))

def failsBack (st : State) : Op → Bool
  | .hello _ _ => false
  | .tick nowMs => recovered st nowMs

structure Fixed (st st' : State) : Prop where
  deviceId : st'.deviceId = st.deviceId
  primaryDevice : st'.primaryDevice = st.primaryDevice
  mode : st'.mode = st.mode
  enabled : st'.enabled = st.enabled

theorem onHello_fixed (st : State) (h : Hello) (nowMs : UInt64) :
    Fixed st (onHello st h nowMs) ∧ (onHello st h nowMs).peerUp = st.peerUp ∧ (onHello st h nowMs).hstate = st.hstate := by
  unfold onHello
  split
  · exact ⟨⟨rfl, rfl, rfl, rfl⟩, rfl, rfl⟩
  split
  · exact ⟨⟨rfl, rfl, rfl, rfl⟩, rfl, rfl⟩
  split
  · exact ⟨⟨rfl, rfl, rfl, rfl⟩, rfl, rfl⟩
  · exact ⟨⟨rfl, rfl, rfl, rfl⟩, rfl, rfl⟩

theorem recovered_iff (st : State) (nowMs : UInt64) : recovered st nowMs = true ↔
    st.peerUp = false ∧ (st.tentativeSinceMs ≠ 0 ∧ silence st nowMs ≤ st.peerTimeoutMs.toUInt64) ∧
      st.holdMs.toUInt64 ≤ nowMs - st.tentativeSinceMs := by
  simp [recovered, and_assoc]

theorem tick_cases {st : State} (on : Enabled st) (nowMs : UInt64) :
    (recovered st nowMs = false ∧ (tick st nowMs).1 =
        { st with peerUp := false, takeovers := st.takeovers + 1, hstate := .active, tentativeSinceMs := 0 }) ∨
      (recovered st nowMs = true ∧ (tick st nowMs).1 =
        { st with
          peerUp := true
          tentativeSinceMs := 0
          hstate := if st.deviceId = st.primaryDevice then .active else .activeSec }) ∨
      (recovered st nowMs = false ∧ ∃ since, (tick st nowMs).1 = { st with tentativeSinceMs := since }) := by
  obtain ⟨enabled, mode⟩ := on
  unfold tick
  rw [if_neg (by simp [enabled, mode])]
  by_cases up : st.peerUp = true
  · have quiet : recovered st nowMs = false := by simp [recovered, up]
    rw [if_pos up]
    split
    · exact Or.inl ⟨quiet, rfl⟩
    · exact Or.inr (Or.inr ⟨quiet, _, rfl⟩)
  rw [if_neg up]
  by_cases heard : st.tentativeSinceMs ≠ 0 ∧ silence st nowMs ≤ st.peerTimeoutMs.toUInt64
  · rw [if_pos heard]
    by_cases held : st.holdMs.toUInt64 ≤ nowMs - st.tentativeSinceMs
    · rw [if_pos held]
      exact Or.inr (Or.inl ⟨(recovered_iff st nowMs).mpr ⟨by simpa using up, heard, held⟩, rfl⟩)
    · have waits : recovered st nowMs = false := by
        rw [Bool.eq_false_iff]
        exact fun back => held ((recovered_iff st nowMs).mp back).2.2
      rw [if_neg held]
      exact Or.inr (Or.inr ⟨waits, _, rfl⟩)
  · have unheard : recovered st nowMs = false := by
      rw [Bool.eq_false_iff]
      exact fun back => heard ((recovered_iff st nowMs).mp back).2.1
    rw [if_neg heard]
    split
    · exact Or.inr (Or.inr ⟨unheard, _, rfl⟩)
    · exact Or.inr (Or.inr ⟨unheard, _, rfl⟩)

theorem step_cases {st : State} (on : Enabled st) (op : Op) : Fixed st (step st op) ∧
    ((failsBack st op = false ∧ (step st op).peerUp = false ∧ (step st op).hstate = .active) ∨
      (failsBack st op = true ∧ (step st op).peerUp = true ∧
        (step st op).hstate = if st.deviceId = st.primaryDevice then .active else .activeSec) ∨
      (failsBack st op = false ∧ (step st op).peerUp = st.peerUp ∧ (step st op).hstate = st.hstate)) := by
  cases op with
  | hello h nowMs =>
    obtain ⟨fixed, up, role⟩ := onHello_fixed st h nowMs
    exact ⟨fixed, Or.inr (Or.inr ⟨rfl, up, role⟩)⟩
  | tick nowMs =>
    have ticks : step st (.tick nowMs) = (tick st nowMs).1 := rfl
    rcases tick_cases on nowMs with ⟨quiet, lost⟩ | ⟨back, taken⟩ | ⟨quiet, since, same⟩
    · rw [ticks, lost]
      exact ⟨⟨rfl, rfl, rfl, rfl⟩, Or.inl ⟨quiet, rfl, rfl⟩⟩
    · rw [ticks, taken]
      exact ⟨⟨rfl, rfl, rfl, rfl⟩, Or.inr (Or.inl ⟨back, rfl, rfl⟩)⟩
    · rw [ticks, same]
      exact ⟨⟨rfl, rfl, rfl, rfl⟩, Or.inr (Or.inr ⟨quiet, rfl, rfl⟩)⟩

theorem step_enabled {st : State} (on : Enabled st) (op : Op) : Enabled (step st op) := by
  obtain ⟨fixed, _⟩ := step_cases on op
  obtain ⟨enabled, mode⟩ := on
  exact ⟨fixed.enabled.trans enabled, fun off => mode (fixed.mode.symm.trans off)⟩

theorem primary_active {st : State} (on : Enabled st) (primary : st.deviceId = st.primaryDevice)
    (active : st.hstate = .active) (ops : List Op) : ∀ s ∈ reached st ops, RoleOk s := by
  have here : RoleOk st := by
    intro _
    rw [if_pos primary, active]
  induction ops generalizing st with
  | nil => simpa [reached, steps] using here
  | cons op ops ih =>
    obtain ⟨fixed, cases⟩ := step_cases on op
    have stays : (step st op).deviceId = (step st op).primaryDevice := by
      rw [fixed.deviceId, fixed.primaryDevice, primary]
    have active' : (step st op).hstate = .active := by
      rcases cases with ⟨_, _, role⟩ | ⟨_, _, role⟩ | ⟨_, _, role⟩
      · exact role
      · rw [role, if_pos primary]
      · exact role.trans active
    have rest := ih (step_enabled on op) stays active' (by intro _; rw [if_pos stays, active'])
    intro s member
    rcases List.mem_cons.mp member with rfl | later
    · exact here
    · exact rest s later

theorem secondary_iff {st : State} (on : Enabled st) (second : st.deviceId ≠ st.primaryDevice)
    (down : st.peerUp = false) (ops : List Op) :
    (∀ s ∈ reached st ops, RoleOk s) ↔ ∀ s ∈ steps st ops, failsBack s.1 s.2 = false := by
  have here : RoleOk st := by
    intro up
    rw [down] at up
    exact absurd up (by simp)
  induction ops generalizing st with
  | nil => simpa [reached, steps] using here
  | cons op ops ih =>
    obtain ⟨fixed, cases⟩ := step_cases on op
    have stays : (step st op).deviceId ≠ (step st op).primaryDevice := by
      rw [fixed.deviceId, fixed.primaryDevice]
      exact second
    have unfolded : reached st (op :: ops) = st :: reached (step st op) ops := rfl
    rw [unfolded, steps, List.forall_mem_cons, List.forall_mem_cons]
    by_cases back : failsBack st op = true
    · rcases cases with ⟨no, _⟩ | ⟨_, up, role⟩ | ⟨no, _⟩
      · exact absurd back (by simp [no])
      · -- the peer is up and the box calls itself the second active one
        refine ⟨fun ok => ?_, fun none => absurd back (by simp [none.1])⟩
        have wrong := ok.2 (step st op) List.mem_cons_self up
        rw [role, if_neg second, if_neg stays] at wrong
        exact absurd wrong (by decide)
      · exact absurd back (by simp [no])
    · have still : (step st op).peerUp = false := by
        rcases cases with ⟨_, lost, _⟩ | ⟨yes, _⟩ | ⟨_, up, _⟩
        · exact lost
        · exact absurd yes back
        · exact up.trans down
      have rest := ih (step_enabled on op) stays still (by intro up; rw [still] at up; exact absurd up (by simp))
      exact and_congr (iff_of_true here (Bool.eq_false_iff.mpr back)) rest

/-- The roles are right along the whole run exactly for the primary box, and for the
other one in a run without failback. -/
theorem roles_hold_iff (deviceId : UInt8) (algo : Algo) (startMs : UInt64) (ops : List Op) :
    (∀ s ∈ reached (stateInit deviceId .activePassive algo startMs) ops, RoleOk s) ↔
      deviceId = 0 ∨ ∀ s ∈ steps (stateInit deviceId .activePassive algo startMs) ops, failsBack s.1 s.2 = false := by
  have on : Enabled (stateInit deviceId .activePassive algo startMs) := ⟨rfl, Mode.noConfusion⟩
  by_cases primary : deviceId = 0
  · have active : (stateInit deviceId .activePassive algo startMs).hstate = .active := if_pos primary
    exact iff_of_true (primary_active on primary active ops) (Or.inl primary)
  · rw [secondary_iff on primary rfl ops]
    simp [primary]

/-- One hello of the primary box, and a tick when the hold time is over. -/
def firstHello : List Op := [.hello ⟨ha1Magic, 0⟩ 1000, .tick 3000]

theorem firstHello_roles_fail : Timely 0 firstHello ∧
    ¬∀ s ∈ reached (stateInit 1 .activePassive .ipHash 0) firstHello, RoleOk s := by
  decide

end FfnNgfw.Ha
