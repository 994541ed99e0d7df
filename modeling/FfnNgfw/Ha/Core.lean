import Mathlib.Tactic.Common

/-!
# High availability

The core of `ffn_ha.c`: which box of a pair owns a flow, what to do with a frame, and
the heartbeat timers that say whether the peer is up. Times are milliseconds in
64-bit words.
-/

namespace FfnNgfw.Ha

inductive Algo where
  | ipHash | ipModulo | primary
  deriving DecidableEq

inductive Mode where
  | disabled | activeActive | activePassive
  deriving DecidableEq

inductive HState where
  | init | active | activeSec | passive | tentative
  deriving DecidableEq

inductive Decision where
  /-- we own this flow -/
  | local_
  /-- the peer owns it and is up: send it over HA3 -/
  | forward
  /-- the peer owns it and is down -/
  | takeover
  /-- it came over HA3 -/
  | fromPeer
  deriving DecidableEq

/-- `struct ffn_ha_state`, without the HA3 link and the counters that nothing here reads. -/
structure State where
  mode : Mode
  algo : Algo
  hstate : HState
  deviceId : UInt8
  ndevices : UInt8
  primaryDevice : UInt8
  enabled : Bool
  peerUp : Bool
  peerLastSeenMs : UInt64
  tentativeSinceMs : UInt64
  holdMs : UInt32
  heartbeatMs : UInt32
  peerTimeoutMs : UInt32
  takeovers : UInt64
  hellosRx : UInt64
  deriving DecidableEq

def stateInit (deviceId : UInt8) (mode : Mode) (algo : Algo) (nowMs : UInt64) : State where
  mode := mode
  algo := algo
  hstate :=
    match mode with
    | .disabled => .init
    | .activePassive => if deviceId = 0 then .active else .passive
    | .activeActive => if deviceId = 0 then .active else .activeSec
  deviceId := deviceId
  ndevices := 2
  primaryDevice := 0
  enabled := mode ≠ .disabled
  peerUp := false
  peerLastSeenMs := nowMs
  tentativeSinceMs := 0
  holdMs := 2000
  heartbeatMs := 1000
  peerTimeoutMs := 3000
  takeovers := 0
  hellosRx := 0

structure FlowKey where
  ipLo : UInt32
  ipHi : UInt32
  portLo : UInt16
  portHi : UInt16
  proto : UInt8
  deriving DecidableEq

def normalizeKey (sip dip : UInt32) (sport dport : UInt16) (proto : UInt8) : FlowKey :=
  if sip < dip ∨ (sip = dip ∧ sport ≤ dport) then ⟨sip, dip, sport, dport, proto⟩
  else ⟨dip, sip, dport, sport, proto⟩

def FlowKey.bytes (k : FlowKey) : List UInt8 :=
  [k.ipLo.toUInt8, (k.ipLo >>> 8).toUInt8, (k.ipLo >>> 16).toUInt8, (k.ipLo >>> 24).toUInt8,
   k.ipHi.toUInt8, (k.ipHi >>> 8).toUInt8, (k.ipHi >>> 16).toUInt8, (k.ipHi >>> 24).toUInt8,
   k.portLo.toUInt8, (k.portLo >>> 8).toUInt8, k.portHi.toUInt8, (k.portHi >>> 8).toUInt8, k.proto]

def haHash (k : FlowKey) : UInt32 := k.bytes.foldl (fun h b => (h ^^^ b.toUInt32) * 16777619) 2166136261

def haOwner (st : State) (k : FlowKey) : UInt8 :=
  let n : UInt8 := if st.ndevices ≠ 0 then st.ndevices else 1
  match st.algo with
  | .primary => st.primaryDevice
  | .ipModulo => (k.ipLo % n.toUInt32).toUInt8
  | .ipHash => (haHash k % n.toUInt32).toUInt8

def haDecide (st : State) (k : FlowKey) (fromPeer : Bool) : Decision :=
  if !st.enabled ∨ st.mode = .disabled then .local_
  else if fromPeer then .fromPeer
  else if haOwner st k = st.deviceId then .local_
  else if st.peerUp then .forward
  else .takeover

structure Hello where
  magic : UInt16
  deviceId : UInt8
  deriving DecidableEq

def ha1Magic : UInt16 := 0x4641

def onHello (st : State) (h : Hello) (nowMs : UInt64) : State :=
  if !st.enabled then st
  else if h.magic ≠ ha1Magic then st
  else if h.deviceId = st.deviceId then st
  else
    { st with
      hellosRx := st.hellosRx + 1
      peerLastSeenMs := nowMs
      tentativeSinceMs := if !st.peerUp ∧ st.tentativeSinceMs = 0 then nowMs else st.tentativeSinceMs }

def silence (st : State) (nowMs : UInt64) : UInt64 :=
  if st.peerLastSeenMs ≤ nowMs then nowMs - st.peerLastSeenMs else 0

def recovered (st : State) (nowMs : UInt64) : Bool :=
  !st.peerUp && st.tentativeSinceMs != 0 && silence st nowMs ≤ st.peerTimeoutMs.toUInt64 &&
    st.holdMs.toUInt64 ≤ nowMs - st.tentativeSinceMs

/-- The new state, and whether `peer_up` has changed. -/
def tick (st : State) (nowMs : UInt64) : State × Bool :=
  if !st.enabled ∨ st.mode = .disabled then (st, false)
  else if st.peerUp then
    if st.peerTimeoutMs.toUInt64 < silence st nowMs then
      ({ st with peerUp := false, takeovers := st.takeovers + 1, hstate := .active, tentativeSinceMs := 0 }, true)
    else (st, false)
  else if st.tentativeSinceMs ≠ 0 ∧ silence st nowMs ≤ st.peerTimeoutMs.toUInt64 then
    if st.holdMs.toUInt64 ≤ nowMs - st.tentativeSinceMs then
      ({ st with
        peerUp := true
        tentativeSinceMs := 0
        hstate := if st.deviceId = st.primaryDevice then .active else .activeSec }, true)
    else (st, false)
  else if st.peerTimeoutMs.toUInt64 < silence st nowMs then ({ st with tentativeSinceMs := 0 }, false)
  else (st, false)

end FfnNgfw.Ha
