import FfnNgfw.Portable.Octeon

/-!
# The AF_PACKET packet-I/O backend

`ffn_dp_io_afpacket.c` reads frames from one socket for each port and sends them by another.
The kernel is the queue of each socket: frames from the wire, and on a socket that does not
ignore them the box's own transmits.
-/

namespace FfnNgfw.Portable
open Mem

/-- A frame in the queue of a socket; `outgoing` is `PACKET_OUTGOING`. -/
structure Arrival where
  data : Mem
  len : UInt32
  outgoing : Bool

def afpFrameMax : UInt32 := 2048

/-- What `recvfrom` gives of a frame: what fits into the buffer. -/
def Arrival.read (a : Arrival) : Arrival := { a with len := if afpFrameMax < a.len then afpFrameMax else a.len }

structure AfpPort where
  vsys : UInt8
  ignoreOutgoing : Bool

structure Sent where
  packet : Packet
  egress : UInt16
  inPort : UInt16
  out : UInt16

/-- The ports and their sockets. `queue` is what the kernel has for each; `arrived`, `taken`, `handed` and `sent` are the history. -/
structure AfpLine where
  ports : List AfpPort
  rrStart : Nat
  inPort : Nat → UInt16
  statRx : UInt64
  statOwnSkipped : UInt64
  queue : Nat → List Arrival
  arrived : Nat → List Arrival
  taken : Nat → List Arrival
  handed : List (Nat × Arrival)
  sent : List Sent

structure AfpCtx extends AfpLine where
  statTx : UInt64
  statTxErr : UInt64
  statLocal : UInt64
  statNoEgress : UInt64
  statBadEgress : UInt64
  statOffloadUnavail : UInt64

def afpMaxPorts : Nat := 8

def afpLineInit : AfpLine := ⟨[], 0, fun _ => 0, 0, 0, fun _ => [], fun _ => [], fun _ => [], [], []⟩

def afpAddPort (c : AfpLine) (p : AfpPort) : AfpLine := if c.ports.length ≥ afpMaxPorts then c else { c with ports := c.ports ++ [p] }

def AfpLine.enqueue (c : AfpLine) (i : Nat) (a : Arrival) : AfpLine :=
  { c with queue := Function.update c.queue i (c.queue i ++ [a]), arrived := Function.update c.arrived i (c.arrived i ++ [a]) }

/-- `recvfrom` on the socket of port `i`, with `q` left for the next call. It is taken to fail on an empty queue only. -/
def AfpLine.recv (c : AfpLine) (i : Nat) (a : Arrival) (q : List Arrival) : AfpLine :=
  { c with queue := Function.update c.queue i q, taken := Function.update c.taken i (c.taken i ++ [a]) }

/-- What leaves the box by port `i` is shown to the socket, unless it ignores its own transmits. -/
def AfpLine.show (c : AfpLine) (i : Nat) (data : Mem) (len : UInt32) : AfpLine :=
  match c.ports[i]? with
  | some p => if p.ignoreOutgoing then c else c.enqueue i ⟨data, len, true⟩
  | none => c

/-- Slot `n` of the burst remembers the port. -/
def AfpLine.hand (c : AfpLine) (i : Nat) (a : Arrival) (n : Nat) : AfpLine :=
  { c with inPort := Function.update c.inPort n (UInt16.ofNat i), statRx := c.statRx + 1, handed := c.handed ++ [(i, a)] }

/-- The loop of `afp_rx` over one port. -/
def drain (p : AfpPort) (i max : Nat) : List Arrival → AfpLine → List DpPkt → AfpLine × List DpPkt
  | [], c, burst => (c, burst)
  | a :: q, c, burst =>
    if burst.length < max then
      let c := c.recv i a q
      if a.read.len = 0 then (c, burst)
      else if !p.ignoreOutgoing && a.outgoing then drain p i max q { c with statOwnSkipped := c.statOwnSkipped + 1 } burst
      else drain p i max q (c.hand i a.read burst.length) (burst ++ [⟨⟨a.data, a.read.len, p.vsys⟩, 0, dpEgressNone, some burst.length⟩])
    else (c, burst)

/-- One port of the round; `ready` is what `poll` has said. -/
def drainPort (max : Nat) (ready : Nat → Bool) (r : AfpLine × List DpPkt) (i : Nat) : AfpLine × List DpPkt :=
  match r.1.ports[i]? with
  | none => r
  | some p => if r.2.length < max ∧ ready i = true then drain p i max (r.1.queue i) r.1 r.2 else r

def AfpLine.round (c : AfpLine) : List Nat := (List.range c.ports.length).map fun k => (c.rrStart + k) % c.ports.length

def AfpLine.ready (c : AfpLine) (i : Nat) : Bool := !(c.queue i).isEmpty

/-- `afp_rx`; `answered` is whether `poll` succeeds. -/
def afpRx (c : AfpLine) (max : Nat) (answered : Bool) : AfpLine × List DpPkt :=
  if c.ports.length = 0 then (c, [])
  else if answered = false ∨ (List.range c.ports.length).any c.ready = false then (c, [])
  else
    let (c', burst) := c.round.foldl (drainPort (min max dpBurst) c.ready) (c, [])
    ({ c' with rrStart := (c'.rrStart + 1) % c'.ports.length }, burst)

/-! ### Sending -/

def AfpLine.ingress (c : AfpLine) (p : DpPkt) : UInt16 := p.cookie.elim 0 c.inPort

def afpEgress (c : AfpLine) (p : DpPkt) : Option UInt16 :=
  if p.egress = dpEgressNone then
    if c.ports.length = 2 then some (if c.ingress p = 0 then 1 else 0) else none
  else some p.egress

/-- `afp_tx_one`; `whole` is whether `sendto` takes all of the frame. -/
def afpTxOne (whole : Bool) (c : AfpCtx) (p : DpPkt) : AfpCtx × Nat :=
  match afpEgress c.toAfpLine p with
  | none => ({ c with statNoEgress := c.statNoEgress + 1 }, 0)
  | some out =>
    if c.ports.length ≤ out.toNat then ({ c with statBadEgress := c.statBadEgress + 1 }, 0)
    else if whole = false then ({ c with statTxErr := c.statTxErr + 1 }, 0)
    else
      let line := { c.toAfpLine with sent := c.sent ++ [Sent.mk p.packet p.egress (c.ingress p) out] }
      ({ c with toAfpLine := line.show out.toNat p.packet.data p.packet.len, statTx := c.statTx + 1 }, 1)

/-- The turn of `dp_poll_once` for one packet of the burst. -/
def pollPktAfp (xmit : DpPkt → Bool) (s : DpCtx × AfpCtx) (p : DpPkt) : DpCtx × AfpCtx :=
  let (dp, res, _) := dpProcess { s.1 with statRx := s.1.statRx + 1 } p.packet
  let p := { p with decision := res.decision, egress := res.egress }
  if Passes res.decision then
    let (c, ok) := afpTxOne (xmit p) s.2 p
    (if ok = 1 then { dp with statTx := dp.statTx + 1 } else { dp with statTxFail := dp.statTxFail + 1 }, c)
  else if res.decision = fpLocal then (dp, { s.2 with statLocal := s.2.statLocal + 1 })
  else if res.decision = fpPuntFpga then (dp, { s.2 with statOffloadUnavail := s.2.statOffloadUnavail + 1 })
  else (dp, s.2)

structure AfpPoll where
  answered : Bool
  xmit : DpPkt → Bool
  between : DpCtx → DpCtx

def pollAfp (s : DpCtx × AfpCtx) (x : AfpPoll) : DpCtx × AfpCtx :=
  let dp := dpHeartbeat (dpServiceCommands (x.between s.1)).1
  let (line, burst) := afpRx s.2.toAfpLine dpBurst x.answered
  burst.foldl (pollPktAfp x.xmit) (dp, { s.2 with toAfpLine := line })

inductive AfpEvent where
  | wire (port : Nat) (data : Mem) (len : UInt32)
  /-- the host's own stack sends by the interface -/
  | host (port : Nat) (data : Mem) (len : UInt32)
  | poll (x : AfpPoll)

def afpStep (s : DpCtx × AfpCtx) : AfpEvent → DpCtx × AfpCtx
  | .wire i data len => (s.1, { s.2 with toAfpLine := s.2.enqueue i ⟨data, len, false⟩ })
  | .host i data len => (s.1, { s.2 with toAfpLine := s.2.show i data len })
  | .poll x => pollAfp s x

def afpRun (s : DpCtx × AfpCtx) (events : List AfpEvent) : DpCtx × AfpCtx := events.foldl afpStep s

def afpBoot (dp : DpCtx) (ports : List AfpPort) : DpCtx × AfpCtx := (dp, ⟨ports.foldl afpAddPort afpLineInit, 0, 0, 0, 0, 0, 0⟩)

/-! ### The seam to the kernel -/

/-- A frame that `afp_rx` hands to the dataplane. -/
def AfpPort.accepts (p : AfpPort) (a : Arrival) : Bool := a.len ≠ 0 && !(!p.ignoreOutgoing && a.outgoing)

def AfpLine.handedBy (c : AfpLine) (i : Nat) : List Arrival := (c.handed.filter fun h => h.1 = i).map Prod.snd

theorem read_empty (a : Arrival) : a.read.len = 0 ↔ a.len = 0 := by
  unfold Arrival.read
  split
  · rename_i long
    refine iff_of_false (show afpFrameMax ≠ 0 by decide) ?_
    intro empty
    rw [empty] at long
    exact absurd long (by decide)
  · exact Iff.rfl

def AfpLine.carried (c : AfpLine) (p : DpPkt) : UInt16 × Mem × UInt32 := (c.ingress p, p.packet.data, p.packet.len)

def Sent.carried (x : Sent) : UInt16 × Mem × UInt32 := (x.inPort, x.packet.data, x.packet.len)

def received (h : Nat × Arrival) : UInt16 × Mem × UInt32 := (UInt16.ofNat h.1, h.2.data, h.2.len)

/-- Each queue is first in, first out; what was taken from it is handed over in the order of its arrival, as far as it fits the buffer,
but for empty frames and own transmits. What was sent, then what is left of the burst, was handed over in this order. -/
structure Bridge (c : AfpLine) (burst : List DpPkt) : Prop where
  fifo : ∀ i, c.taken i ++ c.queue i = c.arrived i
  handed : ∀ i p, c.ports[i]? = some p → c.handedBy i = ((c.taken i).filter p.accepts).map Arrival.read
  wire : ∀ h ∈ c.handed, h.2.outgoing = false
  ignored : ∀ i p, c.ports[i]? = some p → p.ignoreOutgoing = true → ∀ a ∈ c.queue i, a.outgoing = false
  counted : c.statRx = UInt64.ofNat c.handed.length
  relayed : (c.sent.map Sent.carried ++ burst.map c.carried).Sublist (c.handed.map received)
  crossed : ∀ x ∈ c.sent, x.egress = dpEgressNone → x.out ≠ x.inPort

theorem handedBy_append (c : AfpLine) (i j n : Nat) (a : Arrival) :
    (c.hand j a n).handedBy i = c.handedBy i ++ if j = i then [a] else [] := by
  unfold AfpLine.hand AfpLine.handedBy
  dsimp only
  rw [List.filter_append, List.map_append]
  by_cases same : j = i
  · rw [if_pos same, List.filter_cons_of_pos (by simpa using same)]
    rfl
  · rw [if_neg same, List.filter_cons_of_neg (by simpa using same)]
    rfl

theorem Bridge.boot (dp : DpCtx) (ports : List AfpPort) : Bridge (afpBoot dp ports).2.toAfpLine [] := by
  suffices bare : ∀ c : AfpLine, (∀ i, c.taken i = [] ∧ c.queue i = [] ∧ c.arrived i = []) ∧ c.handed = [] ∧ c.sent = [] ∧ c.statRx = 0 →
      Bridge (ports.foldl afpAddPort c) [] from bare afpLineInit ⟨fun _ => ⟨rfl, rfl, rfl⟩, rfl, rfl, rfl⟩
  induction ports with
  | nil =>
    intro c ⟨queues, handed, sent, count⟩
    rw [List.foldl_nil]
    refine ⟨?_, ?_, ?_, ?_, ?_, ?_, ?_⟩
    · intro i
      rw [(queues i).1, (queues i).2.1, (queues i).2.2]
      rfl
    · intro i p _
      rw [(queues i).1, AfpLine.handedBy, handed]
      rfl
    · rw [handed]
      nofun
    · intro i p _ _ a member
      rw [(queues i).2.1] at member
      exact absurd member List.not_mem_nil
    · rw [handed, count]
      rfl
    · rw [sent, handed]
      exact List.Sublist.slnil
    · rw [sent]
      nofun
  | cons p ports ih =>
    intro c bare
    apply ih
    unfold afpAddPort
    split
    · exact bare
    · exact bare

variable {a : Arrival} {burst rest : List DpPkt} {c : AfpLine} {i : Nat} {q : List Arrival}
variable {p : AfpPort} {s : DpCtx × AfpCtx}

theorem Bridge.enqueue (h : Bridge c burst) (i : Nat)
    (clean : ∀ p, c.ports[i]? = some p → p.ignoreOutgoing = true → a.outgoing = false) : Bridge (c.enqueue i a) burst := by
  refine ⟨?_, h.handed, h.wire, ?_, h.counted, h.relayed, h.crossed⟩
  · intro j
    change c.taken j ++ Function.update c.queue i (c.queue i ++ [a]) j = Function.update c.arrived i (c.arrived i ++ [a]) j
    by_cases here : j = i
    · rw [here, Function.update_self, Function.update_self, ← List.append_assoc, h.fifo]
    · rw [Function.update_of_ne here, Function.update_of_ne here, h.fifo]
  · intro j p port ignoring b member
    change b ∈ Function.update c.queue i (c.queue i ++ [a]) j at member
    by_cases here : j = i
    · subst here
      rw [Function.update_self] at member
      rcases List.mem_append.mp member with old | new
      · exact h.ignored j p port ignoring b old
      · rw [List.mem_singleton.mp new]
        exact clean p port ignoring
    · rw [Function.update_of_ne here] at member
      exact h.ignored j p port ignoring b member

theorem Bridge.show (h : Bridge c burst) (i : Nat) (data : Mem) (len : UInt32) :
    Bridge (c.show i data len) burst := by
  unfold AfpLine.show
  split
  next p port =>
    split
    · exact h
    next seen =>
      apply h.enqueue i
      intro p' port' ignoring
      rw [port] at port'
      obtain rfl := Option.some.inj port'
      exact absurd ignoring seen
  next => exact h

/-! ### A round of receiving -/

theorem recv_fifo (h : Bridge c burst)
    (head : c.queue i = a :: q) (j : Nat) : (c.recv i a q).taken j ++ (c.recv i a q).queue j = c.arrived j := by
  change Function.update c.taken i (c.taken i ++ [a]) j ++ Function.update c.queue i q j = c.arrived j
  by_cases here : j = i
  · rw [here, Function.update_self, Function.update_self, List.append_assoc, List.singleton_append, ← head, h.fifo]
  · rw [Function.update_of_ne here, Function.update_of_ne here, h.fifo]

theorem recv_queue (head : c.queue i = a :: q) {j : Nat} {b : Arrival}
    (member : b ∈ (c.recv i a q).queue j) : b ∈ c.queue j := by
  change b ∈ Function.update c.queue i q j at member
  by_cases here : j = i
  · subst here
    rw [Function.update_self] at member
    rw [head]
    exact List.mem_cons_of_mem a member
  · rwa [Function.update_of_ne here] at member

theorem recv_accepted (h : Bridge c burst) (port : c.ports[i]? = some p)
    (a : Arrival) (q : List Arrival) {j : Nat} {p' : AfpPort} (port' : c.ports[j]? = some p') :
    (((c.recv i a q).taken j).filter p'.accepts).map Arrival.read =
      c.handedBy j ++ if i = j ∧ p.accepts a = true then [a.read] else [] := by
  change ((Function.update c.taken i (c.taken i ++ [a]) j).filter p'.accepts).map Arrival.read = _
  by_cases here : j = i
  · subst here
    obtain rfl := Option.some.inj (port.symm.trans port')
    rw [Function.update_self, List.filter_append, List.map_append, h.handed j p port]
    by_cases accepted : p.accepts a = true
    · rw [List.filter_cons_of_pos accepted, if_pos ⟨rfl, accepted⟩, List.filter_nil]
      rfl
    · rw [List.filter_cons_of_neg accepted, if_neg fun both => accepted both.2, List.filter_nil]
      rfl
  · rw [Function.update_of_ne here, if_neg fun both => here both.1.symm, List.append_nil, h.handed j p' port']

theorem Bridge.skip (h : Bridge c burst) (port : c.ports[i]? = some p)
    (head : c.queue i = a :: q) (refused : p.accepts a ≠ true) : Bridge (c.recv i a q) burst := by
  refine ⟨recv_fifo h head, ?_, h.wire, ?_, h.counted, h.relayed, h.crossed⟩
  · intro j p' port'
    rw [recv_accepted h port a q port', if_neg fun both => refused both.2, List.append_nil]
    rfl
  · intro j p' port' ignoring b member
    exact h.ignored j p' port' ignoring b (recv_queue head member)

/-- The packets of the burst remember their ports in slots that are taken. -/
def Slotted (burst : List DpPkt) : Prop := ∀ p ∈ burst, ∃ k < burst.length, p.cookie = some k

theorem Slotted.append (slotted : Slotted burst) {p : DpPkt} (cookie : p.cookie = some burst.length) :
    Slotted (burst ++ [p]) := by
  intro p' member
  rw [List.length_append, List.length_singleton]
  rcases List.mem_append.mp member with old | new
  · obtain ⟨k, inside, cookie⟩ := slotted p' old
    exact ⟨k, Nat.lt_succ_of_lt inside, cookie⟩
  · rw [List.mem_singleton.mp new]
    exact ⟨burst.length, Nat.lt_succ_self _, cookie⟩

theorem carried_kept (slotted : Slotted burst) (i : Nat) (a : Arrival) :
    burst.map (c.hand i a burst.length).carried = burst.map c.carried := by
  apply List.map_congr_left
  intro p member
  obtain ⟨k, inside, cookie⟩ := slotted p member
  unfold AfpLine.carried AfpLine.ingress
  rw [cookie]
  change (Function.update c.inPort burst.length (UInt16.ofNat i) k, _, _) = _
  rw [Function.update_of_ne (Nat.ne_of_lt inside)]
  rfl

theorem Bridge.hand (h : Bridge c burst) (slotted : Slotted burst)
    (port : c.ports[i]? = some p) (head : c.queue i = a :: q) (accepted : p.accepts a = true) :
    Bridge ((c.recv i a q).hand i a.read burst.length)
      (burst ++ [⟨⟨a.data, a.read.len, p.vsys⟩, 0, dpEgressNone, some burst.length⟩]) := by
  have clean : a.outgoing = false := by
    by_cases ignoring : p.ignoreOutgoing = true
    · apply h.ignored i p port ignoring
      rw [head]
      exact List.mem_cons_self
    · simp only [AfpPort.accepts, ignoring, Bool.and_eq_true] at accepted
      simpa using accepted.2
  refine ⟨recv_fifo h head, ?_, ?_, ?_, ?_, ?_, h.crossed⟩
  · intro j p' port'
    rw [handedBy_append]
    change _ = (((c.recv i a q).taken j).filter p'.accepts).map Arrival.read
    rw [recv_accepted h port a q port']
    simp only [accepted, and_true]
    rfl
  · intro x member
    rcases List.mem_append.mp member with old | new
    · exact h.wire x old
    · rw [List.mem_singleton.mp new]
      exact clean
  · intro j p' port' ignoring b member
    exact h.ignored j p' port' ignoring b (recv_queue head member)
  · change c.statRx + 1 = UInt64.ofNat (c.handed ++ [(i, a.read)]).length
    rw [List.length_append, List.length_singleton, UInt64.ofNat_add, h.counted]
    rfl
  · change (c.sent.map Sent.carried ++ _).Sublist ((c.handed ++ [(i, a.read)]).map received)
    rw [List.map_append, List.map_append, carried_kept slotted, ← List.append_assoc]
    apply List.Sublist.append h.relayed
    simp [AfpLine.carried, AfpLine.ingress, AfpLine.hand, received, Arrival.read]

/-- What `afp_rx` leaves of a port's history: more of it. -/
structure Onward (c c' : AfpLine) : Prop where
  ports : c'.ports = c.ports
  rrStart : c'.rrStart = c.rrStart
  taken : ∀ i, c.taken i <+: c'.taken i
  arrived : ∀ i, c.arrived i <+: c'.arrived i

@[refl] theorem Onward.refl (c : AfpLine) : Onward c c := ⟨rfl, rfl, fun _ => List.prefix_rfl, fun _ => List.prefix_rfl⟩

@[trans] theorem Onward.trans {a b c : AfpLine} (first : Onward a b) (second : Onward b c) : Onward a c :=
  ⟨second.ports.trans first.ports, second.rrStart.trans first.rrStart,
    fun i => (first.taken i).trans (second.taken i), fun i => (first.arrived i).trans (second.arrived i)⟩

theorem update_prefix {α : Type} (f : Nat → List α) (i : Nat) (a : α) (j : Nat) : f j <+: Function.update f i (f i ++ [a]) j := by
  by_cases here : j = i
  · rw [here, Function.update_self]
    exact List.prefix_append _ _
  · refine ⟨[], ?_⟩
    rw [List.append_nil, Function.update_of_ne here]

theorem recv_onward (c : AfpLine) (i : Nat) (a : Arrival) (q : List Arrival) : Onward c (c.recv i a q) :=
  ⟨rfl, rfl, update_prefix c.taken i a, fun _ => List.prefix_rfl⟩

theorem recv_taken (c : AfpLine) (i : Nat) (a : Arrival) (q : List Arrival) :
    ((c.recv i a q).taken i).length = (c.taken i).length + 1 := by
  change (Function.update c.taken i (c.taken i ++ [a]) i).length = _
  rw [Function.update_self, List.length_append, List.length_singleton]

theorem drain_onward (p : AfpPort) (i max : Nat) (q : List Arrival) (c : AfpLine) (burst : List DpPkt) :
    Onward c (drain p i max q c burst).1 := by
  fun_induction drain p i max q c burst with
  | case1 c burst => exact Onward.refl c
  | case2 a q c burst room c' empty => exact recv_onward c i a q
  | case3 a q c burst room c' some own ih =>
    apply (recv_onward c i a q).trans
    exact ⟨ih.ports, ih.rrStart, ih.taken, ih.arrived⟩
  | case4 a q c burst room c' some other ih =>
    apply (recv_onward c i a q).trans
    exact ⟨ih.ports, ih.rrStart, ih.taken, ih.arrived⟩
  | case5 a q c burst full => exact Onward.refl c

theorem drain_bridge (max : Nat) (h : Bridge c burst)
    (slotted : Slotted burst) (port : c.ports[i]? = some p) (waiting : c.queue i = q) :
    Bridge (drain p i max q c burst).1 (drain p i max q c burst).2 ∧ Slotted (drain p i max q c burst).2 := by
  fun_induction drain p i max q c burst with
  | case1 c burst => exact ⟨h, slotted⟩
  | case2 a q c burst room c' empty =>
    refine ⟨h.skip port waiting ?_, slotted⟩
    simp [AfpPort.accepts, (read_empty a).mp empty]
  | case3 a q c burst room c' some own ih =>
    have skipped : Bridge c' burst := by
      apply h.skip port waiting
      simp only [AfpPort.accepts, own]
      simp
    apply ih ⟨skipped.fifo, skipped.handed, skipped.wire, skipped.ignored, skipped.counted, skipped.relayed,
      skipped.crossed⟩ slotted port
    exact Function.update_self ..
  | case4 a q c burst room c' some other ih =>
    have accepted : p.accepts a = true := by
      rw [read_empty] at some
      simp only [AfpPort.accepts, other]
      simpa using some
    apply ih (h.hand slotted port waiting accepted) (slotted.append rfl) port
    exact Function.update_self ..
  | case5 a q c burst full => exact ⟨h, slotted⟩

theorem drainPort_onward (max : Nat) (ready : Nat → Bool) (r : AfpLine × List DpPkt) (i : Nat) :
    Onward r.1 (drainPort max ready r i).1 := by
  unfold drainPort
  split
  · rfl
  · split
    · exact drain_onward _ i max _ _ _
    · rfl

theorem drainPort_bridge (max : Nat) (ready : Nat → Bool) {r : AfpLine × List DpPkt} (h : Bridge r.1 r.2 ∧ Slotted r.2) (i : Nat) :
    Bridge (drainPort max ready r i).1 (drainPort max ready r i).2 ∧ Slotted (drainPort max ready r i).2 := by
  unfold drainPort
  split
  · exact h
  next p port =>
    split
    · exact drain_bridge max h.1 h.2 port rfl
    · exact h

theorem round_onward (max : Nat) (ready : Nat → Bool) (order : List Nat) (r : AfpLine × List DpPkt) :
    Onward r.1 (order.foldl (drainPort max ready) r).1 := by
  induction order generalizing r with
  | nil => exact Onward.refl r.1
  | cons i order ih => exact (drainPort_onward max ready r i).trans (ih (drainPort max ready r i))

theorem round_bridge (max : Nat) (ready : Nat → Bool) (order : List Nat) {r : AfpLine × List DpPkt} (h : Bridge r.1 r.2 ∧ Slotted r.2) :
    Bridge (order.foldl (drainPort max ready) r).1 (order.foldl (drainPort max ready) r).2 := by
  induction order generalizing r with
  | nil => exact h.1
  | cons i order ih => exact ih (drainPort_bridge max ready h i)

theorem afpRx_bridge (h : Bridge c []) (max : Nat) (answered : Bool) :
    Bridge (afpRx c max answered).1 (afpRx c max answered).2 := by
  unfold afpRx
  split
  · exact h
  · split
    · exact h
    · have taken := round_bridge (min max dpBurst) c.ready c.round (r := (c, [])) ⟨h, nofun⟩
      exact ⟨taken.fifo, taken.handed, taken.wire, taken.ignored, taken.counted, taken.relayed, taken.crossed⟩

theorem Bridge.drop {p : DpPkt} (h : Bridge c (p :: rest)) : Bridge c rest := by
  refine ⟨h.fifo, h.handed, h.wire, h.ignored, h.counted, ?_, h.crossed⟩
  apply List.Sublist.trans _ h.relayed
  apply List.Sublist.append_left
  exact List.sublist_cons_self _ _

theorem egress_crosses {p : DpPkt} {out : UInt16} (chosen : afpEgress c p = some out) (unset : p.egress = dpEgressNone) :
    out ≠ c.ingress p := by
  rw [afpEgress, if_pos unset] at chosen
  split at chosen
  · obtain rfl := Option.some.inj chosen
    split
    next first =>
      rw [first]
      decide
    next other => exact Ne.symm other
  · cases chosen

theorem afpTxOne_bridge {c : AfpCtx} {p : DpPkt} (h : Bridge c.toAfpLine (p :: rest)) (whole : Bool) (dec : Int) (egress : UInt16) :
    Bridge (afpTxOne whole c { p with decision := dec, egress := egress }).1.toAfpLine rest := by
  have dropped := h.drop
  unfold afpTxOne
  split
  · exact dropped
  next out chosen =>
    split
    · exact dropped
    · split
      · exact dropped
      · apply Bridge.show
        refine ⟨h.fifo, h.handed, h.wire, h.ignored, h.counted, ?_, ?_⟩
        · dsimp only
          rw [List.map_append, List.append_assoc]
          exact h.relayed
        · intro x member unset
          rcases List.mem_append.mp member with old | new
          · exact h.crossed x old unset
          · obtain rfl := List.mem_singleton.mp new
            exact egress_crosses chosen unset

theorem pollPktAfp_bridge (xmit : DpPkt → Bool) {p : DpPkt} (h : Bridge s.2.toAfpLine (p :: rest)) :
    Bridge (pollPktAfp xmit s p).2.toAfpLine rest := by
  have dropped := h.drop
  unfold pollPktAfp
  dsimp only
  split
  · exact afpTxOne_bridge h _ _ _
  · split
    · exact dropped
    · split
      · exact dropped
      · exact dropped

theorem burst_bridge (xmit : DpPkt → Bool) (h : Bridge s.2.toAfpLine burst) :
    Bridge (burst.foldl (pollPktAfp xmit) s).2.toAfpLine [] := by
  induction burst generalizing s with
  | nil => exact h
  | cons p rest ih => exact ih (pollPktAfp_bridge xmit h)

theorem afpStep_bridge (h : Bridge s.2.toAfpLine []) (e : AfpEvent) : Bridge (afpStep s e).2.toAfpLine [] := by
  cases e with
  | wire i data len => exact h.enqueue i fun _ _ _ => rfl
  | host i data len => exact h.show i data len
  | poll x => exact burst_bridge x.xmit (afpRx_bridge h dpBurst x.answered)

theorem afpRun_bridge (h : Bridge s.2.toAfpLine []) (events : List AfpEvent) : Bridge (afpRun s events).2.toAfpLine [] := by
  induction events generalizing s with
  | nil => exact h
  | cons e events ih => exact ih (afpStep_bridge h e)

theorem enqueue_onward (c : AfpLine) (i : Nat) (a : Arrival) : Onward c (c.enqueue i a) :=
  ⟨rfl, rfl, fun _ => List.prefix_rfl, update_prefix c.arrived i a⟩

theorem show_onward (c : AfpLine) (i : Nat) (data : Mem) (len : UInt32) : Onward c (c.show i data len) := by
  unfold AfpLine.show
  split
  · split
    · rfl
    · exact enqueue_onward c i _
  · rfl

theorem afpTxOne_onward (whole : Bool) (c : AfpCtx) (p : DpPkt) : Onward c.toAfpLine (afpTxOne whole c p).1.toAfpLine := by
  unfold afpTxOne
  split
  · rfl
  · split
    · rfl
    · split
      · rfl
      · apply Onward.trans _ (show_onward _ _ _ _)
        exact ⟨rfl, rfl, fun _ => List.prefix_rfl, fun _ => List.prefix_rfl⟩

theorem pollPktAfp_onward (xmit : DpPkt → Bool) (s : DpCtx × AfpCtx) (p : DpPkt) :
    Onward s.2.toAfpLine (pollPktAfp xmit s p).2.toAfpLine := by
  unfold pollPktAfp
  dsimp only
  split
  · exact afpTxOne_onward _ s.2 _
  · split
    · rfl
    · split
      · rfl
      · rfl

theorem burst_onward (xmit : DpPkt → Bool) (burst : List DpPkt) (s : DpCtx × AfpCtx) :
    Onward s.2.toAfpLine (burst.foldl (pollPktAfp xmit) s).2.toAfpLine := by
  induction burst generalizing s with
  | nil => exact Onward.refl s.2.toAfpLine
  | cons p rest ih => exact (pollPktAfp_onward xmit s p).trans (ih (pollPktAfp xmit s p))

theorem pollAfp_onward (s : DpCtx × AfpCtx) (x : AfpPoll) :
    Onward (afpRx s.2.toAfpLine dpBurst x.answered).1 (afpStep s (.poll x)).2.toAfpLine :=
  burst_onward x.xmit (afpRx s.2.toAfpLine dpBurst x.answered).2
    (dpHeartbeat (dpServiceCommands (x.between s.1)).1, { s.2 with toAfpLine := (afpRx s.2.toAfpLine dpBurst x.answered).1 })

theorem drain_takes {i max : Nat} (c : AfpLine)
    (room : burst.length < max) : (c.taken i).length < ((drain p i max (a :: q) c burst).1.taken i).length := by
  have onward : Onward (c.recv i a q) (drain p i max (a :: q) c burst).1 := by
    rw [drain, if_pos room]
    dsimp only
    split
    · rfl
    · split
      · apply Onward.trans _ (drain_onward p i max q _ _)
        exact ⟨rfl, rfl, fun _ => List.prefix_rfl, fun _ => List.prefix_rfl⟩
      · apply Onward.trans _ (drain_onward p i max q _ _)
        exact ⟨rfl, rfl, fun _ => List.prefix_rfl, fun _ => List.prefix_rfl⟩
  have more := (onward.taken i).length_le
  rw [recv_taken] at more
  omega

theorem round_takes {max : Nat} (room : 0 < max) (inside : i < c.ports.length) (turn : c.rrStart = i)
    (waiting : c.queue i ≠ []) :
    (c.taken i).length < ((c.round.foldl (drainPort max c.ready) (c, [])).1.taken i).length := by
  obtain ⟨n, count⟩ := Nat.exists_eq_add_one_of_ne_zero (Nat.ne_of_gt (Nat.zero_lt_of_lt inside))
  obtain ⟨a, q, head⟩ := List.exists_cons_of_ne_nil waiting
  have first : c.round = i :: ((List.range n).map Nat.succ).map fun k => (c.rrStart + k) % c.ports.length := by
    rw [AfpLine.round]
    conv_lhs => rw [count, List.range_succ_eq_map]
    rw [List.map_cons, ← count, Nat.add_zero, turn, Nat.mod_eq_of_lt inside]
  have served : drainPort max c.ready (c, []) i = drain (c.ports.get ⟨i, inside⟩) i max (a :: q) c [] := by
    have ready : c.ready i = true := by
      rw [AfpLine.ready, head]
      rfl
    rw [drainPort]
    dsimp only
    rw [List.getElem?_eq_getElem inside]
    dsimp only
    rw [if_pos ⟨room, ready⟩, head]
    rfl
  rw [first, List.foldl_cons, served]
  apply Nat.lt_of_lt_of_le (drain_takes c (show ([] : List DpPkt).length < max from room))
  exact ((round_onward max c.ready _ _).taken i).length_le

/-- How many rounds start at another port before port `i`. -/
def AfpLine.distance (c : AfpLine) (i : Nat) : Nat := if c.rrStart ≤ i then i - c.rrStart else i + c.ports.length - c.rrStart

def AfpEvent.answered : AfpEvent → Bool
  | .poll x => x.answered
  | .wire _ _ _ | .host _ _ _ => false

/-- A bound for the answered polls until `goal` frames of port `i` have been taken. -/
def AfpLine.rank (c : AfpLine) (i goal : Nat) : Nat := (goal - (c.taken i).length) * c.ports.length + c.distance i

theorem Onward.rank {c c' : AfpLine} (h : Onward c c') (i goal : Nat) : c'.rank i goal ≤ c.rank i goal := by
  have fewer : goal - (c'.taken i).length ≤ goal - (c.taken i).length := Nat.sub_le_sub_left (h.taken i).length_le goal
  unfold AfpLine.rank AfpLine.distance
  rw [h.ports, h.rrStart]
  exact Nat.add_le_add_right (Nat.mul_le_mul_right _ fewer) _

theorem distance_lt (turn : c.rrStart < c.ports.length) (inside : i < c.ports.length) :
    c.distance i < c.ports.length := by
  unfold AfpLine.distance
  split <;> omega

theorem distance_next {c c' : AfpLine} (turn : c.rrStart < c.ports.length) (inside : i < c.ports.length)
    (ports : c'.ports = c.ports) (next : c'.rrStart = (c.rrStart + 1) % c.ports.length) (other : c.rrStart ≠ i) :
    c'.distance i + 1 = c.distance i := by
  unfold AfpLine.distance
  rw [ports, next]
  by_cases last : c.rrStart + 1 = c.ports.length
  · rw [last, Nat.mod_self, if_pos (Nat.zero_le i), if_neg (by omega)]
    omega
  · rw [Nat.mod_eq_of_lt (by omega)]
    split <;> split <;> omega

structure Serving (c : AfpLine) : Prop where
  bridge : Bridge c []
  turn : c.rrStart < c.ports.length

theorem afpRx_turn (turn : c.rrStart < c.ports.length) (answered : Bool) :
    (afpRx c dpBurst answered).1.ports = c.ports ∧ (afpRx c dpBurst answered).1.rrStart < c.ports.length ∧
      ∀ i, c.taken i <+: (afpRx c dpBurst answered).1.taken i ∧ c.arrived i <+: (afpRx c dpBurst answered).1.arrived i := by
  have round : Onward c _ := round_onward (min dpBurst dpBurst) c.ready c.round (c, [])
  unfold afpRx
  split
  · exact ⟨rfl, turn, fun i => ⟨List.prefix_rfl, List.prefix_rfl⟩⟩
  · split
    · exact ⟨rfl, turn, fun i => ⟨List.prefix_rfl, List.prefix_rfl⟩⟩
    · dsimp only
      rw [round.ports]
      exact ⟨rfl, Nat.mod_lt _ (Nat.zero_lt_of_lt turn), fun i => ⟨round.taken i, round.arrived i⟩⟩

theorem afpRx_answered (max : Nat) (inside : i < c.ports.length) (waiting : c.queue i ≠ []) :
    (afpRx c max true).1 = { (c.round.foldl (drainPort (min max dpBurst) c.ready) (c, [])).1
      with rrStart := (c.rrStart + 1) % c.ports.length } := by
  have ready : (List.range c.ports.length).any c.ready = true := by
    apply List.any_eq_true.mpr
    refine ⟨i, List.mem_range.mpr inside, ?_⟩
    simpa [AfpLine.ready] using waiting
  have round : Onward c _ := round_onward (min max dpBurst) c.ready c.round (c, [])
  rw [afpRx, if_neg (Nat.ne_of_gt (Nat.zero_lt_of_lt inside)), if_neg (by simp [ready])]
  dsimp only
  rw [round.rrStart, round.ports]

theorem afpRx_rank (turn : c.rrStart < c.ports.length) (inside : i < c.ports.length) {goal : Nat}
    (short : (c.taken i).length < goal) (waiting : c.queue i ≠ []) :
    goal ≤ ((afpRx c dpBurst true).1.taken i).length ∨ (afpRx c dpBurst true).1.rank i goal + 1 ≤ c.rank i goal := by
  have takes (first : c.rrStart = i) : (c.taken i).length < ((afpRx c dpBurst true).1.taken i).length := by
    rw [afpRx_answered dpBurst inside waiting]
    exact round_takes (by decide) inside first waiting
  have next : (afpRx c dpBurst true).1.rrStart = (c.rrStart + 1) % c.ports.length := by
    rw [afpRx_answered dpBurst inside waiting]
  obtain ⟨ports, stays, grown⟩ := afpRx_turn turn true
  have near := distance_lt (ports ▸ stays) (ports ▸ inside)
  rw [ports] at near
  unfold AfpLine.rank
  rw [ports]
  by_cases reached : goal ≤ ((afpRx c dpBurst true).1.taken i).length
  · exact .inl reached
  · right
    by_cases more : (c.taken i).length < ((afpRx c dpBurst true).1.taken i).length
    · have fewer : goal - ((afpRx c dpBurst true).1.taken i).length + 1 ≤ goal - (c.taken i).length := by omega
      have product := Nat.mul_le_mul_right c.ports.length fewer
      rw [Nat.add_mul, Nat.one_mul] at product
      omega
    · have same : ((afpRx c dpBurst true).1.taken i).length = (c.taken i).length :=
        Nat.le_antisymm (Nat.le_of_not_lt more) (grown i).1.length_le
      rw [same, Nat.add_assoc]
      exact Nat.add_le_add_left (Nat.le_of_eq (distance_next turn inside ports next fun first => more (takes first))) _

theorem afpStep_serving (h : Serving s.2.toAfpLine) (e : AfpEvent) :
    Serving (afpStep s e).2.toAfpLine ∧ (afpStep s e).2.ports = s.2.ports ∧
      ∀ i, s.2.taken i <+: (afpStep s e).2.taken i ∧ s.2.arrived i <+: (afpStep s e).2.arrived i := by
  have bridge := afpStep_bridge h.bridge e
  cases e with
  | wire i data len => exact ⟨⟨bridge, h.turn⟩, rfl, fun j => ⟨List.prefix_rfl, update_prefix s.2.arrived i _ j⟩⟩
  | host i data len =>
    have onward : Onward s.2.toAfpLine (afpStep s (.host i data len)).2.toAfpLine := show_onward s.2.toAfpLine i data len
    refine ⟨⟨bridge, ?_⟩, onward.ports, fun j => ⟨onward.taken j, onward.arrived j⟩⟩
    rw [onward.rrStart, onward.ports]
    exact h.turn
  | poll x =>
    obtain ⟨ports, turn, grown⟩ := afpRx_turn h.turn x.answered
    have onward := pollAfp_onward s x
    refine ⟨⟨bridge, ?_⟩, onward.ports.trans ports, fun j => ⟨(grown j).1.trans (onward.taken j), (grown j).2.trans (onward.arrived j)⟩⟩
    rw [onward.rrStart, onward.ports, ports]
    exact turn

theorem afpStep_rank (h : Serving s.2.toAfpLine) (inside : i < s.2.ports.length) {goal : Nat}
    (short : (s.2.taken i).length < goal) (come : goal ≤ (s.2.arrived i).length) (e : AfpEvent) :
    goal ≤ ((afpStep s e).2.taken i).length ∨ (afpStep s e).2.rank i goal + e.answered.toNat ≤ s.2.rank i goal := by
  have waiting : s.2.queue i ≠ [] := by
    intro empty
    have all := h.bridge.fifo i
    rw [empty, List.append_nil] at all
    rw [all] at short
    omega
  cases e with
  | wire j data len => exact .inr ((enqueue_onward s.2.toAfpLine j _).rank i goal)
  | host j data len => exact .inr ((show_onward s.2.toAfpLine j data len).rank i goal)
  | poll x =>
    have onward := pollAfp_onward s x
    have rank := onward.rank i goal
    cases answer : x.answered with
    | false =>
      right
      have idle : afpRx s.2.toAfpLine dpBurst x.answered = (s.2.toAfpLine, []) := by
        unfold afpRx
        rw [answer, if_pos (Or.inl rfl), ite_self]
      rw [idle] at rank
      rw [AfpEvent.answered, answer]
      exact rank
    | true =>
      have turn := afpRx_rank h.turn inside short waiting
      rw [← answer] at turn
      rcases turn with reached | nearer
      · exact .inl (Nat.le_trans reached (onward.taken i).length_le)
      · right
        rw [AfpEvent.answered, answer]
        exact Nat.le_trans (Nat.add_le_add_right rank 1) nearer

theorem afpRun_serving (h : Serving s.2.toAfpLine) (events : List AfpEvent) :
    Serving (afpRun s events).2.toAfpLine ∧ (afpRun s events).2.ports = s.2.ports ∧
      ∀ i, s.2.taken i <+: (afpRun s events).2.taken i ∧ s.2.arrived i <+: (afpRun s events).2.arrived i := by
  induction events generalizing s with
  | nil => exact ⟨h, rfl, fun _ => ⟨List.prefix_rfl, List.prefix_rfl⟩⟩
  | cons e events ih =>
    obtain ⟨serving, ports, grown⟩ := afpStep_serving h e
    obtain ⟨serving', ports', grown'⟩ := ih serving
    exact ⟨serving', ports'.trans ports, fun i => ⟨(grown i).1.trans (grown' i).1, (grown i).2.trans (grown' i).2⟩⟩

theorem afpRun_rank (h : Serving s.2.toAfpLine) (inside : i < s.2.ports.length) {goal : Nat}
    (short : (s.2.taken i).length < goal) (come : goal ≤ (s.2.arrived i).length) (events : List AfpEvent) :
    goal ≤ ((afpRun s events).2.taken i).length ∨
      (afpRun s events).2.rank i goal + (events.filter AfpEvent.answered).length ≤ s.2.rank i goal := by
  induction events generalizing s with
  | nil => exact .inr (Nat.le_refl _)
  | cons e events ih =>
    obtain ⟨serving, ports, grown⟩ := afpStep_serving h e
    by_cases reached : goal ≤ ((afpStep s e).2.taken i).length
    · exact .inl (Nat.le_trans reached ((afpRun_serving serving events).2.2 i).1.length_le)
    · rcases ih serving (ports ▸ inside) (Nat.lt_of_not_le reached) (Nat.le_trans come (grown i).2.length_le) with last | nearer
      · exact .inl last
      · right
        have step := (afpStep_rank h inside short come e).resolve_left reached
        have counted : ((e :: events).filter AfpEvent.answered).length =
            e.answered.toNat + (events.filter AfpEvent.answered).length := by
          cases answer : e.answered with
          | false => rw [List.filter_cons_of_neg (by simp [answer]), Bool.toNat_false, Nat.zero_add]
          | true => rw [List.filter_cons_of_pos answer, List.length_cons, Bool.toNat_true, Nat.add_comm]
        change (afpRun (afpStep s e) events).2.rank i goal + _ ≤ _
        omega

theorem add_ports_rrStart (ports : List AfpPort) (c : AfpLine) : (ports.foldl afpAddPort c).rrStart = c.rrStart := by
  induction ports generalizing c with
  | nil => rfl
  | cons p ports ih =>
    rw [List.foldl_cons, ih]
    unfold afpAddPort
    split <;> rfl

theorem Serving.boot (dp : DpCtx) {ports : List AfpPort} (some : 0 < (afpBoot dp ports).2.ports.length) :
    Serving (afpBoot dp ports).2.toAfpLine := by
  refine ⟨Bridge.boot dp ports, ?_⟩
  rw [show (afpBoot dp ports).2.rrStart = 0 from add_ports_rrStart ports afpLineInit]
  exact some

def quietPoll : AfpEvent := .poll ⟨true, fun _ => true, id⟩

end FfnNgfw.Portable
