import FfnNgfw.Lib.Bytes
import FfnNgfw.Lib.Fallible
import FfnNgfw.Lib.Framing

/-!
# The TLS tunnel

Packets of a client that cannot use ESP come through the TLS connection in frames, a header of
sixteen bytes and the payload. The pump collects what the connection gives in a buffer whose
size it bounds, and hands the packets on to the worker. `now` is the monotonic clock in seconds.
-/

namespace FfnNgfw.Protect.Tunnel
open Framing

def gpstMagic : Nat := 0x1a2b3c4d
def gpstHeaderSize : Nat := 16
def gpstTrailer : List UInt8 := [1, 0, 0, 0, 0, 0, 0, 0]

structure Frame where
  ethertype : UInt16
  payload : List UInt8
  deriving DecidableEq

def gpstHeader (ethertype : UInt16) (length : Nat) : List UInt8 :=
  ByteOrder.big.toBytes 4 gpstMagic ++ ByteOrder.big.toBytes 2 ethertype.toNat ++ ByteOrder.big.toBytes 2 length ++ gpstTrailer

/-- The length field holds sixteen bits; more is an error of `struct`. -/
def gpstFrame (f : Frame) : Except String (List UInt8) :=
  if f.payload.length < 65536 then .ok (gpstHeader f.ethertype f.payload.length ++ f.payload)
  else .error "'H' format requires 0 <= number <= 65535"

def gpstHead (buffer : List UInt8) : Head Frame UInt8 String :=
  if buffer.length < gpstHeaderSize then .incomplete
  else if ByteOrder.big.fromBytes (slice buffer 0 4) ≠ gpstMagic then .bad "bad tunnel frame magic"
  else
    let length := ByteOrder.big.fromBytes (slice buffer 6 2)
    if buffer.length < gpstHeaderSize + length then .incomplete
    else .item ⟨UInt16.ofNat (ByteOrder.big.fromBytes (slice buffer 4 2)), slice buffer gpstHeaderSize length⟩
      (buffer.drop (gpstHeaderSize + length))

def gpstFrames (buffer : List UInt8) : Except String (List Frame × List UInt8) := drain gpstHead buffer

/-! ### The pump -/

inductive Received where
  | wouldBlock
  | failed
  | data (raw : List UInt8)

/-- One round of the loop: what the two ends give, where they are readable, and how they take what is sent. -/
structure Turn where
  alive : Bool
  tls : Option Received
  worker : Option Received
  workerTakes : List UInt8 → Bool
  clientReads : Bool
  now : Nat
  later : Nat

structure Pump where
  buffer : List UInt8
  last : Nat
  rx : Nat
  tx : Nat
  drops : Nat
  toWorker : List (List UInt8)
  toClient : List Frame
  /-- The frames that came out of the buffer so far. -/
  delivered : List Frame

inductive Stop where
  | returned (reason : String)
  | raised (message : String)
  deriving DecidableEq

def Pump.start (now : Nat) : Pump := ⟨[], now, 0, 0, 0, [], [], []⟩

variable (t : Turn)

/-- `tls_send` -/
def tlsSend (f : Frame) (p : Pump) : Except Stop Pump :=
  match gpstFrame f with
  | .error message => .error (.raised message)
  | .ok _ => if t.clientReads then .ok { p with toClient := p.toClient ++ [f] } else .error (.raised "tunnel client is not reading")

def handleFrame (p : Pump) (f : Frame) : Except Stop Pump :=
  let p := { p with delivered := p.delivered ++ [f] }
  if f.ethertype = 0 then tlsSend t ⟨0, []⟩ p
  else if f.ethertype = 0x0800 ∧ 20 ≤ f.payload.length ∧ f.payload.length ≤ 65535 then
    .ok (if t.workerTakes f.payload then { p with toWorker := p.toWorker ++ [f.payload], rx := p.rx + 1 }
      else { p with drops := p.drops + 1 })
  else .ok p

def receive (raw : List UInt8) (p : Pump) : Except Stop Pump :=
  let buffer := p.buffer ++ raw
  if buffer.length > 2 * 65536 + gpstHeaderSize then .error (.returned "oversized frame")
  else
    match gpstFrames buffer with
    | .error message => .error (.raised message)
    | .ok (frames, rest) => frames.foldlM (handleFrame t) { p with last := t.now, buffer := rest }

def fromClient (p : Pump) : Except Stop Pump :=
  match t.tls with
  | none => .ok p
  | some .wouldBlock => .ok p
  | some .failed => .error (.returned "client closed")
  | some (.data raw) => if raw = [] then .error (.returned "client closed") else receive t raw p

def fromWorker (p : Pump) : Except Stop Pump :=
  match t.worker with
  | none => .ok p
  | some .wouldBlock => .ok p
  | some .failed => .error (.returned "worker closed")
  | some (.data packet) =>
    if packet = [] then .error (.returned "worker closed")
    else (tlsSend t ⟨0x0800, packet⟩ p).map fun p => { p with tx := p.tx + 1 }

def pumpTurn (idleTimeout : Nat) (p : Pump) : Except Stop Pump := do
  if !t.alive then throw (.returned "shutdown")
  let p ← fromClient t p
  let p ← fromWorker t p
  if t.later - p.last > idleTimeout then throw (.returned "idle")
  return p

def pumpSslTunnel (idleTimeout : Nat) (turns : List Turn) (p : Pump) : Except Stop Pump :=
  turns.foldlM (fun p t => pumpTurn t idleTimeout p) p

/-! ### Frames -/

section frames

variable {e : UInt16} {n : Nat} {f : Frame}

theorem gpstHeader_length (e : UInt16) (n : Nat) : (gpstHeader e n).length = gpstHeaderSize := by
  simp [gpstHeader, ByteOrder.toBytes_length, gpstTrailer, gpstHeaderSize]

theorem fields_read (e : UInt16) (fits : n < 65536) (rest : List UInt8) :
    ByteOrder.big.fromBytes (slice (gpstHeader e n ++ rest) 0 4) = gpstMagic ∧
    UInt16.ofNat (ByteOrder.big.fromBytes (slice (gpstHeader e n ++ rest) 4 2)) = e ∧
    ByteOrder.big.fromBytes (slice (gpstHeader e n ++ rest) 6 2) = n := by
  have magic := ByteOrder.toBytes_length .big 4 gpstMagic
  have kind := ByteOrder.toBytes_length .big 2 e.toNat
  have length := ByteOrder.toBytes_length .big 2 n
  have front : (ByteOrder.big.toBytes 4 gpstMagic ++ ByteOrder.big.toBytes 2 e.toNat).length = 6 := by
    rw [List.length_append, magic, kind]
  have first : slice ([] ++ ByteOrder.big.toBytes 4 gpstMagic ++ (ByteOrder.big.toBytes 2 e.toNat ++ (ByteOrder.big.toBytes 2 n ++
      (gpstTrailer ++ rest)))) 0 4 = ByteOrder.big.toBytes 4 gpstMagic := slice_append rfl magic
  have second : slice (ByteOrder.big.toBytes 4 gpstMagic ++ ByteOrder.big.toBytes 2 e.toNat ++ (ByteOrder.big.toBytes 2 n ++
      (gpstTrailer ++ rest))) 4 2 = ByteOrder.big.toBytes 2 e.toNat := slice_append magic kind
  have third : slice (ByteOrder.big.toBytes 4 gpstMagic ++ ByteOrder.big.toBytes 2 e.toNat ++ ByteOrder.big.toBytes 2 n ++
      (gpstTrailer ++ rest)) 6 2 = ByteOrder.big.toBytes 2 n := slice_append front length
  unfold gpstHeader
  simp only [List.nil_append, List.append_assoc] at first second third ⊢
  rw [first, second, third]
  exact ⟨ByteOrder.fromBytes_toBytes _ (by decide), by rw [ByteOrder.fromBytes_toBytes _ e.toNat_lt, UInt16.ofNat_toNat],
    ByteOrder.fromBytes_toBytes _ (by omega)⟩

def encoding (f : Frame) : List UInt8 := gpstHeader f.ethertype f.payload.length ++ f.payload

theorem encoding_length (f : Frame) : (encoding f).length = gpstHeaderSize + f.payload.length := by
  rw [encoding, List.length_append, gpstHeader_length]

theorem gpstFrame_ok {raw : List UInt8} (sent : gpstFrame f = .ok raw) : f.payload.length < 65536 ∧ raw = encoding f := by
  unfold gpstFrame at sent
  split at sent
  · rename_i fits
    exact ⟨fits, (Except.ok.inj sent).symm⟩
  · cases sent

theorem mapM_encoding {frames : List Frame} {encoded : List (List UInt8)} (encodes : frames.mapM gpstFrame = .ok encoded) :
    encoded = frames.map encoding := by
  induction frames generalizing encoded with
  | nil => exact (Except.ok.inj encodes).symm
  | cons f rest ih =>
    rw [List.mapM_cons] at encodes
    obtain ⟨raw, sent, encodes⟩ := bind_ok encodes
    obtain ⟨others, later, encodes⟩ := bind_ok encodes
    obtain rfl : raw :: others = encoded := Except.ok.inj encodes
    rw [List.map_cons, (gpstFrame_ok sent).2, ih later]

theorem gpstHead_nil : gpstHead [] = .incomplete := rfl

theorem head_whole (fits : f.payload.length < 65536) (rest : List UInt8) : gpstHead (encoding f ++ rest) = .item f rest := by
  obtain ⟨magic, kind, length⟩ := fields_read f.ethertype fits (f.payload ++ rest)
  have width : (encoding f ++ rest).length = gpstHeaderSize + f.payload.length + rest.length := by
    rw [List.length_append, encoding_length]
  have payload : slice (encoding f ++ rest) gpstHeaderSize f.payload.length = f.payload :=
    slice_append (gpstHeader_length f.ethertype f.payload.length) rfl
  have after : (encoding f ++ rest).drop (gpstHeaderSize + f.payload.length) = rest := by
    rw [← encoding_length, List.drop_left]
  unfold gpstHead
  rw [if_neg (by omega)]
  rw [encoding, List.append_assoc] at *
  rw [magic, kind, length, if_neg (not_not_intro rfl)]
  dsimp only
  rw [if_neg (by omega), payload, after]

theorem head_short (fits : f.payload.length < 65536) {part : List UInt8} (begun : part <+: encoding f) (differs : part ≠ encoding f) :
    gpstHead part = .incomplete := by
  unfold gpstHead
  split
  · rfl
  · rename_i enough
    have shorter : part.length < gpstHeaderSize + f.payload.length := by
      rw [← encoding_length]
      exact Nat.lt_of_le_of_ne begun.length_le fun same => differs (begun.eq_of_length same)
    have header : gpstHeader f.ethertype f.payload.length <+: part := by
      refine List.prefix_of_prefix_length_le (List.prefix_append _ f.payload) begun ?_
      rw [gpstHeader_length]
      exact Nat.le_of_not_lt enough
    obtain ⟨rest, rfl⟩ := header
    obtain ⟨magic, -, length⟩ := fields_read f.ethertype fits rest
    rw [magic, length, if_neg (not_not_intro rfl)]
    exact if_pos shorter

theorem gpst_framed : Framed gpstHead encoding fun f => f.payload.length < 65536 where
  whole _ := head_whole
  short _ := fun fits _ => head_short fits
  some' f := by
    intro empty
    have length := encoding_length f
    rw [empty, List.length_nil, gpstHeaderSize] at length
    omega

end frames

/-! ### However the stream is cut -/

def Turn.chunk : Option (List UInt8) :=
  match t.tls with
  | some (.data raw) => if raw = [] then none else some raw
  | _ => none

def Misframed (stop : Stop) : Prop := stop = .returned "oversized frame" ∨ stop = .raised "bad tunnel frame magic"

def Outcome (fine : Pump → Prop) : Except Stop Pump → Prop
  | .ok p => fine p
  | .error stop => ¬Misframed stop

section outcomes

variable {fine fine' : Pump → Prop} {x : Except Stop Pump} {p : Pump} {frames : List Frame}

theorem Outcome.bind {next : Pump → Except Stop Pump} (first : Outcome fine x) (then' : ∀ p, fine p → Outcome fine' (next p)) :
    Outcome fine' (x >>= next) := by
  cases x with
  | ok p => exact then' p first
  | error stop => exact first

theorem not_misframed {stop : Stop} (other : stop ≠ .returned "oversized frame") (other' : stop ≠ .raised "bad tunnel frame magic") :
    ¬Misframed stop := by
  rintro (rfl | rfl)
  · exact other rfl
  · exact other' rfl

def Same (p p' : Pump) : Prop := p'.buffer = p.buffer ∧ p'.delivered = p.delivered

theorem tlsSend_outcome (f : Frame) (p : Pump) : Outcome (Same p) (tlsSend t f p) := by
  unfold tlsSend gpstFrame
  split
  · rename_i message failed
    split at failed
    · cases failed
    · cases failed
      exact not_misframed (by simp) (by simp)
  · split
    · exact ⟨rfl, rfl⟩
    · exact not_misframed (by simp) (by simp)

theorem handleFrame_outcome (f : Frame) (p : Pump) :
    Outcome (fun p' => p'.buffer = p.buffer ∧ p'.delivered = p.delivered ++ [f]) (handleFrame t p f) := by
  unfold handleFrame
  dsimp only
  split
  · exact tlsSend_outcome t _ _
  · split
    · split <;> exact ⟨rfl, rfl⟩
    · exact ⟨rfl, rfl⟩

theorem handleFrames_outcome (frames : List Frame) (p : Pump) :
    Outcome (fun p' => p'.buffer = p.buffer ∧ p'.delivered = p.delivered ++ frames) (frames.foldlM (handleFrame t) p) := by
  induction frames generalizing p with
  | nil => exact ⟨rfl, (List.append_nil _).symm⟩
  | cons f rest ih =>
    rw [List.foldlM_cons]
    refine (handleFrame_outcome t f p).bind fun q ⟨buffer, delivered⟩ => ?_
    have later := ih q
    rw [buffer, delivered, List.append_assoc] at later
    exact later

/-- The frames still to come start in the buffer and go on in what the client has not sent yet. -/
def Streaming (frames : List Frame) (later : List UInt8) (p : Pump) : Prop :=
  ∃ todo, frames = p.delivered ++ todo ∧ Begun encoding p.buffer todo ∧ p.buffer ++ later = (todo.map encoding).flatten

theorem Streaming.done (end' : Streaming frames [] p) : p.delivered = frames ∧ p.buffer = [] := by
  obtain ⟨todo, whole, begun, stream⟩ := end'
  cases todo with
  | nil => exact ⟨by rw [whole, List.append_nil], begun⟩
  | cons f rest =>
    have width := congrArg List.length stream
    rw [List.append_nil, List.map_cons, List.flatten_cons, List.length_append] at width
    have := begun.length_lt
    omega

theorem Streaming.bounded (fits : ∀ f ∈ frames, f.payload.length < 65536) {later raw : List UInt8} (s : Streaming frames later p)
    (small : raw.length ≤ 65536) : ¬(p.buffer ++ raw).length > 2 * 65536 + gpstHeaderSize := by
  obtain ⟨todo, whole, begun, -⟩ := s
  rw [List.length_append]
  cases todo with
  | nil =>
    have empty : p.buffer = [] := begun
    rw [empty, List.length_nil]
    omega
  | cons f rest =>
    have width := begun.length_lt
    have fit := fits f (whole ▸ List.mem_append_right _ List.mem_cons_self)
    rw [encoding_length] at width
    omega

theorem receive_outcome (fits : ∀ f ∈ frames, f.payload.length < 65536) {later raw : List UInt8} (s : Streaming frames (raw ++ later) p)
    (small : raw.length ≤ 65536) : Outcome (Streaming frames later) (receive t raw p) := by
  have bound := s.bounded fits small
  obtain ⟨todo, whole, -, stream⟩ := s
  rw [← List.append_assoc] at stream
  obtain ⟨done, left, rest, rfl, drained, begun, stream⟩ :=
    drain_prefix gpst_framed (fun f member => fits f (whole ▸ List.mem_append_right _ member)) stream gpstHead_nil
  unfold receive gpstFrames
  dsimp only
  rw [if_neg bound, drained]
  dsimp only
  rw [← bind_pure (done.foldlM _ _)]
  refine (handleFrames_outcome t done _).bind fun q ⟨buffer, delivered⟩ => ?_
  refine ⟨left, ?_, ?_, ?_⟩
  · rw [delivered, List.append_assoc]
    exact whole
  · rw [buffer]
    exact begun
  · rw [buffer]
    exact stream

variable {later : List UInt8}

theorem fromClient_outcome (fits : ∀ f ∈ frames, f.payload.length < 65536)
    (s : Streaming frames (t.chunk.getD [] ++ later) p) (small : ∀ raw ∈ t.chunk, raw.length ≤ 65536) :
    Outcome (Streaming frames later) (fromClient t p) := by
  unfold fromClient
  unfold Turn.chunk at s small
  split
  · rename_i given
    rw [given] at s
    exact s
  · rename_i given
    rw [given] at s
    exact s
  · exact not_misframed (by simp) (by simp)
  · rename_i raw given
    split
    · exact not_misframed (by simp) (by simp)
    · rename_i some'
      rw [given] at s small
      simp only [if_neg some'] at s small
      exact receive_outcome t fits s (small raw rfl)

theorem fromWorker_outcome (p : Pump) : Outcome (Same p) (fromWorker t p) := by
  unfold fromWorker
  split
  · exact ⟨rfl, rfl⟩
  · exact ⟨rfl, rfl⟩
  · exact not_misframed (by simp) (by simp)
  · rename_i packet _
    split
    · exact not_misframed (by simp) (by simp)
    · have sent := tlsSend_outcome t ⟨0x0800, packet⟩ p
      cases result : tlsSend t ⟨0x0800, packet⟩ p with
      | ok q =>
        rw [result] at sent
        exact sent
      | error stop =>
        rw [result] at sent
        exact sent

theorem Streaming.same {p' : Pump} (s : Streaming frames later p) (same : Same p p') : Streaming frames later p' := by
  obtain ⟨buffer, delivered⟩ := same
  unfold Streaming
  rw [buffer, delivered]
  exact s

theorem pumpTurn_outcome (fits : ∀ f ∈ frames, f.payload.length < 65536) (idleTimeout : Nat)
    (s : Streaming frames (t.chunk.getD [] ++ later) p) (small : ∀ raw ∈ t.chunk, raw.length ≤ 65536) :
    Outcome (Streaming frames later) (pumpTurn t idleTimeout p) := by
  unfold pumpTurn
  dsimp only
  split
  · exact not_misframed (by simp) (by simp)
  · refine (fromClient_outcome t fits s small).bind fun q s => ?_
    refine (fromWorker_outcome t q).bind fun q' same => ?_
    split
    · exact not_misframed (by simp) (by simp)
    · exact s.same same

theorem pump_outcome (fits : ∀ f ∈ frames, f.payload.length < 65536) (idleTimeout : Nat) {turns : List Turn}
    (s : Streaming frames (turns.filterMap Turn.chunk).flatten p) (small : ∀ raw ∈ turns.filterMap Turn.chunk, raw.length ≤ 65536) :
    Outcome (Streaming frames []) (pumpSslTunnel idleTimeout turns p) := by
  unfold pumpSslTunnel
  induction turns generalizing p with
  | nil => exact s
  | cons t rest ih =>
    rw [List.foldlM_cons]
    have stream : (List.filterMap Turn.chunk (t :: rest)).flatten = t.chunk.getD [] ++ (rest.filterMap Turn.chunk).flatten := by
      rw [List.filterMap_cons]
      cases t.chunk <;> rfl
    have here : ∀ raw ∈ t.chunk, raw.length ≤ 65536 := fun raw given => small raw (List.mem_filterMap.mpr ⟨t, List.mem_cons_self, given⟩)
    rw [stream] at s
    refine (pumpTurn_outcome t fits idleTimeout s here).bind fun q s => ih s fun raw member => small raw ?_
    obtain ⟨t', there, given⟩ := List.mem_filterMap.mp member
    exact List.mem_filterMap.mpr ⟨t', List.mem_cons_of_mem t there, given⟩

end outcomes

/-! ### A client that only sends -/

def isPacket (f : Frame) : Bool := f.ethertype = 0x0800 && 20 ≤ f.payload.length && f.payload.length ≤ 65535

def packets (frames : List Frame) : List (List UInt8) := (frames.filter isPacket).map Frame.payload

def answers (frames : List Frame) : List Frame := (frames.filter fun f => f.ethertype = 0).map fun _ => ⟨0, []⟩

def quietTurn (now : Nat) (raw : List UInt8) : Turn := ⟨true, some (.data raw), none, fun _ => true, true, now, now⟩

section quiet

variable {now : Nat} {frames : List Frame} {p : Pump}

/-- The packets of the frames so far have reached the worker, and their keepalives are answered. -/
def Forwarded (now : Nat) (p : Pump) : Prop :=
  p.toWorker = packets p.delivered ∧ p.toClient = answers p.delivered ∧ p.rx = (packets p.delivered).length ∧ p.last = now

theorem packets_append (a b : List Frame) : packets (a ++ b) = packets a ++ packets b := by
  rw [packets, List.filter_append, List.map_append]
  rfl

theorem answers_append (a b : List Frame) : answers (a ++ b) = answers a ++ answers b := by
  rw [answers, List.filter_append, List.map_append]
  rfl

theorem packets_one {f : Frame} (packet : isPacket f = true) : packets [f] = [f.payload] := by
  rw [packets, List.filter_cons_of_pos packet]
  rfl

theorem packets_none {f : Frame} (other : ¬isPacket f = true) : packets [f] = [] := by
  rw [packets, List.filter_cons_of_neg other]
  rfl

theorem answers_one {f : Frame} (keepalive : f.ethertype = 0) : answers [f] = [⟨0, []⟩] := by
  rw [answers, List.filter_cons_of_pos (by simpa using keepalive)]
  rfl

theorem answers_none {f : Frame} (other : f.ethertype ≠ 0) : answers [f] = [] := by
  rw [answers, List.filter_cons_of_neg (by simpa using other)]
  rfl

theorem handleFrame_forwards (raw : List UInt8) (f : Frame) (given : Forwarded now p) :
    ∃ q, handleFrame (quietTurn now raw) p f = .ok q ∧ Forwarded now q := by
  obtain ⟨worker, client, count, last⟩ := given
  have shape : (f.ethertype = 0x0800 ∧ 20 ≤ f.payload.length ∧ f.payload.length ≤ 65535) ↔ isPacket f = true := by
    simp [isPacket, and_assoc]
  unfold handleFrame Forwarded
  dsimp only
  by_cases keepalive : f.ethertype = 0
  · have other : ¬isPacket f = true := by
      rw [← shape, keepalive]
      rintro ⟨same, -⟩
      cases same
    refine ⟨{ p with delivered := p.delivered ++ [f], toClient := p.toClient ++ [⟨0, []⟩] }, if_pos keepalive, ?_⟩
    rw [packets_append, answers_append, packets_none other, answers_one keepalive, List.append_nil, ← client]
    exact ⟨worker, rfl, count, last⟩
  · rw [if_neg keepalive]
    by_cases packet : isPacket f = true
    · refine ⟨{ p with delivered := p.delivered ++ [f], toWorker := p.toWorker ++ [f.payload], rx := p.rx + 1 },
        if_pos (shape.mpr packet), ?_⟩
      rw [packets_append, answers_append, packets_one packet, answers_none keepalive, List.append_nil, ← worker]
      refine ⟨rfl, client, ?_, last⟩
      rw [List.length_append, worker, count]
      rfl
    · refine ⟨{ p with delivered := p.delivered ++ [f] }, if_neg fun both => packet (shape.mp both), ?_⟩
      rw [packets_append, answers_append, packets_none packet, answers_none keepalive, List.append_nil, List.append_nil]
      exact ⟨worker, client, count, last⟩

theorem handleFrames_forward (frames : List Frame) (raw : List UInt8) (given : Forwarded now p) :
    ∃ q, frames.foldlM (handleFrame (quietTurn now raw)) p = .ok q ∧ Forwarded now q := by
  induction frames generalizing p with
  | nil => exact ⟨p, rfl, given⟩
  | cons f rest ih =>
    obtain ⟨q, first, given⟩ := handleFrame_forwards raw f given
    rw [List.foldlM_cons, first]
    exact ih given

theorem pumpTurn_forwards (fits : ∀ f ∈ frames, f.payload.length < 65536) (idleTimeout : Nat) {raw later : List UInt8} (some' : raw ≠ [])
    (small : raw.length ≤ 65536) (s : Streaming frames (raw ++ later) p) (given : Forwarded now p) :
    ∃ q, pumpTurn (quietTurn now raw) idleTimeout p = .ok q ∧ Streaming frames later q ∧ Forwarded now q := by
  have outcome := receive_outcome (quietTurn now raw) fits s small
  have bound := s.bounded fits small
  obtain ⟨todo, whole, -, stream⟩ := s
  rw [← List.append_assoc] at stream
  obtain ⟨done, left, rest, rfl, drained, -, -⟩ :=
    drain_prefix gpst_framed (fun f member => fits f (whole ▸ List.mem_append_right _ member)) stream gpstHead_nil
  obtain ⟨q, handled, forwarded⟩ := handleFrames_forward done (p := { p with last := now, buffer := rest }) raw
    ⟨given.1, given.2.1, given.2.2.1, rfl⟩
  have received : receive (quietTurn now raw) raw p = .ok q := by
    unfold receive gpstFrames
    dsimp only
    rw [if_neg bound, drained]
    exact handled
  rw [received] at outcome
  refine ⟨q, ?_, outcome, forwarded⟩
  have calm : ¬(quietTurn now raw).later - q.last > idleTimeout := by
    rw [forwarded.2.2.2]
    show ¬now - now > idleTimeout
    omega
  have first : fromClient (quietTurn now raw) p = .ok q := (if_neg some').trans received
  have second : fromWorker (quietTurn now raw) q = .ok q := rfl
  unfold pumpTurn
  rw [first]
  show (do
    let p ← fromWorker (quietTurn now raw) q
    if (quietTurn now raw).later - p.last > idleTimeout then throw (.returned "idle")
    return p : Except Stop Pump) = .ok q
  rw [second]
  show (if (quietTurn now raw).later - q.last > idleTimeout then _ else _ : Except Stop Pump) = .ok q
  rw [if_neg calm]
  rfl

theorem quiet_pump (fits : ∀ f ∈ frames, f.payload.length < 65536) (idleTimeout : Nat) {chunks : List (List UInt8)}
    (sizes : ∀ c ∈ chunks, c ≠ [] ∧ c.length ≤ 65536) (s : Streaming frames chunks.flatten p) (given : Forwarded now p) :
    ∃ q, pumpSslTunnel idleTimeout (chunks.map (quietTurn now)) p = .ok q ∧ Streaming frames [] q ∧ Forwarded now q := by
  unfold pumpSslTunnel
  induction chunks generalizing p with
  | nil => exact ⟨p, rfl, s, given⟩
  | cons raw rest ih =>
    obtain ⟨some', small⟩ := sizes raw List.mem_cons_self
    obtain ⟨q, first, s, given⟩ := pumpTurn_forwards fits idleTimeout some' small s given
    rw [List.map_cons, List.foldlM_cons, first]
    exact ih (fun c member => sizes c (List.mem_cons_of_mem raw member)) s given

end quiet

theorem streaming_start {frames : List Frame} {raw : List UInt8} (stream : raw = (frames.map encoding).flatten) (now : Nat) :
    Streaming frames raw (.start now) := by
  refine ⟨frames, rfl, ?_, stream⟩
  cases frames with
  | nil => rfl
  | cons f rest =>
    refine ⟨List.nil_prefix, fun empty => ?_⟩
    exact gpst_framed.some' f empty.symm

/-- However the encoded frames are cut into chunks, and whatever happens between them, the pump never takes them for a frame
that is too long or misses a header; all frames come out in order and the buffer is empty. -/
theorem framing_independent_of_cuts {frames : List Frame} {encoded chunks : List (List UInt8)}
    (encodes : frames.mapM gpstFrame = .ok encoded)
    (cut : chunks.flatten = encoded.flatten) (sizes : ∀ c ∈ chunks, c ≠ [] ∧ c.length ≤ 65536) (idleTimeout now : Nat) :
    (∀ turns, turns.filterMap Turn.chunk = chunks →
      (∀ stop, pumpSslTunnel idleTimeout turns (.start now) = .error stop → ¬Misframed stop) ∧
      ∀ p, pumpSslTunnel idleTimeout turns (.start now) = .ok p → p.delivered = frames ∧ p.buffer = []) ∧
    ∃ p, pumpSslTunnel idleTimeout (chunks.map (quietTurn now)) (.start now) = .ok p ∧ p.delivered = frames ∧ p.buffer = [] ∧
      p.toWorker = packets frames ∧ p.toClient = answers frames := by
  have fits : ∀ f ∈ frames, f.payload.length < 65536 := by
    intro f member
    obtain ⟨raw, -, sent⟩ := mapM_mem encodes member
    exact (gpstFrame_ok sent).1
  have bytes := mapM_encoding encodes
  have s := streaming_start (cut.trans (congrArg _ bytes)) now
  constructor
  · rintro turns rfl
    have outcome := pump_outcome fits idleTimeout s fun raw member => (sizes raw member).2
    constructor
    · intro stop stopped
      rw [stopped] at outcome
      exact outcome
    · intro p ended
      rw [ended] at outcome
      exact outcome.done
  · obtain ⟨p, ended, s, worker, client, -⟩ := quiet_pump fits idleTimeout sizes s ⟨rfl, rfl, rfl, rfl⟩
    obtain ⟨delivered, empty⟩ := s.done
    rw [delivered] at worker client
    exact ⟨p, ended, delivered, empty, worker, client⟩

/-- A keepalive and a packet in three chunks. -/
theorem keepalive_cut :
    let frames : List Frame := [⟨0, []⟩, ⟨0x800, [0x45]⟩]
    let sent := frames.flatMap encoding
    ∃ p, pumpSslTunnel 60 ([sent.take 5, slice sent 5 14, sent.drop 19].map (quietTurn 0)) (.start 0) = .ok p ∧
      p.delivered = frames ∧ p.buffer = [] ∧ p.toWorker = packets frames ∧ p.toClient = answers frames := by
  intro frames sent
  have encodes : frames.mapM gpstFrame = .ok [encoding ⟨0, []⟩, encoding ⟨0x800, [0x45]⟩] := rfl
  have cut : [sent.take 5, slice sent 5 14, sent.drop 19].flatten = sent := by decide
  exact (framing_independent_of_cuts encodes cut (by decide) 60 0).2

end FfnNgfw.Protect.Tunnel
