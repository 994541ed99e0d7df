import FfnNgfw.Portable.Accounting

/-!
# The Octeon packet-I/O backend

`ffn_dp_io_octeon.c` and the hardware layers of Octeon II and Octeon III under it. The
SDK is not part of the repository: what its accessors read of a work entry is a `Work`,
what its calls do to the buffer pools is written to a log.
-/

namespace FfnNgfw.Portable
open Mem

/-! ### Work entries -/

inductive OctGen where
  | two | three
  deriving DecidableEq

inductive OctDisp where
  | held | sent | freed
  deriving DecidableEq

/-- A work entry as the SDK's accessors read it. `data` is `none` where the converted
packet pointer is NULL. -/
structure Work where
  bufs : Nat
  len : UInt32
  port : UInt16
  data : Option Mem
  pkiPtr : UInt64
  aura : UInt16
  tag : UInt32
  soft : Bool
  rcvErr : Bool

def ffnPkiPtrOutside (u : UInt64) : Bool := (u >>> 47) &&& 1 == 1

/-- `hw` counts the work entries: a pool hands the same address out again, and every
receipt of it is a new obligation. -/
structure OctWqe where
  hw : Nat
  data : Option Mem
  len : UInt32
  inPort : UInt16
  segs : UInt8
  disp : OctDisp
  dataAura : UInt16
  wqeSeparate : Bool
  pktPtr : UInt64
  flowTag : UInt32

def OctWqe.zero : OctWqe := ⟨0, none, 0, 0, 0, .held, 0, false, 0, 0⟩

structure OctPort where
  ipdPort : Int
  pkoQueue : Int
  vsys : UInt8

inductive HwCall where
  | dataFree (hw : Nat)
  | wqeFree (hw : Nat)
  /-- the output unit has accepted the packet, and frees its data after the wire -/
  | handed (hw : Nat)
  deriving DecidableEq

def octMaxPorts : Nat := 8

/-- `received` and `calls` are the history at the seam to the hardware. -/
structure OctCtx where
  gen : OctGen
  ports : List OctPort
  inflight : Nat → OctWqe
  nInflight : Nat
  statRx : UInt64
  statRxErr : UInt64
  statTx : UInt64
  statTxFail : UInt64
  statDropFreed : UInt64
  statLocal : UInt64
  statNoEgress : UInt64
  statBadEgress : UInt64
  statOffload : UInt64
  statWqeFreed : UInt64
  statDataFreed : UInt64
  bugDoubleDispose : UInt64
  received : List Work
  calls : List HwCall

def octCtxInit (gen : OctGen) : OctCtx :=
  ⟨gen, [], fun _ => .zero, 0, 0, 0, 0, 0, 0, 0, 0, 0, 0, 0, 0, 0, [], []⟩

def octAddPort (c : OctCtx) (p : OctPort) : OctCtx × Int :=
  if c.ports.length ≥ octMaxPorts then (c, -1) else ({ c with ports := c.ports ++ [p] }, c.ports.length)

def octAddPorts (c : OctCtx) (ps : List OctPort) : OctCtx := ps.foldl (fun c p => (octAddPort c p).1) c

/-! ### The hardware layers -/

/-- The frame of `work_get` common to both layers: the entry is zeroed and held. -/
def OctCtx.receive (c : OctCtx) (i : Nat) (w : Work) (e : OctWqe) : OctCtx :=
  { c with inflight := Function.update c.inflight i e, received := c.received ++ [w] }

def cvmxHwWorkGet (c : OctCtx) (i : Nat) (w : Work) : OctCtx :=
  c.receive i w { OctWqe.zero with
    hw := c.received.length, len := w.len, inPort := w.port, segs := UInt8.ofNat w.bufs, data := w.data, disp := .held }

/-- Everything that a release needs is taken down before the entry is judged. -/
def cvmx3HwWorkGet (c : OctCtx) (i : Nat) (w : Work) : OctCtx :=
  let e := { OctWqe.zero with
    hw := c.received.length, disp := .held, pktPtr := w.pkiPtr, wqeSeparate := ffnPkiPtrOutside w.pkiPtr,
    dataAura := w.aura, segs := UInt8.ofNat w.bufs }
  if w.soft || w.rcvErr then { c.receive i w e with statRxErr := c.statRxErr + 1 }
  else c.receive i w { e with len := w.len, inPort := w.port, data := w.data, flowTag := w.tag }

def OctCtx.workGet (c : OctCtx) (i : Nat) (w : Work) : OctCtx :=
  match c.gen with
  | .two => cvmxHwWorkGet c i w
  | .three => cvmx3HwWorkGet c i w

def pko3MaxTotal : UInt32 := 0xFFFF
def pko3MaxAura : UInt16 := 0x0FFF

/-- Whether `oct3_build_desc` can describe the packet. -/
def oct3BuildDesc (w : OctWqe) : Bool :=
  !(w.len == 0 || w.len > pko3MaxTotal) && w.pktPtr != 0 && !(w.dataAura > pko3MaxAura)

/-- `xmit` is the answer of the SDK's transmit call; the packet data is the output unit's
exactly when it is 0. -/
def OctCtx.pktSend (c : OctCtx) (w : OctWqe) (xmit : Int) : OctCtx × Int :=
  let rc := match c.gen with
    | .two => if xmit = 0 then 0 else -1
    | .three => if oct3BuildDesc w then xmit else -1
  (if rc = 0 then { c with calls := c.calls ++ [.handed w.hw] } else c, rc)

def OctCtx.dataFree (c : OctCtx) (w : OctWqe) : OctCtx := { c with calls := c.calls ++ [.dataFree w.hw] }

/-- On Octeon III an entry inside the first packet buffer goes with its data. -/
def OctCtx.wqeFree (c : OctCtx) (w : OctWqe) : OctCtx :=
  match c.gen with
  | .two => { c with calls := c.calls ++ [.wqeFree w.hw] }
  | .three => if !w.wqeSeparate then c else { c with calls := c.calls ++ [.wqeFree w.hw] }

def OctCtx.setDisp (c : OctCtx) (i : Nat) (d : OctDisp) : OctCtx :=
  { c with inflight := Function.update c.inflight i { c.inflight i with disp := d } }

def octDisposeFree (c : OctCtx) (i : Nat) : OctCtx :=
  let w := c.inflight i
  if w.disp ≠ .held then { c with bugDoubleDispose := c.bugDoubleDispose + 1 }
  else
    let c := c.dataFree w
    let c := { c with statDataFreed := c.statDataFreed + 1 }
    let c := c.wqeFree w
    let c := { c with statWqeFreed := c.statWqeFreed + 1 }
    c.setDisp i .freed

def octDisposeSent (c : OctCtx) (i : Nat) : OctCtx :=
  let w := c.inflight i
  if w.disp ≠ .held then { c with bugDoubleDispose := c.bugDoubleDispose + 1 }
  else
    let c := c.wqeFree w
    let c := { c with statWqeFreed := c.statWqeFreed + 1 }
    c.setDisp i .sent

/-! ### The callbacks of the poll loop -/

/-- A `struct dp_pkt`; the cookie is the slot of the entry it came with. -/
structure DpPkt where
  packet : Packet
  decision : Int
  egress : UInt16
  cookie : Option Nat

def octMapInPort (c : OctCtx) (ipdPort : UInt16) : Int :=
  match c.ports.findIdx? fun p => p.ipdPort == (ipdPort.toNat : Int) with
  | some i => i
  | none => -1

/-- What becomes of the entry in slot `i` once it is there. -/
def rxAccept (c : OctCtx) (i : Nat) : Option DpPkt :=
  let w := c.inflight i
  let pidx := octMapInPort c w.inPort
  match w.data with
  | none => none
  | some data =>
    if pidx < 0 ∨ w.segs > 1 ∨ w.len = 0 then none
    else some ⟨⟨data, w.len, (c.ports.map OctPort.vsys).getD pidx.toNat 0⟩, 0, dpEgressNone, some i⟩

/-- The loop of `oct_io_rx` over what `work_get` answers; the slot of an entry that is
released at once is used again. -/
def rxLoop (max : Nat) : OctCtx → List DpPkt → List Work → OctCtx × List DpPkt
  | c, burst, [] => (c, burst)
  | c, burst, w :: ws =>
    if burst.length < max then
      let c := c.workGet burst.length w
      let c := { c with statRx := c.statRx + 1 }
      match rxAccept c burst.length with
      | none => rxLoop max (octDisposeFree c burst.length) burst ws
      | some p => rxLoop max c (burst ++ [p]) ws
    else (c, burst)

def octIoRx (c : OctCtx) (max : Nat) (works : List Work) : OctCtx × List DpPkt :=
  let (c, burst) := rxLoop (min max dpBurst) { c with nInflight := 0 } [] works
  ({ c with nInflight := burst.length }, burst)

/-- The port a packet leaves by; `none` where there is nowhere to send it. -/
def egressOf (c : OctCtx) (w : OctWqe) (egress : UInt16) : Option UInt16 :=
  if egress = dpEgressNone then
    if c.ports.length = 2 then some (if octMapInPort c w.inPort = 0 then 1 else 0) else none
  else some egress

def txOne (xmit : Nat → UInt16 → Int) (c : OctCtx) (p : DpPkt) : OctCtx × Nat :=
  match p.cookie with
  | none => (c, 0)
  | some i =>
    let w := c.inflight i
    if w.disp ≠ .held then (c, 0)
    else
      match egressOf c w p.egress with
      | none => (octDisposeFree { c with statNoEgress := c.statNoEgress + 1 } i, 0)
      | some out =>
        if out ≥ UInt16.ofNat c.ports.length then
          (octDisposeFree { c with statBadEgress := c.statBadEgress + 1 } i, 0)
        else
          let (c, rc) := c.pktSend w (xmit w.hw out)
          if rc = 0 then
            let c := octDisposeSent c i
            ({ c with statTx := c.statTx + 1 }, 1)
          else (octDisposeFree { c with statTxFail := c.statTxFail + 1 } i, 0)

def octIoTx (c : OctCtx) (xmit : Nat → UInt16 → Int) : List DpPkt → OctCtx × Nat
  | [] => (c, 0)
  | p :: ps =>
    let (c, n) := txOne xmit c p
    let (c, m) := octIoTx c xmit ps
    (c, n + m)

def OctCtx.disposeCookie (c : OctCtx) (p : DpPkt) : OctCtx :=
  match p.cookie with
  | none => c
  | some i => octDisposeFree c i

def octIoToLocal (c : OctCtx) (p : DpPkt) : OctCtx := { c with statLocal := c.statLocal + 1 }.disposeCookie p

def octIoToOffload (c : OctCtx) (p : DpPkt) : OctCtx := { c with statOffload := c.statOffload + 1 }.disposeCookie p

def octIoFreePkt (c : OctCtx) (p : DpPkt) : OctCtx :=
  match p.cookie with
  | none => c
  | some i =>
    if (c.inflight i).disp = .held then
      let c := octDisposeFree c i
      { c with statDropFreed := c.statDropFreed + 1 }
    else c

/-- The turn of `dp_poll_once` for one packet of the burst. -/
def pollPkt (xmit : Nat → UInt16 → Int) (s : DpCtx × OctCtx) (p : DpPkt) : DpCtx × OctCtx :=
  let (dp, res, _) := dpProcess { s.1 with statRx := s.1.statRx + 1 } p.packet
  let p := { p with decision := res.decision, egress := res.egress }
  let (dp, c) :=
    if Passes res.decision then
      let (c, ok) := octIoTx s.2 xmit [p]
      (if ok = 1 then { dp with statTx := dp.statTx + 1 } else { dp with statTxFail := dp.statTxFail + 1 }, c)
    else if res.decision = fpLocal then (dp, octIoToLocal s.2 p)
    else if res.decision = fpPuntFpga then (dp, octIoToOffload s.2 p)
    else (dp, s.2)
  (dp, octIoFreePkt c p)

/-- One call of `dp_poll_once`: what `work_get` and the transmit call answer in it, and
what has happened to the dataplane's own context since the call before. -/
structure Poll where
  works : List Work
  xmit : Nat → UInt16 → Int
  between : DpCtx → DpCtx

/-- `dp_poll_once` up to the end of its turn `n`. -/
def pollPart (s : DpCtx × OctCtx) (x : Poll) (n : Nat) : DpCtx × OctCtx :=
  let dp := dpHeartbeat (dpServiceCommands (x.between s.1)).1
  let (c, burst) := octIoRx s.2 dpBurst x.works
  (burst.take n).foldl (pollPkt x.xmit) (dp, c)

def pollOct (s : DpCtx × OctCtx) (x : Poll) : DpCtx × OctCtx :=
  let dp := dpHeartbeat (dpServiceCommands (x.between s.1)).1
  let (c, burst) := octIoRx s.2 dpBurst x.works
  burst.foldl (pollPkt x.xmit) (dp, c)

def pollsOct (s : DpCtx × OctCtx) (xs : List Poll) : DpCtx × OctCtx := xs.foldl pollOct s

end FfnNgfw.Portable
