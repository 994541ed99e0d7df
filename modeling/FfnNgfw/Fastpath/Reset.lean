import FfnNgfw.Fastpath.Headers

/-!
# TCP resets

`send_tcp_rst` (`ffn_fastpath_fwd.c`) answers a segment without ACK by
acknowledging what `worker` takes for its length. The length is measured to the end
of the frame, so that Ethernet padding counts as data, and a segment with both SYN
and FIN counts one of them.
-/

namespace FfnNgfw.Fastpath
open Mem Portable Access

/-! ### `send_tcp_rst` -/

/-- What DPDK answers: buffers, the queue, and the checksums, which are stored as they
are returned. -/
structure RstDpdk where
  alloc : Bool
  append : Bool
  txBurst : List UInt8 → Nat
  ipv4Cksum : List UInt8 → UInt16
  udptcpCksum : List UInt8 → List UInt8 → UInt16

structure RstStats where
  rstSent : UInt64
  rstFail : UInt64

def rstEth (data : Mem) : List UInt8 := data.bytes 6 6 ++ data.bytes 0 6 ++ [0x08, 0x00]

def rstIp (data : Mem) (cksum : UInt16) : List UInt8 :=
  [0x45, 0, 0, 40, 0, 0, 0, 0, 64, ipprotoTcp] ++ le16 cksum ++ data.bytes (ipOff + 16) 4 ++ data.bytes (ipOff + 12) 4

def rstNumbers (data : Mem) (l4 : Nat) (seglen : UInt32) : List UInt8 × List UInt8 × UInt8 :=
  if data (l4 + 13) &&& tcpAck ≠ 0 then (data.bytes (l4 + 8) 4, be32 0, tcpRst)
  else (be32 0, be32 (ldBe32 data (l4 + 4) + seglen), tcpRst ||| tcpAck)

def rstTcp (data : Mem) (l4 : Nat) (seglen : UInt32) (cksum : UInt16) : List UInt8 :=
  let (seq, ack, flags) := rstNumbers data l4 seglen
  data.bytes (l4 + 2) 2 ++ data.bytes l4 2 ++ seq ++ ack ++ [0x50, flags, 0, 0] ++ le16 cksum ++ [0, 0]

/-- The checksums are computed over headers whose own checksum is 0, the second one
with the first in place. -/
def rstFrame (dpdk : RstDpdk) (data : Mem) (l4 : Nat) (seglen : UInt32) : List UInt8 :=
  let ip := rstIp data (dpdk.ipv4Cksum (rstIp data 0))
  rstEth data ++ ip ++ rstTcp data l4 seglen (dpdk.udptcpCksum ip (rstTcp data l4 seglen 0))

def sendTcpRst (dpdk : RstDpdk) (c : RstStats) (data : Mem) (l4 : Nat) (seglen : UInt32) :
    RstStats × Option (List UInt8) :=
  if !dpdk.alloc then ({ c with rstFail := c.rstFail + 1 }, none)
  else if !dpdk.append then ({ c with rstFail := c.rstFail + 1 }, none)
  else
    let frame := rstFrame dpdk data l4 seglen
    if dpdk.txBurst frame < 1 then ({ c with rstFail := c.rstFail + 1 }, none)
    else ({ c with rstSent := c.rstSent + 1 }, some frame)

def ackBytes (frame : List UInt8) : List UInt8 := (frame.drop 42).take 4

theorem rstFrame_ack (dpdk : RstDpdk) (data : Mem) {l4 : Nat} (seglen : UInt32) (noAck : data (l4 + 13) &&& tcpAck = 0) :
    ackBytes (rstFrame dpdk data l4 seglen) = be32 (ldBe32 data (l4 + 4) + seglen) := by
  unfold rstFrame rstTcp rstNumbers
  rw [if_neg (not_not.mpr noAck)]
  rfl

theorem sendTcpRst_some {dpdk : RstDpdk} {c : RstStats} {data : Mem} {l4 : Nat} {seglen : UInt32} {frame : List UInt8}
    (sent : (sendTcpRst dpdk c data l4 seglen).2 = some frame) : frame = rstFrame dpdk data l4 seglen := by
  unfold sendTcpRst at sent
  split at sent
  · cases sent
  · split at sent
    · cases sent
    · dsimp only at sent
      split at sent
      · cases sent
      · cases sent
        rfl

/-! ### Segments by their IP header -/

section segment

variable (p : Packet)

def tcpOff : Nat := ipOff + ihlOf (p.data ipOff)

def totalLength : Nat := (ldBe16 p.data (ipOff + 2)).toNat

def dataOffset : Nat := doffOf (p.data (tcpOff p + 12))

def hasFlag (flag : UInt8) : Bool := p.data (tcpOff p + 13) &&& flag != 0

/-- A complete IPv4 packet with a TCP header, in a frame that may be longer. -/
structure TcpFrame : Prop where
  ethertype : ldBe16 p.data 12 = ethertypeIpv4
  version : p.data ipOff >>> 4 = 4
  proto : p.data (ipOff + 9) = ipprotoTcp
  ihl : ip4MinHlen ≤ ihlOf (p.data ipOff)
  doff : 20 ≤ dataOffset p
  headers : ihlOf (p.data ipOff) + dataOffset p ≤ totalLength p
  whole : ethHlen + totalLength p ≤ p.len.toNat

def segmentSpace : Nat :=
  totalLength p - ihlOf (p.data ipOff) - dataOffset p + (hasFlag p tcpSyn).toNat + (hasFlag p tcpFin).toNat

def padding : Nat := p.len.toNat - ethHlen - totalLength p

/-- `worker` gets the length of the segment right, and a reset of a segment without ACK
acknowledges all of it. -/
def ResetRight : Prop :=
  ∃ h, (workerHeaders p).value p.data = some h ∧ h.isTcp = true ∧ h.seglen.toNat = segmentSpace p ∧
    ∀ dpdk c frame, (sendTcpRst dpdk c p.data (tcpOff p) h.seglen).2 = some frame → hasFlag p tcpAck = false →
      ackBytes frame = be32 (ldBe32 p.data (tcpOff p + 4) + UInt32.ofNat (segmentSpace p))

theorem syn_or_fin : p.data (tcpOff p + 13) &&& (tcpSyn ||| tcpFin) ≠ 0 ↔
    (hasFlag p tcpSyn || hasFlag p tcpFin) = true := by
  have both (f : UInt8) : f &&& (tcpSyn ||| tcpFin) = (f &&& tcpSyn) ||| (f &&& tcpFin) :=
    UInt8.toBitVec_inj.mp BitVec.and_or_distrib_left
  rw [both, Bool.or_eq_true, hasFlag, hasFlag, bne_iff_ne, bne_iff_ne, Ne, UInt8.or_eq_zero_iff, not_and_or]

variable {p} (wf : TcpFrame p)
include wf

theorem payload_tcp : ((workerL4 (p.data (ipOff + 9)) (tcpOff p)).value p.data).2.2 = some (tcpOff p + dataOffset p) := by
  unfold workerL4
  rw [wf.proto, if_pos rfl]
  rfl

theorem worker_seglen : ∃ h, (workerHeaders p).value p.data = some h ∧ h.isTcp = true ∧
    h.seglen.toNat = p.len.toNat - (tcpOff p + dataOffset p) + (hasFlag p tcpSyn || hasFlag p tcpFin).toNat := by
  have short := p.len.toNat_lt
  have plen : (payloadLen p.len (some (tcpOff p + dataOffset p))).toNat = p.len.toNat - (tcpOff p + dataOffset p) := by
    unfold payloadLen
    dsimp only
    split
    · rw [UInt32.toNat_ofNat']
      exact Nat.mod_eq_of_lt (by omega)
    · rename_i past
      rw [Nat.sub_eq_zero_of_le (Nat.not_lt.mp past)]
      rfl
  have ip : (workerHeaders p).value p.data = some ((workerIp p).value p.data) := by
    unfold workerHeaders
    rw [value_bind, value_ite, value_ldBe16, if_pos wf.ethertype, value_map]
  refine ⟨_, ip, ?_, ?_⟩
  · show (p.data (ipOff + 9) == ipprotoTcp) = true
    rw [wf.proto]
    rfl
  · show ((segmentLen (payloadLen p.len ((workerL4 (p.data (ipOff + 9)) (tcpOff p)).value p.data).2.2)
      (p.data (ipOff + 9)) (tcpOff p)).value p.data).toNat = _
    rw [payload_tcp wf, wf.proto, segmentLen, if_pos rfl]
    show (if p.data (tcpOff p + 13) &&& (tcpSyn ||| tcpFin) ≠ 0 then payloadLen p.len (some (tcpOff p + dataOffset p)) + 1
      else payloadLen p.len (some (tcpOff p + dataOffset p))).toNat = _
    have offset : 14 ≤ tcpOff p := Nat.le_add_right 14 _
    by_cases flags : (hasFlag p tcpSyn || hasFlag p tcpFin) = true
    · rw [if_pos ((syn_or_fin p).mpr flags), flags, UInt32.toNat_add, plen]
      exact Nat.mod_eq_of_lt (by simp only [UInt32.reduceToNat]; omega)
    · rw [if_neg (fun both => flags ((syn_or_fin p).mp both)), plen, Bool.eq_false_iff.mpr flags]
      rfl

/-- The reset is right exactly when the frame has no padding, or the one byte that
makes up for the second of two flags. -/
theorem reset_right_iff : ResetRight p ↔ padding p = (hasFlag p tcpSyn && hasFlag p tcpFin).toNat := by
  obtain ⟨h, read, isTcp, seglen⟩ := worker_seglen wf
  have headers := wf.headers
  have whole := wf.whole
  have flags : (hasFlag p tcpSyn || hasFlag p tcpFin).toNat + (hasFlag p tcpSyn && hasFlag p tcpFin).toNat =
      (hasFlag p tcpSyn).toNat + (hasFlag p tcpFin).toNat := by
    cases hasFlag p tcpSyn <;> cases hasFlag p tcpFin <;> rfl
  have exact_ : h.seglen.toNat = segmentSpace p ↔ padding p = (hasFlag p tcpSyn && hasFlag p tcpFin).toNat := by
    rw [seglen]
    unfold segmentSpace padding tcpOff
    unfold ipOff ethHlen at *
    omega
  rw [← exact_]
  constructor
  · rintro ⟨h', read', _, right, _⟩
    rw [read, Option.some.injEq] at read'
    rw [read']
    exact right
  · intro right
    refine ⟨h, read, isTcp, right, fun dpdk c frame sent noAck => ?_⟩
    rw [sendTcpRst_some sent, rstFrame_ack dpdk p.data h.seglen (bne_eq_false_iff_eq.mp noAck), ← right,
      UInt32.ofNat_toNat]

end segment

/-- A SYN without data, padded to the 60 bytes of the smallest Ethernet frame. -/
def paddedSyn : Packet where
  data := Mem.write (fun _ => 0) 0
    (List.replicate 12 0 ++ [0x08, 0x00, 0x45, 0, 0, 40] ++ List.replicate 5 0 ++ [6, 0, 0] ++ be32 0x0A000001 ++
      be32 0x0A000002 ++ List.replicate 12 0 ++ [0x50, 0x02])
  len := 60
  vsys := 0

theorem paddedSyn_tcp : TcpFrame paddedSyn := by
  constructor
  all_goals decide +kernel

/-- Its reset acknowledges seven numbers instead of one. -/
theorem paddedSyn_wrong : TcpFrame paddedSyn ∧ ¬ResetRight paddedSyn := by
  refine ⟨paddedSyn_tcp, fun right => ?_⟩
  obtain ⟨h, read, _, seglen, _⟩ := right
  have seven : ((workerHeaders paddedSyn).value paddedSyn.data).map WorkerHeaders.seglen = some 7 := by decide +kernel
  have one : segmentSpace paddedSyn = 1 := by decide +kernel
  rw [read, Option.map_some, Option.some.injEq] at seven
  rw [seven, one] at seglen
  exact absurd seglen (by decide)

theorem paddedSyn_right_iff : TcpFrame paddedSyn ∧
    (ResetRight paddedSyn ↔ padding paddedSyn = (hasFlag paddedSyn tcpSyn && hasFlag paddedSyn tcpFin).toNat) :=
  ⟨paddedSyn_tcp, reset_right_iff paddedSyn_tcp⟩

end FfnNgfw.Fastpath
