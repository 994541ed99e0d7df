import FfnNgfw.Ha.Core
import FfnNgfw.Lib.Access
import FfnNgfw.Lib.Endpoints
import FfnNgfw.Portable.Process
import Mathlib.Tactic.Common

/-!
# Flow keys of the DPDK fast path

`worker` (`ffn_fastpath_fwd.c`) keeps the state of a flow under the key `make_key`
builds. The two addresses are put in order and the ports follow their addresses.
Nothing orders the ports of two equal addresses, so between two ports of one address
the key depends on the direction.
-/

namespace FfnNgfw.Fastpath

/-- `struct flow_key`. The table hashes and compares all of its bytes, the padding too. -/
structure FlowKey where
  ipA : UInt32
  ipB : UInt32
  portA : UInt16
  portB : UInt16
  proto : UInt8
  vsys : UInt8
  pad : UInt16
  deriving DecidableEq

def makeKey (vsys : UInt8) (sip dip : UInt32) (sp dp : UInt16) (proto : UInt8) : FlowKey :=
  if sip ≤ dip then ⟨sip, dip, sp, dp, proto, vsys, 0⟩ else ⟨dip, sip, dp, sp, proto, vsys, 0⟩

/-- What `worker` reads from a frame before it asks for the flow. -/
structure SixTuple where
  vsys : UInt8
  sip : UInt32
  dip : UInt32
  sp : UInt16
  dp : UInt16
  proto : UInt8
  deriving DecidableEq

namespace SixTuple

def flowKey (p : SixTuple) : FlowKey := makeKey p.vsys p.sip p.dip p.sp p.dp p.proto

def reverse (p : SixTuple) : SixTuple := { p with sip := p.dip, dip := p.sip, sp := p.dp, dp := p.sp }

def source (p : SixTuple) : UInt32 × UInt16 := (p.sip, p.sp)

def destination (p : SixTuple) : UInt32 × UInt16 := (p.dip, p.dp)

/-- The key tells both directions of the packet's conversation, and only them. -/
def Identified (p : SixTuple) : Prop :=
  p.flowKey = p.reverse.flowKey ∧ ∀ q : SixTuple, q.flowKey = p.flowKey → q = p ∨ q = p.reverse

end SixTuple

/-- `make_key` sorts the ends by address alone. -/
def addressRank (e : UInt32 × UInt16) : Nat := e.1.toNat

def FlowKey.ofEnds (vsys proto : UInt8) (ends : (UInt32 × UInt16) × (UInt32 × UInt16)) : FlowKey :=
  ⟨ends.1.1, ends.2.1, ends.1.2, ends.2.2, proto, vsys, 0⟩

theorem ofEnds_inj {v v' proto proto' : UInt8} {ends ends' : (UInt32 × UInt16) × (UInt32 × UInt16)} :
    FlowKey.ofEnds v proto ends = FlowKey.ofEnds v' proto' ends' ↔ v = v' ∧ proto = proto' ∧ ends = ends' := by
  obtain ⟨⟨a, pa⟩, b, pb⟩ := ends
  obtain ⟨⟨c, pc⟩, d, pd⟩ := ends'
  simp only [FlowKey.ofEnds, FlowKey.mk.injEq, Prod.mk.injEq]
  constructor
  · rintro ⟨rfl, rfl, rfl, rfl, rfl, rfl, -⟩
    simp
  · rintro ⟨rfl, rfl, ⟨rfl, rfl⟩, rfl, rfl⟩
    simp

theorem flowKey_ofEnds (p : SixTuple) :
    p.flowKey = .ofEnds p.vsys p.proto (sortEnds addressRank p.source p.destination) := by
  rw [SixTuple.flowKey, makeKey]
  by_cases ordered : p.sip ≤ p.dip
  · have kept : addressRank p.source ≤ addressRank p.destination := UInt32.le_iff_toNat_le.mp ordered
    rw [if_pos ordered, SortEnds.of_le kept]
    rfl
  · have turned : addressRank p.destination < addressRank p.source :=
      UInt32.lt_iff_toNat_lt.mp (UInt32.not_le.mp ordered)
    rw [if_neg ordered, SortEnds.of_lt turned]
    rfl

theorem flowKey_eq {p q : SixTuple} (h : q.flowKey = p.flowKey) : q = p ∨ q = p.reverse := by
  rw [flowKey_ofEnds, flowKey_ofEnds, ofEnds_inj] at h
  obtain ⟨vsys, proto, ends⟩ := h
  have same := SortEnds.ends_eq ends
  cases p
  cases q
  simp only [SixTuple.source, SixTuple.destination, Sym2.eq_iff, Prod.mk.injEq] at vsys proto same
  subst vsys proto
  rcases same with ⟨⟨rfl, rfl⟩, rfl, rfl⟩ | ⟨⟨rfl, rfl⟩, rfl, rfl⟩
  · exact .inl rfl
  · exact .inr rfl

theorem flowKey_reverse_iff (p : SixTuple) : p.flowKey = p.reverse.flowKey ↔ p.sip ≠ p.dip ∨ p.sp = p.dp := by
  have turned : p.reverse.flowKey = .ofEnds p.vsys p.proto (sortEnds addressRank p.destination p.source) :=
    flowKey_ofEnds p.reverse
  rw [flowKey_ofEnds, turned, ofEnds_inj, SortEnds.symm_iff]
  simp only [true_and, addressRank, SixTuple.source, SixTuple.destination, ne_eq, UInt32.toNat_inj, Prod.mk.injEq]
  tauto

/-- A conversation has one key of its own exactly when its ends differ in address or
agree in port. -/
theorem identified_iff (p : SixTuple) : p.Identified ↔ p.sip ≠ p.dip ∨ p.sp = p.dp := by
  rw [SixTuple.Identified, flowKey_reverse_iff]
  exact ⟨And.left, fun sorted => ⟨sorted, fun _ => flowKey_eq⟩⟩

/-- Two ports of 10.0.0.1 talking to each other. -/
theorem hairpin_split : ¬ ∀ p : SixTuple, p.Identified := by
  intro all
  have sorted := (all ⟨1, 0x0a000001, 0x0a000001, 1024, 443, 6⟩).1
  revert sorted
  decide

end FfnNgfw.Fastpath

/-!
## Reading the headers of a frame

Three parsers take a frame apart: `worker` of the DPDK fast path
(`ffn_fastpath_fwd.c`), `ffn_ha_key_from_mbuf` (`ffn_ha_dpdk.c`) and `dp_parse` of the
portable dataplane (`ffn_dp_oct.c`). They are written as readers, which tell the
offsets they look at. Only `dp_parse` compares each of them with the length.
-/

namespace FfnNgfw.Fastpath
open Portable Access

/-! ### `worker` -/

/-- What `worker` has of an IPv4 frame before it asks for the flow. -/
structure WorkerHeaders where
  tuple : SixTuple
  isTcp : Bool
  plen : UInt32
  seglen : UInt32

/-- Header lengths are computed in `uint8_t`. -/
def ihlOf (versionIhl : UInt8) : Nat := ((versionIhl &&& 0x0f) * 4).toNat

def doffOf (dataOff : UInt8) : Nat := ((dataOff >>> 4) * 4).toNat

def tcpFin : UInt8 := 0x01
def tcpSyn : UInt8 := 0x02
def tcpAck : UInt8 := 0x10
def tcpRst : UInt8 := 0x04

def ipOff : Nat := ethHlen

/-- Ports and the offset of the payload, for the header at `l4`. -/
def workerL4 (proto : UInt8) (l4 : Nat) : Access (UInt16 × UInt16 × Option Nat) :=
  if proto = ipprotoTcp then do
    let sp ← ldBe16 l4
    let dp ← ldBe16 (l4 + 2)
    let dataOff ← load (l4 + 12)
    return (sp, dp, some (l4 + doffOf dataOff))
  else if proto = ipprotoUdp then do
    let sp ← ldBe16 l4
    let dp ← ldBe16 (l4 + 2)
    return (sp, dp, some (l4 + 8))
  else return (0, 0, none)

def payloadLen (len : UInt32) : Option Nat → UInt32
  | some payload => if payload < len.toNat then UInt32.ofNat (len.toNat - payload) else 0
  | none => 0

def segmentLen (plen : UInt32) (proto : UInt8) (l4 : Nat) : Access UInt32 :=
  if proto = ipprotoTcp then do
    let flags ← load (l4 + 13)
    return if flags &&& (tcpSyn ||| tcpFin) ≠ 0 then plen + 1 else plen
  else return plen

def workerIp (p : Packet) : Access WorkerHeaders := do
  let versionIhl ← load ipOff
  let proto ← load (ipOff + 9)
  let l4 := ipOff + ihlOf versionIhl
  let (sp, dp, payload) ← workerL4 proto l4
  let sip ← ldBe32 (ipOff + 12)
  let dip ← ldBe32 (ipOff + 16)
  let plen := payloadLen p.len payload
  let seglen ← segmentLen plen proto l4
  return ⟨⟨p.vsys, sip, dip, sp, dp, proto⟩, proto == ipprotoTcp, plen, seglen⟩

/-- `none` for a frame that is not IPv4, which is forwarded as it is. -/
def workerHeaders (p : Packet) : Access (Option WorkerHeaders) := do
  let etherType ← ldBe16 12
  if etherType = ethertypeIpv4 then some <$> workerIp p else return none

def haPorts (proto : UInt8) (l4 : Nat) : Access (UInt16 × UInt16) :=
  if hasPorts proto then do
    let sport ← ldBe16 l4
    let dport ← ldBe16 (l4 + 2)
    return (sport, dport)
  else return (0, 0)

def haKeyIp : Access Ha.FlowKey := do
  let sip ← ldBe32 (ipOff + 12)
  let dip ← ldBe32 (ipOff + 16)
  let proto ← load (ipOff + 9)
  let versionIhl ← load ipOff
  let (sport, dport) ← haPorts proto (ipOff + ihlOf versionIhl)
  return Ha.normalizeKey sip dip sport dport proto

def ffnHaKeyFromMbuf (p : Packet) : Access (Option Ha.FlowKey) :=
  if p.len.toNat < ethHlen + ip4MinHlen then return none
  else do
    let etherType ← ldBe16 12
    if etherType = ethertypeIpv4 then some <$> haKeyIp else return none

def parseFlags (n l4 : Nat) (proto : UInt8) : Access UInt8 :=
  if proto = ipprotoTcp ∧ l4 + 14 ≤ n then load (l4 + 13) else return 0

def parsePorts (n l4 : Nat) (t : Tuple) : Access (Except Rc Tuple) :=
  if n < l4 + 4 then return .error .errShort
  else do
    let sport ← ldBe16 l4
    let dport ← ldBe16 (l4 + 2)
    let flags ← parseFlags n l4 t.proto
    return .ok { t with sport := sport, dport := dport, tcpFlags := flags }

def parseIpv4 (n off : Nat) (vsys : UInt8) : Access (Except Rc Tuple) := do
  let ihl := ihlOf (← load off)
  if ihl < ip4MinHlen ∨ n < off + ihl then return .error .errShort
  else do
    let proto ← load (off + 9)
    let srcIp ← ldBe32 (off + 12)
    let dstIp ← ldBe32 (off + 16)
    let t : Tuple := ⟨srcIp, dstIp, 0, 0, proto, vsys, 0⟩
    if hasPorts proto then parsePorts n (off + ihl) t else return .ok t

def parseFrame (p : Packet) : Access (Except Rc Tuple) :=
  let n := p.len.toNat
  if n < ethHlen + ip4MinHlen then return .error .errShort
  else do
    let ethertype ← ldBe16 12
    if ethertype = ethertypeVlan then
      if n < ethHlen + 4 + ip4MinHlen then return .error .errShort
      else do
        let inner ← ldBe16 16
        if inner ≠ ethertypeIpv4 then return .error .errNotIp else parseIpv4 n (ethHlen + 4) p.vsys
    else if ethertype ≠ ethertypeIpv4 then return .error .errNotIp
    else parseIpv4 n ethHlen p.vsys

theorem parseIpv4_value (m : Mem) (n off : Nat) (vsys : UInt8) :
    (parseIpv4 n off vsys).value m = dpParseIp m n off vsys := by
  simp only [parseIpv4, parsePorts, parseFlags, value_bind, value_ite, value_pure]
  rfl

theorem parseFrame_value (p : Packet) : (parseFrame p).value p.data = dpParse p := by
  simp only [parseFrame, value_bind, value_ite, value_pure, parseIpv4_value]
  rfl

/-! ### Offsets and the length of the frame -/

def InFrame {α : Type} (p : Packet) (x : Access α) : Prop := x.Stays p.data (· < p.len.toNat)

section stays

variable (m : Mem) (n : Nat)

theorem parsePorts_stays (l4 : Nat) (t : Tuple) : (parsePorts n l4 t).Stays m (· < n) := by
  simp only [parsePorts, parseFlags, stays_ite, stays_bind, stays_load, stays_ldBe16, stays_pure, and_true, implies_true,
    true_and]
  intro room
  exact ⟨by omega, by omega, fun flags => by omega⟩

theorem parseIpv4_stays {off : Nat} (vsys : UInt8) (header : off + ip4MinHlen ≤ n) :
    (parseIpv4 n off vsys).Stays m (· < n) := by
  unfold ip4MinHlen at header
  unfold parseIpv4
  rw [stays_bind]
  dsimp only
  simp only [stays_ite, stays_bind, stays_load, stays_ldBe32, stays_pure, parsePorts_stays, and_true, implies_true,
    true_and]
  exact ⟨by omega, fun _ => by omega⟩

theorem workerL4_stays (proto : UInt8) (l4 : Nat) :
    (workerL4 proto l4).Stays m (· < n) ↔
      (proto = ipprotoTcp → l4 + 12 < n) ∧ (proto = ipprotoUdp → l4 + 3 < n) := by
  have differ : ipprotoTcp ≠ ipprotoUdp := by decide
  simp only [workerL4, stays_ite, stays_bind, stays_load, stays_ldBe16, stays_pure, and_true, implies_true]
  constructor
  · rintro ⟨tcp, rest⟩
    refine ⟨fun isTcp => ?_, fun isUdp => ?_⟩
    · have reads := tcp isTcp
      omega
    · have reads := rest (fun isTcp => differ (isTcp.symm.trans isUdp)) isUdp
      omega
  · rintro ⟨tcp, udp⟩
    refine ⟨fun isTcp => ?_, fun _ isUdp => ?_⟩
    · have room := tcp isTcp
      omega
    · have room := udp isUdp
      omega

theorem segmentLen_stays (plen : UInt32) (proto : UInt8) (l4 : Nat) :
    (segmentLen plen proto l4).Stays m (· < n) ↔ (proto = ipprotoTcp → l4 + 13 < n) := by
  simp only [segmentLen, stays_ite, stays_bind, stays_load, stays_pure, and_true, implies_true]

theorem haPorts_stays (proto : UInt8) (l4 : Nat) :
    (haPorts proto l4).Stays m (· < n) ↔ (hasPorts proto = true → l4 + 3 < n) := by
  simp only [haPorts, stays_ite, stays_bind, stays_ldBe16, stays_pure, and_true, implies_true]
  refine ⟨fun reads ports => ?_, fun room ports => ?_⟩
  · have last := reads ports
    omega
  · have last := room ports
    omega

end stays

theorem parseFrame_inFrame (p : Packet) : InFrame p (parseFrame p) := by
  unfold InFrame parseFrame
  dsimp only
  rw [stays_ite]
  refine ⟨fun _ => stays_pure _ _ _, fun long => ?_⟩
  unfold ethHlen ip4MinHlen at long
  rw [stays_bind, stays_ldBe16]
  refine ⟨⟨by omega, by omega⟩, ?_⟩
  rw [stays_ite]
  refine ⟨fun _ => ?_, fun _ => ?_⟩
  · rw [stays_ite]
    refine ⟨fun _ => stays_pure _ _ _, fun tagged => ?_⟩
    have header := Nat.not_lt.mp tagged
    unfold ethHlen ip4MinHlen at tagged
    rw [stays_bind, stays_ldBe16, stays_ite]
    exact ⟨⟨by omega, by omega⟩, fun _ => stays_pure _ _ _, fun _ => parseIpv4_stays _ _ _ header⟩
  · rw [stays_ite]
    exact ⟨fun _ => stays_pure _ _ _, fun _ => parseIpv4_stays _ _ _ (Nat.not_lt.mp (by assumption))⟩

/-- The frame is long enough for what `worker` takes it for. -/
def WorkerFits (p : Packet) : Prop :=
  ethHlen ≤ p.len.toNat ∧
  (Mem.ldBe16 p.data 12 = ethertypeIpv4 →
    ethHlen + ip4MinHlen ≤ p.len.toNat ∧
    (p.data (ipOff + 9) = ipprotoTcp → ipOff + ihlOf (p.data ipOff) + 14 ≤ p.len.toNat) ∧
    (p.data (ipOff + 9) = ipprotoUdp → ipOff + ihlOf (p.data ipOff) + 4 ≤ p.len.toNat))

theorem workerIp_inFrame_iff (p : Packet) : InFrame p (workerIp p) ↔
    ethHlen + ip4MinHlen ≤ p.len.toNat ∧
    (p.data (ipOff + 9) = ipprotoTcp → ipOff + ihlOf (p.data ipOff) + 14 ≤ p.len.toNat) ∧
    (p.data (ipOff + 9) = ipprotoUdp → ipOff + ihlOf (p.data ipOff) + 4 ≤ p.len.toNat) := by
  unfold InFrame workerIp
  simp only [stays_bind, stays_load, stays_ldBe32, stays_pure, workerL4_stays, segmentLen_stays, value_load, and_true]
  unfold ipOff ethHlen ip4MinHlen
  constructor
  · rintro ⟨_, _, ⟨_, udp⟩, _, dip, tcp⟩
    refine ⟨by omega, fun isTcp => ?_, fun isUdp => ?_⟩
    · have reads := tcp isTcp
      omega
    · have reads := udp isUdp
      omega
  · rintro ⟨header, tcp, udp⟩
    refine ⟨by omega, by omega, ⟨fun isTcp => ?_, fun isUdp => ?_⟩, by omega, by omega, fun isTcp => ?_⟩
    · have room := tcp isTcp
      omega
    · have room := udp isUdp
      omega
    · have room := tcp isTcp
      omega

theorem worker_inFrame_iff (p : Packet) : InFrame p (workerHeaders p) ↔ WorkerFits p := by
  have ip := workerIp_inFrame_iff p
  unfold InFrame at ip
  unfold InFrame workerHeaders WorkerFits
  rw [stays_bind, stays_ldBe16, stays_ite, value_ldBe16, stays_map, ip]
  refine ⟨fun reads => ⟨?_, reads.2.1⟩, fun fits => ⟨?_, fits.2, fun _ => stays_pure _ _ _⟩⟩
  · have first := reads.1.2
    unfold ethHlen
    omega
  · have first := fits.1
    unfold ethHlen at first
    omega

/-- The frame is long enough for its ports, or `ffn_ha_key_from_mbuf` does not look for
them. -/
def HaFits (p : Packet) : Prop :=
  ethHlen + ip4MinHlen ≤ p.len.toNat → Mem.ldBe16 p.data 12 = ethertypeIpv4 → hasPorts (p.data (ipOff + 9)) = true →
    ipOff + ihlOf (p.data ipOff) + 4 ≤ p.len.toNat

theorem haKeyIp_inFrame_iff (p : Packet) : InFrame p haKeyIp ↔
    ethHlen + ip4MinHlen ≤ p.len.toNat ∧
    (hasPorts (p.data (ipOff + 9)) = true → ipOff + ihlOf (p.data ipOff) + 4 ≤ p.len.toNat) := by
  unfold InFrame haKeyIp
  simp only [stays_bind, stays_load, stays_ldBe32, stays_pure, haPorts_stays, value_load, and_true]
  unfold ipOff ethHlen ip4MinHlen
  constructor
  · rintro ⟨_, dip, _, _, ports⟩
    refine ⟨by omega, fun has => ?_⟩
    have reads := ports has
    omega
  · rintro ⟨header, ports⟩
    refine ⟨by omega, by omega, by omega, by omega, fun has => ?_⟩
    have room := ports has
    omega

theorem ha_inFrame_iff (p : Packet) : InFrame p (ffnHaKeyFromMbuf p) ↔ HaFits p := by
  have ip := haKeyIp_inFrame_iff p
  unfold InFrame at ip
  unfold InFrame ffnHaKeyFromMbuf HaFits
  rw [stays_ite]
  constructor
  · rintro ⟨_, reads⟩ long isIp
    have inner := reads (Nat.not_lt.mpr long)
    rw [stays_bind, stays_ite, value_ldBe16, stays_map, ip] at inner
    exact (inner.2.1 isIp).2
  · intro fits
    refine ⟨fun _ => stays_pure _ _ _, fun long => ?_⟩
    have header := Nat.not_lt.mp long
    rw [stays_bind, stays_ldBe16, stays_ite, value_ldBe16, stays_map, ip]
    refine ⟨?_, fun isIp => ⟨header, fits header isIp⟩, fun _ => stays_pure _ _ _⟩
    unfold ethHlen ip4MinHlen at header
    omega

structure HeadersInFrame (p : Packet) : Prop where
  worker : InFrame p (workerHeaders p)
  haKey : InFrame p (ffnHaKeyFromMbuf p)
  portable : InFrame p (parseFrame p)

/-- What `worker` needs is enough for the other two. -/
theorem headers_inFrame_iff (p : Packet) : HeadersInFrame p ↔ WorkerFits p := by
  constructor
  · intro reads
    exact (worker_inFrame_iff p).mp reads.worker
  · intro fits
    refine ⟨(worker_inFrame_iff p).mpr fits, (ha_inFrame_iff p).mpr fun _ isIp ports => ?_, parseFrame_inFrame p⟩
    obtain ⟨_, tcp, udp⟩ := fits.2 isIp
    unfold hasPorts at ports
    rcases Bool.or_eq_true_iff.mp ports with isTcp | isUdp
    · have room := tcp (eq_of_beq isTcp)
      omega
    · exact udp (eq_of_beq isUdp)

def bareTcp : Packet where
  data := Mem.write (fun _ => 0) 0
    (List.replicate 12 0 ++ [0x08, 0x00, 0x45] ++ List.replicate 8 0 ++ [6, 0, 0] ++ be32 0x0A000001 ++ be32 0x0A000002)
  len := 34
  vsys := 0

/-- Both DPDK parsers take the ports from behind the frame. -/
theorem bareTcp_overread : ¬HeadersInFrame bareTcp ∧ ¬InFrame bareTcp (workerHeaders bareTcp) ∧
    ¬InFrame bareTcp (ffnHaKeyFromMbuf bareTcp) := by
  have worker : 34 ∈ (workerHeaders bareTcp).reads bareTcp.data := by decide +kernel
  have haKey : 34 ∈ (ffnHaKeyFromMbuf bareTcp).reads bareTcp.data := by decide +kernel
  have past : ¬34 < bareTcp.len.toNat := by decide
  exact ⟨fun reads => past (reads.worker 34 worker), fun reads => past (reads 34 worker),
    fun reads => past (reads 34 haKey)⟩

end FfnNgfw.Fastpath
