import FfnNgfw.Portable.Flow

/-!
# Per-packet processing of the portable dataplane

`dp_parse` and `dp_process` (`ffn_dp_oct.c`): parse, look the flow up, apply the
cached verdict or classify and cache the result.
-/

namespace FfnNgfw.Portable
open Mem

/-! ### Parsing -/

/-- A frame as the I/O backend hands it over: its bytes, its length and its vsys. -/
structure Packet where
  data : Mem
  len : UInt32
  vsys : UInt8

def ethHlen : Nat := 14
def ip4MinHlen : Nat := 20
def ethertypeIpv4 : UInt16 := 0x0800
def ethertypeVlan : UInt16 := 0x8100

def hasPorts (proto : UInt8) : Bool := proto == ipprotoTcp || proto == ipprotoUdp

def dpParseIp (pkt : Mem) (n off : Nat) (vsys : UInt8) : Except Rc Tuple :=
  let ihl := ((pkt off &&& 0x0f) * 4).toNat
  if ihl < ip4MinHlen ∨ n < off + ihl then .error .errShort
  else
    let t : Tuple :=
      { srcIp := ldBe32 pkt (off + 12), dstIp := ldBe32 pkt (off + 16), sport := 0, dport := 0,
        proto := pkt (off + 9), vsys := vsys, tcpFlags := 0 }
    if hasPorts t.proto then
      let l4 := off + ihl
      if n < l4 + 4 then .error .errShort
      else
        .ok { t with
          sport := ldBe16 pkt l4
          dport := ldBe16 pkt (l4 + 2)
          tcpFlags := if t.proto = ipprotoTcp ∧ l4 + 14 ≤ n then pkt (l4 + 13) else 0 }
    else .ok t

def dpParse (p : Packet) : Except Rc Tuple :=
  let n := p.len.toNat
  if n < ethHlen + ip4MinHlen then .error .errShort
  else
    let ethertype := ldBe16 p.data 12
    -- single 802.1Q tag
    if ethertype = ethertypeVlan then
      if n < ethHlen + 4 + ip4MinHlen then .error .errShort
      else if ldBe16 p.data 16 ≠ ethertypeIpv4 then .error .errNotIp
      else dpParseIp p.data n (ethHlen + 4) p.vsys
    else if ethertype ≠ ethertypeIpv4 then .error .errNotIp
    else dpParseIp p.data n ethHlen p.vsys

def icmpPacket (src dst : UInt32) (vsys : UInt8) : Packet where
  data := Mem.write (fun _ => 0) 0
    (List.replicate 12 0 ++ [0x08, 0x00, 0x45] ++ List.replicate 8 0 ++ [1, 0, 0] ++ be32 src ++ be32 dst)
  len := 34
  vsys := vsys

structure DpCtx where
  region : Option Mem
  regionSize : Nat
  activeBank : UInt32
  defaultDecision : Int
  stop : Bool
  tables : Tables
  flows : FlowTable
  statRx : UInt64
  statTx : UInt64
  statTxFail : UInt64
  statForward : UInt64
  statInspect : UInt64
  statDrop : UInt64
  statPunt : UInt64
  statLocal : UInt64
  statCacheHit : UInt64
  statClassify : UInt64
  statParseErr : UInt64
  statFlowFull : UInt64

structure DpResult where
  tuple : Option Tuple
  decision : Int
  ruleId : UInt16
  egress : UInt16
  fromCache : Bool
  reset : Bool

def countCached (c : DpCtx) (dec : Int) : DpCtx :=
  if dec = fpForward then { c with statForward := c.statForward + 1 }
  else if dec = fpInspect then { c with statInspect := c.statInspect + 1 }
  else if dec = fpDrop then { c with statDrop := c.statDrop + 1 }
  else c

def countDecision (c : DpCtx) (dec : Int) : DpCtx :=
  if dec = fpForward then { c with statForward := c.statForward + 1 }
  else if dec = fpInspect then { c with statInspect := c.statInspect + 1 }
  else if dec = fpDrop then { c with statDrop := c.statDrop + 1 }
  else if dec = fpPuntFpga then { c with statPunt := c.statPunt + 1 }
  else if dec = fpLocal then { c with statLocal := c.statLocal + 1 }
  else c

def FlowEnt.decision (e : FlowEnt) : Int :=
  if e.verdict = .allow then (if e.flags &&& ffInspect ≠ 0 then fpInspect else fpForward) else fpDrop

/-- The entry after a classification: punt and local decisions leave the verdict
unset, so that the next packet is evaluated again. -/
def FlowEnt.record (e : FlowEnt) (len : UInt32) (dec : Int) (ruleId egress : UInt16) : FlowEnt :=
  let e := { e with ruleId := ruleId, egress := egress, pkts := e.pkts + 1, bytes := e.bytes + len.toUInt64 }
  if dec = fpForward then { e with verdict := .allow }
  else if dec = fpInspect then { e with verdict := .allow, flags := e.flags ||| ffInspect }
  else if dec = fpDrop then { e with verdict := .drop }
  else { e with verdict := .unset }

def FlowEnt.touch (e : FlowEnt) (len : UInt32) : FlowEnt :=
  { e with pkts := e.pkts + 1, bytes := e.bytes + len.toUInt64 }

/-- `dp_classify` with the default applied when no row matches. -/
def DpCtx.classify (c : DpCtx) (t : Tuple) : Int × UInt16 × UInt16 :=
  let (dec, ruleId, egress) := dpClassify c.tables t
  (if dec = dpDecisionNoMatch then c.defaultDecision else dec, ruleId, egress)

/-! ### The two paths -/

def cacheHit (c : DpCtx) (t : Tuple) (i : Nat) (len : UInt32) : DpCtx × DpResult :=
  let fe := c.flows.ent i
  let dec := fe.decision
  let c := { c with flows := c.flows.set i (fe.touch len), statCacheHit := c.statCacheHit + 1 }
  (countCached c dec, ⟨some t, dec, fe.ruleId, fe.egress, true, decide (fe.verdict = .reset)⟩)

/-- Classify, and record the result in slot `slot`, or in a new slot. -/
def cacheMiss (c : DpCtx) (t : Tuple) (key : FlowKey) (slot : Option Nat) (len : UInt32) :
    DpCtx × DpResult :=
  let (dec, ruleId, egress) := c.classify t
  let c := { c with statClassify := c.statClassify + 1 }
  let (flows, fe) := match slot with
    | some i => (c.flows, some i)
    | none => dpFlowInsert c.flows key
  let c := match fe with
    | some i => { c with flows := flows.set i ((flows.ent i).record len dec ruleId egress) }
    | none => { c with flows := flows, statFlowFull := c.statFlowFull + 1 }
  (countDecision c dec, ⟨some t, dec, ruleId, egress, false, false⟩)

/-- Malformed frames are dropped, other protocols go to the local stack. -/
def parseFailed (c : DpCtx) (rc : Rc) : DpCtx × DpResult :=
  ({ c with statParseErr := c.statParseErr + 1 },
    ⟨none, if rc = .errNotIp then fpLocal else fpDrop, 0, 0, false, false⟩)

def processTuple (c : DpCtx) (t : Tuple) (len : UInt32) : DpCtx × DpResult :=
  let key := dpFlowKeyFromTuple t
  let slot := dpFlowLookup c.flows key
  match slot with
  | some i => if (c.flows.ent i).verdict ≠ .unset then cacheHit c t i len else cacheMiss c t key slot len
  | none => cacheMiss c t key slot len

def dpProcess (c : DpCtx) (p : Packet) : DpCtx × DpResult × Rc :=
  match dpParse p with
  | .error rc =>
    let (c, out) := parseFailed c rc
    (c, out, rc)
  | .ok t =>
    let (c, out) := processTuple c t p.len
    (c, out, .ok)

theorem process_ok {c : DpCtx} {p : Packet} {t : Tuple} (parsed : dpParse p = .ok t) :
    dpProcess c p = ((processTuple c t p.len).1, (processTuple c t p.len).2, .ok) := by
  rw [dpProcess, parsed]

def processAll (c : DpCtx) : List Packet → DpCtx × List (DpResult × Rc)
  | [] => (c, [])
  | p :: ps =>
    let (c, out) := dpProcess c p
    let (c, outs) := processAll c ps
    (c, out :: outs)

theorem countCached_region (c : DpCtx) (r : Option Mem) (dec : Int) :
    countCached { c with region := r } dec = { countCached c dec with region := r } := by
  unfold countCached
  repeat' split
  all_goals rfl

theorem countDecision_region (c : DpCtx) (r : Option Mem) (dec : Int) :
    countDecision { c with region := r } dec = { countDecision c dec with region := r } := by
  unfold countDecision
  repeat' split
  all_goals rfl

theorem cacheMiss_region (c : DpCtx) (r : Option Mem) (t : Tuple) (key : FlowKey) (slot : Option Nat)
    (len : UInt32) :
    cacheMiss { c with region := r } t key slot len =
      ({ (cacheMiss c t key slot len).1 with region := r }, (cacheMiss c t key slot len).2) := by
  unfold cacheMiss
  simp only [← countDecision_region]
  cases slot with
  | some i => rfl
  | none =>
    dsimp only
    cases (dpFlowInsert c.flows key).2 <;> rfl

theorem process_region (c : DpCtx) (r : Option Mem) (p : Packet) :
    dpProcess { c with region := r } p = ({ (dpProcess c p).1 with region := r }, (dpProcess c p).2) := by
  unfold dpProcess
  cases dpParse p with
  | error rc => rfl
  | ok t =>
    unfold processTuple
    dsimp only
    cases dpFlowLookup c.flows (dpFlowKeyFromTuple t) with
    | none => simp only [cacheMiss_region]
    | some i =>
      dsimp only
      split
      · simp only [cacheHit, ← countCached_region]
      · simp only [cacheMiss_region]

theorem processAll_region (c : DpCtx) (r : Option Mem) (ps : List Packet) :
    (processAll { c with region := r } ps).2 = (processAll c ps).2 := by
  induction ps generalizing c with
  | nil => rfl
  | cons p ps ih =>
    simp only [processAll, process_region, ih]

end FfnNgfw.Portable
