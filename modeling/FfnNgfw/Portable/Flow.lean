import FfnNgfw.Lib.OpenTable
import FfnNgfw.Portable.Tables

/-!
# The flow cache of the portable dataplane

Both directions of a conversation share one key. The cache is an open-addressed
table with linear probing (`ffn_dp_oct.c`), an instance of `Scheme`.
-/

namespace FfnNgfw.Portable

/-! ### Flow keys -/

structure FlowKey where
  ipA : UInt32
  ipB : UInt32
  portA : UInt16
  portB : UInt16
  proto : UInt8
  vsys : UInt8
  deriving DecidableEq

def FlowKey.zero : FlowKey := ⟨0, 0, 0, 0, 0, 0⟩

def Tuple.aFirst (t : Tuple) : Bool :=
  decide (t.srcIp < t.dstIp) || (t.srcIp == t.dstIp && decide (t.sport ≤ t.dport))

def dpFlowKeyFromTuple (t : Tuple) : FlowKey :=
  if t.aFirst then ⟨t.srcIp, t.dstIp, t.sport, t.dport, t.proto, t.vsys⟩
  else ⟨t.dstIp, t.srcIp, t.dport, t.sport, t.proto, t.vsys⟩

/-- Two packets of one conversation: the same 5-tuple and vsys, in either direction. -/
def SameConversation (t u : Tuple) : Prop :=
  t.proto = u.proto ∧ t.vsys = u.vsys ∧
    ((t.srcIp = u.srcIp ∧ t.dstIp = u.dstIp ∧ t.sport = u.sport ∧ t.dport = u.dport) ∨
      (t.srcIp = u.dstIp ∧ t.dstIp = u.srcIp ∧ t.sport = u.dport ∧ t.dport = u.sport))

instance (t u : Tuple) : Decidable (SameConversation t u) := by
  unfold SameConversation
  infer_instance

theorem aFirst_iff (t : Tuple) : t.aFirst = true ↔
    t.srcIp.toNat < t.dstIp.toNat ∨ (t.srcIp.toNat = t.dstIp.toNat ∧ t.sport.toNat ≤ t.dport.toNat) := by
  simp [Tuple.aFirst, UInt32.lt_iff_toNat_lt, UInt16.le_iff_toNat_le, ← UInt32.toNat_inj]

theorem flowKey_eq_iff (t u : Tuple) : dpFlowKeyFromTuple t = dpFlowKeyFromTuple u ↔ SameConversation t u := by
  have ht := aFirst_iff t
  have hu := aFirst_iff u
  unfold dpFlowKeyFromTuple SameConversation
  cases hta : t.aFirst <;> cases hua : u.aFirst
  all_goals
    simp only [hta, hua, Bool.false_eq_true, true_iff, false_iff] at ht hu
    simp only [Bool.false_eq_true, if_false, if_true, FlowKey.mk.injEq, ← UInt32.toNat_inj, ← UInt16.toNat_inj,
      ← UInt8.toNat_inj]
    constructor
    all_goals
      intro h
      omega

inductive Verdict where
  | unset | allow | drop | reset
  deriving DecidableEq

def ffInspect : UInt8 := 0x1

structure FlowEnt where
  key : FlowKey
  used : Bool
  verdict : Verdict
  flags : UInt8
  ruleId : UInt16
  egress : UInt16
  pkts : UInt32
  bytes : UInt64
  deriving DecidableEq

def FlowEnt.zero : FlowEnt := ⟨FlowKey.zero, false, .unset, 0, 0, 0, 0, 0⟩

/-! ### The table -/

structure FlowTable where
  ent : Nat → FlowEnt
  slots : UInt32
  mask : UInt32
  count : UInt32

def dpFlowHash (k : FlowKey) : UInt32 :=
  let bytes : List UInt8 :=
    [k.ipA.toUInt8, (k.ipA >>> 8).toUInt8, (k.ipA >>> 16).toUInt8, (k.ipA >>> 24).toUInt8,
     k.ipB.toUInt8, (k.ipB >>> 8).toUInt8, (k.ipB >>> 16).toUInt8, (k.ipB >>> 24).toUInt8,
     k.portA.toUInt8, (k.portA >>> 8).toUInt8, k.portB.toUInt8, (k.portB >>> 8).toUInt8,
     k.proto, k.vsys]
  bytes.foldl (fun h b => (h ^^^ b.toUInt32) * 16777619) 2166136261

/-- `(hash & mask) + probe`, masked, for `probe` from 0 to `mask`. -/
def flowScheme (mask : UInt32) : Scheme FlowKey FlowEnt where
  used := FlowEnt.used
  key := FlowEnt.key
  slot k probe := (((dpFlowHash k &&& mask) + UInt32.ofNat probe) &&& mask).toNat
  probes := mask.toNat + 1

def FlowTable.probe (ft : FlowTable) (k : FlowKey) : Probe := (flowScheme ft.mask).probe ft.ent k

def dpFlowLookup (ft : FlowTable) (k : FlowKey) : Option Nat :=
  match ft.probe k with
  | .hit i => some i
  | _ => none

def FlowTable.set (ft : FlowTable) (i : Nat) (e : FlowEnt) : FlowTable :=
  { ft with ent := Function.update ft.ent i e }

/-- The slot of the entry for `k`, new or old; `none` when the table is full. -/
def dpFlowInsert (ft : FlowTable) (k : FlowKey) : FlowTable × Option Nat :=
  match ft.probe k with
  | .free i => ({ ft.set i { FlowEnt.zero with key := k, used := true } with count := ft.count + 1 }, some i)
  | .hit i => (ft, some i)
  | .full => (ft, none)

def dpFlowFlush (ft : FlowTable) : FlowTable := { ft with ent := fun _ => FlowEnt.zero, count := 0 }

/-- `while (p < slots) p <<= 1;`. A request above 2^31 shifts the bit out, and the
loop never ends: `none`. -/
def flowSize (slots : UInt32) : Nat → UInt32 → Option UInt32
  | 0, _ => none
  | fuel + 1, p => if p < slots then flowSize slots fuel (p <<< 1) else some p

/-- `calloc` says whether the allocation succeeds. -/
def dpFlowInit (calloc : Bool) (slots : UInt32) : Option (FlowTable × Rc) :=
  (flowSize slots 33 1).map fun p =>
    (⟨fun _ => FlowEnt.zero, p, p - 1, 0⟩, if calloc then .ok else .errNoMem)

def FlowTable.Wf (ft : FlowTable) : Prop := (flowScheme ft.mask).Wf ft.ent

def FlowTable.get (ft : FlowTable) (k : FlowKey) : Option FlowEnt := (flowScheme ft.mask).get ft.ent k

theorem wf_zero {ft : FlowTable} (empty : ft.ent = fun _ => FlowEnt.zero) : ft.Wf := by
  intro j used
  rw [empty] at used
  cases used

end FfnNgfw.Portable
