import FfnNgfw.Ha.Core
import FfnNgfw.Lib.Endpoints
import FfnNgfw.Portable.Flow

/-!
# One key for each conversation

`dp_flow_key_from_tuple` and `ffn_ha_normalize_key` order the two ends of a packet by
address and, between equal addresses, by port. No two ends have one rank, so the keys
are equal exactly for packets of one conversation.
-/

namespace FfnNgfw.Portable

def dpKeyEq (a b : FlowKey) : Bool :=
  a.ipA == b.ipA && a.ipB == b.ipB && a.portA == b.portA && a.portB == b.portB && a.proto == b.proto &&
    a.vsys == b.vsys

theorem dpKeyEq_iff (a b : FlowKey) : dpKeyEq a b = true ↔ a = b := by
  cases a
  cases b
  simp only [dpKeyEq, Bool.and_eq_true, beq_iff_eq, FlowKey.mk.injEq, and_assoc]

end FfnNgfw.Portable

namespace FfnNgfw.Ha

/-- The arguments of `ffn_ha_normalize_key`. -/
structure FiveTuple where
  sip : UInt32
  dip : UInt32
  sport : UInt16
  dport : UInt16
  proto : UInt8
  deriving DecidableEq

namespace FiveTuple

def key (t : FiveTuple) : FlowKey := normalizeKey t.sip t.dip t.sport t.dport t.proto

def reverse (t : FiveTuple) : FiveTuple := { t with sip := t.dip, dip := t.sip, sport := t.dport, dport := t.sport }

def source (t : FiveTuple) : UInt32 × UInt16 := (t.sip, t.sport)

def destination (t : FiveTuple) : UInt32 × UInt16 := (t.dip, t.dport)

end FiveTuple

def endRank (e : UInt32 × UInt16) : Nat := e.1.toNat * 65536 + e.2.toNat

theorem endRank_injective : Function.Injective endRank := by
  intro ⟨ip, port⟩ ⟨ip', port'⟩ same
  have low := port.toNat_lt
  have low' := port'.toNat_lt
  simp only [endRank] at same
  have address : ip.toNat = ip'.toNat := by omega
  have number : port.toNat = port'.toNat := by omega
  rw [UInt32.toNat_inj.mp address, UInt16.toNat_inj.mp number]

theorem endRank_le (t : FiveTuple) : endRank t.source ≤ endRank t.destination ↔
    t.sip < t.dip ∨ (t.sip = t.dip ∧ t.sport ≤ t.dport) := by
  have low := t.sport.toNat_lt
  have low' := t.dport.toNat_lt
  simp only [endRank, FiveTuple.source, FiveTuple.destination, UInt32.lt_iff_toNat_lt, UInt16.le_iff_toNat_le,
    ← UInt32.toNat_inj]
  omega

def FlowKey.ofEnds (proto : UInt8) (ends : (UInt32 × UInt16) × (UInt32 × UInt16)) : FlowKey :=
  ⟨ends.1.1, ends.2.1, ends.1.2, ends.2.2, proto⟩

theorem ofEnds_eq {proto proto' : UInt8} {ends ends' : (UInt32 × UInt16) × (UInt32 × UInt16)} :
    FlowKey.ofEnds proto ends = FlowKey.ofEnds proto' ends' ↔ proto = proto' ∧ ends = ends' := by
  obtain ⟨⟨a, pa⟩, b, pb⟩ := ends
  obtain ⟨⟨c, pc⟩, d, pd⟩ := ends'
  simp only [FlowKey.ofEnds, FlowKey.mk.injEq, Prod.mk.injEq]
  constructor
  · rintro ⟨rfl, rfl, rfl, rfl, rfl⟩
    simp
  · rintro ⟨rfl, ⟨rfl, rfl⟩, rfl, rfl⟩
    simp

theorem key_ofEnds (t : FiveTuple) : t.key = .ofEnds t.proto (sortEnds endRank t.source t.destination) := by
  rw [FiveTuple.key, normalizeKey]
  by_cases ordered : t.sip < t.dip ∨ (t.sip = t.dip ∧ t.sport ≤ t.dport)
  · rw [if_pos ordered, SortEnds.of_le ((endRank_le t).mpr ordered)]
    rfl
  · rw [if_neg ordered, SortEnds.of_lt (Nat.lt_of_not_le (ordered ∘ (endRank_le t).mp))]
    rfl

theorem key_eq_iff (t u : FiveTuple) : t.key = u.key ↔ u = t ∨ u = t.reverse := by
  rw [key_ofEnds, key_ofEnds, ofEnds_eq, SortEnds.eq_iff endRank_injective]
  cases t
  cases u
  simp only [FiveTuple.source, FiveTuple.destination, FiveTuple.reverse, Sym2.eq_iff, Prod.mk.injEq,
    FiveTuple.mk.injEq]
  constructor
  · rintro ⟨rfl, ⟨⟨rfl, rfl⟩, rfl, rfl⟩ | ⟨⟨rfl, rfl⟩, rfl, rfl⟩⟩
    · exact .inl ⟨rfl, rfl, rfl, rfl, rfl⟩
    · exact .inr ⟨rfl, rfl, rfl, rfl, rfl⟩
  · rintro (⟨rfl, rfl, rfl, rfl, rfl⟩ | ⟨rfl, rfl, rfl, rfl, rfl⟩)
    · exact ⟨rfl, .inl ⟨⟨rfl, rfl⟩, rfl, rfl⟩⟩
    · exact ⟨rfl, .inr ⟨⟨rfl, rfl⟩, rfl, rfl⟩⟩

end FfnNgfw.Ha

namespace FfnNgfw.Portable

/-- Both keys are equal for the packets of one conversation and for no others. -/
theorem keys_identify_conversations :
    (∀ t u : Tuple, dpKeyEq (dpFlowKeyFromTuple t) (dpFlowKeyFromTuple u) = true ↔
      t.proto = u.proto ∧ t.vsys = u.vsys ∧
        ((u.srcIp = t.srcIp ∧ u.sport = t.sport ∧ u.dstIp = t.dstIp ∧ u.dport = t.dport) ∨
          (u.srcIp = t.dstIp ∧ u.sport = t.dport ∧ u.dstIp = t.srcIp ∧ u.dport = t.sport))) ∧
    (∀ t u : Ha.FiveTuple, t.key = u.key ↔ u = t ∨ u = t.reverse) := by
  refine ⟨fun t u => ?_, Ha.key_eq_iff⟩
  rw [dpKeyEq_iff, flowKey_eq_iff, SameConversation]
  constructor
  · rintro ⟨proto, vsys, ⟨src, dst, sport, dport⟩ | ⟨src, dst, sport, dport⟩⟩
    · exact ⟨proto, vsys, .inl ⟨src.symm, sport.symm, dst.symm, dport.symm⟩⟩
    · exact ⟨proto, vsys, .inr ⟨dst.symm, dport.symm, src.symm, sport.symm⟩⟩
  · rintro ⟨proto, vsys, ⟨src, sport, dst, dport⟩ | ⟨src, sport, dst, dport⟩⟩
    · exact ⟨proto, vsys, .inl ⟨src.symm, dst.symm, sport.symm, dport.symm⟩⟩
    · exact ⟨proto, vsys, .inr ⟨dst.symm, src.symm, dport.symm, sport.symm⟩⟩

end FfnNgfw.Portable
