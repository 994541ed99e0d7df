import FfnNgfw.Portable.Process

/-!
# Classification in the DPDK fast path

`classify` (`ffn_fastpath_fwd.c`) reads the rows of the policy table in place,
through the packed `struct fp_policy_ent` of a little-endian machine.
-/

namespace FfnNgfw.Fastpath
open Mem Portable

/-- `t->policy[i]`, read as x86 reads it. -/
def fpPolicyEntAt (m : Mem) (row : Nat) : PolicyRow where
  srcIp := ldLe32 m row
  srcMask := ldLe32 m (row + 4)
  dstIp := ldLe32 m (row + 8)
  dstMask := ldLe32 m (row + 12)
  sportLo := ldLe16 m (row + 16)
  sportHi := ldLe16 m (row + 18)
  dportLo := ldLe16 m (row + 20)
  dportHi := ldLe16 m (row + 22)
  proto := m (row + 24)
  vsys := m (row + 25)
  action := m (row + 26)
  flags := m (row + 27)
  egress := ldLe16 m (row + 28)
  ruleId := ldLe16 m (row + 30)

def entAddrMatches (r : PolicyRow) (sip dip : UInt32) : Bool :=
  !(r.srcMask != 0 && (sip &&& r.srcMask) != (r.srcIp &&& r.srcMask)) &&
  !(r.dstMask != 0 && (dip &&& r.dstMask) != (r.dstIp &&& r.dstMask))

/-- No `continue` of the loop is taken. The port ranges apply to every protocol. -/
def entMatches (r : PolicyRow) (vsys : UInt8) (sip dip : UInt32) (sp dp : UInt16) (proto : UInt8) : Bool :=
  !(r.vsys != 0 && r.vsys != vsys) &&
  !(r.proto != 0 && r.proto != proto) &&
  entAddrMatches r sip dip &&
  !(sp < r.sportLo || r.sportHi < sp) &&
  !(dp < r.dportLo || r.dportHi < dp)

def classifySelect (policy : List PolicyRow) (vsys : UInt8) (sip dip : UInt32) (sp dp : UInt16) (proto : UInt8) :
    Option (Nat × PolicyRow) :=
  firstMatch (fun r => entMatches r vsys sip dip sp dp proto) policy

def classify (policy : List PolicyRow) (vsys : UInt8) (sip dip : UInt32) (sp dp : UInt16) (proto : UInt8) :
    Int × UInt16 :=
  match classifySelect policy vsys sip dip sp dp proto with
  | some (_, r) => (r.action.toNat, r.ruleId)
  | none => (fpInspect, 0)

/-! ### The tuple of a worker

`worker` reads the ports of TCP and UDP packets and leaves them 0 otherwise, as
`dp_parse` does. -/

def PortsOfProto (t : Tuple) : Prop := hasPorts t.proto = false → t.sport = 0 ∧ t.dport = 0

theorem parse_portsOfProto {p : Packet} {t : Tuple} (parsed : dpParse p = .ok t) : PortsOfProto t := by
  have inner : ∀ off, dpParseIp p.data p.len.toNat off p.vsys = .ok t → PortsOfProto t := by
    intro off ip noPorts
    unfold dpParseIp at ip
    dsimp only at ip
    split at ip
    · cases ip
    · split at ip
      · rename_i ports
        split at ip
        · cases ip
        · cases ip
          rw [ports] at noPorts
          cases noPorts
      · cases ip
        exact ⟨rfl, rfl⟩
  unfold dpParse at parsed
  dsimp only at parsed
  repeat' split at parsed
  all_goals first
    | cases parsed
    | exact inner _ parsed

end FfnNgfw.Fastpath
