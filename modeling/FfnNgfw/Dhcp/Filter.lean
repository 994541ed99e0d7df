import FfnNgfw.Dhcp.Server
import FfnNgfw.Lib.ClassicBpf

/-!
# The socket filter of the DHCP server

The program the kernel runs on every frame before `parse` sees it: what it lets through, said
without its jumps, and that nothing `parse` would take is held back.
-/

namespace FfnNgfw.Dhcp

open Instruction

def ethArp : UInt32 := 0x0806

def ethIp : UInt32 := 0x0800

def instructions (probe : Bool) : List Instruction := [
  ⟨0x28, 0, 0, 12⟩,
  if probe then ⟨0x15, 0, 2, ethArp⟩ else ⟨0x15, 11, 2, ethArp⟩,
  ⟨0x28, 0, 0, 20⟩,
  ⟨0x15, 8, 9, 2⟩,
  ⟨0x15, 0, 8, ethIp⟩,
  ⟨0x30, 0, 0, 23⟩,
  ⟨0x15, 0, 6, 17⟩,
  ⟨0x28, 0, 0, 20⟩,
  ⟨0x45, 4, 0, 0x1fff⟩,
  ⟨0xb1, 0, 0, 14⟩,
  ⟨0x48, 0, 0, 16⟩,
  ⟨0x15, 0, 1, 67⟩,
  ⟨0x06, 0, 0, 65535⟩,
  ⟨0x06, 0, 0, 0⟩]

/-- The program in the byte order of the host, and its number of instructions. -/
def bpfProgram (order : ByteOrder) (probe : Bool) : List UInt8 × Nat :=
  ((instructions probe).flatMap (pack order), (instructions probe).length)

def accepts (order : ByteOrder) (probe : Bool) (frame : List UInt8) : Prop :=
  filter order (bpfProgram order probe).1 (bpfProgram order probe).2 frame ≠ 0

structure ToServer (frame : List UInt8) : Prop where
  ip : field 2 frame 12 = some 0x0800
  udp : field 1 frame 23 = some 17
  first : ∃ flags, field 2 frame 20 = some flags ∧ flags % 0x2000 = 0
  port : ∃ header, field 1 frame 14 = some header ∧ field 2 frame (14 + header % 16 * 4 + 2) = some 67

structure ArpReply (frame : List UInt8) : Prop where
  arp : field 2 frame 12 = some 0x0806
  opcode : field 2 frame 20 = some 2

/-! ### The program, from its end -/

variable {frame : List UInt8}

theorem keeps_none (r : Registers) : ¬ Keeps frame [⟨0x06, 0, 0, 0⟩] r := by
  intro kept
  exact (keeps_ret rfl).mp kept rfl

theorem keeps_all (r : Registers) : Keeps frame [⟨0x06, 0, 0, 65535⟩, ⟨0x06, 0, 0, 0⟩] r :=
  (keeps_ret rfl).mpr (by decide)

theorem keeps_port (probe : Bool) (r : Registers) :
    Keeps frame ((instructions probe).drop 9) r ↔
      ∃ header, field 1 frame 14 = some header ∧ field 2 frame (14 + header % 16 * 4 + 2) = some 67 := by
  refine (keeps_header rfl).trans (exists_congr fun header => and_congr_right fun _ => ?_)
  have offset : (UInt32.ofNat (header % 16 * 4) + 16).toNat = 14 + header % 16 * 4 + 2 := by
    rw [UInt32.toNat_add, UInt32.toNat_ofNat', show (16 : UInt32).toNat = 16 from rfl]
    omega
  rw [← offset]
  exact (keeps_expect rfl rfl (by decide) rfl keeps_none).trans (and_iff_left (keeps_all _))

theorem keeps_first (probe : Bool) (r : Registers) :
    Keeps frame ((instructions probe).drop 7) r ↔
      (∃ flags, field 2 frame 20 = some flags ∧ flags % 0x2000 = 0) ∧
        ∃ header, field 1 frame 14 = some header ∧ field 2 frame (14 + header % 16 * 4 + 2) = some 67 := by
  rw [← exists_and_right]
  refine (keeps_load rfl).trans (exists_congr fun flags => ?_)
  rw [and_assoc]
  refine and_congr_right fun read => ?_
  have later : Test.set.holds (UInt32.ofNat flags) 0x1fff ↔ flags % 0x2000 ≠ 0 := by
    rw [Test.holds, bne_iff_ne, ne_eq, ← UInt32.toNat_inj, UInt32.toNat_and, toNat_field read (by decide)]
    exact not_congr (by rw [show (0x1fff : UInt32).toNat = 2 ^ 13 - 1 from rfl, Nat.and_two_pow_sub_one_eq_mod]; rfl)
  by_cases first : flags % 0x2000 = 0
  · rw [and_iff_right first, ← keeps_port probe]
    exact keeps_passed rfl fun set => later.mp set first
  · refine (keeps_taken rfl (later.mpr first)).trans ?_
    exact iff_of_false (keeps_none _) fun wanted => first wanted.1

theorem keeps_udp (probe : Bool) (r : Registers) (ip : field 2 frame 12 = some 0x0800) :
    Keeps frame ((instructions probe).drop 5) r ↔ ToServer frame := by
  refine (keeps_expect rfl rfl (by decide) rfl keeps_none).trans ?_
  constructor
  · intro ⟨udp, kept⟩
    obtain ⟨first, port⟩ := (keeps_first probe _).mp kept
    exact ⟨ip, udp, first, port⟩
  · intro server
    exact ⟨server.udp, (keeps_first probe _).mpr ⟨server.first, server.port⟩⟩

theorem keeps_arp (probe : Bool) (r : Registers) (arp : field 2 frame 12 = some 0x0806) :
    Keeps frame ((instructions probe).drop 2) r ↔ ArpReply frame := by
  refine (keeps_expect rfl rfl (by decide) rfl keeps_none).trans ?_
  constructor
  · intro ⟨opcode, _⟩
    exact ⟨arp, opcode⟩
  · intro reply
    exact ⟨reply.opcode, keeps_all _⟩

theorem keeps_ip (probe : Bool) {ethertype : Nat} (read : field 2 frame 12 = some ethertype) (x : UInt32) :
    Keeps frame ((instructions probe).drop 4) ⟨UInt32.ofNat ethertype, x⟩ ↔ ToServer frame := by
  have decided := field_holds_eq read (by decide) ethIp
  by_cases same : ethertype = ethIp.toNat
  · rw [same] at read
    exact (keeps_taken rfl (decided.mpr same)).trans (keeps_udp probe _ read)
  · refine (keeps_passed rfl fun holds => same (decided.mp holds)).trans ?_
    refine iff_of_false (keeps_none _) fun server => same ?_
    exact Option.some.inj (read.symm.trans server.ip)

theorem keeps_ethertype (probe : Bool) {ethertype : Nat} (read : field 2 frame 12 = some ethertype) (x : UInt32) :
    Keeps frame ((instructions probe).drop 1) ⟨UInt32.ofNat ethertype, x⟩ ↔ ToServer frame ∨ (probe ∧ ArpReply frame) := by
  have decided := field_holds_eq read (by decide) ethArp
  by_cases arp : ethertype = ethArp.toNat
  · have other : ¬ ToServer frame := by
      intro server
      rw [arp] at read
      exact absurd (read.symm.trans server.ip) (by decide)
    rw [or_iff_right other]
    cases probe with
    | true =>
      rw [arp] at read
      refine (keeps_taken rfl (decided.mpr arp)).trans ((keeps_arp true _ read).trans ?_)
      simp
    | false =>
      refine (keeps_taken rfl (decided.mpr arp)).trans ?_
      exact iff_of_false (keeps_none _) fun wanted => absurd wanted.1 (by decide)
  · have silent : ¬ ArpReply frame := fun reply => arp (Option.some.inj (read.symm.trans reply.arp))
    rw [or_iff_left fun wanted => silent wanted.2, ← keeps_ip probe read x]
    cases probe <;> exact keeps_passed rfl fun holds => arp (decided.mp holds)

theorem keeps_instructions (probe : Bool) (r : Registers) :
    Keeps frame (instructions probe) r ↔ ToServer frame ∨ (probe ∧ ArpReply frame) := by
  refine (keeps_load rfl).trans ?_
  constructor
  · intro ⟨ethertype, read, kept⟩
    exact (keeps_ethertype probe read r.x).mp kept
  · intro wanted
    have ⟨ethertype, read⟩ : ∃ ethertype, field 2 frame 12 = some ethertype := by
      cases wanted with
      | inl server => exact ⟨_, server.ip⟩
      | inr probed => exact ⟨_, probed.2.arp⟩
    exact ⟨ethertype, read, (keeps_ethertype probe read r.x).mpr wanted⟩

theorem accepts_wanted (order : ByteOrder) (probe : Bool) (frame : List UInt8) :
    accepts order probe frame ↔ ToServer frame ∨ (probe ∧ ArpReply frame) := by
  rw [← keeps_instructions probe ⟨0, 0⟩, accepts, filter, bpfProgram, unpackAll_pack]
  rfl

theorem field_half {offset : Nat} (inside : offset + 2 ≤ frame.length) : field 2 frame offset = some (number16 frame offset) :=
  if_pos inside

theorem field_byte {offset : Nat} (inside : offset < frame.length) : field 1 frame offset = some (frame.getD offset 0).toNat := by
  have byte : slice frame offset 1 = [frame.getD offset 0] := by
    rw [slice, List.take_one_drop_eq_of_lt_length inside]
    simp [inside]
  rw [field, if_pos (Nat.succ_le_of_lt inside), byte]
  simp [ByteOrder.fromBytes, ByteOrder.arrange]

theorem parse_toServer {m : Message} (parsed : parse frame = some m) : ToServer frame := by
  unfold parse at parsed
  split at parsed
  · cases parsed
  next long =>
  split at parsed
  · cases parsed
  next ip =>
  dsimp only at parsed
  split at parsed
  · cases parsed
  next header =>
  simp only [not_or, not_lt, ne_eq, not_not] at long ip header
  split at parsed
  · cases parsed
  next inside =>
  split at parsed
  · cases parsed
  next port =>
  have number : number16 frame 12 = 0x0800 := by rw [number16, ip]; decide
  refine ⟨?_, ?_, ⟨_, field_half (by omega), header.2.2⟩, ⟨_, field_byte (by omega), ?_⟩⟩
  · rw [field_half (by omega), number]
  · rw [field_byte (by omega), header.2.1]
    rfl
  · rw [field_half (by omega), not_not.mp port]

/-- The filter takes UDP to port 67 in unfragmented IPv4 and, while probing, ARP replies; every frame
that parses passes it. -/
theorem filter_agrees (order : ByteOrder) (probe : Bool) (frame : List UInt8) :
    (accepts order probe frame ↔ ToServer frame ∨ (probe ∧ ArpReply frame)) ∧
      (∀ m, parse frame = some m → accepts order probe frame) := by
  refine ⟨accepts_wanted order probe frame, fun m parsed => ?_⟩
  exact (accepts_wanted order probe frame).mpr (.inl (parse_toServer parsed))

end FfnNgfw.Dhcp
