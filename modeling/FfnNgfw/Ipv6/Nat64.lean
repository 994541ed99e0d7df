import FfnNgfw.Ipv6.Embedding
import FfnNgfw.Lib.OnesComplement

/-!
# NAT64 packets

`nat64_packet` turns a TCP, UDP or echo packet of one IP version into one of the other.
What it takes from a header is a `Datagram`; `readPacket` says which packets are well
formed and what they carry, and `emit` writes one.
-/

namespace FfnNgfw.Ipv6
open OnesComplement (checksum total putWord wordAt)

/-- `ipaddress.ip_address` -/
inductive IPAddress where
  | v4 (address : UInt32)
  | v6 (address : IPv6Address)

namespace IPAddress

def version : IPAddress → Nat
  | v4 _ => 4
  | v6 _ => 6

def packed : IPAddress → List UInt8
  | v4 a => ByteOrder.big.toBytes 4 a.toNat
  | v6 a => a.packed

end IPAddress

/-! ### Headers -/

/-- A packet without the flow label, the identification and the checksum of its header. -/
structure Datagram where
  version : Nat
  source : List UInt8
  destination : List UInt8
  traffic : Nat
  ttl : Nat
  protocol : Nat
  payload : List UInt8

def byte (n : Nat) : List UInt8 := ByteOrder.big.toBytes 1 n

def word (n : Nat) : List UInt8 := ByteOrder.big.toBytes 2 n

namespace Datagram

def pseudo (d : Datagram) : List UInt8 :=
  if d.version = 6 then d.source ++ d.destination ++ ByteOrder.big.toBytes 4 d.payload.length ++ [0, 0, 0] ++ byte d.protocol
  else if d.protocol ≠ 1 then d.source ++ d.destination ++ byte 0 ++ byte d.protocol ++ word d.payload.length
  else []

def header (d : Datagram) : List UInt8 :=
  if d.version = 4 then
    let header := byte 0x45 ++ byte d.traffic ++ word (20 + d.payload.length) ++ word 0 ++ word 0x4000 ++
      byte d.ttl ++ byte d.protocol ++
      word 0 ++ d.source ++ d.destination
    putWord header 10 (checksum header)
  else
    ByteOrder.big.toBytes 4 (0x60000000 ||| d.traffic <<< 20) ++ word d.payload.length ++ byte d.protocol ++
      byte d.ttl ++ d.source ++ d.destination

def emit (d : Datagram) : List UInt8 := d.header ++ d.payload

end Datagram

/-- The header of the packet, for a translation to the version of `source`. -/
def inbound (packet : List UInt8) (source : IPAddress) : Except String Datagram :=
  let version := packet.getD 0 0 >>> 4
  if version = 6 then
    if packet.length < 40 ∨ packet.length ≠ 40 + ByteOrder.big.fromBytes (slice packet 4 2) then throw "Incomplete IPv6 packet"
    else
      let d : Datagram :=
        { version := 6, source := slice packet 8 16, destination := slice packet 24 16,
          traffic := (ByteOrder.big.fromBytes (packet.take 4) >>> 20) &&& 255, ttl := (packet.getD 7 0).toNat,
          protocol := (packet.getD 6 0).toNat, payload := packet.drop 40 }
      if source.version ≠ 4 ∨ d.protocol ∉ [6, 17, 58] then throw "NAT64 oracle does not support IPv6 extensions or this protocol"
      else return d
  else if version = 4 then
    if packet.length < 20 ∨ packet.getD 0 0 ≠ 0x45 ∨ packet.length ≠ ByteOrder.big.fromBytes (slice packet 2 2) ∨
        checksum (packet.take 20) ≠ 0 then throw "Invalid or unsupported IPv4 header"
    else if ByteOrder.big.fromBytes (slice packet 6 2) &&& 0xbfff ≠ 0 then
      throw "NAT64 oracle requires unfragmented IPv4 without options"
    else
      let d : Datagram :=
        { version := 4, source := slice packet 12 4, destination := slice packet 16 4, traffic := (packet.getD 1 0).toNat,
          ttl := (packet.getD 8 0).toNat, protocol := (packet.getD 9 0).toNat, payload := packet.drop 20 }
      if source.version ≠ 6 ∨ d.protocol ∉ [6, 17, 1] then throw "Unsupported NAT64 input protocol"
      else return d
  else throw "Unsupported input IP version"

def putPort (payload : List UInt8) (port : Option Int) (index : Nat) : Except String (List UInt8) :=
  match port with
  | none => return payload
  | some port => if 1 ≤ port ∧ port ≤ 65535 then return putWord payload index port.toNat else throw "Invalid translated port"

def echoType (version : Nat) (type : UInt8) : Option UInt8 :=
  if version = 6 then if type = 128 then some 8 else if type = 129 then some 0 else none
  else if type = 8 then some 128 else if type = 0 then some 129 else none

/-- The payload, where its checksum stands, and the protocol of the output. -/
def rewriteTransport (d : Datagram) (sourcePort destinationPort : Option Int) : Except String (List UInt8 × Nat × Nat) :=
  let payload := d.payload
  let invalid := checksum (d.pseudo ++ payload) ≠ 0
  if d.protocol = 6 ∨ d.protocol = 17 then
    let (minimum, offset) := if d.protocol = 6 then (20, 16) else (8, 6)
    let size := (payload.getD 12 0 >>> 4).toNat * 4
    let zero := slice payload offset 2 = [0, 0]
    if payload.length < minimum then throw "Truncated transport header"
    else if d.protocol = 6 ∧ ¬(20 ≤ size ∧ size ≤ payload.length) then throw "Invalid TCP header size"
    else if d.protocol = 17 ∧ ByteOrder.big.fromBytes (slice payload 4 2) ≠ payload.length then throw "Invalid UDP length"
    else if d.protocol = 17 ∧ d.version = 6 ∧ zero then throw "IPv6 UDP checksum is required"
    else if ¬(d.protocol = 17 ∧ d.version = 4 ∧ zero) ∧ invalid then throw "Invalid transport checksum"
    else do
      let payload ← putPort payload sourcePort 0
      let payload ← putPort payload destinationPort 2
      return (payload, offset, d.protocol)
  else if sourcePort.isSome ∨ destinationPort.isSome then throw "ICMP identifiers require a separate binding allocator"
  else if payload.length < 8 ∨ payload.getD 1 0 ≠ 0 ∨ invalid then throw "Invalid ICMP echo packet"
  else
    match echoType d.version (payload.getD 0 0) with
    | none => throw "NAT64 ICMP error translation is not qualified"
    | some type => return (payload.set 0 type, 2, if d.version = 6 then 1 else 58)

def nat64Packet (packet : List UInt8) (source destination : IPAddress) (sourcePort destinationPort : Option Int) :
    Except String (List UInt8) := do
  if source.version ≠ destination.version ∨ packet = [] ∨ (packet.getD 0 0 >>> 4).toNat = source.version then
    throw "NAT64 must change IP version"
  else
    let d ← inbound packet source
    if d.ttl ≤ 1 then throw "NAT64 hop limit expired; provider must generate ICMP"
    else
      let (payload, offset, protocol) ← rewriteTransport d sourcePort destinationPort
      let payload := putWord payload offset 0
      if source.version = 4 ∧ payload.length > 65515 then throw "NAT64 packet requires fragmentation"
      else
        let out : Datagram :=
          { version := source.version, source := source.packed, destination := destination.packed, traffic := d.traffic,
            ttl := d.ttl - 1, protocol := protocol, payload := payload }
        let value := checksum (out.pseudo ++ payload)
        return out.header ++ putWord payload offset (if protocol = 17 then if value ≠ 0 then value else 65535 else value)

/-! ### Well-formed packets -/

/-- What a well-formed packet carries; an IPv4 packet has no options and is no fragment. -/
def readPacket (packet : List UInt8) : Option Datagram :=
  if packet.getD 0 0 >>> 4 = 6 then
    if 40 ≤ packet.length ∧ packet.length = 40 + wordAt packet 4 then
      some { version := 6, source := slice packet 8 16, destination := slice packet 24 16,
             traffic := ByteOrder.big.fromBytes (packet.take 4) / 2 ^ 20 % 256, ttl := (packet.getD 7 0).toNat,
             protocol := (packet.getD 6 0).toNat, payload := packet.drop 40 }
    else none
  else if packet.getD 0 0 = 0x45 ∧ 20 ≤ packet.length ∧ packet.length = wordAt packet 2 ∧ checksum (packet.take 20) = 0 ∧
      wordAt packet 6 &&& 0xbfff = 0 then
    some { version := 4, source := slice packet 12 4, destination := slice packet 16 4, traffic := (packet.getD 1 0).toNat,
           ttl := (packet.getD 8 0).toNat, protocol := (packet.getD 9 0).toNat, payload := packet.drop 20 }
  else none

structure Datagram.Fits (d : Datagram) : Prop where
  version : d.version = 4 ∨ d.version = 6
  source : d.source.length = if d.version = 4 then 4 else 16
  destination : d.destination.length = if d.version = 4 then 4 else 16
  traffic : d.traffic < 256
  ttl : d.ttl < 256
  protocol : d.protocol < 256
  payload : d.payload.length ≤ if d.version = 4 then 65515 else 65535

theorem byte_toNat {n : Nat} (small : n < 256) : (UInt8.ofNat (n % 256)).toNat = n := by
  rw [UInt8.toNat_ofNat', Nat.mod_mod, Nat.mod_eq_of_lt small]

theorem wordAt_front {front rest : List UInt8} {n offset : Nat} (place : front.length = offset) (small : n < 65536) :
    wordAt (front ++ word n ++ rest) offset = n := by
  unfold wordAt word
  rw [slice_append place (ByteOrder.toBytes_length _ _ _), ByteOrder.fromBytes_toBytes _ small]

def front4 (d : Datagram) (sum : Nat) : List UInt8 :=
  byte 0x45 ++ byte d.traffic ++ word (20 + d.payload.length) ++ word 0 ++ word 0x4000 ++ byte d.ttl ++ byte d.protocol ++ word sum

def front6 (d : Datagram) : List UInt8 :=
  ByteOrder.big.toBytes 4 (0x60000000 ||| d.traffic <<< 20) ++ word d.payload.length ++ byte d.protocol ++ byte d.ttl

theorem header4 {d : Datagram} (version : d.version = 4) :
    ∃ sum, d.header = front4 d sum ++ d.source ++ d.destination ∧ checksum d.header = 0 := by
  have put : ∀ old new, putWord (front4 d old ++ d.source ++ d.destination) 10 new = front4 d new ++ d.source ++ d.destination := by
    intro old new
    have parts := @OnesComplement.putWord_front 10 (byte 0x45 ++ byte d.traffic ++ word (20 + d.payload.length) ++
        word 0 ++ word 0x4000 ++
      byte d.ttl ++ byte d.protocol) (word old) (d.source ++ d.destination) rfl rfl new
    rw [List.append_assoc, List.append_assoc]
    exact parts
  have blank := put 0 0
  have header : d.header =
      putWord (front4 d 0 ++ d.source ++ d.destination) 10 (checksum (front4 d 0 ++ d.source ++ d.destination)) := by
    unfold Datagram.header
    rw [if_pos version]
    rfl
  have filled := @OnesComplement.checksum_filled (front4 d 0 ++ d.source ++ d.destination) 10 [] rfl rfl (by
    rw [List.length_append, List.length_append]
    have twelve : (front4 d 0).length = 12 := rfl
    omega)
  rw [List.nil_append, List.nil_append, blank, ← header] at filled
  exact ⟨_, header.trans (put _ _), filled⟩

theorem header6 {d : Datagram} (version : d.version = 6) : d.header = front6 d ++ d.source ++ d.destination := by
  unfold Datagram.header
  rw [if_neg (by omega)]
  rfl

theorem flowless {traffic : Nat} (small : traffic < 256) : 0x60000000 ||| traffic <<< 20 = 0x60000000 + traffic * 2 ^ 20 := by
  have low : traffic * 2 ^ 20 < 2 ^ 29 := by omega
  have high : 0x60000000 = 2 ^ 29 * 3 := rfl
  rw [Nat.shiftLeft_eq, high, ← Nat.two_pow_add_eq_or_of_lt low]

theorem readPacket_emit {d : Datagram} (fits : d.Fits) : readPacket d.emit = some d := by
  obtain ⟨version, source, destination, traffic, ttl, protocol, payload⟩ := fits
  rcases version with version | version
  · rw [if_pos version] at source destination payload
    obtain ⟨sum, header, valid⟩ := header4 version
    have twelve : (front4 d sum).length = 12 := rfl
    have emitted : d.emit = front4 d sum ++ d.source ++ d.destination ++ d.payload := by
      rw [Datagram.emit, header]
    have length : d.emit.length = 20 + d.payload.length := by
      rw [emitted, List.length_append, List.length_append, List.length_append, twelve, source, destination]
    have total : wordAt d.emit 2 = 20 + d.payload.length := by
      have parts : d.emit = (byte 0x45 ++ byte d.traffic) ++ word (20 + d.payload.length) ++ (word 0 ++ word 0x4000 ++ byte d.ttl ++
          byte d.protocol ++ word sum ++ d.source ++ d.destination ++ d.payload) := by
        rw [emitted]
        simp only [front4, List.append_assoc]
      rw [parts]
      exact wordAt_front rfl (by omega)
    have flags : wordAt d.emit 6 = 0x4000 := by
      have parts : d.emit = (byte 0x45 ++ byte d.traffic ++ word (20 + d.payload.length) ++ word 0) ++ word 0x4000 ++ (byte d.ttl ++
          byte d.protocol ++ word sum ++ d.source ++ d.destination ++ d.payload) := by
        rw [emitted]
        simp only [front4, List.append_assoc]
      rw [parts]
      exact wordAt_front rfl (by decide)
    have first : d.emit.getD 0 0 = 0x45 := by rw [emitted]; rfl
    have whole : d.emit.take 20 = d.header := by
      rw [Datagram.emit]
      exact List.take_left' (by rw [header, List.length_append, List.length_append, twelve, source, destination])
    have sourceAt : slice d.emit 12 4 = d.source := by
      rw [emitted, List.append_assoc _ d.destination]
      exact slice_append twelve source
    have destinationAt : slice d.emit 16 4 = d.destination := by
      rw [emitted]
      exact slice_append (by rw [List.length_append, twelve, source]) destination
    have rest : d.emit.drop 20 = d.payload := by
      rw [emitted]
      exact List.drop_left' (by rw [List.length_append, List.length_append, twelve, source, destination])
    have trafficAt : d.emit.getD 1 0 = UInt8.ofNat (d.traffic % 256) := by rw [emitted]; rfl
    have ttlAt : d.emit.getD 8 0 = UInt8.ofNat (d.ttl % 256) := by rw [emitted]; rfl
    have protocolAt : d.emit.getD 9 0 = UInt8.ofNat (d.protocol % 256) := by rw [emitted]; rfl
    unfold readPacket
    rw [if_neg (by rw [first]; decide), if_pos ⟨first, by omega, by rw [length, total], by rw [whole, valid], by rw [flags]; decide⟩,
      sourceAt, destinationAt, trafficAt, ttlAt, protocolAt, rest, byte_toNat traffic, byte_toNat ttl, byte_toNat protocol, ← version]
  · rw [if_neg (by omega)] at source destination payload
    have header := header6 version
    have eight : (front6 d).length = 8 := rfl
    have emitted : d.emit = front6 d ++ d.source ++ d.destination ++ d.payload := by
      rw [Datagram.emit, header]
    have length : d.emit.length = 40 + d.payload.length := by
      rw [emitted, List.length_append, List.length_append, List.length_append, eight, source, destination]
    have size : wordAt d.emit 4 = d.payload.length := by
      have parts : d.emit = ByteOrder.big.toBytes 4 (0x60000000 ||| d.traffic <<< 20) ++ word d.payload.length ++ (byte d.protocol ++
          byte d.ttl ++ d.source ++ d.destination ++ d.payload) := by
        rw [emitted]
        simp only [front6, List.append_assoc]
      rw [parts]
      exact wordAt_front rfl (by omega)
    have leading : d.emit.take 4 = ByteOrder.big.toBytes 4 (0x60000000 + d.traffic * 2 ^ 20) := by
      rw [emitted, ← flowless traffic]
      rfl
    have first : d.emit.getD 0 0 >>> 4 = 6 := by
      have byte : d.emit.getD 0 0 = UInt8.ofNat ((0x60000000 + d.traffic * 2 ^ 20) / 256 / 256 / 256 % 256) := by
        rw [emitted, ← flowless traffic]
        rfl
      rw [byte, ← UInt8.toNat_inj, UInt8.toNat_shiftRight, UInt8.toNat_ofNat', Nat.shiftRight_eq_div_pow]
      have four : (4 : UInt8).toNat % 8 = 4 := rfl
      have six : (6 : UInt8).toNat = 6 := rfl
      rw [four, six]
      omega
    have sourceAt : slice d.emit 8 16 = d.source := by
      rw [emitted, List.append_assoc _ d.destination]
      exact slice_append eight source
    have destinationAt : slice d.emit 24 16 = d.destination := by
      rw [emitted]
      exact slice_append (by rw [List.length_append, eight, source]) destination
    have rest : d.emit.drop 40 = d.payload := by
      rw [emitted]
      exact List.drop_left' (by rw [List.length_append, List.length_append, eight, source, destination])
    have ttlAt : d.emit.getD 7 0 = UInt8.ofNat (d.ttl % 256) := by rw [emitted]; rfl
    have protocolAt : d.emit.getD 6 0 = UInt8.ofNat (d.protocol % 256) := by rw [emitted]; rfl
    have trafficAt : (0x60000000 + d.traffic * 2 ^ 20) / 2 ^ 20 % 256 = d.traffic := by omega
    unfold readPacket
    rw [if_pos first, if_pos ⟨by omega, by rw [length, size]⟩, sourceAt, destinationAt, leading,
      ByteOrder.fromBytes_toBytes _ (by omega), trafficAt, ttlAt, protocolAt, rest, byte_toNat ttl, byte_toNat protocol, ← version]

variable {packet : List UInt8}

theorem readPacket_fits {d : Datagram} (read : readPacket packet = some d) : d.Fits := by
  have part : ∀ offset size, offset + size ≤ packet.length → (slice packet offset size).length = size := by
    intro offset size inside
    unfold slice
    rw [List.length_take, List.length_drop]
    omega
  have octet : ∀ i, (packet.getD i 0).toNat < 256 := fun i => UInt8.toNat_lt _
  unfold readPacket at read
  split at read
  · split at read
    · rename_i complete
      cases read
      have size := OnesComplement.wordAt_lt packet 4
      refine ⟨.inr rfl, part 8 16 (by omega), part 24 16 (by omega), Nat.mod_lt _ (by decide), octet 7, octet 6, ?_⟩
      dsimp only
      rw [if_neg (by decide), List.length_drop]
      omega
    · cases read
  · split at read
    · rename_i complete
      cases read
      obtain ⟨-, long, total, -, -⟩ := complete
      have size := OnesComplement.wordAt_lt packet 2
      refine ⟨.inl rfl, part 12 4 (by omega), part 16 4 (by omega), octet 1, octet 8, octet 9, ?_⟩
      dsimp only
      rw [if_pos rfl, List.length_drop]
      omega
    · cases read

theorem readPacket_version {d : Datagram} (read : readPacket packet = some d) :
    (packet.getD 0 0 >>> 4).toNat = d.version ∧ packet ≠ [] := by
  have filled : ∀ n, n + 1 ≤ packet.length → packet ≠ [] := by
    rintro n long rfl
    cases long
  unfold readPacket at read
  split at read
  · rename_i six
    split at read
    · rename_i complete
      cases read
      exact ⟨congrArg UInt8.toNat six, filled 39 complete.1⟩
    · cases read
  · split at read
    · rename_i complete
      cases read
      obtain ⟨first, long, -⟩ := complete
      exact ⟨by rw [first]; rfl, filled 19 long⟩
    · cases read

def lastProtocol (version : Nat) : Nat := if version = 6 then 58 else 1

theorem admitted_iff {source : IPAddress} {d d' : Datagram} {v p last : Nat} {message : String} (other : v + d'.version = 10)
    (same : d'.protocol = p) (ends : lastProtocol d'.version = last) :
    (if source.version ≠ v ∨ p ∉ [6, 17, last] then throw message else pure d' : Except String Datagram) = .ok d ↔
      some d' = some d ∧ source.version + d.version = 10 ∧ d.protocol ∈ [6, 17, lastProtocol d.version] := by
  subst same ends
  split
  · rename_i refused
    refine iff_of_false (fun found => by cases found) ?_
    rintro ⟨same, sum, known⟩
    obtain rfl := Option.some.inj same
    rcases refused with version | protocol
    · omega
    · exact protocol known
  · rename_i taken
    rw [not_or, not_not, not_not] at taken
    constructor
    · intro found
      obtain rfl := Except.ok.inj found
      exact ⟨rfl, by omega, taken.2⟩
    · rintro ⟨same, -⟩
      exact congrArg Except.ok (Option.some.inj same)

/-- A header is let in when the packet is well formed, of the other version and of a known protocol. -/
theorem inbound_ok_iff {source : IPAddress} {d : Datagram} : inbound packet source = .ok d ↔
    readPacket packet = some d ∧ source.version + d.version = 10 ∧ d.protocol ∈ [6, 17, lastProtocol d.version] := by
  have mask : ∀ x : Nat, (x >>> 20) &&& 255 = x / 2 ^ 20 % 256 := by
    intro x
    rw [Nat.shiftRight_eq_div_pow]
    exact Nat.and_two_pow_sub_one_eq_mod _ 8
  unfold inbound readPacket wordAt
  dsimp only
  by_cases six : packet.getD 0 0 >>> 4 = 6
  · rw [if_pos six, if_pos six]
    by_cases complete : 40 ≤ packet.length ∧ packet.length = 40 + ByteOrder.big.fromBytes (slice packet 4 2)
    · rw [if_neg (by omega), if_pos complete, mask]
      refine admitted_iff ?_ ?_ ?_ <;> rfl
    · rw [if_pos (by omega), if_neg complete]
      exact iff_of_false (fun found => by cases found) fun found => by cases found.1
  · rw [if_neg six, if_neg six]
    by_cases complete : packet.getD 0 0 = 0x45 ∧ 20 ≤ packet.length ∧ packet.length = ByteOrder.big.fromBytes (slice packet 2 2) ∧
        checksum (packet.take 20) = 0 ∧ ByteOrder.big.fromBytes (slice packet 6 2) &&& 0xbfff = 0
    · have parts := complete
      obtain ⟨first, long, total, sum, flags⟩ := parts
      have four : packet.getD 0 0 >>> 4 = 4 := by rw [first]; decide
      have header : ¬(packet.length < 20 ∨ packet.getD 0 0 ≠ 0x45 ∨ packet.length ≠ ByteOrder.big.fromBytes (slice packet 2 2) ∨
          checksum (packet.take 20) ≠ 0) := by
        simp only [not_or, not_not, Nat.not_lt]
        exact ⟨long, first, total, sum⟩
      rw [if_pos four, if_neg header, if_neg (not_not.mpr flags), if_pos complete]
      refine admitted_iff ?_ ?_ ?_ <;> rfl
    · rw [if_neg complete]
      refine iff_of_false ?_ fun found => by cases found.1
      intro found
      split at found
      · split at found
        · cases found
        · rename_i header
          split at found
          · cases found
          · rename_i flags
            simp only [not_or, not_not, Nat.not_lt] at header flags
            exact complete ⟨header.2.1, header.1, header.2.2.1, header.2.2.2, flags⟩
      · cases found

/-! ### What the transport allows -/

def fieldOffset (protocol : Nat) : Nat := if protocol = 6 then 16 else if protocol = 17 then 6 else 2

def HasPorts (protocol : Nat) : Prop := protocol = 6 ∨ protocol = 17

instance hasPortsDecidable (protocol : Nat) : Decidable (HasPorts protocol) := inferInstanceAs (Decidable (_ ∨ _))

def ported (raw : List UInt8) (port : Option Int) (index : Nat) : List UInt8 :=
  match port with
  | none => raw
  | some port => putWord raw index port.toNat

def PortOk (port : Option Int) : Prop := ∀ p, port = some p → 1 ≤ p ∧ p ≤ 65535

def rewritten (d : Datagram) (sourcePort destinationPort : Option Int) : List UInt8 :=
  if HasPorts d.protocol then ported (ported d.payload sourcePort 0) destinationPort 2
  else d.payload.set 0 ((echoType d.version (d.payload.getD 0 0)).getD 0)

def outputProtocol (d : Datagram) : Nat := if HasPorts d.protocol then d.protocol else lastProtocol (10 - d.version)

structure PortsOk (d : Datagram) (sourcePort destinationPort : Option Int) : Prop where
  long : (if d.protocol = 6 then 20 else 8) ≤ d.payload.length
  tcp : d.protocol = 6 → 20 ≤ (d.payload.getD 12 0 >>> 4).toNat * 4 ∧ (d.payload.getD 12 0 >>> 4).toNat * 4 ≤ d.payload.length
  udp : d.protocol = 17 → wordAt d.payload 4 = d.payload.length
  required : ¬(d.protocol = 17 ∧ d.version = 6 ∧ slice d.payload (fieldOffset d.protocol) 2 = [0, 0])
  valid : ¬(d.protocol = 17 ∧ d.version = 4 ∧ slice d.payload (fieldOffset d.protocol) 2 = [0, 0]) → checksum (d.pseudo ++ d.payload) = 0
  sourcePort : PortOk sourcePort
  destinationPort : PortOk destinationPort

structure EchoOk (d : Datagram) (sourcePort destinationPort : Option Int) : Prop where
  sourcePort : sourcePort = none
  destinationPort : destinationPort = none
  long : 8 ≤ d.payload.length
  code : d.payload.getD 1 0 = 0
  valid : checksum (d.pseudo ++ d.payload) = 0
  echo : (echoType d.version (d.payload.getD 0 0)).isSome = true

def TransportOk (d : Datagram) (sourcePort destinationPort : Option Int) : Prop :=
  if HasPorts d.protocol then PortsOk d sourcePort destinationPort else EchoOk d sourcePort destinationPort

theorem putPort_ok_iff {raw r : List UInt8} {port : Option Int} {index : Nat} :
    putPort raw port index = .ok r ↔ PortOk port ∧ r = ported raw port index := by
  unfold putPort ported PortOk
  cases port with
  | none => simp [pure, Except.pure, eq_comm]
  | some p =>
    by_cases inside : 1 ≤ p ∧ p ≤ 65535
    · simp [pure, Except.pure, inside, eq_comm]
    · simp [throw, throwThe, MonadExceptOf.throw, inside]

theorem rewriteTransport_ok_iff {d : Datagram} {sp dp : Option Int} {t : List UInt8 × Nat × Nat}
    (version : d.version = 4 ∨ d.version = 6) :
    rewriteTransport d sp dp = .ok t ↔ TransportOk d sp dp ∧ t = (rewritten d sp dp, fieldOffset d.protocol, outputProtocol d) := by
  unfold rewriteTransport TransportOk rewritten outputProtocol
  dsimp only
  by_cases ports : HasPorts d.protocol
  · have either : d.protocol = 6 ∨ d.protocol = 17 := ports
    have offset : (if d.protocol = 6 then ((20 : Nat), (16 : Nat)) else (8, 6)) = (if d.protocol = 6 then 20 else 8,
        fieldOffset d.protocol) := by
      unfold fieldOffset
      rcases either with tcp | udp
      · simp [tcp]
      · simp [udp]
    obtain ⟨minimum, least⟩ : ∃ m, m = if d.protocol = 6 then 20 else 8 := ⟨_, rfl⟩
    rw [if_pos either, if_pos ports, if_pos ports, if_pos ports, offset, ← least]
    dsimp only
    constructor
    · intro found
      split at found
      · cases found
      rename_i long
      split at found
      · cases found
      rename_i tcp
      split at found
      · cases found
      rename_i udp
      split at found
      · cases found
      rename_i required
      split at found
      · cases found
      rename_i valid
      obtain ⟨r, first, found⟩ := bind_ok found
      obtain ⟨r', second, found⟩ := bind_ok found
      obtain ⟨okS, rfl⟩ := putPort_ok_iff.mp first
      obtain ⟨okD, rfl⟩ := putPort_ok_iff.mp second
      cases found
      refine ⟨⟨least ▸ Nat.not_lt.mp long, ?_, ?_, required, ?_, okS, okD⟩, rfl⟩
      · exact fun six => not_not.mp fun bad => tcp ⟨six, bad⟩
      · exact fun seventeen => not_not.mp fun bad => udp ⟨seventeen, bad⟩
      · exact fun checked => not_not.mp fun bad => valid ⟨checked, bad⟩
    · rintro ⟨ok, rfl⟩
      rw [if_neg (Nat.not_lt.mpr (least ▸ ok.long)), if_neg (fun bad => bad.2 (ok.tcp bad.1)), if_neg (fun bad => bad.2 (ok.udp bad.1)),
        if_neg ok.required, if_neg (fun bad => bad.2 (ok.valid bad.1)), putPort_ok_iff.mpr ⟨ok.sourcePort, rfl⟩]
      dsimp only [bind, Except.bind]
      rw [putPort_ok_iff.mpr ⟨ok.destinationPort, rfl⟩]
      rfl
  · have neither : ¬(d.protocol = 6 ∨ d.protocol = 17) := ports
    have offset : fieldOffset d.protocol = 2 := by
      unfold fieldOffset
      rw [not_or] at neither
      rw [if_neg neither.1, if_neg neither.2]
    have last : (if d.version = 6 then 1 else 58) = lastProtocol (10 - d.version) := by
      unfold lastProtocol
      rcases version with four | six
      · simp [four]
      · simp [six]
    rw [if_neg neither, if_neg ports, if_neg ports, if_neg ports, offset, ← last]
    constructor
    · intro found
      split at found
      · cases found
      rename_i none'
      split at found
      · cases found
      rename_i echo
      simp only [not_or, Bool.not_eq_true, Option.isSome_eq_false_iff, Option.isNone_iff_eq_none, not_not, Nat.not_lt] at none' echo
      split at found
      · cases found
      · rename_i type known
        cases found
        exact ⟨⟨none'.1, none'.2, echo.1, echo.2.1, echo.2.2, by rw [known]; rfl⟩, by rw [known]; rfl⟩
    · rintro ⟨ok, rfl⟩
      obtain ⟨type, known⟩ := Option.isSome_iff_exists.mp ok.echo
      have header : ¬(d.payload.length < 8 ∨ d.payload.getD 1 0 ≠ 0 ∨ checksum (d.pseudo ++ d.payload) ≠ 0) := by
        simp only [not_or, not_not, Nat.not_lt]
        exact ⟨ok.long, ok.code, ok.valid⟩
      rw [ok.sourcePort, ok.destinationPort, if_neg (by decide), if_neg header, known]
      rfl

section

variable {d : Datagram} {sp dp : Option Int} {source destination : IPAddress}

theorem TransportOk.long (ok : TransportOk d sp dp) : 8 ≤ d.payload.length ∧ fieldOffset d.protocol + 2 ≤ d.payload.length := by
  unfold TransportOk at ok
  unfold fieldOffset
  split at ok
  · rename_i ports
    have long := ok.long
    rcases ports with tcp | udp
    · rw [if_pos tcp] at long ⊢
      omega
    · rw [if_neg (by omega)] at long ⊢
      rw [if_pos udp]
      omega
  · rename_i ports
    have long := ok.long
    unfold HasPorts at ports
    rw [if_neg (by omega), if_neg (by omega)]
    omega

theorem fieldOffset_even (protocol : Nat) : fieldOffset protocol % 2 = 0 := by
  unfold fieldOffset
  split
  · rfl
  · split <;> rfl

theorem ported_length {raw : List UInt8} {index : Nat} (inside : index + 2 ≤ raw.length) (port : Option Int) :
    (ported raw port index).length = raw.length := by
  unfold ported
  cases port with
  | none => rfl
  | some p => exact OnesComplement.putWord_length inside _

theorem rewritten_length (long : 8 ≤ d.payload.length) : (rewritten d sp dp).length = d.payload.length := by
  unfold rewritten
  split
  · have first : (ported d.payload sp 0).length = d.payload.length := ported_length (by omega) sp
    rw [ported_length (by omega), first]
  · exact List.length_set

def blank (d : Datagram) (source destination : IPAddress) (sp dp : Option Int) : Datagram :=
  { version := source.version, source := source.packed, destination := destination.packed, traffic := d.traffic, ttl := d.ttl - 1,
    protocol := outputProtocol d, payload := putWord (rewritten d sp dp) (fieldOffset d.protocol) 0 }

def checksumField (d : Datagram) : Nat :=
  let value := checksum (d.pseudo ++ d.payload)
  if d.protocol = 17 then if value ≠ 0 then value else 65535 else value

def translated (d : Datagram) (source destination : IPAddress) (sp dp : Option Int) : Datagram :=
  { blank d source destination sp dp with
    payload := putWord (rewritten d sp dp) (fieldOffset d.protocol) (checksumField (blank d source destination sp dp)) }

theorem translated_payload_length (ok : TransportOk d sp dp) :
    (translated d source destination sp dp).payload.length = d.payload.length := by
  obtain ⟨long, field⟩ := ok.long
  have same : (rewritten d sp dp).length = d.payload.length := rewritten_length long
  unfold translated
  rw [OnesComplement.putWord_length (by omega), same]

theorem nat64Packet_ok_iff {packet out : List UInt8} : nat64Packet packet source destination sp dp = .ok out ↔
    source.version = destination.version ∧ ∃ d, readPacket packet = some d ∧ source.version + d.version = 10 ∧
      d.protocol ∈ [6, 17, lastProtocol d.version] ∧ 1 < d.ttl ∧ TransportOk d sp dp ∧
      (source.version = 4 → d.payload.length ≤ 65515) ∧ out = (translated d source destination sp dp).emit := by
  have written : ∀ d, TransportOk d sp dp → (blank d source destination sp dp).header ++
      putWord (blank d source destination sp dp).payload (fieldOffset d.protocol) (checksumField (blank d source destination sp dp)) =
        (translated d source destination sp dp).emit := by
    intro d ok
    obtain ⟨long, field⟩ := ok.long
    have same : (rewritten d sp dp).length = d.payload.length := rewritten_length long
    have inside : fieldOffset d.protocol + 2 ≤ (rewritten d sp dp).length := by omega
    have length : (blank d source destination sp dp).payload.length = (translated d source destination sp dp).payload.length := by
      unfold translated blank
      rw [OnesComplement.putWord_length inside, OnesComplement.putWord_length inside]
    have header : (blank d source destination sp dp).header = (translated d source destination sp dp).header := by
      unfold Datagram.header
      rw [length]
      rfl
    rw [header, Datagram.emit]
    congr 1
    exact OnesComplement.putWord_putWord inside _ _
  have blankLength : ∀ d, TransportOk d sp dp → (putWord (rewritten d sp dp) (fieldOffset d.protocol) 0).length = d.payload.length := by
    intro d ok
    obtain ⟨long, field⟩ := ok.long
    have same : (rewritten d sp dp).length = d.payload.length := rewritten_length long
    rw [OnesComplement.putWord_length (by omega), same]
  unfold nat64Packet
  constructor
  · intro found
    split at found
    · cases found
    rename_i versions
    rw [not_or, not_not] at versions
    obtain ⟨d, entered, found⟩ := bind_ok found
    obtain ⟨read, other, known⟩ := inbound_ok_iff.mp entered
    split at found
    · cases found
    rename_i alive
    obtain ⟨t, transported, found⟩ := bind_ok found
    obtain ⟨ok, rfl⟩ := (rewriteTransport_ok_iff (readPacket_fits read).version).mp transported
    dsimp only at found
    split at found
    · cases found
    rename_i size
    rw [blankLength d ok] at size
    cases found
    exact ⟨versions.1, d, read, other, known, Nat.not_le.mp alive, ok,
      fun four => Nat.not_lt.mp fun bad => size ⟨four, bad⟩, written d ok⟩
  · rintro ⟨versions, d, read, other, known, alive, ok, size, rfl⟩
    obtain ⟨version, filled⟩ := readPacket_version read
    have entered := inbound_ok_iff.mpr ⟨read, other, known⟩
    have transported := (rewriteTransport_ok_iff (readPacket_fits read).version).mpr ⟨ok, rfl⟩
    have apart : ¬(source.version ≠ destination.version ∨ packet = [] ∨ (packet.getD 0 0 >>> 4).toNat = source.version) := by
      have kinds : source.version = 4 ∨ source.version = 6 := by
        cases source with
        | v4 a => exact .inl rfl
        | v6 a => exact .inr rfl
      simp only [not_or, not_not]
      exact ⟨versions, filled, by omega⟩
    rw [if_neg apart, entered]
    dsimp only [bind, Except.bind]
    rw [if_neg (Nat.not_le.mpr alive), transported]
    dsimp only
    rw [if_neg (by rw [blankLength d ok]; exact fun bad => Nat.not_lt.mpr (size bad.1) bad.2)]
    exact congrArg Except.ok (written d ok)

end

end FfnNgfw.Ipv6
