import FfnNgfw.Ipv6.Nat64

/-!
# What NAT64 keeps

The output of `nat64_packet` against the packet it was made from: addresses, ports, hops,
the length and the checksums. A packet that goes to IPv4 and back is restored but for its
flow label, two hops and the two forms of a zero checksum.
-/

namespace FfnNgfw.Ipv6
open OnesComplement (checksum total putWord wordAt)

section

variable {d : Datagram} {sp dp : Option Int} {source destination : IPAddress}

/-! ### The output -/

theorem packed_length (a : IPAddress) : a.packed.length = if a.version = 4 then 4 else 16 := by
  cases a with
  | v4 a => exact ByteOrder.toBytes_length _ _ _
  | v6 a => exact a.wide

theorem version_kinds (a : IPAddress) : a.version = 4 ∨ a.version = 6 := by
  cases a with
  | v4 a => exact .inl rfl
  | v6 a => exact .inr rfl

theorem outputProtocol_lt (d : Datagram) : outputProtocol d < 256 := by
  unfold outputProtocol lastProtocol
  split
  · rename_i ports
    rcases ports with tcp | udp
    · omega
    · omega
  · split <;> omega

theorem translated_fits (fits : d.Fits) (same : source.version = destination.version) (other : source.version + d.version = 10)
    (ok : TransportOk d sp dp) (size : source.version = 4 → d.payload.length ≤ 65515) :
    (translated d source destination sp dp).Fits := by
  have ttl : d.ttl - 1 < 256 := Nat.lt_of_le_of_lt (Nat.sub_le _ _) fits.ttl
  have destinationLength : destination.packed.length = if source.version = 4 then 4 else 16 := by rw [same, packed_length]
  refine ⟨version_kinds source, packed_length source, destinationLength, fits.traffic, ttl, outputProtocol_lt d, ?_⟩
  rw [translated_payload_length ok]
  have bound := fits.payload
  have version : (translated d source destination sp dp).version = source.version := rfl
  rw [version]
  split
  · rename_i four
    exact size four
  · rename_i notFour
    rw [if_pos (by have kinds := version_kinds source; omega)] at bound
    omega

theorem pseudo_even (d : Datagram) (fits : d.Fits) : d.pseudo.length % 2 = 0 := by
  unfold Datagram.pseudo
  have same : d.source.length = d.destination.length := fits.source.trans fits.destination.symm
  have four : ∀ n, (ByteOrder.big.toBytes 4 n).length = 4 := fun n => ByteOrder.toBytes_length _ _ _
  have one : ∀ n, (byte n).length = 1 := fun n => ByteOrder.toBytes_length _ _ _
  have two : ∀ n, (word n).length = 2 := fun n => ByteOrder.toBytes_length _ _ _
  split
  · simp only [List.length_append, List.length_cons, List.length_nil, four, one, same]
    omega
  · split
    · simp only [List.length_append, one, two, same]
      omega
    · rfl

theorem checksumField_lt (d : Datagram) : checksumField d < 65536 := by
  have bound := OnesComplement.checksum_le (d.pseudo ++ d.payload)
  unfold checksumField
  dsimp only
  split
  · split <;> omega
  · omega

structure Translates (d d' : Datagram) (source destination : IPAddress) (sp dp : Option Int) : Prop where
  version : d'.version = source.version ∧ source.version + d.version = 10
  source : d'.source = source.packed
  destination : d'.destination = destination.packed
  ttl : d'.ttl + 1 = d.ttl
  traffic : d'.traffic = d.traffic
  protocol : d'.protocol = outputProtocol d
  length : d'.payload.length = d.payload.length
  sourcePort : HasPorts d.protocol → (wordAt d'.payload 0 : Int) = sp.getD (wordAt d.payload 0)
  destinationPort : HasPorts d.protocol → (wordAt d'.payload 2 : Int) = dp.getD (wordAt d.payload 2)
  rest : ∃ sum, d'.payload = putWord (rewritten d sp dp) (fieldOffset d.protocol) sum
  valid : checksum (d'.pseudo ++ d'.payload) = 0
  udp : d'.protocol = 17 → wordAt d'.payload 6 ≠ 0

variable {index offset : Nat} {raw : List UInt8}

theorem wordAt_ported (inside : index + 2 ≤ raw.length) {port : Option Int} (ok : PortOk port) :
    (wordAt (ported raw port index) index : Int) = port.getD (wordAt raw index) := by
  unfold ported
  cases port with
  | none => rfl
  | some p =>
    have range := ok p rfl
    dsimp only
    rw [OnesComplement.wordAt_putWord inside (by omega), Option.getD_some]
    omega

theorem wordAt_ported_other {index other : Nat} (inside : index + 2 ≤ raw.length)
    (apart : other + 2 ≤ index ∨ index + 2 ≤ other) (port : Option Int) : wordAt (ported raw port index) other = wordAt raw other := by
  unfold ported
  cases port with
  | none => rfl
  | some p => exact OnesComplement.wordAt_other inside apart _

theorem fieldOffset_ports {protocol : Nat} (ports : HasPorts protocol) : 4 ≤ fieldOffset protocol := by
  unfold fieldOffset
  rcases ports with tcp | udp
  · rw [if_pos tcp]
    decide
  · rw [if_neg (by omega), if_pos udp]
    decide

theorem translated_ports (ports : HasPorts d.protocol) (ok : TransportOk d sp dp) :
    (wordAt (translated d source destination sp dp).payload 0 : Int) = sp.getD (wordAt d.payload 0) ∧
      (wordAt (translated d source destination sp dp).payload 2 : Int) = dp.getD (wordAt d.payload 2) := by
  obtain ⟨long, field⟩ := ok.long
  have sameLength : (rewritten d sp dp).length = d.payload.length := rewritten_length long
  have behind := fieldOffset_ports ports
  have allowed : PortsOk d sp dp := by
    unfold TransportOk at ok
    rwa [if_pos ports] at ok
  have length : (ported d.payload sp 0).length = d.payload.length := ported_length (by omega) sp
  have body : rewritten d sp dp = ported (ported d.payload sp 0) dp 2 := if_pos ports
  have inside : fieldOffset d.protocol + 2 ≤ (rewritten d sp dp).length := by omega
  unfold translated
  dsimp only
  rw [OnesComplement.wordAt_other inside (by omega), OnesComplement.wordAt_other inside (by omega), body]
  refine ⟨?_, ?_⟩
  · rw [wordAt_ported_other (by omega) (by omega)]
    exact wordAt_ported (by omega) allowed.sourcePort
  · rw [wordAt_ported (by omega) allowed.destinationPort, wordAt_ported_other (by omega) (by omega)]

theorem translated_valid (fits : (translated d source destination sp dp).Fits) (ok : TransportOk d sp dp) :
    checksum ((translated d source destination sp dp).pseudo ++ (translated d source destination sp dp).payload) = 0 ∧
      (outputProtocol d = 17 → wordAt (translated d source destination sp dp).payload 6 ≠ 0) := by
  obtain ⟨long, field⟩ := ok.long
  have sameLength : (rewritten d sp dp).length = d.payload.length := rewritten_length long
  have inside : fieldOffset d.protocol + 2 ≤ (rewritten d sp dp).length := by omega
  have even := fieldOffset_even d.protocol
  have length : (blank d source destination sp dp).payload.length = (translated d source destination sp dp).payload.length := by
    unfold translated blank
    rw [OnesComplement.putWord_length inside, OnesComplement.putWord_length inside]
  have pseudo : (translated d source destination sp dp).pseudo = (blank d source destination sp dp).pseudo := by
    unfold Datagram.pseudo
    rw [length]
    rfl
  have before := pseudo_even _ fits
  rw [pseudo] at before ⊢
  have bound := checksumField_lt (blank d source destination sp dp)
  have payload : (translated d source destination sp dp).payload =
      putWord (rewritten d sp dp) (fieldOffset d.protocol) (checksumField (blank d source destination sp dp)) := rfl
  have filled := OnesComplement.checksum_filled before even inside
  have ones := OnesComplement.checksum_filled_ones before even inside
  have value : checksumField (blank d source destination sp dp) = if outputProtocol d = 17 then
      if checksum ((blank d source destination sp dp).pseudo ++ putWord (rewritten d sp dp) (fieldOffset d.protocol) 0) ≠ 0 then
        checksum ((blank d source destination sp dp).pseudo ++ putWord (rewritten d sp dp) (fieldOffset d.protocol) 0) else 65535
      else checksum ((blank d source destination sp dp).pseudo ++ putWord (rewritten d sp dp) (fieldOffset d.protocol) 0) := rfl
  constructor
  · rw [payload, value]
    split
    · split
      · exact filled
      · rename_i zero
        exact ones (not_not.mp zero)
    · exact filled
  · intro udp
    have ports : d.protocol = 17 := by
      unfold outputProtocol lastProtocol at udp
      split at udp
      · exact udp
      · split at udp <;> omega
    have place : fieldOffset d.protocol = 6 := by rw [ports]; rfl
    rw [payload, ← place, OnesComplement.wordAt_putWord inside bound, value, if_pos udp]
    split
    · assumption
    · decide

theorem translated_spec (fits : d.Fits) (same : source.version = destination.version) (other : source.version + d.version = 10)
    (alive : 1 < d.ttl) (ok : TransportOk d sp dp) (size : source.version = 4 → d.payload.length ≤ 65515) :
    Translates d (translated d source destination sp dp) source destination sp dp := by
  have outFits : (translated d source destination sp dp).Fits := translated_fits fits same other ok size
  obtain ⟨valid, udp⟩ := translated_valid outFits ok
  refine ⟨⟨rfl, other⟩, rfl, rfl, ?_, rfl, rfl, translated_payload_length ok, ?_, ?_, ⟨_, rfl⟩, valid, udp⟩
  · have step : (translated d source destination sp dp).ttl = d.ttl - 1 := rfl
    omega
  · exact fun ports => (translated_ports ports ok).1
  · exact fun ports => (translated_ports ports ok).2

/-! ### There and back -/

def original (raw : List UInt8) (index : Nat) (port : Option Int) : Option Int := port.map fun _ => wordAt raw index

theorem ported_original (inside : index + 2 ≤ raw.length) (port : Option Int) :
    ported (ported raw port index) (original raw index port) index = raw := by
  unfold ported original
  cases port with
  | none => rfl
  | some p =>
    dsimp only [Option.map_some]
    rw [Int.toNat_natCast, OnesComplement.putWord_putWord inside, OnesComplement.putWord_wordAt inside]

theorem ported_comm {index other : Nat} (apart : index + 2 ≤ other) (within : other + 2 ≤ raw.length)
    (first second : Option Int) : ported (ported raw first index) second other = ported (ported raw second other) first index := by
  unfold ported
  cases first with
  | none => rfl
  | some p =>
    cases second with
    | none => rfl
    | some q => exact OnesComplement.putWord_comm apart within _ _

theorem ported_putWord (apart : index + 2 ≤ offset) (within : offset + 2 ≤ raw.length)
    (port : Option Int) (value : Nat) : ported (putWord raw offset value) port index = putWord (ported raw port index) offset value := by
  unfold ported
  cases port with
  | none => rfl
  | some p => exact (OnesComplement.putWord_comm apart within _ _).symm

theorem ports_back (behind : 4 ≤ offset) (inside : offset + 2 ≤ raw.length) (value : Nat) :
    ported (ported (putWord (ported (ported raw sp 0) dp 2) offset value) (original raw 0 sp) 0) (original raw 2 dp) 2 =
      putWord raw offset value := by
  have first : (ported raw sp 0).length = raw.length := ported_length (by omega) sp
  have second : (ported (ported raw sp 0) dp 2).length = raw.length := by rw [ported_length (by omega), first]
  have third : (ported (ported (ported raw sp 0) dp 2) (original raw 0 sp) 0).length =
      raw.length := by rw [ported_length (by omega), second]
  have atSource : ported (ported (ported raw sp 0) dp 2) (original raw 0 sp) 0 = ported raw dp 2 := by
    rw [← ported_comm (by decide) (by omega), ported_original (by omega)]
  rw [ported_putWord (by omega) (by omega), ported_putWord (by omega) (by omega), atSource, ported_original (by omega)]

theorem echoType_back {version : Nat} {type type' : UInt8} (six : version = 6) (echo : echoType version type = some type') :
    echoType 4 type' = some type := by
  subst six
  unfold echoType at echo ⊢
  rw [if_pos rfl] at echo
  rw [if_neg (by decide)]
  split at echo
  · rename_i request
    cases echo
    rw [request]
    rfl
  · split at echo
    · rename_i reply
      cases echo
      rw [reply]
      rfl
    · cases echo

theorem set_putWord (inside : offset + 2 ≤ raw.length) (behind : 1 ≤ offset) (value : Nat) (b : UInt8) :
    (putWord raw offset value).set 0 b = putWord (raw.set 0 b) offset value := by
  have inside' : offset + 2 ≤ (raw.set 0 b).length := by rwa [List.length_set]
  refine List.ext_getElem? fun i => ?_
  by_cases first : i = 0
  · subst first
    have filled : 0 < (putWord raw offset value).length := by
      rw [OnesComplement.putWord_length inside]
      omega
    rw [OnesComplement.putWord_getElem? inside' (by omega), List.getElem?_set_self filled, List.getElem?_set_self (by omega)]
  · rw [List.getElem?_set_ne (Ne.symm first)]
    by_cases field : offset ≤ i ∧ i < offset + 2
    · rw [OnesComplement.putWord_field inside field.1 field.2, OnesComplement.putWord_field inside' field.1 field.2]
    · rw [OnesComplement.putWord_getElem? inside (by omega), OnesComplement.putWord_getElem? inside' (by omega),
        List.getElem?_set_ne (Ne.symm first)]

theorem getD_putWord {offset i : Nat} (inside : offset + 2 ≤ raw.length) (outside : i < offset ∨ offset + 2 ≤ i)
    (value : Nat) : (putWord raw offset value).getD i 0 = raw.getD i 0 := by
  rw [List.getD_eq_getElem?_getD, List.getD_eq_getElem?_getD, OnesComplement.putWord_getElem? inside outside]

theorem getD_ported {index i : Nat} (inside : index + 2 ≤ raw.length) (outside : index + 2 ≤ i)
    (port : Option Int) : (ported raw port index).getD i 0 = raw.getD i 0 := by
  unfold ported
  cases port with
  | none => rfl
  | some p => exact getD_putWord inside (.inr outside) _

def canonical (protocol sum : Nat) : Nat := if protocol ≠ 17 ∧ sum = 65535 then 0 else sum

/-- The packet after two hops, with its checksum in the form that is written. -/
def restored (d : Datagram) : Datagram :=
  { d with
    ttl := d.ttl - 2,
    payload := putWord d.payload (fieldOffset d.protocol) (canonical d.protocol (wordAt d.payload (fieldOffset d.protocol))) }

theorem slice_zero (inside : offset + 2 ≤ raw.length) (zero : wordAt raw offset = 0) :
    slice raw offset 2 = [0, 0] := by
  refine ByteOrder.fromBytes_inj ?_ zero
  unfold slice
  rw [List.length_take, List.length_drop]
  show _ = 2
  omega

theorem outputProtocol_offset (d : Datagram) : fieldOffset (outputProtocol d) = fieldOffset d.protocol := by
  unfold outputProtocol
  split
  · rfl
  · rename_i ports
    unfold fieldOffset lastProtocol
    unfold HasPorts at ports
    rw [if_neg (by omega : ¬d.protocol = 6), if_neg (by omega : ¬d.protocol = 17)]
    split <;> rfl

theorem canonical_field (six : d.version = 6) (fits : d.Fits) (known : d.protocol ∈ [6, 17, 58]) (ok : TransportOk d sp dp) :
    checksumField { d with payload := putWord d.payload (fieldOffset d.protocol) 0 } =
      canonical d.protocol (wordAt d.payload (fieldOffset d.protocol)) := by
  obtain ⟨-, inside⟩ := ok.long
  have pseudo : ({ d with payload := putWord d.payload (fieldOffset d.protocol) 0 } : Datagram).pseudo = d.pseudo := by
    unfold Datagram.pseudo
    rw [OnesComplement.putWord_length inside]
  have sound : checksum (d.pseudo ++ d.payload) = 0 ∧ (d.protocol = 17 → wordAt d.payload (fieldOffset d.protocol) ≠ 0) := by
    unfold TransportOk at ok
    split at ok
    · refine ⟨ok.valid fun bad => by omega, ?_⟩
      intro udp zero
      exact ok.required ⟨udp, six, slice_zero inside zero⟩
    · rename_i ports
      exact ⟨ok.valid, fun udp => absurd (.inr udp) ports⟩
  have some' : total (d.pseudo ++ putWord d.payload (fieldOffset d.protocol) 0) ≠ 0 := by
    rw [Ne, OnesComplement.total_eq_zero]
    intro zero
    have octet : UInt8.ofNat (d.protocol % 256) = 0 := by
      refine zero _ (List.mem_append_left _ ?_)
      unfold Datagram.pseudo
      rw [if_pos six]
      exact List.mem_append_right _ List.mem_cons_self
    have value := byte_toNat fits.protocol
    rw [octet] at value
    rw [← value] at known
    exact absurd known (by decide)
  have field := OnesComplement.field_of_valid (pseudo_even d fits) (fieldOffset_even d.protocol) inside sound.1 some'
  have bound := OnesComplement.checksum_lt some'
  unfold checksumField canonical
  rw [pseudo]
  dsimp only
  by_cases udp : d.protocol = 17
  · have filled := sound.2 udp
    have kept : ¬(d.protocol ≠ 17 ∧ wordAt d.payload (fieldOffset d.protocol) = 65535) := fun bad => bad.1 udp
    rw [if_pos udp, if_neg kept]
    rcases field with same | ⟨zero, ones⟩
    · rw [same] at filled
      rw [if_pos filled, same]
    · rw [if_neg (not_not.mpr zero), ones]
  · rw [if_neg udp]
    rcases field with same | ⟨zero, ones⟩
    · rw [if_neg (by omega), same]
    · rw [if_pos ⟨udp, ones⟩, zero]

section

variable {a b s u : IPAddress}

theorem echo_protocol (known : d.protocol ∈ [6, 17, 58]) (ports : ¬HasPorts d.protocol) : d.protocol = 58 ∧
    fieldOffset d.protocol = 2 := by
  unfold HasPorts at ports
  simp only [List.mem_cons, List.not_mem_nil, or_false] at known
  have last : d.protocol = 58 := by omega
  rw [last]
  exact ⟨rfl, rfl⟩

theorem translated_echo (six : d.version = 6) (ok : EchoOk d sp dp) (ports : ¬HasPorts d.protocol)
    (offset : fieldOffset d.protocol = 2) :
    ∃ type, rewritten d sp dp = d.payload.set 0 type ∧ (translated d a b sp dp).payload.getD 0 0 = type ∧
      echoType 4 type = some (d.payload.getD 0 0) := by
  obtain ⟨type, known⟩ := Option.isSome_iff_exists.mp ok.echo
  have long := ok.long
  have body : rewritten d sp dp = d.payload.set 0 type := by
    unfold rewritten
    rw [if_neg ports, known, Option.getD_some]
  refine ⟨type, body, ?_, echoType_back six known⟩
  unfold translated
  dsimp only
  rw [body, offset, getD_putWord (by rw [List.length_set]; omega) (by omega), List.getD_eq_getElem?_getD,
    List.getElem?_set_self (by omega), Option.getD_some]

theorem rewritten_back (six : d.version = 6) (four : a.version = 4) (known : d.protocol ∈ [6, 17, 58]) (ok : TransportOk d sp dp) :
    rewritten (translated d a b sp dp) (original d.payload 0 sp) (original d.payload 2 dp) =
        putWord d.payload (fieldOffset d.protocol) (checksumField (blank d a b sp dp)) ∧
      outputProtocol (translated d a b sp dp) = d.protocol := by
  obtain ⟨long, inside⟩ := ok.long
  have payload : (translated d a b sp dp).payload =
      putWord (rewritten d sp dp) (fieldOffset d.protocol) (checksumField (blank d a b sp dp)) := rfl
  by_cases ports : HasPorts d.protocol
  · have protocol : (translated d a b sp dp).protocol = d.protocol := if_pos ports
    have body : rewritten d sp dp = ported (ported d.payload sp 0) dp 2 := if_pos ports
    refine ⟨?_, ?_⟩
    · rw [rewritten, protocol, if_pos ports, payload, body]
      exact ports_back (fieldOffset_ports ports) inside _
    · rw [outputProtocol, protocol, if_pos ports]
  · obtain ⟨last, offset⟩ := echo_protocol known ports
    have protocol : (translated d a b sp dp).protocol = 1 := by
      have output : (translated d a b sp dp).protocol = outputProtocol d := rfl
      rw [output, outputProtocol, if_neg ports, six]
      rfl
    have version : (translated d a b sp dp).version = 4 := four
    have echo : EchoOk d sp dp := by
      unfold TransportOk at ok
      rwa [if_neg ports] at ok
    obtain ⟨type, body, first, back⟩ := @translated_echo _ _ _ a b six echo ports offset
    have inside' : 2 + 2 ≤ (d.payload.set 0 type).length := by
      rw [List.length_set]
      omega
    refine ⟨?_, ?_⟩
    · rw [rewritten, protocol, if_neg (by decide), version, first, back, Option.getD_some, payload, body, offset,
        set_putWord inside' (by decide), List.set_set]
      congr 1
      refine List.ext_getElem? fun i => ?_
      by_cases zero : i = 0
      · subst zero
        rw [List.getElem?_set_self (by omega), List.getD_eq_getElem?_getD, List.getElem?_eq_getElem (by omega), Option.getD_some]
      · rw [List.getElem?_set_ne (Ne.symm zero)]
    · rw [outputProtocol, protocol, version, if_neg (by decide), last]
      rfl

theorem transportOk_back (six : d.version = 6) (four : a.version = 4) (known : d.protocol ∈ [6, 17, 58]) (ok : TransportOk d sp dp)
    (fits : (translated d a b sp dp).Fits) : TransportOk (translated d a b sp dp) (original d.payload 0 sp) (original d.payload 2 dp) ↔
      PortOk (original d.payload 0 sp) ∧ PortOk (original d.payload 2 dp) := by
  obtain ⟨long, inside⟩ := ok.long
  have same : (rewritten d sp dp).length = d.payload.length := rewritten_length long
  have length := @translated_payload_length d sp dp a b ok
  have valid := (translated_valid fits ok).1
  have payload : (translated d a b sp dp).payload =
      putWord (rewritten d sp dp) (fieldOffset d.protocol) (checksumField (blank d a b sp dp)) := rfl
  have version : (translated d a b sp dp).version = 4 := four
  by_cases ports : HasPorts d.protocol
  · have protocol : (translated d a b sp dp).protocol = d.protocol := if_pos ports
    have body : rewritten d sp dp = ported (ported d.payload sp 0) dp 2 := if_pos ports
    have allowed : PortsOk d sp dp := by
      unfold TransportOk at ok
      rwa [if_pos ports] at ok
    have firstLength : (ported d.payload sp 0).length = d.payload.length := ported_length (by omega) sp
    unfold TransportOk
    rw [protocol, if_pos ports]
    constructor
    · exact fun back => ⟨back.sourcePort, back.destinationPort⟩
    · intro portsOk
      refine ⟨?_, ?_, ?_, ?_, fun _ => valid, portsOk.1, portsOk.2⟩
      · rw [protocol, length]
        exact allowed.long
      · intro tcp
        rw [protocol] at tcp
        have offset : fieldOffset d.protocol = 16 := by rw [tcp]; rfl
        have kept : (translated d a b sp dp).payload.getD 12 0 = d.payload.getD 12 0 := by
          rw [payload, offset, getD_putWord (by omega) (by omega), body, getD_ported (by omega) (by decide),
            getD_ported (by omega) (by decide)]
        rw [kept, length]
        exact allowed.tcp tcp
      · intro udp
        rw [protocol] at udp
        have offset : fieldOffset d.protocol = 6 := by rw [udp]; rfl
        rw [payload, offset, OnesComplement.wordAt_other (by omega) (by omega), body, wordAt_ported_other (by omega) (by decide),
          wordAt_ported_other (by omega) (by decide), allowed.udp udp]
        rw [payload, offset, body] at length
        exact length.symm
      · rw [version]
        omega
  · obtain ⟨last, offset⟩ := echo_protocol known ports
    have echo : EchoOk d sp dp := by
      unfold TransportOk at ok
      rwa [if_neg ports] at ok
    have protocol : (translated d a b sp dp).protocol = 1 := by
      have output : (translated d a b sp dp).protocol = outputProtocol d := rfl
      rw [output, outputProtocol, if_neg ports, six]
      rfl
    obtain ⟨type, body, first, back⟩ := @translated_echo _ _ _ a b six echo ports offset
    have noPorts : original d.payload 0 sp = none ∧ original d.payload 2 dp = none := by
      rw [echo.sourcePort, echo.destinationPort]
      exact ⟨rfl, rfl⟩
    have free : PortOk none := fun p found => by cases found
    rw [noPorts.1, noPorts.2]
    refine iff_of_true ?_ ⟨free, free⟩
    unfold TransportOk
    rw [protocol, if_neg (by decide)]
    refine ⟨rfl, rfl, by omega, ?_, valid, by rw [version, first, back]; rfl⟩
    rw [payload, body, offset, getD_putWord (by rw [List.length_set]; omega) (by omega), List.getD_eq_getElem?_getD,
      List.getElem?_set_ne (by decide), ← List.getD_eq_getElem?_getD]
    exact echo.code

theorem translated_restored (six : d.version = 6) (four : a.version = 4) (sixS : s.version = 6)
    (known : d.protocol ∈ [6, 17, 58]) (fits : d.Fits)
    (ok : TransportOk d sp dp) (sourceSame : s.packed = d.source) (destinationSame : u.packed = d.destination) :
    translated (translated d a b sp dp) s u (original d.payload 0 sp) (original d.payload 2 dp) = restored d := by
  obtain ⟨long, inside⟩ := ok.long
  obtain ⟨body, protocol⟩ := rewritten_back (b := b) six four known ok
  have offset : fieldOffset (translated d a b sp dp).protocol = fieldOffset d.protocol := outputProtocol_offset d
  have ttl : (translated d a b sp dp).ttl - 1 = d.ttl - 2 := Nat.sub_sub d.ttl 1 1
  have blankBack : blank (translated d a b sp dp) s u (original d.payload 0 sp) (original d.payload 2 dp) =
      { d with ttl := d.ttl - 2, payload := putWord d.payload (fieldOffset d.protocol) 0 } := by
    unfold blank
    rw [body, protocol, offset, ttl, sourceSame, destinationSame, sixS, OnesComplement.putWord_putWord inside, ← six]
    rfl
  have field : checksumField (blank (translated d a b sp dp) s u (original d.payload 0 sp) (original d.payload 2 dp)) =
      canonical d.protocol (wordAt d.payload (fieldOffset d.protocol)) := by
    rw [blankBack, ← canonical_field six fits known ok]
    rfl
  rw [translated, field, blankBack, body, offset, OnesComplement.putWord_putWord inside]
  rfl

end

end

def SameButFlow (packet packet' : List UInt8) : Prop :=
  packet.drop 4 = packet'.drop 4 ∧ ByteOrder.big.fromBytes (packet.take 4) / 2 ^ 20 = ByteOrder.big.fromBytes (packet'.take 4) / 2 ^ 20

theorem sameButFlow_emit {packet : List UInt8} {d : Datagram} (read : readPacket packet = some d) (six : d.version = 6) :
    SameButFlow packet d.emit := by
  have fits := readPacket_fits read
  have emitted : d.emit = front6 d ++ d.source ++ d.destination ++ d.payload := by
    rw [Datagram.emit, header6 six]
  unfold readPacket at read
  split at read
  · rename_i version
    split at read
    · rename_i complete
      obtain ⟨long, total⟩ := complete
      have width : (slice packet 4 2).length = 2 := by
        unfold slice
        rw [List.length_take, List.length_drop]
        omega
      have size : word d.payload.length = slice packet 4 2 := by
        cases read
        dsimp only
        rw [List.length_drop, total, Nat.add_sub_cancel_left]
        exact ByteOrder.toBytes_fromBytes width
      have octet : ∀ b : UInt8, byte b.toNat = [b] := by
        intro b
        exact @ByteOrder.toBytes_fromBytes [b] 1 rfl
      have one : ∀ i, i < packet.length → slice packet i 1 = [packet.getD i 0] := by
        intro i inside
        unfold slice
        rw [List.drop_eq_getElem_cons inside, List.getD_eq_getElem?_getD, List.getElem?_eq_getElem inside]
        rfl
      constructor
      · have rest : packet.drop 4 = slice packet 4 2 ++ (slice packet 6 1 ++ (slice packet 7 1 ++ (slice packet 8 16 ++
            (slice packet 24 16 ++ packet.drop 40)))) := by
          have step : ∀ i n, packet.drop i = slice packet i n ++ packet.drop (i + n) := by
            intro i n
            rw [← List.drop_drop]
            exact (List.take_append_drop n _).symm
          rw [step 4 2, step 6 1, step 7 1, step 8 16, step 24 16]
        rw [rest, emitted, front6, size, one 6 (by omega), one 7 (by omega)]
        cases read
        dsimp only
        rw [octet, octet]
        simp only [List.append_assoc]
        exact (List.drop_left' (ByteOrder.toBytes_length _ _ _)).symm
      · have four : (packet.take 4).length = 4 := by
          rw [List.length_take]
          omega
        have leading := ByteOrder.fromBytes_take (packet.take 4) 1
        have first : (packet.take 4).take 1 = [packet.getD 0 0] := by
          rw [List.take_take, ← one 0 (by omega)]
          rfl
        have bound := ByteOrder.fromBytes_lt (packet.take 4)
        rw [first, four] at leading
        rw [four] at bound
        have single : ByteOrder.big.fromBytes [packet.getD 0 0] = (packet.getD 0 0).toNat := by
          rw [ByteOrder.fromBytes_big]
          exact Digits.value_singleton _ _
        have high := congrArg UInt8.toNat version
        rw [UInt8.toNat_shiftRight, Nat.shiftRight_eq_div_pow] at high
        have amount : (4 : UInt8).toNat % 8 = 4 := rfl
        have nibble : (6 : UInt8).toNat = 6 := rfl
        rw [amount, nibble] at high
        have start : d.emit.take 4 = ByteOrder.big.toBytes 4 (0x60000000 + d.traffic * 2 ^ 20) := by
          rw [emitted, ← flowless fits.traffic]
          rfl
        have small := fits.traffic
        have traffic : d.traffic = ByteOrder.big.fromBytes (packet.take 4) / 2 ^ 20 % 256 := by
          cases read
          rfl
        rw [start, ByteOrder.fromBytes_toBytes _ (by omega)]
        rw [single] at leading
        omega
    · cases read
  · split at read
    · cases read
      cases six
    · cases read

/-- What is let through is translated as it should be, and translating it back with its old
addresses and ports restores it but for the flow label, two hops and a zero checksum. -/
theorem nat64Packet_correct :
    (∀ packet source destination sp dp out, nat64Packet packet source destination sp dp = .ok out →
      ∃ d d', readPacket packet = some d ∧ readPacket out = some d' ∧ Translates d d' source destination sp dp ∧
        (d'.version = 4 → checksum (out.take 20) = 0)) ∧
    ∀ packet a b sp dp out d s u, nat64Packet packet (.v4 a) (.v4 b) sp dp = .ok out → readPacket packet = some d →
      s.packed = d.source → u.packed = d.destination →
      SameButFlow packet d.emit ∧
      (∀ back, nat64Packet out (.v6 s) (.v6 u) (original d.payload 0 sp) (original d.payload 2 dp) = .ok back →
        back = (restored d).emit) ∧
      ((∃ back, nat64Packet out (.v6 s) (.v6 u) (original d.payload 0 sp) (original d.payload 2 dp) = .ok back) ↔
        2 < d.ttl ∧ PortOk (original d.payload 0 sp) ∧ PortOk (original d.payload 2 dp)) := by
  constructor
  · intro packet source destination sp dp out found
    obtain ⟨same, d, read, other, known, alive, ok, size, rfl⟩ := nat64Packet_ok_iff.mp found
    have fits := readPacket_fits read
    have outFits : (translated d source destination sp dp).Fits := translated_fits fits same other ok size
    refine ⟨d, translated d source destination sp dp, read, readPacket_emit outFits, translated_spec fits same other alive ok size, ?_⟩
    intro four
    obtain ⟨sum, header, valid⟩ := header4 four
    have width : (translated d source destination sp dp).header.length = 20 := by
      have from' := outFits.source
      have onto := outFits.destination
      have twelve : (front4 (translated d source destination sp dp) sum).length = 12 := rfl
      rw [if_pos four] at from' onto
      rw [header, List.length_append, List.length_append, twelve, from', onto]
    rw [Datagram.emit, List.take_left' width]
    exact valid
  · intro packet a b sp dp out d s u found read sourceSame destinationSame
    obtain ⟨-, d', read', other, known, alive, ok, size, rfl⟩ := nat64Packet_ok_iff.mp found
    rw [read] at read'
    obtain rfl := Option.some.inj read'
    have four : (IPAddress.v4 a).version = 4 := rfl
    have six : d.version = 6 := by omega
    have listed : d.protocol ∈ [6, 17, 58] := by
      rw [six] at known
      exact known
    have fits := readPacket_fits read
    have outFits : (translated d (.v4 a) (.v4 b) sp dp).Fits := translated_fits fits rfl other ok size
    have readOut := readPacket_emit outFits
    have backOk := transportOk_back (b := .v4 b) six four listed ok outFits
    have outRestored := translated_restored (b := .v4 b) (s := .v6 s) (u := .v6 u) six four rfl listed fits ok sourceSame destinationSame
    have hops : (translated d (.v4 a) (.v4 b) sp dp).ttl = d.ttl - 1 := rfl
    have outKnown : (translated d (.v4 a) (.v4 b) sp dp).protocol ∈
        [6, 17, lastProtocol (translated d (.v4 a) (.v4 b) sp dp).version] := by
      have output : (translated d (.v4 a) (.v4 b) sp dp).protocol = outputProtocol d := rfl
      have version : (translated d (.v4 a) (.v4 b) sp dp).version = 4 := rfl
      rw [output, version, outputProtocol, six]
      split
      · rename_i ports
        rcases ports with tcp | udp
        · simp [tcp]
        · simp [udp]
      · simp
    refine ⟨sameButFlow_emit read six, ?_, ?_⟩
    · intro back foundBack
      obtain ⟨-, e, readE, -, -, -, -, -, rfl⟩ := nat64Packet_ok_iff.mp foundBack
      rw [readOut] at readE
      obtain rfl := Option.some.inj readE
      rw [outRestored]
    · constructor
      · rintro ⟨back, foundBack⟩
        obtain ⟨-, e, readE, -, -, aliveE, okE, -⟩ := nat64Packet_ok_iff.mp foundBack
        rw [readOut] at readE
        obtain rfl := Option.some.inj readE
        exact ⟨by omega, backOk.mp okE⟩
      · rintro ⟨hop, portsOk⟩
        exact ⟨_, nat64Packet_ok_iff.mpr ⟨rfl, _, readOut, rfl, outKnown, by omega, backOk.mpr portsOk,
          fun bad : 6 = 4 => absurd bad (by decide), rfl⟩⟩

/-- One byte over UDP from 2001:db8::1 to 64:ff9b::192.0.2.1, with a flow label. -/
def sampleQuery : List UInt8 :=
  [0x60, 1, 0x23, 0x45, 0, 9, 17, 64, 0x20, 1, 0x0d, 0xb8, 0, 0, 0, 0, 0, 0, 0, 0, 0, 0, 0, 1,
    0, 0x64, 0xff, 0x9b, 0, 0, 0, 0, 0, 0, 0, 0, 192, 0, 2, 1, 0x13, 0x88, 0, 53, 0, 9, 0xbb, 0x63, 0x41]

def poolAddress : IPAddress := .v4 0xc6336401

def queryServer : IPAddress := .v4 0xc0000201

/-- The query is translated, and back again with its addresses and its port. -/
theorem sampleQuery_translated : ∃ out d d', nat64Packet sampleQuery poolAddress queryServer (some 40000) none = .ok out ∧
    readPacket sampleQuery = some d ∧ readPacket out = some d' ∧ Translates d d' poolAddress queryServer (some 40000) none ∧
    ∃ s u, nat64Packet out (.v6 s) (.v6 u) (some 5000) none = .ok (restored d).emit := by
  have taken : (nat64Packet sampleQuery poolAddress queryServer (some 40000) none).isOk = true := by decide +kernel
  cases found : nat64Packet sampleQuery poolAddress queryServer (some 40000) none with
  | error e =>
    rw [found] at taken
    cases taken
  | ok out =>
    obtain ⟨d, d', read, readOut, translates, -⟩ := nat64Packet_correct.1 _ _ _ _ _ _ found
    have facts : (readPacket sampleQuery).all (fun d => d.source.length = 16 ∧ d.destination.length = 16 ∧ d.ttl = 64 ∧
        original d.payload 0 (some 40000) = some 5000) = true := by decide +kernel
    rw [read, Option.all_some, decide_eq_true_iff] at facts
    obtain ⟨source, destination, hops, port⟩ := facts
    obtain ⟨-, same, iff⟩ := nat64Packet_correct.2 _ _ _ _ _ _ d ⟨d.source, source⟩ ⟨d.destination, destination⟩ found read rfl rfl
    rw [port] at same iff
    obtain ⟨back, sent⟩ := iff.mpr ⟨by omega, by simp [PortOk], fun p none' => nomatch none'⟩
    exact ⟨out, d, d', rfl, read, readOut, translates, _, _, (same back sent) ▸ sent⟩

end FfnNgfw.Ipv6
