import FfnNgfw.Lib.Bytes
import FfnNgfw.Lib.Fallible
import FfnNgfw.Policy.Objects

/-!
# Conntrack events

`decode` takes a datagram of netlink messages apart. Headers and labels are in the byte
order of the machine, addresses, ports, ids and counters in network order.
-/

namespace FfnNgfw.Runtime

open Policy

inductive EventFailure where
  | eventError (text : String)
  /-- A lost event can be recovered only from a complete kernel snapshot. -/
  | eventGap (text : String)
  deriving DecidableEq

abbrev Attributes := List (Nat × List UInt8)

/-- `(size + 3) & ~3` -/
def aligned (size : Nat) : Nat := (size + 3) / 4 * 4

section attributes

variable (order : ByteOrder) (padding : List Nat) (raw : List UInt8)

def attributesFrom (offset : Nat) (result : Attributes) : Except String Attributes :=
  if offset < raw.length then
    if raw.length - offset < 4 then .error "Truncated netlink attribute"
    else
      let size := order.fromBytes (slice raw offset 2)
      let kind := order.fromBytes (slice raw (offset + 2) 2) % 0x4000
      if size < 4 ∨ raw.length < offset + size then .error "Invalid netlink attribute length"
      else if kind ∈ padding ∧ size = 4 then attributesFrom (offset + 4) result
      else if (result.lookup kind).isSome then .error "Duplicate netlink attribute"
      else attributesFrom (offset + aligned size) (result ++ [(kind, slice raw (offset + 4) (size - 4))])
  else if offset = raw.length then .ok result
  else .error "Truncated netlink attribute padding"
termination_by raw.length - offset
decreasing_by
  · omega
  · unfold aligned at *
    omega

def attributes : Except String Attributes := attributesFrom order padding raw 0 []

end attributes

def integer (raw : List UInt8) (size : Nat) : Except String Nat :=
  if raw.length ≠ size then .error "Invalid conntrack scalar length" else .ok (ByteOrder.big.fromBytes raw)

/-- `data[kind]`; the text of a `KeyError` is its key. -/
def Attributes.get (data : Attributes) (kind : Nat) : Except String (List UInt8) :=
  match data.lookup kind with
  | some raw => .ok raw
  | none => .error (toString kind)

/-- `integer(data[kind], size) if kind in data else None` -/
def Attributes.integer? (data : Attributes) (kind size : Nat) : Except String (Option Nat) :=
  match data.lookup kind with
  | some raw => (integer raw size).map some
  | none => .ok none

/-- A byte as `repr` writes it between quotes. -/
def reprByte (quote : Char) (b : UInt8) : List Char :=
  let c := Char.ofNat b.toNat
  if c = quote ∨ c = '\\' then ['\\', c]
  else if c = '\t' then ['\\', 't']
  else if c = '\n' then ['\\', 'n']
  else if c = '\r' then ['\\', 'r']
  else if b.toNat < 0x20 ∨ 0x7f ≤ b.toNat then ['\\', 'x', Nat.digitChar (b.toNat / 16), Nat.digitChar (b.toNat % 16)]
  else [c]

def reprBytes (raw : List UInt8) : String :=
  let quote := if 0x27 ∈ raw ∧ 0x22 ∉ raw then '"' else '\''
  String.ofList (['b', quote] ++ raw.flatMap (reprByte quote) ++ [quote])

/-- `str(ipaddress.IPv4Address(raw))` -/
def packedAddress (raw : List UInt8) : Except String String :=
  if raw.length ≠ 4 then
    .error (reprBytes raw ++ " (len " ++ toString raw.length ++ " != 4) is not permitted as an IPv4 address")
  else .ok (dotted (UInt32.ofNat (ByteOrder.big.fromBytes raw)))

structure TupleData where
  source : String
  destination : String
  protocol : Nat
  sourcePort : Option Nat
  destinationPort : Option Nat
  icmpId : Option Nat
  icmpType : Option Nat
  icmpCode : Option Nat
  deriving DecidableEq

def tupleData (order : ByteOrder) (raw : List UInt8) : Except String TupleData := do
  let data ← attributes order [] raw
  let ip ← attributes order [] (← data.get 1)
  let proto ← attributes order [] (← data.get 2)
  return {
    source := ← packedAddress (← ip.get 1)
    destination := ← packedAddress (← ip.get 2)
    protocol := ← integer (← proto.get 1) 1
    sourcePort := ← proto.integer? 2 2
    destinationPort := ← proto.integer? 3 2
    icmpId := ← proto.integer? 4 2
    icmpType := ← proto.integer? 5 1
    icmpCode := ← proto.integer? 6 1 }

inductive EventKind where
  | start
  | update
  | «end»
  deriving DecidableEq

structure Counters where
  packets : Nat
  bytes : Nat
  deriving DecidableEq

structure Event where
  event : EventKind
  id : Nat
  token : Option Nat
  original : TupleData
  reply : TupleData
  originalCounters : Option Counters
  replyCounters : Option Counters
  status : Option Nat
  timeout : Option Nat
  zone : Nat
  tcpState : Option Nat
  deriving DecidableEq

def tcpState (order : ByteOrder) (data : Attributes) : Except String (Option Nat) :=
  match data.lookup 4 with
  | none => .ok none
  | some raw => do
    let info ← attributes order [] raw
    match info.lookup 1 with
    | none => .ok none
    | some raw => (← attributes order [] raw).integer? 1 1

def counters (order : ByteOrder) (data : Attributes) (key : Nat) : Except String (Option Counters) :=
  match data.lookup key with
  | none => .ok none
  | some raw => do
    let nested ← attributes order [5] raw
    return some ⟨← integer (← nested.get 1) 8, ← integer (← nested.get 2) 8⟩

/-- `labels >> 1 if labels & 1 else None` -/
def labelToken (order : ByteOrder) (label : List UInt8) : Option Nat :=
  let labels := order.fromBytes label
  if labels % 2 = 1 then some (labels / 2) else none

def ownedEvent (order : ByteOrder) (kind flags : Nat) (body : List UInt8) : Except String Event := do
  let data ← attributes order [] (body.drop 4)
  let label := (data.lookup 22).getD []
  if label.length ≠ 0 ∧ label.length ≠ 16 then .error "Invalid conntrack label size"
  else
    let status ← data.integer? 3 4
    let timeout ← data.integer? 7 4
    let zone ← data.integer? 18 2
    let tcp ← tcpState order data
    let original ← counters order data 9
    let reply ← counters order data 10
    return {
      event := if kind = 0x102 then .end else if flags &&& 0x600 ≠ 0 then .start else .update
      id := ← integer (← data.get 12) 4
      token := labelToken order label
      original := ← tupleData order (← data.get 1)
      reply := ← tupleData order (← data.get 2)
      originalCounters := original
      replyCounters := reply
      status := status
      timeout := timeout
      zone := zone.getD 0
      tcpState := tcp }

section decode

-- `errno.errorcode` of the machine
variable (errorcode : Nat → Option String) (order : ByteOrder)

/-- `int.from_bytes(raw, byteorder, signed=True)` of four bytes. -/
def signed (raw : List UInt8) : Int :=
  let value := order.fromBytes raw
  if value < 2 ^ 31 then value else value - 2 ^ 32

def message (kind flags : Nat) (body : List UInt8) : Except EventFailure (Option Event) :=
  if kind = 4 then .error (.eventGap "Conntrack event stream overrun")
  else if kind = 2 then
    if body.length < 4 then .error (.eventError "Truncated conntrack netlink error")
    else
      let code := signed order (body.take 4)
      if code ≠ 0 then .error (.eventError ("Conntrack netlink error: " ++ (errorcode code.natAbs).getD (toString code)))
      else .ok none
  else if kind ≠ 0x100 ∧ kind ≠ 0x102 then .ok none
  else if body.length < 4 then .error (.eventError "Truncated nfgenmsg")
  else if body.head? ≠ some 2 then .ok none
  else
    match ownedEvent order kind flags body with
    | .error text => .error (.eventError ("Malformed owned conntrack event: " ++ text))
    | .ok event => .ok (some event)

def decodeFrom (raw : List UInt8) (offset : Nat) (result : List Event) : Except EventFailure (List Event) :=
  if offset < raw.length then
    if raw.length - offset < 16 then .error (.eventError "Truncated netlink header")
    else
      let size := order.fromBytes (slice raw offset 4)
      let kind := order.fromBytes (slice raw (offset + 4) 2)
      let flags := order.fromBytes (slice raw (offset + 6) 2)
      if size < 16 ∨ raw.length < offset + size then .error (.eventError "Invalid netlink message length")
      else
        match message errorcode order kind flags (slice raw (offset + 16) (size - 16)) with
        | .error failure => .error failure
        | .ok event => decodeFrom raw (offset + aligned size) (result ++ event.toList)
  else if offset = raw.length then .ok result
  else .error (.eventError "Truncated netlink message padding")
termination_by raw.length - offset
decreasing_by
  unfold aligned at *
  omega

def decode (raw : List UInt8) : Except EventFailure (List Event) := decodeFrom errorcode order raw 0 []

end decode

/-! ### Datagrams -/

structure Message where
  kind : UInt16
  flags : UInt16
  sequence : UInt32
  sender : UInt32
  body : List UInt8
  fits : body.length + 16 < 2 ^ 32

def Message.pack (order : ByteOrder) (m : Message) : List UInt8 :=
  order.toBytes 4 (m.body.length + 16) ++ order.toBytes 2 m.kind.toNat ++ order.toBytes 2 m.flags.toNat ++
    order.toBytes 4 m.sequence.toNat ++ order.toBytes 4 m.sender.toNat ++ m.body ++
    List.replicate (aligned m.body.length - m.body.length) 0

def datagram (order : ByteOrder) (ms : List Message) : List UInt8 := ms.flatMap (Message.pack order)

section datagram

variable {errorcode : Nat → Option String} {order : ByteOrder}

theorem le_aligned (size : Nat) : size ≤ aligned size := by
  unfold aligned
  omega

theorem aligned_header (size : Nat) : aligned (size + 16) = aligned size + 16 := by
  unfold aligned
  omega

theorem pack_length (m : Message) : (m.pack order).length = aligned (m.body.length + 16) := by
  have padded := le_aligned m.body.length
  rw [aligned_header]
  simp only [Message.pack, List.length_append, ByteOrder.toBytes_length, List.length_replicate]
  omega

theorem pack_size (m : Message) (front rest : List UInt8) :
    order.fromBytes (slice (front ++ m.pack order ++ rest) front.length 4) = m.body.length + 16 := by
  have found : slice (front ++ m.pack order ++ rest) front.length 4 = order.toBytes 4 (m.body.length + 16) := by
    unfold Message.pack
    simp only [List.append_assoc]
    rw [← List.append_assoc]
    exact slice_append rfl (order.toBytes_length 4 _)
  rw [found]
  exact order.fromBytes_toBytes m.fits

theorem pack_kind (m : Message) (front rest : List UInt8) :
    order.fromBytes (slice (front ++ m.pack order ++ rest) (front.length + 4) 2) = m.kind.toNat := by
  have found : slice (front ++ m.pack order ++ rest) (front.length + 4) 2 = order.toBytes 2 m.kind.toNat := by
    unfold Message.pack
    simp only [List.append_assoc]
    rw [← List.append_assoc, ← List.append_assoc]
    refine slice_append ?_ (order.toBytes_length 2 _)
    rw [List.length_append, order.toBytes_length]
  rw [found]
  exact order.fromBytes_toBytes m.kind.toNat_lt

theorem pack_flags (m : Message) (front rest : List UInt8) :
    order.fromBytes (slice (front ++ m.pack order ++ rest) (front.length + 6) 2) = m.flags.toNat := by
  have found : slice (front ++ m.pack order ++ rest) (front.length + 6) 2 = order.toBytes 2 m.flags.toNat := by
    unfold Message.pack
    simp only [List.append_assoc]
    rw [← List.append_assoc, ← List.append_assoc, ← List.append_assoc]
    refine slice_append ?_ (order.toBytes_length 2 _)
    simp only [List.length_append, order.toBytes_length]
  rw [found]
  exact order.fromBytes_toBytes m.flags.toNat_lt

theorem pack_body (m : Message) (front rest : List UInt8) :
    slice (front ++ m.pack order ++ rest) (front.length + 16) (m.body.length + 16 - 16) = m.body := by
  unfold Message.pack
  simp only [List.append_assoc, Nat.add_sub_cancel]
  rw [← List.append_assoc, ← List.append_assoc, ← List.append_assoc, ← List.append_assoc, ← List.append_assoc, ← List.append_assoc]
  refine slice_append ?_ rfl
  simp only [List.length_append, order.toBytes_length]

theorem decodeFrom_pack (m : Message) (front rest : List UInt8) (result : List Event) :
    decodeFrom errorcode order (front ++ m.pack order ++ rest) front.length result =
      match message errorcode order m.kind.toNat m.flags.toNat m.body with
      | .error failure => .error failure
      | .ok event => decodeFrom errorcode order (front ++ m.pack order ++ rest)
          (front ++ m.pack order).length (result ++ event.toList) := by
  have size : order.fromBytes (slice (front ++ m.pack order ++ rest) front.length 4) = m.body.length + 16 := pack_size m front rest
  have length : (front ++ m.pack order ++ rest).length = front.length + aligned (m.body.length + 16) + rest.length := by
    rw [List.length_append, List.length_append, pack_length]
  have padded := le_aligned (m.body.length + 16)
  rw [decodeFrom]
  rw [if_pos (by omega), if_neg (by omega)]
  dsimp only
  rw [size, pack_kind, pack_flags, pack_body, if_neg (by omega), List.length_append, pack_length]

theorem decodeFrom_datagram (ms : List Message) (front : List UInt8) (result : List Event) :
    decodeFrom errorcode order (front ++ datagram order ms) front.length result =
      (ms.mapM fun m => message errorcode order m.kind.toNat m.flags.toNat m.body).map fun events =>
        result ++ events.flatMap Option.toList := by
  induction ms generalizing front result with
  | nil =>
    rw [decodeFrom]
    simp [datagram, pure, Except.pure, Except.map]
  | cons m rest ih =>
    have split : front ++ datagram order (m :: rest) = front ++ m.pack order ++ datagram order rest := by
      simp [datagram]
    rw [split, decodeFrom_pack, List.mapM_cons]
    cases message errorcode order m.kind.toNat m.flags.toNat m.body with
    | error failure => rfl
    | ok event =>
      dsimp only
      rw [ih]
      cases rest.mapM fun m => message errorcode order m.kind.toNat m.flags.toNat m.body with
      | error failure => rfl
      | ok events => simp [Except.map, bind, Except.bind, pure, Except.pure]

/-- An IPv4 session event with `label` as its attribute 22. -/
def Message.Carries (order : ByteOrder) (m : Message) (label : List UInt8) : Prop :=
  (m.kind = 0x100 ∨ m.kind = 0x102) ∧ m.body.head? = some 2 ∧
    ∃ data, attributes order [] (m.body.drop 4) = .ok data ∧ data.lookup 22 = some label

theorem ownedEvent_token {kind flags : Nat} {body label : List UInt8} {data : Attributes} {event : Event}
    (parsed : attributes order [] (body.drop 4) = .ok data) (carried : data.lookup 22 = some label)
    (owned : ownedEvent order kind flags body = .ok event) : event.token = labelToken order label := by
  unfold ownedEvent at owned
  obtain ⟨data', parsed', owned⟩ := bind_ok owned
  cases parsed.symm.trans parsed'
  dsimp only at owned
  split at owned
  · cases owned
  obtain ⟨status, _, owned⟩ := bind_ok owned
  obtain ⟨timeout, _, owned⟩ := bind_ok owned
  obtain ⟨zone, _, owned⟩ := bind_ok owned
  obtain ⟨tcp, _, owned⟩ := bind_ok owned
  obtain ⟨originalCounters, _, owned⟩ := bind_ok owned
  obtain ⟨replyCounters, _, owned⟩ := bind_ok owned
  obtain ⟨idBytes, _, owned⟩ := bind_ok owned
  obtain ⟨id, _, owned⟩ := bind_ok owned
  obtain ⟨originalBytes, _, owned⟩ := bind_ok owned
  obtain ⟨original, _, owned⟩ := bind_ok owned
  obtain ⟨replyBytes, _, owned⟩ := bind_ok owned
  obtain ⟨reply, _, owned⟩ := bind_ok owned
  cases owned
  dsimp only
  rw [carried]
  rfl

theorem message_token {m : Message} {label : List UInt8} {event : Option Event} (carries : m.Carries order label)
    (got : message errorcode order m.kind.toNat m.flags.toNat m.body = .ok event) :
    ∃ e, event = some e ∧ e.token = labelToken order label := by
  obtain ⟨kinds, inet, data, parsed, carried⟩ := carries
  have kind : m.kind.toNat = 0x100 ∨ m.kind.toNat = 0x102 := by
    rcases kinds with h | h
    · exact Or.inl (congrArg UInt16.toNat h)
    · exact Or.inr (congrArg UInt16.toNat h)
  unfold message at got
  rw [if_neg (by omega), if_neg (by omega), if_neg (by omega)] at got
  split at got
  · cases got
  rw [if_neg (by simp [inet])] at got
  cases owned : ownedEvent order m.kind.toNat m.flags.toNat m.body with
  | error text =>
    rw [owned] at got
    cases got
  | ok e =>
    rw [owned] at got
    cases got
    exact ⟨e, rfl, ownedEvent_token parsed carried owned⟩

theorem decode_token {ms : List Message} {events : List Event} (decoded : decode errorcode order (datagram order ms) = .ok events)
    {m : Message} (member : m ∈ ms) {label : List UInt8} (carries : m.Carries order label) :
    ∃ e ∈ events, message errorcode order m.kind.toNat m.flags.toNat m.body = .ok (some e) ∧ e.token = labelToken order label := by
  have loop : decode errorcode order (datagram order ms) = _ := decodeFrom_datagram ms [] []
  rw [loop] at decoded
  obtain ⟨outcomes, each, rfl⟩ := map_ok decoded
  obtain ⟨outcome, inside, got⟩ := mapM_mem each member
  obtain ⟨e, rfl, token⟩ := message_token carries got
  refine ⟨e, ?_, got, token⟩
  rw [List.nil_append, List.mem_flatMap]
  exact ⟨some e, inside, by simp⟩

end datagram

end FfnNgfw.Runtime
