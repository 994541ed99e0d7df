import FfnNgfw.Dhcp.Intent
import FfnNgfw.Lib.Bytes

/-!
# The DHCP server of a device

`handle` takes one received frame to the replies and the new lease table: one row for each
address, offered, bound or declined. Times are whatever the clock counts in. A reply is what
is given to `build`.
-/

namespace FfnNgfw.Dhcp

/-! ### Messages -/

inductive MessageType where
  | discover
  | request
  | decline
  | release
  | inform
  deriving DecidableEq

/-- `CLIENT_MESSAGES` -/
def messageType : List UInt8 → Option MessageType
  | [1] => some .discover
  | [3] => some .request
  | [4] => some .decline
  | [7] => some .release
  | [8] => some .inform
  | _ => none

abbrev MessageOptions := Dict UInt8 (List UInt8)

structure Message where
  srcMac : List UInt8
  dstMac : List UInt8
  srcIp : List UInt8
  xid : Nat
  secs : Nat
  flags : Nat
  ciaddr : List UInt8
  yiaddr : List UInt8
  giaddr : List UInt8
  chaddr : List UInt8
  type : MessageType
  options : MessageOptions
  sport : Nat

def magic : List UInt8 := [0x63, 0x82, 0x53, 0x63]

def number16 (raw : List UInt8) (offset : Nat) : Nat := ByteOrder.big.fromBytes (slice raw offset 2)

/-- The options of a message, from the tag at `i` on; the first value of a tag counts. -/
def optionsFrom (data : List UInt8) (i : Nat) (options : MessageOptions) : MessageOptions :=
  if i < data.length then
    let tag := data.getD i 0
    if tag = 0 then optionsFrom data (i + 1) options
    else if tag = 255 then options
    else if data.length ≤ i + 1 then options
    else
      let length := (data.getD (i + 1) 0).toNat
      let value := slice data (i + 2) length
      if value.length < length then options
      else optionsFrom data (i + 2 + length) (if tag ∈ options then options else options.insert tag value)
  else options
termination_by data.length - i

/-- Ethernet/IPv4/UDP/DHCP request, or nothing for anything else. -/
def parse (frame : List UInt8) : Option Message :=
  if frame.length < 14 + 20 + 8 + 240 then none
  else if slice frame 12 2 ≠ [0x08, 0x00] then none
  else
    let ihl := (frame.getD 14 0).toNat % 16 * 4
    if ihl < 20 ∨ frame.getD 23 0 ≠ 17 ∨ number16 frame 20 % 0x2000 ≠ 0 then none
    else
      let ipLen := number16 frame 16
      let udp := 14 + ihl
      if frame.length < udp + 8 then none
      else if number16 frame (udp + 2) ≠ 67 then none
      else
        let last := min frame.length (min (14 + ipLen) (udp + number16 frame (udp + 4)))
        let data := slice frame (udp + 8) (last - (udp + 8))
        if data.length < 240 ∨ slice data 236 4 ≠ magic then none
        else if data.getD 0 0 ≠ 1 ∨ data.getD 1 0 ≠ 1 ∨ data.getD 2 0 ≠ 6 then none
        else
          let options := optionsFrom data 240 ∅
          match messageType ((options.lookup 53).getD []) with
          | none => none
          | some type => some {
              srcMac := slice frame 6 6
              dstMac := slice frame 0 6
              srcIp := slice frame 26 4
              xid := ByteOrder.big.fromBytes (slice data 4 4)
              secs := number16 data 8
              flags := number16 data 10
              ciaddr := slice data 12 4
              yiaddr := slice data 16 4
              giaddr := slice data 24 4
              chaddr := slice data 28 6
              type := type
              options := options
              sport := number16 frame udp }

def hexByte (b : UInt8) : String := String.ofList [Nat.digitChar (b.toNat / 16), Nat.digitChar (b.toNat % 16)]

namespace Message

variable (m : Message)

def mac : String := ":".intercalate (m.chaddr.map hexByte)

/-- The client, by its client identifier or by its hardware address. -/
def key : String :=
  match m.options.lookup 61 with
  | none | some [] => "mac:" ++ m.mac
  | some raw => "id:" ++ String.join (raw.map hexByte)

def addressOf (raw : List UInt8) : UInt32 := UInt32.ofNat (ByteOrder.big.fromBytes raw)

def requested : Option UInt32 :=
  match m.options.lookup 50 with
  | some raw => if raw.length = 4 then some (addressOf raw) else none
  | none => none

def client : Option UInt32 := if m.ciaddr ≠ [0, 0, 0, 0] then some (addressOf m.ciaddr) else none

def relayed : Prop := m.giaddr ≠ [0, 0, 0, 0]

instance : Decidable m.relayed := inferInstanceAs (Decidable (_ ≠ _))

end Message

inductive LeaseState where
  | offered
  | bound
  | declined
  deriving DecidableEq

structure Row (Time : Type) where
  state : LeaseState
  key : Option String
  mac : Option String
  since : Time
  expires : Option Time
  deriving DecidableEq

abbrev Leases (Time : Type) := Dict UInt32 (Row Time)

section leases

variable {Time : Type}

def Leases.expire [LinearOrder Time] (rows : Leases Time) (now : Time) : Leases Time :=
  (rows.items.filter fun item => item.2.expires.any fun t => t ≤ now).foldl (fun rows item => rows.erase item.1) rows

def Leases.heldBy (rows : Leases Time) (key : String) : Option (UInt32 × Row Time) :=
  rows.items.find? fun item => item.2.key = some key ∧ (item.2.state = .offered ∨ item.2.state = .bound)

end leases

/-! ### Replies -/

inductive ReplyKind where
  | offer
  | ack
  | nak
  deriving DecidableEq

abbrev SentOption := UInt8 × List UInt8

/-- What is given to `build`; without a `yiaddr` the field is zero, and the options are put into
bytes there. -/
structure Reply where
  kind : ReplyKind
  message : Message
  yiaddr : Option UInt32
  options : List SentOption
  dstMac : List UInt8
  dstIp : List UInt8

def packed (ip : UInt32) : List UInt8 := ByteOrder.big.toBytes 4 ip.toNat

def option (tag : UInt8) (value : List UInt8) : List UInt8 := tag :: UInt8.ofNat value.length :: value

def infinite : Nat := 0xffffffff

namespace Spec

variable (spec : Spec)

def leaseOptions (lease : Bool) : List SentOption :=
  let times : List SentOption := if lease then
      (51, ByteOrder.big.toBytes 4 (spec.lease.getD infinite)) ::
        match spec.lease with
        | none => []
        | some seconds => [(58, ByteOrder.big.toBytes 4 (seconds / 2)), (59, ByteOrder.big.toBytes 4 (seconds * 7 / 8))]
    else []
  let addresses (tag : UInt8) (values : List UInt32) : List SentOption :=
    if values.isEmpty then [] else [(tag, values.flatMap packed)]
  let network : List SentOption := [(1, packed (spec.options.subnetMask.getD spec.netmask)), (28, packed spec.broadcastAddress),
    (3, packed (spec.options.gateway.getD spec.address))]
  times ++ network ++ addresses 6 spec.options.dns ++ addresses 42 spec.options.ntp ++ addresses 44 spec.options.wins ++
    match spec.options.domain with
    | none => []
    | some domain => [(15, domain.toUTF8.data.toList)]

end Spec

def reply (kind : ReplyKind) (message : Message) (yiaddr : Option UInt32) (options : List SentOption) : Reply :=
  let addressed : List UInt8 × List UInt8 :=
    if kind = .nak ∨ (0x8000 ≤ message.flags ∧ message.ciaddr = [0, 0, 0, 0]) then
      (List.replicate 6 0xff, List.replicate 4 0xff)
    else if message.ciaddr ≠ [0, 0, 0, 0] then (message.srcMac, message.ciaddr)
    else (message.chaddr, packed (yiaddr.getD 0))
  let options := match message.options.lookup 61 with
    | some raw => if kind ≠ .nak then options ++ [(61, raw)] else options
    | none => options
  ⟨kind, message, yiaddr, options, addressed.1, addressed.2⟩

def nak (message : Message) (reason : String) : List Reply :=
  [reply .nak message none [(56, reason.toUTF8.data.toList.take 64)]]

/-! ### The server -/

namespace Spec

variable (spec : Spec)

def inPool (ip : UInt32) : Bool := spec.pools.any fun pool => pool.1 ≤ ip && ip ≤ pool.2

def reservedIps : List UInt32 := spec.reserved.items.map Prod.snd

def candidates : List UInt32 :=
  (spec.pools.flatMap fun pool => (List.range' pool.1.toNat (pool.2.toNat + 1 - pool.1.toNat)).map UInt32.ofNat).filter
    fun ip => ip ∉ spec.reservedIps

end Spec

def offerSeconds : Nat := 60

def declineSeconds : Nat := 600

section server

variable {Time : Type} [Add Time] [NatCast Time]

def declinedRow (mac : Option String) (now : Time) : Row Time := ⟨.declined, none, mac, now, some (now + (declineSeconds : Nat))⟩

/-- The first address that is free or the client's own, and does not answer a probe. -/
def firstFree (spec : Spec) (probe : UInt32 → Bool) (key : String) (now : Time) :
    List UInt32 → Leases Time → Option UInt32 × Leases Time
  | [], rows => (none, rows)
  | ip :: rest, rows =>
    if (rows.lookup ip).any fun row => row.key ≠ some key then firstFree spec probe key now rest rows
    else if spec.probe && probe ip then firstFree spec probe key now rest (rows.assign ip (declinedRow none now))
    else (some ip, rows)

def allocate (spec : Spec) (probe : UInt32 → Bool) (rows : Leases Time) (key mac : String) (requested : Option UInt32) (now : Time) :
    Option UInt32 × Leases Time :=
  match spec.reserved.lookup mac with
  | some ip => (some ip, rows)
  | none =>
    match rows.heldBy key with
    | some (ip, _) => (some ip, rows)
    | none => firstFree spec probe key now
      ((requested.filter fun ip => spec.inPool ip && ip ∉ spec.reservedIps).toList ++ spec.candidates) rows

def bindRow (spec : Spec) (key mac : String) (now : Time) (state : LeaseState) : Row Time where
  state := state
  key := some key
  mac := some mac
  since := now
  expires := if state = .bound then spec.lease.map fun (seconds : Nat) => now + seconds else some (now + (offerSeconds : Nat))

def bind (spec : Spec) (rows : Leases Time) (ip : UInt32) (key mac : String) (now : Time) (state : LeaseState) : Leases Time :=
  rows.assign ip (bindRow spec key mac now state)

omit [Add Time] [NatCast Time] in
def release (rows : Leases Time) (ip : UInt32) (key : String) : Leases Time :=
  match rows.lookup ip with
  | some row => if row.key = some key then rows.erase ip else rows
  | none => rows

omit [Add Time] [NatCast Time] in
/-- Is `ip` the client's reservation, or a binding (offer or lease) held by it? -/
def offeredTo (spec : Spec) (rows : Leases Time) (ip : UInt32) (key mac : String) (boundOnly : Bool) : Bool :=
  if spec.reserved.lookup mac = some ip then true
  else if ip ∈ spec.reservedIps then false
  else
    match rows.lookup ip with
    | none => false
    | some row => row.key = some key && (row.state = .bound || (!boundOnly && row.state = .offered))

variable (spec : Spec) (probe : UInt32 → Bool) (rows : Leases Time) (now : Time) (m : Message)

def handleDiscover : List Reply × Leases Time :=
  match allocate spec probe rows m.key m.mac m.requested now with
  | (none, rows) => ([], rows)
  | (some ip, rows) => ([reply .offer m (some ip) (spec.leaseOptions true)], bind spec rows ip m.key m.mac now .offered)

def acknowledge (target : UInt32) : List Reply × Leases Time :=
  ([reply .ack m (some target) (spec.leaseOptions true)], bind spec rows target m.key m.mac now .bound)

def handleRequest : List Reply × Leases Time :=
  match m.options.lookup 54 with
  | some server =>
    if server ≠ packed spec.address then
      match rows.heldBy m.key with
      | some (ip, row) => ([], if row.state = .offered then release rows ip m.key else rows)
      | none => ([], rows)
    else
      match m.requested with
      | none => (nak m "requested address was not offered", rows)
      | some target =>
        if offeredTo spec rows target m.key m.mac false then acknowledge spec rows now m target
        else (nak m "requested address was not offered", rows)
  | none =>
    match m.requested, m.client with
    | some target, _ =>
      if !spec.inNetwork target then (nak m "wrong network", rows)
      else if offeredTo spec rows target m.key m.mac true then acknowledge spec rows now m target
      else (nak m "address is not leased to this client", rows)
    | none, some target =>
      if spec.inNetwork target ∧ offeredTo spec rows target m.key m.mac true then acknowledge spec rows now m target
      else (nak m "lease is not held by this client", rows)
    | none, none => ([], rows)

def handleDecline : List Reply × Leases Time :=
  match m.requested with
  | some ip => ([], if spec.inPool ip then rows.assign ip (declinedRow (some m.mac) now) else rows)
  | none => ([], rows)

omit [Add Time] [NatCast Time] in
def handleRelease : List Reply × Leases Time :=
  match m.client with
  | some ip => ([], release rows ip m.key)
  | none => ([], rows)

omit [Add Time] [NatCast Time] in
def handleInform : List Reply × Leases Time :=
  match m.client with
  | none => ([], rows)
  | some _ => ([reply .ack m none (spec.leaseOptions false)], rows)

def handleMessage : List Reply × Leases Time :=
  match m.type with
  | .discover => handleDiscover spec probe rows now m
  | .request => handleRequest spec rows now m
  | .decline => handleDecline spec rows now m
  | .release => handleRelease rows m
  | .inform => handleInform spec rows m

def handle [LinearOrder Time] (frame : List UInt8) : List Reply × Leases Time :=
  match parse frame with
  | none => ([], rows)
  | some m => if m.relayed then ([], rows.expire now) else handleMessage spec probe (rows.expire now) now m

end server

end FfnNgfw.Dhcp
