import FfnNgfw.Dhcp.Exclusive
import FfnNgfw.Lib.Fallible
import FfnNgfw.Lib.OnesComplement

/-!
# The frames of a DHCP server

`build` puts a reply into an Ethernet frame. An option says its length in one byte, so a
value of more than 255 bytes cannot be sent; every other frame is one that verifies and whose
options are read back as they were written.
-/

namespace FfnNgfw.Dhcp

open OnesComplement

/-! ### Building -/

structure Mac where
  raw : List UInt8
  width : raw.length = 6

def encodeOption (o : SentOption) : Except String (List UInt8) :=
  if 255 < o.2.length then .error "bytes must be in range(0, 256)" else .ok (option o.1 o.2)

def encodeOptions (options : List SentOption) : Except String (List UInt8) := (options.mapM encodeOption).map List.flatten

def ReplyKind.code : ReplyKind → UInt8
  | .offer => 2
  | .ack => 5
  | .nak => 6

def zeros (n : Nat) : List UInt8 := List.replicate n 0

def word (value : Nat) : List UInt8 := ByteOrder.big.toBytes 2 value

def Reply.written (spec : Spec) (r : Reply) : List SentOption := (53, [r.kind.code]) :: (54, packed spec.address) :: r.options

def Reply.fields (r : Reply) : List UInt8 :=
  [2, 1, 6, 0] ++ ByteOrder.big.toBytes 4 r.message.xid ++ word 0 ++ word r.message.flags ++
    (if r.kind = .nak then zeros 4 else r.message.ciaddr) ++ packed (r.yiaddr.getD 0) ++ zeros 4 ++ r.message.giaddr ++
    r.message.chaddr ++ zeros 10 ++ zeros 64 ++ zeros 128 ++ magic

def Reply.body (r : Reply) (options : List UInt8) : List UInt8 :=
  let body := r.fields ++ options ++ [255]
  body ++ zeros (300 - body.length)

def pseudoHeader (source destination : List UInt8) (length : Nat) : List UInt8 := source ++ destination ++ [0, 17] ++ word length

def datagram (sport : Nat) (source destination body : List UInt8) : List UInt8 :=
  let udp := word 67 ++ word (if sport ≠ 67 then 68 else 67) ++ word (8 + body.length) ++ word 0 ++ body
  let sum := checksum (pseudoHeader source destination udp.length ++ udp)
  putWord udp 6 (if sum = 0 then 0xffff else sum)

def ipHeader (ident : UInt16) (length : Nat) (source destination : List UInt8) : List UInt8 :=
  let ip := [0x45, 0] ++ word (20 + length) ++ word ident.toNat ++ word 0 ++ [64, 17] ++ word 0 ++ source ++ destination
  putWord ip 10 (checksum ip)

/-- A complete frame; `ident` is the random identification of its packet. -/
def build (spec : Spec) (mac : Mac) (ident : UInt16) (r : Reply) : Except String (List UInt8) := do
  let options ← encodeOptions (r.written spec)
  let udp := datagram r.message.sport (packed spec.address) r.dstIp (r.body options)
  return r.dstMac ++ mac.raw ++ [0x08, 0x00] ++ ipHeader ident udp.length (packed spec.address) r.dstIp ++ udp

section

variable {Time : Type} [Add Time] [NatCast Time] [LinearOrder Time]

def respond (spec : Spec) (mac : Mac) (ident : UInt16) (probe : UInt32 → Bool) (rows : Leases Time) (now : Time)
    (frame : List UInt8) : Except String (List (List UInt8)) :=
  (handle spec probe rows now frame).1.mapM (build spec mac ident)

end

/-! ### Reading -/

/-- The options from `i` on, up to the end mark; nothing where they break off. -/
def walk (data : List UInt8) (i : Nat) : Option (List SentOption) :=
  if i < data.length then
    let tag := data.getD i 0
    if tag = 0 then walk data (i + 1)
    else if tag = 255 then some []
    else if data.length ≤ i + 1 then none
    else
      let length := (data.getD (i + 1) 0).toNat
      let value := slice data (i + 2) length
      if value.length < length then none else (walk data (i + 2 + length)).map ((tag, value) :: ·)
  else none
termination_by data.length - i

/-- A frame whose checksums and lengths are right, that answers the message with these options. -/
structure WellFormed (m : Message) (written : List SentOption) (frame : List UInt8) : Prop where
  ipChecksum : checksum (slice frame 14 20) = 0
  ipLength : number16 frame 16 = frame.length - 14
  udpChecksum : checksum (pseudoHeader (slice frame 26 4) (slice frame 30 4) (frame.length - 34) ++ frame.drop 34) = 0
  udpSummed : number16 frame 40 ≠ 0
  udpLength : number16 frame 38 = frame.length - 34
  xid : ByteOrder.big.fromBytes (slice frame 46 4) = m.xid
  chaddr : slice frame 70 6 = m.chaddr
  options : walk (frame.drop 42) 240 = some written

def Readable (o : SentOption) : Prop := o.1 ≠ 0 ∧ o.1 ≠ 255 ∧ o.2.length ≤ 255

theorem readable {tag : UInt8} {value : List UInt8} (marks : tag ≠ 0 ∧ tag ≠ 255) (short : value.length ≤ 255) : Readable (tag, value) :=
  ⟨marks.1, marks.2, short⟩

def encoded (options : List SentOption) : List UInt8 := options.flatMap fun o => option o.1 o.2

theorem encodeOption_ok_iff {o : SentOption} : (∃ raw, encodeOption o = .ok raw) ↔ o.2.length ≤ 255 := by
  unfold encodeOption
  by_cases long : 255 < o.2.length
  · simp [if_pos long, Nat.not_le.mpr long]
  · simp [if_neg long, Nat.not_lt.mp long]

variable {options : List SentOption} {device : String}

theorem encodeOptions_short (short : ∀ o ∈ options, o.2.length ≤ 255) :
    encodeOptions options = .ok (encoded options) := by
  induction options with
  | nil => rfl
  | cons o rest ih =>
    have later := ih fun x member => short x (List.mem_cons_of_mem o member)
    obtain ⟨raws, read, flat⟩ := map_ok later
    have first : encodeOption o = .ok (option o.1 o.2) := if_neg (Nat.not_lt.mpr (short o List.mem_cons_self))
    unfold encodeOptions
    rw [List.mapM_cons, first, read]
    exact congrArg Except.ok (congrArg (option o.1 o.2 ++ ·) flat)

theorem encodeOptions_ok_iff : (∃ raw, encodeOptions options = .ok raw) ↔ ∀ o ∈ options, o.2.length ≤ 255 := by
  constructor
  · rintro ⟨raw, read⟩ o member
    obtain ⟨raws, each, -⟩ := map_ok read
    obtain ⟨one, -, first⟩ := mapM_mem each member
    exact encodeOption_ok_iff.mp ⟨one, first⟩
  · exact fun short => ⟨_, encodeOptions_short short⟩

theorem encoded_length (short : ∀ o ∈ options, o.2.length ≤ 255) :
    (encoded options).length ≤ 257 * options.length := by
  induction options with
  | nil => exact Nat.le_refl 0
  | cons o rest ih =>
    have first := short o List.mem_cons_self
    have later := ih fun x member => short x (List.mem_cons_of_mem o member)
    have parts : (encoded (o :: rest)).length = (o.2.length + 1 + 1) + (encoded rest).length := List.length_append
    rw [parts, List.length_cons]
    omega

theorem walk_encoded (readable : ∀ o ∈ options, Readable o) (front rest : List UInt8) :
    walk (front ++ (encoded options ++ 255 :: rest)) front.length = some options := by
  induction options generalizing front with
  | nil =>
    unfold walk
    simp [encoded]
  | cons o options ih =>
    obtain ⟨tag, value⟩ := o
    obtain ⟨mark, last, short⟩ := readable (tag, value) List.mem_cons_self
    have shape : front ++ (encoded ((tag, value) :: options) ++ 255 :: rest) =
        front ++ tag :: UInt8.ofNat value.length :: (value ++ (encoded options ++ 255 :: rest)) := by
      simp [encoded, option]
    have width : (UInt8.ofNat value.length).toNat = value.length := Nat.mod_eq_of_lt (Nat.lt_succ_of_le short)
    have cut : slice (front ++ tag :: UInt8.ofNat value.length :: (value ++ (encoded options ++ 255 :: rest)))
        (front.length + 2) value.length = value := by
      have again : front ++ tag :: UInt8.ofNat value.length :: (value ++ (encoded options ++ 255 :: rest)) =
          (front ++ [tag, UInt8.ofNat value.length]) ++ value ++ (encoded options ++ 255 :: rest) := by simp
      rw [again]
      exact slice_append (by simp) rfl
    have next := ih (fun x member => readable x (List.mem_cons_of_mem _ member)) (front ++ tag :: UInt8.ofNat value.length :: value)
    have place : (front ++ tag :: UInt8.ofNat value.length :: value).length = front.length + 2 + value.length := by
      simp
      omega
    rw [place, List.append_assoc, List.cons_append, List.cons_append] at next
    rw [shape]
    unfold walk
    rw [if_pos (by simp)]
    have first : (front ++ tag :: UInt8.ofNat value.length :: (value ++ (encoded options ++ 255 :: rest))).getD front.length 0 =
        tag := by
      simp
    have second : (front ++ tag :: UInt8.ofNat value.length :: (value ++ (encoded options ++ 255 :: rest))).getD (front.length + 1) 0 =
        UInt8.ofNat value.length := by
      simp
    dsimp only
    rw [first, second, width, cut, next, if_neg mark, if_neg last, if_neg (by simp), if_neg (Nat.lt_irrefl _)]
    rfl

/-! ### Messages and replies -/

structure Message.Sized (m : Message) : Prop where
  srcMac : m.srcMac.length = 6
  ciaddr : m.ciaddr.length = 4
  giaddr : m.giaddr.length = 4
  chaddr : m.chaddr.length = 6
  xid : m.xid < 256 ^ 4
  values : ∀ tag value, m.options.lookup tag = some value → value.length ≤ 255

theorem slice_length {raw : List UInt8} {offset size : Nat} (inside : offset + size ≤ raw.length) :
    (slice raw offset size).length = size := by
  unfold slice
  rw [List.length_take, List.length_drop]
  omega

theorem optionsFrom_values {data : List UInt8} {i : Nat} {options : MessageOptions}
    (short : ∀ tag value, options.lookup tag = some value → value.length ≤ 255) :
    ∀ tag value, (optionsFrom data i options).lookup tag = some value → value.length ≤ 255 := by
  induction i, options using optionsFrom.induct data with
  | case1 i options inside tag zero ih =>
    unfold optionsFrom
    rw [if_pos inside, if_pos zero]
    exact ih short
  | case2 i options inside tag zero last =>
    unfold optionsFrom
    rw [if_pos inside, if_neg zero, if_pos last]
    exact short
  | case3 i options inside tag zero last short' =>
    unfold optionsFrom
    rw [if_pos inside, if_neg zero, if_neg last, if_pos short']
    exact short
  | case4 i options inside tag zero last long length value broken =>
    unfold optionsFrom
    rw [if_pos inside, if_neg zero, if_neg last, if_neg long, if_pos broken]
    exact short
  | case5 i options inside tag zero last long length value whole ih =>
    unfold optionsFrom
    rw [if_pos inside, if_neg zero, if_neg last, if_neg long, if_neg whole]
    refine ih fun other found there => ?_
    split at there
    · exact short other found there
    · by_cases same : other = tag
      · subst same
        rw [AList.lookup_insert] at there
        cases there
        have byte := (data.getD (i + 1) 0).toNat_lt
        exact Nat.le_trans (List.length_take_le _ _) (Nat.le_of_lt_succ byte)
      · rw [AList.lookup_insert_ne same] at there
        exact short other found there
  | case6 i options outside =>
    unfold optionsFrom
    rw [if_neg outside]
    exact short

theorem parse_sized {frame : List UInt8} {m : Message} (parsed : parse frame = some m) : m.Sized := by
  unfold parse at parsed
  split at parsed
  · cases parsed
  · rename_i long
    split at parsed
    · cases parsed
    · dsimp only at parsed
      split at parsed
      · cases parsed
      · split at parsed
        · cases parsed
        · split at parsed
          · cases parsed
          · split at parsed
            · cases parsed
            · rename_i whole
              split at parsed
              · cases parsed
              · split at parsed
                · cases parsed
                · cases parsed
                  rw [not_or, Nat.not_lt] at whole
                  have data := whole.1
                  refine ⟨slice_length (by omega), slice_length (by omega), slice_length (by omega), slice_length (by omega), ?_, ?_⟩
                  · refine Nat.lt_of_lt_of_le (ByteOrder.fromBytes_lt _) (Nat.pow_le_pow_right (by decide) ?_)
                    exact List.length_take_le _ _
                  · exact optionsFrom_values fun tag value there => by cases there

/-- What a message is answered with: the options of the configuration, or a NAK with its reason. -/
def Answers (spec : Spec) (m : Message) (r : Reply) : Prop :=
  (∃ kind yiaddr lease, kind ≠ .nak ∧ r = reply kind m yiaddr (spec.leaseOptions lease)) ∨ ∃ reason, r ∈ nak m reason

section

variable {Time : Type} [Add Time] [NatCast Time] {spec : Spec} {probe : UInt32 → Bool} {rows : Leases Time} {now : Time} {m : Message}
  {r : Reply}

theorem acknowledge_answers {target : UInt32} (sent : r ∈ (acknowledge spec rows now m target).1) : Answers spec m r :=
  .inl ⟨.ack, some target, true, nofun, List.mem_singleton.mp sent⟩

theorem handleRequest_answers (sent : r ∈ (handleRequest spec rows now m).1) : Answers spec m r := by
  have refused {reason : String} (sent : r ∈ nak m reason) : Answers spec m r := .inr ⟨reason, sent⟩
  unfold handleRequest at sent
  split at sent
  · split at sent
    · split at sent <;> cases sent
    · split at sent
      · exact refused sent
      · split at sent
        · exact acknowledge_answers sent
        · exact refused sent
  · split at sent
    · split at sent
      · exact refused sent
      · split at sent
        · exact acknowledge_answers sent
        · exact refused sent
    · split at sent
      · exact acknowledge_answers sent
      · exact refused sent
    · cases sent

theorem handleMessage_answers (sent : r ∈ (handleMessage spec probe rows now m).1) : Answers spec m r := by
  unfold handleMessage at sent
  cases type : m.type with
  | discover =>
    simp only [type, handleDiscover] at sent
    split at sent
    · cases sent
    · exact .inl ⟨.offer, _, true, by decide, List.mem_singleton.mp sent⟩
  | request =>
    simp only [type] at sent
    exact handleRequest_answers sent
  | decline =>
    simp only [type, handleDecline] at sent
    split at sent <;> cases sent
  | release =>
    simp only [type, handleRelease] at sent
    split at sent <;> cases sent
  | inform =>
    simp only [type, handleInform] at sent
    split at sent
    · cases sent
    · exact .inl ⟨.ack, none, false, by decide, List.mem_singleton.mp sent⟩

theorem handle_answers [LinearOrder Time] {frame : List UInt8} (sent : r ∈ (handle spec probe rows now frame).1) :
    ∃ m, parse frame = some m ∧ Answers spec m r := by
  unfold handle at sent
  split at sent
  · cases sent
  · rename_i m parsed
    split at sent
    · cases sent
    · exact ⟨m, parsed, handleMessage_answers sent⟩

end

/-! ### The options of a configuration -/

/-- What the encoder needs of a configuration; only the domain is not checked by its bytes. -/
structure Spec.Bounded (spec : Spec) : Prop where
  dns : spec.options.dns.length ≤ 4
  ntp : spec.options.ntp.length ≤ 4
  wins : spec.options.wins.length ≤ 4

def Spec.DomainFits (spec : Spec) : Prop := ∀ domain, spec.options.domain = some domain → domain.toUTF8.size ≤ 255

theorem packed_length (ip : UInt32) : (packed ip).length = 4 := ByteOrder.toBytes_length _ _ _

theorem flatMap_packed_length (ips : List UInt32) : (ips.flatMap packed).length = 4 * ips.length := by
  induction ips with
  | nil => rfl
  | cons ip rest ih =>
    rw [List.flatMap_cons, List.length_append, packed_length, ih, List.length_cons]
    omega

theorem validateList_length {device name : String} {values : List String} {ips : List UInt32}
    (valid : validateList device name values = .ok ips) : ips.length ≤ 4 := by
  unfold validateList at valid
  dsimp only at valid
  split at valid
  · cases valid
  · rename_i few
    rw [mapM_length valid]
    exact Nat.not_lt.mp few

theorem validateOptions_bounded {raw : RawOptions} {options : Options}
    (valid : validateOptions device raw = .ok options) : options.dns.length ≤ 4 ∧ options.ntp.length ≤ 4 ∧ options.wins.length ≤ 4 := by
  have lists : ∃ gateway subnetMask, (do
      let dns ← validateList device "dns" raw.dns
      let ntp ← validateList device "ntp" raw.ntp
      let wins ← validateList device "wins" raw.wins
      if !raw.domain.isEmpty ∧ !isDomain raw.domain.toList then throw (device ++ ": domain is not a valid DNS name")
      return (⟨gateway, subnetMask, dns, ntp, wins, if raw.domain.isEmpty then none else some raw.domain⟩ : Options)) = .ok options := by
    unfold validateOptions at valid
    dsimp only at valid
    split at valid
    all_goals
      obtain ⟨gateway, -, valid⟩ := bind_ok valid
      split at valid
      · obtain ⟨subnetMask, -, valid⟩ := bind_ok valid
        exact ⟨_, _, valid⟩
      · split at valid
        · cases valid
        · obtain ⟨subnetMask, -, valid⟩ := bind_ok valid
          exact ⟨_, _, valid⟩
  obtain ⟨gateway, subnetMask, valid⟩ := lists
  obtain ⟨dns, gotDns, valid⟩ := bind_ok valid
  obtain ⟨ntp, gotNtp, valid⟩ := bind_ok valid
  obtain ⟨wins, gotWins, valid⟩ := bind_ok valid
  dsimp only at valid
  split at valid
  · cases valid
  · cases valid
    exact ⟨validateList_length gotDns, validateList_length gotNtp, validateList_length gotWins⟩

theorem validateServer_bounded {raw : RawSpec} {spec : Spec} (valid : validateServer device raw = .ok spec) :
    spec.Bounded := by
  unfold validateServer at valid
  dsimp only at valid
  split at valid
  · cases valid
  · split at valid
    · cases valid
    · obtain ⟨⟨address, len⟩, -, valid⟩ := bind_ok valid
      obtain ⟨pools, -, valid⟩ := bind_ok valid
      dsimp only at valid
      split at valid
      · cases valid
      · obtain ⟨reserved, -, valid⟩ := bind_ok valid
        split at valid
        · cases valid
        · split at valid
          · cases valid
          · obtain ⟨options, got, valid⟩ := bind_ok valid
            cases valid
            obtain ⟨dns, ntp, wins⟩ := validateOptions_bounded got
            exact ⟨dns, ntp, wins⟩

theorem leaseOptions_readable {spec : Spec} (bounded : spec.Bounded) (lease : Bool) :
    ∀ o ∈ spec.leaseOptions lease, o.1 ≠ 0 ∧ o.1 ≠ 255 ∧ (spec.DomainFits → o.2.length ≤ 255) := by
  have number (value : Nat) : (ByteOrder.big.toBytes 4 value).length ≤ 255 := by
    rw [ByteOrder.toBytes_length]
    decide
  have address (ip : UInt32) : (packed ip).length ≤ 255 := number ip.toNat
  have fixed (tag : UInt8) {value : List UInt8} (marks : tag ≠ 0 ∧ tag ≠ 255) (short : value.length ≤ 255) :
      tag ≠ 0 ∧ tag ≠ 255 ∧ (spec.DomainFits → value.length ≤ 255) := ⟨marks.1, marks.2, fun _ => short⟩
  have list {tag : UInt8} {ips : List UInt32} (few : ips.length ≤ 4) (mark : tag ≠ 0) (last : tag ≠ 255) {o : SentOption}
      (member : o ∈ if ips.isEmpty then [] else [(tag, ips.flatMap packed)]) :
      o.1 ≠ 0 ∧ o.1 ≠ 255 ∧ (spec.DomainFits → o.2.length ≤ 255) := by
    split at member
    · cases member
    · obtain rfl := List.mem_singleton.mp member
      refine ⟨mark, last, fun _ => ?_⟩
      rw [flatMap_packed_length]
      omega
  intro o member
  unfold Spec.leaseOptions at member
  simp only [List.mem_append] at member
  obtain ((((times | network) | dns) | ntp) | wins) | domain := member
  · split at times
    · rcases List.mem_cons.mp times with rfl | times
      · exact fixed 51 (by decide) (number _)
      · split at times
        · cases times
        · simp only [List.mem_cons, List.not_mem_nil, or_false] at times
          rcases times with rfl | rfl
          · exact fixed 58 (by decide) (number _)
          · exact fixed 59 (by decide) (number _)
    · cases times
  · simp only [List.mem_cons, List.not_mem_nil, or_false] at network
    rcases network with rfl | rfl | rfl
    · exact fixed 1 (by decide) (address _)
    · exact fixed 28 (by decide) (address _)
    · exact fixed 3 (by decide) (address _)
  · exact list bounded.dns (by decide) (by decide) dns
  · exact list bounded.ntp (by decide) (by decide) ntp
  · exact list bounded.wins (by decide) (by decide) wins
  · split at domain
    · cases domain
    · rename_i text there
      obtain rfl := List.mem_singleton.mp domain
      have mark : (15 : UInt8) ≠ 0 := by decide
      have last : (15 : UInt8) ≠ 255 := by decide
      exact ⟨mark, last, fun fits => fits text there⟩

theorem leaseOptions_length (spec : Spec) (lease : Bool) : (spec.leaseOptions lease).length ≤ 10 := by
  have list (tag : UInt8) (ips : List UInt32) :
      (if ips.isEmpty then [] else [(tag, ips.flatMap packed)] : List SentOption).length ≤ 1 := by
    split <;> simp
  have dns := list 6 spec.options.dns
  have ntp := list 42 spec.options.ntp
  have wins := list 44 spec.options.wins
  unfold Spec.leaseOptions
  simp only [List.length_append]
  cases spec.options.domain <;> cases spec.lease <;> cases lease <;>
    simp only [List.length_cons, List.length_nil, Bool.false_eq_true, if_false, if_true] <;> omega

/-! ### Replies that can be sent -/

section

variable {spec : Spec} {m : Message} {r : Reply}

theorem reply_fields (sized : m.Sized) (kind : ReplyKind) (yiaddr : Option UInt32) (options : List SentOption) :
    (reply kind m yiaddr options).dstMac.length = 6 ∧ (reply kind m yiaddr options).dstIp.length = 4 := by
  unfold reply
  dsimp only
  split
  · exact ⟨rfl, rfl⟩
  · split
    · exact ⟨sized.srcMac, sized.ciaddr⟩
    · exact ⟨sized.chaddr, packed_length _⟩

theorem mem_reply_options {kind : ReplyKind} {yiaddr : Option UInt32} {options : List SentOption} {o : SentOption}
    (member : o ∈ (reply kind m yiaddr options).options) : o ∈ options ∨ (o.1 = 61 ∧ m.options.lookup 61 = some o.2) := by
  unfold reply at member
  dsimp only at member
  split at member
  · rename_i raw there
    split at member
    · rcases List.mem_append.mp member with inside | last
      · exact .inl inside
      · obtain rfl := List.mem_singleton.mp last
        exact .inr ⟨rfl, there⟩
    · exact .inl member
  · exact .inl member

theorem reply_options_length (kind : ReplyKind) (yiaddr : Option UInt32) (options : List SentOption) :
    (reply kind m yiaddr options).options.length ≤ options.length + 1 := by
  unfold reply
  dsimp only
  split
  · split <;> simp
  · exact Nat.le_succ _

theorem answers_message (answer : Answers spec m r) : r.message = m := by
  rcases answer with ⟨kind, yiaddr, lease, -, rfl⟩ | ⟨reason, refused⟩
  · rfl
  · rw [List.mem_singleton.mp refused]
    rfl

theorem answers_fields (sized : m.Sized) (answer : Answers spec m r) : r.dstMac.length = 6 ∧ r.dstIp.length = 4 := by
  rcases answer with ⟨kind, yiaddr, lease, -, rfl⟩ | ⟨reason, refused⟩
  · exact reply_fields sized kind yiaddr _
  · rw [List.mem_singleton.mp refused]
    exact reply_fields sized .nak none _

theorem answers_written (bounded : spec.Bounded) (fits : spec.DomainFits) (sized : m.Sized) (answer : Answers spec m r) :
    (∀ o ∈ r.written spec, Readable o) ∧ (r.written spec).length ≤ 13 := by
  have whole (options : List SentOption) (kind : ReplyKind) (yiaddr : Option UInt32) (each : ∀ o ∈ options, Readable o)
      (few : options.length ≤ 10) :
      (∀ o ∈ (reply kind m yiaddr options).written spec, Readable o) ∧ ((reply kind m yiaddr options).written spec).length ≤ 13 := by
    constructor
    · intro o member
      rcases List.mem_cons.mp member with rfl | member
      · exact readable (by decide) (Nat.le_of_ble_eq_true rfl)
      · rcases List.mem_cons.mp member with rfl | member
        · refine readable (by decide) ?_
          rw [packed_length]
          decide
        · rcases mem_reply_options member with inside | ⟨client, there⟩
          · exact each o inside
          · rw [Readable, client]
            exact ⟨by decide, by decide, sized.values 61 o.2 there⟩
    · have more := reply_options_length (m := m) kind yiaddr options
      have two : ((reply kind m yiaddr options).written spec).length = (reply kind m yiaddr options).options.length + 2 := rfl
      omega
  rcases answer with ⟨kind, yiaddr, lease, -, rfl⟩ | ⟨reason, refused⟩
  · refine whole _ kind yiaddr (fun o member => ?_) (leaseOptions_length spec lease)
    obtain ⟨mark, last, short⟩ := leaseOptions_readable bounded lease o member
    exact ⟨mark, last, short fits⟩
  · rw [List.mem_singleton.mp refused]
    refine whole _ .nak none (fun o member => ?_) (Nat.le_of_ble_eq_true rfl)
    obtain rfl := List.mem_singleton.mp member
    exact readable (by decide) (Nat.le_trans (List.length_take_le _ _) (by decide))

end

theorem word_length (value : Nat) : (word value).length = 2 := ByteOrder.toBytes_length _ _ _

theorem zeros_length (n : Nat) : (zeros n).length = n := List.length_replicate

theorem wordOf_word {value : Nat} (small : value < 65536) : ByteOrder.big.fromBytes (word value) = value :=
  ByteOrder.fromBytes_toBytes _ small

section

variable {source destination body : List UInt8}

theorem ipHeader_filled (ident : UInt16) (length : Nat) (from' : source.length = 4) (to' : destination.length = 4) :
    ∃ sum, ipHeader ident length source destination =
        [0x45, 0] ++ word (20 + length) ++ word ident.toNat ++ word 0 ++ [64, 17] ++ word sum ++ (source ++ destination) ∧
      checksum (ipHeader ident length source destination) = 0 := by
  unfold ipHeader
  obtain ⟨front, shape⟩ : ∃ front, front = [0x45, 0] ++ word (20 + length) ++ word ident.toNat ++ word 0 ++ [64, 17] := ⟨_, rfl⟩
  have width : front.length = 10 := by simp [shape, word_length]
  have filled (sum : Nat) : putWord (front ++ word 0 ++ source ++ destination) 10 sum = front ++ word sum ++
      (source ++ destination) := by
    rw [List.append_assoc _ source]
    exact putWord_front width (word_length 0) sum
  have zero : putWord (front ++ word 0 ++ source ++ destination) 10 0 = front ++ word 0 ++ source ++ destination := by
    rw [filled, List.append_assoc _ source]
  have valid : checksum ([] ++ putWord (front ++ word 0 ++ source ++ destination) 10
      (checksum ([] ++ putWord (front ++ word 0 ++ source ++ destination) 10 0))) = 0 :=
    checksum_filled rfl rfl (by simp [width, word_length, from', to'])
  rw [zero, List.nil_append, List.nil_append] at valid
  dsimp only
  rw [← shape]
  exact ⟨_, filled _, valid⟩

theorem datagram_filled (sport : Nat) (from' : source.length = 4) (to' : destination.length = 4) :
    ∃ port sum, datagram sport source destination body = word 67 ++ word port ++ word (8 + body.length) ++ word sum ++ body ∧
      0 < sum ∧ sum < 65536 ∧
      checksum (pseudoHeader source destination (8 + body.length) ++ datagram sport source destination body) = 0 := by
  unfold datagram
  obtain ⟨port, chosen⟩ : ∃ port, port = if sport ≠ 67 then 68 else 67 := ⟨_, rfl⟩
  obtain ⟨front, shape⟩ : ∃ front, front = word 67 ++ word port ++ word (8 + body.length) := ⟨_, rfl⟩
  have width : front.length = 6 := by simp [shape, word_length]
  have filled (sum : Nat) : putWord (front ++ word 0 ++ body) 6 sum = front ++ word sum ++ body :=
      putWord_front width (word_length 0) sum
  have long : (front ++ word 0 ++ body).length = 8 + body.length := by
    rw [List.length_append, List.length_append, width, word_length]
  have inside : 6 + 2 ≤ (front ++ word 0 ++ body).length := by omega
  obtain ⟨pseudo, covered⟩ : ∃ pseudo, pseudo = pseudoHeader source destination (8 + body.length) := ⟨_, rfl⟩
  have even : pseudo.length % 2 = 0 := by simp [covered, pseudoHeader, from', to', word_length]
  have valid := checksum_filled even (show 6 % 2 = 0 from rfl) inside
  have ones := checksum_filled_ones even (show 6 % 2 = 0 from rfl) inside
  rw [filled 0] at valid ones
  have bound := checksum_le (pseudo ++ (front ++ word 0 ++ body))
  dsimp only
  rw [← chosen, ← shape, long, ← covered]
  refine ⟨port, if checksum (pseudo ++ (front ++ word 0 ++ body)) = 0 then 65535 else checksum (pseudo ++
    (front ++ word 0 ++ body)), ?_, ?_⟩
  · rw [← shape]
    exact filled _
  split
  · rename_i zero
    exact ⟨by decide, by decide, ones zero⟩
  · rename_i some'
    exact ⟨Nat.pos_of_ne_zero some', Nat.lt_succ_of_le bound, valid⟩

end

section

variable {spec : Spec} {m : Message} {r : Reply}

theorem client_length (sized : m.Sized) (kind : ReplyKind) : (if kind = .nak then zeros 4 else m.ciaddr).length = 4 := by
  split
  · rfl
  · exact sized.ciaddr

theorem fields_length (sized : m.Sized) (same : r.message = m) : r.fields.length = 240 := by
  unfold Reply.fields
  simp only [List.length_append, List.length_cons, List.length_nil, ByteOrder.toBytes_length, word_length, same, client_length sized,
    packed_length, sized.giaddr, sized.chaddr, zeros_length, magic]

theorem body_length (sized : m.Sized) (same : r.message = m) {options : List UInt8} (few : options.length ≤ 257 * 13) :
    241 ≤ (r.body options).length ∧ (r.body options).length < 4096 := by
  have front := fields_length sized same
  unfold Reply.body
  simp only [List.length_append, front, List.length_cons, List.length_nil, zeros_length]
  omega

theorem body_xid (same : r.message = m) (options : List UInt8) :
    ∃ rest, r.body options = [2, 1, 6, 0] ++ ByteOrder.big.toBytes 4 m.xid ++ rest := by
  unfold Reply.body Reply.fields
  simp only [same, List.append_assoc]
  exact ⟨_, rfl⟩

theorem body_chaddr (sized : m.Sized) (same : r.message = m) (options : List UInt8) :
    ∃ front rest, front.length = 28 ∧ r.body options = front ++ m.chaddr ++ rest := by
  refine ⟨[2, 1, 6, 0] ++ ByteOrder.big.toBytes 4 m.xid ++ word 0 ++ word m.flags ++ (if r.kind = .nak then zeros 4 else m.ciaddr) ++
    packed (r.yiaddr.getD 0) ++ zeros 4 ++ m.giaddr, zeros 10 ++ zeros 64 ++ zeros 128 ++ magic ++ options ++ [255] ++
      zeros (300 - (r.fields ++ options ++ [255]).length), ?_, ?_⟩
  · simp only [List.length_append, List.length_cons, List.length_nil, ByteOrder.toBytes_length, word_length, client_length sized,
      packed_length, sized.giaddr, zeros_length]
  · unfold Reply.body Reply.fields
    simp only [same, List.append_assoc]

def frameSegments (dstMac srcMac : List UInt8) (length ident ipSum : Nat) (source destination : List UInt8) (port udpSum : Nat)
    (body : List UInt8) : List (List UInt8) :=
  [dstMac, srcMac, [0x08, 0x00], [0x45, 0], word (20 + length), word ident, word 0, [64, 17], word ipSum, source, destination, word 67,
    word port, word (8 + body.length), word udpSum, body]

theorem frameSegments_slices {dstMac srcMac source destination : List UInt8} (length ident ipSum port udpSum : Nat)
    (dst : dstMac.length = 6) (src : srcMac.length = 6) (from' : source.length = 4) (to' : destination.length = 4) (body : List UInt8) :
    let frame := (frameSegments dstMac srcMac length ident ipSum source destination port udpSum body).flatten
    slice frame 16 2 = word (20 + length) ∧ slice frame 26 4 = source ∧ slice frame 30 4 = destination ∧
      slice frame 38 2 = word (8 + body.length) ∧ slice frame 40 2 = word udpSum := by
  intro frame
  have field {k : Nat} (inside : k < 16) := slice_flatten
    (frameSegments dstMac srcMac length ident ipSum source destination port udpSum body) inside
  have total := field (show 4 < 16 by decide)
  have src4 := field (show 9 < 16 by decide)
  have dst4 := field (show 10 < 16 by decide)
  have udpLength := field (show 13 < 16 by decide)
  have sum := field (show 14 < 16 by decide)
  simp only [frameSegments, List.take_succ_cons, List.take_zero, List.map_cons, List.map_nil, List.sum_cons,
    List.sum_nil, dst, src, from',
    to', word_length, List.length_cons, List.length_nil, List.getElem_cons_succ, List.getElem_cons_zero,
    Nat.reduceAdd] at total src4 dst4 udpLength sum
  exact ⟨total, src4, dst4, udpLength, sum⟩

theorem build_wellFormed (bounded : spec.Bounded) (fits : spec.DomainFits) (sized : m.Sized) (answer : Answers spec m r) (mac : Mac)
    (ident : UInt16) : ∃ frame, build spec mac ident r = .ok frame ∧ WellFormed m (r.written spec) frame := by
  obtain ⟨readable', few⟩ := answers_written bounded fits sized answer
  obtain ⟨macWidth, toWidth⟩ := answers_fields sized answer
  have same := answers_message answer
  have short : ∀ o ∈ r.written spec, o.2.length ≤ 255 := fun o member => (readable' o member).2.2
  have sent : (encoded (r.written spec)).length ≤ 257 * 13 :=
    Nat.le_trans (encoded_length short) (Nat.mul_le_mul_left 257 few)
  obtain ⟨long, small⟩ := body_length sized same sent
  obtain ⟨body, bodyShape⟩ : ∃ body, body = r.body (encoded (r.written spec)) := ⟨_, rfl⟩
  rw [← bodyShape] at long small
  obtain ⟨port, udpSum, udpShape, positive, udpWord, udpValid⟩ :=
    datagram_filled r.message.sport (packed_length spec.address) toWidth
  obtain ⟨udp, udpIs⟩ : ∃ udp, udp = datagram r.message.sport (packed spec.address) r.dstIp body := ⟨_, rfl⟩
  rw [← udpIs] at udpShape udpValid
  have udpLength : udp.length = 8 + body.length := by
    rw [udpShape]
    simp only [List.length_append, word_length]
  obtain ⟨ipSum, ipShape, ipValid⟩ := ipHeader_filled ident udp.length (packed_length spec.address) toWidth
  obtain ⟨ip, ipIs⟩ : ∃ ip, ip = ipHeader ident udp.length (packed spec.address) r.dstIp := ⟨_, rfl⟩
  rw [← ipIs] at ipShape ipValid
  have ipLength : ip.length = 20 := by
    rw [ipShape]
    simp only [List.length_append, List.length_cons, List.length_nil, word_length, packed_length, toWidth]
  obtain ⟨frame, frameIs⟩ : ∃ frame, frame = r.dstMac ++ mac.raw ++ [0x08, 0x00] ++ ip ++ udp := ⟨_, rfl⟩
  have built : build spec mac ident r = .ok frame := by
    unfold build
    rw [encodeOptions_short short, frameIs, ipIs, udpIs, bodyShape]
    rfl
  have front : (r.dstMac ++ mac.raw ++ [0x08, 0x00]).length = 14 := by
    rw [List.length_append, List.length_append, macWidth, mac.width]
    rfl
  have frameLength : frame.length = 34 + udp.length := by
    rw [frameIs, List.length_append, List.length_append, front, ipLength]
  have dropUdp : frame.drop 34 = udp := by
    rw [frameIs]
    exact List.drop_left' (by rw [List.length_append, front, ipLength])
  have dropBody : frame.drop 42 = body := by
    rw [show 42 = 34 + 8 from rfl, ← List.drop_drop, dropUdp, udpShape]
    exact List.drop_left' (by simp only [List.length_append, word_length])
  have segments : frame = (frameSegments r.dstMac mac.raw udp.length ident.toNat ipSum (packed spec.address) r.dstIp port udpSum
      body).flatten := by
    rw [frameIs, ipShape, udpShape]
    simp [frameSegments]
  obtain ⟨total, source, destination, length, sum⟩ := frameSegments_slices udp.length ident.toNat ipSum port udpSum macWidth
    mac.width (packed_length spec.address) toWidth body
  rw [← segments] at total source destination length sum
  obtain ⟨rest, xidShape⟩ := body_xid same (encoded (r.written spec))
  obtain ⟨before, behind, place, chaddrShape⟩ := body_chaddr sized same (encoded (r.written spec))
  rw [← bodyShape] at xidShape chaddrShape
  refine ⟨frame, built, ?_, ?_, ?_, ?_, ?_, ?_, ?_, ?_⟩
  · have inside : slice frame 14 20 = ip := by
      rw [frameIs]
      exact slice_append front ipLength
    rw [inside]
    exact ipValid
  · rw [number16, total, wordOf_word (by omega), frameLength]
    omega
  · rw [source, destination, dropUdp, frameLength, Nat.add_sub_cancel_left, udpLength]
    exact udpValid
  · rw [number16, sum, wordOf_word udpWord]
    exact Nat.ne_of_gt positive
  · rw [number16, length, wordOf_word (by omega), frameLength]
    omega
  · have read : slice frame 46 4 = ByteOrder.big.toBytes 4 m.xid := by
      rw [show 46 = 42 + 4 from rfl, ← slice_drop, dropBody, xidShape]
      exact slice_append rfl (ByteOrder.toBytes_length _ _ _)
    rw [read]
    exact ByteOrder.fromBytes_toBytes _ sized.xid
  · rw [show 70 = 42 + 28 from rfl, ← slice_drop, dropBody, chaddrShape]
    exact slice_append place sized.chaddr
  · have shape : body = r.fields ++
      (encoded (r.written spec) ++ 255 :: zeros (300 - (r.fields ++ encoded (r.written spec) ++ [255]).length)) := by
      rw [bodyShape]
      simp [Reply.body]
    have read := walk_encoded readable' r.fields (zeros (300 - (r.fields ++ encoded (r.written spec) ++ [255]).length))
    rw [fields_length sized same] at read
    rw [dropBody, shape]
    exact read

end

/-! ### What is sent for a frame -/

section

variable {Time : Type} [Add Time] [NatCast Time] [LinearOrder Time] {spec : Spec}

theorem reply_keeps_options {m : Message} (kind : ReplyKind) (yiaddr : Option UInt32) {options : List SentOption} {o : SentOption}
    (member : o ∈ options) : o ∈ (reply kind m yiaddr options).options := by
  unfold reply
  dsimp only
  split
  · split
    · exact List.mem_append_left _ member
    · exact member
  · exact member

theorem domain_sent {domain : String} (there : spec.options.domain = some domain) (lease : Bool) :
    (15, domain.toUTF8.data.toList) ∈ spec.leaseOptions lease := by
  unfold Spec.leaseOptions
  rw [there]
  exact List.mem_append_right _ (List.mem_singleton_self _)

/-- An INFORM is always answered, with the options of the configuration. -/
def sampleInform : List UInt8 := sampleFrame 8 1 (packed sampleAddress) []

theorem inform_answered (spec : Spec) (probe : UInt32 → Bool) (rows : Leases Time) (now : Time) :
    ∃ m, (handle spec probe rows now sampleInform).1 = [reply .ack m none (spec.leaseOptions false)] := by
  obtain ⟨m, parsed⟩ : ∃ m, parse sampleInform = some m := Option.isSome_iff_exists.mp (by decide +kernel)
  have facts : (parse sampleInform).map (fun m => (m.type, decide m.relayed, m.client)) = some (.inform, false, some sampleAddress) := by
    decide +kernel
  rw [parsed, Option.map_some, Option.some.injEq, Prod.mk.injEq, Prod.mk.injEq, decide_eq_false_iff_not] at facts
  obtain ⟨type, direct, client⟩ := facts
  refine ⟨m, ?_⟩
  unfold handle
  rw [parsed]
  dsimp only
  rw [if_neg direct]
  unfold handleMessage
  rw [type]
  dsimp only
  unfold handleInform
  rw [client]

theorem domain_fits_of_built {m : Message} {kind : ReplyKind} {yiaddr : Option UInt32} {lease : Bool} {mac : Mac} {ident : UInt16}
    {frame : List UInt8} (built : build spec mac ident (reply kind m yiaddr (spec.leaseOptions lease)) = .ok frame) :
    spec.DomainFits := by
  intro domain there
  unfold build at built
  obtain ⟨options, encoded', -⟩ := bind_ok built
  have member := reply_keeps_options (m := m) kind yiaddr (domain_sent there lease)
  exact encodeOptions_ok_iff.mp ⟨options, encoded'⟩ _ (List.mem_cons_of_mem _ (List.mem_cons_of_mem _ member))

/-- Every frame is answered with well-formed frames exactly where the bytes of the domain fit
into an option. -/
theorem replies_well_formed_iff {device : String} {raw : RawSpec} (valid : validateServer device raw = .ok spec) :
    (∀ (mac : Mac) (ident : UInt16) (probe : UInt32 → Bool) (rows : Leases Time) (now : Time) (frame : List UInt8),
      ∃ frames, respond spec mac ident probe rows now frame = .ok frames ∧
        List.Forall₂ (fun r out => ∃ m, parse frame = some m ∧ WellFormed m (r.written spec) out) (handle spec probe rows now frame).1
          frames) ↔
      spec.DomainFits := by
  constructor
  · intro answered
    obtain ⟨frames, sent, -⟩ := answered ⟨zeros 6, rfl⟩ 0 (fun _ => false) ∅ (0 : Nat) sampleInform
    obtain ⟨m, replies⟩ := inform_answered spec (fun _ => false) (∅ : Leases Time) (0 : Nat)
    unfold respond at sent
    rw [replies] at sent
    obtain ⟨out, -, built⟩ := mapM_mem sent List.mem_cons_self
    exact domain_fits_of_built built
  · intro fits mac ident probe rows now frame
    have bounded := validateServer_bounded valid
    refine mapM_forall₂ fun r sent => ?_
    obtain ⟨m, parsed, answer⟩ := handle_answers sent
    obtain ⟨out, built, wellFormed⟩ := build_wellFormed bounded fits (parse_sized parsed) answer mac ident
    exact ⟨out, built, m, parsed, wellFormed⟩

theorem replies_well_formed_sample : (validateServer "p5" sampleRaw).toOption = some sampleSpec ∧
    ∀ (mac : Mac) (ident : UInt16) (probe : UInt32 → Bool) (rows : Leases Nat) (now : Nat) (frame : List UInt8),
      ∃ frames, respond sampleSpec mac ident probe rows now frame = .ok frames ∧
        List.Forall₂ (fun r out => ∃ m, parse frame = some m ∧ WellFormed m (r.written sampleSpec) out)
          (handle sampleSpec probe rows now frame).1 frames := by
  have valid : (validateServer "p5" sampleRaw).toOption = some sampleSpec := by decide +kernel
  exact ⟨valid, (replies_well_formed_iff (ok_of_toOption valid)).mpr fun domain none' => by cases none'⟩

end

/-- Two labels of 63 Kelvin signs, which the pattern takes for the letter k: 379 bytes. -/
def kelvinDomain : String := String.ofList (List.replicate 63 (Char.ofNat 0x212a) ++ '.' :: List.replicate 63 (Char.ofNat 0x212a))

def kelvinRaw : RawSpec := { sampleRaw with options := ⟨"", "", [], [], [], kelvinDomain⟩ }

def kelvinSpec : Spec := { sampleSpec with options := ⟨none, none, [], [], [], some kelvinDomain⟩ }

theorem long_domain_raises : (validateServer "p5" kelvinRaw).toOption = some kelvinSpec ∧
    ¬∃ frames, respond kelvinSpec ⟨zeros 6, rfl⟩ 0 (fun _ => false) (∅ : Leases Nat) 0 sampleDiscover.frame = .ok frames := by
  refine ⟨by decide +kernel, ?_⟩
  rintro ⟨frames, sent⟩
  have raised : (respond kelvinSpec ⟨zeros 6, rfl⟩ 0 (fun _ => false) (∅ : Leases Nat) 0 sampleDiscover.frame).toOption = none := by
    decide +kernel
  rw [sent] at raised
  cases raised

end FfnNgfw.Dhcp
