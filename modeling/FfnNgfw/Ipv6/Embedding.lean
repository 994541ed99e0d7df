import FfnNgfw.Lib.Digits
import FfnNgfw.Lib.Fallible
import FfnNgfw.Threatdb.Text

/-!
# NAT64 addresses

The prefixes that `ffn_ipv6_translation.py` accepts, and the IPv4 addresses that stand in
an IPv6 address behind one of them. An address is its packed bytes; its text is left to
`ipaddress`.
-/

namespace FfnNgfw.Ipv6
open Threatdb (Text ipv6Address)
open Policy (isDigits number)

/-! ### `ipaddress` -/

structure IPv6Address where
  packed : List UInt8
  wide : packed.length = 16
  deriving DecidableEq

namespace IPv6Address

def value (a : IPv6Address) : Nat := ByteOrder.big.fromBytes a.packed

def ofValue (n : Nat) : IPv6Address := ⟨ByteOrder.big.toBytes 16 n, ByteOrder.toBytes_length _ _ _⟩

theorem value_lt (a : IPv6Address) : a.value < 2 ^ 128 := by
  have bound := ByteOrder.fromBytes_lt a.packed
  rwa [a.wide] at bound

theorem value_ofValue {n : Nat} (fits : n < 2 ^ 128) : (ofValue n).value = n := ByteOrder.fromBytes_toBytes _ fits

theorem ofValue_value (a : IPv6Address) : ofValue a.value = a := by
  obtain ⟨packed, wide⟩ := a
  have bytes : ByteOrder.big.toBytes 16 (ByteOrder.big.fromBytes packed) = packed := ByteOrder.toBytes_fromBytes wide
  simp only [ofValue, value, bytes]

end IPv6Address

structure IPv6Network where
  networkAddress : IPv6Address
  prefixlen : Nat
  short : prefixlen ≤ 128
  aligned : networkAddress.value % 2 ^ (128 - prefixlen) = 0

namespace IPv6Network

def broadcastAddress (n : IPv6Network) : IPv6Address := .ofValue (n.networkAddress.value + (2 ^ (128 - n.prefixlen) - 1))

/-- `address in network` -/
def contains (n : IPv6Network) (a : IPv6Address) : Bool :=
  a.value / 2 ^ (128 - n.prefixlen) * 2 ^ (128 - n.prefixlen) = n.networkAddress.value

def overlaps (a b : IPv6Network) : Bool :=
  b.contains a.networkAddress || b.contains a.broadcastAddress || a.contains b.networkAddress || a.contains b.broadcastAddress

theorem contains_iff {n : IPv6Network} {a : IPv6Address} :
    n.contains a = true ↔ a.value / 2 ^ (128 - n.prefixlen) = n.networkAddress.value / 2 ^ (128 - n.prefixlen) := by
  have exact' := Nat.div_add_mod n.networkAddress.value (2 ^ (128 - n.prefixlen))
  rw [n.aligned, Nat.add_zero, Nat.mul_comm] at exact'
  unfold contains
  rw [decide_eq_true_eq]
  constructor
  · intro masked
    rw [← exact'] at masked
    exact Nat.eq_of_mul_eq_mul_right (by positivity) masked
  · intro same
    rw [same, exact']

end IPv6Network

/-- `ipaddress.IPv6Network(value, strict=True)` of a text without a scope. -/
def ipv6Network (value : Text) : Option IPv6Network :=
  let make (address : Text) (prefixlen : Nat) : Option IPv6Network := do
    let n ← ipv6Address address
    if valid : prefixlen ≤ 128 ∧ (IPv6Address.ofValue n).value % 2 ^ (128 - prefixlen) = 0 then
      return ⟨.ofValue n, prefixlen, valid.1, valid.2⟩
    else none
  match value.splitOn '/' with
  | [address] => make address 128
  | [address, len] => if isDigits len then make address (number len) else none
  | _ => none

def reserved : List IPv6Network :=
  [⟨.ofValue (0xff00 * 2 ^ 112), 8, by decide, by decide⟩, ⟨.ofValue (0xfe80 * 2 ^ 112), 10, by decide, by decide⟩,
    ⟨.ofValue 0, 128, by decide, by decide⟩, ⟨.ofValue 1, 128, by decide, by decide⟩,
    ⟨.ofValue (0xffff * 2 ^ 32), 96, by decide, by decide⟩]

/-- `prefix` -/
def networkPrefix (value : Text) (kind : String) : Except String IPv6Network :=
  let refused := kind ++ " requires a unicast IPv6 network prefix without host bits"
  if '/' ∉ value then throw refused
  else
    match ipv6Network value with
    | none => throw refused
    | some network => if network.prefixlen = 0 || reserved.any network.overlaps then throw refused else return network

def nat64Lengths : List Nat := [32, 40, 48, 56, 64, 96]

def nat64Prefix (value : Text) : Except String IPv6Network := do
  let network ← networkPrefix value "NAT64"
  if network.prefixlen ∉ nat64Lengths then throw "NAT64 prefix length must be /32, /40, /48, /56, /64 or /96"
  if network.prefixlen = 96 ∧ network.networkAddress.packed.getD 8 0 ≠ 0 then throw "NAT64 reserved u octet must be zero"
  return network

def positions (start : Nat) : List Nat :=
  if start = 12 then List.range' 12 4 else ((List.range' start (16 - start)).filter (· ≠ 8)).take 4

def putOctets (raw : List UInt8) (places : List (Nat × UInt8)) : List UInt8 := places.foldl (fun raw p => raw.set p.1 p.2) raw

theorem putOctets_length (raw : List UInt8) (places : List (Nat × UInt8)) : (putOctets raw places).length = raw.length := by
  unfold putOctets
  induction places generalizing raw with
  | nil => rfl
  | cons p places ih => rw [List.foldl_cons, ih, List.length_set]

def nat64Embed (value : UInt32) (network : Text) : Except String IPv6Address := do
  let network ← nat64Prefix network
  let v4 := ByteOrder.big.toBytes 4 value.toNat
  let start := network.prefixlen / 8
  return ⟨putOctets network.networkAddress.packed ((positions start).zip v4), by
    rw [putOctets_length, network.networkAddress.wide]⟩

def nat64Extract (address : IPv6Address) (network : Text) : Except String UInt32 := do
  let network ← nat64Prefix network
  let raw := address.packed
  if !network.contains address then throw "Address is outside the NAT64 prefix"
  if raw.getD 8 0 ≠ 0 then throw "NAT64 reserved u octet must be zero"
  let start := network.prefixlen / 8
  return UInt32.ofNat (ByteOrder.big.fromBytes ((positions start).map fun i => raw.getD i 0))

variable {n : IPv6Network}

theorem nat64Prefix_ok {value : Text} (accepted : nat64Prefix value = .ok n) :
    n.prefixlen ∈ nat64Lengths ∧ (n.prefixlen = 96 → n.networkAddress.packed.getD 8 0 = 0) := by
  unfold nat64Prefix at accepted
  obtain ⟨network, -, accepted⟩ := bind_ok accepted
  dsimp only at accepted
  by_cases known : network.prefixlen ∈ nat64Lengths
  · rw [if_neg (not_not.mpr known)] at accepted
    by_cases octet : network.prefixlen = 96 ∧ network.networkAddress.packed.getD 8 0 ≠ 0
    · rw [if_pos octet] at accepted
      cases accepted
    · rw [if_neg octet] at accepted
      cases accepted
      exact ⟨known, fun long => by_contra fun some' => octet ⟨long, some'⟩⟩
  · rw [if_pos known] at accepted
    cases accepted

theorem positions_spec : ∀ len ∈ nat64Lengths, len = 8 * (len / 8) ∧ (positions (len / 8)).length = 4 ∧
    (positions (len / 8)).Nodup ∧ ∀ i ∈ positions (len / 8), len / 8 ≤ i ∧ i < 16 ∧ i ≠ 8 := by
  decide

theorem contains_bytes {a : IPv6Address} {k : Nat} (whole : n.prefixlen = 8 * k) :
    n.contains a = true ↔ a.packed.take k = n.networkAddress.packed.take k := by
  have short := n.short
  have power : 2 ^ (128 - n.prefixlen) = 256 ^ (16 - k) := by
    have byte : (256 : Nat) = 2 ^ 8 := rfl
    rw [byte, ← Nat.pow_mul]
    congr 1
    omega
  have leading : ∀ b : IPv6Address, b.value / 2 ^ (128 - n.prefixlen) = ByteOrder.big.fromBytes (b.packed.take k) := by
    intro b
    rw [power, ← ByteOrder.fromBytes_take, b.wide]
    rfl
  rw [IPv6Network.contains_iff, leading, leading]
  constructor
  · intro same
    refine ByteOrder.fromBytes_inj ?_ same
    rw [List.length_take, List.length_take, a.wide, n.networkAddress.wide]
  · intro same
    rw [same]

theorem nat64Prefix_octet {value : Text} (accepted : nat64Prefix value = .ok n) :
    n.networkAddress.packed.getD 8 0 = 0 := by
  obtain ⟨known, checked⟩ := nat64Prefix_ok accepted
  have lengths : n.prefixlen = 96 ∨ n.prefixlen ≤ 64 := by
    have each : ∀ len ∈ nat64Lengths, len = 96 ∨ len ≤ 64 := by decide
    exact each _ known
  rcases lengths with long | small
  · exact checked long
  · have digit := @ByteOrder.fromBytes_digit n.networkAddress.packed 8 (by rw [n.networkAddress.wide]; decide)
    have aligned : n.networkAddress.value % 2 ^ 64 = 0 := by
      refine Nat.mod_eq_zero_of_dvd (Dvd.dvd.trans (Nat.pow_dvd_pow 2 ?_) (Nat.dvd_of_mod_eq_zero n.aligned))
      omega
    have zero : n.networkAddress.value / 256 ^ 7 % 256 = 0 := by omega
    rw [n.networkAddress.wide] at digit
    exact UInt8.toNat_inj.mp (digit.symm.trans zero)

theorem putOctets_other {places : List (Nat × UInt8)} {i : Nat} (elsewhere : i ∉ places.map Prod.fst) (raw : List UInt8) :
    (putOctets raw places).getD i 0 = raw.getD i 0 := by
  unfold putOctets
  induction places generalizing raw with
  | nil => rfl
  | cons p places ih =>
    rw [List.map_cons, List.mem_cons, not_or] at elsewhere
    rw [List.foldl_cons, ih elsewhere.2, List.getD_eq_getElem?_getD, List.getD_eq_getElem?_getD,
      List.getElem?_set_ne (Ne.symm elsewhere.1)]

theorem putOctets_put {places : List (Nat × UInt8)} (once : (places.map Prod.fst).Nodup) {raw : List UInt8}
    (inside : ∀ p ∈ places, p.1 < raw.length) :
    (places.map Prod.fst).map (fun i => (putOctets raw places).getD i 0) = places.map Prod.snd := by
  rw [List.map_map]
  refine List.map_congr_left ?_
  induction places generalizing raw with
  | nil =>
    intro p member
    cases member
  | cons q places ih =>
    rw [List.map_cons, List.nodup_cons] at once
    rw [List.forall_mem_cons] at inside
    have rest : ∀ r ∈ places, r.1 < (raw.set q.1 q.2).length := by
      rw [List.length_set]
      exact inside.2
    have next : putOctets raw (q :: places) = putOctets (raw.set q.1 q.2) places := rfl
    rw [next, List.forall_mem_cons]
    refine ⟨?_, ih once.2 rest⟩
    rw [Function.comp_apply, putOctets_other once.1, List.getD_eq_getElem?_getD, List.getElem?_set_self inside.1]
    rfl

theorem zip_octets (known : n.prefixlen ∈ nat64Lengths) {v4 : List UInt8} (four : v4.length = 4) :
    ((positions (n.prefixlen / 8)).zip v4).map Prod.fst = positions (n.prefixlen / 8) ∧
      ((positions (n.prefixlen / 8)).zip v4).map Prod.snd = v4 := by
  obtain ⟨-, length, -, -⟩ := positions_spec _ known
  exact ⟨List.map_fst_zip (by omega), List.map_snd_zip (by omega)⟩

theorem nat64Embed_ok {p : Text} (accepted : nat64Prefix p = .ok n) (v : UInt32) :
    ∃ e, nat64Embed v p = .ok e ∧ (∀ i, i ∉ positions (n.prefixlen / 8) → e.packed.getD i 0 = n.networkAddress.packed.getD i 0) ∧
      (positions (n.prefixlen / 8)).map (fun i => e.packed.getD i 0) = ByteOrder.big.toBytes 4 v.toNat := by
  obtain ⟨known, -⟩ := nat64Prefix_ok accepted
  obtain ⟨-, -, once, inside⟩ := positions_spec _ known
  obtain ⟨places, octets⟩ := zip_octets known (ByteOrder.toBytes_length .big 4 v.toNat)
  unfold nat64Embed
  rw [accepted]
  refine ⟨_, rfl, ?_, ?_⟩
  · intro i elsewhere
    rw [← places] at elsewhere
    exact putOctets_other elsewhere _
  · have room : ∀ q ∈ (positions (n.prefixlen / 8)).zip (ByteOrder.big.toBytes 4 v.toNat), q.1 < n.networkAddress.packed.length := by
      intro q member
      rw [n.networkAddress.wide]
      exact (inside _ (by rw [← places]; exact List.mem_map_of_mem member)).2.1
    have put := putOctets_put (by rwa [places]) room
    rwa [places, octets] at put

theorem nat64Extract_ok_iff {p : Text} (accepted : nat64Prefix p = .ok n) {a : IPv6Address} {v : UInt32} :
    nat64Extract a p = .ok v ↔ n.contains a = true ∧ a.packed.getD 8 0 = 0 ∧
      (positions (n.prefixlen / 8)).map (fun i => a.packed.getD i 0) = ByteOrder.big.toBytes 4 v.toNat := by
  obtain ⟨known, -⟩ := nat64Prefix_ok accepted
  obtain ⟨-, length, -, -⟩ := positions_spec _ known
  have width : ((positions (n.prefixlen / 8)).map fun i => a.packed.getD i 0).length = 4 := by rw [List.length_map, length]
  have read : ∀ raw : List UInt8, raw.length = 4 →
      (UInt32.ofNat (ByteOrder.big.fromBytes raw) = v ↔ raw = ByteOrder.big.toBytes 4 v.toNat) := by
    intro raw four
    have bound := ByteOrder.fromBytes_lt raw
    rw [four] at bound
    constructor
    · rintro rfl
      rw [UInt32.toNat_ofNat_of_lt' bound, ByteOrder.toBytes_fromBytes four]
    · rintro rfl
      rw [ByteOrder.fromBytes_toBytes _ (UInt32.toNat_lt v), UInt32.ofNat_toNat]
  unfold nat64Extract
  rw [accepted]
  by_cases inside : n.contains a = true
  · by_cases octet : a.packed.getD 8 0 = 0
    · simp [bind, Except.bind, pure, Except.pure, inside, octet, read _ width, -List.getD_eq_getElem?_getD]
    · simp [bind, Except.bind, throw, throwThe, MonadExceptOf.throw, inside, octet, -List.getD_eq_getElem?_getD]
  · simp [bind, Except.bind, throw, throwThe, MonadExceptOf.throw, inside]

/-- Embedding and extraction are inverse to each other, up to the suffix. -/
theorem nat64_round_trip {p : Text} {n : IPv6Network} (accepted : nat64Prefix p = .ok n) :
    (∀ v, ∃ e, nat64Embed v p = .ok e ∧ n.contains e = true ∧ e.packed.getD 8 0 = 0 ∧ nat64Extract e p = .ok v) ∧
    ∀ a v, nat64Extract a p = .ok v → ∃ e, nat64Embed v p = .ok e ∧
      ∀ i, i < n.prefixlen / 8 ∨ i = 8 ∨ i ∈ positions (n.prefixlen / 8) → a.packed.getD i 0 = e.packed.getD i 0 := by
  obtain ⟨known, -⟩ := nat64Prefix_ok accepted
  obtain ⟨whole, -, -, inside⟩ := positions_spec _ known
  have before : ∀ i, i < n.prefixlen / 8 → i ∉ positions (n.prefixlen / 8) := by
    intro i small member
    have above := (inside i member).1
    omega
  have octet : 8 ∉ positions (n.prefixlen / 8) := fun member => (inside 8 member).2.2 rfl
  constructor
  · intro v
    obtain ⟨e, embedded, kept, put⟩ := nat64Embed_ok accepted v
    have zero : e.packed.getD 8 0 = 0 := (kept 8 octet).trans (nat64Prefix_octet accepted)
    have behind : n.contains e = true := by
      rw [contains_bytes whole]
      refine List.ext_getElem? fun i => ?_
      rw [List.getElem?_take, List.getElem?_take]
      split
      · rename_i small
        have short := n.short
        have same := kept i (before i small)
        rw [List.getD_eq_getElem?_getD, List.getD_eq_getElem?_getD, List.getElem?_eq_getElem (by rw [e.wide]; omega),
          List.getElem?_eq_getElem (by rw [n.networkAddress.wide]; omega)] at same
        rw [List.getElem?_eq_getElem (by rw [e.wide]; omega), List.getElem?_eq_getElem (by rw [n.networkAddress.wide]; omega)]
        exact congrArg some same
      · rfl
    exact ⟨e, embedded, behind, zero, (nat64Extract_ok_iff accepted).mpr ⟨behind, zero, put⟩⟩
  · intro a v extracted
    obtain ⟨behind, zero, read⟩ := (nat64Extract_ok_iff accepted).mp extracted
    obtain ⟨e, embedded, kept, put⟩ := nat64Embed_ok accepted v
    refine ⟨e, embedded, ?_⟩
    intro i place
    rcases place with small | rfl | member
    · rw [kept i (before i small)]
      have leading := (contains_bytes whole).mp behind
      have here := congrArg (fun raw => raw.getD i 0) leading
      simpa only [List.getD_eq_getElem?_getD, List.getElem?_take, small, ↓reduceIte] using here
    · rw [zero, kept 8 octet, nat64Prefix_octet accepted]
    · exact List.map_inj_left.mp (read.trans put.symm) i member

/-- A prefix with the first three octets in front of the u octet and one behind it. -/
def splitPrefix : Text := "2001:db8:100::/40".toList

theorem splitPrefix_round_trip :
    ∃ e, nat64Embed 0xc0000221 splitPrefix = .ok e ∧ nat64Extract e splitPrefix = .ok 0xc0000221 := by
  have taken : (nat64Prefix splitPrefix).isOk = true := by decide +kernel
  cases accepted : nat64Prefix splitPrefix with
  | error e =>
    rw [accepted] at taken
    cases taken
  | ok n =>
    obtain ⟨e, embedded, -, -, extracted⟩ := (nat64_round_trip accepted).1 0xc0000221
    exact ⟨e, embedded, extracted⟩

end FfnNgfw.Ipv6
