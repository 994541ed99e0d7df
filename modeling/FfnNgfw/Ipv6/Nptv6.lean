import FfnNgfw.Ipv6.Embedding
import FfnNgfw.Lib.OnesComplement
import Mathlib.Data.List.GetD

/-!
# NPTv6

The mapping between an internal and an external prefix of one length. One word of the
host bits takes up the difference of the two prefixes, so that the ones-complement sum of
the address stays the same.
-/

namespace FfnNgfw.Ipv6
open Threatdb (Text)
open OnesComplement (checksum total)

/-! ### Addresses -/

/-- `ip.IPv6Network((n.network_address, length))` -/
def IPv6Network.lengthened (n : IPv6Network) (length : Nat) (longer : n.prefixlen ≤ length) (short : length ≤ 128) : IPv6Network where
  networkAddress := n.networkAddress
  prefixlen := length
  short := short
  aligned := Nat.mod_eq_zero_of_dvd
    (Dvd.dvd.trans (Nat.pow_dvd_pow 2 (Nat.sub_le_sub_left longer 128)) (Nat.dvd_of_mod_eq_zero n.aligned))

def nptv6Prefixes (internal external : Text) : Except String (IPv6Network × IPv6Network) := do
  let a ← networkPrefix internal "NPTv6"
  let b ← networkPrefix external "NPTv6"
  let length := max a.prefixlen b.prefixlen
  if long : 64 < length then throw "NPTv6 prefixes must be /64 or shorter"
  else
    have short : length ≤ 128 := by omega
    let a := a.lengthened length (Nat.le_max_left _ _) short
    let b := b.lengthened length (Nat.le_max_right _ _) short
    if a.overlaps b then throw "NPTv6 internal and external prefixes must not overlap"
    else return (a, b)

def adjustedIndex (prefixlen : Nat) (words : List Nat) : Except String Nat :=
  if prefixlen ≤ 48 then
    if words.getD 3 0 = 65535 then throw "NPTv6 subnet 0xffff has no reversible mapping" else return 3
  else
    match [4, 5, 6, 7].find? fun i => words.getD i 0 ≠ 65535 with
    | none => throw "NPTv6 all-ones interface identifier has no mapping"
    | some i => return i

def wordSum (a : IPv6Address) : Nat := (unpackWords a.packed).sum

def adjustment (a b : IPv6Network) : Nat := (((wordSum a.networkAddress : Int) - wordSum b.networkAddress) % 65535).toNat

/-- `nptv6_address` once the direction is settled. -/
def mapAddress (a b : IPv6Network) (address : IPv6Address) : Except String IPv6Address := do
  if !a.contains address then throw "Address is outside the effective NPTv6 prefix"
  else
    let words := unpackWords address.packed
    let index ← adjustedIndex a.prefixlen words
    let words := words.set index ((words.getD index 0 + adjustment a b) % 65535)
    let mapped := ByteOrder.big.fromBytes (packWords words)
    let hostmask := 2 ^ (128 - a.prefixlen) - 1
    return .ofValue (b.networkAddress.value ||| (mapped &&& hostmask))

def nptv6Address (address : IPv6Address) (internal external : Text) (reverse : Bool) : Except String IPv6Address := do
  let (a, b) ← nptv6Prefixes internal external
  if reverse then mapAddress b a address else mapAddress a b address

def mapAt (internal external : Text) (raw : List UInt8) (field : Nat × Bool) : Except String (List UInt8) := do
  let mapped ← nptv6Address (.ofValue (ByteOrder.big.fromBytes (slice raw field.1 16))) internal external field.2
  return raw.take field.1 ++ mapped.packed ++ raw.drop (field.1 + 16)

def nptv6Packet (packet : List UInt8) (internal external : Text) (direction : String) : Except String (List UInt8) :=
  if direction ∉ ["outbound", "inbound", "hairpin"] then throw "Invalid NPTv6 direction"
  else if packet.length < 40 ∨ packet.getD 0 0 >>> 4 ≠ 6 ∨ packet.length ≠ 40 + ByteOrder.big.fromBytes (slice packet 4 2) then
    throw "Expected one complete IPv6 packet"
  else if packet.getD 6 0 ∉ [6, 17, 58] ∨ packet.getD 6 0 = 58 ∧ (packet.length < 48 ∨ packet.getD 40 0 < 128) then
    throw "NPTv6 packet oracle supports TCP, UDP and informational ICMPv6 without extensions"
  else
    let fields := [(8, false), (24, true)].filter fun f => !(f.2 && direction = "outbound" || !f.2 && direction = "inbound")
    fields.foldlM (mapAt internal external) packet

/-! ### One word of a number -/

/-- The word with the weight `p`. -/
def wordOf (p x : Nat) : Nat := x / p % 65536

theorem wordOf_lt (p x : Nat) : wordOf p x < 65536 := Nat.mod_lt _ (by decide)

theorem wordOf_mod (p c x : Nat) : wordOf p (x % (p * (65536 * c))) = wordOf p x := by
  unfold wordOf
  rw [Nat.mod_mul_right_div_self, Nat.mod_mul_right_mod]

theorem replace_word {x y p c w : Nat} (inside : 0 < c) (weight : 0 < p) (small : w < 65536) (put : y + wordOf p x * p = x + w * p) :
    y / (p * (65536 * c)) = x / (p * (65536 * c)) ∧
      y % (p * (65536 * c)) + wordOf p x * p = x % (p * (65536 * c)) + w * p := by
  have lower := Nat.mod_mul_right_div_self x p (65536 * c)
  have word : x / p % (65536 * c) % 65536 = wordOf p x := Nat.mod_mul_right_mod _ _ _
  have bound : x / p % (65536 * c) < 65536 * c := Nat.mod_lt _ (by omega)
  obtain ⟨upper, upperEq⟩ : ∃ u, u = x / p % (65536 * c) / 65536 := ⟨_, rfl⟩
  have parts : x / p % (65536 * c) = 65536 * upper + wordOf p x := by omega
  have host := Nat.div_add_mod (x % (p * (65536 * c))) p
  rw [lower, parts] at host
  have whole := Nat.div_add_mod x (p * (65536 * c))
  have low := Nat.mod_lt (x % (p * (65536 * c))) weight
  have before : p * (65536 * upper + wordOf p x) = p * (65536 * upper) + wordOf p x * p := by ring
  have after : p * (65536 * upper + w) = p * (65536 * upper) + w * p := by ring
  have fits : p * (65536 * upper + w) + x % (p * (65536 * c)) % p < p * (65536 * c) := by
    calc p * (65536 * upper + w) + x % (p * (65536 * c)) % p < p * (65536 * upper + w) + p := by omega
      _ = p * (65536 * upper + w + 1) := by ring
      _ ≤ p * (65536 * c) := Nat.mul_le_mul_left p (by omega)
  obtain ⟨quotient, remainder⟩ := (Nat.div_mod_unique (a := y) (d := x / (p * (65536 * c)))
    (c := p * (65536 * upper + w) + x % (p * (65536 * c)) % p) (Nat.mul_pos weight (by omega))).mpr ⟨by omega, fits⟩
  exact ⟨quotient, by omega⟩

theorem host_weight {k j : Nat} (last : j ≤ 7) (room : 16 * (8 - j) ≤ k) :
    2 ^ k = 65536 ^ (7 - j) * (65536 * 2 ^ (k - 16 * (8 - j))) := by
  have word : (65536 : Nat) = 2 ^ 16 := rfl
  rw [word, ← Nat.pow_mul, ← Nat.pow_add, ← Nat.pow_add]
  congr 1
  omega

section

variable {a b : IPv6Network} {x y : IPv6Address}

theorem words_length (x : IPv6Address) : (unpackWords x.packed).length = 8 := by
  rw [unpackWords_length, x.wide]

theorem value_words (x : IPv6Address) : Digits.value 65536 (unpackWords x.packed) = x.value :=
  value_unpackWords (by rw [x.wide])

variable {ws : List Nat}

theorem digit_wordOf (eight : ws.length = 8) (small : ∀ w ∈ ws, w < 65536) {j : Nat} (inside : j < 8) :
    ws.getD j 0 = wordOf (65536 ^ (7 - j)) (Digits.value 65536 ws) := by
  have digit := Digits.value_digit (by decide) small (i := j) (by omega)
  rw [List.getD_eq_getElem?_getD, List.getElem?_eq_getElem (by omega), Option.getD_some, ← digit, eight]
  rfl

theorem wordSum_mod (x : IPv6Address) : wordSum x % 65535 = x.value % 65535 := by
  unfold wordSum
  rw [← value_words]
  exact (Digits.value_modEq_sum (by decide) _).symm

theorem network_room (n : IPv6Network) : n.networkAddress.value + 2 ^ (128 - n.prefixlen) ≤ 2 ^ 128 := by
  obtain ⟨q, multiple⟩ := Nat.dvd_of_mod_eq_zero n.aligned
  have bound := n.networkAddress.value_lt
  have short := n.short
  have split : (2 : Nat) ^ 128 = 2 ^ (128 - n.prefixlen) * 2 ^ n.prefixlen := by
    rw [← Nat.pow_add]
    congr 1
    omega
  rw [multiple, split] at bound
  rw [multiple, split, ← Nat.mul_succ]
  exact Nat.mul_le_mul_left _ (Nat.lt_of_mul_lt_mul_left bound)

theorem contains_iff_add {n : IPv6Network} :
    n.contains x = true ↔ x.value = n.networkAddress.value + x.value % 2 ^ (128 - n.prefixlen) := by
  have parts := Nat.div_add_mod x.value (2 ^ (128 - n.prefixlen))
  rw [Nat.mul_comm] at parts
  unfold IPv6Network.contains
  rw [decide_eq_true_eq]
  omega

theorem host_value {n : IPv6Network} {h : Nat} (small : h < 2 ^ (128 - n.prefixlen)) :
    (IPv6Address.ofValue (n.networkAddress.value + h)).value = n.networkAddress.value + h ∧
      (n.networkAddress.value + h) % 2 ^ (128 - n.prefixlen) = h := by
  have room := network_room n
  refine ⟨IPv6Address.value_ofValue (by omega), ?_⟩
  rw [Nat.add_mod, n.aligned, Nat.zero_add, Nat.mod_mod, Nat.mod_eq_of_lt small]

/-! ### The adjusted word -/

theorem find_same {p q : Nat → Bool} {l : List Nat} {i : Nat} (found : l.find? p = some i) (here : q i = true)
    (others : ∀ j ∈ l, j ≠ i → q j = p j) : l.find? q = some i := by
  induction l with
  | nil => cases found
  | cons j l ih =>
    rw [List.forall_mem_cons] at others
    by_cases first : j = i
    · subst first
      rw [List.find?_cons, here]
    · have same := others.1 first
      rw [List.find?_cons] at found ⊢
      rw [same]
      cases taken : p j with
      | true =>
        rw [taken] at found
        exact absurd (Option.some.inj found) first
      | false =>
        rw [taken] at found
        exact ih found others.2

def firstHostWord (prefixlen : Nat) : Nat := if prefixlen ≤ 48 then 3 else 4

theorem adjustedIndex_ok {prefixlen i : Nat} (chosen : adjustedIndex prefixlen ws = .ok i) :
    firstHostWord prefixlen ≤ i ∧ i < 8 ∧ ws.getD i 0 ≠ 65535 := by
  unfold adjustedIndex at chosen
  unfold firstHostWord
  split at chosen
  · rename_i small
    rw [if_pos small]
    split at chosen
    · cases chosen
    · rename_i free
      cases chosen
      exact ⟨Nat.le_refl 3, by decide, free⟩
  · rename_i large
    rw [if_neg large]
    split at chosen
    · cases chosen
    · rename_i j found
      cases chosen
      have free := List.find?_some found
      have member := List.mem_of_find?_eq_some found
      have range : ∀ j ∈ ([4, 5, 6, 7] : List Nat), 4 ≤ j ∧ j < 8 := by decide
      obtain ⟨low, high⟩ := range i member
      exact ⟨low, high, by simpa using free⟩

theorem adjustedIndex_same {prefixlen i : Nat} {ws vs : List Nat} (chosen : adjustedIndex prefixlen ws = .ok i)
    (others : ∀ j, firstHostWord prefixlen ≤ j → j < 8 → j ≠ i → vs.getD j 0 = ws.getD j 0) (free : vs.getD i 0 ≠ 65535) :
    adjustedIndex prefixlen vs = .ok i := by
  unfold adjustedIndex at chosen ⊢
  unfold firstHostWord at others
  split at chosen
  · rename_i small
    rw [if_pos small]
    split at chosen
    · cases chosen
    · cases chosen
      rw [if_neg free]
      rfl
  · rename_i large
    rw [if_neg large] at others ⊢
    split at chosen
    · cases chosen
    · rename_i j found
      cases chosen
      have again : [4, 5, 6, 7].find? (fun k => vs.getD k 0 ≠ 65535) = some i := by
        refine find_same found (by simpa using free) ?_
        intro k member other
        have range : ∀ k ∈ ([4, 5, 6, 7] : List Nat), 4 ≤ k ∧ k < 8 := by decide
        rw [others k (range k member).1 (range k member).2 other]
      rw [again]
      rfl

def adjusted (a b : IPv6Network) (w : Nat) : Nat := (w + adjustment a b) % 65535

theorem adjusted_back (a b : IPv6Network) {w : Nat} (small : w < 65535) : adjusted b a (adjusted a b w) = w := by
  unfold adjusted adjustment
  omega

theorem mapAddress_ok_iff : mapAddress a b x = .ok y ↔ a.contains x = true ∧
    ∃ i, adjustedIndex a.prefixlen (unpackWords x.packed) = .ok i ∧
    y = .ofValue (b.networkAddress.value ||| Digits.value 65536
      ((unpackWords x.packed).set i (adjusted a b ((unpackWords x.packed).getD i 0))) % 2 ^ (128 - a.prefixlen)) := by
  unfold mapAddress
  by_cases inside : a.contains x = true
  · rw [inside]
    dsimp only
    cases chosen : adjustedIndex a.prefixlen (unpackWords x.packed) with
    | error e => simp [bind, Except.bind]
    | ok i =>
      have small : ∀ w ∈ (unpackWords x.packed).set i (adjusted a b ((unpackWords x.packed).getD i 0)), w < 65536 := by
        intro w member
        rcases List.mem_or_eq_of_mem_set member with old | rfl
        · exact unpackWords_lt _ w old
        · unfold adjusted
          omega
      have packed := fromBytes_packWords small
      unfold adjusted at packed
      have result : ∀ z : IPv6Address, (Except.ok z : Except String IPv6Address) = .ok y ↔ y = z := by
        intro z
        rw [Except.ok.injEq, eq_comm]
      simp only [bind, Except.bind, pure, Except.pure, Bool.not_true, Bool.false_eq_true, ↓reduceIte, packed,
        Nat.and_two_pow_sub_one_eq_mod, result, true_and, Except.ok.injEq, exists_eq_left', adjusted]
  · simp [throw, throwThe, MonadExceptOf.throw, inside]

theorem put_word (x : IPv6Address) {i w k : Nat} (last : i < 8) (room : 16 * (8 - i) ≤ k) (small : w < 65536) :
    Digits.value 65536 ((unpackWords x.packed).set i w) % 2 ^ k + (unpackWords x.packed).getD i 0 * 65536 ^ (7 - i) =
      x.value % 2 ^ k + w * 65536 ^ (7 - i) := by
  have place : i < (unpackWords x.packed).length := by rwa [words_length]
  have put := @Digits.value_set 65536 _ i place w
  have digit := digit_wordOf (words_length x) (unpackWords_lt x.packed) last
  rw [value_words] at digit
  have item : (unpackWords x.packed)[i] = wordOf (65536 ^ (7 - i)) x.value := by
    rw [← digit, List.getD_eq_getElem?_getD, List.getElem?_eq_getElem place, Option.getD_some]
  rw [item, words_length, value_words] at put
  rw [digit, host_weight (by omega) room]
  exact (replace_word (by positivity) (by positivity) small put).2

theorem host_word (y : IPv6Address) (eight : ws.length = 8) (small : ∀ w ∈ ws, w < 65536) {j k : Nat} (last : j < 8)
    (room : 16 * (8 - j) ≤ k) (same : y.value % 2 ^ k = Digits.value 65536 ws % 2 ^ k) :
    (unpackWords y.packed).getD j 0 = ws.getD j 0 := by
  rw [host_weight (by omega) room] at same
  rw [digit_wordOf (words_length y) (unpackWords_lt _) last, digit_wordOf eight small last, value_words, ← wordOf_mod, same, wordOf_mod]

theorem weight_mod (w n : Nat) : w * 65536 ^ n % 65535 = w % 65535 := by
  rw [Nat.mul_mod, Nat.pow_mod]
  norm_num

/-- The mapping between two prefixes of one length, at most 64: where it leads, the sum, and
the way back. -/
theorem mapAddress_spec (same : a.prefixlen = b.prefixlen) (short : a.prefixlen ≤ 64) (mapped : mapAddress a b x = .ok y) :
    b.contains y = true ∧ wordSum y % 65535 = wordSum x % 65535 ∧ mapAddress b a y = .ok x := by
  obtain ⟨inside, i, chosen, result⟩ := mapAddress_ok_iff.mp mapped
  obtain ⟨low, last, free⟩ := adjustedIndex_ok chosen
  have room : ∀ j, firstHostWord a.prefixlen ≤ j → 16 * (8 - j) ≤ 128 - a.prefixlen := by
    intro j above
    unfold firstHostWord at above
    split at above <;> omega
  obtain ⟨w, old⟩ : ∃ w, w = (unpackWords x.packed).getD i 0 := ⟨_, rfl⟩
  have word : w < 65535 := by
    have bound := wordOf_lt (65536 ^ (7 - i)) x.value
    rw [← value_words, ← digit_wordOf (words_length x) (unpackWords_lt _) last, ← old] at bound
    omega
  have word' : adjusted a b w < 65535 := Nat.mod_lt _ (by decide)
  -- the host bits before and after
  have host := put_word x last (room i low) (Nat.lt_succ_of_lt word')
  obtain ⟨vs, after⟩ : ∃ vs, vs = (unpackWords x.packed).set i (adjusted a b w) := ⟨_, rfl⟩
  have eight : vs.length = 8 := by rw [after, List.length_set, words_length]
  have small : ∀ v ∈ vs, v < 65536 := by
    intro v member
    rw [after] at member
    rcases List.mem_or_eq_of_mem_set member with kept | rfl
    · exact unpackWords_lt _ v kept
    · omega
  have hostBound : Digits.value 65536 vs % 2 ^ (128 - a.prefixlen) < 2 ^ (128 - b.prefixlen) := by
    rw [← same]
    exact Nat.mod_lt _ (by positivity)
  obtain ⟨q, aligned⟩ := Nat.dvd_of_mod_eq_zero b.aligned
  have joined : b.networkAddress.value ||| Digits.value 65536 vs % 2 ^ (128 - a.prefixlen) =
      b.networkAddress.value + Digits.value 65536 vs % 2 ^ (128 - a.prefixlen) := by
    rw [aligned]
    exact (Nat.two_pow_add_eq_or_of_lt hostBound q).symm
  obtain ⟨valueY, hostY⟩ := host_value hostBound
  rw [← old, ← after, joined] at result
  rw [← old, ← after] at host
  rw [← result] at valueY
  rw [← valueY, ← same] at hostY
  have insideX := contains_iff_add.mp inside
  have sumA := wordSum_mod a.networkAddress
  have sumB := wordSum_mod b.networkAddress
  have weight := weight_mod w (7 - i)
  have weight' := weight_mod (adjusted a b w) (7 - i)
  have behind : b.contains y = true := by
    rw [contains_iff_add, ← same, hostY, valueY]
  refine ⟨behind, ?_, ?_⟩
  · rw [wordSum_mod, wordSum_mod, valueY, insideX]
    have step : adjusted a b w = (w + adjustment a b) % 65535 := rfl
    unfold adjustment at step
    omega
  · -- the same word is chosen, and gets its old value
    have others : ∀ j, firstHostWord b.prefixlen ≤ j → j < 8 → j ≠ i →
        (unpackWords y.packed).getD j 0 = (unpackWords x.packed).getD j 0 := by
      intro j above lastJ other
      rw [← same] at above
      rw [host_word y eight small lastJ (room j above) hostY, after, List.getD_eq_getElem?_getD, List.getElem?_set_ne (Ne.symm other),
        List.getD_eq_getElem?_getD]
    have here : (unpackWords y.packed).getD i 0 = adjusted a b w := by
      rw [host_word y eight small last (room i low) hostY, after, List.getD_eq_getElem?_getD,
        List.getElem?_set_self (by rwa [words_length]), Option.getD_some]
    have chosenY : adjustedIndex b.prefixlen (unpackWords y.packed) = .ok i := by
      rw [same] at chosen
      refine adjustedIndex_same chosen others ?_
      rw [here]
      omega
    have back := put_word y last (room i low) (Nat.lt_succ_of_lt word)
    rw [here, hostY] at back
    have restored : Digits.value 65536 ((unpackWords y.packed).set i w) % 2 ^ (128 - a.prefixlen) =
        x.value % 2 ^ (128 - a.prefixlen) := by
      omega
    obtain ⟨r, alignedA⟩ := Nat.dvd_of_mod_eq_zero a.aligned
    have joinedA : a.networkAddress.value ||| x.value % 2 ^ (128 - a.prefixlen) =
        a.networkAddress.value + x.value % 2 ^ (128 - a.prefixlen) := by
      rw [alignedA]
      exact (Nat.two_pow_add_eq_or_of_lt (Nat.mod_lt _ (by positivity)) r).symm
    refine mapAddress_ok_iff.mpr ⟨behind, i, chosenY, ?_⟩
    rw [here, adjusted_back a b word, ← same, restored, joinedA, ← insideX, IPv6Address.ofValue_value]

end

/-! ### Prefixes and packets -/

theorem nptv6Prefixes_ok {internal external : Text} {a b : IPv6Network} (accepted : nptv6Prefixes internal external = .ok (a, b)) :
    a.prefixlen = b.prefixlen ∧ a.prefixlen ≤ 64 := by
  unfold nptv6Prefixes at accepted
  obtain ⟨a', -, accepted⟩ := bind_ok accepted
  obtain ⟨b', -, accepted⟩ := bind_ok accepted
  dsimp only at accepted
  split at accepted
  · cases accepted
  · rename_i short
    split at accepted
    · cases accepted
    · cases accepted
      exact ⟨rfl, Nat.not_lt.mp short⟩

section

variable {internal external : Text}

variable {reverse : Bool}

theorem nptv6Address_spec {a b : IPv6Network} (accepted : nptv6Prefixes internal external = .ok (a, b))
    {x y : IPv6Address} (mapped : nptv6Address x internal external reverse = .ok y) :
    (if reverse then b else a).contains x = true ∧ (if reverse then a else b).contains y = true ∧
      wordSum y % 65535 = wordSum x % 65535 ∧ nptv6Address y internal external (!reverse) = .ok x := by
  obtain ⟨same, short⟩ := nptv6Prefixes_ok accepted
  unfold nptv6Address at mapped ⊢
  rw [accepted] at mapped ⊢
  cases reverse with
  | false =>
    have inside := (mapAddress_ok_iff.mp mapped).1
    obtain ⟨behind, sum, back⟩ := mapAddress_spec same short mapped
    exact ⟨inside, behind, sum, back⟩
  | true =>
    have inside := (mapAddress_ok_iff.mp mapped).1
    obtain ⟨behind, sum, back⟩ := mapAddress_spec same.symm (same ▸ short) mapped
    exact ⟨inside, behind, sum, back⟩

/-- The pseudo header of an IPv6 packet and what comes behind its header. -/
def transportData (packet : List UInt8) : List UInt8 :=
  slice packet 8 32 ++ ByteOrder.big.toBytes 4 (packet.length - 40) ++ [0, 0, 0, packet.getD 6 0] ++ packet.drop 40

def TransportValid (packet : List UInt8) : Prop := checksum (transportData packet) = 0

theorem nptv6Address_sum {x y : IPv6Address} (mapped : nptv6Address x internal external reverse = .ok y) :
    wordSum y % 65535 = wordSum x % 65535 := by
  cases accepted : nptv6Prefixes internal external with
  | error e =>
    unfold nptv6Address at mapped
    rw [accepted] at mapped
    cases mapped
  | ok networks => exact (nptv6Address_spec accepted mapped).2.2.1

theorem mapAt_ok {front back out : List UInt8} {x : IPv6Address}
    (mapped : mapAt internal external (front ++ x.packed ++ back) (front.length, reverse) = .ok out) :
    ∃ y, wordSum y % 65535 = wordSum x % 65535 ∧ out = front ++ y.packed ++ back := by
  unfold mapAt at mapped
  obtain ⟨y, found, written⟩ := bind_ok mapped
  have field : IPv6Address.ofValue (ByteOrder.big.fromBytes (slice (front ++ x.packed ++ back) front.length 16)) = x := by
    rw [slice_append rfl x.wide]
    exact x.ofValue_value
  dsimp only at found written
  rw [field] at found
  cases written
  refine ⟨y, nptv6Address_sum found, ?_⟩
  have rest : (front ++ x.packed ++ back).drop (front.length + 16) = back := List.drop_left' (by rw [List.length_append, x.wide])
  rw [rest, List.append_assoc front x.packed, List.take_left]

theorem transportValid_iff {head payload : List UInt8} (eight : head.length = 8) (next : head.getD 6 0 ≠ 0) (s d : IPv6Address) :
    TransportValid (head ++ s.packed ++ d.packed ++ payload) ↔
      (wordSum s + wordSum d + total (ByteOrder.big.toBytes 4 payload.length ++ [0, 0, 0, head.getD 6 0] ++ payload)) % 65535 = 0 := by
  have length : (head ++ s.packed ++ d.packed ++ payload).length - 40 = payload.length := by
    simp only [List.length_append, eight, s.wide, d.wide]
    omega
  have addresses : slice (head ++ s.packed ++ d.packed ++ payload) 8 32 = s.packed ++ d.packed := by
    have whole : head ++ s.packed ++ d.packed ++ payload = head ++ (s.packed ++ d.packed) ++ payload := by simp only [List.append_assoc]
    rw [whole]
    exact slice_append eight (by rw [List.length_append, s.wide, d.wide])
  have behind : (head ++ s.packed ++ d.packed ++ payload).drop 40 = payload :=
    List.drop_left' (by rw [List.length_append, List.length_append, eight, s.wide, d.wide])
  have protocol : (head ++ s.packed ++ d.packed ++ payload).getD 6 0 = head.getD 6 0 := by
    simp only [List.append_assoc]
    rw [List.getD_append _ _ _ _ (by omega)]
  have data : transportData (head ++ s.packed ++ d.packed ++ payload) =
      s.packed ++ (d.packed ++ (ByteOrder.big.toBytes 4 payload.length ++ [0, 0, 0, head.getD 6 0] ++ payload)) := by
    unfold transportData
    rw [length, addresses, behind, protocol]
    simp only [List.append_assoc]
  have some' : total (transportData (head ++ s.packed ++ d.packed ++ payload)) ≠ 0 := by
    rw [Ne, OnesComplement.total_eq_zero, data]
    intro zero
    refine next (zero _ ?_)
    simp
  unfold TransportValid
  rw [OnesComplement.checksum_eq_zero, and_iff_left some', data, OnesComplement.total_append (by rw [s.wide]),
    OnesComplement.total_append (by rw [d.wide]), ← Nat.add_assoc, OnesComplement.total_even (by rw [s.wide]),
    OnesComplement.total_even (by rw [d.wide])]
  rfl

theorem packet_parts {packet : List UInt8} (long : 40 ≤ packet.length) :
    ∃ (head payload : List UInt8) (s d : IPv6Address), head.length = 8 ∧ packet = head ++ s.packed ++ d.packed ++ payload := by
  refine ⟨packet.take 8, packet.drop 40, ⟨slice packet 8 16, ?_⟩, ⟨slice packet 24 16, ?_⟩, ?_, ?_⟩
  · unfold slice
    rw [List.length_take, List.length_drop]
    omega
  · unfold slice
    rw [List.length_take, List.length_drop]
    omega
  · rw [List.length_take]
    omega
  · unfold slice
    have first := List.take_append_drop 8 packet
    have second := List.take_append_drop 16 (packet.drop 8)
    have third := List.take_append_drop 16 (packet.drop 24)
    rw [List.drop_drop] at second third
    rw [List.append_assoc, List.append_assoc, third, second, first]

/-- A packet that is let through keeps everything but its addresses, and its checksum is as
good as it was. -/
theorem nptv6Packet_spec {packet out : List UInt8} {direction : String}
    (mapped : nptv6Packet packet internal external direction = .ok out) :
    out.take 8 = packet.take 8 ∧ out.drop 40 = packet.drop 40 ∧ (TransportValid out ↔ TransportValid packet) := by
  unfold nptv6Packet at mapped
  split at mapped
  · cases mapped
  rename_i known
  split at mapped
  · cases mapped
  rename_i complete
  split at mapped
  · cases mapped
  rename_i protocol
  rw [not_or, not_or] at complete
  rw [not_or, not_not] at protocol
  obtain ⟨head, payload, s, d, eight, rfl⟩ := packet_parts (Nat.not_lt.mp complete.1)
  have next : head.getD 6 0 ≠ 0 := by
    have listed := protocol.1
    simp only [List.append_assoc] at listed
    rw [List.getD_append _ _ _ _ (by omega)] at listed
    intro zero
    rw [zero] at listed
    exact absurd listed (by decide)
  have first : ∀ raw, mapAt internal external (head ++ s.packed ++ d.packed ++ payload) (8, false) = .ok raw →
      ∃ s', wordSum s' % 65535 = wordSum s % 65535 ∧ raw = head ++ s'.packed ++ d.packed ++ payload := by
    intro raw found
    rw [← eight, List.append_assoc (head ++ s.packed)] at found
    obtain ⟨s', sum, written⟩ := mapAt_ok found
    exact ⟨s', sum, by rw [written]; simp only [List.append_assoc]⟩
  have second : ∀ (s' : IPv6Address) raw, mapAt internal external (head ++ s'.packed ++ d.packed ++ payload) (24, true) = .ok raw →
      ∃ d', wordSum d' % 65535 = wordSum d % 65535 ∧ raw = head ++ s'.packed ++ d'.packed ++ payload := by
    intro s' raw found
    have place : (head ++ s'.packed).length = 24 := by rw [List.length_append, eight, s'.wide]
    rw [← place] at found
    exact mapAt_ok found
  have parts : ∃ s' d' : IPv6Address, wordSum s' % 65535 = wordSum s % 65535 ∧ wordSum d' % 65535 = wordSum d % 65535 ∧
      out = head ++ s'.packed ++ d'.packed ++ payload := by
    simp only [not_not, List.mem_cons, List.not_mem_nil, or_false] at known
    rcases known with rfl | rfl | rfl
    · obtain ⟨raw, found, rest⟩ := bind_ok mapped
      cases rest
      obtain ⟨s', sum, rfl⟩ := first _ found
      exact ⟨s', d, sum, rfl, rfl⟩
    · obtain ⟨raw, found, rest⟩ := bind_ok mapped
      cases rest
      obtain ⟨d', sum, rfl⟩ := second s _ found
      exact ⟨s, d', rfl, sum, rfl⟩
    · obtain ⟨raw, found, rest⟩ := bind_ok mapped
      obtain ⟨s', sum, rfl⟩ := first _ found
      obtain ⟨raw', found', rest⟩ := bind_ok rest
      cases rest
      obtain ⟨d', sum', rfl⟩ := second s' _ found'
      exact ⟨s', d', sum, sum', rfl⟩
  obtain ⟨s', d', sumS, sumD, rfl⟩ := parts
  have front : ∀ s d : IPv6Address, (head ++ s.packed ++ d.packed ++ payload).take 8 = head := by
    intro s d
    rw [List.append_assoc, List.append_assoc]
    exact List.take_left' eight
  have back : ∀ s d : IPv6Address, (head ++ s.packed ++ d.packed ++ payload).drop 40 = payload := by
    intro s d
    exact List.drop_left' (by rw [List.length_append, List.length_append, eight, s.wide, d.wide])
  refine ⟨by rw [front, front], by rw [back, back], ?_⟩
  rw [transportValid_iff eight next, transportValid_iff eight next]
  omega

/-- The mapping stays inside the prefixes, keeps the ones-complement sum and is undone by the
other direction, so that no packet loses a valid checksum. -/
theorem nptv6_neutral_bijection {a b : IPv6Network} (accepted : nptv6Prefixes internal external = .ok (a, b)) :
    (∀ reverse x y, nptv6Address x internal external reverse = .ok y →
      (if reverse then b else a).contains x = true ∧ (if reverse then a else b).contains y = true ∧
        wordSum y ≡ wordSum x [MOD 65535] ∧ nptv6Address y internal external (!reverse) = .ok x) ∧
    ∀ packet direction out, nptv6Packet packet internal external direction = .ok out → (TransportValid out ↔ TransportValid packet) := by
  constructor
  · intro reverse x y mapped
    exact nptv6Address_spec accepted mapped
  · intro packet direction out mapped
    exact (nptv6Packet_spec mapped).2.2

end

def insidePrefix : Text := "fd01:203:405::/48".toList

def outsidePrefix : Text := "2001:db8:1::/56".toList

def insideHost : IPv6Address := .ofValue (0xfd010203040500000000000000001234)

theorem insideHost_bijection : ∃ y, nptv6Address insideHost insidePrefix outsidePrefix false = .ok y ∧
    wordSum y ≡ wordSum insideHost [MOD 65535] ∧ nptv6Address y insidePrefix outsidePrefix true = .ok insideHost := by
  have taken : (nptv6Prefixes insidePrefix outsidePrefix).isOk = true ∧
      (nptv6Address insideHost insidePrefix outsidePrefix false).isOk = true := by
    decide +kernel
  cases accepted : nptv6Prefixes insidePrefix outsidePrefix with
  | error e =>
    rw [accepted] at taken
    cases taken.1
  | ok networks =>
    cases mapped : nptv6Address insideHost insidePrefix outsidePrefix false with
    | error e =>
      rw [mapped] at taken
      cases taken.2
    | ok y =>
      obtain ⟨-, -, sum, back⟩ := (nptv6_neutral_bijection accepted).1 false insideHost y mapped
      exact ⟨y, rfl, sum, back⟩

end FfnNgfw.Ipv6
