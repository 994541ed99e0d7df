import FfnNgfw.Fastpath.Classify
import FfnNgfw.Lib.MaskedSet
import FfnNgfw.Portable.Tables

/-!
# One policy, two dataplanes

The portable dataplane loads the addresses of a row in network order. The fast
path reads them in the byte order of x86 and compares them with host-order packet
addresses, so that it sees every address and mask with its bytes reversed. It also
applies the port ranges to protocols that have no ports.
-/

namespace FfnNgfw.Fastpath
open Mem Portable

theorem masked_test (ip mask x : UInt32) :
    (!(mask != 0 && (x &&& mask) != (ip &&& mask))) = true ↔ x &&& mask = ip &&& mask := by
  by_cases empty : mask = 0
  · simp [empty]
  · simp [empty]

theorem addrMatches_iff (r : PolicyRow) (sip dip : UInt32) :
    r.addrMatches sip dip = true ↔
      sip &&& r.srcMask = r.srcIp &&& r.srcMask ∧ dip &&& r.dstMask = r.dstIp &&& r.dstMask := by
  rw [PolicyRow.addrMatches, Bool.and_eq_true, masked_test, masked_test]

theorem entAddrMatches_iff (r : PolicyRow) (sip dip : UInt32) :
    entAddrMatches r sip dip = true ↔
      sip &&& r.srcMask = r.srcIp &&& r.srcMask ∧ dip &&& r.dstMask = r.dstIp &&& r.dstMask := by
  rw [entAddrMatches, Bool.and_eq_true, masked_test, masked_test]

/-- Address and mask, at `ip` and `mask`, read the same in both byte orders. -/
def Mirrored (m : Mem) (ip mask : Nat) : Prop :=
  (m mask = m (mask + 3) ∧ m (mask + 1) = m (mask + 2)) ∧
    m ip &&& m mask = m (ip + 3) &&& m (mask + 3) ∧ m (ip + 1) &&& m (mask + 1) = m (ip + 2) &&& m (mask + 2)

theorem masked_uint32_iff (mask ip mask' ip' : UInt32) :
    (∀ x : UInt32, x &&& mask = ip &&& mask ↔ x &&& mask' = ip' &&& mask') ↔
      mask = mask' ∧ ip &&& mask = ip' &&& mask' := by
  simp only [← UInt32.toBitVec_inj, UInt32.toBitVec_and]
  rw [← masked_eq_iff]
  exact ⟨fun h x => h ⟨x⟩, fun h x => h x.toBitVec⟩

theorem mirrored_iff (m : Mem) (ip mask : Nat) :
    (∀ x : UInt32, x &&& ldBe32 m mask = ldBe32 m ip &&& ldBe32 m mask ↔
      x &&& ldLe32 m mask = ldLe32 m ip &&& ldLe32 m mask) ↔ Mirrored m ip mask := by
  rw [masked_uint32_iff, ldBe32_eq_ldLe32_iff, ldBe32_and_eq_iff, Mirrored]

def SameAddresses (m : Mem) (row : Nat) : Prop :=
  ∀ sip dip, (policyRowAt m row).addrMatches sip dip = entAddrMatches (fpPolicyEntAt m row) sip dip

theorem sameAddresses_iff (m : Mem) (row : Nat) :
    SameAddresses m row ↔ Mirrored m row (row + 4) ∧ Mirrored m (row + 8) (row + 12) := by
  rw [← mirrored_iff, ← mirrored_iff]
  unfold SameAddresses
  simp only [Bool.eq_iff_iff (b := entAddrMatches _ _ _), addrMatches_iff, entAddrMatches_iff]
  simp only [policyRowAt, fpPolicyEntAt]
  constructor
  · intro same
    -- The row's own addresses satisfy the other conjunct.
    obtain ⟨source, dest⟩ := (same (ldBe32 m row) (ldBe32 m (row + 8))).mp ⟨rfl, rfl⟩
    refine ⟨fun x => ⟨fun h => ((same x _).mp ⟨h, rfl⟩).1, fun h => ((same x _).mpr ⟨h, dest⟩).1⟩,
      fun x => ⟨fun h => ((same _ x).mp ⟨rfl, h⟩).2, fun h => ((same _ x).mpr ⟨source, h⟩).2⟩⟩
  · rintro ⟨source, dest⟩ sip dip
    rw [source sip, dest dip]

/-! ### Rows of the policy compiler -/

theorem le32_be (v : UInt32) : le32 (be v) = be32 v := by
  obtain ⟨b0, b1, b2, b3⟩ := ldLe32_bytes (Mem.write (fun _ => 0) 0 (be32 v)) 0
  rw [le32, be, b0, b1, b2, b3]
  rfl

variable {m : Mem} {r : PolicyRow}

theorem bytes_of_at_be {p : Nat} {v : UInt32} (h : At m p (le32 (be v))) :
    m p = (v >>> 24).toUInt8 ∧ m (p + 1) = (v >>> 16).toUInt8 ∧ m (p + 2) = (v >>> 8).toUInt8 ∧
      m (p + 3) = v.toUInt8 := by
  rw [le32_be] at h
  exact ⟨h 0 (by simp [be32]), h 1 (by simp [be32]), h 2 (by simp [be32]), h 3 (by simp [be32])⟩

def Palindrome (v : UInt32) : Prop :=
  (v >>> 24).toUInt8 = v.toUInt8 ∧ (v >>> 16).toUInt8 = (v >>> 8).toUInt8

instance (v : UInt32) : Decidable (Palindrome v) := by
  unfold Palindrome
  infer_instance

def NetMirrored : Net → Prop
  | .any => True
  | .net ip bits => bits = 0 ∨ (bits = 32 ∧ Palindrome ip)

theorem cidrMask_palindrome : ∀ bits, Palindrome (cidrMask bits) ↔ bits = 0 ∨ bits = 32 := by decide

theorem mirrored_at_be {p : Nat} {ip mask : UInt32} (address : At m p (le32 (be ip)))
    (masked : At m (p + 4) (le32 (be mask))) :
    Mirrored m p (p + 4) ↔ Palindrome mask ∧ Palindrome (ip &&& mask) := by
  obtain ⟨a0, a1, a2, a3⟩ := bytes_of_at_be address
  obtain ⟨b0, b1, b2, b3⟩ := bytes_of_at_be masked
  have shift (k : UInt32) : (ip &&& mask) >>> k = ip >>> k &&& mask >>> k := UInt32.shiftRight_and
  rw [Mirrored, Palindrome, Palindrome, a0, a1, a2, a3, b0, b1, b2, b3]
  simp only [shift, UInt32.toUInt8_and]

theorem cidr_mirrored (net : Net) :
    Palindrome (cidr net).2 ∧ Palindrome ((cidr net).1 &&& (cidr net).2) ↔ NetMirrored net := by
  cases net with
  | any => exact ⟨fun _ => trivial, fun _ => by decide⟩
  | net ip bits =>
    rw [cidr, cidrMask_palindrome, NetMirrored]
    by_cases all : bits = 0
    · subst all
      rw [show cidrMask 0 = 0 from rfl, UInt32.and_zero]
      exact ⟨fun _ => Or.inl rfl, fun _ => ⟨Or.inl rfl, by decide⟩⟩
    · by_cases one : bits = 32
      · subst one
        rw [show cidrMask 32 = -1 from by decide, UInt32.and_neg_one]
        simp
      · simp [all, one]

/-- A compiled row means the same in both dataplanes exactly when its source and its
destination are each `any`, a /0, or a /32 whose address is a palindrome. -/
theorem row_sameAddresses_iff {row : Nat} {rule : Rule} {rid : UInt16} (stored : At m row (rule.row rid)) :
    SameAddresses m row ↔ NetMirrored rule.src ∧ NetMirrored rule.dst := by
  unfold Rule.row at stored
  simp only [at_append, List.length_append] at stored
  obtain ⟨⟨⟨⟨⟨⟨⟨⟨⟨⟨sip, smask⟩, dip⟩, dmask⟩, _⟩, _⟩, _⟩, _⟩, _⟩, _⟩, _⟩ := stored
  rw [sameAddresses_iff, mirrored_at_be sip smask, mirrored_at_be (p := row + 8) dip dmask, cidr_mirrored, cidr_mirrored]

/-! ### Blobs -/

def fpPolicy (m : Mem) (p : Nat) : List PolicyRow :=
  (List.range (ldLe32 m (p + 8)).toNat).map fun i => fpPolicyEntAt m (p + fpHdrSizeW + i * fpPolicySizeW)

def SameMeaning (m : Mem) (p len : Nat) : Prop :=
  ∀ (i : Nat) (r r' : PolicyRow), (dpTablesLoad m (some p) len).1.policy[i]? = some r → (fpPolicy m p)[i]? = some r' →
    ∀ sip dip, r.addrMatches sip dip = entAddrMatches r' sip dip

theorem sameMeaning_iff_rows {p len : Nat} (accepted : (dpTablesLoad m (some p) len).2 = .ok) :
    SameMeaning m p len ↔
      ∀ i < (ldLe32 m (p + 8)).toNat, SameAddresses m (p + fpHdrSizeW + i * fpPolicySizeW) := by
  unfold SameMeaning
  rw [dpTablesLoad_ok accepted, fpPolicy]
  constructor
  · intro same i inside
    exact same i _ _ (by simp [inside]) (by simp [inside])
  · intro same i r r' loaded read
    simp only [List.getElem?_map, Option.map_eq_some_iff] at loaded read
    obtain ⟨j, found, rfl⟩ := loaded
    obtain ⟨j', found', rfl⟩ := read
    obtain ⟨inside, rfl⟩ := List.getElem?_eq_some_iff.mp found
    obtain ⟨_, rfl⟩ := List.getElem?_eq_some_iff.mp found'
    rw [List.length_range] at inside
    rw [List.getElem_range]
    exact same i inside

theorem sameMeaning_mkpolicy_iff {p len : Nat} {rules : List Rule} {blob : List UInt8}
    (accepted : (dpTablesLoad m (some p) len).2 = .ok) (made : mkpolicy rules = some blob) (stored : At m p blob) :
    SameMeaning m p len ↔ ∀ r ∈ rules, NetMirrored r.src ∧ NetMirrored r.dst := by
  obtain ⟨count, rows⟩ := at_mkpolicy made stored
  rw [sameMeaning_iff_rows accepted, count]
  constructor
  · intro same r member
    obtain ⟨i, inside, rfl⟩ := List.getElem_of_mem member
    obtain ⟨rid, there⟩ := at_mkRows rows (List.getElem?_eq_getElem inside)
    exact (row_sameAddresses_iff there).mp (same i inside)
  · intro same i inside
    obtain ⟨rid, there⟩ := at_mkRows rows (List.getElem?_eq_getElem inside)
    exact (row_sameAddresses_iff there).mpr (same _ (List.getElem_mem inside))

/-- A blob has one meaning exactly when the addresses and masks of all its rows are
mirrored. Of the rules that the policy compiler accepts, these are the ones that name
`any`, a /0, or a single palindromic address on either side. -/
theorem one_meaning_iff (m : Mem) (p len : Nat) (accepted : (dpTablesLoad m (some p) len).2 = .ok) :
    (SameMeaning m p len ↔ ∀ i < (ldLe32 m (p + 8)).toNat,
      Mirrored m (p + fpHdrSizeW + i * fpPolicySizeW) (p + fpHdrSizeW + i * fpPolicySizeW + 4) ∧
      Mirrored m (p + fpHdrSizeW + i * fpPolicySizeW + 8) (p + fpHdrSizeW + i * fpPolicySizeW + 12)) ∧
    (∀ rules blob, mkpolicy rules = some blob → At m p blob →
      (SameMeaning m p len ↔ ∀ r ∈ rules, NetMirrored r.src ∧ NetMirrored r.dst)) := by
  refine ⟨?_, fun rules blob made stored => sameMeaning_mkpolicy_iff accepted made stored⟩
  rw [sameMeaning_iff_rows accepted]
  simp only [sameAddresses_iff]

def tenNet : List Rule := [⟨0, 0, .net 0x0A000000 8, .any, 0⟩]

def tenNetMem : Mem := Mem.write (fun _ => 0) 0 ((mkpolicy tenNet).getD [])

theorem tenNet_accepted : (dpTablesLoad tenNetMem (some 0) 68).2 = .ok := by decide

theorem tenNet_not_sameMeaning : (dpTablesLoad tenNetMem (some 0) 68).2 = .ok ∧ ¬SameMeaning tenNetMem 0 68 := by
  refine ⟨tenNet_accepted, fun same => ?_⟩
  have row := (sameMeaning_iff_rows tenNet_accepted).mp same 0 (by decide) 0x0A010203 0
  revert row
  decide

theorem tenNet_one_meaning :
    (dpTablesLoad tenNetMem (some 0) 68).2 = .ok ∧
      (SameMeaning tenNetMem 0 68 ↔ ∀ r ∈ tenNet, NetMirrored r.src ∧ NetMirrored r.dst) :=
  ⟨tenNet_accepted, (one_meaning_iff tenNetMem 0 68 tenNet_accepted).2 tenNet _ rfl (at_write _ _ _)⟩

/-! ### Port ranges -/

def baseMatches (r : PolicyRow) (k : Tuple) : Bool :=
  !(r.vsys != 0 && r.vsys != k.vsys) && !(r.proto != 0 && r.proto != k.proto) && r.addrMatches k.srcIp k.dstIp

def fpSelect (rows : List PolicyRow) (k : Tuple) : Option (Nat × PolicyRow) :=
  classifySelect rows k.vsys k.srcIp k.dstIp k.sport k.dport k.proto

theorem matches_eq_of_ports {k : Tuple} (ports : hasPorts k.proto = true) :
    r.matches k = entMatches r k.vsys k.srcIp k.dstIp k.sport k.dport k.proto := by
  unfold hasPorts at ports
  have addresses : entAddrMatches r k.srcIp k.dstIp = r.addrMatches k.srcIp k.dstIp := rfl
  unfold PolicyRow.matches entMatches
  rw [ports, Bool.true_and, addresses]
  simp only [Bool.not_or, Bool.and_assoc]

theorem matches_eq_base {k : Tuple} (noPorts : hasPorts k.proto = false) :
    r.matches k = baseMatches r k := by
  unfold hasPorts at noPorts
  unfold PolicyRow.matches baseMatches
  rw [noPorts, Bool.false_and, Bool.not_false, Bool.and_true]

theorem entMatches_eq_base {k : Tuple} (sport : k.sport = 0) (dport : k.dport = 0) :
    entMatches r k.vsys k.srcIp k.dstIp k.sport k.dport k.proto =
      (baseMatches r k && decide (r.sportLo = 0) && decide (r.dportLo = 0)) := by
  have low (lo hi : UInt16) : (!(decide (0 < lo) || decide (hi < 0))) = decide (lo = 0) := by
    simp [UInt16.pos_iff_ne_zero]
  unfold entMatches baseMatches
  rw [sport, dport, low, low]
  rfl

/-- Both dataplanes select the same row, or none, exactly when the packet carries
ports, or every row that would match it but for a port range above 0 stands below a
row that matches it and whose port ranges start at 0. -/
theorem select_same_iff (rows : List PolicyRow) (k : Tuple) (ports : PortsOfProto k) :
    fpSelect rows k = dpSelect rows k ↔
      hasPorts k.proto = true ∨
        ∀ (i : Nat) (r : PolicyRow), rows[i]? = some r → baseMatches r k = true → (r.sportLo ≠ 0 ∨ r.dportLo ≠ 0) →
          ∃ (j : Nat) (s : PolicyRow), j < i ∧ rows[j]? = some s ∧ baseMatches s k = true ∧
            s.sportLo = 0 ∧ s.dportLo = 0 := by
  cases carries : hasPorts k.proto with
  | true =>
    refine ⟨fun _ => Or.inl rfl, fun _ => ?_⟩
    exact firstMatchFrom_congr (fun r _ => (matches_eq_of_ports carries).symm) 0
  | false =>
    obtain ⟨sport, dport⟩ := ports carries
    have portable : (fun r : PolicyRow => r.matches k) = fun r => baseMatches r k :=
      funext fun r => matches_eq_base carries
    have narrow : (fun r => entMatches r k.vsys k.srcIp k.dstIp k.sport k.dport k.proto) =
        fun r => baseMatches r k && decide (r.sportLo = 0) && decide (r.dportLo = 0) :=
      funext fun r => entMatches_eq_base sport dport
    rw [fpSelect, classifySelect, dpSelect, portable, narrow, eq_comm, firstMatch_eq_iff]
    · simp only [Bool.false_eq_true, false_or, Bool.and_eq_true, decide_eq_true_eq, Bool.and_eq_false_iff,
        decide_eq_false_iff_not]
      constructor
      · intro shadowed i r read base low
        obtain ⟨j, s, below, readS, ⟨baseS, sportS⟩, dportS⟩ := shadowed i r read base (by tauto)
        exact ⟨j, s, below, readS, baseS, sportS, dportS⟩
      · intro shadowed i r read base low
        obtain ⟨j, s, below, readS, baseS, sportS, dportS⟩ := shadowed i r read base (by
          rcases low with (wrong | sport) | dport
          · rw [base] at wrong
            cases wrong
          · exact Or.inl sport
          · exact Or.inr dport)
        exact ⟨j, s, below, readS, ⟨baseS, sportS⟩, dportS⟩
    · intro r both
      simp only [Bool.and_eq_true] at both
      exact both.1.1

def httpsRow : PolicyRow := ⟨0, 0, 0, 0, 0, 65535, 443, 443, 0, 0, 3, 0, 0xFFFF, 1⟩

def icmpTuple : Tuple := ⟨0x0A000001, 0x0A000002, 0, 0, 1, 1, 0⟩

theorem icmpTuple_ports : PortsOfProto icmpTuple := fun _ => ⟨rfl, rfl⟩

theorem icmp_select_differs : PortsOfProto icmpTuple ∧
    fpSelect [httpsRow] icmpTuple ≠ dpSelect [httpsRow] icmpTuple :=
  ⟨icmpTuple_ports, by decide⟩

theorem icmp_select_same : PortsOfProto icmpTuple ∧
    fpSelect [{ httpsRow with dportLo := 0 }] icmpTuple = dpSelect [{ httpsRow with dportLo := 0 }] icmpTuple := by
  refine ⟨icmpTuple_ports, (select_same_iff _ icmpTuple icmpTuple_ports).mpr (Or.inr ?_)⟩
  intro i r read _ low
  cases i with
  | zero =>
    cases read
    exact absurd low (by decide)
  | succ i => cases read

end FfnNgfw.Fastpath
