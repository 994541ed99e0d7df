import FfnNgfw.Lib.Bytes
import FfnNgfw.Threatdb.Text
import Mathlib.Data.List.Sort

/-!
# Licences of a host

A token is 84 signed bytes and a signature. The store accepts the tokens that the master key has
signed for this host, and answers which features they license. Times are rational numbers of
seconds; the curve and its signatures are left to an oracle.
-/

namespace FfnNgfw.Signing.License
open Threatdb (Text strip hexDigit)

/-- `NGFW_LIC_MAGIC` -/
def licMagic : List UInt8 := "FFN-LIC1".toList.map fun c => UInt8.ofNat c.toNat

def licVersion : Nat := 1

def licPayloadBytes : Nat := 84

def deviceDnaBytes : Nat := 12

/-- `NGFW_SIG_ALG_ECDSA_P384` -/
def sigAlgEcdsaP384 : Nat := 4

def p384ScalarBytes : Nat := 48

def masterPubkeyBlobBytes : Nat := 144

def pubkeyBytesEcdsaP384 : Nat := 97

/-- `NGFW_LIC_FLAG_REVOKED` -/
def flagRevoked : Nat := 4

/-- `NGFW_LIC_FEAT_BASE` -/
def featBase : Nat := 0x100

/-- `NGFW_LIC_FEAT_ACCEL` -/
def featAccel : Nat := 0x130

/-- `_TIER_GBPS`, nothing for what is no tier. -/
def tierOf (feature : Nat) : Nat :=
  if feature = 0x101 then 10 else if feature = 0x102 then 40 else if feature = 0x103 then 100 else if feature = 0x104 then 400 else 0

structure Token where
  payload : List UInt8
  sig : List UInt8
  magic : List UInt8
  version : Nat
  dna : List UInt8
  featureId : Nat
  expiryUnixS : Nat
  flags : Nat
  signerId : List UInt8
  sigAlg : Nat
deriving DecidableEq

def unpackLe (b : List UInt8) (offset size : Nat) : Nat := ByteOrder.little.fromBytes (slice b offset size)

/-- `Token.parse` -/
def parse (blob : List UInt8) : Option Token :=
  if blob.length < licPayloadBytes then none
  else
    let b := blob.take licPayloadBytes
    some ⟨b, blob.drop licPayloadBytes, slice b 0 8, unpackLe b 8 4, slice b 12 12, unpackLe b 24 4, unpackLe b 40 8, unpackLe b 48 4,
      slice b 52 16, unpackLe b 68 4⟩

namespace Token

def magicOk (t : Token) : Bool := t.magic = licMagic

def isMaster (t : Token) : Bool := t.signerId = List.replicate 16 0

def expired (t : Token) (now : ℚ) : Bool := t.expiryUnixS ≠ 0 && decide ((t.expiryUnixS : ℚ) < now)

def revoked (t : Token) : Bool := t.flags &&& flagRevoked ≠ 0

end Token

/-! ### Verification -/

/-- What the library for elliptic curves does: it reads a point, and tells whether a pair of numbers signs a payload. -/
structure Curve where
  Key : Type
  decode : List UInt8 → Option Key
  signs : Key → List UInt8 → Nat → Nat → Bool

inductive Candidate where
  | bytes (raw : List UInt8)
  | text (s : Text)

/-- `bytes.fromhex`, with blanks in front of a byte. -/
def fromHex : Text → Option (List UInt8)
  | [] => some []
  | [c] => if c ∈ [' ', '\t', '\n', '\r', Char.ofNat 11, Char.ofNat 12] then some [] else none
  | a :: b :: rest =>
    if a ∈ [' ', '\t', '\n', '\r', Char.ofNat 11, Char.ofNat 12] then fromHex (b :: rest)
    else do
      let hi ← hexDigit a
      let lo ← hexDigit b
      let bytes ← fromHex rest
      return UInt8.ofNat (16 * hi + lo) :: bytes

/-- `_dna_from_any`; nothing for a text that is not hexadecimal. -/
def dnaFromAny : Candidate → List UInt8
  | .bytes raw => raw.take deviceDnaBytes
  | .text s => ((fromHex (strip (s.filter (· ≠ ':')))).getD []).take deviceDnaBytes

/-- What the store is given: whether the library is there, the file of the master key, the candidates, and the contents of the
licence files, as far as they can be read. -/
structure Host (C : Curve) where
  cryptoOk : Bool
  masterBlob : Option (List UInt8)
  liveDnas : List Candidate
  files : List (Option (List UInt8))

section verify

variable {C : Curve} (host : Host C)

def loadMasterPubkey : Option C.Key :=
  if host.cryptoOk then
    match host.masterBlob with
    | none => none
    | some blob =>
      if blob.length < masterPubkeyBlobBytes then none
      else if blob.head? ≠ some (UInt8.ofNat sigAlgEcdsaP384) then none
      else
        let point := slice blob 1 pubkeyBytesEcdsaP384
        if point.length ≠ pubkeyBytesEcdsaP384 ∨ point.head? ≠ some 4 then none else C.decode point
  else none

/-- `_verify_ecdsa_p384` -/
def verifyEcdsaP384 (master : C.Key) (payload sig : List UInt8) : Bool :=
  if sig.length = 2 * p384ScalarBytes then
    C.signs master payload (ByteOrder.big.fromBytes (sig.take p384ScalarBytes))
      (ByteOrder.big.fromBytes (slice sig p384ScalarBytes p384ScalarBytes))
  else false

def verify (token : Token) (now : ℚ) : Bool :=
  if host.cryptoOk = false then false
  else if token.magicOk = false then false
  else if token.version ≠ licVersion then false
  else if token.isMaster = false then false
  else if token.sigAlg ≠ sigAlgEcdsaP384 then false
  else if token.dna ∉ (host.liveDnas.map dnaFromAny).filter (· ≠ []) then false
  else if token.expired now then false
  else
    match loadMasterPubkey host with
    | none => false
    | some master => verifyEcdsaP384 master token.payload token.sig

/-- What `reload` does with one file. -/
def acceptFile (now : ℚ) (file : Option (List UInt8)) : Option Token :=
  match file with
  | none => none
  | some blob =>
    if blob.length < licPayloadBytes ∨ blob.take 8 ≠ licMagic then none
    else
      match parse blob with
      | none => none
      | some token => if verify host token now then some token else none

/-- The tokens that `reload` accepts. -/
def reload (now : ℚ) : List Token := host.files.filterMap (acceptFile host now)

end verify

section queries

variable (accepted : List Token) (now : ℚ)

def tierGbps : Nat :=
  accepted.foldl (fun best t => if t.expired now then best else if best < tierOf t.featureId then tierOf t.featureId else best) 0

def baseOk : Bool := (accepted.any fun t => t.featureId = featBase && !t.expired now) && 0 < tierGbps accepted now

def query (feature : Nat) : Bool :=
  if feature = featAccel then false
  else if feature = featBase then baseOk accepted now
  else accepted.any fun t => t.featureId = feature && !t.expired now

def features : List Nat := ((accepted.filter fun t => !t.expired now).map Token.featureId).dedup.insertionSort (· ≤ ·)

end queries

/-! ### What is listed and what is granted -/

section agreement

variable {accepted : List Token} {now : ℚ} {feature : Nat}

theorem mem_features : feature ∈ features accepted now ↔ ∃ t ∈ accepted, t.featureId = feature ∧ t.expired now = false := by
  rw [features, List.mem_insertionSort, List.mem_dedup, List.mem_map]
  constructor
  · intro ⟨t, kept, same⟩
    obtain ⟨member, alive⟩ := List.mem_filter.mp kept
    exact ⟨t, member, same, Bool.not_eq_true' _ ▸ alive⟩
  · intro ⟨t, member, same, alive⟩
    exact ⟨t, List.mem_filter.mpr ⟨member, by rw [alive]; rfl⟩, same⟩

theorem any_iff_listed : (accepted.any fun t => t.featureId = feature && !t.expired now) = true ↔ feature ∈ features accepted now := by
  rw [mem_features, List.any_eq_true]
  apply exists_congr
  intro t
  apply and_congr Iff.rfl
  rw [Bool.and_eq_true, decide_eq_true_iff, Bool.not_eq_true']

theorem tierGbps_pos : 0 < tierGbps accepted now ↔ ∃ tier ∈ features accepted now, 0 < tierOf tier := by
  have run : ∀ (rest : List Token) (best : Nat),
      0 < rest.foldl (fun best t => if t.expired now then best else
        if best < tierOf t.featureId then tierOf t.featureId else best) best ↔
        0 < best ∨ ∃ t ∈ rest, t.expired now = false ∧ 0 < tierOf t.featureId := by
    intro rest
    induction rest with
    | nil => simp
    | cons t rest ih =>
      intro best
      rw [List.foldl_cons, ih]
      simp only [List.mem_cons, exists_eq_or_imp]
      cases t.expired now with
      | true => simp
      | false =>
        simp only [Bool.false_eq_true, if_false, true_and]
        split
        · constructor
          · rintro (now' | later)
            · exact .inr (.inl now')
            · exact .inr (.inr later)
          · rintro (before | now' | later)
            · exact .inl (by omega)
            · exact .inl now'
            · exact .inr later
        · constructor
          · rintro (before | later)
            · exact .inl before
            · exact .inr (.inr later)
          · rintro (before | now' | later)
            · exact .inl before
            · exact .inl (by omega)
            · exact .inr later
  rw [tierGbps, run]
  constructor
  · rintro (no | ⟨t, member, alive, tier⟩)
    · cases no
    · exact ⟨t.featureId, mem_features.mpr ⟨t, member, rfl, alive⟩, tier⟩
  · rintro ⟨tier, listed, positive⟩
    obtain ⟨t, member, rfl, alive⟩ := mem_features.mp listed
    exact .inr ⟨t, member, alive, positive⟩

theorem query_iff :
    query accepted now feature = true ↔
      feature ∈ features accepted now ∧ feature ≠ featAccel ∧
        (feature = featBase → ∃ tier ∈ features accepted now, 0 < tierOf tier) := by
  unfold query
  split
  · rename_i accel
    exact iff_of_false Bool.false_ne_true fun both => both.2.1 accel
  · rename_i other
    split
    · rename_i base
      subst base
      rw [baseOk, Bool.and_eq_true, any_iff_listed, decide_eq_true_iff, tierGbps_pos]
      exact and_congr Iff.rfl ⟨fun tier => ⟨other, fun _ => tier⟩, fun both => both.2 rfl⟩
    · rename_i plain
      rw [any_iff_listed]
      exact (and_iff_left ⟨other, fun base => absurd base plain⟩).symm

end agreement

structure Genuine {C : Curve} (host : Host C) (t : Token) : Prop where
  signer : t.signerId = List.replicate 16 0
  signed : ∃ master, loadMasterPubkey host = some master ∧ verifyEcdsaP384 master t.payload t.sig = true
  bound : t.dna ∈ host.liveDnas.map dnaFromAny

theorem verify_genuine {C : Curve} {host : Host C} {t : Token} {now : ℚ} (h : verify host t now = true) :
    Genuine host t ∧ t.expired now = false := by
  unfold verify at h
  split at h
  · cases h
  split at h
  · cases h
  split at h
  · cases h
  split at h
  · cases h
  rename_i master
  split at h
  · cases h
  split at h
  · cases h
  rename_i bound
  split at h
  · cases h
  rename_i alive
  split at h
  · cases h
  · rename_i key loaded
    refine ⟨⟨?_, ⟨key, loaded, h⟩, List.mem_of_mem_filter (Decidable.not_not.mp bound)⟩, Bool.eq_false_iff.mpr alive⟩
    exact of_decide_eq_true (Bool.not_eq_false _ ▸ master)

theorem mem_reload {C : Curve} {host : Host C} {t : Token} {now : ℚ} (h : t ∈ reload host now) :
    (∃ blob, some blob ∈ host.files ∧ parse blob = some t) ∧ Genuine host t ∧ t.expired now = false := by
  obtain ⟨file, member, accepted⟩ := List.mem_filterMap.mp h
  unfold acceptFile at accepted
  split at accepted
  · cases accepted
  split at accepted
  · cases accepted
  split at accepted
  · cases accepted
  · rename_i blob _ _ token parsed
    split at accepted
    · rename_i verified
      cases accepted
      exact ⟨⟨blob, member, parsed⟩, verify_genuine verified⟩
    · cases accepted

/-- Whatever was accepted when the files were read, at any later time a feature is granted exactly when it is listed, is not
the accelerator's, and for the base licence some tier is listed too; and a listed feature has a token in the files that has not
expired, is bound to this host and is signed by the master key. Whether a token is accepted does not depend on its flags. -/
theorem granted_iff_listed {C : Curve} (host : Host C) (scan now : ℚ) (feature : Nat) :
    (query (reload host scan) now feature = true ↔
      feature ∈ features (reload host scan) now ∧ feature ≠ featAccel ∧
        (feature = featBase → ∃ tier ∈ features (reload host scan) now, 0 < tierOf tier)) ∧
    (feature ∈ features (reload host scan) now →
      ∃ blob t, some blob ∈ host.files ∧ parse blob = some t ∧ t.featureId = feature ∧ Genuine host t ∧ t.expired scan = false ∧
        t.expired now = false) ∧
    ∀ (t : Token) (flags : Nat), verify host { t with flags := flags } scan = verify host t scan := by
  refine ⟨query_iff, fun listed => ?_, fun _ _ => rfl⟩
  obtain ⟨t, member, same, alive⟩ := mem_features.mp listed
  obtain ⟨⟨blob, there, parsed⟩, genuine, before⟩ := mem_reload member
  exact ⟨blob, t, there, parsed, same, genuine, before, alive⟩

section sample

/-- A perpetual token for one feature, bound to twelve bytes of ones. -/
def sampleToken (feature flags : Nat) : List UInt8 :=
  licMagic ++ ByteOrder.little.toBytes 4 licVersion ++ List.replicate 12 1 ++ ByteOrder.little.toBytes 4 feature ++
    List.replicate 20 0 ++
    ByteOrder.little.toBytes 4 flags ++ List.replicate 16 0 ++ ByteOrder.little.toBytes 4 sigAlgEcdsaP384 ++ List.replicate 12 0 ++
    List.replicate 96 7

/-- Every signature of sevens is taken for one of the master key. -/
def sampleCurve : Curve := ⟨Unit, fun _ => some (), fun _ _ r s => r = s⟩

def sampleHost (tokens : List (List UInt8)) : Host sampleCurve :=
  ⟨true, some (4 :: 4 :: List.replicate 142 0), [.text "01:01:01:01:01:01:01:01:01:01:01:01".toList], tokens.map some⟩

/-- A base licence without a tier and an accelerator's licence are listed and not granted; a token that is marked as revoked
is granted. -/
theorem listed_not_granted :
    features (reload (sampleHost [sampleToken featBase 0, sampleToken featAccel 0]) 0) 0 = [featBase, featAccel] ∧
      query (reload (sampleHost [sampleToken featBase 0, sampleToken featAccel 0]) 0) 0 featBase = false ∧
      query (reload (sampleHost [sampleToken featBase 0, sampleToken featAccel 0]) 0) 0 featAccel = false ∧
      query (reload (sampleHost [sampleToken 0x111 flagRevoked]) 0) 0 0x111 = true ∧
      ∀ t ∈ reload (sampleHost [sampleToken 0x111 flagRevoked]) 0, t.revoked = true := by
  decide +kernel

/-- A base licence with a tier is granted, and there is a token for it. -/
theorem base_with_tier :
    query (reload (sampleHost [sampleToken featBase 0, sampleToken 0x101 0]) 0) 0 featBase = true ∧
      ∃ blob t, some blob ∈ (sampleHost [sampleToken featBase 0, sampleToken 0x101 0]).files ∧
        parse blob = some t ∧ t.featureId = featBase ∧
        Genuine (sampleHost [sampleToken featBase 0, sampleToken 0x101 0]) t ∧ t.expired 0 = false ∧ t.expired 0 = false := by
  have claim := granted_iff_listed (sampleHost [sampleToken featBase 0, sampleToken 0x101 0]) 0 0 featBase
  have listed : features (reload (sampleHost [sampleToken featBase 0, sampleToken 0x101 0]) 0) 0 = [featBase, 0x101] := by decide +kernel
  have base : featBase ∈ features (reload (sampleHost [sampleToken featBase 0, sampleToken 0x101 0]) 0) 0 := by
    rw [listed]
    decide
  refine ⟨claim.1.mpr ⟨base, by decide, fun _ => ⟨0x101, ?_, by decide⟩⟩, claim.2.1 base⟩
  rw [listed]
  decide

end sample

end FfnNgfw.Signing.License
