import FfnNgfw.Threatdb.Text

/-!
# Fast-path patterns

The fast-path compiler turns signatures into expressions for Hyperscan: a text, flags, and
bounds on the offset at which a match ends. `ffn_hs_build` passes a bound on when it is
not zero.
-/

namespace FfnNgfw.Detect
open Threatdb (Text)

/-- `"\\x%02x" % b` -/
def bytePcre (b : UInt8) : Text := ['\\', 'x', Nat.digitChar (b.toNat / 16), Nat.digitChar (b.toNat % 16)]

def bytesPcre (data : List UInt8) : Text := data.flatMap bytePcre

/-- One entry of `hspat` with the fields of its `patmeta` that Hyperscan is given, and
whether a match is confirmed by the host. -/
structure Pattern where
  patId : Nat
  pcre : Text
  flags : Text
  minOffset : Int := 0
  maxOffset : Int := 0
  hostConfirm : Bool := false
  deriving DecidableEq

/-- `avhash` has the hash and the size of a file. -/
structure FastPathCompiler where
  patterns : List Pattern := []
  nextId : Nat := 0
  avhash : List (List UInt8 × Int) := []

/-- The flags that `_add_pattern` puts in. -/
def patternFlags (flags : Text) (minOff maxOff : Int) : Text :=
  let flags := if 's' ∉ flags ∧ 'C' ∉ flags then flags ++ ['s'] else flags
  let flags := if 'H' ∉ flags ∧ 'C' ∉ flags ∧ 'Q' ∉ flags then flags ++ ['H'] else flags
  if (minOff ≠ 0 ∨ maxOff ≠ 0) ∧ 'L' ∉ flags then flags ++ ['L'] else flags

def FastPathCompiler.addPattern (c : FastPathCompiler) (pcre flags : Text) (minOff maxOff : Int)
    (hostConfirm : Bool) : FastPathCompiler :=
  { c with
    patterns := c.patterns ++ [⟨c.nextId, pcre, patternFlags flags minOff maxOff, minOff, maxOff, hostConfirm⟩]
    nextId := c.nextId + 1 }

/-- What `hs_compile_ext_multi` is given for one pattern. -/
structure Expression where
  pcre : Text
  flags : Text
  minOffset : Option Int
  maxOffset : Option Int

def Pattern.expression (p : Pattern) : Expression where
  pcre := p.pcre
  flags := p.flags
  minOffset := if p.minOffset ≠ 0 then some p.minOffset else none
  maxOffset := if p.maxOffset ≠ 0 then some p.maxOffset else none

structure Hyperscan where
  reports : Expression → List UInt8 → Nat → Prop

theorem digitChar_hex : ∀ n < 16, Threatdb.hexDigit (Nat.digitChar n) = some n := by decide

/-- The bytes of a text of `\xNN`. -/
def literalBytes : Text → Option (List UInt8)
  | [] => some []
  | '\\' :: 'x' :: hi :: lo :: rest => do
    let hi ← Threatdb.hexDigit hi
    let lo ← Threatdb.hexDigit lo
    let bytes ← literalBytes rest
    return UInt8.ofNat (16 * hi + lo) :: bytes
  | _ => none

theorem literalBytes_bytesPcre (data : List UInt8) : literalBytes (bytesPcre data) = some data := by
  induction data with
  | nil => rfl
  | cons b data ih =>
    have small := b.toNat_lt
    have value : UInt8.ofNat (16 * (b.toNat / 16) + b.toNat % 16) = b := by
      rw [Nat.div_add_mod, UInt8.ofNat_toNat]
    rw [bytesPcre, List.flatMap_cons, ← bytesPcre, bytePcre]
    simp only [List.cons_append, List.nil_append, literalBytes, digitChar_hex _ (show b.toNat / 16 < 16 by omega),
      digitChar_hex _ (Nat.mod_lt _ (show 16 > 0 by decide)), ih, value, Option.bind_eq_bind, Option.bind_some, Option.pure_def]

end FfnNgfw.Detect
