import FfnNgfw.Compile.Alignment
import FfnNgfw.Compile.AvHash
import FfnNgfw.Lib.Bytes
import FfnNgfw.Lib.CString
import FfnNgfw.Portable.Image
import Mathlib.Data.Bool.AllAny

/-!
# The file of patterns

`write_hspat` writes a line for every pattern, and `ffn_hs_build` reads the lines back with the
string functions of C. The text is written as UTF-8, while a body that is a regular expression
was decoded as latin-1, so a body comes back as it was only when it is ASCII; a newline or a
zero in it ends the line.
-/

namespace FfnNgfw.Compile
open Threatdb (Text utf8)
open Antivirus (Unicode asciiUnicode)
open Portable (hdrBytes)
open CString (strtok strchr strrchr strtoul)

/-! ### `write_hspat` and `build` -/

def hspatHeader : Text := "# ffn_fastpath.hspat v1".toList

/-- `"%d:/%s/%s" % (pid, pcre, flags)` -/
def HspatLine.text (line : HspatLine) : Text := Nat.toDigits 10 line.id ++ (':' :: '/' :: (line.pcre ++ '/' :: line.flags))

def Compiler.writeHspat (c : Compiler) : Text := List.intercalate ['\n'] (hspatHeader :: c.hspat.map HspatLine.text) ++ ['\n']

/-- A number in a field of `size` bytes; one that does not fit raises. -/
def packInt (size : Nat) (v : Int) : Option (List UInt8) :=
  if 0 ≤ v ∧ v < 256 ^ size then some (ByteOrder.little.toBytes size v.toNat) else none

def patmetaSize : Nat := 30

/-- `PATMETA_FMT`: the widths and the values of the fields. -/
def PatMeta.fields (m : PatMeta) : List (Nat × Int) :=
  [(4, m.patId), (4, m.hsFlags), (4, m.minOffset), (4, m.maxOffset), (2, m.minLength), (1, m.action), (1, m.severity),
    (1, m.origin.code), (1, m.hostConfirm.toNat), (2, m.comboGroup), (2, m.nameIdx), (2, m.verdict), (2, m.srcSid)]

def PatMeta.pack (m : PatMeta) : Option (List UInt8) := (m.fields.mapM fun field => packInt field.1 field.2).map List.flatten

def fpMagicPatmeta : List UInt8 := [0x46, 0x50, 0x50, 0x4D]

def packPatmeta (now : UInt64) (crc32 : List UInt8 → UInt32) (patmeta : List PatMeta) : Option (List UInt8) := do
  let records ← patmeta.mapM PatMeta.pack
  guard (patmeta.length < 2 ^ 32)
  let n := UInt32.ofNat patmeta.length
  return hdrBytes fpMagicPatmeta 0x41 n now (crc32 records.flatten) 30 n ++ records.flatten

/-- The two files that `ffn_hs_build` reads. -/
structure Artifacts where
  hspat : List UInt8
  patmeta : List UInt8

def Compiler.build (now : UInt64) (crc32 : List UInt8 → UInt32) (c : Compiler) : Option Artifacts :=
  (packPatmeta now crc32 c.patmeta).map fun patmeta => ⟨utf8 c.writeHspat, patmeta⟩

def parseLine (line : List UInt8) : Option (Nat × List UInt8) :=
  if line.head? = some 35 then none
  else do
    let colon ← strchr 58 line
    let first ← strchr 47 colon
    let last ← strrchr 47 colon
    if last.length = first.length then none
    else some (strtoul line % 2 ^ 32, first.tail.take (first.length - last.length - 1))

def storeBody (pmCount : Nat) (bodies : Nat → Option (List UInt8)) (entry : Nat × List UInt8) : Nat → Option (List UInt8) :=
  if entry.1 < pmCount then Function.update bodies entry.1 (some entry.2) else bodies

def hspatEntries (hspat : List UInt8) : List (Nat × List UInt8) := (strtok 10 (hspat ++ [0])).filterMap parseLine

/-- `bodies`, unless the records are of another format. -/
def hsBodies (files : Artifacts) : Option (Nat → Option (List UInt8)) :=
  if slice files.patmeta 0 4 ≠ fpMagicPatmeta then none
  else if ByteOrder.little.fromBytes (slice files.patmeta 24 4) ≠ patmetaSize then none
  else
    let pmCount := ByteOrder.little.fromBytes (slice files.patmeta 8 4)
    some ((hspatEntries files.hspat).foldl (storeBody pmCount) fun _ => none)

local instance (priority := 2000) eachChar (p : Char → Prop) [DecidablePred p] (s : Text) : Decidable (∀ c ∈ s, p c) :=
  List.decidableBAll p s

/-- The text in latin-1, as bodies that are regular expressions were decoded. -/
def latin1Bytes (pcre : Text) : Option (List UInt8) :=
  if ∀ c ∈ pcre, c.toNat < 256 then some (pcre.map fun c => UInt8.ofNat c.toNat) else none

def RoundTrips (hspat : List HspatLine) (bodies : Nat → Option (List UInt8)) : Prop :=
  ∀ line ∈ hspat, ∃ body, bodies line.id = some body ∧ latin1Bytes line.pcre = some body

def Plain (pcre : Text) : Prop := ∀ c ∈ pcre, 0 < c.toNat ∧ c.toNat < 128 ∧ c ≠ '\n'

theorem latin1_toNat (b : UInt8) : (Char.ofNat b.toNat).toNat = b.toNat := by
  have small := b.toNat_lt
  have valid : b.toNat.isValidChar := .inl (by omega)
  rw [Char.ofNat, dif_pos valid]
  rfl

theorem latin1Bytes_latin1 (raw : List UInt8) : latin1Bytes (latin1 raw) = some raw := by
  have small : ∀ c ∈ latin1 raw, c.toNat < 256 := by
    intro c member
    obtain ⟨b, -, rfl⟩ := List.mem_map.mp member
    rw [latin1_toNat]
    exact b.toNat_lt
  rw [latin1Bytes, if_pos small, latin1, List.map_map]
  congr 1
  rw [List.map_congr_left (g := id), List.map_id]
  intro b _
  show UInt8.ofNat (Char.ofNat b.toNat).toNat = b
  rw [latin1_toNat]
  exact UInt8.ofNat_toNat

/-! ### UTF-8 -/

theorem utf8_eq (s : Text) : utf8 s = s.flatMap String.utf8EncodeChar := by
  unfold utf8
  rw [String.toUTF8_eq_toByteArray, String.toByteArray_ofList, List.utf8Encode]
  exact List.toList_data_toByteArray

theorem utf8_append (s t : Text) : utf8 (s ++ t) = utf8 s ++ utf8 t := by rw [utf8_eq, utf8_eq, utf8_eq, List.flatMap_append]

variable {c : Char} {b : UInt8} {bodies : Nat → Option (List UInt8)}
variable {entries : List (Nat × List UInt8)} {pmCount : Nat} {body : List UInt8}

theorem encode_ascii (small : c.toNat < 128) : String.utf8EncodeChar c = [UInt8.ofNat c.toNat] := by
  unfold String.utf8EncodeChar
  rw [if_pos (show c.val.toNat ≤ 0x7f from Nat.le_of_lt_succ small)]
  rfl

theorem encode_small (member : b ∈ String.utf8EncodeChar c) (small : b.toNat < 128) : c.toNat = b.toNat := by
  by_cases ascii : c.toNat < 128
  · rw [encode_ascii ascii, List.mem_singleton] at member
    rw [member]
    exact (Nat.mod_eq_of_lt (by omega)).symm
  · exfalso
    unfold String.utf8EncodeChar at member
    rw [if_neg (show ¬c.val.toNat ≤ 0x7f from fun le => ascii (Nat.lt_succ_of_le le))] at member
    split at member
    · simp only [List.mem_cons, List.not_mem_nil, or_false] at member
      rcases member with rfl | rfl <;> simp only [UInt8.toNat_ofNat'] at small <;> omega
    · split at member
      · simp only [List.mem_cons, List.not_mem_nil, or_false] at member
        rcases member with rfl | rfl | rfl <;> simp only [UInt8.toNat_ofNat'] at small <;> omega
      · simp only [List.mem_cons, List.not_mem_nil, or_false] at member
        rcases member with rfl | rfl | rfl | rfl <;> simp only [UInt8.toNat_ofNat'] at small <;> omega

theorem encode_long (wide : 128 ≤ c.toNat) : 2 ≤ (String.utf8EncodeChar c).length := by
  unfold String.utf8EncodeChar
  rw [if_neg (show ¬c.val.toNat ≤ 0x7f from fun le => absurd wide (Nat.not_le.mpr (Nat.lt_succ_of_le le)))]
  split
  · simp
  · split <;> simp

theorem mem_utf8_small {s : Text} (member : b ∈ utf8 s) (small : b.toNat < 128) : ∃ c ∈ s, c.toNat = b.toNat := by
  rw [utf8_eq] at member
  obtain ⟨c, inside, here⟩ := List.mem_flatMap.mp member
  exact ⟨c, inside, encode_small here small⟩

theorem utf8_ascii {s : Text} (small : ∀ c ∈ s, c.toNat < 128) : utf8 s = s.map fun c => UInt8.ofNat c.toNat := by
  rw [utf8_eq]
  induction s with
  | nil => rfl
  | cons c s ih =>
    rw [List.flatMap_cons, encode_ascii (small c List.mem_cons_self), ih fun c member => small c (List.mem_cons_of_mem _ member)]
    rfl

theorem length_le_utf8 (s : Text) : s.length ≤ (utf8 s).length := by
  rw [utf8_eq]
  induction s with
  | nil => exact Nat.le_refl _
  | cons c s ih =>
    have some' := List.length_pos_iff.mpr (@String.utf8EncodeChar_ne_nil c)
    rw [List.flatMap_cons, List.length_append, List.length_cons]
    omega

theorem utf8_longer {s : Text} (member : c ∈ s) (wide : 128 ≤ c.toNat) : s.length < (utf8 s).length := by
  obtain ⟨a, b, rfl⟩ := List.append_of_mem member
  have before := length_le_utf8 a
  have after := length_le_utf8 b
  have long := encode_long wide
  rw [show a ++ c :: b = a ++ ([c] ++ b) from rfl, utf8_append, utf8_append, utf8_eq [c]]
  simp only [List.length_append, List.length_singleton, List.flatMap_singleton]
  omega

theorem latin1Bytes_eq_utf8 (s : Text) : latin1Bytes s = some (utf8 s) ↔ ∀ c ∈ s, c.toNat < 128 := by
  constructor
  · intro same c member
    by_contra wide
    have longer := utf8_longer member (Nat.not_lt.mp wide)
    unfold latin1Bytes at same
    split at same
    · rw [← Option.some.inj same, List.length_map] at longer
      exact Nat.lt_irrefl _ longer
    · cases same
  · intro small
    rw [latin1Bytes, if_pos fun c member => Nat.lt_trans (small c member) (by decide), utf8_ascii small]

/-! ### One line -/

theorem toDigits_range {n : Nat} (member : c ∈ Nat.toDigits 10 n) : 48 ≤ c.toNat ∧ c.toNat ≤ 57 := by
  have digit := Nat.isDigit_of_mem_toDigits (by decide) (by decide) member
  simp only [Char.isDigit, Bool.and_eq_true, decide_eq_true_eq, ge_iff_le, UInt32.le_iff_toNat_le] at digit
  exact digit

theorem utf8_toDigits (n : Nat) : utf8 (Nat.toDigits 10 n) = (Nat.toDigits 10 n).map fun c => UInt8.ofNat c.toNat :=
  utf8_ascii fun c member => Nat.lt_of_le_of_lt (toDigits_range member).2 (by decide)

theorem digit_byte {n : Nat} (member : b ∈ utf8 (Nat.toDigits 10 n)) : 48 ≤ b.toNat ∧ b.toNat ≤ 57 := by
  rw [utf8_toDigits] at member
  obtain ⟨c, inside, rfl⟩ := List.mem_map.mp member
  have range := toDigits_range inside
  rw [UInt8.toNat_ofNat', Nat.mod_eq_of_lt (by omega)]
  exact range

theorem foldl_digits (s : Text) (each : ∀ c ∈ s, c.toNat < 256) (n : Nat) :
    (s.map fun c => UInt8.ofNat c.toNat).foldl (fun n b => 10 * n + (b.toNat - 48)) n = Nat.ofDigitChars 10 s n := by
  induction s generalizing n with
  | nil => rfl
  | cons c s ih =>
    rw [List.map_cons, List.foldl_cons, ih fun c member => each c (List.mem_cons_of_mem _ member), Nat.ofDigitChars_cons,
      UInt8.toNat_ofNat', Nat.mod_eq_of_lt (each c List.mem_cons_self)]
    rfl

theorem strtoul_toDigits {n : Nat} (small : n < 2 ^ 32) (rest : List UInt8) : strtoul (utf8 (Nat.toDigits 10 n) ++ 58 :: rest) = n := by
  have value : (utf8 (Nat.toDigits 10 n)).foldl (fun n b => 10 * n + (b.toNat - 48)) 0 = n := by
    rw [utf8_toDigits, foldl_digits _ fun c member => Nat.lt_of_le_of_lt (toDigits_range member).2 (by decide)]
    exact Nat.ofDigitChars_ten_toDigits
  rw [CString.strtoul_digits, value]
  · rw [utf8_toDigits]
    simp [Nat.toDigits_ne_nil]
  · intro b member
    have range := digit_byte member
    simp only [CString.isdigit, Bool.and_eq_true, decide_eq_true_eq, UInt8.le_iff_toNat_le]
    exact range
  · rfl
  · rw [value]
    omega

theorem lineText_utf8 (line : HspatLine) :
    utf8 line.text = utf8 (Nat.toDigits 10 line.id) ++ 58 :: 47 :: (utf8 line.pcre ++ 47 :: utf8 line.flags) := by
  unfold HspatLine.text
  rw [utf8_append, utf8_eq (':' :: _), List.flatMap_cons, List.flatMap_cons, ← utf8_eq, utf8_append,
    utf8_eq ('/' :: _), List.flatMap_cons,
    ← utf8_eq]
  rfl

theorem parseLine_text {line : HspatLine} (small : line.id < 2 ^ 32) (letters : 47 ∉ utf8 line.flags) :
    parseLine (utf8 line.text) = some (line.id, utf8 line.pcre) := by
  have digits : ∀ b ∈ utf8 (Nat.toDigits 10 line.id), b ≠ 35 ∧ b ≠ 58 := by
    intro b member
    have range := digit_byte member
    constructor <;> rintro rfl <;> simp at range
  have start : (utf8 line.text).head? ≠ some 35 := by
    rw [lineText_utf8]
    cases front : utf8 (Nat.toDigits 10 line.id) with
    | nil => simp
    | cons b front' =>
      rw [front] at digits
      simpa using (digits b List.mem_cons_self).1
  have colon : strchr 58 (utf8 line.text) = some (58 :: 47 :: (utf8 line.pcre ++ 47 :: utf8 line.flags)) := by
    rw [lineText_utf8]
    exact CString.strchr_append fun member => (digits 58 member).2 rfl
  have first : strchr 47 (58 :: 47 :: (utf8 line.pcre ++ 47 :: utf8 line.flags)) =
      some (47 :: (utf8 line.pcre ++ 47 :: utf8 line.flags)) :=
    CString.strchr_append (a := [58]) (by decide)
  have last : strrchr 47 (58 :: 47 :: (utf8 line.pcre ++ 47 :: utf8 line.flags)) = some (47 :: utf8 line.flags) :=
    CString.strrchr_append (a := 58 :: 47 :: utf8 line.pcre) letters
  have number : strtoul (utf8 line.text) % 2 ^ 32 = line.id := by
    rw [lineText_utf8, strtoul_toDigits small]
    exact Nat.mod_eq_of_lt small
  unfold parseLine
  rw [if_neg start]
  simp only [colon, first, last, Option.bind_eq_bind, Option.bind_some, List.length_cons, List.length_append, List.tail_cons, number]
  rw [if_neg (by omega), show (utf8 line.pcre).length + ((utf8 line.flags).length + 1) + 1 - ((utf8 line.flags).length + 1) - 1 =
    (utf8 line.pcre).length by omega, List.take_left]

theorem parseLine_part {line body : List UInt8} {i : Nat} (parsed : parseLine line = some (i, body)) : ∀ b ∈ body, b ∈ line := by
  unfold parseLine at parsed
  split at parsed
  · cases parsed
  · obtain ⟨colon, atColon, rest⟩ := Option.bind_eq_some_iff.mp parsed
    obtain ⟨first, atFirst, rest⟩ := Option.bind_eq_some_iff.mp rest
    obtain ⟨last, -, rest⟩ := Option.bind_eq_some_iff.mp rest
    split at rest
    · cases rest
    · obtain ⟨-, rfl⟩ := Prod.mk.inj (Option.some.inj rest)
      intro b member
      have inFirst : b ∈ first := List.mem_of_mem_tail (List.mem_of_mem_take member)
      exact (CString.strchr_suffix atColon).subset ((CString.strchr_suffix atFirst).subset inFirst)

theorem foldl_store_other {pmCount i : Nat}
    (other : i ∉ entries.map Prod.fst) : entries.foldl (storeBody pmCount) bodies i = bodies i := by
  induction entries generalizing bodies with
  | nil => rfl
  | cons entry entries ih =>
    rw [List.map_cons, List.mem_cons, not_or] at other
    rw [List.foldl_cons, ih other.2, storeBody]
    split
    · exact Function.update_of_ne other.1 _ _
    · rfl

theorem foldl_store
    (entry : Nat × List UInt8) (distinct : (entries.map Prod.fst).Nodup) (member : entry ∈ entries) (small : entry.1 < pmCount) :
    entries.foldl (storeBody pmCount) bodies entry.1 = some entry.2 := by
  induction entries generalizing bodies with
  | nil => cases member
  | cons e entries ih =>
    rw [List.map_cons, List.nodup_cons] at distinct
    rw [List.foldl_cons]
    rcases List.mem_cons.mp member with rfl | later
    · rw [foldl_store_other distinct.1, storeBody, if_pos small, Function.update_self]
    · exact ih distinct.2 later

theorem foldl_store_back {pmCount i : Nat}
    (stored : entries.foldl (storeBody pmCount) bodies i = some body) : bodies i = some body ∨ (i, body) ∈ entries := by
  induction entries generalizing bodies with
  | nil => exact .inl stored
  | cons entry entries ih =>
    rcases ih stored with before | later
    · rw [storeBody] at before
      split at before
      · by_cases same : i = entry.1
        · rw [same, Function.update_self] at before
          right
          rw [same, ← Option.some.inj before]
          exact List.mem_cons_self
        · rw [Function.update_of_ne same] at before
          exact .inl before
      · exact .inl before
    · exact .inr (List.mem_cons_of_mem entry later)

/-! ### The file -/

def LettersKnown (c : Compiler) : Prop := ∀ line ∈ c.hspat, ∀ letter ∈ line.flags, letter ∈ ['i', 'P', 'Q', 'C', 's', 'H', 'L']

theorem patternFlags_known {flags : Text} (known : flags ∈ [[], ['i'], ['P'], ['Q'], ['C']]) (minOff maxOff : Int) :
    ∀ letter ∈ Detect.patternFlags flags minOff maxOff, letter ∈ ['i', 'P', 'Q', 'C', 's', 'H', 'L'] := by
  have start : ∀ letter ∈ flags, letter ∈ ['i', 'P', 'Q', 'C', 's', 'H', 'L'] := by
    have all : [[], ['i'], ['P'], ['Q'], ['C']].all (fun fs : Text => fs.all fun letter =>
        letter ∈ ['i', 'P', 'Q', 'C', 's', 'H', 'L']) = true := by decide +kernel
    exact fun letter inside => of_decide_eq_true (List.all_eq_true.mp (List.all_eq_true.mp all flags known) letter inside)
  -- each of the three steps adds one letter, or none
  have step : ∀ (fs : Text) (c : Char) (add : Prop) [Decidable add], c ∈ ['i', 'P', 'Q', 'C', 's', 'H', 'L'] →
      (∀ letter ∈ fs, letter ∈ ['i', 'P', 'Q', 'C', 's', 'H', 'L']) →
      ∀ letter ∈ (if add then fs ++ [c] else fs), letter ∈ ['i', 'P', 'Q', 'C', 's', 'H', 'L'] := by
    intro fs c add _ good each letter member
    split at member
    · rcases List.mem_append.mp member with member | member
      · exact each letter member
      · rw [List.mem_singleton.mp member]
        exact good
    · exact each letter member
  exact step _ _ _ (by decide) (step _ _ _ (by decide) (step _ _ _ (by decide) start))

theorem letters_kept : Kept LettersKnown True := by
  refine ⟨fun c known pcre info flags => ?_, fun c known r hashType hashValue fileSize => ?_, fun _ c known ids => known⟩
  · intro line member letter inside
    rcases List.mem_append.mp member with old | new
    · exact known line old letter inside
    · obtain rfl := List.mem_singleton.mp new
      rw [sortedLetters, List.mem_insertionSort, List.mem_dedup] at inside
      exact patternFlags_known flags _ _ letter inside
  · rw [LettersKnown, (loadHash_frame r hashType hashValue fileSize c).1]
    exact known

theorem letters_bytes {flags : Text} (known : ∀ letter ∈ flags, letter ∈ ['i', 'P', 'Q', 'C', 's', 'H', 'L'])
    (member : b ∈ utf8 flags) : b ≠ 0 ∧ b ≠ 10 ∧ b ≠ 47 := by
  have apart : ∀ c ∈ ['i', 'P', 'Q', 'C', 's', 'H', 'L'], c.toNat ≠ 0 ∧ c.toNat ≠ 10 ∧ c.toNat ≠ 47 :=
    List.all_iff_forall_prop.mp (by decide +kernel)
  refine ⟨?_, ?_, ?_⟩ <;> rintro rfl <;> obtain ⟨c, inside, same⟩ := mem_utf8_small member (by decide) <;>
    have ne := apart c (known c inside)
  · exact ne.1 same
  · exact ne.2.1 same
  · exact ne.2.2 same

def OneLine (pcre : Text) : Prop := ∀ c ∈ pcre, c.toNat ≠ 0 ∧ c ≠ '\n'

theorem lineText_bytes {line : HspatLine} (known : ∀ letter ∈ line.flags, letter ∈ ['i', 'P', 'Q', 'C', 's', 'H', 'L'])
    (whole : OneLine line.pcre) : utf8 line.text ≠ [] ∧ 0 ∉ utf8 line.text ∧ 10 ∉ utf8 line.text := by
  have digits : ∀ b ∈ utf8 (Nat.toDigits 10 line.id), b ≠ 0 ∧ b ≠ 10 := by
    intro b member
    have range := digit_byte member
    constructor <;> rintro rfl <;> simp at range
  have body : ∀ b ∈ utf8 line.pcre, b ≠ 0 ∧ b ≠ 10 := by
    intro b member
    constructor <;> rintro rfl <;> obtain ⟨c, inside, same⟩ := mem_utf8_small member (by decide)
    · exact (whole c inside).1 same
    · exact (whole c inside).2 (Char.ext (UInt32.toNat_inj.mp same))
  have all : ∀ b ∈ utf8 line.text, b ≠ 0 ∧ b ≠ 10 := by
    intro b member
    rw [lineText_utf8] at member
    simp only [List.mem_append, List.mem_cons] at member
    rcases member with member | rfl | rfl | member | rfl | member
    · exact digits b member
    · decide
    · decide
    · exact body b member
    · decide
    · exact ⟨(letters_bytes known member).1, (letters_bytes known member).2.1⟩
  refine ⟨?_, fun member => (all 0 member).1 rfl, fun member => (all 10 member).2 rfl⟩
  rw [lineText_utf8]
  simp

theorem writeHspat_lines (c : Compiler) :
    utf8 c.writeHspat = ((hspatHeader :: c.hspat.map HspatLine.text).map utf8).flatMap fun line => line ++ [10] := by
  have lines : ∀ (first : Text) (rest : List Text),
      utf8 (List.intercalate ['\n'] (first :: rest) ++ ['\n']) = ((first :: rest).map utf8).flatMap fun line => line ++ [10] := by
    intro first rest
    induction rest generalizing first with
    | nil =>
      rw [List.intercalate_singleton, utf8_append]
      simp
      rfl
    | cons second rest ih =>
      have newline : utf8 ['\n'] = [10] := by decide
      rw [List.intercalate_cons_cons, List.append_assoc, List.append_assoc, utf8_append, utf8_append, ih, newline]
      simp only [List.map_cons, List.flatMap_cons, List.append_assoc]
  exact lines hspatHeader _

theorem entries_whole {c : Compiler} (known : LettersKnown c) (whole : ∀ line ∈ c.hspat, OneLine line.pcre)
    (small : ∀ line ∈ c.hspat, line.id < 2 ^ 32) :
    hspatEntries (utf8 c.writeHspat) = c.hspat.map fun line => (line.id, utf8 line.pcre) := by
  have each : ∀ line ∈ (hspatHeader :: c.hspat.map HspatLine.text).map utf8, line ≠ [] ∧ 0 ∉ line ∧ 10 ∉ line := by
    intro line member
    rw [List.map_cons, List.mem_cons, List.map_map, List.mem_map] at member
    rcases member with rfl | ⟨held, inside, rfl⟩
    · decide
    · exact lineText_bytes (known held inside) (whole held inside)
  have header : parseLine (utf8 hspatHeader) = none := by decide
  rw [hspatEntries, writeHspat_lines, CString.strtok_lines (by decide) each, List.map_cons,
    List.filterMap_cons_none header, List.map_map,
    List.filterMap_map, ← List.filterMap_eq_map]
  apply List.filterMap_congr
  intro line member
  apply parseLine_text (small line member)
  intro slash
  exact (letters_bytes (known line member) slash).2.2 rfl

theorem entries_oneLine {hspat body : List UInt8} {i : Nat} (member : (i, body) ∈ hspatEntries hspat) : ∀ b ∈ body, b ≠ 0 ∧ b ≠ 10 := by
  obtain ⟨line, token, parsed⟩ := List.mem_filterMap.mp member
  intro b inside
  exact CString.strtok_token token b (parseLine_part parsed b inside)

theorem hsBodies_build {now : UInt64} {crc32 : List UInt8 → UInt32} {c : Compiler} {files : Artifacts}
    (built : c.build now crc32 = some files) :
    c.patmeta.length < 2 ^ 32 ∧ files.hspat = utf8 c.writeHspat ∧
      hsBodies files = some ((hspatEntries files.hspat).foldl (storeBody c.patmeta.length) fun _ => none) := by
  obtain ⟨patmeta, packed, rfl⟩ := Option.map_eq_some_iff.mp built
  obtain ⟨records, -, rest⟩ := Option.bind_eq_some_iff.mp packed
  obtain ⟨_, fits, made⟩ := Option.bind_eq_some_iff.mp rest
  have small : c.patmeta.length < 2 ^ 32 := by simpa [guard] using fits
  obtain rfl := Option.some.inj made
  refine ⟨small, rfl, ?_⟩
  have magic : ∀ rest, slice (hdrBytes fpMagicPatmeta 0x41 (UInt32.ofNat c.patmeta.length) now (crc32 records.flatten) 30
      (UInt32.ofNat c.patmeta.length) ++ rest) 0 4 = fpMagicPatmeta := fun _ => rfl
  have width : ∀ rest, slice (hdrBytes fpMagicPatmeta 0x41 (UInt32.ofNat c.patmeta.length) now (crc32 records.flatten) 30
      (UInt32.ofNat c.patmeta.length) ++ rest) 24 4 = le32 30 := fun _ => rfl
  have count : ∀ rest, slice (hdrBytes fpMagicPatmeta 0x41 (UInt32.ofNat c.patmeta.length) now (crc32 records.flatten) 30
      (UInt32.ofNat c.patmeta.length) ++ rest) 8 4 = le32 (UInt32.ofNat c.patmeta.length) := fun _ => rfl
  have value : (UInt32.ofNat c.patmeta.length).toNat = c.patmeta.length := Nat.mod_eq_of_lt small
  unfold hsBodies
  dsimp only
  rw [magic, width, count, fromBytes_le32, fromBytes_le32, value, if_neg (fun ne => ne rfl), if_neg (fun ne => ne rfl)]

theorem RoundTrips.oneLine {hspat : List HspatLine} {file : List UInt8}
    (trips : RoundTrips hspat ((hspatEntries file).foldl (storeBody pmCount) fun _ => none)) : ∀ line ∈ hspat, OneLine line.pcre := by
  intro line member
  obtain ⟨body, recovered, held⟩ := trips line member
  have clean : ∀ b ∈ body, b ≠ 0 ∧ b ≠ 10 := by
    rcases foldl_store_back recovered with none' | entry
    · cases none'
    · exact entries_oneLine entry
  unfold latin1Bytes at held
  split at held
  · obtain rfl := Option.some.inj held
    intro c inside
    have here := clean _ (List.mem_map_of_mem inside)
    refine ⟨fun zero => here.1 (by rw [zero]; rfl), ?_⟩
    rintro rfl
    exact here.2 rfl
  · cases held

theorem bodies_back_iff {c : Compiler} (dense : Dense c) (known : LettersKnown c) (small : c.patmeta.length < 2 ^ 32) :
    RoundTrips c.hspat ((hspatEntries (utf8 c.writeHspat)).foldl (storeBody c.patmeta.length) fun _ => none) ↔
      ∀ line ∈ c.hspat, Plain line.pcre := by
  have count : c.patmeta.length = c.nextId := by
    have lengths := congrArg List.length dense.records
    rwa [List.length_map, List.length_range] at lengths
  have inside : ∀ line ∈ c.hspat, line.id < c.patmeta.length := by
    intro line member
    have listed := List.mem_map_of_mem (f := HspatLine.id) member
    rw [dense.lines, List.mem_range] at listed
    rwa [count]
  have recovered : (∀ line ∈ c.hspat, OneLine line.pcre) → ∀ line ∈ c.hspat,
      (hspatEntries (utf8 c.writeHspat)).foldl (storeBody c.patmeta.length) (fun _ => none) line.id = some (utf8 line.pcre) := by
    intro whole line member
    rw [entries_whole known whole fun line member => Nat.lt_trans (inside line member) small]
    refine foldl_store (line.id, utf8 line.pcre) ?_ (List.mem_map.mpr ⟨line, member, rfl⟩) (inside line member)
    rw [List.map_map, show (Prod.fst ∘ fun line : HspatLine => (line.id, utf8 line.pcre)) = HspatLine.id from rfl, dense.lines]
    exact List.nodup_range
  constructor
  · intro trips line member
    have whole := trips.oneLine
    obtain ⟨body, got, held⟩ := trips line member
    rw [recovered whole line member] at got
    rw [← Option.some.inj got] at held
    have small' := (latin1Bytes_eq_utf8 line.pcre).mp held
    intro ch here
    exact ⟨Nat.pos_of_ne_zero (whole line member ch here).1, small' ch here, (whole line member ch here).2⟩
  · intro plain line member
    have whole : ∀ line ∈ c.hspat, OneLine line.pcre :=
      fun line member ch here => ⟨Nat.ne_of_gt (plain line member ch here).1, (plain line member ch here).2.2⟩
    exact ⟨utf8 line.pcre, recovered whole line member,
      (latin1Bytes_eq_utf8 line.pcre).mpr fun ch here => (plain line member ch here).2.1⟩

/-- Whatever was loaded, the bodies come back exactly when each of them is plain. -/
theorem hspat_roundtrip_iff (U : Unicode) (now : UInt64) (crc32 : List UInt8 → UInt32) (loads : List Load) (files : Artifacts)
    (built : (Compiler.loadAll U {} loads).build now crc32 = some files) :
    ∃ bodies, hsBodies files = some bodies ∧
      (RoundTrips (Compiler.loadAll U {} loads).hspat bodies ↔ ∀ line ∈ (Compiler.loadAll U {} loads).hspat, Plain line.pcre) := by
  have dense : Dense (Compiler.loadAll U {} loads) := dense_kept.loadAll ⟨rfl, rfl⟩ (.inl trivial)
  have known : LettersKnown (Compiler.loadAll U {} loads) := letters_kept.loadAll (c := {})
      (fun line member => by cases member) (.inl trivial)
  obtain ⟨small, file, bodies⟩ := hsBodies_build built
  refine ⟨_, bodies, ?_⟩
  rw [file]
  exact bodies_back_iff dense known small

def pcreRow (hex : Text) : Load := .content [⟨1, "r".toList, hex, true, false, 0, 0, 1, "high".toList, none, "malware".toList⟩]

theorem ascii_roundtrips : ∃ files bodies,
    (Compiler.loadAll asciiUnicode {} [pcreRow "612f62".toList]).build 0 (fun _ => 0) = some files ∧
    hsBodies files = some bodies ∧ RoundTrips (Compiler.loadAll asciiUnicode {} [pcreRow "612f62".toList]).hspat bodies := by
  obtain ⟨files, built⟩ : ∃ files,
      (Compiler.loadAll asciiUnicode {} [pcreRow "612f62".toList]).build 0 (fun _ => 0) = some files := ⟨_, rfl⟩
  obtain ⟨bodies, read, trips⟩ := hspat_roundtrip_iff asciiUnicode 0 (fun _ => 0) [pcreRow "612f62".toList] files built
  refine ⟨files, bodies, built, read, trips.mpr ?_⟩
  have lines : (Compiler.loadAll asciiUnicode {} [pcreRow "612f62".toList]).hspat = [⟨0, "a/b".toList, "Hs".toList⟩] := by decide
  rw [lines]
  intro line member
  obtain rfl := List.mem_singleton.mp member
  exact List.all_iff_forall_prop.mp (by decide +kernel)

/-- The body of one byte, 0xFF, comes back as two bytes. -/
theorem high_byte_changed : ∃ files bodies, (Compiler.loadAll asciiUnicode {} [pcreRow "ff".toList]).build 0 (fun _ => 0) = some files ∧
    hsBodies files = some bodies ∧ (Compiler.loadAll asciiUnicode {} [pcreRow "ff".toList]).hspat.map HspatLine.pcre = [latin1 [0xFF]] ∧
      latin1Bytes (latin1 [0xFF]) = some [0xFF] ∧ bodies 0 = some [0xC3, 0xBF] :=
  ⟨_, _, rfl, rfl, by decide, latin1Bytes_latin1 [0xFF], by decide⟩

end FfnNgfw.Compile
