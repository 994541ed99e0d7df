import FfnNgfw.Compile.Compiler
import Mathlib.Data.List.Perm.Basic

/-!
# Lines and records

Every pattern has a line in `hspat` and a record in `patmeta`, both under the number at
which they stand. The letters of the line and the bits of the record say the same as long
as no record is changed afterwards, which happens to the strings of a YARA rule whose
condition is neither `all` nor `any`.
-/

namespace FfnNgfw.Compile
open Threatdb (Text)
open Antivirus (Unicode PyError asciiUnicode)

/-- The numbers are dense, and record `i` is that of line `i`. -/
structure Dense (c : Compiler) : Prop where
  lines : c.hspat.map HspatLine.id = List.range c.nextId
  records : c.patmeta.map PatMeta.patId = List.range c.nextId

def LettersAgree (c : Compiler) : Prop := List.Forall₂ (fun line record => flagBits line.flags = record.hsFlags) c.hspat c.patmeta

structure Aligned (c : Compiler) : Prop where
  dense : Dense c
  letters : LettersAgree c

theorem flagBits_testBit (flags : Text) (bits j : Nat) :
    (flags.foldl (fun bits c => bits ||| flagLetter c) bits).testBit j = (bits.testBit j || flags.any fun c =>
      (flagLetter c).testBit j) := by
  induction flags generalizing bits with
  | nil => simp
  | cons c flags ih => rw [List.foldl_cons, ih, Nat.testBit_or, List.any_cons, Bool.or_assoc]

theorem flagBits_congr {a b : Text} (same : ∀ c, c ∈ a ↔ c ∈ b) : flagBits a = flagBits b := by
  apply Nat.eq_of_testBit_eq
  intro j
  rw [flagBits, flagBits, flagBits_testBit, flagBits_testBit]
  congr 1
  rw [Bool.eq_iff_iff, List.any_eq_true, List.any_eq_true]
  constructor
  · rintro ⟨c, member, set⟩
    exact ⟨c, (same c).mp member, set⟩
  · rintro ⟨c, member, set⟩
    exact ⟨c, (same c).mpr member, set⟩

theorem flagBits_sortedLetters (flags : Text) : flagBits (sortedLetters flags) = flagBits flags := by
  apply flagBits_congr
  intro c
  rw [sortedLetters, List.mem_insertionSort, List.mem_dedup]

variable {U : Unicode} {c : Compiler} {r : AvRow}

theorem intern_frame (c : Compiler) (s : Text) :
    (c.intern s).1.hspat = c.hspat ∧ (c.intern s).1.patmeta = c.patmeta ∧ (c.intern s).1.nextId = c.nextId ∧
      (c.intern s).1.avhash = c.avhash := by
  unfold Compiler.intern
  split
  · exact ⟨rfl, rfl, rfl, rfl⟩
  · split
    · exact ⟨rfl, rfl, rfl, rfl⟩
    · split <;> exact ⟨rfl, rfl, rfl, rfl⟩

theorem Dense.addPattern (dense : Dense c) (pcre : Text) (info : PatternInfo) : Dense (c.addPattern pcre info) := by
  obtain ⟨lines, records⟩ := dense
  constructor
  · show (c.hspat ++ [_]).map HspatLine.id = List.range (c.nextId + 1)
    rw [List.map_append, lines, List.range_succ]
    rfl
  · show (c.patmeta ++ [_]).map PatMeta.patId = List.range (c.nextId + 1)
    rw [List.map_append, records, List.range_succ]
    rfl

theorem LettersAgree.addPattern (letters : LettersAgree c) (pcre : Text) (info : PatternInfo) :
    LettersAgree (c.addPattern pcre info) := by
  show List.Forall₂ _ (c.hspat ++ [_]) (c.patmeta ++ [_])
  apply List.rel_append letters
  exact .cons (flagBits_sortedLetters info.letters) .nil

theorem Aligned.addPattern (aligned : Aligned c) (pcre : Text) (info : PatternInfo) : Aligned (c.addPattern pcre info) :=
  ⟨aligned.dense.addPattern pcre info, aligned.letters.addPattern pcre info⟩

/-! ### Loads -/

def PatternInfo.Known (info : PatternInfo) : Prop := info.flags ∈ [[], ['i'], ['P'], ['Q'], ['C']]

/-- What every pattern and every hash keep of the tables, and the change to the records of
a rule's strings too when `changes` holds. -/
structure Kept (P : Compiler → Prop) (changes : Prop) : Prop where
  pattern : ∀ c, P c → ∀ pcre info, info.Known → P (c.addPattern pcre info)
  hash : ∀ c, P c → ∀ r hashType hashValue fileSize, P (loadHash r hashType hashValue fileSize c)
  confirm : changes → ∀ c, P c → ∀ ids, P (c.confirm ids)

variable {P : Compiler → Prop} {changes : Prop}

theorem content_known (r : ContentRow) : r.info.Known := by
  show (if r.nocase then ['i'] else []) ∈ _
  split <;> decide

theorem Kept.content (kept : Kept P changes) (holds : P c) (rows : List ContentRow) : P (c.loadContentSignatures rows) := by
  induction rows generalizing c with
  | nil => exact holds
  | cons row rows ih =>
    refine ih ?_
    unfold Compiler.addContent
    split
    · exact holds
    · exact kept.pattern c holds _ _ (content_known row)

theorem quiet_known : ['Q'] ∈ [[], ['i'], ['P'], ['Q'], ['C']] := by decide

theorem combination_known : ['C'] ∈ [[], ['i'], ['P'], ['Q'], ['C']] := by decide

theorem Kept.strings (kept : Kept P changes) (holds : P c) (r : AvRow) (vs : List Text) : P (loadStrings r c vs).1 := by
  induction vs generalizing c with
  | nil => exact holds
  | cons v vs ih =>
    unfold loadStrings
    split
    · exact holds
    · exact ih (kept.pattern c holds _ _ quiet_known)

def AvRow.Lowered (r : AvRow) : Prop :=
  ∀ strings condition, r.content = .yara strings condition → strings = [] ∨ condition = "all".toList ∨ condition = "any".toList

theorem Kept.yara (kept : Kept P changes) (holds : P c) (r : AvRow) {strings : List Text} {condition : Text}
    (lowered : changes ∨ strings = [] ∨ condition = "all".toList ∨ condition = "any".toList) : P (loadYara r strings condition c).1 := by
  have strung := kept.strings holds r strings
  unfold loadYara
  dsimp only
  split
  · exact strung
  · split
    · exact kept.pattern _ strung _ _ combination_known
    · split
      · exact kept.pattern _ strung _ _ combination_known
      · rename_i some' notAll notAny
        rcases lowered with allowed | empty | all | any
        · exact kept.confirm allowed _ strung _
        · subst empty
          exact absurd (.inr rfl) some'
        · exact absurd all notAll
        · exact absurd any notAny

theorem Kept.row (kept : Kept P changes) (holds : P c) (lowered : changes ∨ r.Lowered) : P (loadRow U c r).1 := by
  unfold loadRow
  split
  · exact kept.hash c holds _ _ _ _
  · unfold loadPattern
    split
    · exact holds
    · rename_i confirm _
      refine kept.pattern c holds _ _ ?_
      show (if confirm then ['P'] else []) ∈ _
      split <;> decide
  · rename_i strings condition content
    exact kept.yara holds r (lowered.imp_right fun lowered => lowered strings condition content)

theorem Kept.av (kept : Kept P changes) (holds : P c) {rows : List AvRow} (lowered : changes ∨ ∀ r ∈ rows, r.Lowered) :
    P (c.loadAvSignatures U rows).1 := by
  induction rows generalizing c with
  | nil => exact holds
  | cons r rows ih =>
    have first : P (loadRow U c r).1 := kept.row holds (lowered.imp_right fun lowered => lowered r List.mem_cons_self)
    unfold Compiler.loadAvSignatures
    split
    · rename_i c' done
      rw [done] at first
      exact ih first (lowered.imp_right fun lowered r member => lowered r (List.mem_cons_of_mem _ member))
    · rename_i c' e failed
      rw [failed] at first
      exact first

def Load.Lowered : Load → Prop
  | content _ => True
  | av rows => ∀ r ∈ rows, r.Lowered

theorem Kept.load (kept : Kept P changes) (holds : P c) {load : Load} (lowered : changes ∨ load.Lowered) : P (c.load U load) := by
  cases load with
  | content rows => exact kept.content holds rows
  | av rows => exact kept.av holds lowered

theorem Kept.loadAll (kept : Kept P changes) (holds : P c) {loads : List Load} (lowered : changes ∨ ∀ load ∈ loads, load.Lowered) :
    P (c.loadAll U loads) := by
  induction loads generalizing c with
  | nil => exact holds
  | cons load loads ih =>
    refine ih (kept.load holds (lowered.imp_right fun lowered => lowered load List.mem_cons_self)) ?_
    exact lowered.imp_right fun lowered load member => lowered load (List.mem_cons_of_mem _ member)

/-! ### Alignment -/

theorem loadHash_frame (r : AvRow) (hashType hashValue : Text) (fileSize : Int) (c : Compiler) :
    (loadHash r hashType hashValue fileSize c).hspat = c.hspat ∧ (loadHash r hashType hashValue fileSize c).patmeta = c.patmeta ∧
      (loadHash r hashType hashValue fileSize c).nextId = c.nextId := by
  obtain ⟨hspat, patmeta, nextId, -⟩ := intern_frame c r.name
  unfold loadHash
  split
  · exact ⟨rfl, rfl, rfl⟩
  · split
    · exact ⟨rfl, rfl, rfl⟩
    · split
      · exact ⟨hspat, patmeta, nextId⟩
      · exact ⟨rfl, rfl, rfl⟩

theorem Dense.hash (dense : Dense c) (r : AvRow) (hashType hashValue : Text) (fileSize : Int) :
    Dense (loadHash r hashType hashValue fileSize c) := by
  obtain ⟨hspat, patmeta, nextId⟩ := loadHash_frame r hashType hashValue fileSize c
  constructor
  · rw [hspat, nextId]
    exact dense.lines
  · rw [patmeta, nextId]
    exact dense.records

theorem confirm_patIds (ids : List Nat) (patmeta : List PatMeta) :
    (ids.foldl (fun patmeta i => patmeta.modify i PatMeta.confirm) patmeta).map PatMeta.patId = patmeta.map PatMeta.patId := by
  induction ids generalizing patmeta with
  | nil => rfl
  | cons i ids ih =>
    rw [List.foldl_cons, ih]
    apply List.ext_getElem?
    intro j
    rw [List.getElem?_map, List.getElem?_map, List.getElem?_modify]
    cases patmeta[j]? with
    | none => rfl
    | some m =>
      show some (if i = j then m.confirm else m).patId = some m.patId
      split <;> rfl

theorem dense_kept : Kept Dense True := by
  refine ⟨fun c dense pcre info _ => dense.addPattern pcre info,
    fun c dense r hashType hashValue fileSize => dense.hash r hashType hashValue fileSize,
    fun _ c dense ids => ⟨dense.lines, ?_⟩⟩
  exact (confirm_patIds ids c.patmeta).trans dense.records

/-- Whatever is loaded, the ids are dense. -/
theorem loadAll_dense (U : Unicode) (loads : List Load) : Dense (Compiler.loadAll U {} loads) :=
  dense_kept.loadAll ⟨rfl, rfl⟩ (.inl trivial)

theorem aligned_kept : Kept Aligned False := by
  refine ⟨fun c aligned pcre info _ => aligned.addPattern pcre info, fun c aligned r hashType hashValue fileSize => ?_, nofun⟩
  obtain ⟨hspat, patmeta, -⟩ := loadHash_frame r hashType hashValue fileSize c
  refine ⟨aligned.dense.hash r hashType hashValue fileSize, ?_⟩
  rw [LettersAgree, hspat, patmeta]
  exact aligned.letters

theorem tables_aligned (U : Unicode) (loads : List Load) (lowered : ∀ load ∈ loads, load.Lowered) :
    ∀ n, Aligned (Compiler.loadAll U {} (loads.take n)) := by
  intro n
  have start : Aligned {} := ⟨⟨rfl, rfl⟩, List.Forall₂.nil⟩
  apply aligned_kept.loadAll start
  right
  intro load member
  exact lowered load (List.mem_of_mem_take member)

/-- A rule of one string, `evil`. -/
def evilRule (condition : Text) : Load := .av [⟨1, "Evil".toList, "high".toList, "malware".toList, 2, .yara ["evil".toList] condition⟩]

theorem evil_any_aligned :
    (∀ load ∈ [evilRule "any".toList], load.Lowered) ∧
      ∀ n, Aligned (Compiler.loadAll asciiUnicode {} ([evilRule "any".toList].take n)) := by
  have lowered : ∀ load ∈ [evilRule "any".toList], load.Lowered := by
    intro load member
    obtain rfl := List.mem_singleton.mp member
    intro r inside strings condition content
    obtain rfl := List.mem_singleton.mp inside
    cases content
    exact .inr (.inr rfl)
  exact ⟨lowered, tables_aligned asciiUnicode _ lowered⟩

/-- The record of the string says `HS_FLAG_PREFILTER`, its line does not. -/
theorem counted_rule_misaligned : ¬∀ (U : Unicode) (loads : List Load) (n : Nat), Aligned (Compiler.loadAll U {} (loads.take n)) := by
  intro all
  have letters : LettersAgree (Compiler.loadAll asciiUnicode {} [evilRule "1 of them".toList]) :=
    (all asciiUnicode [evilRule "1 of them".toList] 1).letters
  have lines : (Compiler.loadAll asciiUnicode {} [evilRule "1 of them".toList]).hspat =
      [⟨0, Detect.bytesPcre (Threatdb.utf8 "evil".toList), ['Q', 's']⟩] := by decide
  have records : ((Compiler.loadAll asciiUnicode {} [evilRule "1 of them".toList]).patmeta.map PatMeta.hsFlags) = [1154] := by decide
  rw [LettersAgree, lines] at letters
  generalize (Compiler.loadAll asciiUnicode {} [evilRule "1 of them".toList]).patmeta = patmeta at letters records
  cases letters with
  | cons same rest =>
    rw [List.map_cons, ← same] at records
    exact absurd (List.cons.inj records).1 (by decide)

end FfnNgfw.Compile
