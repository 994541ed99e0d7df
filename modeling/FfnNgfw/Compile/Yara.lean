import FfnNgfw.Compile.Alignment
import FfnNgfw.Lib.Separated
import Mathlib.Data.Bool.AllAny

/-!
# Rules of strings on the fast path

A YARA rule is lowered to a quiet pattern for each of its strings and a combination of them. A
rule that is neither `all` nor `any` has no combination, and its strings stay quiet, so that
nothing of it is ever reported or handed to the host. The combination of one string has no
operator, and is refused.
-/

namespace FfnNgfw.Compile
open Threatdb (Text)
open Detect (bytesPcre literalBytes)
open Antivirus (Unicode PyError asciiUnicode yaraBytes condMet combination)

/-! ### Hyperscan -/

/-- Which expressions are found in the data, and which combinations hold of those that are. -/
structure Scanner where
  finds : Text → List UInt8 → Bool
  holds : Text → (Nat → Bool) → Bool
  literal : ∀ bytes data, bytes ≠ [] → finds (bytesPcre bytes) data = decide (bytes <:+: data)
  conjunction : ∀ ids found, 2 ≤ ids.length → holds (combination " & ".toList ids) found = ids.all found
  disjunction : ∀ ids found, 2 ≤ ids.length → holds (combination " | ".toList ids) found = ids.any found

abbrev Emitted := List (HspatLine × PatMeta)

def emitted (before after : Compiler) : Emitted := (after.hspat.drop before.hspat.length).zip (after.patmeta.drop before.patmeta.length)

def PatMeta.quiet (m : PatMeta) : Bool := m.hsFlags &&& hsQuiet ≠ 0

def PatMeta.combined (m : PatMeta) : Bool := m.hsFlags &&& hsCombination ≠ 0

/-- Whether the expression of a combination has a logical operation. -/
def logical (expr : Text) : Bool := expr.any fun ch => ch = '&' || ch = '|' || ch = '!'

section

variable (S : Scanner)

def found (patterns : Emitted) (data : List UInt8) (i : Nat) : Bool :=
  patterns.any fun p => p.1.id = i && !p.2.combined && S.finds p.1.pcre data

/-- An expression that matches without reading anything is refused, a combination without an
operation too, and with it the database. -/
def accepted (patterns : Emitted) : Bool := patterns.all fun p => if p.2.combined then logical p.1.pcre else p.1.pcre ≠ []

/-- Some pattern comes to the callback, which reports it or leaves it to the host. -/
def fires (patterns : Emitted) (data : List UInt8) : Bool :=
  accepted patterns && patterns.any fun p =>
    !p.2.quiet && if p.2.combined then S.holds p.1.pcre (found S patterns data) else S.finds p.1.pcre data

end

/-- `sum(1 for s in strings if s and s in data)` -/
def stringHits (strings : List (List UInt8)) (data : List UInt8) : Nat := strings.countP fun s => s ≠ [] && decide (s <:+: data)

/-! ### What a rule emits -/

variable {c : Compiler} {r : AvRow} {strings : List Text} {bs : List (List UInt8)}

theorem mapM_cons_ok {v : Text} (read : (v :: strings).mapM yaraBytes = .ok bs) :
    ∃ b rest, yaraBytes v = .ok b ∧ strings.mapM yaraBytes = .ok rest ∧ bs = b :: rest := by
  rw [List.mapM_cons] at read
  cases first : yaraBytes v with
  | error e =>
    rw [first] at read
    cases read
  | ok b =>
    rw [first] at read
    cases others : strings.mapM yaraBytes with
    | error e =>
      rw [others] at read
      cases read
    | ok rest =>
      rw [others] at read
      exact ⟨b, rest, rfl, rfl, (Except.ok.inj read).symm⟩

structure Subs (c c' : Compiler) (bs : List (List UInt8)) (subs : Emitted) : Prop where
  hspat : c'.hspat = c.hspat ++ subs.map Prod.fst
  patmeta : c'.patmeta = c.patmeta ++ subs.map Prod.snd
  texts : subs.map (fun p => (p.1.id, p.1.pcre)) = (List.range' c.nextId bs.length).zip (bs.map bytesPcre)
  quiet : ∀ p ∈ subs, p.2.quiet = true ∧ p.2.combined = false
  next : c'.nextId = c.nextId + bs.length

theorem loadStrings_subs (read : strings.mapM yaraBytes = .ok bs) :
    ∃ c' subs, loadStrings r c strings = (c', List.range' c.nextId bs.length, none) ∧ Subs c c' bs subs := by
  induction strings generalizing c bs with
  | nil =>
    obtain rfl : bs = [] := (Except.ok.inj read).symm
    refine ⟨c, [], rfl, ?_, ?_, rfl, by simp, rfl⟩ <;> simp
  | cons v strings ih =>
    obtain ⟨b, rest, first, others, rfl⟩ := mapM_cons_ok read
    obtain ⟨c', subs, loaded, made⟩ :=
      ih (c := c.addPattern (bytesPcre b) { r.info .yaraSub ['Q'] with comboGroup := low16 r.sigId }) others
    obtain ⟨line, record, added⟩ : ∃ line record,
        (c.addPattern (bytesPcre b) { r.info .yaraSub ['Q'] with comboGroup := low16 r.sigId }).hspat =
        c.hspat ++ [line] ∧ (c.addPattern (bytesPcre b) { r.info .yaraSub ['Q'] with comboGroup := low16 r.sigId }).patmeta =
        c.patmeta ++ [record] ∧ line.id = c.nextId ∧ line.pcre = bytesPcre b ∧ record.hsFlags = 1026 := ⟨_, _, rfl, rfl, rfl, rfl, rfl⟩
    obtain ⟨addedLine, addedRecord, id, pcre, flags⟩ := added
    refine ⟨c', (line, record) :: subs, ?_, ?_, ?_, ?_, ?_, ?_⟩
    · rw [loadStrings, first]
      dsimp only
      rw [loaded]
      rfl
    · rw [made.hspat, addedLine, List.append_assoc]
      rfl
    · rw [made.patmeta, addedRecord, List.append_assoc]
      rfl
    · rw [List.map_cons, made.texts, id, pcre]
      rfl
    · intro p member
      rcases List.mem_cons.mp member with rfl | later
      · unfold PatMeta.quiet PatMeta.combined
        rw [flags]
        decide
      · exact made.quiet p later
    · rw [made.next, List.length_cons]
      show c.nextId + 1 + rest.length = _
      omega

theorem zip_drop {α β : Type} (a a' : List α) (b b' : List β) : ((a ++ a').drop a.length).zip ((b ++ b').drop b.length) = a'.zip b' := by
  rw [List.drop_left, List.drop_left]

theorem zip_fst_snd {α β : Type} (l : List (α × β)) : (l.map Prod.fst).zip (l.map Prod.snd) = l := by
  rw [List.zip_map', List.map_id']

section rule

variable {c' : Compiler} {subs : Emitted} {combo : HspatLine × PatMeta} (S : Scanner)

theorem Subs.mem_iff (made : Subs c c' bs subs) (i : Nat) (pcre : Text) :
    (∃ p ∈ subs, p.1.id = i ∧ p.1.pcre = pcre) ↔ ∃ k b, bs[k]? = some b ∧ i = c.nextId + k ∧ pcre = bytesPcre b := by
  have listed : (∃ p ∈ subs, p.1.id = i ∧ p.1.pcre = pcre) ↔ (i, pcre) ∈ (List.range' c.nextId bs.length).zip (bs.map bytesPcre) := by
    rw [← made.texts, List.mem_map]
    simp only [Prod.mk.injEq]
  rw [listed, List.mem_iff_getElem?]
  constructor
  · rintro ⟨k, here⟩
    obtain ⟨number, text⟩ := List.getElem?_zip_eq_some.mp here
    obtain ⟨b, string, rfl⟩ := Option.map_eq_some_iff.mp ((List.getElem?_map).symm.trans text)
    obtain ⟨inside, same⟩ := List.getElem?_eq_some_iff.mp number
    rw [List.getElem_range', Nat.one_mul] at same
    exact ⟨k, b, string, same.symm, rfl⟩
  · rintro ⟨k, b, string, rfl, rfl⟩
    refine ⟨k, List.getElem?_zip_eq_some.mpr ⟨?_, ?_⟩⟩
    · obtain ⟨inside, -⟩ := List.getElem?_eq_some_iff.mp string
      rw [List.getElem?_range' inside, Nat.one_mul]
    · rw [List.getElem?_map, string]
      rfl

theorem Subs.found (made : Subs c c' bs subs) (combined : combo.2.combined = true) (solid : ∀ b ∈ bs, b ≠ []) {k : Nat} {b : List UInt8}
    (string : bs[k]? = some b) (data : List UInt8) : found S (subs ++ [combo]) data (c.nextId + k) = decide (b <:+: data) := by
  have searched : S.finds (bytesPcre b) data = decide (b <:+: data) := S.literal b data (solid b (List.mem_of_getElem? string))
  rw [← searched, Bool.eq_iff_iff, Compile.found, List.any_eq_true]
  constructor
  · rintro ⟨p, member, hit⟩
    simp only [Bool.and_eq_true, decide_eq_true_eq, Bool.not_eq_true'] at hit
    obtain ⟨⟨same, single⟩, finds⟩ := hit
    rcases List.mem_append.mp member with inside | last
    · obtain ⟨j, b', string', number, text⟩ := (made.mem_iff p.1.id p.1.pcre).mp ⟨p, inside, rfl, rfl⟩
      obtain rfl : j = k := by omega
      rw [string'] at string
      rwa [text, Option.some.inj string] at finds
    · rw [List.mem_singleton.mp last, combined] at single
      cases single
  · intro finds
    obtain ⟨p, inside, id, pcre⟩ := (made.mem_iff (c.nextId + k) (bytesPcre b)).mpr ⟨k, b, string, rfl, rfl⟩
    refine ⟨p, List.mem_append_left _ inside, ?_⟩
    simp [id, pcre, finds, (made.quiet p inside).2]

theorem bytesPcre_nil {b : List UInt8} : bytesPcre b = [] ↔ b = [] := by
  cases b with
  | nil => exact ⟨fun _ => rfl, fun _ => rfl⟩
  | cons x b => exact ⟨fun empty => (by cases empty), fun empty => (by cases empty)⟩

theorem Subs.accepted_iff (made : Subs c c' bs subs) (combined : combo.2.combined = true) :
    accepted (subs ++ [combo]) = true ↔ (∀ b ∈ bs, b ≠ []) ∧ logical combo.1.pcre = true := by
  rw [accepted, List.all_eq_true]
  constructor
  · intro all
    constructor
    · intro b member empty
      obtain ⟨k, string⟩ := List.mem_iff_getElem?.mp member
      obtain ⟨p, inside, -, pcre⟩ := (made.mem_iff (c.nextId + k) (bytesPcre b)).mpr ⟨k, b, string, rfl, rfl⟩
      have held := all p (List.mem_append_left _ inside)
      simp [(made.quiet p inside).2, pcre, bytesPcre_nil, empty] at held
    · have held := all combo (List.mem_append_right _ List.mem_cons_self)
      rwa [combined, if_pos rfl] at held
  · rintro ⟨solid, operation⟩ p member
    rcases List.mem_append.mp member with inside | last
    · obtain ⟨k, b, string, -, text⟩ := (made.mem_iff p.1.id p.1.pcre).mp ⟨p, inside, rfl, rfl⟩
      simp [(made.quiet p inside).2, text, bytesPcre_nil, solid b (List.mem_of_getElem? string)]
    · simp [List.mem_singleton.mp last, combined, operation]

theorem Subs.fires_iff (made : Subs c c' bs subs) (combined : combo.2.combined = true) (loud : combo.2.quiet = false)
    (data : List UInt8) :
    fires S (subs ++ [combo]) data = true ↔ ((∀ b ∈ bs, b ≠ []) ∧ logical combo.1.pcre = true) ∧
      S.holds combo.1.pcre (Compile.found S (subs ++ [combo]) data) = true := by
  rw [fires, Bool.and_eq_true, made.accepted_iff combined, List.any_eq_true]
  refine and_congr_right fun _ => ⟨?_, fun holds => ⟨combo, List.mem_append_right _ List.mem_cons_self, ?_⟩⟩
  · rintro ⟨p, member, hit⟩
    rcases List.mem_append.mp member with inside | last
    · rw [(made.quiet p inside).1] at hit
      cases hit
    · rw [List.mem_singleton.mp last, combined, loud] at hit
      exact hit
  · rw [combined, loud]
    exact holds

theorem digits_of {n : Nat} {ch : Char} (member : ch ∈ Nat.toDigits 10 n) : ch.isDigit = true :=
  Nat.isDigit_of_mem_toDigits (by decide) (by decide) member

theorem logical_combination {op : Text} (sign : logical op = true) (ids : List Nat) :
    logical (combination op ids) = true ↔ 2 ≤ ids.length := by
  have number : ∀ i : Nat, logical (Nat.toDigits 10 i) = false := by
    intro i
    rw [logical, List.any_eq_false]
    intro ch member operator
    have digit := digits_of member
    simp only [Bool.or_eq_true, decide_eq_true_eq] at operator
    rcases operator with (rfl | rfl) | rfl <;> exact absurd digit (by decide)
  have brackets : ∀ inner : Text, logical (['('] ++ inner ++ [')']) = logical inner := by
    intro inner
    simp [logical]
  rw [combination, brackets]
  match ids with
  | [] => simp [logical]
  | [i] => simp [number]
  | i :: j :: ids =>
    rw [List.map_cons, List.map_cons, List.intercalate_cons_cons]
    unfold logical at sign ⊢
    simp [sign]

theorem Subs.conjunction (made : Subs c c' bs subs) (combined : combo.2.combined = true) (loud : combo.2.quiet = false)
    (expr : combo.1.pcre = combination " & ".toList (List.range' c.nextId bs.length)) (two : 2 ≤ bs.length) (solid : ∀ b ∈ bs, b ≠ [])
    (data : List UInt8) : fires S (subs ++ [combo]) data = true ↔ ∀ b ∈ bs, b <:+: data := by
  have linked : logical (combination " & ".toList (List.range' c.nextId bs.length)) = true :=
    (logical_combination (by decide) _).mpr (by simpa using two)
  rw [made.fires_iff S combined loud, expr, S.conjunction _ _ (by simpa using two), List.all_eq_true]
  constructor
  · rintro ⟨-, all⟩ b member
    obtain ⟨k, string⟩ := List.mem_iff_getElem?.mp member
    obtain ⟨inside, -⟩ := List.getElem?_eq_some_iff.mp string
    have hit := all (c.nextId + k) (List.mem_range'_1.mpr ⟨by omega, by omega⟩)
    rw [made.found S combined solid string] at hit
    exact of_decide_eq_true hit
  · intro all
    refine ⟨⟨solid, linked⟩, fun i member => ?_⟩
    obtain ⟨lower, upper⟩ := List.mem_range'_1.mp member
    obtain ⟨k, rfl⟩ := Nat.exists_eq_add_of_le lower
    have string := List.getElem?_eq_getElem (l := bs) (i := k) (by omega)
    rw [made.found S combined solid string, decide_eq_true_eq]
    exact all _ (List.getElem_mem _)

theorem Subs.single (made : Subs c c' bs subs) (combined : combo.2.combined = true) (loud : combo.2.quiet = false) {op : Text}
    (sign : logical op = true) (expr : combo.1.pcre = combination op (List.range' c.nextId bs.length)) (short : bs.length < 2)
    (data : List UInt8) : fires S (subs ++ [combo]) data = false := by
  rw [← Bool.not_eq_true, made.fires_iff S combined loud, expr, logical_combination sign, List.length_range']
  rintro ⟨⟨-, two⟩, -⟩
  omega

theorem Subs.disjunction (made : Subs c c' bs subs) (combined : combo.2.combined = true) (loud : combo.2.quiet = false)
    (expr : combo.1.pcre = combination " | ".toList (List.range' c.nextId bs.length)) (two : 2 ≤ bs.length) (solid : ∀ b ∈ bs, b ≠ [])
    (data : List UInt8) : fires S (subs ++ [combo]) data = true ↔ ∃ b ∈ bs, b <:+: data := by
  have linked : logical (combination " | ".toList (List.range' c.nextId bs.length)) = true :=
    (logical_combination (by decide) _).mpr (by simpa using two)
  rw [made.fires_iff S combined loud, expr, S.disjunction _ _ (by simpa using two), List.any_eq_true]
  constructor
  · rintro ⟨-, i, member, hit⟩
    obtain ⟨lower, upper⟩ := List.mem_range'_1.mp member
    obtain ⟨k, rfl⟩ := Nat.exists_eq_add_of_le lower
    have string := List.getElem?_eq_getElem (l := bs) (i := k) (by omega)
    rw [made.found S combined solid string, decide_eq_true_eq] at hit
    exact ⟨_, List.getElem_mem _, hit⟩
  · rintro ⟨b, member, inside⟩
    obtain ⟨k, string⟩ := List.mem_iff_getElem?.mp member
    obtain ⟨bound, -⟩ := List.getElem?_eq_some_iff.mp string
    refine ⟨⟨solid, linked⟩, c.nextId + k, List.mem_range'_1.mpr ⟨by omega, by omega⟩, ?_⟩
    rw [made.found S combined solid string]
    exact decide_eq_true inside

end rule

theorem fires_quiet (S : Scanner) {patterns : Emitted} (quiet : ∀ p ∈ patterns, p.2.quiet = true) (data : List UInt8) :
    fires S patterns data = false := by
  rw [fires, Bool.and_eq_false_iff]
  right
  rw [List.any_eq_false]
  intro p member
  simp [quiet p member]

theorem confirm_quiet {m : PatMeta} (quiet : m.quiet = true) : m.confirm.quiet = true := by
  unfold PatMeta.quiet at *
  show decide ((m.hsFlags ||| hsPrefilter) &&& hsQuiet ≠ 0) = true
  have apart : hsPrefilter &&& hsQuiet = 0 := rfl
  rw [Nat.and_or_distrib_right, apart, Nat.or_zero]
  exact quiet

theorem confirm_all_quiet (ids : List Nat) {n : Nat} {patmeta : List PatMeta} (quiet : ∀ m ∈ patmeta.drop n, m.quiet = true) :
    ∀ m ∈ (ids.foldl (fun patmeta i => patmeta.modify i PatMeta.confirm) patmeta).drop n, m.quiet = true := by
  induction ids generalizing patmeta with
  | nil => exact quiet
  | cons i ids ih =>
    rw [List.foldl_cons]
    apply ih
    intro m member
    obtain ⟨j, here⟩ := List.mem_iff_getElem?.mp member
    rw [List.getElem?_drop, List.getElem?_modify] at here
    obtain ⟨old, before, rfl⟩ := Option.map_eq_some_iff.mp here
    have held : old ∈ patmeta.drop n := List.mem_iff_getElem?.mpr ⟨j, by rw [List.getElem?_drop]; exact before⟩
    split
    · exact confirm_quiet (quiet old held)
    · exact quiet old held

/-! ### What the rule means -/

/-- `str.lower` on ASCII text. -/
def LowersAscii (U : Unicode) : Prop := ∀ s : Text, (∀ ch ∈ s, ch.toNat < 128) → U.lower s = s.map Char.toLower

theorem condMet_all {U : Unicode} (lowers : LowersAscii U) (hits total : Nat) : condMet U "all".toList hits total = true ↔
    hits = total := by
  have same : U.lower (Threatdb.strip (if "all".toList = [] then "all".toList else "all".toList)) = "all".toList :=
    lowers "all".toList (List.all_iff_forall_prop.mp (by decide +kernel))
  unfold condMet
  dsimp only
  rw [same]
  rw [if_pos rfl, decide_eq_true_eq]

theorem condMet_any {U : Unicode} (lowers : LowersAscii U) (hits total : Nat) : condMet U "any".toList hits total = true ↔ 1 ≤ hits := by
  have same : U.lower (Threatdb.strip (if "any".toList = [] then "all".toList else "any".toList)) = "any".toList :=
    lowers "any".toList (List.all_iff_forall_prop.mp (by decide +kernel))
  unfold condMet
  dsimp only
  rw [same]
  rw [if_neg (by decide), if_pos rfl, decide_eq_true_eq]

theorem condMet_mono {U : Unicode} {condition : Text} {hits more total : Nat} (le : hits ≤ more) (bound : more ≤ total)
    (met : condMet U condition hits total = true) : condMet U condition more total = true := by
  unfold condMet at *
  dsimp only at *
  generalize U.lower (Threatdb.strip (if condition = [] then "all".toList else condition)) = text at *
  split at met
  · rename_i all
    rw [if_pos all]
    rw [decide_eq_true_eq] at *
    omega
  · rename_i notAll
    rw [if_neg notAll]
    split at met
    · rename_i any
      rw [if_pos any]
      rw [decide_eq_true_eq] at *
      omega
    · rename_i notAny
      rw [if_neg notAny]
      split at met
      · obtain ⟨n, read, least⟩ := (Option.any_eq_true _ _).mp met
        refine (Option.any_eq_true _ _).mpr ⟨n, read, ?_⟩
        rw [decide_eq_true_eq] at *
        omega
      · rw [decide_eq_true_eq] at *
        omega

theorem stringHits_le (bs : List (List UInt8)) (data : List UInt8) : stringHits bs data ≤ bs.countP (· ≠ []) := by
  apply List.countP_mono_left
  intro b _ hit
  rw [Bool.and_eq_true] at hit
  exact hit.1

theorem stringHits_flatten (bs : List (List UInt8)) : stringHits bs bs.flatten = bs.countP (· ≠ []) := by
  apply List.countP_congr
  intro b member
  have inside : b <:+: bs.flatten := by
    obtain ⟨front, rest, rfl⟩ := List.append_of_mem member
    exact ⟨front.flatten, rest.flatten, by simp⟩
  simp [inside]

theorem never_iff (U : Unicode) (condition : Text) (bs : List (List UInt8)) :
    (∀ data, false = condMet U condition (stringHits bs data) bs.length) ↔
      condMet U condition (bs.countP (· ≠ [])) bs.length = false := by
  constructor
  · intro never
    rw [never bs.flatten, stringHits_flatten]
  · intro refused data
    cases met : condMet U condition (stringHits bs data) bs.length with
    | false => rfl
    | true =>
      have more := condMet_mono (stringHits_le bs data) List.countP_le_length met
      rw [refused] at more
      cases more

theorem stringHits_all {bs : List (List UInt8)} (solid : ∀ b ∈ bs, b ≠ []) (data : List UInt8) :
    stringHits bs data = bs.length ↔ ∀ b ∈ bs, b <:+: data := by
  rw [stringHits, List.countP_eq_length]
  refine forall₂_congr fun b member => ?_
  simp [solid b member]

theorem stringHits_any {bs : List (List UInt8)} (solid : ∀ b ∈ bs, b ≠ []) (data : List UInt8) :
    1 ≤ stringHits bs data ↔ ∃ b ∈ bs, b <:+: data := by
  rw [stringHits, Nat.one_le_iff_ne_zero, ← Nat.pos_iff_ne_zero, List.countP_pos_iff]
  refine exists_congr fun b => and_congr_right fun member => ?_
  simp [solid b member]

def FastYara (S : Scanner) (bs : List (List UInt8)) (condition : Text) (patterns : Emitted) : Prop :=
  (2 ≤ bs.length ∧ condition = "all".toList ∧ ∀ data, fires S patterns data = true ↔ (∀ b ∈ bs, b ≠ []) ∧ ∀ b ∈ bs, b <:+: data) ∨
  (2 ≤ bs.length ∧ condition = "any".toList ∧ ∀ data, fires S patterns data = true ↔ (∀ b ∈ bs, b ≠ []) ∧ ∃ b ∈ bs, b <:+: data) ∨
  ((bs.length < 2 ∨ condition ≠ "all".toList ∧ condition ≠ "any".toList) ∧ ∀ data, fires S patterns data = false)

theorem Subs.combine {c' : Compiler} {subs : Emitted} (made : Subs c c' bs subs) (r : AvRow) (expr : Text) :
    ∃ combo, emitted c (c'.addPattern expr { r.info .yaraCombo ['C'] with comboGroup := low16 r.sigId }) = subs ++ [combo] ∧
      combo.1.pcre = expr ∧ combo.2.combined = true ∧ combo.2.quiet = false := by
  obtain ⟨line, record, added⟩ : ∃ line record, (c'.addPattern expr { r.info .yaraCombo ['C'] with comboGroup := low16 r.sigId }).hspat =
      c'.hspat ++ [line] ∧ (c'.addPattern expr { r.info .yaraCombo ['C'] with comboGroup := low16 r.sigId }).patmeta =
      c'.patmeta ++ [record] ∧ line.pcre = expr ∧ record.hsFlags = 512 := ⟨_, _, rfl, rfl, rfl, rfl⟩
  obtain ⟨hspat, patmeta, pcre, flags⟩ := added
  refine ⟨(line, record), ?_, pcre, ?_, ?_⟩
  · rw [emitted, hspat, patmeta, made.hspat, made.patmeta, List.append_assoc, List.append_assoc, zip_drop,
      List.zip_append (by simp), zip_fst_snd]
    rfl
  · rw [PatMeta.combined, flags]
    decide
  · rw [PatMeta.quiet, flags]
    decide

theorem loadYara_fast (S : Scanner) (r : AvRow) (condition : Text) (read : strings.mapM yaraBytes = .ok bs) :
    ∃ c', loadYara r strings condition c = (c', none) ∧ FastYara S bs condition (emitted c c') := by
  obtain ⟨c₁, subs, loaded, made⟩ := loadStrings_subs (c := c) (r := r) read
  by_cases empty : bs = []
  · subst empty
    have none' : subs = [] := by simpa using made.texts
    refine ⟨c₁, ?_, .inr (.inr ⟨.inl Nat.zero_lt_two, fun data => ?_⟩)⟩
    · rw [loadYara, loaded]
      rfl
    · apply fires_quiet
      rw [emitted, made.hspat, made.patmeta, zip_drop, none']
      simp
  · have some' : ¬((none : Option PyError) ≠ none ∨ List.range' c.nextId bs.length = []) := by simpa using empty
    unfold loadYara
    rw [loaded]
    dsimp only
    rw [if_neg some']
    by_cases all : condition = "all".toList
    · obtain ⟨combo, added, expr, combined, loud⟩ := made.combine r (combination " & ".toList (List.range' c.nextId bs.length))
      rw [if_pos all]
      by_cases two : 2 ≤ bs.length
      · refine ⟨_, rfl, .inl ⟨two, all, fun data => ?_⟩⟩
        rw [added]
        constructor
        · intro fired
          have solid := ((made.fires_iff S combined loud data).mp fired).1.1
          exact ⟨solid, (made.conjunction S combined loud expr two solid data).mp fired⟩
        · rintro ⟨solid, inside⟩
          exact (made.conjunction S combined loud expr two solid data).mpr inside
      · refine ⟨_, rfl, .inr (.inr ⟨.inl (Nat.not_le.mp two), fun data => ?_⟩)⟩
        rw [added]
        exact made.single S combined loud (by decide) expr (Nat.not_le.mp two) data
    · rw [if_neg all]
      by_cases any : condition = "any".toList
      · obtain ⟨combo, added, expr, combined, loud⟩ := made.combine r (combination " | ".toList (List.range' c.nextId bs.length))
        rw [if_pos any]
        by_cases two : 2 ≤ bs.length
        · refine ⟨_, rfl, .inr (.inl ⟨two, any, fun data => ?_⟩)⟩
          rw [added]
          constructor
          · intro fired
            have solid := ((made.fires_iff S combined loud data).mp fired).1.1
            exact ⟨solid, (made.disjunction S combined loud expr two solid data).mp fired⟩
          · rintro ⟨solid, inside⟩
            exact (made.disjunction S combined loud expr two solid data).mpr inside
        · refine ⟨_, rfl, .inr (.inr ⟨.inl (Nat.not_le.mp two), fun data => ?_⟩)⟩
          rw [added]
          exact made.single S combined loud (by decide) expr (Nat.not_le.mp two) data
      · rw [if_neg any]
        refine ⟨_, rfl, .inr (.inr ⟨.inr ⟨all, any⟩, fun data => ?_⟩)⟩
        -- the strings stay quiet when the host is to confirm them
        apply fires_quiet
        intro p member
        refine confirm_all_quiet (List.range' c.nextId bs.length) ?_ p.2
          (List.of_mem_zip (a := p.1) (b := p.2) member).2
        rw [made.patmeta, List.drop_left]
        intro m inside
        obtain ⟨q, held, rfl⟩ := List.mem_map.mp inside
        exact (made.quiet q held).1

/-- Combinations without brackets inside: `&` binds stronger than `|`. -/
def readCombination (expr : Text) (found : Nat → Bool) : Bool :=
  ((expr.filter fun ch => ch.isDigit || ch = '&' || ch = '|').splitOn '|').any fun part =>
    (part.splitOn '&').all fun digits => found (Nat.ofDigitChars 10 digits 0)

theorem filter_intercalate (keep : Char → Bool) (sep : Text) (parts : List Text) :
    (List.intercalate sep parts).filter keep = List.intercalate (sep.filter keep) (parts.map (List.filter keep)) := by
  induction parts with
  | nil => rfl
  | cons part parts ih =>
    cases parts with
    | nil => rw [List.intercalate_singleton, List.map_singleton, List.intercalate_singleton]
    | cons second rest =>
      rw [List.intercalate_cons_cons, List.filter_append, List.filter_append, ih, List.map_cons, List.map_cons, List.map_cons,
        List.intercalate_cons_cons]

theorem combination_kept {op : Text} (sign : Char) (ids : List Nat)
    (left : op.filter (fun ch => ch.isDigit || ch = '&' || ch = '|') = [sign]) :
    (combination op ids).filter (fun ch => ch.isDigit || ch = '&' || ch = '|') = List.intercalate [sign]
      (ids.map (Nat.toDigits 10)) := by
  have same : (ids.map (Nat.toDigits 10)).map (List.filter fun ch => ch.isDigit || ch = '&' || ch = '|') =
      ids.map (Nat.toDigits 10) := by
    rw [List.map_map]
    apply List.map_congr_left
    intro n _
    apply List.filter_eq_self.mpr
    intro ch member
    simp [digits_of member]
  rw [combination, List.filter_append, List.filter_append, filter_intercalate, left, same]
  simp

theorem digits_clean {ids : List Nat} {sign : Char} (clean : sign.isDigit = false) : ∀ part ∈ ids.map (Nat.toDigits 10),
    sign ∉ part := by
  intro part member inside
  obtain ⟨n, -, rfl⟩ := List.mem_map.mp member
  rw [digits_of inside] at clean
  cases clean

theorem readCombination_and {ids : List Nat} (found : Nat → Bool) (some' : ids ≠ []) :
    readCombination (combination " & ".toList ids) found = ids.all found := by
  have single : '|' ∉ List.intercalate ['&'] (ids.map (Nat.toDigits 10)) := by
    intro member
    rcases mem_intercalate member with sign | ⟨part, inside, here⟩
    · cases List.mem_singleton.mp sign
    · exact digits_clean (by decide) part inside here
  rw [readCombination, combination_kept '&' ids (by decide), List.splitOn_eq_singleton single, List.any_cons,
    List.any_nil, Bool.or_false,
    List.splitOn_intercalate _ (digits_clean (by decide)) (by simpa using some'), List.all_map]
  congr 1
  funext n
  exact congrArg found Nat.ofDigitChars_ten_toDigits

theorem readCombination_or {ids : List Nat} (found : Nat → Bool) (some' : ids ≠ []) :
    readCombination (combination " | ".toList ids) found = ids.any found := by
  rw [readCombination, combination_kept '|' ids (by decide), List.splitOn_intercalate _ (digits_clean (by decide))
    (by simpa using some'),
    List.any_map]
  congr 1
  funext n
  have clean : '&' ∉ Nat.toDigits 10 n := fun member => absurd (digits_of member) (by decide)
  show ((Nat.toDigits 10 n).splitOn '&').all _ = found n
  rw [List.splitOn_eq_singleton clean, List.all_cons, List.all_nil, Bool.and_true, Nat.ofDigitChars_ten_toDigits]

def literalScanner : Scanner where
  finds pcre data := (literalBytes pcre).any fun bytes => bytes <:+: data
  holds := readCombination
  literal bytes data _ := by
    rw [Detect.literalBytes_bytesPcre]
    rfl
  conjunction ids found two := readCombination_and found (List.ne_nil_of_length_pos (by omega))
  disjunction ids found two := readCombination_or found (List.ne_nil_of_length_pos (by omega))

/-- A rule of the string `evil`. -/
def evilRow (condition : Text) : AvRow := ⟨1, "Evil".toList, "high".toList, "malware".toList, 2, .yara ["evil".toList] condition⟩

/-- Two strings and `all` -/
def pairRow : AvRow := ⟨2, "Pair".toList, "high".toList, "malware".toList, 2, .yara ["evil".toList, "hex:4d5a".toList] "all".toList⟩

end FfnNgfw.Compile
