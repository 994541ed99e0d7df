import FfnNgfw.Emulator.Parser

/-!
# Sets of bytes that are read

What the escapes and classes of a pattern that scans denote. The upper end of a range is not
kept below 256 by the parser, so a class is one of the grammar only if its numbers are.
-/

namespace FfnNgfw.Emulator
open Threatdb (Text pyInt hexDigit)

def Denotes (bs : List Int) (S : Set UInt8) : Prop := ∀ b : UInt8, (b.toNat : Int) ∈ bs ↔ b ∈ S

def Real (bs : List Int) : Prop := ∃ b : UInt8, (b.toNat : Int) ∈ bs

def Natural (bs : List Int) : Prop := ∀ x ∈ bs, 0 ≤ x

theorem mem_intRange {lo hi x : Int} : x ∈ intRange lo hi ↔ lo ≤ x ∧ x ≤ hi := by
  rw [intRange, List.mem_map]
  constructor
  · rintro ⟨i, inside, rfl⟩
    rw [List.mem_range] at inside
    omega
  · rintro ⟨lower, upper⟩
    refine ⟨(x - lo).toNat, List.mem_range.mpr (by omega), by omega⟩

theorem mem_allBytes (b : UInt8) : (b.toNat : Int) ∈ allBytes := by
  have small := b.toNat_lt
  rw [allBytes, mem_intRange]
  omega

theorem denotes_intRange (lo hi : UInt8) : Denotes (intRange lo.toNat hi.toNat) (between lo hi) := by
  intro b
  rw [mem_intRange, Int.ofNat_le, Int.ofNat_le, ← UInt8.le_iff_toNat_le, ← UInt8.le_iff_toNat_le]
  rfl

theorem denotes_byte (v : UInt8) : Denotes [(v.toNat : Int)] {v} := by
  intro b
  rw [List.mem_singleton, Int.ofNat_inj, UInt8.toNat_inj]
  rfl

theorem Denotes.append {bs cs : List Int} {S T : Set UInt8} (first : Denotes bs S) (second : Denotes cs T) :
    Denotes (bs ++ cs) (S ∪ T) := by
  intro b
  rw [List.mem_append, first b, second b]
  rfl

theorem mem_without {bs : List Int} (b : UInt8) : (b.toNat : Int) ∈ without bs ↔ (b.toNat : Int) ∉ bs := by
  rw [without, List.mem_filter, decide_eq_true_eq]
  exact ⟨fun both => both.2, fun outside => ⟨mem_allBytes b, outside⟩⟩

theorem Denotes.without {bs : List Int} {S : Set UInt8} (denotes : Denotes bs S) : Denotes (without bs) Sᶜ := by
  intro b
  rw [mem_without, denotes b]
  rfl

theorem natural_intRange {lo hi : Int} (lower : 0 ≤ lo) : Natural (intRange lo hi) :=
  fun _ member => Int.le_trans lower (mem_intRange.mp member).1

theorem natural_without (bs : List Int) : Natural (without bs) :=
  fun _ member => (mem_intRange.mp (List.mem_of_mem_filter member)).1

theorem natural_byte (v : UInt8) : Natural [(v.toNat : Int)] := by
  intro x member
  rw [List.mem_singleton.mp member]
  exact Int.natCast_nonneg _

theorem Natural.append {bs cs : List Int} (first : Natural bs) (second : Natural cs) : Natural (bs ++ cs) :=
  fun x member => (List.mem_append.mp member).elim (first x) (second x)

theorem natural_classes : Natural clsDigit ∧ Natural clsWord ∧ Natural clsSpace := by
  unfold Natural
  decide

theorem denotes_digit : Denotes clsDigit digitBytes := denotes_intRange 0x30 0x39

theorem denotes_word : Denotes clsWord wordBytes :=
  (((denotes_intRange 0x30 0x39).append (denotes_intRange 0x41 0x5A)).append (denotes_intRange 0x61 0x7A)).append (denotes_byte 0x5F)

theorem denotes_space : Denotes clsSpace spaceBytes := by
  have parts := (denotes_byte 0x20).append ((denotes_byte 0x09).append ((denotes_byte 0x0A).append ((denotes_byte 0x0D).append
    ((denotes_byte 0x0C).append (denotes_byte 0x0B)))))
  exact parts

variable {decimal : Char → Option Nat} {m : Mode} {first : Bool} {t t' : Text} {bs : List Int}

theorem pyInt_two {a b : Char} {x y : Nat} (hi : hexDigit a = some x) (lo : hexDigit b = some y) :
    pyInt decimal 16 [a, b] = some ((16 * x + y : Nat) : Int) := by
  have hex : ∀ c ∈ [a, b], (hexDigit c).isSome = true := by
    intro c member
    simp only [List.mem_cons, List.not_mem_nil, or_false] at member
    rcases member with rfl | rfl
    · rw [hi]
      rfl
    · rw [lo]
      rfl
  have small := Threatdb.hexDigit_bound hi
  have small' := Threatdb.hexDigit_bound lo
  have plain : b ≠ '_' := by
    rintro rfl
    cases lo
  have digit : ∀ {c : Char} {d : Nat}, hexDigit c = some d → d < 16 → Threatdb.digit decimal 16 c = some d := by
    intro c d found small
    simp [Threatdb.digit, found, small]
  have number : Threatdb.digits decimal 16 [a, b] = some (16 * x + y) := by
    rw [Threatdb.digits, digit hi small]
    show Threatdb.digitsFrom decimal 16 x [b] = _
    rw [Threatdb.digitsFrom]
    · rw [digit lo small']
      show Threatdb.digitsFrom decimal 16 (x * 16 + y) [] = _
      rw [Threatdb.digitsFrom, Nat.mul_comm]
    · intro c rest same
      exact absurd same plain
  have solid : Threatdb.strip [a, b] = [a, b] := Threatdb.strip_of_solid fun c inside => Threatdb.hexDigit_solid (hex c inside)
  unfold pyInt
  rw [solid]
  dsimp only
  split
  · rename_i same
    rw [(List.cons.inj same).1] at hi
    cases hi
  · rename_i same
    rw [(List.cons.inj same).1] at hi
    cases hi
  · rw [if_pos rfl, Threatdb.dropPrefix_hex hex, number]
    rfl

inductive Escaped : Text → List Int → Prop where
  | set {c : Char} {S : Set UInt8} {bs : List Int} : setEscape c = some S → Denotes bs S → Real bs →
      Natural bs → bs.length ≠ 1 → Escaped [c] bs
  | byte {e : Text} {v : UInt8} : ByteEscape e v → Escaped e [(v.toNat : Int)]

theorem escape_reads (parsed : escape decimal t = .ok (bs, t')) (scans : scan m ('\\' :: t) = true) :
    ∃ e, t = e ++ t' ∧ Escaped e bs ∧ scan m.next t' = true := by
  have set : ∀ {e : Char} {t : Text} {S : Set UInt8} (cs : List Int) (b b' : UInt8), setEscape e = some S → Denotes cs S → Natural cs →
      (b.toNat : Int) ∈ cs → (b'.toNat : Int) ∈ cs → (b.toNat : Int) ≠ b'.toNat →
      (Except.ok (cs, t) : Except Stop _) = .ok (bs, t') → scan m ('\\' :: e :: t) = true →
      ∃ u, e :: t = u ++ t' ∧ Escaped u bs ∧ scan m.next t' = true := by
    intro e t S cs b b' known denotes natural real real' ne same scans
    have many : cs.length ≠ 1 := by
      intro single
      obtain ⟨x, rfl⟩ := List.length_eq_one_iff.mp single
      exact ne ((List.mem_singleton.mp real).trans (List.mem_singleton.mp real').symm)
    cases same
    rw [scan_escape (setEscape_ne known).1] at scans
    exact ⟨[e], rfl, .set known denotes ⟨b, real⟩ natural many, scans⟩
  cases t with
  | nil => cases parsed
  | cons e t =>
    rw [escape.eq_def] at parsed
    dsimp only at parsed
    split_ifs at parsed with d nd w nw s ns x
    · exact set clsDigit 0x30 0x31 (by rw [d]; rfl) denotes_digit natural_classes.1 (by decide) (by decide) (by decide) parsed scans
    · exact set (without clsDigit) 0 1 (by rw [nd]; rfl) denotes_digit.without (natural_without _)
        ((mem_without 0).mpr (by decide)) ((mem_without 1).mpr (by decide)) (by decide) parsed scans
    · exact set clsWord 0x30 0x31 (by rw [w]; rfl) denotes_word natural_classes.2.1 (by decide) (by decide) (by decide) parsed scans
    · exact set (without clsWord) 0 1 (by rw [nw]; rfl) denotes_word.without (natural_without _)
        ((mem_without 0).mpr (by decide)) ((mem_without 1).mpr (by decide)) (by decide) parsed scans
    · exact set clsSpace 0x20 0x09 (by rw [s]; rfl) denotes_space natural_classes.2.2 (by decide) (by decide) (by decide) parsed scans
    · exact set (without clsSpace) 0 1 (by rw [ns]; rfl) denotes_space.without (natural_without _)
        ((mem_without 0).mpr (by decide)) ((mem_without 1).mpr (by decide)) (by decide) parsed scans
    · subst x
      split at parsed
      · rename_i a b t
        rw [scan_hex, Bool.and_eq_true, Bool.and_eq_true] at scans
        obtain ⟨x, hi⟩ := Option.isSome_iff_exists.mp scans.1.1
        obtain ⟨y, lo⟩ := Option.isSome_iff_exists.mp scans.1.2
        have small := Threatdb.hexDigit_bound hi
        have small' := Threatdb.hexDigit_bound lo
        have value : (UInt8.ofNat (16 * x + y)).toNat = 16 * x + y := Nat.mod_eq_of_lt (by omega)
        rw [pyInt_two hi lo] at parsed
        cases parsed
        refine ⟨['x', a, b], rfl, ?_, scans.2⟩
        rw [← value]
        exact .byte (.hex hi lo)
      · cases parsed
    · split at parsed
      · rename_i v known
        cases parsed
        rw [scan_escape (simpleEscape_ne known).1] at scans
        exact ⟨[e], rfl, .byte (.simple known), scans⟩
      · cases parsed

/-! ### Classes -/

/-- One member of a class in front of the text `t`. -/
inductive Item (first : Bool) (t : Text) : Text → Set UInt8 → Prop where
  | set {c : Char} {S : Set UInt8} : setEscape c = some S → Item first t ['\\', c] S
  | single {u : Text} {v : UInt8} : Endpoint first u v → rangeAhead t = false → Item first t u {v}
  | range {u v : Text} {lo hi : UInt8} : Endpoint first u lo → Endpoint false v hi → lo ≤ hi →
      Item first t (u ++ '-' :: v) (between lo hi)

theorem Item.members {u : Text} {S T : Set UInt8} (item : Item first t u S) (rest : Members false t T) :
    Members first (u ++ t) (S ∪ T) := by
  cases item with
  | set known => exact .set known rest
  | single endpoint calm => exact .single endpoint calm rest
  | range lo hi le =>
    rw [List.append_assoc]
    exact .range lo hi le rest

theorem rangeAhead_append {x : Text} (calm : rangeAhead (t ++ x) = false) : rangeAhead t = false := by
  unfold rangeAhead at *
  split
  · exact calm
  · rfl

theorem Item.shorten {u x : Text} {S : Set UInt8} (item : Item first (t ++ x) u S) : Item first t u S := by
  cases item with
  | set known => exact .set known
  | single endpoint calm => exact .single endpoint (rangeAhead_append calm)
  | range lo hi le => exact .range lo hi le

def Low (bs : List Int) : Prop := ∀ x ∈ bs, x < 256

theorem upperEnd_reads {hi : Int} (parsed : upperEnd decimal t = .ok (hi, t')) (open' : t.head? ≠ some ']')
    (scans : scan (.members false) t = true) :
    ∃ u, t = u ++ t' ∧ scan (.members false) t' = true ∧ (hi < 256 → ∃ v : UInt8, Endpoint false u v ∧ hi = v.toNat) := by
  cases t with
  | nil => cases parsed
  | cons d t =>
    rw [upperEnd] at parsed
    split at parsed
    · rename_i slash
      subst slash
      cases escaped : escape decimal t with
      | error e =>
        rw [escaped] at parsed
        cases parsed
      | ok result =>
        obtain ⟨esc, rest⟩ := result
        rw [escaped] at parsed
        obtain ⟨e, rfl, known, later⟩ := escape_reads escaped scans
        cases known with
        | set _ _ _ _ many =>
          dsimp only [Bind.bind, Except.bind] at parsed
          split at parsed
          · exact absurd rfl many
          · cases parsed
        | byte escape =>
          cases parsed
          exact ⟨'\\' :: e, rfl, later, fun _ => ⟨_, .escaped escape, rfl⟩⟩
    · rename_i plain
      cases parsed
      have other : ¬(d = ']' ∧ false = false) := fun closes => open' (by rw [closes.1]; rfl)
      rw [scan_member plain, if_neg other] at scans
      refine ⟨[d], rfl, scans, fun small => ⟨byteOf d, .plain (by omega) plain fun closes => absurd ⟨closes, rfl⟩ other, ?_⟩⟩
      rw [byteOf, UInt8.toNat_ofNat', Nat.mod_eq_of_lt (by omega)]

theorem rangeAhead_split (ahead : rangeAhead t = true) : ∃ c s, t = '-' :: c :: s ∧ c ≠ ']' := by
  unfold rangeAhead at ahead
  split at ahead
  · rename_i c s
    exact ⟨c, s, rfl, of_decide_eq_true ahead⟩
  · cases ahead

theorem classRange_reads {u : Text} {lo : UInt8} (endpoint : Endpoint first u lo) (parsed : classRange decimal lo.toNat t = .ok (bs, t'))
    (scans : scan (.members false) t = true) :
    ∃ w, t = w ++ t' ∧ scan (.members false) t' = true ∧ Real bs ∧ Natural bs ∧
      (Low bs → ∃ S, Item first t' (u ++ w) S ∧ Denotes bs S) := by
  rw [classRange] at parsed
  split at parsed
  · rename_i ahead
    obtain ⟨c, s, rfl, open'⟩ := rangeAhead_split ahead
    rw [scan_member (by decide), if_neg (by decide)] at scans
    cases upper : upperEnd decimal (c :: s) with
    | error e =>
      rw [List.tail_cons, upper] at parsed
      cases parsed
    | ok result =>
      obtain ⟨hi, rest⟩ := result
      rw [List.tail_cons, upper] at parsed
      change (if hi < (lo.toNat : Int) then .error .unsupported else pure (intRange lo.toNat hi, rest)) =
        (.ok (bs, t') : Except Stop _) at parsed
      split at parsed
      · cases parsed
      · rename_i ordered
        cases parsed
        obtain ⟨w, text, later, byte⟩ := upperEnd_reads upper (by simpa using open') scans
        refine ⟨'-' :: w, by rw [text]; rfl, later, ⟨lo, mem_intRange.mpr ⟨Int.le_refl _, Int.not_lt.mp ordered⟩⟩,
          natural_intRange (Int.natCast_nonneg _), fun low => ?_⟩
        obtain ⟨v, high, rfl⟩ := byte (low hi (mem_intRange.mpr ⟨Int.not_lt.mp ordered, Int.le_refl hi⟩))
        have le : lo ≤ v := UInt8.le_iff_toNat_le.mpr (by omega)
        exact ⟨between lo v, .range endpoint high le, denotes_intRange lo v⟩
  · rename_i calm
    cases parsed
    refine ⟨[], rfl, scans, ⟨lo, List.mem_cons_self⟩, natural_byte lo, fun _ => ⟨{lo}, ?_, denotes_byte lo⟩⟩
    rw [List.append_nil]
    exact .single endpoint (Bool.eq_false_iff.mpr calm)

theorem classItem_reads (parsed : classItem decimal t = .ok (bs, t')) (open' : ¬(t.head? = some ']' ∧ first = false))
    (scans : scan (.members first) t = true) :
    ∃ u, t = u ++ t' ∧ scan (.members false) t' = true ∧ Real bs ∧ Natural bs ∧ (Low bs → ∃ S, Item first t' u S ∧ Denotes bs S) := by
  cases t with
  | nil => cases parsed
  | cons c t =>
    rw [classItem] at parsed
    split at parsed
    · rename_i slash
      subst slash
      cases escaped : escape decimal t with
      | error e =>
        rw [escaped] at parsed
        cases parsed
      | ok result =>
        obtain ⟨esc, rest⟩ := result
        rw [escaped] at parsed
        obtain ⟨e, rfl, known, later⟩ := escape_reads escaped scans
        cases known with
        | @set c S _ known denotes real natural many =>
          dsimp only [Bind.bind, Except.bind] at parsed
          split at parsed
          · exact absurd rfl many
          · cases parsed
            exact ⟨['\\', c], rfl, later, real, natural, fun _ => ⟨S, .set known, denotes⟩⟩
        | byte escape =>
          obtain ⟨w, text, later, real, natural, item⟩ := classRange_reads (.escaped escape) parsed later
          exact ⟨'\\' :: e ++ w, by rw [text]; simp, later, real, natural, item⟩
    · rename_i plain
      split at parsed
      · cases parsed
      · rename_i small
        have other : ¬(c = ']' ∧ first = false) := fun closes => open' ⟨by rw [closes.1]; rfl, closes.2⟩
        rw [scan_member plain, if_neg other] at scans
        have value : (byteOf c).toNat = c.toNat := Nat.mod_eq_of_lt (by omega)
        have endpoint : Endpoint first [c] (byteOf c) := by
          refine .plain (by omega) plain fun closes => ?_
          by_contra later
          exact other ⟨closes, Bool.eq_false_iff.mpr later⟩
        rw [← value] at parsed
        obtain ⟨w, text, later, real, natural, item⟩ := classRange_reads endpoint parsed scans
        exact ⟨c :: w, by rw [text]; rfl, later, real, natural, item⟩

theorem classLoop_reads {n : Nat} {members ms : List Int} (parsed : classLoop decimal n first members t = .ok (ms, t'))
    (scans : scan (.members first) t = true) :
    ∃ u bs, ms = members ++ bs ∧ t = u ++ t' ∧ scan .rest t' = true ∧ (first = true → Real bs) ∧ Natural bs ∧
      (Low bs → ∃ S, Members first u S ∧ Denotes bs S) := by
  induction n generalizing first members t with
  | zero => cases parsed
  | succ n ih =>
    rw [classLoop] at parsed
    split at parsed
    · rename_i closes
      obtain ⟨closes, rfl⟩ := closes
      cases parsed
      obtain ⟨s, rfl⟩ : ∃ s, t = ']' :: s := by
        cases t with
        | nil => cases closes
        | cons c s => exact ⟨s, by rw [Option.some.inj closes]⟩
      rw [scan_member (by decide), if_pos ⟨rfl, rfl⟩] at scans
      have none' : Denotes [] ∅ := fun b => ⟨fun member => absurd member List.not_mem_nil,
          fun member => absurd member (Set.notMem_empty b)⟩
      exact ⟨[']'], [], (List.append_nil _).symm, rfl, scans, fun later => absurd later Bool.false_ne_true,
        fun x member => absurd member List.not_mem_nil, fun _ => ⟨∅, .close, none'⟩⟩
    · rename_i open'
      cases item : classItem decimal t with
      | error e =>
        rw [item] at parsed
        cases parsed
      | ok result =>
        obtain ⟨cs, rest⟩ := result
        rw [item] at parsed
        obtain ⟨u, text, later, real, natural, made⟩ := classItem_reads item open' scans
        obtain ⟨u', ds, rfl, text', done, -, natural', more⟩ := ih parsed later
        refine ⟨u ++ u', cs ++ ds, by rw [List.append_assoc], by rw [text, text', List.append_assoc], done,
          fun _ => ?_, natural.append natural', fun low => ?_⟩
        · obtain ⟨b, member⟩ := real
          exact ⟨b, List.mem_append_left _ member⟩
        · obtain ⟨S, one, denotes⟩ := made fun x member => low x (List.mem_append_left _ member)
          obtain ⟨T, others, denotes'⟩ := more fun x member => low x (List.mem_append_right _ member)
          rw [text'] at one
          exact ⟨S ∪ T, one.shorten.members others, denotes.append denotes'⟩

end FfnNgfw.Emulator
