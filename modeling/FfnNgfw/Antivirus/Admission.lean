import FfnNgfw.Antivirus.Engine
import FfnNgfw.Antivirus.Grammar

/-!
# Admitted signatures and the engines

Admission looks at the text of a body signature lightly and at YARA strings and offsets
not at all. `admitted_signatures_safe_iff` says for which databases both engines compile
without raising and every body signature gets a matcher.
-/

namespace FfnNgfw.Antivirus
open Threatdb (Text hexDigit pyInt strip strip_strip digit digits digitsFrom hexDigit_lt)
open Detect (FastPathCompiler)
open Policy (isSpace)
open SignatureDB (isdigit)

variable {U : Unicode} {s : Text}

/-! ### The anchor -/

def Closed (s : Text) : Prop := ∀ c rest, c :: rest <:+ s → ∀ close, closing c = some close → close ∈ rest

theorem Closed.suffix {t : Text} (closed : Closed s) (ends : t <:+ s) : Closed t :=
  fun c rest within => closed c rest (within.trans ends)

theorem anchorLoop_ok (closed : Closed s) (fuel : Nat) (best cur : List UInt8) : ∃ r, anchorLoop fuel s best cur = .ok r := by
  induction fuel generalizing s best cur with
  | zero => exact ⟨_, rfl⟩
  | succ fuel ih =>
    cases s with
    | nil => exact ⟨_, rfl⟩
    | cons c s =>
      have tail : s <:+ c :: s := List.suffix_cons c s
      rw [anchorLoop]
      split
      · exact ih (closed.suffix ((List.tail_suffix s).trans tail)) _ _
      · split
        · exact ih (closed.suffix tail) _ _
        · rename_i close opens
          have there := closed c s (List.suffix_refl _) close opens
          have cuts : cut close s = .ok (partition close s) := by rw [cut, if_pos there]
          obtain ⟨whole, -⟩ := cut_ok cuts
          have rest : (partition close s).2 <:+ s := by
            conv_rhs => rw [whole]
            exact (List.suffix_cons close _).trans (List.suffix_append _ _)
          rw [cuts]
          exact ih (closed.suffix (rest.trans tail)) _ _

theorem Token.closed {t : Token} (lexical : t.Lexical) : Closed t.text := by
  have plain : ∀ s : Text, (∀ c ∈ s, closing c = none) → Closed s := by
    intro s none' c rest ends close opens
    rw [none' c (ends.subset List.mem_cons_self)] at opens
    cases opens
  -- only the first character of a gap or of an alternation opens
  have opened : ∀ (o close : Char) (s : Text), closing o = some close → (∀ c ∈ s, closing c = none) → closing close = none →
      Closed (o :: (s ++ [close])) := by
    intro o close s opens none' last c rest ends close' opens'
    rcases List.suffix_cons_iff.mp ends with same | later
    · obtain ⟨rfl, rfl⟩ := List.cons.inj same
      rw [opens] at opens'
      simp [Option.some.inj opens']
    · refine plain (s ++ [close]) ?_ c rest later close' opens'
      intro c' inside
      rcases List.mem_append.mp inside with inside | inside
      · exact none' c' inside
      · rwa [List.mem_singleton.mp inside]
  have closes : ∀ c : Char, c ≠ '{' → c ≠ '(' → c ≠ '[' → closing c = none := by
    intro c brace paren bracket
    rw [closing, if_neg brace, if_neg paren, if_neg bracket]
  cases t with
  | pair hi lo =>
    refine plain _ fun c inside => ?_
    obtain ⟨-, brace, paren, bracket⟩ : c ≠ '*' ∧ c ≠ '{' ∧ c ≠ '(' ∧ c ≠ '[' := by
      rcases List.mem_cons.mp inside with rfl | inside
      · exact nibble_ne lexical.1
      · rw [List.mem_singleton.mp inside]
        exact nibble_ne lexical.2
    exact closes c brace paren bracket
  | star => exact plain _ fun c inside => by rw [List.mem_singleton.mp inside]; rfl
  | gap spec =>
    refine opened '{' '}' spec rfl (fun c inside => closes c ?_ ?_ ?_) rfl
    all_goals
      rintro rfl
      exact GapForm.notMem lexical rfl (by decide) inside
  | alternation body =>
    refine opened '(' ')' body rfl (fun c inside => closes c ?_ ?_ ?_) rfl
    all_goals
      rintro rfl
      exact absurd (lexical.2 _ inside) (by decide)

theorem Closed.append {t : Text} (first : Closed s) (second : Closed t) : Closed (s ++ t) := by
  induction s with
  | nil => exact second
  | cons x s ih =>
    intro c rest ends close opens
    rcases List.suffix_cons_iff.mp ends with same | later
    · obtain ⟨rfl, rfl⟩ := List.cons.inj same
      exact List.mem_append_left _ (first c s (List.suffix_refl _) close opens)
    · exact ih (first.suffix (List.suffix_cons x s)) c rest later close opens

theorem closed_render {ts : List Token} (lexical : ∀ t ∈ ts, t.Lexical) : Closed (render ts) := by
  induction ts with
  | nil =>
    intro c rest ends
    exact absurd (List.suffix_nil.mp ends) (by simp)
  | cons t ts ih =>
    rw [render, List.flatMap_cons, ← render]
    exact (Token.closed (lexical t List.mem_cons_self)).append (ih fun t' member => lexical t' (List.mem_cons_of_mem _ member))

theorem literalAnchor_ok {ts : List Token} (lexical : ∀ t ∈ ts, t.Lexical) (squeezed : ' ' ∉ render ts) :
    ∃ anchor, literalAnchor (render ts) = .ok anchor := by
  obtain ⟨best, found⟩ := anchorLoop_ok (closed_render lexical) (render ts).length [] []
  refine ⟨if 4 ≤ best.length then some best else none, ?_⟩
  rw [literalAnchor, squeeze_of squeezed, found]
  rfl

/-- A sequence of tokens that both compilers take: pairs of hex digits and wildcards,
stars, gaps with bounds in order and below 2^32 - 1, and alternations of whole bytes
without wildcards. -/
def WellFormed (hexsig : Text) : Prop :=
  ∃ ts : List Token, hexsig = render ts ∧ ∀ t ∈ ts, t.Lexical ∧ t.Bounded ∧ t.WholeBytes

theorem compileBody_some_iff {sigId : Nat} {b : BodySig} :
    (∃ out, compileBody U sigId b = .ok (some out)) ↔
      ∃ ts : List Token, b.hexPattern = render ts ∧ ∀ t ∈ ts, t.Lexical ∧ t.Bounded := by
  constructor
  · rintro ⟨out, found⟩
    obtain ⟨rx, compiled, found⟩ := bind_ok found
    cases rx with
    | none => cases found
    | some fs =>
      obtain ⟨ts, good, text, -⟩ := hexsigFragments_tokens b.admitted b.squeezed (compileHexsig_some.mp compiled)
      exact ⟨ts, text, good⟩
  · rintro ⟨ts, text, good⟩
    have squeezed := b.squeezed
    rw [text] at squeezed
    obtain ⟨fs, fragments⟩ := hexsigFragments_render U good squeezed
    obtain ⟨anchor, anchored⟩ := literalAnchor_ok (fun t member => (good t member).1) squeezed
    refine ⟨(⟨sigId, fs, b.offset, b.target⟩, anchor), ?_⟩
    unfold compileBody
    rw [text, compileHexsig_some.mpr fragments, anchored]
    rfl

theorem body_wellFormed_iff {sigId : Nat} {b : BodySig} :
    ((∃ out, compileBody U sigId b = .ok (some out)) ∧ ∃ x, hexsigToPcre U b.hexPattern = .ok x) ↔ WellFormed b.hexPattern := by
  rw [compileBody_some_iff]
  have squeezed := b.squeezed
  constructor
  · rintro ⟨⟨ts, text, good⟩, written⟩
    rw [hexsigToPcre, squeeze_of squeezed, text, pcreTokens_render U (fun t member => (good t member).1) (Nat.le_refl _)] at written
    exact ⟨ts, text, fun t member => ⟨(good t member).1, (good t member).2, written t member⟩⟩
  · rintro ⟨ts, text, good⟩
    refine ⟨⟨ts, text, fun t member => ⟨(good t member).1, (good t member).2.1⟩⟩, ?_⟩
    rw [hexsigToPcre, squeeze_of squeezed, text, pcreTokens_render U (fun t member => (good t member).1) (Nat.le_refl _)]
    exact fun t member => (good t member).2.2

/-! ### Offsets -/

/-- An offset that looks like a number is one: at most one minus sign, and digits that are
decimal (`²` is a digit, but no decimal one). -/
def OffsetSound (U : Unicode) (offset : Text) : Prop :=
  let text := strip (if offset = [] then ['*'] else offset)
  isdigit U (lstripDash text) = true →
    text.count '-' ≤ 1 ∧ ∀ c ∈ lstripDash text, c.isDigit = true ∨ (U.decimal c).isSome = true

def Unicode.isdigitChar (U : Unicode) (c : Char) : Bool := if c.toNat < 128 then c.isDigit else U.isdigit c

variable {c : Char}

theorem Unicode.notShown (U : Unicode) (small : c.toNat < 128) (other : c.isDigit = false) : ¬U.isdigitChar c = true := by
  rw [Unicode.isdigitChar, if_pos small, other]
  exact Bool.false_ne_true

theorem isdigit_iff : isdigit U s = true ↔ s ≠ [] ∧ ∀ c ∈ s, U.isdigitChar c = true := by
  simp [isdigit, Unicode.isdigitChar]

theorem digit_isSome_iff (shown : U.isdigitChar c = true) :
    (digit U.decimal 10 c).isSome = true ↔ c.isDigit = true ∨ (U.decimal c).isSome = true := by
  by_cases isDigit : c.isDigit = true
  · obtain ⟨d, found, small⟩ := isDigit_hexDigit isDigit
    simp [digit, found, small, isDigit]
  · have large : ¬c.toNat < 128 := by
      intro small
      rw [Unicode.isdigitChar, if_pos small] at shown
      exact isDigit shown
    have none' : hexDigit c = none := by
      by_contra found
      exact large (hexDigit_lt (Option.isSome_iff_ne_none.mpr found))
    rw [or_iff_right isDigit]
    cases value : U.decimal c with
    | none => simp [digit, none', value]
    | some d => simp [digit, none', value, U.single c d value]

theorem digitsFrom_isSome_iff (shown : ∀ c ∈ s, U.isdigitChar c = true) (acc : Nat) :
    (digitsFrom U.decimal 10 acc s).isSome = true ↔ ∀ c ∈ s, c.isDigit = true ∨ (U.decimal c).isSome = true := by
  induction s generalizing acc with
  | nil => exact iff_of_true rfl (List.forall_mem_nil _)
  | cons c s ih =>
    have plain : c ≠ '_' := by
      rintro rfl
      exact U.notShown (by decide) (by decide) (shown '_' List.mem_cons_self)
    have here := digit_isSome_iff (shown c List.mem_cons_self)
    rw [digitsFrom, List.forall_mem_cons, ← here]
    · cases value : digit U.decimal 10 c with
      | none => simp
      | some d =>
        refine Iff.trans (ih (fun x inside => shown x (List.mem_cons_of_mem _ inside)) _) ?_
        simp
    · intro x rest same
      exact absurd same plain

theorem digits_isSome_iff (shown : isdigit U s = true) :
    (digits U.decimal 10 s).isSome = true ↔ ∀ c ∈ s, c.isDigit = true ∨ (U.decimal c).isSome = true := by
  obtain ⟨nonempty, shown⟩ := isdigit_iff.mp shown
  cases s with
  | nil => exact absurd rfl nonempty
  | cons c s =>
    have here := digit_isSome_iff (shown c List.mem_cons_self)
    rw [digits, List.forall_mem_cons, ← here]
    cases value : digit U.decimal 10 c with
    | none => simp
    | some d =>
      refine Iff.trans (digitsFrom_isSome_iff (fun x inside => shown x (List.mem_cons_of_mem _ inside)) d) ?_
      simp

theorem Unicode.int_ok_iff {base : Nat} : (∃ n, U.int base s = .ok n) ↔ (pyInt U.decimal base s).isSome = true := by
  unfold Unicode.int
  cases pyInt U.decimal base s with
  | none => simp
  | some n => simp

theorem pyInt_dashes_iff (stripped : strip s = s) (shown : isdigit U (lstripDash s) = true) :
    (pyInt U.decimal 10 s).isSome = true ↔
      s.count '-' ≤ 1 ∧ ∀ c ∈ lstripDash s, c.isDigit = true ∨ (U.decimal c).isSome = true := by
  have noDash : ∀ t, isdigit U t = true → t.count '-' = 0 := by
    intro t shown
    rw [List.count_eq_zero]
    intro inside
    exact U.notShown (by decide) (by decide) ((isdigit_iff.mp shown).2 '-' inside)
  unfold pyInt
  dsimp only
  rw [stripped]
  simp only [Nat.reduceEqDiff, if_false]
  split
  · rename_i rest
    have dropped : lstripDash ('-' :: rest) = lstripDash rest := rfl
    rw [dropped] at shown ⊢
    rw [Option.isSome_map, List.count_cons_self]
    cases rest with
    | nil => exact absurd (show false = true from shown) Bool.false_ne_true
    | cons c rest =>
      by_cases dash : c = '-'
      · subst dash
        refine iff_of_false ?_ ?_
        · have none' : digits U.decimal 10 ('-' :: rest) = none := by
            have bad : digit U.decimal 10 '-' = none := by simp [digit, hexDigit, U.outside '-' (by decide)]
            rw [digits, bad]
            rfl
          rw [none']
          simp
        · rw [List.count_cons_self]
          omega
      · have same : lstripDash (c :: rest) = c :: rest := by simp [lstripDash, dash]
        rw [same] at shown ⊢
        rw [digits_isSome_iff shown, noDash _ shown]
        simp
  · rename_i rest
    exact absurd ((isdigit_iff.mp shown).2 '+' List.mem_cons_self) (U.notShown (by decide) (by decide))
  · rename_i noMinus noPlus
    have same : lstripDash s = s := by
      cases s with
      | nil => rfl
      | cons c rest =>
        have dash : c ≠ '-' := fun same => noMinus rest (by rw [same])
        simp [lstripDash, dash]
    rw [same] at shown ⊢
    rw [Option.isSome_map, digits_isSome_iff shown, noDash _ shown]
    simp

theorem isdigit_lstripDash_head (dash : c ≠ '-') (shown : isdigit U (lstripDash (c :: s)) = true) : U.isdigitChar c = true := by
  have same : lstripDash (c :: s) = c :: s := by simp [lstripDash, dash]
  rw [same] at shown
  exact (isdigit_iff.mp shown).2 c List.mem_cons_self

theorem clamavOffsetExt_ok_iff (offset : Text) (patlen : Nat) :
    (∃ x, clamavOffsetExt U offset patlen = .ok x) ↔ OffsetSound U offset := by
  unfold clamavOffsetExt OffsetSound
  dsimp only
  generalize textEq : strip (if offset = [] then ['*'] else offset) = text
  have stripped : strip text = text := by rw [← textEq, strip_strip]
  by_cases shown : isdigit U (lstripDash text) = true
  · have noStar : ¬(text = ['*'] ∨ text = []) := by
      rintro (rfl | rfl)
      · exact absurd (show false = true from shown) Bool.false_ne_true
      · exact absurd (show false = true from shown) Bool.false_ne_true
    have noPrefix : ∀ (c : Char) (front : Text), c ≠ '-' → U.isdigitChar c = false → ¬(c :: front) <+: text := by
      rintro c front dash hidden ⟨rest, rfl⟩
      rw [List.cons_append] at shown
      rw [isdigit_lstripDash_head dash shown] at hidden
      cases hidden
    rw [if_neg noStar, if_neg, if_neg, if_pos shown]
    · rw [← pyInt_dashes_iff stripped shown, ← Unicode.int_ok_iff]
      constructor
      · rintro ⟨x, found⟩ -
        obtain ⟨n, number, -⟩ := bind_ok found
        exact ⟨n, number⟩
      · intro sound
        obtain ⟨n, number⟩ := sound shown
        exact ⟨_, by rw [number]; rfl⟩
    · exact noPrefix 'E' ['O', 'F', '-'] (by decide) rfl
    · rintro (entry | section')
      · exact noPrefix 'E' ['P'] (by decide) rfl entry
      · exact noPrefix 'S' [] (by decide) rfl section'
  · refine iff_of_true ?_ fun shown' => absurd shown' shown
    rw [if_neg shown]
    repeat' split
    all_goals exact ⟨_, rfl⟩

def HexPairs (s : Text) : Prop := ∀ part ∈ s.splitOnP isBlank, part.length % 2 = 0 ∧ ∀ c ∈ part, isHex c = true

def YaraSound (v : Text) : Prop := "hex:".toList <+: v → HexPairs (v.drop 4)

theorem hexPairs_blank (blank : isBlank c = true) : HexPairs (c :: s) ↔ HexPairs s := by
  unfold HexPairs
  rw [List.splitOnP_cons_eq_if_modifyHead, if_pos blank, List.forall_mem_cons]
  simp

theorem hexPairs_pair {c d : Char} (solidC : isBlank c = false) (solidD : isBlank d = false) :
    HexPairs (c :: d :: s) ↔ isHex c = true ∧ isHex d = true ∧ HexPairs s := by
  unfold HexPairs
  rw [List.splitOnP_cons_eq_if_modifyHead, if_neg (by simp [solidC]), List.splitOnP_cons_eq_if_modifyHead, if_neg (by simp [solidD])]
  cases parts : s.splitOnP isBlank with
  | nil => exact absurd parts (List.splitOnP_ne_nil _ _)
  | cons first rest =>
    rw [List.modifyHead_cons, List.modifyHead_cons, List.forall_mem_cons, List.forall_mem_cons]
    simp only [List.length_cons, List.forall_mem_cons]
    have parity : (first.length + 1 + 1) % 2 = 0 ↔ first.length % 2 = 0 := by omega
    rw [parity]
    tauto

theorem hexPairs_odd {c d : Char} (solidC : isBlank c = false) (blankD : isBlank d = true) : ¬HexPairs (c :: d :: s) := by
  intro pairs
  unfold HexPairs at pairs
  rw [List.splitOnP_cons_eq_if_modifyHead, if_neg (by simp [solidC]), List.splitOnP_cons_eq_if_modifyHead, if_pos blankD,
    List.modifyHead_cons, List.forall_mem_cons] at pairs
  exact absurd pairs.1.1 (by simp)

theorem isHex_solid (hex : isHex c = true) : isBlank c = false := by
  have ascii : ∀ n < 128, isHex (Char.ofNat n) = true → isBlank (Char.ofNat n) = false := by decide +kernel
  have here := ascii c.toNat (hexDigit_lt hex)
  rw [Char.ofNat_toNat] at here
  exact here hex

theorem bytesFromhex_isSome_iff : (bytesFromhex s).isSome = true ↔ HexPairs s := by
  fun_induction bytesFromhex s with
  | case1 => simp [HexPairs]
  | case2 c s blank ih => rw [ih, hexPairs_blank blank]
  | case3 c solid =>
    refine iff_of_false (by simp) fun pairs => ?_
    unfold HexPairs at pairs
    rw [List.splitOnP_cons_eq_if_modifyHead, if_neg solid] at pairs
    simp at pairs
  | case4 c solid d s ih =>
    have solid : isBlank c = false := by simpa using solid
    by_cases blank : isBlank d = true
    · have none' : hexDigit d = none := by
        by_contra found
        have := isHex_solid (Option.isSome_iff_ne_none.mpr found : isHex d = true)
        rw [blank] at this
        cases this
      refine iff_of_false ?_ (hexPairs_odd solid blank)
      rw [none']
      cases hexDigit c <;> simp
    · rw [hexPairs_pair solid (by simpa using blank), ← ih]
      unfold isHex
      cases hexDigit c with
      | none => simp
      | some hi =>
        cases hexDigit d with
        | none => simp
        | some lo => cases bytesFromhex s <;> simp

theorem yaraBytes_ok_iff (v : Text) : (∃ bytes, yaraBytes v = .ok bytes) ↔ YaraSound v := by
  unfold yaraBytes YaraSound
  split
  · rename_i hex
    rw [← bytesFromhex_isSome_iff]
    cases bytesFromhex (v.drop 4) with
    | none => exact iff_of_false (by simp) fun sound => by simpa using sound hex
    | some bytes => simp
  · rename_i plain
    exact iff_of_true ⟨_, rfl⟩ fun hex => absurd hex plain

/-! ### Rows -/

def Row.Sound (U : Unicode) (r : Row) : Prop :=
  match r.content with
  | .hash _ => True
  | .body b => WellFormed b.hexPattern ∧ OffsetSound U b.offset
  | .yara y => ∀ v ∈ y.strings.items.map Prod.snd, YaraSound v

/-- A row on which `compile` does not raise. -/
def Row.Compiles (U : Unicode) (r : Row) : Prop :=
  match r.content with
  | .hash _ => True
  | .body b => ∃ out, compileBody U r.sigId b = .ok out
  | .yara y => ∀ v ∈ y.strings.items.map Prod.snd, YaraSound v

theorem compileRow_ok_iff (av : AntiVirus) (r : Row) : (∃ av', av.compileRow U r = .ok av') ↔ r.Compiles U := by
  unfold AntiVirus.compileRow Row.Compiles
  cases r.content with
  | hash h => exact iff_of_true ⟨_, rfl⟩ trivial
  | body b =>
    dsimp only
    cases compileBody U r.sigId b with
    | error e => exact iff_of_false (fun ⟨_, found⟩ => by cases found) fun ⟨_, found⟩ => by cases found
    | ok out => rcases out with _ | ⟨pat, _ | anchor⟩ <;> exact iff_of_true ⟨_, rfl⟩ ⟨_, rfl⟩
  | yara y =>
    dsimp only
    have strings : (∃ out, (y.strings.items.map Prod.snd).mapM yaraBytes = .ok out) ↔ _ := mapM_ok_iff
    simp only [yaraBytes_ok_iff] at strings
    rw [← strings]
    unfold compileYara
    cases (y.strings.items.map Prod.snd).mapM yaraBytes with
    | error e => exact iff_of_false (fun ⟨_, found⟩ => by cases found) fun ⟨_, found⟩ => by cases found
    | ok out => exact iff_of_true ⟨_, rfl⟩ ⟨_, rfl⟩

/-- A row on which `load_av_signatures` does not raise. -/
def Row.Loads (U : Unicode) (r : Row) : Prop :=
  match r.content with
  | .hash _ => True
  | .body b => (∃ x, hexsigToPcre U b.hexPattern = .ok x) ∧ OffsetSound U b.offset
  | .yara y => ∀ v ∈ y.strings.items.map Prod.snd, YaraSound v

theorem loadYara_ok_iff (c : FastPathCompiler) (y : YaraSig) :
    (∃ c', loadYara c y = .ok c') ↔ ∀ v ∈ y.strings.items.map Prod.snd, YaraSound v := by
  have fold : (∃ out, (y.strings.items.map Prod.snd).foldlM (fun (x : FastPathCompiler × List Nat) v =>
      (yaraBytes v).map fun bytes => (x.1.addPattern (Detect.bytesPcre bytes) ['Q'] 0 0 false, x.2 ++ [x.1.nextId])) (c, []) = .ok out) ↔
        ∀ v ∈ y.strings.items.map Prod.snd, YaraSound v := by
    refine foldlM_ok_iff fun x v => ?_
    rw [← yaraBytes_ok_iff]
    cases yaraBytes v with
    | error e => exact iff_of_false (fun ⟨_, found⟩ => by cases found) fun ⟨_, found⟩ => by cases found
    | ok bytes => exact iff_of_true ⟨_, rfl⟩ ⟨_, rfl⟩
  rw [← fold]
  have unfolded : loadYara c y = ((y.strings.items.map Prod.snd).foldlM (fun (x : FastPathCompiler × List Nat) v =>
      (yaraBytes v).map fun bytes => (x.1.addPattern (Detect.bytesPcre bytes) ['Q'] 0 0 false, x.2 ++ [x.1.nextId])) (c, [])) >>=
        fun x => .ok (if x.2 = [] then x.1
          else if y.condition = "all".toList then x.1.addPattern (combination " & ".toList x.2) ['C'] 0 0 false
          else if y.condition = "any".toList then x.1.addPattern (combination " | ".toList x.2) ['C'] 0 0 false
          else confirmOnHost x.2 x.1) := rfl
  rw [unfolded]
  constructor
  · rintro ⟨c', found⟩
    obtain ⟨x, folded, -⟩ := bind_ok found
    exact ⟨x, folded⟩
  · rintro ⟨x, folded⟩
    exact ⟨_, by rw [folded]; rfl⟩

theorem loadRow_ok_iff (c : FastPathCompiler) (r : Row) : (∃ c', loadRow U c r = .ok c') ↔ r.Loads U := by
  unfold loadRow Row.Loads
  cases r.content with
  | hash h =>
    refine iff_of_true ?_ trivial
    dsimp only
    repeat' split
    all_goals exact ⟨_, rfl⟩
  | body b =>
    dsimp only
    rw [← clamavOffsetExt_ok_iff b.offset ((squeeze b.hexPattern).length / 2)]
    constructor
    · rintro ⟨c', found⟩
      obtain ⟨x, written, found⟩ := bind_ok found
      obtain ⟨y, offset, -⟩ := bind_ok found
      exact ⟨⟨x, written⟩, y, offset⟩
    · rintro ⟨⟨x, written⟩, ⟨low, high, confirm⟩, offset⟩
      rw [written, offset]
      exact ⟨_, rfl⟩
  | yara y => exact loadYara_ok_iff c y

def AntiVirus.Matches (av : AntiVirus) (sigId : Nat) : Prop :=
  (∃ p ∈ av.patNoanchor, p.sigId = sigId) ∨ ∃ p, AList.lookup sigId av.patByAnchor = some p

/-- Both engines compile the database, and every body signature gets a matcher. -/
def SignatureDB.Safe (U : Unicode) (db : SignatureDB) : Prop :=
  (∃ av, AntiVirus.compile U db = .ok av ∧ ∀ r ∈ db.rows, ∀ b, r.content = .body b → av.Matches r.sigId) ∧
    ∃ c, loadAvSignatures U db = .ok c

theorem compileBody_sigId {sigId : Nat} {b : BodySig} {p : Pat} {anchor : Option (List UInt8)}
    (body : compileBody U sigId b = .ok (some (p, anchor))) : p.sigId = sigId := by
  obtain ⟨rx, -, found⟩ := bind_ok body
  cases rx with
  | none => cases found
  | some fs =>
    obtain ⟨a, -, found⟩ := bind_ok found
    obtain ⟨rfl, -⟩ := Prod.mk.inj (Option.some.inj (Except.ok.inj found))
    rfl

theorem SignatureDB.row_unique {db : SignatureDB} {r r' : Row} (member : r ∈ db.rows) (member' : r' ∈ db.rows)
    (same : r.sigId = r'.sigId) : r = r' := List.inj_on_of_nodup_map db.nodup member member' same

theorem Compiled.matches_iff {db : SignatureDB} {av : AntiVirus} (compiled : Compiled U db.rows av) {r : Row} (member : r ∈ db.rows)
    {b : BodySig} (content : r.content = .body b) : av.Matches r.sigId ↔ ∃ out, compileBody U r.sigId b = .ok (some out) := by
  constructor
  · rintro (⟨p, found, same⟩ | ⟨p, found⟩)
    · obtain ⟨r', member', b', content', body⟩ := (compiled.noanchor p).mp found
      obtain rfl := SignatureDB.row_unique member' member ((compileBody_sigId body).symm.trans same)
      rw [content] at content'
      obtain rfl := Content.body.inj content'
      exact ⟨_, body⟩
    · obtain ⟨r', member', same, anchor, b', content', body⟩ := (compiled.anchored r.sigId p).mp found
      obtain rfl := SignatureDB.row_unique member' member same
      rw [content] at content'
      obtain rfl := Content.body.inj content'
      exact ⟨_, body⟩
  · rintro ⟨⟨p, _ | anchor⟩, body⟩
    · exact .inl ⟨p, (compiled.noanchor p).mpr ⟨r, member, b, content, body⟩, compileBody_sigId body⟩
    · exact .inr ⟨p, (compiled.anchored r.sigId p).mpr ⟨r, member, rfl, anchor, b, content, body⟩⟩

theorem SignatureDB.safe_iff (db : SignatureDB) : db.Safe U ↔ ∀ r ∈ db.rows, r.Sound U := by
  have compiles : (∃ av, AntiVirus.compile U db = .ok av) ↔ ∀ r ∈ db.rows, r.Compiles U := foldlM_ok_iff compileRow_ok_iff
  have loads : (∃ c, loadAvSignatures U db = .ok c) ↔ ∀ r ∈ db.rows, r.Loads U := foldlM_ok_iff loadRow_ok_iff
  constructor
  · rintro ⟨⟨av, done, all⟩, loaded⟩ r member
    have row := compiles.mp ⟨av, done⟩ r member
    have loadedRow := loads.mp loaded r member
    unfold Row.Sound
    cases content : r.content with
    | hash h => trivial
    | body b =>
      have matched := ((compile_compiled done).matches_iff member content).mp (all r member b content)
      simp only [Row.Loads, content] at loadedRow
      exact ⟨body_wellFormed_iff.mp ⟨matched, loadedRow.1⟩, loadedRow.2⟩
    | yara y =>
      simp only [Row.Compiles, content] at row
      exact row
  · intro sound
    have body : ∀ r ∈ db.rows, ∀ b, r.content = .body b →
        (∃ out, compileBody U r.sigId b = .ok (some out)) ∧ (∃ x, hexsigToPcre U b.hexPattern = .ok x) ∧ OffsetSound U b.offset := by
      intro r member b content
      have row := sound r member
      simp only [Row.Sound, content] at row
      obtain ⟨matched, written⟩ := (@body_wellFormed_iff U r.sigId b).mpr row.1
      exact ⟨matched, written, row.2⟩
    have each : ∀ r ∈ db.rows, r.Compiles U := by
      intro r member
      have row := sound r member
      unfold Row.Compiles
      cases content : r.content with
      | hash h => trivial
      | body b =>
        obtain ⟨⟨out, found⟩, -⟩ := body r member b content
        exact ⟨_, found⟩
      | yara y =>
        simp only [Row.Sound, content] at row
        exact row
    obtain ⟨av, done⟩ := compiles.mpr each
    refine ⟨⟨av, done, fun r member b content => ?_⟩, loads.mpr fun r member => ?_⟩
    · exact ((compile_compiled done).matches_iff member content).mpr (body r member b content).1
    · have row := sound r member
      unfold Row.Loads
      cases content : r.content with
      | hash h => trivial
      | body b => exact (body r member b content).2
      | yara y =>
        simp only [Row.Sound, content] at row
        exact row

/-- A database built through the calls compiles in both engines, with a matcher for every
body signature, just when its texts are sound. -/
theorem admitted_signatures_safe_iff (U : Unicode) (calls : List Call) :
    (SignatureDB.build U calls).Safe U ↔ ∀ r ∈ (SignatureDB.build U calls).rows, r.Sound U := SignatureDB.safe_iff _

/-- `414` is admitted and stops the anti-virus engine; a wildcard in a branch stops the
fast path. -/
theorem odd_digits_raise :
    let calls := [Call.addPattern "414".toList "any".toList "*".toList]
    let wild := [Call.addPattern "41(4?|42)".toList "any".toList "*".toList]
    AntiVirus.compile asciiUnicode (.build asciiUnicode calls) = .error .indexError ∧
      loadAvSignatures asciiUnicode (.build asciiUnicode wild) = .error .valueError ∧
      ¬(SignatureDB.build asciiUnicode calls).Safe asciiUnicode := by
  intro calls wild
  have raises : AntiVirus.compile asciiUnicode (.build asciiUnicode calls) = .error .indexError := rfl
  refine ⟨raises, rfl, ?_⟩
  rintro ⟨⟨av, done, -⟩, -⟩
  rw [raises] at done
  cases done

end FfnNgfw.Antivirus
