import FfnNgfw.Antivirus.Tokens
import FfnNgfw.Lib.Separated

/-!
# Signatures that both engines take

What the two compilers make of each token, and for which texts both of them succeed: gaps
with bounds in order and below the limit of `re`, and branches of whole bytes without
wildcards.
-/

namespace FfnNgfw.Antivirus
open Threatdb (Text hexDigit pyInt fromHex strip hexDigit_solid hexDigit_bound strip_of_solid fromHex_isSome)
open Policy (isSpace)

variable {U : Unicode} {s : Text}

/-! ### Pairs and branches -/

def nibbleValue (c : Char) : Nat := (hexDigit c).getD 0

def pairClass (hi lo : Char) : ByteClass :=
  if hi = '?' ∧ lo = '?' then .any
  else if hi = '?' then .low (nibbleValue lo)
  else if lo = '?' then .high (nibbleValue hi)
  else .byte (16 * nibbleValue hi + nibbleValue lo : Nat)

theorem isHex_digits {c : Char} (hex : isHex c = true) : ∃ d, hexDigit c = some d ∧ d < 16 := by
  obtain ⟨d, found⟩ := Option.isSome_iff_exists.mp hex
  exact ⟨d, found, hexDigit_bound found⟩

theorem Unicode.int_digits {base : Nat} (U : Unicode) (all : DigitsOf base s) (nonempty : s ≠ []) :
    U.int base s = .ok (valueOf base s) := by
  rw [Unicode.int, pyInt_value all nonempty]

theorem pairRe_nibbles (U : Unicode) {hi lo : Char} (high : isNibble hi = true) (low : isNibble lo = true) :
    pairRe U [hi, lo] = .ok (pairClass hi lo) := by
  have hex : ∀ c, isNibble c = true → c ≠ '?' → isHex c = true := fun c nibble other => (isNibble_cases nibble).resolve_right other
  have digits : ∀ cs : Text, (∀ c ∈ cs, isHex c = true) → DigitsOf 16 cs := fun cs all c inside => isHex_digits (all c inside)
  rw [pairRe, pairClass]
  by_cases first : hi = '?' <;> by_cases second : lo = '?'
  · simp only [first, second, and_self, if_true]
  · have number := U.int_digits (digits [lo] (by simpa using hex lo low second)) (by simp)
    simp only [first, second, and_false, if_false, if_true, number]
    simp [valueOf, nibbleValue, Except.map]
  · have number := U.int_digits (digits [hi] (by simpa using hex hi high first)) (by simp)
    simp only [first, second, false_and, if_false, if_true, number]
    simp [valueOf, nibbleValue, Except.map]
  · have number := U.int_digits (digits [hi, lo] (by simp [hex hi high first, hex lo low second])) (by simp)
    simp only [first, second, false_and, if_false, number]
    simp [valueOf, nibbleValue, Except.map, Nat.mul_comm]

theorem pairClass_check (hi lo : Char) : (pairClass hi lo).check = .ok () := by
  unfold pairClass
  repeat' split
  all_goals rfl

def branchClasses : Text → List ByteClass
  | hi :: lo :: rest => pairClass hi lo :: branchClasses rest
  | _ => []

theorem altRe_nibbles (U : Unicode) (s : Text) (all : ∀ c ∈ s, isNibble c = true) : altRe U s = .ok (branchClasses s) := by
  induction s using branchClasses.induct with
  | case1 hi lo rest ih =>
    rw [altRe, pairRe_nibbles U (all hi (by simp)) (all lo (by simp)), ih fun c inside => all c (by simp [inside])]
    rfl
  | case2 s short =>
    cases s with
    | nil => rfl
    | cons c s =>
      cases s with
      | nil => rfl
      | cons d s => exact absurd rfl (short c d s)

theorem branchClasses_check (s : Text) : (branchClasses s).forM ByteClass.check = .ok () := by
  rw [forM_ok_iff]
  intro c member
  induction s using branchClasses.induct with
  | case1 hi lo rest ih =>
    rcases List.mem_cons.mp member with rfl | later
    · exact pairClass_check hi lo
    · exact ih later
  | case2 s short =>
    rw [branchClasses] at member
    · cases member
    · exact short

theorem branch_nibbles {body branch : Text} (chars : ∀ c ∈ body, isAltChar c = true) (member : branch ∈ body.splitOn '|') :
    ∀ c ∈ branch, isNibble c = true := by
  intro c inside
  obtain ⟨there, other⟩ := mem_of_mem_splitOn member inside
  have := chars c there
  simpa [isAltChar, isNibble, other] using this

theorem branches_altRe (U : Unicode) {branches : List Text} (all : ∀ b ∈ branches, ∀ c ∈ b, isNibble c = true) :
    branches.mapM (altRe U) = .ok (branches.map branchClasses) := by
  induction branches with
  | nil => rfl
  | cons b branches ih =>
    rw [List.mapM_cons, altRe_nibbles U b (all b List.mem_cons_self), ih fun b' member => all b' (List.mem_cons_of_mem _ member)]
    rfl

theorem digits_solid {base : Nat} (all : DigitsOf base s) : ∀ c ∈ s, isSpace c = false := by
  intro c inside
  obtain ⟨d, found, -⟩ := all c inside
  exact hexDigit_solid (by rw [found]; rfl)

theorem gapRe_digits (U : Unicode) (all : DigitsOf 10 s) (nonempty : s ≠ []) :
    gapRe U s = .ok (.gap (valueOf 10 s) (some (valueOf 10 s))) := by
  unfold gapRe
  rw [strip_of_solid (digits_solid all)]
  dsimp only
  rw [if_neg (all.notMem rfl), U.int_digits all nonempty]
  rfl

theorem partition_append {sep : Char} {a b : Text} (out : sep ∉ a) : partition sep (a ++ sep :: b) = (a, b) := by
  have found := cut_append (b := b) out
  rw [cut, if_pos (by simp)] at found
  exact Except.ok.inj found

theorem gapRe_dash (U : Unicode) {a b : Text} (front : DigitsOf 10 a) (back : DigitsOf 10 b) :
    gapRe U (a ++ '-' :: b) = .ok (.gap (valueOf 10 a) (if b = [] then none else some (valueOf 10 b : Int))) := by
  have solid : ∀ c ∈ a ++ '-' :: b, isSpace c = false := by
    intro c inside
    rcases List.mem_append.mp inside with inside | inside
    · exact digits_solid front c inside
    · rcases List.mem_cons.mp inside with rfl | inside
      · decide
      · exact digits_solid back c inside
  have low : U.int 10 (if a = [] then ['0'] else a) = .ok (valueOf 10 a) := by
    split
    · rename_i empty
      rw [empty]
      exact U.int_digits (by simp [DigitsOf, hexDigit]) (by simp)
    · rename_i nonempty
      exact U.int_digits front nonempty
  unfold gapRe
  rw [strip_of_solid solid]
  dsimp only
  rw [if_pos (by simp), partition_append (front.notMem rfl), low]
  dsimp only [bind, Except.bind]
  split
  · rfl
  · rename_i nonempty
    rw [U.int_digits back nonempty]
    rfl

/-- The bounds of a gap are in order and below the limit of `re`. -/
def GapBounded (spec : Text) : Prop :=
  (spec ≠ [] ∧ DigitsOf 10 spec ∧ valueOf 10 spec < 2 ^ 32 - 1) ∨
    ∃ a b, DigitsOf 10 a ∧ DigitsOf 10 b ∧ spec = a ++ '-' :: b ∧ valueOf 10 a < 2 ^ 32 - 1 ∧
      (b = [] ∨ valueOf 10 b < 2 ^ 32 - 1 ∧ valueOf 10 a ≤ valueOf 10 b)

theorem gap_check_iff (lo : Nat) (hi : Option Nat) : (Fragment.gap lo (hi.map Int.ofNat)).check = .ok () ↔
    lo < 2 ^ 32 - 1 ∧ ∀ h, hi = some h → h < 2 ^ 32 - 1 ∧ lo ≤ h := by
  have natural : literalBounds lo (hi.map Int.ofNat) = none := by
    have upper : (hi.map Int.ofNat).any (· < 0) = false := by cases hi <;> simp
    have lower : ¬((lo : Int) < 0) := by omega
    rw [literalBounds, upper, if_neg (by simp [lower])]
  rw [Fragment.check.eq_def]
  dsimp only
  rw [natural, Option.isSome_none, if_neg Bool.false_ne_true]
  unfold maxRepeat
  cases hi with
  | none =>
    simp only [Option.map_none, reduceCtorEq, false_implies, implies_true, and_true]
    split
    · simp
      omega
    · simp
      omega
  | some h =>
    simp only [Option.map_some, Int.ofNat_eq_natCast, Option.some.injEq, forall_eq']
    repeat' split
    all_goals simp
    all_goals omega

theorem gap_fragment_iff (U : Unicode) (form : GapForm s) : (∃ f, gapRe U s = .ok f ∧ f.check = .ok ()) ↔ GapBounded s := by
  have dash : ∀ a b, DigitsOf 10 a → DigitsOf 10 b → ((∃ f, gapRe U (a ++ '-' :: b) = .ok f ∧ f.check = .ok ()) ↔
      valueOf 10 a < 2 ^ 32 - 1 ∧ (b = [] ∨ valueOf 10 b < 2 ^ 32 - 1 ∧ valueOf 10 a ≤ valueOf 10 b)) := by
    intro a b front back
    have check := gap_check_iff (valueOf 10 a) (if b = [] then none else some (valueOf 10 b))
    rw [gapRe_dash U front back]
    by_cases empty : b = []
    · simp only [empty, if_true, Option.map_none, reduceCtorEq, false_implies, implies_true, and_true] at check
      simp [empty, check]
    · simp only [empty, if_false, Option.map_some, Int.ofNat_eq_natCast, Option.some.injEq, forall_eq'] at check
      simp [empty, check]
  have plain : DigitsOf 10 s → s ≠ [] → ((∃ f, gapRe U s = .ok f ∧ f.check = .ok ()) ↔ valueOf 10 s < 2 ^ 32 - 1) := by
    intro all nonempty
    have check := gap_check_iff (valueOf 10 s) (some (valueOf 10 s))
    simp only [Option.map_some, Int.ofNat_eq_natCast, Option.some.injEq, forall_eq', Nat.le_refl, and_true, and_self] at check
    rw [gapRe_digits U all nonempty]
    simp [check]
  constructor
  · intro reads
    rcases form with all | ⟨a, b, front, back, rfl⟩
    · have nonempty : s ≠ [] := by
        rintro rfl
        obtain ⟨f, read, -⟩ := reads
        cases read
      exact .inl ⟨nonempty, all, (plain all nonempty).mp reads⟩
    · exact .inr ⟨a, b, front, back, rfl, (dash a b front back).mp reads⟩
  · rintro (⟨nonempty, all, small⟩ | ⟨a, b, front, back, rfl, bounds⟩)
    · exact (plain all nonempty).mpr small
    · exact (dash a b front back).mpr bounds

def Token.Bounded : Token → Prop
  | gap spec => GapBounded spec
  | _ => True

theorem Token.fragment_ok_iff (U : Unicode) {t : Token} (lexical : t.Lexical) :
    (∃ f, t.fragment U = .ok f ∧ f.check = .ok ()) ↔ t.Bounded := by
  cases t with
  | pair hi lo =>
    refine iff_of_true ⟨.one (pairClass hi lo), ?_, pairClass_check hi lo⟩ trivial
    rw [Token.fragment, pairRe_nibbles U lexical.1 lexical.2]
    rfl
  | star => exact iff_of_true ⟨.star, rfl, rfl⟩ trivial
  | gap spec => exact gap_fragment_iff U lexical
  | alternation body =>
    refine iff_of_true ⟨.alt ((body.splitOn '|').map branchClasses), ?_, ?_⟩ trivial
    · rw [Token.fragment, branches_altRe U fun b member => branch_nibbles lexical.2 member]
      rfl
    · rw [Fragment.check, forM_ok_iff]
      intro cs member
      obtain ⟨branch, -, rfl⟩ := List.mem_map.mp member
      exact branchClasses_check branch

theorem squeeze_of (squeezed : ' ' ∉ s) : squeeze s = s := by
  rw [squeeze, List.filter_eq_self]
  intro c inside
  have : c ≠ ' ' := fun same => squeezed (same ▸ inside)
  simp [this]

theorem hexsigFragments_tokens {fs : List Fragment} (admitted : validateHexsig s = true) (squeezed : ' ' ∉ s)
    (found : hexsigFragments U s = .ok fs) :
    ∃ ts : List Token, (∀ t ∈ ts, t.Lexical ∧ t.Bounded) ∧ s = render ts ∧ ts.mapM (Token.fragment U) = .ok fs := by
  rw [hexsigFragments, squeeze_of squeezed] at found
  obtain ⟨fs', read, found⟩ := bind_ok found
  obtain ⟨u, checked, same⟩ := bind_ok found
  obtain rfl := Except.ok.inj same
  obtain ⟨ts, lexical, text, fragments⟩ := (clean_of_admitted admitted).tokens (Nat.le_refl _) read
  refine ⟨ts, fun t member => ⟨lexical t member, ?_⟩, text, fragments⟩
  obtain ⟨f, inside, fragment⟩ := mapM_mem fragments member
  exact (t.fragment_ok_iff U (lexical t member)).mp ⟨f, fragment, forM_ok_iff.mp checked f inside⟩

theorem hexsigFragments_render (U : Unicode) {ts : List Token} (good : ∀ t ∈ ts, t.Lexical ∧ t.Bounded) (squeezed : ' ' ∉ render ts) :
    ∃ fs, hexsigFragments U (render ts) = .ok fs := by
  have each : ∀ t ∈ ts, ∃ f, t.fragment U = .ok f ∧ f.check = .ok () :=
    fun t member => (t.fragment_ok_iff U (good t member).1).mpr (good t member).2
  obtain ⟨fs, fragments⟩ := mapM_ok fun t member => (each t member).imp fun f found => found.1
  have checked : fs.forM Fragment.check = .ok () := by
    rw [forM_ok_iff]
    intro f inside
    obtain ⟨t, member, fragment⟩ := mapM_back fragments inside
    obtain ⟨f', found, check⟩ := each t member
    rw [fragment] at found
    rwa [Except.ok.inj found]
  refine ⟨fs, ?_⟩
  rw [hexsigFragments, squeeze_of squeezed, tokens_render U (fun t member => (good t member).1) (Nat.le_refl _), fragments]
  dsimp only [bind, Except.bind]
  rw [checked]
  rfl

theorem compileHexsig_some {fs : List Fragment} : compileHexsig U s = .ok (some fs) ↔ hexsigFragments U s = .ok fs := by
  unfold compileHexsig
  split
  · rename_i fs' eq
    rw [eq]
    simp
  · rename_i eq
    rw [eq]
    simp
  · rename_i eq
    rw [eq]
    simp
  · rename_i e _ _ eq
    rw [eq]
    simp

def Token.WholeBytes : Token → Prop
  | alternation body => ∀ branch ∈ body.splitOn '|', branch.length % 2 = 0 ∧ ∀ c ∈ branch, isHex c = true
  | _ => True

theorem unhexlify_ok_iff : (∃ bytes, unhexlify s = .ok bytes) ↔ s.length % 2 = 0 ∧ ∀ c ∈ s, isHex c = true := by
  constructor
  · rintro ⟨bytes, found⟩
    have read : fromHex s = some bytes := by
      unfold unhexlify at found
      split at found
      · rename_i eq
        rw [eq, Except.ok.inj found]
      · cases found
    clear found
    induction s using FfnNgfw.Threatdb.fromHex.induct generalizing bytes with
    | case1 => simp
    | case2 a b rest ih =>
      rw [fromHex] at read
      obtain ⟨hi, high, read⟩ := Option.bind_eq_some_iff.mp read
      obtain ⟨lo, low, read⟩ := Option.bind_eq_some_iff.mp read
      obtain ⟨others, later, -⟩ := Option.bind_eq_some_iff.mp read
      obtain ⟨even, hex⟩ := ih others later
      refine ⟨?_, ?_⟩
      · simp only [List.length_cons]
        omega
      · simp only [List.mem_cons, forall_eq_or_imp]
        exact ⟨by rw [isHex, high]; rfl, by rw [isHex, low]; rfl, hex⟩
    | case3 a => cases read
  · rintro ⟨even, hex⟩
    obtain ⟨bytes, read⟩ := Option.isSome_iff_exists.mp (fromHex_isSome hex even)
    exact ⟨bytes, by rw [unhexlify, read]⟩

def gapBody (spec : Text) : Text :=
  let ends := partition '-' spec
  let lo := if ends.1 = [] then ['0'] else ends.1
  if '-' ∈ spec then if ends.2 = [] then lo ++ [','] else lo ++ [','] ++ ends.2 else spec

theorem pcreToken_gap (U : Unicode) (s : Text) :
    pcreToken U ('{' :: s) = (cut '}' s).map fun x => (['.', '\x7b'] ++ gapBody (strip x.1) ++ ['\x7d'], x.2) := by
  have unfolded : pcreToken U ('{' :: s) = (do
      let x ← cut '}' s
      return (['.', '\x7b'] ++ gapBody (strip x.1) ++ ['\x7d'], x.2)) := rfl
  rw [unfolded]
  cases cut '}' s <;> rfl

theorem pcreToken_alternation (U : Unicode) (s : Text) :
    pcreToken U ('(' :: s) = (cut ')' s).bind fun x => ((x.1.splitOn '|').mapM unhexlify).map fun branches =>
      ("(?:".toList ++ List.intercalate ['|'] (branches.map Detect.bytesPcre) ++ [')'], x.2) := by
  have unfolded : pcreToken U ('(' :: s) = (do
      let x ← cut ')' s
      let branches ← (x.1.splitOn '|').mapM unhexlify
      return ("(?:".toList ++ List.intercalate ['|'] (branches.map Detect.bytesPcre) ++ [')'], x.2)) := rfl
  rw [unfolded]
  cases cut ')' s with
  | error e => rfl
  | ok x =>
    dsimp only [bind, Except.bind]
    cases (x.1.splitOn '|').mapM unhexlify <;> rfl

theorem Token.pcreToken_text (U : Unicode) {t : Token} (lexical : t.Lexical) (rest : Text) :
    (t.WholeBytes → ∃ x, pcreToken U (t.text ++ rest) = .ok (x, rest)) ∧
      ∀ x rest', pcreToken U (t.text ++ rest) = .ok (x, rest') → t.WholeBytes ∧ rest' = rest := by
  cases t with
  | pair hi lo =>
    obtain ⟨noStar, noGap, noAlt, noRange⟩ := nibble_ne lexical.1
    have unfolded : pcreToken U (hi :: lo :: rest) = (nibbleClass U hi lo).map fun x => (x, rest) := by
      rw [pcreToken, if_neg noStar, if_neg noGap, if_neg noAlt, if_neg noRange]
      cases nibbleClass U hi lo <;> rfl
    have read : ∃ x, nibbleClass U hi lo = .ok x := by
      have pair := pairRe_nibbles U lexical.1 lexical.2
      rw [pairRe] at pair
      unfold nibbleClass
      split at pair
      · rw [if_pos (by assumption)]
        exact ⟨_, rfl⟩
      · rw [if_neg (by assumption)]
        split at pair
        · obtain ⟨n, number, -⟩ := map_ok pair
          rw [if_pos (by assumption), number]
          exact ⟨_, rfl⟩
        · rw [if_neg (by assumption)]
          split at pair
          · obtain ⟨n, number, -⟩ := map_ok pair
            rw [if_pos (by assumption), number]
            exact ⟨_, rfl⟩
          · obtain ⟨n, number, -⟩ := map_ok pair
            rw [if_neg (by assumption), number]
            exact ⟨_, rfl⟩
    obtain ⟨x, read⟩ := read
    have whole : pcreToken U (Token.text (.pair hi lo) ++ rest) = .ok (x, rest) := by
      rw [Token.text, List.cons_append, List.cons_append, List.nil_append, unfolded, read]
      rfl
    rw [whole]
    refine ⟨fun _ => ⟨x, rfl⟩, fun x' rest' same => ⟨trivial, (Prod.mk.inj (Except.ok.inj same)).2.symm⟩⟩
  | star => exact ⟨fun _ => ⟨_, rfl⟩, fun x' rest' same => ⟨trivial, (Prod.mk.inj (Except.ok.inj same)).2.symm⟩⟩
  | gap spec =>
    have closes : '}' ∉ spec := GapForm.notMem lexical rfl (by decide)
    rw [Token.text, List.cons_append, List.append_assoc, List.singleton_append, pcreToken_gap, cut_append closes]
    exact ⟨fun _ => ⟨_, rfl⟩, fun x' rest' same => ⟨trivial, (Prod.mk.inj (Except.ok.inj same)).2.symm⟩⟩
  | alternation body =>
    have closes : ')' ∉ body := fun inside => absurd (lexical.2 _ inside) (by decide)
    rw [Token.text, List.cons_append, List.append_assoc, List.singleton_append, pcreToken_alternation, cut_append closes]
    dsimp only [Except.bind]
    constructor
    · intro whole
      obtain ⟨branches, read⟩ := mapM_ok fun b member => unhexlify_ok_iff.mpr (whole b member)
      exact ⟨_, by rw [read]; rfl⟩
    · intro x rest' found
      obtain ⟨branches, read, same⟩ := map_ok found
      refine ⟨fun b member => ?_, (Prod.mk.inj same).2.symm⟩
      exact unhexlify_ok_iff.mp (mapM_ok_iff.mp ⟨branches, read⟩ b member)

theorem pcreTokens_render (U : Unicode) {ts : List Token} (lexical : ∀ t ∈ ts, t.Lexical) {fuel : Nat}
    (enough : (render ts).length ≤ fuel) : (∃ x, pcreTokens U fuel (render ts) = .ok x) ↔ ∀ t ∈ ts, t.WholeBytes := by
  induction ts generalizing fuel with
  | nil =>
    refine iff_of_true ⟨[], ?_⟩ (List.forall_mem_nil _)
    cases fuel <;> rfl
  | cons t ts ih =>
    have some' := t.text_length
    rw [render, List.flatMap_cons, ← render] at enough ⊢
    rw [List.length_append] at enough
    obtain ⟨writes, only⟩ := t.pcreToken_text U (lexical t List.mem_cons_self) (render ts)
    have shorter : (render ts).length ≤ fuel - 1 := by omega
    have later := ih (fun t inside => lexical t (List.mem_cons_of_mem _ inside)) shorter
    obtain ⟨fuel, rfl⟩ : ∃ k, fuel = k + 1 := ⟨fuel - 1, by omega⟩
    rw [Nat.add_sub_cancel] at later
    rw [List.forall_mem_cons, ← later]
    cases text : t.text ++ render ts with
    | nil =>
      have := congrArg List.length text
      rw [List.length_append, List.length_nil] at this
      omega
    | cons c s =>
      rw [text] at writes only
      rw [pcreTokens]
      constructor
      · rintro ⟨x, found⟩
        obtain ⟨⟨y, rest⟩, first, found⟩ := bind_ok found
        obtain ⟨z, others, -⟩ := bind_ok found
        obtain ⟨whole, rfl⟩ := only y rest first
        exact ⟨whole, z, others⟩
      · rintro ⟨whole, z, others⟩
        obtain ⟨y, first⟩ := writes whole
        refine ⟨y ++ z, ?_⟩
        rw [first]
        dsimp only [bind, Except.bind]
        rw [others]
        rfl

end FfnNgfw.Antivirus
