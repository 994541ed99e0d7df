import FfnNgfw.Antivirus.Hexsig
import Mathlib.Data.Set.Basic

/-!
# The language of a body signature

The byte strings that a fragment of a signature matches. The match that the engine returns is
found by trying the longer gaps and the earlier branches first.
-/

namespace FfnNgfw.Antivirus
open Threatdb (Text hexDigit pyInt)

def Fits (cs : List ByteClass) (w : List UInt8) : Prop := List.Forall₂ (fun c b => c.has b = true) cs w

def Fragment.lang : Fragment → Set (List UInt8)
  | one c => {w | ∃ b, c.has b = true ∧ w = [b]}
  | star => Set.univ
  | gap lo hi =>
    match literalBounds lo hi with
    | none => {w | gapFits lo hi w.length = true}
    | some text => {w | ∃ b, w = b :: literalBytes text}
  | alt branches => {w | ∃ cs ∈ branches, Fits cs w}
  | range lo hi => {w | ∃ b, (rangeParts lo hi).any (inParts · b) = true ∧ w = [b]}

/-- The bytes taken by the match that `re` returns. -/
def matchEnd : List Fragment → List UInt8 → Option Nat
  | [], _ => some 0
  | .one _ :: _, [] => none
  | .one c :: fs, b :: data => if c.has b then (matchEnd fs data).map (· + 1) else none
  | .star :: fs, data => (List.range (data.length + 1)).reverse.findSome? fun n => (matchEnd fs (data.drop n)).map (· + n)
  | .gap lo hi :: fs, data =>
    match literalBounds lo hi with
    | none => (List.range (data.length + 1)).reverse.findSome? fun n =>
      if gapFits lo hi n then (matchEnd fs (data.drop n)).map (· + n) else none
    | some text =>
      if data ≠ [] && literalBytes text <+: data.drop 1 then
        (matchEnd fs (data.drop ((literalBytes text).length + 1))).map (· + ((literalBytes text).length + 1))
      else none
  | .alt branches :: fs, data => branches.findSome? fun cs => (branchRest cs data).bind fun rest =>
      (matchEnd fs rest).map (· + cs.length)
  | .range _ _ :: _, [] => none
  | .range lo hi :: fs, b :: data => if (rangeParts lo hi).any (inParts · b) then (matchEnd fs data).map (· + 1) else none

section

variable {cs : List ByteClass} {w : List UInt8}

theorem mem_gap {lo : Int} {hi : Option Int} (plain : literalBounds lo hi = none) :
    w ∈ (Fragment.gap lo hi).lang ↔ gapFits lo hi w.length = true := by
  rw [Fragment.lang, plain]
  rfl

theorem mem_literal {lo : Int} {hi : Option Int} {text : Text} (literal : literalBounds lo hi = some text) :
    w ∈ (Fragment.gap lo hi).lang ↔ ∃ b, w = b :: literalBytes text := by
  rw [Fragment.lang, literal]
  rfl

theorem Fits.length (fits : Fits cs w) : w.length = cs.length := (List.Forall₂.length_eq fits).symm

end

section numbers

variable {decimal : Char → Option Nat} {s : Text} {acc v : Nat}

theorem digitsFrom_bound (base : Nat) (found : Threatdb.digitsFrom decimal base acc s = some v) : v < (acc + 1) * base ^ s.length := by
  have next : ∀ {a d n : Nat}, d < base → v < (a * base + d + 1) * base ^ n → v < (a + 1) * base ^ (n + 1) := by
    intro a d n small bound
    refine Nat.lt_of_lt_of_le bound ?_
    rw [Nat.pow_succ', ← Nat.mul_assoc]
    refine Nat.mul_le_mul_right _ ?_
    rw [Nat.add_mul, Nat.one_mul]
    omega
  have small : ∀ {c : Char} {d : Nat}, Threatdb.digit decimal base c = some d → d < base := by
    intro c d known
    exact of_decide_eq_true (Option.filter_eq_some_iff.mp known).2
  induction acc, s using FfnNgfw.Threatdb.digitsFrom.induct base with
  | case1 acc =>
    cases found
    simp
  | case2 acc c rest ih =>
    rw [Threatdb.digitsFrom] at found
    obtain ⟨d, known, found⟩ := Option.bind_eq_some_iff.mp found
    have bound := next (small known) (ih d found)
    refine Nat.lt_of_lt_of_le bound (Nat.mul_le_mul_left _ (Nat.pow_le_pow_right ?_ ?_))
    · have lt := small known
      omega
    · simp only [List.length_cons]
      omega
  | case3 acc c rest other ih =>
    rw [Threatdb.digitsFrom] at found
    · obtain ⟨d, known, found⟩ := Option.bind_eq_some_iff.mp found
      exact next (small known) (ih d found)
    · exact other

theorem digits_bound {base : Nat} (found : Threatdb.digits decimal base s = some v) : v < base ^ s.length := by
  cases s with
  | nil => cases found
  | cons c rest =>
    rw [Threatdb.digits] at found
    obtain ⟨d, known, found⟩ := Option.bind_eq_some_iff.mp found
    have small : d < base := of_decide_eq_true (Option.filter_eq_some_iff.mp known).2
    have bound := digitsFrom_bound base found
    rw [List.length_cons, Nat.pow_succ']
    exact Nat.lt_of_lt_of_le bound (Nat.mul_le_mul_right _ small)

theorem strip_length (s : Text) : (Threatdb.strip s).length ≤ s.length := by
  have shorter : ∀ t : Text, (t.dropWhile Policy.isSpace).length ≤ t.length := fun t => (List.dropWhile_suffix _).length_le
  have outer := shorter (s.dropWhile Policy.isSpace).reverse
  have inner := shorter s
  rw [Threatdb.strip, List.length_reverse]
  rw [List.length_reverse] at outer
  omega

theorem dropPrefix_length (s : Text) : (Threatdb.dropPrefix s).length ≤ s.length := by
  unfold Threatdb.dropPrefix
  repeat' split
  · simp only [List.length_cons]
    omega
  · simp only [List.length_cons]
    omega
  · exact Nat.le_refl _
  · exact Nat.le_refl _

theorem pyInt_bound {v : Int} (found : pyInt decimal 16 s = some v) : v.natAbs < 16 ^ s.length ∧ (s.length = 1 → 0 ≤ v) := by
  have unsigned : ∀ {t : Text} {n : Nat}, Threatdb.digits decimal 16 (if 16 = 16 then Threatdb.dropPrefix t else t) = some n →
      t.length ≤ s.length → n < 16 ^ s.length := by
    intro t n read le
    rw [if_pos rfl] at read
    exact Nat.lt_of_lt_of_le (digits_bound read) (Nat.pow_le_pow_right (by omega) (Nat.le_trans (dropPrefix_length t) le))
  have length := strip_length s
  unfold pyInt at found
  dsimp only at found
  split at found
  · rename_i rest same
    rw [same, List.length_cons] at length
    obtain ⟨n, read, rfl⟩ := Option.map_eq_some_iff.mp found
    have bound := unsigned read (by omega)
    refine ⟨by simpa using bound, fun one => ?_⟩
    have empty : rest = [] := List.eq_nil_of_length_eq_zero (by omega)
    subst empty
    cases read
  · rename_i rest same
    rw [same, List.length_cons] at length
    obtain ⟨n, read, rfl⟩ := Option.map_eq_some_iff.mp found
    have bound := unsigned read (by omega)
    exact ⟨bound, fun _ => Int.natCast_nonneg n⟩
  · obtain ⟨n, read, rfl⟩ := Option.map_eq_some_iff.mp found
    have bound := unsigned read length
    exact ⟨bound, fun _ => Int.natCast_nonneg n⟩

end numbers

/-! ### No fragment is without words -/

def ByteClass.Real (c : ByteClass) : Prop := ∃ b, c.has b = true

def Fragment.Real : Fragment → Prop
  | one c => c.Real
  | star => True
  | gap lo hi => literalBounds lo hi = none → 0 ≤ lo ∧ ∀ h, hi = some h → lo ≤ h
  | alt branches => branches ≠ [] ∧ ∀ cs ∈ branches, ∀ c ∈ cs, c.Real
  | range lo hi => (rangeParts lo hi).isSome

section real

variable {U : Unicode} {s rest : Text} {c : ByteClass} {cs : List ByteClass}

theorem int_ok {base : Nat} {v : Int} (found : U.int base s = .ok v) : pyInt U.decimal base s = some v := by
  unfold Unicode.int at found
  split at found
  · rename_i known
    rw [known, Except.ok.inj found]
  · cases found

theorem byte_of (n : Nat) (small : n < 256) : (UInt8.ofNat n).toNat = n := by
  rw [UInt8.toNat_ofNat', Nat.mod_eq_of_lt small]

theorem pairRe_real (found : pairRe U s = .ok c) (checked : c.check = .ok ()) : c.Real := by
  unfold pairRe at found
  split at found
  · rename_i hi lo rest
    split_ifs at found
    · cases found
      exact ⟨0, rfl⟩
    · obtain ⟨v, number, rfl⟩ := map_ok found
      have bound := pyInt_bound (int_ok number)
      have natural := bound.2 rfl
      have small := bound.1
      simp only [List.length_singleton, Nat.pow_one] at small
      refine ⟨UInt8.ofNat v.natAbs, decide_eq_true ?_⟩
      rw [byte_of _ (by omega)]
      omega
    · obtain ⟨v, number, rfl⟩ := map_ok found
      have bound := pyInt_bound (int_ok number)
      have natural := bound.2 rfl
      have small := bound.1
      simp only [List.length_singleton, Nat.pow_one] at small
      refine ⟨UInt8.ofNat (16 * v.natAbs), decide_eq_true ?_⟩
      rw [byte_of _ (by omega)]
      omega
    · obtain ⟨v, number, rfl⟩ := map_ok found
      have bound := (pyInt_bound (int_ok number)).1
      have natural : 0 ≤ v := by
        by_contra negative
        rw [ByteClass.check, if_pos (by omega)] at checked
        cases checked
      simp only [List.length_cons, List.length_nil, Nat.reduceAdd, Nat.reducePow] at bound
      refine ⟨UInt8.ofNat v.natAbs, decide_eq_true ?_⟩
      rw [byte_of _ (by omega)]
      omega
  · cases found

theorem altRe_real (found : altRe U s = .ok cs) (checked : cs.forM ByteClass.check = .ok ()) : ∀ c ∈ cs, c.Real := by
  induction s using altRe.induct generalizing cs with
  | case1 hi lo rest ih =>
    rw [altRe] at found
    obtain ⟨c, first, found⟩ := bind_ok found
    obtain ⟨cs', others, found⟩ := bind_ok found
    cases found
    have each := forM_ok_iff.mp checked
    intro c' member
    rcases List.mem_cons.mp member with rfl | later
    · exact pairRe_real first (each _ List.mem_cons_self)
    · exact ih others (forM_ok_iff.mpr fun c inside => each c (List.mem_cons_of_mem _ inside)) c' later
  | case2 s short =>
    rw [altRe] at found
    · cases found
      exact fun c member => absurd member List.not_mem_nil
    · exact short

theorem gapRe_real {f : Fragment} (found : gapRe U s = .ok f) (checked : f.check = .ok ()) : f.Real := by
  have bounded : ∀ (lo : Int) (hi : Option Int), (Fragment.gap lo hi).check = .ok () → (Fragment.gap lo hi).Real := by
    intro lo hi checked plain
    rw [Fragment.check.eq_def] at checked
    dsimp only at checked
    have negative : ¬(lo < 0 ∨ hi.any (· < 0) = true) := by
      intro negative
      rw [literalBounds, if_pos negative] at plain
      cases plain
    rw [not_or] at negative
    refine ⟨Int.not_lt.mp negative.1, ?_⟩
    rintro h rfl
    rw [plain, Option.isSome_none, if_neg Bool.false_ne_true] at checked
    split at checked
    · cases checked
    · dsimp only at checked
      split_ifs at checked
      rename_i ordered
      exact Int.not_lt.mp ordered
  unfold gapRe at found
  dsimp only at found
  split at found
  · obtain ⟨lo, -, found⟩ := bind_ok found
    split at found
    · cases found
      exact bounded _ _ checked
    · obtain ⟨hi, -, found⟩ := bind_ok found
      cases found
      exact bounded _ _ checked
  · obtain ⟨n, -, found⟩ := bind_ok found
    cases found
    exact bounded _ _ checked

theorem token_real {f : Fragment} (found : token U s = .ok (f, rest)) (checked : f.check = .ok ()) : f.Real := by
  cases s with
  | nil => cases found
  | cons c s =>
    rw [token] at found
    split_ifs at found
    · cases found
      trivial
    · obtain ⟨parts, -, found⟩ := bind_ok found
      obtain ⟨g, gap, found⟩ := bind_ok found
      cases found
      exact gapRe_real gap checked
    · obtain ⟨parts, -, found⟩ := bind_ok found
      obtain ⟨branches, each, found⟩ := bind_ok found
      cases found
      refine ⟨?_, fun cs member => ?_⟩
      · rintro rfl
        obtain ⟨first, inside⟩ := List.exists_mem_of_ne_nil _ (List.splitOn_ne_nil '|' parts.1)
        obtain ⟨y, member, -⟩ := mapM_mem each inside
        exact absurd member List.not_mem_nil
      · obtain ⟨branch, -, read⟩ := mapM_back each member
        exact altRe_real read (forM_ok_iff.mp checked cs member)
    · obtain ⟨parts, -, found⟩ := bind_ok found
      obtain ⟨lo, -, found⟩ := bind_ok found
      obtain ⟨hi, -, found⟩ := bind_ok found
      cases found
      rw [Fragment.check] at checked
      split_ifs at checked with holds
      exact holds
    · obtain ⟨p, pair, found⟩ := bind_ok found
      cases found
      exact pairRe_real pair checked

theorem tokens_real {n : Nat} {fs : List Fragment} (found : tokens U n s = .ok fs) (checked : fs.forM Fragment.check = .ok ()) :
    ∀ f ∈ fs, f.Real := by
  induction n generalizing s fs with
  | zero =>
    cases found
    exact fun f member => absurd member List.not_mem_nil
  | succ n ih =>
    cases s with
    | nil =>
      cases found
      exact fun f member => absurd member List.not_mem_nil
    | cons c s =>
      rw [tokens] at found
      obtain ⟨⟨f, rest⟩, first, found⟩ := bind_ok found
      obtain ⟨fs', later, found⟩ := bind_ok found
      cases found
      have each := forM_ok_iff.mp checked
      intro f' member
      rcases List.mem_cons.mp member with rfl | inside
      · exact token_real first (each _ List.mem_cons_self)
      · exact ih later (forM_ok_iff.mpr fun f inside => each f (List.mem_cons_of_mem _ inside)) f' inside

theorem compileHexsig_real {hexsig : Text} {fs : List Fragment} (compiled : compileHexsig U hexsig = .ok (some fs)) :
    ∀ f ∈ fs, f.Real := by
  unfold compileHexsig at compiled
  split at compiled
  · rename_i found
    cases compiled
    obtain ⟨fs', read, found⟩ := bind_ok found
    obtain ⟨u, checked, found⟩ := bind_ok found
    cases found
    exact tokens_real read checked
  · cases compiled
  · cases compiled
  · cases compiled

end real

end FfnNgfw.Antivirus
