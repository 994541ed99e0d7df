import FfnNgfw.Antivirus.Engine
import FfnNgfw.Antivirus.Language

/-!
# The window of an absolute offset

For a body signature at the offset `N` the fast path is told that a match ends within as many
bytes from `N` on as the text of the signature has pairs of digits. A gap takes a few
characters of the text whatever its size, so a match may end far behind the window.
-/

namespace FfnNgfw.Antivirus
open Threatdb (Text strip)
open SignatureDB (isdigit)

/-! ### The longest match -/

def Fragment.longest : Fragment → Option Nat
  | one _ => some 1
  | star => none
  | gap lo hi =>
    match literalBounds lo hi with
    | none => hi.map Int.toNat
    | some text => some ((literalBytes text).length + 1)
  | alt branches => some ((branches.map List.length).foldr max 0)
  | range _ _ => some 1

def longest : List Fragment → Option Nat
  | [] => some 0
  | f :: fs => do
    let n ← f.longest
    let m ← longest fs
    return n + m

section longest

variable {f : Fragment} {fs : List Fragment} {n : Nat} {w : List UInt8}

theorem le_foldr_max {ns : List Nat} (member : n ∈ ns) : n ≤ ns.foldr max 0 := by
  induction ns with
  | nil => cases member
  | cons m ns ih =>
    rw [List.foldr_cons]
    rcases List.mem_cons.mp member with rfl | later
    · exact Nat.le_max_left _ _
    · exact Nat.le_trans (ih later) (Nat.le_max_right _ _)

theorem foldr_max_mem {ns : List Nat} (some' : ns ≠ []) : ns.foldr max 0 ∈ ns := by
  induction ns with
  | nil => exact absurd rfl some'
  | cons m ns ih =>
    rw [List.foldr_cons]
    by_cases last : ns = []
    · subst last
      simp
    · rcases Nat.le_total m (ns.foldr max 0) with le | le
      · rw [Nat.max_eq_right le]
        exact List.mem_cons_of_mem m (ih last)
      · rw [Nat.max_eq_left le]
        exact List.mem_cons_self

theorem Fragment.longest_le (known : f.longest = some n) (member : w ∈ f.lang) : w.length ≤ n := by
  cases f with
  | one c =>
    cases known
    obtain ⟨b, -, rfl⟩ := member
    exact Nat.le_refl _
  | star => cases known
  | gap lo hi =>
    rw [Fragment.longest] at known
    split at known
    · rename_i plain
      obtain ⟨h, rfl, rfl⟩ := Option.map_eq_some_iff.mp known
      have fits := (mem_gap plain).mp member
      simp only [gapFits, Option.all_some, Bool.and_eq_true, decide_eq_true_eq] at fits
      omega
    · rename_i text literal
      cases known
      obtain ⟨b, rfl⟩ := (mem_literal literal).mp member
      exact Nat.le_refl _
  | alt branches =>
    cases known
    obtain ⟨cs, inside, fits⟩ := member
    rw [fits.length]
    exact le_foldr_max (List.mem_map_of_mem inside)
  | range lo hi =>
    cases known
    obtain ⟨b, -, rfl⟩ := member
    exact Nat.le_refl _

theorem fits_some {cs : List ByteClass} (real : ∀ c ∈ cs, c.Real) : ∃ w, Fits cs w := by
  induction cs with
  | nil => exact ⟨[], .nil⟩
  | cons c cs ih =>
    obtain ⟨b, here⟩ := real c List.mem_cons_self
    obtain ⟨w, fits⟩ := ih fun c member => real c (List.mem_cons_of_mem _ member)
    exact ⟨b :: w, .cons here fits⟩

theorem classByte_small {t rest : Text} {v : Nat} (first : classByte ('\\' :: t) = some (v, rest)) : v < 256 := by
  unfold classByte at first
  split at first
  · rename_i same
    cases same
  · split at first
    · obtain ⟨x, high, first⟩ := Option.bind_eq_some_iff.mp first
      obtain ⟨y, low, first⟩ := Option.bind_eq_some_iff.mp first
      cases first
      have one := Threatdb.hexDigit_bound high
      have two := Threatdb.hexDigit_bound low
      omega
    · cases first
  · rename_i plain same
    exact absurd (List.cons.inj same).1.symm plain

theorem rangeParts_some {lo hi : Int} {parts : List (Nat × Nat)} (known : rangeParts lo hi = some parts) :
    ∃ b, inParts parts b = true := by
  unfold rangeParts at known
  dsimp only at known
  obtain ⟨k, length⟩ : ∃ k, (bytePcre lo ++ '-' :: bytePcre hi).length = k + 1 := ⟨_, rfl⟩
  rw [length] at known
  have text : bytePcre lo ++ '-' :: bytePcre hi = '\\' :: ('x' :: hex2 lo ++ '-' :: bytePcre hi) := rfl
  rw [text, classParts] at known
  obtain ⟨⟨v, rest⟩, first, known⟩ := Option.bind_eq_some_iff.mp known
  have small : v < 256 := classByte_small first
  have start : ∃ h more, parts = (v, h) :: more ∧ v ≤ h := by
    dsimp only at known
    split at known
    · obtain ⟨⟨h, rest⟩, -, known⟩ := Option.bind_eq_some_iff.mp known
      dsimp only at known
      split at known
      · cases known
      · rename_i ordered
        obtain ⟨more, -, known⟩ := Option.bind_eq_some_iff.mp known
        cases known
        exact ⟨h, more, rfl, Nat.not_lt.mp ordered⟩
    · obtain ⟨more, -, known⟩ := Option.bind_eq_some_iff.mp known
      cases known
      exact ⟨v, more, rfl, Nat.le_refl v⟩
  obtain ⟨h, more, rfl, le⟩ := start
  refine ⟨UInt8.ofNat v, List.any_eq_true.mpr ⟨(v, h), List.mem_cons_self, ?_⟩⟩
  rw [byte_of v small, Bool.and_eq_true, decide_eq_true_eq, decide_eq_true_eq]
  exact ⟨Nat.le_refl v, le⟩

theorem Fragment.long_word (real : f.Real) (n : Nat) : ∃ w ∈ f.lang, (f.longest = none ∧ n ≤ w.length) ∨ f.longest = some w.length := by
  have zeros : ∀ k : Nat, (List.replicate k (0 : UInt8)).length = k := fun k => List.length_replicate
  cases f with
  | one c =>
    obtain ⟨b, here⟩ := real
    exact ⟨[b], ⟨b, here, rfl⟩, .inr rfl⟩
  | star => exact ⟨List.replicate n 0, trivial, .inl ⟨rfl, Nat.le_of_eq (zeros n).symm⟩⟩
  | gap lo hi =>
    rw [Fragment.longest]
    split
    · rename_i plain
      obtain ⟨natural, ordered⟩ := real plain
      cases hi with
      | none =>
        refine ⟨List.replicate (max n lo.toNat) 0, (mem_gap plain).mpr ?_, .inl ⟨rfl, ?_⟩⟩
        · rw [zeros]
          simp [gapFits]
        · rw [zeros]
          exact Nat.le_max_left _ _
      | some h =>
        have le := ordered h rfl
        refine ⟨List.replicate h.toNat 0, (mem_gap plain).mpr ?_, .inr ?_⟩
        · rw [zeros]
          simp [gapFits]
          omega
        · rw [zeros]
          rfl
    · rename_i text literal
      exact ⟨0 :: literalBytes text, (mem_literal literal).mpr ⟨0, rfl⟩, .inr rfl⟩
  | alt branches =>
    obtain ⟨some', each⟩ := real
    have inside : (branches.map List.length).foldr max 0 ∈ branches.map List.length := foldr_max_mem (List.map_eq_nil_iff.not.mpr some')
    obtain ⟨cs, member, same⟩ := List.mem_map.mp inside
    obtain ⟨w, fits⟩ := fits_some (each cs member)
    refine ⟨w, ⟨cs, member, fits⟩, .inr ?_⟩
    rw [fits.length, same]
    rfl
  | range lo hi =>
    obtain ⟨parts, known⟩ := Option.isSome_iff_exists.mp real
    obtain ⟨b, here⟩ := rangeParts_some known
    refine ⟨[b], ⟨b, ?_, rfl⟩, .inr rfl⟩
    rw [known]
    exact here

end longest

/-! ### The match object -/

section matched

variable {f : Fragment} {fs : List Fragment} {cs : List ByteClass} {data w rest : List UInt8} {m n : Nat}

theorem findSome_down {α : Type} {g : Nat → Option α} {len : Nat} {v : α} :
    (List.range (len + 1)).reverse.findSome? g = some v ↔
      ∃ k ≤ len, g k = some v ∧ ∀ j, k < j → j ≤ len → g j = none := by
  induction len with
  | zero =>
    have one : (List.range (0 + 1)).reverse = [0] := rfl
    rw [one, List.findSome?_cons]
    constructor
    · intro found
      cases here : g 0 with
      | none => simp [here] at found
      | some u => exact ⟨0, Nat.le_refl 0, by simpa [here] using found, fun j lower upper => absurd lower (by omega)⟩
    · rintro ⟨k, le, here, -⟩
      obtain rfl : k = 0 := Nat.le_zero.mp le
      rw [here]
  | succ len ih =>
    rw [List.range_succ, List.reverse_concat, List.findSome?_cons]
    cases here : g (len + 1) with
    | some u =>
      constructor
      · rintro ⟨rfl⟩
        exact ⟨len + 1, Nat.le_refl _, here, fun j lower upper => absurd lower (by omega)⟩
      · rintro ⟨k, le, there, above⟩
        by_cases top : k = len + 1
        · rw [← there, top, here]
        · rw [above (len + 1) (by omega) (Nat.le_refl _)] at here
          cases here
    | none =>
      refine ih.trans ⟨?_, ?_⟩
      · rintro ⟨k, le, there, above⟩
        refine ⟨k, by omega, there, fun j lower upper => ?_⟩
        by_cases top : j = len + 1
        · rw [top, here]
        · exact above j lower (by omega)
      · rintro ⟨k, le, there, above⟩
        refine ⟨k, ?_, there, fun j lower upper => above j lower (by omega)⟩
        by_contra top
        obtain rfl : k = len + 1 := by omega
        rw [here] at there
        cases there

theorem branchRest_some : branchRest cs data = some rest ↔ ∃ w, Fits cs w ∧ data = w ++ rest := by
  induction cs generalizing data with
  | nil =>
    constructor
    · rintro ⟨rfl⟩
      exact ⟨[], .nil, rfl⟩
    · rintro ⟨w, fits, rfl⟩
      cases fits
      rfl
  | cons c cs ih =>
    cases data with
    | nil =>
      constructor
      · rintro ⟨⟩
      · rintro ⟨w, fits, same⟩
        cases fits
        cases same
    | cons b data =>
      rw [branchRest]
      constructor
      · intro found
        split at found
        · rename_i here
          obtain ⟨w, fits, rfl⟩ := ih.mp found
          exact ⟨b :: w, .cons here fits, rfl⟩
        · cases found
      · rintro ⟨w, fits, same⟩
        cases fits with
        | cons here fits =>
          obtain ⟨rfl, rfl⟩ := List.cons.inj same
          rw [if_pos here]
          exact ih.mpr ⟨_, fits, rfl⟩

theorem matchEnd_cons_some (found : matchEnd (f :: fs) data = some m) :
    ∃ w rest m', data = w ++ rest ∧ w ∈ f.lang ∧ matchEnd fs rest = some m' ∧ m = w.length + m' := by
  have gap : ∀ k ≤ data.length, ∀ v, (matchEnd fs (data.drop k)).map (· + k) = some v → data.take k ∈ f.lang →
      ∃ w rest m', data = w ++ rest ∧ w ∈ f.lang ∧ matchEnd fs rest = some m' ∧ v = w.length + m' := by
    intro k le v found member
    obtain ⟨m', later, rfl⟩ := Option.map_eq_some_iff.mp found
    refine ⟨data.take k, data.drop k, m', (List.take_append_drop k data).symm, member, later, ?_⟩
    rw [List.length_take, Nat.min_eq_left le, Nat.add_comm]
  cases f with
  | one c | range lo hi =>
    cases data with
    | nil => cases found
    | cons b data =>
      rw [matchEnd] at found
      split at found
      · rename_i here
        obtain ⟨m', later, rfl⟩ := Option.map_eq_some_iff.mp found
        exact ⟨[b], data, m', rfl, ⟨b, here, rfl⟩, later, Nat.add_comm _ _⟩
      · cases found
  | star =>
    rw [matchEnd] at found
    obtain ⟨k, le, here, -⟩ := findSome_down.mp found
    exact gap k le m here trivial
  | gap lo hi =>
    rw [matchEnd] at found
    split at found
    · rename_i plain
      obtain ⟨k, le, here, -⟩ := findSome_down.mp found
      split at here
      · rename_i fits
        refine gap k le m here ((mem_gap plain).mpr ?_)
        rwa [List.length_take, Nat.min_eq_left le]
      · cases here
    · rename_i text literal
      split at found
      · rename_i begins
        rw [Bool.and_eq_true, decide_eq_true_eq, decide_eq_true_eq] at begins
        obtain ⟨b, data, rfl⟩ := List.exists_cons_of_ne_nil begins.1
        obtain ⟨rest, same⟩ := begins.2
        rw [List.drop_one, List.tail_cons] at same
        subst same
        refine gap _ (by simp) m found ((mem_literal literal).mpr ⟨b, ?_⟩)
        rw [List.take_succ_cons, List.take_left]
      · cases found
  | alt branches =>
    rw [matchEnd] at found
    obtain ⟨cs, inside, here⟩ := List.exists_of_findSome?_eq_some found
    obtain ⟨rest, taken, ends⟩ := Option.bind_eq_some_iff.mp here
    obtain ⟨w, fits, rfl⟩ := branchRest_some.mp taken
    obtain ⟨m', later, rfl⟩ := Option.map_eq_some_iff.mp ends
    exact ⟨w, rest, m', rfl, ⟨cs, inside, fits⟩, later, by rw [fits.length, Nat.add_comm]⟩

def Fragment.Even : Fragment → Prop
  | alt branches => ∀ cs ∈ branches, ∀ cs' ∈ branches, cs.length = cs'.length
  | _ => True

theorem findSome_above {α : Type} {g : Nat → Option α} {len k : Nat} {u : α} (le : k ≤ len) (there : g k = some u) :
    ∃ k' v, (List.range (len + 1)).reverse.findSome? g = some v ∧ k ≤ k' ∧ k' ≤ len ∧ g k' = some v := by
  cases found : (List.range (len + 1)).reverse.findSome? g with
  | none =>
    have nothing := List.findSome?_eq_none_iff.mp found k (List.mem_reverse.mpr (List.mem_range.mpr (by omega)))
    rw [there] at nothing
    cases nothing
  | some v =>
    obtain ⟨k', upper, here, above⟩ := findSome_down.mp found
    refine ⟨k', v, rfl, ?_, upper, here⟩
    by_contra lower
    rw [above k (by omega) le] at there
    cases there

/-- A word and what matches behind it match. The engine takes at least the word of a gap without
end, and exactly the longest word of a fragment whose branches have one length. -/
theorem matchEnd_word (member : w ∈ f.lang) (later : matchEnd fs rest = some n) :
    ∃ m, matchEnd (f :: fs) (w ++ rest) = some m ∧ (f.longest = none → w.length ≤ m) ∧
      (f.Even → f.longest = some w.length → m = w.length + n) := by
  have back : (matchEnd fs ((w ++ rest).drop w.length)).map (· + w.length) = some (n + w.length) := by
    rw [List.drop_left, later]
    rfl
  have inside : w.length ≤ (w ++ rest).length := by simp
  cases f with
  | one c =>
    obtain ⟨b, here, rfl⟩ := member
    refine ⟨n + 1, ?_, nofun, fun _ _ => Nat.add_comm _ _⟩
    rw [List.singleton_append, matchEnd, if_pos here, later]
    rfl
  | star =>
    obtain ⟨k, v, found, le, -, here⟩ :=
      @findSome_above _ (fun n => (matchEnd fs ((w ++ rest).drop n)).map (· + n)) _ _ _ inside back
    refine ⟨v, by rw [matchEnd]; exact found, fun _ => ?_, nofun⟩
    obtain ⟨m', -, rfl⟩ := Option.map_eq_some_iff.mp here
    omega
  | gap lo hi =>
    rw [Fragment.longest, matchEnd]
    cases plain : literalBounds lo hi with
    | none =>
      have fits := (mem_gap plain).mp member
      obtain ⟨k, v, found, le, -, here⟩ := @findSome_above _
        (fun n => if gapFits lo hi n then (matchEnd fs ((w ++ rest).drop n)).map (· + n) else none) _ _ _ inside
        ((if_pos fits).trans back)
      split at here
      · rename_i fits'
        refine ⟨v, found, fun _ => ?_, fun _ known => ?_⟩
        · obtain ⟨m', -, rfl⟩ := Option.map_eq_some_iff.mp here
          omega
        · obtain ⟨h, rfl, known⟩ := Option.map_eq_some_iff.mp known
          simp only [gapFits, Option.all_some, Bool.and_eq_true, decide_eq_true_eq] at fits'
          obtain rfl : k = w.length := by omega
          rw [back] at here
          rw [← Option.some.inj here, Nat.add_comm]
      · cases here
    | some text =>
      obtain ⟨b, rfl⟩ := (mem_literal plain).mp member
      refine ⟨_, (if_pos (by simp)).trans back, nofun, fun _ _ => Nat.add_comm _ _⟩
  | alt branches =>
    obtain ⟨cs, inside, fits⟩ := member
    rw [matchEnd]
    cases found : branches.findSome? fun cs => (branchRest cs (w ++ rest)).bind fun rest => (matchEnd fs rest).map (· + cs.length) with
    | none =>
      have nothing := List.findSome?_eq_none_iff.mp found cs inside
      rw [branchRest_some.mpr ⟨w, fits, rfl⟩, Option.bind_some, later] at nothing
      cases nothing
    | some m =>
      refine ⟨m, rfl, nofun, fun even _ => ?_⟩
      obtain ⟨cs', inside', here⟩ := List.exists_of_findSome?_eq_some found
      obtain ⟨rest', taken, ends⟩ := Option.bind_eq_some_iff.mp here
      obtain ⟨w', fits', same⟩ := branchRest_some.mp taken
      have length : w'.length = w.length := by rw [fits'.length, fits.length, even cs' inside' cs inside]
      obtain ⟨-, rfl⟩ := List.append_inj same.symm length
      rw [later] at ends
      rw [← Option.some.inj ends, ← fits'.length, length, Nat.add_comm]
  | range lo hi =>
    obtain ⟨b, here, rfl⟩ := member
    refine ⟨n + 1, ?_, nofun, fun _ _ => Nat.add_comm _ _⟩
    rw [List.singleton_append, matchEnd, if_pos here, later]
    rfl

theorem matchEnd_le (known : longest fs = some n) (found : matchEnd fs data = some m) : m ≤ n := by
  induction fs generalizing n m data with
  | nil =>
    cases known
    cases found
    exact Nat.le_refl _
  | cons f fs ih =>
    rw [longest] at known
    obtain ⟨k, first, known⟩ := Option.bind_eq_some_iff.mp known
    obtain ⟨l, later, known⟩ := Option.bind_eq_some_iff.mp known
    cases known
    obtain ⟨w, rest, m', -, member, found', rfl⟩ := matchEnd_cons_some found
    have one := Fragment.longest_le first member
    have two := ih later found'
    omega

theorem matchEnd_even (real : ∀ f ∈ fs, f.Real) (even : ∀ f ∈ fs, f.Even) (known : longest fs = some n) :
    ∃ data, matchEnd fs data = some n := by
  induction fs generalizing n with
  | nil =>
    cases known
    exact ⟨[], rfl⟩
  | cons f fs ih =>
    rw [longest] at known
    obtain ⟨k, first, known⟩ := Option.bind_eq_some_iff.mp known
    obtain ⟨l, later, known⟩ := Option.bind_eq_some_iff.mp known
    cases known
    obtain ⟨rest, found⟩ := ih (fun f member => real f (List.mem_cons_of_mem _ member))
        (fun f member => even f (List.mem_cons_of_mem _ member)) later
    obtain ⟨w, member, long⟩ := f.long_word (real f List.mem_cons_self) 0
    have length : f.longest = some w.length := by
      rcases long with ⟨open', -⟩ | length
      · rw [first] at open'
        cases open'
      · exact length
    obtain ⟨m, whole, -, exact'⟩ := matchEnd_word member found
    rw [exact' (even f List.mem_cons_self) length] at whole
    rw [first] at length
    rw [Option.some.inj length]
    exact ⟨w ++ rest, whole⟩

theorem matchEnd_real (real : ∀ f ∈ fs, f.Real) : ∃ data n, matchEnd fs data = some n := by
  induction fs with
  | nil => exact ⟨[], 0, rfl⟩
  | cons f fs ih =>
    obtain ⟨rest, n, found⟩ := ih fun f member => real f (List.mem_cons_of_mem _ member)
    obtain ⟨w, member, -⟩ := f.long_word (real f List.mem_cons_self) 0
    obtain ⟨m, whole, -⟩ := matchEnd_word member found
    exact ⟨w ++ rest, m, whole⟩

theorem Fragment.open_word (open' : f.longest = none) (member : w ∈ f.lang) (x : List UInt8) : x ++ w ∈ f.lang := by
  cases f with
  | star => trivial
  | gap lo hi =>
    rw [Fragment.longest] at open'
    split at open'
    · rename_i plain
      obtain rfl := Option.map_eq_none_iff.mp open'
      have fits := (mem_gap plain).mp member
      rw [mem_gap plain, List.length_append]
      simp only [gapFits, Option.all_none, Bool.and_true, decide_eq_true_eq] at fits ⊢
      omega
    · cases open'
  | one c => cases open'
  | alt branches => cases open'
  | range lo hi => cases open'

theorem matchEnd_open (real : ∀ f ∈ fs, f.Real) (known : longest fs = none) (bound few : Nat) :
    ∃ data, (∃ m, matchEnd fs data = some m) ∧ ∀ x : List UInt8, x.length ≤ few → ∀ m, matchEnd fs (x ++ data) = some m → bound ≤ m := by
  induction fs generalizing few with
  | nil => cases known
  | cons f fs ih =>
    have later := fun g member => real g (List.mem_cons_of_mem f member)
    obtain ⟨w, member, long⟩ := f.long_word (real f List.mem_cons_self) bound
    rcases long with ⟨open', long⟩ | length
    · obtain ⟨rest, n, found⟩ := matchEnd_real later
      obtain ⟨m, whole, -⟩ := matchEnd_word member found
      refine ⟨w ++ rest, ⟨m, whole⟩, fun x _ m' found' => ?_⟩
      obtain ⟨m'', whole', least, -⟩ := matchEnd_word (Fragment.open_word open' member x) found
      rw [List.append_assoc, found'] at whole'
      obtain rfl := Option.some.inj whole'
      have le := least open'
      rw [List.length_append] at le
      omega
    · have open' : longest fs = none := by
        rw [longest, length] at known
        cases rest : longest fs with
        | none => rfl
        | some l =>
          rw [rest] at known
          cases known
      obtain ⟨rest, ⟨n, found⟩, far⟩ := ih later open' (few + w.length)
      obtain ⟨m, whole, -⟩ := matchEnd_word member found
      refine ⟨w ++ rest, ⟨m, whole⟩, fun x short m' found' => ?_⟩
      obtain ⟨v, rest', n', split, front, behind, rfl⟩ := matchEnd_cons_some found'
      have le := Fragment.longest_le length front
      rw [← List.append_assoc] at split
      obtain ⟨y, rfl, rfl⟩ | ⟨x', inside, rfl⟩ := List.append_eq_append_iff.mp split
      · simp only [List.length_append] at le
        obtain rfl : y = [] := List.eq_nil_of_length_eq_zero (by omega)
        have reach := far [] (Nat.zero_le _) n' behind
        omega
      · have length := congrArg List.length inside
        simp only [List.length_append] at length
        have reach := far x' (by omega) n' behind
        omega

theorem branchRest_take {k : Nat} (enough : cs.length ≤ k) :
    branchRest cs (data.take k) = (branchRest cs data).map (List.take (k - cs.length)) := by
  induction cs generalizing data k with
  | nil => rfl
  | cons c cs ih =>
    rw [List.length_cons] at enough ⊢
    obtain ⟨k, rfl⟩ : ∃ j, k = j + 1 := ⟨k - 1, by omega⟩
    cases data with
    | nil => rfl
    | cons b data =>
      rw [List.take_succ_cons, branchRest, branchRest, ih (by omega), Nat.add_sub_add_right]
      split <;> rfl

theorem matchEnd_take (known : longest fs = some n) {k : Nat} (enough : n ≤ k) : matchEnd fs (data.take k) = matchEnd fs data := by
  induction fs generalizing n k data with
  | nil => rfl
  | cons f fs ih =>
    rw [longest] at known
    obtain ⟨l, first, known⟩ := Option.bind_eq_some_iff.mp known
    obtain ⟨n, later, known⟩ := Option.bind_eq_some_iff.mp known
    cases known
    have behind : ∀ j ≤ l, matchEnd fs ((data.take k).drop j) = matchEnd fs (data.drop j) := by
      intro j le
      rw [List.drop_take]
      exact ih later (by omega)
    cases f with
    | one c | range lo hi =>
      cases first
      obtain ⟨k, rfl⟩ : ∃ j, k = j + 1 := ⟨k - 1, by omega⟩
      cases data with
      | nil => rfl
      | cons b data => rw [List.take_succ_cons, matchEnd, matchEnd, ih later (by omega)]
    | star => cases first
    | gap lo hi =>
      rw [Fragment.longest] at first
      rw [matchEnd, matchEnd]
      cases plain : literalBounds lo hi with
      | none =>
        rw [plain] at first
        obtain ⟨h, rfl, rfl⟩ := Option.map_eq_some_iff.mp first
        have small : ∀ j : Nat, gapFits lo (some h) j = true → j ≤ h.toNat := by
          intro j fits
          simp only [gapFits, Option.all_some, Bool.and_eq_true, decide_eq_true_eq] at fits
          omega
        have same : ∀ j, (if gapFits lo (some h) j then (matchEnd fs ((data.take k).drop j)).map (· + j) else none) =
            if gapFits lo (some h) j then (matchEnd fs (data.drop j)).map (· + j) else none := by
          intro j
          split
          · rename_i fits
            rw [behind j (small j fits)]
          · rfl
        refine Option.ext fun v => ?_
        dsimp only
        simp only [same]
        rw [findSome_down, findSome_down, List.length_take]
        constructor
        · rintro ⟨j, le, here, above⟩
          refine ⟨j, by omega, here, fun i lower upper => ?_⟩
          by_cases far : i ≤ k
          · exact above i lower (by omega)
          · exact if_neg fun fits => absurd (small i fits) (by omega)
        · rintro ⟨j, le, here, above⟩
          refine ⟨j, ?_, here, fun i lower upper => above i lower (by omega)⟩
          split at here
          · rename_i fits
            have := small j fits
            omega
          · cases here
      | some text =>
        rw [plain] at first
        cases first
        dsimp only
        rw [behind _ (Nat.le_refl _)]
        obtain ⟨k, rfl⟩ : ∃ j, k = j + 1 := ⟨k - 1, by omega⟩
        cases data with
        | nil => rfl
        | cons b data =>
          have begins : literalBytes text <+: data.take k ↔ literalBytes text <+: data := by
            rw [List.prefix_take_iff]
            exact and_iff_left (by omega)
          simp [begins]
    | alt branches =>
      cases first
      rw [matchEnd, matchEnd, ← List.head?_filterMap, ← List.head?_filterMap]
      refine congrArg List.head? (List.filterMap_congr fun cs inside => ?_)
      have le : cs.length ≤ (branches.map List.length).foldr max 0 := le_foldr_max (List.mem_map_of_mem inside)
      rw [branchRest_take (by omega)]
      cases branchRest cs data with
      | none => rfl
      | some rest =>
        rw [Option.map_some, Option.bind_some, Option.bind_some, ih later (by omega)]

theorem matchPrefix_of_matchEnd (found : matchEnd fs data = some m) : matchPrefix fs data = true := by
  induction fs generalizing data m with
  | nil => rfl
  | cons f fs ih =>
    obtain ⟨w, rest, m', rfl, member, later, -⟩ := matchEnd_cons_some found
    have behind := ih later
    have gap : matchPrefix fs ((w ++ rest).drop w.length) = true := by rwa [List.drop_left]
    have inside : w.length ∈ List.range ((w ++ rest).length + 1) := by
      rw [List.mem_range, List.length_append]
      omega
    cases f with
    | one c =>
      obtain ⟨b, here, rfl⟩ := member
      exact (Bool.and_eq_true _ _).mpr ⟨here, behind⟩
    | star => exact List.any_eq_true.mpr ⟨_, inside, gap⟩
    | gap lo hi =>
      rw [matchPrefix]
      cases plain : literalBounds lo hi with
      | none => exact List.any_eq_true.mpr ⟨_, inside, (Bool.and_eq_true _ _).mpr ⟨(mem_gap plain).mp member, gap⟩⟩
      | some text =>
        obtain ⟨b, rfl⟩ := (mem_literal plain).mp member
        simpa using gap
    | alt branches =>
      obtain ⟨cs, chosen, fits⟩ := member
      refine List.any_eq_true.mpr ⟨cs, chosen, ?_⟩
      rw [branchRest_some.mpr ⟨w, fits, rfl⟩]
      exact behind
    | range lo hi =>
      obtain ⟨b, here, rfl⟩ := member
      exact (Bool.and_eq_true _ _).mpr ⟨here, behind⟩

end matched

/-- The text of an offset that is the number `N`. -/
structure AbsoluteOffset (U : Unicode) (offset : Text) (N : Int) : Prop where
  given : ¬(strip (if offset = [] then ['*'] else offset) = ['*'] ∨ strip (if offset = [] then ['*'] else offset) = [])
  relative : ¬("EP".toList <+: strip (if offset = [] then ['*'] else offset) ∨
    "S".toList <+: strip (if offset = [] then ['*'] else offset))
  fromEnd : ¬"EOF-".toList <+: strip (if offset = [] then ['*'] else offset)
  digits : isdigit U (lstripDash (strip (if offset = [] then ['*'] else offset))) = true
  value : U.int 10 (strip (if offset = [] then ['*'] else offset)) = .ok N

section window

variable {U : Unicode} {offset hexsig : Text} {fs : List Fragment} {N : Int} {data : List UInt8}

theorem AbsoluteOffset.ext (absolute : AbsoluteOffset U offset N) (patlen : Nat) :
    clamavOffsetExt U offset patlen = .ok (N, N + (max patlen 1 : Nat), false) := by
  have relative := absolute.relative
  unfold clamavOffsetExt
  dsimp only
  rw [if_neg absolute.given, if_neg relative, if_neg absolute.fromEnd, if_pos absolute.digits, absolute.value]
  rfl

theorem AbsoluteOffset.engine (absolute : AbsoluteOffset U offset N) (rx : List Fragment) (data : List UInt8) :
    offsetMatch U rx data offset = .ok (matchAt rx data N) := by
  have given := absolute.given
  have relative := absolute.relative
  rw [not_or] at given relative
  unfold offsetMatch
  dsimp only
  rw [if_neg (by simp only [given, relative, or_self, not_false_eq_true]), if_neg absolute.fromEnd,
    if_pos absolute.digits, absolute.value]
  rfl

/-- The match object of the engine on the file ends at `fin`. -/
def MatchesTo (U : Unicode) (fs : List Fragment) (offset : Text) (data : List UInt8) (fin : Nat) : Prop :=
  ∃ start n, offsetMatch U fs data offset = .ok (some start) ∧ matchEnd fs (data.drop start) = some n ∧ fin = start + n

/-- `(41|4142){5}` -/
def shortBranch : List Fragment := [.alt [[.byte 0x41], [.byte 0x41, .byte 0x42]], .gap 5 (some 5)]

end window

end FfnNgfw.Antivirus
