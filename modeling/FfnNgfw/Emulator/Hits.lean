import FfnNgfw.Detect.AhoCorasick
import FfnNgfw.Emulator.Dfa
import FfnNgfw.Lib.Dict

/-!
# The hits of the emulator

The table walk is started at every byte that no match covers. The automaton of the literal
patterns yields where an occurrence ends, and the emulator counts back by the length that it
keeps for the tag: there is one length for a tag, that of the pattern loaded last.
-/

namespace FfnNgfw.Emulator
open Threatdb (Text)
open Detect (AhoCorasick AcError)

/-- Matches in order, apart from each other, none empty, and none missed that starts outside of them. -/
structure Spans (dfa : Dfa) (data : List UInt8) (spans : List (Nat × Nat)) : Prop where
  ordered : spans.Pairwise fun a b => a.2 ≤ b.1
  nonempty : ∀ span ∈ spans, span.1 < span.2 ∧ span.2 ≤ data.length
  found : ∀ span ∈ spans, dfa.matchAt data span.1 = span.2
  leftmost : ∀ i < data.length, (∀ span ∈ spans, ¬(span.1 ≤ i ∧ i < span.2)) → dfa.matchAt data i ≤ i

section spans

variable {dfa : Dfa} {data : List UInt8} {i n : Nat}

theorem walk_bounds {k j : Nat} {last : Int} (low : last ≤ j) : dfa.walk k last j data ≤ ((j + data.length : Nat) : Int) := by
  induction data generalizing k j last with
  | nil => exact low
  | cons b data ih =>
    rw [Dfa.walk, List.length_cons]
    split
    · omega
    · have later : ∀ k' last', last' ≤ ((j + 1 : Nat) : Int) → dfa.walk k' last' (j + 1) data ≤ ((j + 1 + data.length : Nat) : Int) :=
        fun k' last' low => ih low
      have bound := later (dfa.next k b).toNat (if (dfa.next k b).toNat ∈ dfa.accept then ((j + 1 : Nat) : Int) else last)
          (by split <;> omega)
      dsimp only
      omega

theorem matchAt_bounds (inside : i < data.length) : dfa.matchAt data i ≤ (data.length : Int) := by
  have bound : dfa.matchAt data i ≤ ((i + (data.drop i).length : Nat) : Int) := walk_bounds (by split <;> omega)
  rw [List.length_drop] at bound
  omega

theorem findFrom_spans (enough : data.length ≤ n + i) :
    (∀ span ∈ dfa.findFrom data n i, i ≤ span.1) ∧ (dfa.findFrom data n i).Pairwise (fun a b => a.2 ≤ b.1) ∧
      (∀ span ∈ dfa.findFrom data n i, span.1 < span.2 ∧ span.2 ≤ data.length) ∧
      (∀ span ∈ dfa.findFrom data n i, dfa.matchAt data span.1 = span.2) ∧
      ∀ k, i ≤ k → k < data.length → (∀ span ∈ dfa.findFrom data n i, ¬(span.1 ≤ k ∧ k < span.2)) → dfa.matchAt data k ≤ k := by
  induction n generalizing i with
  | zero =>
    refine ⟨fun _ member => absurd member List.not_mem_nil, .nil, fun _ member => absurd member List.not_mem_nil,
      fun _ member => absurd member List.not_mem_nil, fun k lower upper => ?_⟩
    omega
  | succ n ih =>
    rw [Dfa.findFrom]
    split
    · rename_i inside
      dsimp only
      split
      · rename_i longer
        have upper : dfa.matchAt data i ≤ (data.length : Int) := matchAt_bounds inside
        have fin : ((dfa.matchAt data i).toNat : Int) = dfa.matchAt data i := by omega
        obtain ⟨starts, ordered, nonempty, found, leftmost⟩ := @ih (dfa.matchAt data i).toNat (by omega)
        refine ⟨fun span member => ?_, List.pairwise_cons.mpr ⟨starts, ordered⟩, fun span member => ?_,
          fun span member => ?_, fun k lower upper free => ?_⟩
        · rcases List.mem_cons.mp member with rfl | later
          · exact Nat.le_refl i
          · have start := starts span later
            omega
        · rcases List.mem_cons.mp member with rfl | later
          · show i < (dfa.matchAt data i).toNat ∧ (dfa.matchAt data i).toNat ≤ data.length
            omega
          · exact nonempty span later
        · rcases List.mem_cons.mp member with rfl | later
          · exact fin.symm
          · exact found span later
        · have outside : ¬(i ≤ k ∧ k < (dfa.matchAt data i).toNat) := free _ List.mem_cons_self
          exact leftmost k (by omega) upper fun span later => free span (List.mem_cons_of_mem _ later)
      · rename_i short
        obtain ⟨starts, ordered, nonempty, found, leftmost⟩ := @ih (i + 1) (by omega)
        refine ⟨fun span member => Nat.le_of_succ_le (starts span member), ordered, nonempty, found, fun k lower upper free => ?_⟩
        by_cases here : k = i
        · subst here
          exact Int.not_lt.mp short
        · exact leftmost k (by omega) upper free
    · refine ⟨fun _ member => absurd member List.not_mem_nil, .nil, fun _ member => absurd member List.not_mem_nil,
        fun _ member => absurd member List.not_mem_nil, fun k lower upper => ?_⟩
      omega

theorem findAll_spans (dfa : Dfa) (data : List UInt8) : Spans dfa data (dfa.findAll data) := by
  obtain ⟨-, ordered, nonempty, found, leftmost⟩ := @findFrom_spans dfa data 0 data.length (Nat.le_refl _)
  exact ⟨ordered, nonempty, found, fun k inside => leftmost k (Nat.zero_le k) inside⟩

end spans

/-! ### `load_ac` and `_scan_ac` -/

inductive Which where
  | ac
  | dfa
  deriving DecidableEq

structure EmuMatch (τ : Type) where
  tag : τ
  sid : Option Int
  offset : Int
  engine : Text
  which : Which
  fin : Int := 0

section hits

variable {τ : Type} [DecidableEq τ]

structure Loading (τ : Type) where
  ac : AhoCorasick τ := {}
  patlen : Dict τ Nat := ∅
  loaded : Nat := 0

def loadPattern (st : Loading τ) (p : List UInt8 × τ) : Except AcError (Loading τ) :=
  if p.1 = [] then .ok st
  else (st.ac.add p.1 p.2).map fun ac => { ac, patlen := st.patlen.assign p.2 p.1.length, loaded := st.loaded + 1 }

structure FpgaEmulator (τ : Type) where
  ac : Option (AhoCorasick τ) := none
  acEngine : Text := "dpi_l7".toList
  acPatlen : Dict τ Nat := ∅
  acLoaded : Nat := 0

/-- There is no result when a pattern is refused or when the bound on the rounds of `build` is too small. -/
def FpgaEmulator.loadAc (fuel : Nat) (emu : FpgaEmulator τ) (patterns : List (List UInt8 × τ)) : Option (FpgaEmulator τ) :=
  match patterns.foldlM loadPattern ({} : Loading τ) with
  | .error _ => none
  | .ok st => (st.ac.build fuel).map fun ac =>
    { emu with ac := if st.loaded = 0 then none else some ac, acPatlen := st.patlen, acLoaded := st.loaded }

/-- One occurrence that ends at the byte `fin`. -/
def FpgaEmulator.hit (deriveSid : τ → Option Int) (emu : FpgaEmulator τ) (fin : Nat) (tag : τ) : EmuMatch τ :=
  let plen := (emu.acPatlen.lookup tag).getD 0
  let start : Int := if plen ≠ 0 then (fin : Int) - plen + 1 else fin
  { tag, sid := deriveSid tag, offset := start, engine := emu.acEngine, which := .ac, fin := fin + 1 }

def FpgaEmulator.scanAc (deriveSid : τ → Option Int) (fuel : Nat) (emu : FpgaEmulator τ) (data : List UInt8) :
    Option (List (EmuMatch τ)) :=
  match emu.ac with
  | none => some []
  | some ac => (ac.iterMatches fuel data).map fun found => found.map fun e => emu.hit deriveSid e.1 e.2

def clip (size : Nat) (i : Int) : Nat := if i < 0 then (i + size).toNat else i.toNat

/-- `data[start:stop]` -/
def pySlice (data : List UInt8) (start stop : Int) : List UInt8 := (data.take (clip data.length stop)).drop (clip data.length start)

/-- The length that is kept for the tag: of the last pattern that is loaded for it. -/
def lastLength (patterns : List (List UInt8 × τ)) (tag : τ) : Nat :=
  (((patterns.filter fun p => p.1 ≠ [] ∧ p.2 = tag).getLast?).map fun p => p.1.length).getD 0

def EmuMatch.Real (patterns : List (List UInt8 × τ)) (data : List UInt8) (m : EmuMatch τ) : Prop :=
  (pySlice data m.offset m.fin, m.tag) ∈ patterns ∧ pySlice data m.offset m.fin ≠ []

theorem lastLength_concat (patterns : List (List UInt8 × τ)) (p : List UInt8 × τ) (tag : τ) :
    lastLength (patterns ++ [p]) tag = if p.1 ≠ [] ∧ p.2 = tag then p.1.length else lastLength patterns tag := by
  unfold lastLength
  rw [List.filter_append]
  split
  · rename_i loaded
    rw [List.filter_cons_of_pos (by simpa using loaded), List.filter_nil, List.getLast?_concat]
    rfl
  · rename_i skipped
    rw [List.filter_cons_of_neg (by simpa using skipped), List.filter_nil, List.append_nil]

theorem loadPattern_all (patterns : List (List UInt8 × τ)) :
    ∃ st, patterns.foldlM loadPattern ({} : Loading τ) = .ok st ∧ AhoCorasick.addAll {} (patterns.filter fun p => p.1 ≠ []) = .ok st.ac ∧
      (∀ tag, (st.patlen.lookup tag).getD 0 = lastLength patterns tag) ∧ st.loaded = (patterns.filter fun p => p.1 ≠ []).length := by
  induction patterns using List.reverseRecOn with
  | nil => exact ⟨{}, rfl, rfl, fun tag => rfl, rfl⟩
  | append_singleton patterns p ih =>
    obtain ⟨st, folded, added, lengths, count⟩ := ih
    rw [List.foldlM_append, folded, List.filter_append]
    by_cases empty : p.1 = []
    · refine ⟨st, ?_, ?_, fun tag => ?_, ?_⟩
      · show (loadPattern st p >>= pure) = _
        rw [loadPattern, if_pos empty]
        rfl
      · rw [List.filter_cons_of_neg (by simpa using empty), List.filter_nil, List.append_nil, added]
      · rw [lastLength_concat, if_neg (by simp [empty]), lengths]
      · rw [List.filter_cons_of_neg (by simpa using empty), List.filter_nil, List.append_nil, count]
    · have open' : st.ac.built = false := by
        rw [AhoCorasick.addAll_nodes _ (fun q t member => by simpa using (List.mem_filter.mp member).2) {} rfl] at added
        rw [← Except.ok.inj added]
      obtain ⟨ac, next⟩ : ∃ ac, st.ac.add p.1 p.2 = .ok ac := ⟨_, by simp [AhoCorasick.add, open', empty]; rfl⟩
      refine ⟨{ ac, patlen := st.patlen.assign p.2 p.1.length, loaded := st.loaded + 1 }, ?_, ?_, fun tag => ?_, ?_⟩
      · show (loadPattern st p >>= pure) = _
        rw [loadPattern, if_neg empty, next]
        rfl
      · rw [List.filter_cons_of_pos (by simpa using empty), List.filter_nil, AhoCorasick.addAll, List.foldlM_append]
        rw [AhoCorasick.addAll] at added
        rw [added]
        show (st.ac.add p.1 p.2 >>= pure) = _
        rw [next]
        rfl
      · rw [lastLength_concat, Dict.lookup_assign]
        by_cases same : tag = p.2
        · subst same
          rw [if_pos rfl, if_pos ⟨empty, rfl⟩]
          rfl
        · rw [if_neg same, if_neg fun both => same both.2.symm, lengths]
      · rw [List.filter_cons_of_pos (by simpa using empty), List.filter_nil, List.length_append, List.length_singleton, count]

omit [DecidableEq τ] in
theorem mem_kept {patterns : List (List UInt8 × τ)} {p : List UInt8} {t : τ} :
    (p, t) ∈ (patterns.filter fun p => p.1 ≠ []) ↔ (p, t) ∈ patterns ∧ p ≠ [] := by
  rw [List.mem_filter, decide_eq_true_eq]

theorem scanAc_hits (deriveSid : τ → Option Int) (emu : FpgaEmulator τ) (patterns : List (List UInt8 × τ)) (data : List UInt8) :
    ∃ enough, ∀ fuel, enough ≤ fuel → ∃ emu' hits, emu.loadAc fuel patterns = some emu' ∧ emu'.scanAc deriveSid fuel data = some hits ∧
      (∀ t, (emu'.acPatlen.lookup t).getD 0 = lastLength patterns t) ∧
      ∀ m, m ∈ hits ↔ ∃ i t, emu'.hit deriveSid i t = m ∧ i < data.length ∧ ∃ p, (p, t) ∈ patterns ∧ p ≠ [] ∧
        p <:+ data.take (i + 1) := by
  obtain ⟨st, folded, added, lengths, count⟩ := loadPattern_all patterns
  obtain ⟨ac, added', enough, ends⟩ := AhoCorasick.iter_matches_exact (patterns.filter fun p => p.1 ≠ [])
      (fun p t member => (mem_kept.mp member).2) data
  rw [added] at added'
  obtain rfl := Except.ok.inj added'
  refine ⟨enough, fun fuel le => ?_⟩
  obtain ⟨built, found, done, scanned, -, perm⟩ := ends fuel le
  have occurs : ∀ i t, (i, t) ∈ found ↔ i < data.length ∧ ∃ p, (p, t) ∈ patterns ∧ p ≠ [] ∧ p <:+ data.take (i + 1) := by
    intro i t
    rw [perm.mem_iff, Automaton.mem_occurrences]
    refine and_congr_right fun _ => exists_congr fun p => ?_
    rw [mem_kept, and_assoc]
  by_cases none' : st.loaded = 0
  · refine ⟨{ emu with ac := none, acPatlen := st.patlen, acLoaded := st.loaded }, [], ?_, rfl, lengths, fun m => ?_⟩
    · rw [FpgaEmulator.loadAc, folded]
      dsimp only
      rw [done, Option.map_some, if_pos none']
    · refine ⟨fun member => absurd member List.not_mem_nil, ?_⟩
      rintro ⟨i, t, -, -, p, member, some', -⟩
      rw [count] at none'
      have empty := List.eq_nil_of_length_eq_zero none'
      have kept := mem_kept.mpr ⟨member, some'⟩
      rw [empty] at kept
      exact absurd kept List.not_mem_nil
  · refine ⟨{ emu with ac := some built, acPatlen := st.patlen, acLoaded := st.loaded },
      found.map fun e => FpgaEmulator.hit deriveSid
        { emu with ac := some built, acPatlen := st.patlen, acLoaded := st.loaded } e.1 e.2, ?_, ?_, lengths, fun m => ?_⟩
    · rw [FpgaEmulator.loadAc, folded]
      dsimp only
      rw [done, Option.map_some, if_neg none']
    · show (built.iterMatches fuel data).map _ = _
      rw [scanned]
      rfl
    · rw [List.mem_map]
      constructor
      · rintro ⟨⟨i, t⟩, member, rfl⟩
        exact ⟨i, t, rfl, (occurs i t).mp member⟩
      · rintro ⟨i, t, rfl, occurrence⟩
        exact ⟨(i, t), (occurs i t).mpr occurrence, rfl⟩

theorem lastLength_pos {patterns : List (List UInt8 × τ)} {p : List UInt8} {t : τ} (member : (p, t) ∈ patterns) (some' : p ≠ []) :
    0 < lastLength patterns t := by
  have listed : (p, t) ∈ patterns.filter fun p => p.1 ≠ [] ∧ p.2 = t := List.mem_filter.mpr ⟨member, by simpa using some'⟩
  unfold lastLength
  cases last : (patterns.filter fun p => p.1 ≠ [] ∧ p.2 = t).getLast? with
  | none =>
    rw [List.getLast?_eq_none_iff.mp last] at listed
    cases listed
  | some q =>
    have loaded := (List.mem_filter.mp (List.mem_of_getLast? last)).2
    rw [decide_eq_true_eq] at loaded
    exact List.length_pos_of_ne_nil loaded.1

theorem hit_slice {deriveSid : τ → Option Int} {emu : FpgaEmulator τ} {data : List UInt8} {i ℓ : Nat} {t : τ}
    (length : (emu.acPatlen.lookup t).getD 0 = ℓ) (positive : 0 < ℓ) (inside : i < data.length) :
    (ℓ ≤ i + 1 → pySlice data (emu.hit deriveSid i t).offset (emu.hit deriveSid i t).fin = (data.take (i + 1)).drop (i + 1 - ℓ)) ∧
      (i + 1 < ℓ → data.length = ℓ → pySlice data (emu.hit deriveSid i t).offset (emu.hit deriveSid i t).fin = []) := by
  have offset : (emu.hit deriveSid i t).offset = (i : Int) - ℓ + 1 := by
    show (if (emu.acPatlen.lookup t).getD 0 ≠ 0 then _ else _) = _
    rw [length, if_pos (by omega)]
  have fin : (emu.hit deriveSid i t).fin = (i : Int) + 1 := rfl
  have stop : clip data.length ((i : Int) + 1) = i + 1 := by
    rw [clip, if_neg (by omega)]
    omega
  rw [offset, fin, pySlice, stop]
  constructor
  · intro fits
    have start : clip data.length ((i : Int) - ℓ + 1) = i + 1 - ℓ := by
      rw [clip, if_neg (by omega)]
      omega
    rw [start]
  · intro short size
    have start : clip data.length ((i : Int) - ℓ + 1) = i + 1 := by
      rw [clip, if_pos (by omega)]
      omega
    rw [start]
    apply List.drop_eq_nil_of_le
    rw [List.length_take]
    omega

theorem suffix_drop {p whole : List UInt8} {ℓ : Nat} (ends : p <:+ whole) (le : ℓ ≤ p.length) :
    whole.drop (whole.length - ℓ) = p.drop (p.length - ℓ) := by
  obtain ⟨front, rfl⟩ := ends
  have cut : (front ++ p).length - ℓ = front.length + (p.length - ℓ) := by
    rw [List.length_append]
    omega
  rw [cut, List.drop_length_add_append]

/-- The hits are real, and the matches of every table in order and complete, exactly when every loaded
pattern ends with a loaded pattern of its tag that has the length of the last one. -/
theorem hits_real_iff (deriveSid : τ → Option Int) (emu : FpgaEmulator τ) (patterns : List (List UInt8 × τ)) :
    ((∀ data, ∃ enough, ∀ fuel, enough ≤ fuel → ∃ emu' hits, emu.loadAc fuel patterns = some emu' ∧
        emu'.scanAc deriveSid fuel data = some hits ∧ ∀ m ∈ hits, m.Real patterns data) ∧
      ∀ (dfa : Dfa) (data : List UInt8), Spans dfa data (dfa.findAll data)) ↔
      ∀ p t, (p, t) ∈ patterns → p ≠ [] → lastLength patterns t ≤ p.length ∧
        (p.drop (p.length - lastLength patterns t), t) ∈ patterns := by
  constructor
  · rintro ⟨real, -⟩ p t member some'
    have positive := lastLength_pos member some'
    have positive' := List.length_pos_of_ne_nil some'
    have hit : ∀ data : List UInt8, p <+: data → ∃ emu' : FpgaEmulator τ, (emu'.acPatlen.lookup t).getD 0 = lastLength patterns t ∧
        (emu'.hit deriveSid (p.length - 1) t).Real patterns data := by
      intro data front
      obtain ⟨enough, ends⟩ := scanAc_hits deriveSid emu patterns data
      obtain ⟨enough', real'⟩ := real data
      obtain ⟨emu', hits, loaded, scanned, lengths, members⟩ := ends (max enough enough') (Nat.le_max_left _ _)
      obtain ⟨emu'', hits', loaded', scanned', each⟩ := real' (max enough enough') (Nat.le_max_right _ _)
      obtain rfl := Option.some.inj (loaded.symm.trans loaded')
      obtain rfl := Option.some.inj (scanned.symm.trans scanned')
      have size := front.length_le
      have ending : p <:+ data.take (p.length - 1 + 1) := by
        rw [Nat.sub_add_cancel positive', ← List.prefix_iff_eq_take.mp front]
      have listed := (members (emu'.hit deriveSid (p.length - 1) t)).mpr ⟨_, t, rfl, by omega, p, member, some', ending⟩
      exact ⟨emu', lengths t, each _ listed⟩
    by_cases fits : lastLength patterns t ≤ p.length
    · obtain ⟨emu', length, hitReal⟩ := hit p (List.prefix_refl p)
      have slice := (@hit_slice τ _ deriveSid emu' p (p.length - 1) _ t length positive (by omega)).1 (by omega)
      rw [Nat.sub_add_cancel positive', List.take_length] at slice
      rw [EmuMatch.Real, slice] at hitReal
      exact ⟨fits, hitReal.1⟩
    · -- filled up to the length that is kept, the bytes of the hit are none
      have size : (p ++ List.replicate (lastLength patterns t - p.length) 0).length = lastLength patterns t := by
        rw [List.length_append, List.length_replicate]
        omega
      obtain ⟨emu', length, hitReal⟩ := hit _ (List.prefix_append p _)
      have slice := (@hit_slice τ _ deriveSid emu' (p ++ List.replicate (lastLength patterns t - p.length) 0)
          (p.length - 1) _ t length positive (by omega)).2
        (by omega) size
      exact absurd slice hitReal.2
  · intro good
    refine ⟨fun data => ?_, fun dfa data => findAll_spans dfa data⟩
    obtain ⟨enough, ends⟩ := scanAc_hits deriveSid emu patterns data
    refine ⟨enough, fun fuel le => ?_⟩
    obtain ⟨emu', hits, loaded, scanned, lengths, members⟩ := ends fuel le
    refine ⟨emu', hits, loaded, scanned, fun m listed => ?_⟩
    obtain ⟨i, t, rfl, inside, p, member, some', suffix⟩ := (members m).mp listed
    have positive := lastLength_pos member some'
    obtain ⟨fits, shorter⟩ := good p t member some'
    have size := suffix.length_le
    rw [List.length_take] at size
    have slice := (@hit_slice τ _ deriveSid emu' data i _ t (lengths t) positive inside).1 (by omega)
    have cut := suffix_drop suffix fits
    rw [List.length_take, Nat.min_eq_left (by omega)] at cut
    rw [EmuMatch.Real, slice, cut]
    refine ⟨shorter, fun empty => ?_⟩
    have short := List.drop_eq_nil_iff.mp empty
    omega

/-- `ab` and `abc` with one tag -/
def sharedTag : List (List UInt8 × Nat) := [([0x61, 0x62], 7), ([0x61, 0x62, 0x63], 7)]

/-- `xab` -/
def sharedData : List UInt8 := [0x78, 0x61, 0x62]

/-- The hit of `ab` in `xab` starts at the byte before it. -/
theorem shared_tag_hit : ∃ (emu : FpgaEmulator Nat) (hits : List (EmuMatch Nat)) (m : EmuMatch Nat),
    ({} : FpgaEmulator Nat).loadAc 8 sharedTag = some emu ∧
      emu.scanAc (fun tag : Nat => some (tag : Int)) 8 sharedData = some hits ∧ m ∈ hits ∧ ¬m.Real sharedTag sharedData := by
  have found : ((({} : FpgaEmulator Nat).loadAc 8 sharedTag).bind fun emu =>
      emu.scanAc (fun tag : Nat => some (tag : Int)) 8 sharedData).any
      (fun hits => hits.any fun m => (pySlice sharedData m.offset m.fin, m.tag) ∉ sharedTag) = true := by decide +kernel
  obtain ⟨hits, scanned, listed⟩ := (Option.any_eq_true _ _).mp found
  obtain ⟨emu, loaded, scanned⟩ := Option.bind_eq_some_iff.mp scanned
  obtain ⟨m, member, unreal⟩ := List.any_eq_true.mp listed
  exact ⟨emu, hits, m, loaded, scanned, member, fun real => of_decide_eq_true unreal real.1⟩

end hits

end FfnNgfw.Emulator
