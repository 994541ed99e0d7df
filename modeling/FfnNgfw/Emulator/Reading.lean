import FfnNgfw.Emulator.Fragments
import Mathlib.Data.Bool.AllAny

/-!
# What the parser reads

A call of the parser that succeeds on a text that scans has read a part of a pattern and has
built a fragment of its language, as soon as the sets of the automaton are below 256. The six
functions call each other, so one induction on the bound of the calls goes over all of them.
-/

namespace FfnNgfw.Emulator
open Threatdb (Text)

/-- Without the brace and the negated class, which the emulator does not hand to the parser. -/
def Tame (t : Text) : Prop := '{' ∉ t ∧ ¬['[', '^'] <:+: t

def Ready (t : Text) : Prop := ∀ c, t.head? = some c → c ∉ quantifiers

def Nfa.Low (nfa : Nfa) : Prop := ∀ q bs t, (bs, t) ∈ nfa.sym q → Emulator.Low bs

/-- A call has taken the text from `t` to `t'` and has built the fragment of what it read. -/
def Got (k : Level) (t t' : Text) (nfa nfa' : Nfa) (frag : Frag) : Prop :=
  ∃ u L, t = u ++ t' ∧ Built nfa nfa' frag L ∧ (nfa'.Low → ∃ r, Reads k u r ∧ r.lang = L)

def GotItems (t t' : Text) (nfa nfa' : Nfa) (frags : List Frag) : Prop :=
  ∃ u Ls, t = u ++ t' ∧ nfa'.Wf ∧ Extends nfa nfa' ∧ Row nfa' nfa.size frags Ls nfa'.size ∧
    (nfa'.Low → ∃ r, Reads .seq u r ∧ r.lang = Ls.prod)

def GotBranches (t t' : Text) (nfa nfa' : Nfa) (frags : List Frag) : Prop :=
  ∃ u Ls, t = u ++ t' ∧ nfa'.Wf ∧ Extends nfa nfa' ∧ Row nfa' nfa.size frags Ls nfa'.size ∧
    (frags = [] → u = []) ∧ (frags ≠ [] → nfa'.Low → ∃ v r, u = '|' :: v ∧ Reads .alt v r ∧ r.lang = Ls.sum)

def Scanned (t : Text) : Prop := ∃ m : Mode, m.Outside ∧ scan m t = true

section

variable {decimal : Char → Option Nat} {t t' u : Text} {nfa nfa' nfa'' : Nfa} {frag : Frag} {m : Mode} {n : Nat}

theorem Tame.later (tame : Tame (u ++ t)) : Tame t :=
  ⟨fun brace => tame.1 (List.mem_append_right u brace), fun others => tame.2 (others.trans (List.suffix_append u t).isInfix)⟩

theorem quantifier_plain : ∀ {c : Char}, c ∈ quantifiers → c ∉ ['\\', '[', '(', '|'] := by
  intro c quantifier
  have apart : ∀ d ∈ quantifiers, d ∉ ['\\', '[', '(', '|'] := List.all_iff_forall_prop.mp (by decide +kernel)
  exact apart c quantifier

theorem scan_ready (scans : scan .start t = true) : Ready t := by
  intro c head quantifier
  cases t with
  | nil => cases head
  | cons d t =>
    cases head
    have bare : scan .start (c :: t) = false := by
      simp only [quantifiers, List.mem_cons, List.not_mem_nil, or_false] at quantifier
      rcases quantifier with rfl | rfl | rfl <;> rw [scan.eq_def] <;> rfl
    rw [bare] at scans
    cases scans

theorem Extends.low (grows : Extends nfa nfa') (wf : nfa.Wf) (low : nfa'.Low) : nfa.Low := by
  intro q bs t member
  have inside := (wf.sym q bs t member).1
  have same := (grows.same q (Nat.zero_le q) inside).2
  exact low q bs t (by rw [same]; exact member)

theorem bytesetFrag_low {bs : List Int} (low : (bytesetFrag bs nfa).2.Low) : Low bs := by
  refine low nfa.size bs (nfa.size + 1) ?_
  show (bs, nfa.size + 1) ∈ Function.update nfa.sym nfa.size (nfa.sym nfa.size ++ [(bs, nfa.size + 1)]) nfa.size
  rw [Function.update_self]
  exact List.mem_append_right _ List.mem_cons_self

theorem bytesetFrag_got {bs : List Int} (wf : nfa.Wf) (real : Real bs) (natural : Natural bs)
    (read : Low bs → ∃ S, Reads .atom u (.bytes S) ∧ Denotes bs S) :
    Got .atom (u ++ t) t nfa (bytesetFrag bs nfa).2 (bytesetFrag bs nfa).1 := by
  refine ⟨u, bytesLang bs, rfl, bytesetFrag_built wf real natural, fun low => ?_⟩
  obtain ⟨S, reads, denotes⟩ := read (bytesetFrag_low low)
  exact ⟨.bytes S, reads, denotes.lang⟩

theorem charClass_reads {bs : List Int} (parsed : charClass decimal t = .ok (bs, t')) (plain : t.head? ≠ some '^')
    (scans : scan (.members true) t = true) :
    ∃ u, t = u ++ t' ∧ scan .rest t' = true ∧ Real bs ∧ Natural bs ∧ (Low bs → ∃ S, Members true u S ∧ Denotes bs S) := by
  have positive : decide (t.head? = some '^') = false := decide_eq_false plain
  rw [charClass, positive] at parsed
  simp only [Bool.false_eq_true, if_false] at parsed
  obtain ⟨⟨members, rest⟩, loop, parsed⟩ := bind_ok parsed
  dsimp only at parsed
  split at parsed
  · cases parsed
  · cases parsed
    obtain ⟨u, cs, rfl, text, later, real, natural, read⟩ := classLoop_reads loop scans
    exact ⟨u, text, later, real rfl, natural, read⟩

end

/-! ### The six functions -/

/-- What the calls with the bound `n` do. -/
structure Sound (decimal : Char → Option Nat) (n : Nat) : Prop where
  alt : ∀ t nfa frag t' nfa', parseAlt decimal n t nfa = .ok (frag, t', nfa') → nfa.Wf → Tame t → scan .start t = true →
    Got .alt t t' nfa nfa' frag ∧ Scanned t'
  branches : ∀ t nfa frags t' nfa', parseBranches decimal n t nfa = .ok (frags, t', nfa') → nfa.Wf → Tame t → Scanned t →
    GotBranches t t' nfa nfa' frags ∧ Scanned t'
  concat : ∀ t nfa frag t' nfa', parseConcat decimal n t nfa = .ok (frag, t', nfa') → nfa.Wf → Tame t → scan .start t = true →
    Got .seq t t' nfa nfa' frag ∧ Scanned t'
  items : ∀ t nfa frags t' nfa', parseItems decimal n t nfa = .ok (frags, t', nfa') → nfa.Wf → Tame t → Scanned t → Ready t →
    GotItems t t' nfa nfa' frags ∧ Scanned t'
  rep : ∀ t nfa frag t' nfa', parseRepeat decimal n t nfa = .ok (frag, t', nfa') → nfa.Wf → Tame t → Scanned t → Ready t →
    t.head? ≠ some '|' → Got .rep t t' nfa nfa' frag ∧ scan .rest t' = true ∧ Ready t'
  atom : ∀ t nfa frag t' nfa', parseAtom decimal n t nfa = .ok (frag, t', nfa') → nfa.Wf → Tame t → Scanned t → Ready t →
    t.head? ≠ some '|' → Got .atom t t' nfa nfa' frag ∧ scan .rest t' = true

section steps

variable {decimal : Char → Option Nat} {n : Nat} {t t' : Text} {nfa nfa' : Nfa} {frag : Frag} {frags : List Frag}

theorem Sound.atom_step (sound : Sound decimal n) (parsed : parseAtom decimal (n + 1) t nfa = .ok (frag, t', nfa')) (wf : nfa.Wf)
    (tame : Tame t) (scanned : Scanned t) (ready : Ready t) (bar : t.head? ≠ some '|') :
    Got .atom t t' nfa nfa' frag ∧ scan .rest t' = true := by
  obtain ⟨m, outside, scans⟩ := scanned
  have next : m.next = .rest := by rcases outside with rfl | rfl <;> rfl
  cases t with
  | nil => cases parsed
  | cons c t =>
    rw [parseAtom] at parsed
    have operand : c ∈ quantifiers → m = .rest := fun quantifier => absurd quantifier (ready c rfl)
    have tame' : Tame t := tame.later (u := [c])
    split at parsed
    · rename_i opens
      subst opens
      rw [scan_operand outside (.inl rfl)] at scans
      split at parsed
      · cases parsed
      · obtain ⟨⟨frag', rest, nfa₁⟩, inner, parsed⟩ := bind_ok parsed
        dsimp only at parsed
        split at parsed
        · rename_i closes
          cases parsed
          obtain ⟨⟨u, L, text, built, read⟩, m', outside', scans'⟩ := sound.alt _ _ _ _ _ inner wf tame' scans
          obtain ⟨s, rfl⟩ : ∃ s, rest = ')' :: s := by
            cases rest with
            | nil => cases closes
            | cons d s => exact ⟨s, by rw [Option.some.inj closes]⟩
          rw [scan_plain outside' (by decide) fun quantifier => absurd quantifier (by decide)] at scans'
          refine ⟨⟨'(' :: (u ++ [')']), L, ?_, built, fun low => ?_⟩, scans'⟩
          · rw [text, List.tail_cons, List.cons_append, List.append_assoc, List.singleton_append]
          · obtain ⟨r, reads, same⟩ := read low
            exact ⟨r, .group reads, same⟩
        · cases parsed
    · rename_i group
      split at parsed
      · rename_i opens
        subst opens
        have plain : t.head? ≠ some '^' := by
          intro head
          obtain ⟨s, rfl⟩ : ∃ s, t = '^' :: s := by
            cases t with
            | nil => cases head
            | cons d s => exact ⟨s, by rw [Option.some.inj head]⟩
          exact tame.2 ⟨[], s, rfl⟩
        rw [scan_members outside plain] at scans
        obtain ⟨⟨bs, rest⟩, inner, parsed⟩ := bind_ok parsed
        cases parsed
        obtain ⟨u, text, later, real, natural, read⟩ := charClass_reads inner plain scans
        refine ⟨?_, later⟩
        rw [text]
        refine bytesetFrag_got (u := '[' :: u) wf real natural fun low => ?_
        obtain ⟨S, members, denotes⟩ := read low
        refine ⟨S, .members (fun head => plain ?_) members, denotes⟩
        rw [text, List.head?_append_of_ne_nil _ members.ne_nil]
        exact head
      · rename_i class'
        split at parsed
        · rename_i dot
          subst dot
          cases parsed
          rw [scan_plain outside (by decide) operand] at scans
          refine ⟨bytesetFrag_got (u := ['.']) wf ⟨0, mem_allBytes 0⟩ (natural_intRange (Int.le_refl 0)) fun _ =>
            ⟨Set.univ, .dot, ?_⟩, scans⟩
          exact fun b => ⟨fun _ => trivial, fun _ => mem_allBytes b⟩
        · rename_i dot
          split_ifs at parsed with anchor closes slash large
          · subst slash
            obtain ⟨⟨bs, rest⟩, inner, parsed⟩ := bind_ok parsed
            cases parsed
            obtain ⟨e, text, escaped, later⟩ := escape_reads inner scans
            rw [next] at later
            refine ⟨?_, later⟩
            rw [text]
            cases escaped with
            | set known denotes real natural => exact bytesetFrag_got (u := ['\\', _]) wf real natural fun _ => ⟨_, .set known, denotes⟩
            | byte escape =>
              exact bytesetFrag_got (u := '\\' :: e) wf ⟨_, List.mem_cons_self⟩ (natural_byte _) fun _ => ⟨_,
                .byte escape, denotes_byte _⟩
          · cases parsed
            have special : c ∉ ['\\', '[', '(', '|'] := by
              simp only [List.mem_cons, List.not_mem_nil, or_false, not_or]
              exact ⟨slash, class', group, fun same => bar (by rw [same]; rfl)⟩
            rw [scan_plain outside special operand] at scans
            have value : ((byteOf c).toNat : Int) = c.toNat := by
              rw [byteOf, UInt8.toNat_ofNat', Nat.mod_eq_of_lt (by omega)]
            refine ⟨?_, scans⟩
            rw [← value]
            refine bytesetFrag_got (u := [c]) wf ⟨_, List.mem_cons_self⟩ (natural_byte _) fun _ => ⟨_,
              .literal (by omega) ?_, denotes_byte _⟩
            have brace : c ≠ '{' := fun same => tame.1 (by rw [same]; exact List.mem_cons_self)
            have free := ready c rfl
            simp only [quantifiers, List.mem_cons, List.not_mem_nil, or_false, not_or] at free special anchor
            simp only [metas, List.mem_cons, List.not_mem_nil, or_false, not_or]
            exact ⟨slash, dot, class', group, closes, special.2.2.2, free.1, free.2.1, free.2.2, anchor.1, anchor.2, brace⟩

theorem Sound.rep_step (sound : Sound decimal n) (parsed : parseRepeat decimal (n + 1) t nfa = .ok (frag, t', nfa')) (wf : nfa.Wf)
    (tame : Tame t) (scanned : Scanned t) (ready : Ready t) (bar : t.head? ≠ some '|') :
    Got .rep t t' nfa nfa' frag ∧ scan .rest t' = true ∧ Ready t' := by
  rw [parseRepeat] at parsed
  obtain ⟨⟨frag', rest, nfa₁⟩, inner, parsed⟩ := bind_ok parsed
  obtain ⟨⟨u, L, text, built, read⟩, later⟩ := sound.atom _ _ _ _ _ inner wf tame scanned ready bar
  have once : Got .rep t rest nfa nfa₁ frag' := by
    refine ⟨u, L, text, built, fun low => ?_⟩
    obtain ⟨r, reads, same⟩ := read low
    exact ⟨r, .once reads, same⟩
  dsimp only at parsed
  split at parsed
  · cases parsed
    exact ⟨once, later, fun c head => by cases head⟩
  · rename_i q rest
    split at parsed
    · rename_i quantifier
      split at parsed
      · cases parsed
      · rename_i single
        cases parsed
        rw [scan_plain (.inr rfl) (quantifier_plain quantifier) fun _ => rfl] at later
        refine ⟨⟨u ++ [q], _, ?_, applyQuant_built built quantifier, fun low => ?_⟩, later, fun c head inside => single ?_⟩
        · rw [text, List.append_assoc, List.singleton_append]
        · obtain ⟨r, reads, same⟩ := read fun s bs x member => low s bs x (by
            rw [applyQuant, (link_frame nfa₁.newState.newState _).1]
            exact member)
          refine ⟨r.quantified q, ?_, by rw [quantified_lang quantifier, same]⟩
          simp only [quantifiers, List.mem_cons, List.not_mem_nil, or_false] at quantifier
          rcases quantifier with rfl | rfl | rfl
          · exact .star reads
          · exact .plus reads
          · exact .opt reads
        · rw [head]
          exact decide_eq_true inside
    · rename_i free
      split at parsed
      · cases parsed
      · cases parsed
        refine ⟨once, later, fun c head => ?_⟩
        cases head
        exact free

theorem Sound.items_step (sound : Sound decimal n) (parsed : parseItems decimal (n + 1) t nfa = .ok (frags, t', nfa')) (wf : nfa.Wf)
    (tame : Tame t) (scanned : Scanned t) (ready : Ready t) : GotItems t t' nfa nfa' frags ∧ Scanned t' := by
  rw [parseItems] at parsed
  split at parsed
  · cases parsed
    exact ⟨⟨[], [], rfl, wf, Extends.refl _, .nil _, fun _ => ⟨.empty, .nil, rfl⟩⟩, scanned⟩
  · rename_i goes
    simp only [not_or] at goes
    obtain ⟨⟨frag, rest, nfa₁⟩, first, parsed⟩ := bind_ok parsed
    obtain ⟨⟨frags', rest', nfa₂⟩, others, parsed⟩ := bind_ok parsed
    cases parsed
    obtain ⟨⟨u, L, text, built, read⟩, later, ready'⟩ := sound.rep _ _ _ _ _ first wf tame scanned ready goes.2.1
    rw [text] at tame
    obtain ⟨⟨u', Ls, text', wf', grows, row, read'⟩, done⟩ := sound.items _ _ _ _ _ others built.wf tame.later ⟨.rest,
        .inr rfl, later⟩ ready'
    refine ⟨⟨u ++ u', L :: Ls, by rw [text, text', List.append_assoc], wf', built.grows.trans grows, ?_, fun low => ?_⟩, done⟩
    · exact .cons (Fragment.same built.fragment fun q _ upper => grows.same q (Nat.zero_le q) upper) row
    · obtain ⟨r, reads, same⟩ := read (grows.low built.wf low)
      obtain ⟨r', reads', same'⟩ := read' low
      refine ⟨.cat r r', .cons reads reads', ?_⟩
      rw [Regex.lang, same, same', List.prod_cons]

theorem Sound.concat_step (sound : Sound decimal n) (parsed : parseConcat decimal (n + 1) t nfa = .ok (frag, t', nfa')) (wf : nfa.Wf)
    (tame : Tame t) (scans : scan .start t = true) : Got .seq t t' nfa nfa' frag ∧ Scanned t' := by
  rw [parseConcat] at parsed
  obtain ⟨⟨frags, rest, nfa₁⟩, inner, parsed⟩ := bind_ok parsed
  obtain ⟨⟨u, Ls, text, wf', grows, row, read⟩, done⟩ := sound.items _ _ _ _ _ inner wf tame ⟨.start, .inl rfl, scans⟩ (scan_ready scans)
  dsimp only at parsed
  split at parsed
  · cases parsed
    generalize size : nfa₁.size = k at row
    cases row
    have built := emptyFrag_built wf'
    refine ⟨⟨u, 1, text, ⟨built.wf, grows.trans built.grows, ?_⟩, fun low => read fun s bs x member => low s bs x ?_⟩, done⟩
    · rw [← size]
      exact built.fragment
    · rw [emptyFrag, (link_frame nfa₁.newState.newState _).1]
      exact member
  · rename_i frag' frags
    cases parsed
    generalize size : nfa₁.size = k at row
    cases row with
    | @cons _ k' _ _ _ L Ls fragment row =>
      obtain ⟨wf'', size', same, whole⟩ := chain_built wf' fragment row (Nat.le_of_eq size.symm)
      have le := grows.size
      refine ⟨⟨u, (L :: Ls).prod, text, ⟨wf'', ⟨by omega, fun q lower upper => ?_⟩, ?_⟩,
        fun low => read fun s bs x member => low s bs x ?_⟩, done⟩
      · have one := grows.same q lower upper
        have two := same q lower upper
        exact ⟨two.1.trans one.1, two.2.trans one.2⟩
      · rw [size', size]
        exact whole
      · rw [chain_sym]
        exact member

theorem Sound.branches_step (sound : Sound decimal n)
    (parsed : parseBranches decimal (n + 1) t nfa = .ok (frags, t', nfa')) (wf : nfa.Wf)
    (tame : Tame t) (scanned : Scanned t) : GotBranches t t' nfa nfa' frags ∧ Scanned t' := by
  rw [parseBranches] at parsed
  split at parsed
  · rename_i bar
    obtain ⟨s, rfl⟩ : ∃ s, t = '|' :: s := by
      cases t with
      | nil => cases bar
      | cons c s => exact ⟨s, by rw [Option.some.inj bar]⟩
    obtain ⟨m, outside, scans⟩ := scanned
    rw [scan_operand outside (.inr rfl)] at scans
    have tame' : Tame s := tame.later (u := ['|'])
    obtain ⟨⟨frag, rest, nfa₁⟩, first, parsed⟩ := bind_ok parsed
    obtain ⟨⟨frags', rest', nfa₂⟩, others, parsed⟩ := bind_ok parsed
    cases parsed
    obtain ⟨⟨u, L, text, built, read⟩, scanned'⟩ := sound.concat _ _ _ _ _ first wf tame' scans
    rw [List.tail_cons] at text
    rw [text] at tame'
    obtain ⟨⟨u', Ls, text', wf', grows, row, last, read'⟩, done⟩ := sound.branches _ _ _ _ _ others built.wf tame'.later scanned'
    refine ⟨⟨'|' :: (u ++ u'), L :: Ls, ?_, wf', built.grows.trans grows, ?_, fun none' => absurd none' (List.cons_ne_nil _ _),
      fun _ low => ?_⟩, done⟩
    · rw [text, text', List.cons_append, List.append_assoc]
    · exact .cons (Fragment.same built.fragment fun q _ upper => grows.same q (Nat.zero_le q) upper) row
    · obtain ⟨r, reads, same⟩ := read (grows.low built.wf low)
      by_cases none' : frags' = []
      · subst none'
        obtain rfl := last rfl
        generalize size : nfa'.size = k at row
        cases row
        refine ⟨u, r, by rw [List.append_nil], .only reads, ?_⟩
        rw [same, List.sum_singleton]
      · obtain ⟨v, r', rfl, reads', same'⟩ := read' none' low
        refine ⟨u ++ '|' :: v, .alt r r', rfl, .alt reads reads', ?_⟩
        rw [Regex.lang, same, same', List.sum_cons]
  · cases parsed
    exact ⟨⟨[], [], rfl, wf, Extends.refl _, .nil _, fun _ => rfl, fun some' => absurd rfl some'⟩, scanned⟩

theorem Sound.alt_step (sound : Sound decimal n) (parsed : parseAlt decimal (n + 1) t nfa = .ok (frag, t', nfa')) (wf : nfa.Wf)
    (tame : Tame t) (scans : scan .start t = true) : Got .alt t t' nfa nfa' frag ∧ Scanned t' := by
  rw [parseAlt] at parsed
  obtain ⟨⟨frag', rest, nfa₁⟩, first, parsed⟩ := bind_ok parsed
  obtain ⟨⟨frags, rest', nfa₂⟩, others, parsed⟩ := bind_ok parsed
  obtain ⟨⟨u, L, text, built, read⟩, scanned⟩ := sound.concat _ _ _ _ _ first wf tame scans
  rw [text] at tame
  obtain ⟨⟨u', Ls, text', wf', grows, row, last, read'⟩, done⟩ := sound.branches _ _ _ _ _ others built.wf tame.later scanned
  have kept := Fragment.same built.fragment fun q _ upper => grows.same q (Nat.zero_le q) upper
  dsimp only at parsed
  split at parsed
  · rename_i none'
    subst none'
    cases parsed
    obtain rfl := last rfl
    have size : nfa₁.size = nfa'.size := by
      generalize nfa'.size = k at row
      cases row
      rfl
    rw [size] at kept
    refine ⟨⟨u, L, by rw [text, text', List.nil_append], ⟨wf', built.grows.trans grows, kept⟩, fun low => ?_⟩, done⟩
    obtain ⟨r, reads, same⟩ := read (grows.low built.wf low)
    exact ⟨r, .only reads, same⟩
  · rename_i some'
    cases parsed
    obtain ⟨wf'', grows', kept', whole⟩ := branch_built wf' (.cons kept row) (List.cons_ne_nil frag' frags)
    have all := built.grows.trans grows
    have size := all.size
    refine ⟨⟨u ++ u', (L :: Ls).sum, by rw [text, text', List.append_assoc], ⟨wf'', ⟨by omega, fun q lower upper => ?_⟩, whole⟩,
      fun low => ?_⟩, done⟩
    · have one := all.same q lower upper
      have two := kept' q lower upper
      exact ⟨two.1.trans one.1, two.2.trans one.2⟩
    · have low' : nfa₂.Low := fun q bs x member => low q bs x (by
        rw [branch, (link_frame nfa₂.newState.newState _).1]
        exact member)
      obtain ⟨r, reads, same⟩ := read (grows.low built.wf low')
      obtain ⟨v, r', rfl, reads', same'⟩ := read' some' low'
      refine ⟨.alt r r', .alt reads reads', ?_⟩
      rw [Regex.lang, same, same', List.sum_cons]

end steps

theorem sound (decimal : Char → Option Nat) (n : Nat) : Sound decimal n := by
  induction n with
  | zero =>
    refine ⟨?_, ?_, ?_, ?_, ?_, ?_⟩
    all_goals
      intro t nfa frag t' nfa' parsed
      simp only [parseAlt, parseBranches, parseConcat, parseItems, parseRepeat, parseAtom] at parsed
      cases parsed
  | succ n ih =>
    exact {
      alt := fun _ _ _ _ _ => ih.alt_step
      branches := fun _ _ _ _ _ => ih.branches_step
      concat := fun _ _ _ _ _ => ih.concat_step
      items := fun _ _ _ _ _ => ih.items_step
      rep := fun _ _ _ _ _ => ih.rep_step
      atom := fun _ _ _ _ _ => ih.atom_step }

theorem parse_reads {decimal : Char → Option Nat} {pattern : Text} {frag : Frag} {nfa : Nfa}
    (parsed : parse decimal pattern = .ok (frag, nfa))
    (tame : Tame pattern) (scans : scan .start pattern = true) :
    ∃ L, Built {} nfa frag L ∧ (nfa.Low → ∃ r, Reads .alt pattern r ∧ r.lang = L) := by
  have wf : Nfa.Wf {} := ⟨fun _ _ member => absurd member List.not_mem_nil, fun _ _ _ member => absurd member List.not_mem_nil,
    fun _ _ _ member => absurd member List.not_mem_nil⟩
  obtain ⟨⟨frag', t, nfa'⟩, inner, parsed⟩ := bind_ok parsed
  obtain ⟨⟨u, L, text, built, read⟩, -⟩ := (sound decimal _).alt _ _ _ _ _ inner wf tame scans
  dsimp only at parsed
  split at parsed
  · rename_i done
    subst done
    cases parsed
    rw [List.append_nil] at text
    subst text
    exact ⟨L, built, read⟩
  · cases parsed

end FfnNgfw.Emulator
