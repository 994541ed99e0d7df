import FfnNgfw.Antivirus.Admission

/-!
# The pre-filter

A body signature with an anchor is tried only if the automaton finds the anchor in the
file. Every match has the anchor in it when the expression spells it byte by byte, which it
does unless a low nibble `?x` stands right before a hex digit.
-/

namespace FfnNgfw.Antivirus
open Threatdb (Text hexDigit strip strip_strip hexDigit_bound)
open SignatureDB (isdigit)

variable {U : Unicode} {s : Text}

/-! ### The anchor in a match -/

def Token.endsLow : Token → Bool
  | pair hi lo => hi = '?' && isHex lo
  | _ => false

def Token.startsHex : Token → Bool
  | pair hi _ => isHex hi
  | _ => false

def InStep : List Token → Prop
  | t :: u :: ts => ¬(t.endsLow = true ∧ u.startsHex = true) ∧ InStep (u :: ts)
  | _ => True

def Token.isByte : Token → Bool
  | pair hi lo => isHex hi && isHex lo
  | _ => false

theorem longer_nil (best : List UInt8) : longer best [] = best := by simp [longer]

theorem render_head {ts : List Token} (lexical : ∀ t ∈ ts, t.Lexical) (starts : ∀ t, ts.head? = some t → t.startsHex = false) :
    (render ts).head?.bind hexDigit = none := by
  cases ts with
  | nil => rfl
  | cons t ts =>
    have plain := starts t rfl
    cases t with
    | pair hi lo =>
      have wild : hi = '?' := (isNibble_cases (lexical _ List.mem_cons_self).1).resolve_left (by simpa [Token.startsHex] using plain)
      rw [wild]
      rfl
    | star => rfl
    | gap spec => rfl
    | alternation body => rfl

theorem anchorLoop_skip {c : Char} (stops : hexDigit c = none ∨ s.head?.bind hexDigit = none) (plain : closing c = none) (fuel : Nat)
    (best cur : List UInt8) : anchorLoop (fuel + 1) (c :: s) best cur = anchorLoop fuel s (longer best cur) [] := by
  rw [anchorLoop]
  split
  · rename_i hi lo first second
    rcases stops with none' | none'
    · rw [none'] at first
      cases first
    · rw [none'] at second
      cases second
  · rw [plain]

theorem anchorLoop_block {o close : Char} {body : Text} (opens : closing o = some close) (noDigit : hexDigit o = none)
    (out : close ∉ body)
    (fuel : Nat) (best cur : List UInt8) :
    anchorLoop (fuel + 1) (o :: (body ++ close :: s)) best cur = anchorLoop fuel s (longer best cur) [] := by
  rw [anchorLoop, noDigit]
  dsimp only
  rw [opens]
  dsimp only
  rw [cut_append out]
  rfl

theorem anchorLoop_token {t : Token} (lexical : t.Lexical) (other : t.isByte = false)
    (next : t.endsLow = true → s.head?.bind hexDigit = none) {fuel : Nat} (enough : (t.text ++ s).length ≤ fuel)
    (best cur : List UInt8) :
    ∃ fuel', s.length ≤ fuel' ∧ anchorLoop fuel (t.text ++ s) best cur = anchorLoop fuel' s (longer best cur) [] := by
  have closes : ∀ c, isNibble c = true → closing c = none := by
    intro c nibble
    obtain ⟨-, brace, paren, bracket⟩ := nibble_ne nibble
    rw [closing, if_neg brace, if_neg paren, if_neg bracket]
  cases t with
  | pair hi lo =>
    rw [Token.text, List.cons_append, List.cons_append, List.nil_append] at enough ⊢
    rw [List.length_cons, List.length_cons] at enough
    obtain ⟨fuel, rfl⟩ : ∃ k, fuel = k + 2 := ⟨fuel - 2, by omega⟩
    refine ⟨fuel, by omega, ?_⟩
    have first : hexDigit hi = none ∨ (lo :: s).head?.bind hexDigit = none := by
      by_cases hex : isHex hi = true
      · have wild : lo = '?' := by
          refine (isNibble_cases lexical.2).resolve_left fun hex' => ?_
          simp [Token.isByte, hex, hex'] at other
        exact .inr (by rw [wild]; rfl)
      · exact .inl (by simpa [isHex] using hex)
    have second : hexDigit lo = none ∨ s.head?.bind hexDigit = none := by
      by_cases hex : isHex lo = true
      · refine .inr (next ?_)
        have wild : hi = '?' := by
          refine (isNibble_cases lexical.1).resolve_left fun hex' => ?_
          simp [Token.isByte, hex, hex'] at other
        simp [Token.endsLow, wild, hex]
      · exact .inl (by simpa [isHex] using hex)
    rw [anchorLoop_skip first (closes hi lexical.1), anchorLoop_skip second (closes lo lexical.2), longer_nil]
  | star =>
    rw [Token.text, List.cons_append, List.nil_append] at enough ⊢
    rw [List.length_cons] at enough
    obtain ⟨fuel, rfl⟩ : ∃ k, fuel = k + 1 := ⟨fuel - 1, by omega⟩
    exact ⟨fuel, by omega, anchorLoop_skip (.inl rfl) rfl fuel best cur⟩
  | gap spec =>
    rw [Token.text, List.cons_append, List.append_assoc, List.singleton_append] at enough ⊢
    rw [List.length_cons, List.length_append, List.length_cons] at enough
    obtain ⟨fuel, rfl⟩ : ∃ k, fuel = k + 1 := ⟨fuel - 1, by omega⟩
    exact ⟨fuel, by omega, anchorLoop_block rfl rfl (GapForm.notMem lexical rfl (by decide)) fuel best cur⟩
  | alternation body =>
    rw [Token.text, List.cons_append, List.append_assoc, List.singleton_append] at enough ⊢
    rw [List.length_cons, List.length_append, List.length_cons] at enough
    obtain ⟨fuel, rfl⟩ : ∃ k, fuel = k + 1 := ⟨fuel - 1, by omega⟩
    exact ⟨fuel, by omega, anchorLoop_block rfl rfl (fun inside => absurd (lexical.2 _ inside) (by decide)) fuel best cur⟩

theorem matchPrefix_cons {f : Fragment} {fs : List Fragment} {data : List UInt8} (found : matchPrefix (f :: fs) data = true) :
    ∃ taken rest, data = taken ++ rest ∧ matchPrefix fs rest = true := by
  have drops : ∀ n, ∃ taken, data = taken ++ data.drop n := fun n => ⟨data.take n, (List.take_append_drop n data).symm⟩
  cases f with
  | one c =>
    cases data with
    | nil => cases found
    | cons b data =>
      rw [matchPrefix, Bool.and_eq_true] at found
      exact ⟨[b], data, rfl, found.2⟩
  | star =>
    rw [matchPrefix, List.any_eq_true] at found
    obtain ⟨n, -, found⟩ := found
    obtain ⟨taken, split⟩ := drops n
    exact ⟨taken, _, split, found⟩
  | gap lo hi =>
    rw [matchPrefix] at found
    split at found
    · rw [List.any_eq_true] at found
      obtain ⟨n, -, found⟩ := found
      obtain ⟨taken, split⟩ := drops n
      exact ⟨taken, _, split, (Bool.and_eq_true _ _ ▸ found).2⟩
    · rw [Bool.and_eq_true] at found
      obtain ⟨taken, split⟩ := drops _
      exact ⟨taken, _, split, found.2⟩
  | alt branches =>
    rw [matchPrefix, List.any_eq_true] at found
    obtain ⟨cs, -, found⟩ := found
    cases rest : branchRest cs data with
    | none =>
      rw [rest] at found
      cases found
    | some data' =>
      rw [rest] at found
      have split : ∀ (cs : List ByteClass) (data : List UInt8), branchRest cs data = some data' → ∃ taken, data = taken ++ data' := by
        intro cs
        induction cs with
        | nil =>
          intro data same
          exact ⟨[], Option.some.inj same⟩
        | cons c cs ih =>
          intro data same
          cases data with
          | nil => cases same
          | cons b data =>
            rw [branchRest] at same
            split at same
            · obtain ⟨taken, rfl⟩ := ih data same
              exact ⟨b :: taken, rfl⟩
            · cases same
      obtain ⟨taken, rfl⟩ := split cs data rest
      exact ⟨taken, data', rfl, found⟩
  | range lo hi =>
    cases data with
    | nil => cases found
    | cons b data =>
      rw [matchPrefix, Bool.and_eq_true] at found
      exact ⟨[b], data, rfl, found.2⟩

def Spells (rx : List Fragment) (bytes : List UInt8) : Prop := (bytes.map fun b : UInt8 => Fragment.one (.byte b.toNat)) <:+: rx

instance (rx : List Fragment) (bytes : List UInt8) : Decidable (Spells rx bytes) := inferInstanceAs (Decidable (_ <:+: _))

variable {rx : List Fragment} {anchor : List UInt8}

theorem Spells.inside {bytes data : List UInt8} (spelled : Spells rx bytes) (matched : matchPrefix rx data = true) :
    bytes <:+: data := by
  obtain ⟨front, back, rfl⟩ := spelled
  induction front generalizing data with
  | nil =>
    refine List.IsPrefix.isInfix ?_
    rw [List.nil_append] at matched
    induction bytes generalizing data with
    | nil => exact List.nil_prefix
    | cons b bytes ih =>
      cases data with
      | nil => cases matched
      | cons b' data =>
        rw [List.map_cons, List.cons_append, matchPrefix, Bool.and_eq_true] at matched
        have value : b' = b := by simpa [ByteClass.has, UInt8.toNat_inj] using matched.1
        rw [value]
        exact List.cons_prefix_cons.mpr ⟨rfl, ih matched.2⟩
  | cons f front ih =>
    rw [List.cons_append, List.cons_append] at matched
    obtain ⟨taken, rest, rfl, matched'⟩ := matchPrefix_cons matched
    exact (ih matched').trans (List.suffix_append taken rest).isInfix

theorem spells_nil (rx : List Fragment) : Spells rx [] := List.nil_infix

theorem spells_of_suffix {before : List Fragment} {bytes : List UInt8}
    (ends : (bytes.map fun b : UInt8 => Fragment.one (.byte b.toNat)) <:+ before) (after : List Fragment) :
    Spells (before ++ after) bytes :=
  ends.isInfix.trans (List.prefix_append before after).isInfix

theorem longer_spelled {best cur : List UInt8} (first : Spells rx best) (second : Spells rx cur) : Spells rx (longer best cur) := by
  unfold longer
  split
  · exact second
  · exact first

theorem anchorLoop_spelled {ts : List Token} (lexical : ∀ t ∈ ts, t.Lexical) (inStep : InStep ts) {fs : List Fragment}
    (fragments : ts.mapM (Token.fragment U) = .ok fs) {fuel : Nat} (enough : (render ts).length ≤ fuel)
    {best cur anchor : List UInt8} {before : List Fragment} (known : Spells (before ++ fs) best)
    (run : (cur.map fun b : UInt8 => Fragment.one (.byte b.toNat)) <:+ before)
    (found : anchorLoop fuel (render ts) best cur = .ok anchor) : Spells (before ++ fs) anchor := by
  induction ts generalizing fs fuel best cur before with
  | nil =>
    have done : anchorLoop fuel (render []) best cur = .ok (longer best cur) := by cases fuel <;> rfl
    rw [done] at found
    rw [← Except.ok.inj found]
    exact longer_spelled known (spells_of_suffix run _)
  | cons t ts ih =>
    have later : ∀ t ∈ ts, t.Lexical := fun t' member => lexical t' (List.mem_cons_of_mem _ member)
    have inStep' : InStep ts := by
      cases ts with
      | nil => trivial
      | cons u ts => exact inStep.2
    rw [List.mapM_cons] at fragments
    obtain ⟨f, fragment, rests⟩ := bind_ok fragments
    obtain ⟨fs', others, same⟩ := bind_ok rests
    obtain rfl := Except.ok.inj same
    have regroup : before ++ f :: fs' = before ++ [f] ++ fs' := by simp
    rw [render, List.flatMap_cons, ← render] at enough found
    cases byte : t.isByte with
    | true =>
      cases t with
      | pair hi lo =>
        simp only [Token.isByte, Bool.and_eq_true] at byte
        obtain ⟨high, highValue, highBound⟩ := isHex_digits byte.1
        obtain ⟨low, lowValue, lowBound⟩ := isHex_digits byte.2
        obtain ⟨lexHi, lexLo⟩ : isNibble hi = true ∧ isNibble lo = true := lexical _ List.mem_cons_self
        rw [Token.fragment, pairRe_nibbles U lexHi lexLo] at fragment
        have class' : pairClass hi lo = .byte (16 * high + low : Nat) := by
          have hi' : hi ≠ '?' := by rintro rfl; cases highValue
          have lo' : lo ≠ '?' := by rintro rfl; cases lowValue
          simp [pairClass, hi', lo', nibbleValue, highValue, lowValue]
        rw [class'] at fragment
        obtain rfl := Except.ok.inj fragment
        rw [Token.text, List.cons_append, List.cons_append, List.nil_append] at enough found
        rw [List.length_cons, List.length_cons] at enough
        obtain ⟨fuel, rfl⟩ : ∃ k, fuel = k + 1 := ⟨fuel - 1, by omega⟩
        have step : anchorLoop (fuel + 1) (hi :: lo :: render ts) best cur =
            anchorLoop fuel (render ts) best (cur ++ [UInt8.ofNat (16 * high + low)]) := by
          rw [anchorLoop, highValue]
          simp [lowValue]
        rw [step] at found
        have value : (UInt8.ofNat (16 * high + low)).toNat = 16 * high + low := by
          rw [UInt8.toNat_ofNat']
          omega
        have run' : ((cur ++ [UInt8.ofNat (16 * high + low)]).map fun b : UInt8 => Fragment.one (.byte b.toNat)) <:+
            before ++ [.one (.byte (16 * high + low : Nat))] := by
          obtain ⟨front, same⟩ := run
          rw [List.map_append, List.map_singleton, value, ← same]
          exact ⟨front, (List.append_assoc _ _ _).symm⟩
        rw [regroup] at known ⊢
        exact ih later inStep' others (by omega) known run' found
      | star => cases byte
      | gap spec => cases byte
      | alternation body => cases byte
    | false =>
      have next : t.endsLow = true → (render ts).head?.bind hexDigit = none := by
        intro low
        refine render_head later fun u head => ?_
        cases ts with
        | nil => cases head
        | cons u' ts =>
          obtain rfl := Option.some.inj head
          by_contra starts
          exact inStep.1 ⟨low, by simpa using starts⟩
      obtain ⟨fuel', enough', step⟩ := anchorLoop_token (lexical t List.mem_cons_self) byte next enough best cur
      rw [step] at found
      have known' := longer_spelled known (spells_of_suffix run (f :: fs'))
      rw [regroup] at known' ⊢
      exact ih later inStep' others enough' known' (by exact List.nil_suffix) found

/-- The signature is a sequence of tokens in which no low nibble stands right before a hex
digit. -/
def AnchorInStep (hexsig : Text) : Prop := ∀ ts : List Token, hexsig = render ts → (∀ t ∈ ts, t.Lexical) → InStep ts

/-- What `compile_hexsig` makes of the signature spells what `literal_anchor` takes from it. -/
def AnchorSpelled (U : Unicode) (hexsig : Text) : Prop :=
  ∀ rx anchor, compileHexsig U hexsig = .ok (some rx) → literalAnchor hexsig = .ok (some anchor) → Spells rx anchor

theorem literalAnchor_best (anchored : literalAnchor s = .ok (some anchor)) :
    anchorLoop (squeeze s).length (squeeze s) [] [] = .ok anchor ∧ 4 ≤ anchor.length := by
  obtain ⟨best, found, same⟩ := bind_ok anchored
  have := Except.ok.inj same
  split at this
  · rename_i long
    rw [← Option.some.inj this]
    exact ⟨found, long⟩
  · cases this

theorem AnchorInStep.spelled {b : BodySig} (inStep : AnchorInStep b.hexPattern) : AnchorSpelled U b.hexPattern := by
  intro rx anchor compiled anchored
  obtain ⟨ts, good, text, fragments⟩ := hexsigFragments_tokens b.admitted b.squeezed (compileHexsig_some.mp compiled)
  have lexical : ∀ t ∈ ts, t.Lexical := fun t member => (good t member).1
  have found := (literalAnchor_best anchored).1
  rw [squeeze_of b.squeezed, text] at found
  have spelled : Spells ([] ++ rx) anchor :=
    anchorLoop_spelled lexical (inStep ts text lexical) fragments (Nat.le_refl _) (spells_nil _) (by exact List.nil_suffix) found
  exact spelled

theorem literalAnchor_nonempty (anchored : literalAnchor s = .ok (some anchor)) : anchor ≠ [] := by
  rintro rfl
  exact absurd (literalAnchor_best anchored).2 (by decide)

theorem search_some {data : List UInt8} {pos start : Nat} (found : search rx data pos = some start) :
    matchPrefix rx (data.drop start) = true := by
  unfold search at found
  simpa using List.find?_some found

theorem matchAt_some {data : List UInt8} {pos : Int} {start : Nat} (found : matchAt rx data pos = some start) :
    matchPrefix rx (data.drop start) = true := by
  unfold matchAt at found
  dsimp only at found
  split at found
  · rename_i matched
    rwa [← Option.some.inj found]
  · cases found

theorem offsetMatch_some {data : List UInt8} {offset : Text} {start : Nat}
    (found : offsetMatch U rx data offset = .ok (some start)) : matchPrefix rx (data.drop start) = true := by
  unfold offsetMatch at found
  dsimp only at found
  generalize strip (if offset = [] then ['*'] else offset) = text at found
  split at found
  · exact search_some (Except.ok.inj found)
  · split at found
    · split at found
      · exact search_some (Except.ok.inj found)
      · exact search_some (Except.ok.inj found)
    · split at found
      · obtain ⟨n, -, found⟩ := bind_ok found
        exact matchAt_some (Except.ok.inj found)
      · exact search_some (Except.ok.inj found)

theorem offsetMatch_ok {offset : Text} (sound : OffsetSound U offset) (rx : List Fragment) (data : List UInt8) :
    ∃ x, offsetMatch U rx data offset = .ok x := by
  unfold OffsetSound at sound
  unfold offsetMatch
  dsimp only at sound ⊢
  have stripped := strip_strip (if offset = [] then ['*'] else offset)
  generalize strip (if offset = [] then ['*'] else offset) = text at *
  split
  · exact ⟨_, rfl⟩
  · split
    · split <;> exact ⟨_, rfl⟩
    · split
      · rename_i shown
        obtain ⟨n, number⟩ := Unicode.int_ok_iff.mpr ((pyInt_dashes_iff stripped shown).mpr (sound shown))
        exact ⟨matchAt rx data n, by rw [number]; rfl⟩
      · exact ⟨_, rfl⟩

theorem exists_suffix_iff {a data : List UInt8} (some' : a ≠ []) :
    (∃ i < data.length, a <:+ data.take (i + 1)) ↔ a <:+: data := by
  have long := List.length_pos_of_ne_nil some'
  constructor
  · rintro ⟨i, -, ends⟩
    exact ends.isInfix.trans (List.take_prefix _ _).isInfix
  · rintro ⟨front, back, rfl⟩
    refine ⟨front.length + a.length - 1, by simp; omega, ?_⟩
    rw [Nat.sub_add_cancel (by omega), ← List.length_append, List.append_assoc, ← List.append_assoc, List.take_left]
    exact List.suffix_append _ _

theorem mem_candidates {db : SignatureDB} {av : AntiVirus} (compiled : Compiled U db.rows av) {data : List UInt8} {p : Pat} :
    p ∈ av.candidates data ↔ ∃ r ∈ db.rows, ∃ anchor, r.Matcher U p anchor ∧ ∀ a, anchor = some a → a <:+: data := by
  obtain ⟨entries, ac, count, members⟩ := compiled.ac
  have nonempty : ∀ a id, (a, id) ∈ entries → a ≠ [] := by
    intro a id member
    obtain ⟨r, -, -, p, b, -, body⟩ := (members a id).mp member
    obtain ⟨rx, -, body⟩ := bind_ok body
    cases rx with
    | none => cases body
    | some fs =>
      obtain ⟨anchor, anchored, same⟩ := bind_ok body
      obtain ⟨-, rfl⟩ := Prod.mk.inj (Option.some.inj (Except.ok.inj same))
      exact literalAnchor_nonempty anchored
  have found : ∀ id, id ∈ ((av.ac.build.iterMatches data).map Prod.snd).eraseDups ↔ ∃ a, (a, id) ∈ entries ∧ a <:+: data := by
    intro id
    rw [List.mem_eraseDups, List.mem_map, ac]
    constructor
    · rintro ⟨⟨i, id'⟩, member, rfl⟩
      obtain ⟨small, a, entry, ends⟩ := (Automaton.mem_iterMatches nonempty).mp member
      exact ⟨a, entry, (exists_suffix_iff (nonempty a _ entry)).mp ⟨i, small, ends⟩⟩
    · rintro ⟨a, entry, inside⟩
      obtain ⟨i, small, ends⟩ := (exists_suffix_iff (nonempty a _ entry)).mpr inside
      exact ⟨(i, id), (Automaton.mem_iterMatches nonempty).mpr ⟨small, a, entry, ends⟩, rfl⟩
  have anchored : p ∈ (if av.nAnchor = 0 then [] else
      ((av.ac.build.iterMatches data).map Prod.snd).eraseDups.filterMap fun sid => AList.lookup sid av.patByAnchor) ↔
        ∃ r ∈ db.rows, ∃ a, r.Matcher U p (some a) ∧ a <:+: data := by
    have looked : (∃ id, (∃ a, (a, id) ∈ entries ∧ a <:+: data) ∧ AList.lookup id av.patByAnchor = some p) ↔
        ∃ r ∈ db.rows, ∃ a, r.Matcher U p (some a) ∧ a <:+: data := by
      constructor
      · rintro ⟨id, ⟨a, entry, inside⟩, lookup⟩
        obtain ⟨r, member, same, p', matcher⟩ := (members a id).mp entry
        obtain ⟨r', member', same', a', matcher'⟩ := (compiled.anchored id p).mp lookup
        obtain rfl := SignatureDB.row_unique member member' (same.trans same'.symm)
        obtain ⟨b, content, body⟩ := matcher
        obtain ⟨-, sameAnchor⟩ := Prod.mk.inj (Option.some.inj ((Row.Matcher.eq content body).mp matcher'))
        obtain rfl := Option.some.inj sameAnchor
        exact ⟨r, member, a, matcher', inside⟩
      · rintro ⟨r, member, a, matcher, inside⟩
        exact ⟨r.sigId, ⟨a, (members a r.sigId).mpr ⟨r, member, rfl, p, matcher⟩, inside⟩,
          (compiled.anchored r.sigId p).mpr ⟨r, member, rfl, a, matcher⟩⟩
    rw [← looked]
    split
    · rename_i zero
      obtain rfl : entries = [] := List.length_eq_zero_iff.mp (count ▸ zero)
      simp
    · rw [List.mem_filterMap]
      exact exists_congr fun id => and_congr (found id) Iff.rfl
  rw [AntiVirus.candidates, List.mem_append, compiled.noanchor p, anchored]
  constructor
  · rintro (⟨r, member, matcher⟩ | ⟨r, member, a, matcher, inside⟩)
    · exact ⟨r, member, none, matcher, fun a same => by cases same⟩
    · refine ⟨r, member, some a, matcher, fun a' same => ?_⟩
      rwa [← Option.some.inj same]
  · rintro ⟨r, member, anchor, matcher, inside⟩
    cases anchor with
    | none => exact .inl ⟨r, member, matcher⟩
    | some a => exact .inr ⟨r, member, a, matcher, inside a rfl⟩

/-! ### The verdict -/

variable {D : Digests} {db : SignatureDB} {av : AntiVirus} {data : List UInt8}

/-- The digests of the file, as `scan_file` looks them up. -/
def digestKeys (D : Digests) (data : List UInt8) : List (Text × Text) :=
  [("md5".toList, D.md5 data), ("sha1".toList, D.sha1 data), ("sha256".toList, D.sha256 data)]

/-- Some hash signature of the rows that `p` holds of is a digest of the file, with a fitting size. -/
def HashHit (D : Digests) (db : SignatureDB) (data : List UInt8) (p : Row → Prop) : Prop :=
  ∃ r ∈ db.rows, p r ∧ ∃ h, r.content = .hash h ∧ (h.hashType, h.hashValue) ∈ digestKeys D data ∧
    (h.fileSize = 0 ∨ h.fileSize = data.length)

/-- Some body signature of these rows compiles, is for the type of the file and matches at its offset. -/
def BodyHit (U : Unicode) (db : SignatureDB) (data : List UInt8) (p : Row → Prop) : Prop :=
  ∃ r ∈ db.rows, p r ∧ ∃ b, r.content = .body b ∧ ∃ rx, compileHexsig U b.hexPattern = .ok (some rx) ∧
    targetOk b.target (detectFileType data) = true ∧ ∃ start, offsetMatch U rx data b.offset = .ok (some start)

/-- The condition of some YARA rule for files of type `ok` is met. -/
def YaraHit (U : Unicode) (db : SignatureDB) (data : List UInt8) (ok : Text → Bool) : Prop :=
  ∃ r ∈ db.rows, ∃ s, r.content = .yara s ∧ ∃ y, compileYara r.sigId s = .ok y ∧ ok s.target = true ∧
    condMet U s.condition (y.hits data) y.strings.length = true

def SignatureDB.Newest (db : SignatureDB) (r : Row) : Prop :=
  ∃ before after, db.rows = before ++ r :: after ∧ ∀ r' ∈ after, ∀ h h', r.content = .hash h → r'.content = .hash h' →
    (h.hashType, h.hashValue) ≠ (h'.hashType, h'.hashValue)

def Row.Spelled (U : Unicode) (r : Row) : Prop := ∀ b, r.content = .body b → AnchorSpelled U b.hexPattern

theorem indexed_some {rows : List Row} {key : Text × Text} {id : Nat} {size : Int} (found : indexed rows key = some (id, size)) :
    ∃ r ∈ rows, ∃ h, r.content = .hash h ∧ key = (h.hashType, h.hashValue) ∧ size = h.fileSize := by
  obtain ⟨r, member, entry⟩ := List.exists_of_findSome?_eq_some found
  cases content : r.content with
  | hash h =>
    rw [content] at entry
    dsimp only at entry
    split at entry
    · rename_i same
      exact ⟨r, List.mem_reverse.mp member, h, content, same, (Prod.mk.inj (Option.some.inj entry)).2.symm⟩
    · cases entry
  | body b =>
    rw [content] at entry
    cases entry
  | yara s =>
    rw [content] at entry
    cases entry

theorem SignatureDB.Newest.indexed {r : Row} (newest : db.Newest r) {h : HashSig} (content : r.content = .hash h) :
    indexed db.rows (h.hashType, h.hashValue) = some (r.sigId, h.fileSize) := by
  obtain ⟨before, after, rows, later⟩ := newest
  rw [Antivirus.indexed, rows, List.reverse_append, List.reverse_cons, List.append_assoc, List.findSome?_append]
  rw [List.findSome?_eq_none_iff.mpr]
  · simp [content]
  · intro r' member
    cases content' : r'.content with
    | hash h' => exact if_neg (later r' (List.mem_reverse.mp member) h h' content content')
    | body b => rfl
    | yara s => rfl

theorem hashHit_iff (compiled : Compiled U db.rows av) : (av.hashHit D data).isSome = true ↔
    ∃ key ∈ digestKeys D data, ∃ id size, indexed db.rows key = some (id, size) ∧ (size = 0 ∨ size = data.length) := by
  unfold AntiVirus.hashHit
  rw [List.findSome?_isSome_iff]
  refine exists_congr fun key => and_congr Iff.rfl ?_
  rw [compiled.hashes]
  cases indexed db.rows key with
  | none => simp
  | some x =>
    obtain ⟨id, size⟩ := x
    by_cases fits : size = 0 ∨ size = data.length
    · simp [fits]
    · simp [fits]

theorem hashHit_between (compiled : Compiled U db.rows av) (D : Digests) (data : List UInt8) :
    ((av.hashHit D data).isSome = true → HashHit D db data fun _ => True) ∧
      (HashHit D db data db.Newest → (av.hashHit D data).isSome = true) := by
  rw [hashHit_iff compiled]
  constructor
  · rintro ⟨key, member, id, size, found, fits⟩
    obtain ⟨r, row, h, content, rfl, rfl⟩ := indexed_some found
    exact ⟨r, row, trivial, h, content, member, fits⟩
  · rintro ⟨r, row, newest, h, content, member, fits⟩
    exact ⟨_, member, _, _, newest.indexed content, fits⟩

theorem patternHit_some {ftype : Option Text} {pats : List Pat} {hit : Option Hit} (found : patternHit U data ftype pats = .ok hit) :
    hit.isSome = true ↔ ∃ p ∈ pats, targetOk p.target ftype = true ∧ ∃ start, offsetMatch U p.rx data p.offset = .ok (some start) := by
  induction pats with
  | nil =>
    obtain rfl := Except.ok.inj found
    simp
  | cons p pats ih =>
    rw [patternHit] at found
    split at found
    · rename_i refused
      rw [ih found]
      simp [refused]
    · rename_i accepted
      obtain ⟨out, tried, found⟩ := bind_ok found
      cases out with
      | none =>
        rw [ih found]
        simp [tried]
      | some start =>
        obtain rfl := Except.ok.inj found
        simp only [Option.isSome_some, true_iff]
        exact ⟨p, List.mem_cons_self, by simpa using accepted, start, tried⟩

theorem patternHit_ok {ftype : Option Text} {pats : List Pat} (sound : ∀ p ∈ pats, OffsetSound U p.offset) :
    ∃ hit, patternHit U data ftype pats = .ok hit := by
  induction pats with
  | nil => exact ⟨none, rfl⟩
  | cons p pats ih =>
    obtain ⟨hit, later⟩ := ih fun p' member => sound p' (List.mem_cons_of_mem _ member)
    obtain ⟨out, tried⟩ := offsetMatch_ok (sound p List.mem_cons_self) p.rx data
    rw [patternHit]
    split
    · exact ⟨hit, later⟩
    · rw [tried]
      cases out with
      | none => exact ⟨hit, later⟩
      | some start => exact ⟨_, rfl⟩

theorem compileBody_parts {sigId : Nat} {b : BodySig} {p : Pat} {anchor : Option (List UInt8)}
    (body : compileBody U sigId b = .ok (some (p, anchor))) :
    compileHexsig U b.hexPattern = .ok (some p.rx) ∧ literalAnchor b.hexPattern = .ok anchor ∧
      p.offset = b.offset ∧ p.target = b.target := by
  obtain ⟨rx, compiled, found⟩ := bind_ok body
  cases rx with
  | none => cases found
  | some fs =>
    obtain ⟨a, anchored, found⟩ := bind_ok found
    obtain ⟨rfl, rfl⟩ := Prod.mk.inj (Option.some.inj (Except.ok.inj found))
    exact ⟨compiled, anchored, rfl, rfl⟩

theorem candidates_between (compiled : Compiled U db.rows av) (done : ∀ r ∈ db.rows, r.Compiles U) (data : List UInt8) :
    ((∃ p ∈ av.candidates data, targetOk p.target (detectFileType data) = true ∧ ∃ start,
      offsetMatch U p.rx data p.offset = .ok (some start)) →
      BodyHit U db data fun _ => True) ∧
    (BodyHit U db data (Row.Spelled U) →
      ∃ p ∈ av.candidates data, targetOk p.target (detectFileType data) = true ∧
      ∃ start, offsetMatch U p.rx data p.offset = .ok (some start)) := by
  constructor
  · rintro ⟨p, member, target, start, found⟩
    obtain ⟨r, row, anchor, ⟨b, content, body⟩, -⟩ := (mem_candidates compiled).mp member
    obtain ⟨rx, -, offset, target'⟩ := compileBody_parts body
    rw [offset] at found
    rw [target'] at target
    exact ⟨r, row, trivial, b, content, p.rx, rx, target, start, found⟩
  · rintro ⟨r, row, spelled, b, content, rx, expression, target, start, found⟩
    have compiles := done r row
    simp only [Row.Compiles, content] at compiles
    obtain ⟨out, body⟩ := compiles
    cases out with
    | none =>
      obtain ⟨rx', expression', found'⟩ := bind_ok body
      rw [expression] at expression'
      obtain rfl := Except.ok.inj expression'
      obtain ⟨a, -, found'⟩ := bind_ok found'
      cases found'
    | some x =>
      obtain ⟨p, anchor⟩ := x
      obtain ⟨expression', anchored, offset, target'⟩ := compileBody_parts body
      rw [expression] at expression'
      obtain rfl := Option.some.inj (Except.ok.inj expression')
      refine ⟨p, (mem_candidates compiled).mpr ⟨r, row, anchor, ⟨b, content, body⟩, ?_⟩, by rwa [target'], start, by rwa [offset]⟩
      rintro a rfl
      have matched := offsetMatch_some found
      exact ((spelled b content _ a expression anchored).inside matched).trans (List.drop_suffix start data).isInfix

theorem yara_hit_iff (compiled : Compiled U db.rows av) (ftype : Option Text) :
    (av.yara.find? fun y => y.matches U data ftype).isSome = true ↔ YaraHit U db data fun target => targetOk target ftype := by
  rw [List.find?_isSome]
  constructor
  · rintro ⟨y, member, matched⟩
    obtain ⟨r, row, s, content, rule⟩ := (compiled.yara y).mp member
    obtain ⟨strings, -, same⟩ := bind_ok rule
    obtain rfl := Except.ok.inj same
    rw [Yara.matches, Bool.and_eq_true] at matched
    exact ⟨r, row, s, content, _, rule, matched⟩
  · rintro ⟨r, row, s, content, y, rule, target, met⟩
    refine ⟨y, (compiled.yara y).mpr ⟨r, row, s, content, rule⟩, ?_⟩
    obtain ⟨strings, -, same⟩ := bind_ok rule
    obtain rfl := Except.ok.inj same
    rw [Yara.matches, Bool.and_eq_true]
    exact ⟨target, met⟩

/-- The verdict on a file that is not empty. What is reported is a hash signature, a body
signature or a YARA rule for the type of the file that matches, and each of them is reported
but a hash signature with a newer one for its digest and a body signature whose anchor is not
spelled, which is one with a low nibble right before a hex digit. With sound offsets the scan
ends. -/
theorem prefilter_keeps_verdict (U : Unicode) (D : Digests) (db : SignatureDB) (av : AntiVirus) (done : AntiVirus.compile U db = .ok av)
    (data : List UInt8) (nonempty : data ≠ []) :
    (∀ res, av.scanFile U D data = .ok res →
      (res.infected = true → HashHit D db data (fun _ => True) ∨ BodyHit U db data (fun _ => True) ∨
        YaraHit U db data fun target => targetOk target (detectFileType data)) ∧
      (HashHit D db data db.Newest ∨ BodyHit U db data (Row.Spelled U) ∨
        YaraHit U db data (fun target => targetOk target (detectFileType data)) → res.infected = true)) ∧
    (∀ r ∈ db.rows, (∀ b, r.content = .body b → AnchorInStep b.hexPattern) → r.Spelled U) ∧
    ((∀ r ∈ db.rows, ∀ b, r.content = .body b → OffsetSound U b.offset) → ∃ res, av.scanFile U D data = .ok res) := by
  have compiled := compile_compiled done
  have compiles : ∀ r ∈ db.rows, r.Compiles U := (foldlM_ok_iff compileRow_ok_iff).mp ⟨av, done⟩
  obtain ⟨hashIn, hashOut⟩ := hashHit_between compiled D data
  obtain ⟨bodyIn, bodyOut⟩ := candidates_between compiled compiles data
  have yara : _ ↔ YaraHit U db data _ := yara_hit_iff compiled (detectFileType data)
  refine ⟨?_, fun r _ inStep b content => (inStep b content).spelled, ?_⟩
  all_goals unfold AntiVirus.scanFile
  all_goals dsimp only
  all_goals rw [if_neg nonempty]
  · intro res found
    cases hashed : av.hashHit D data with
    | some hit =>
      rw [hashed] at found hashIn
      obtain rfl := Except.ok.inj found
      exact ⟨fun _ => .inl (hashIn rfl), fun _ => rfl⟩
    | none =>
      rw [hashed] at found hashOut
      obtain ⟨hit, tried, found⟩ := bind_ok found
      have matched := patternHit_some tried
      cases hit with
      | some hit =>
        obtain rfl := Except.ok.inj found
        exact ⟨fun _ => .inr (.inl (bodyIn (matched.mp rfl))), fun _ => rfl⟩
      | none =>
        obtain rfl := Except.ok.inj found
        simp only [AvResult.infected, Option.isSome_map, yara]
        refine ⟨fun rule => .inr (.inr rule), ?_⟩
        rintro (hash | body | rule)
        · exact absurd (hashOut hash) (by simp)
        · exact absurd (matched.mpr (bodyOut body)) (by simp)
        · exact rule
  · intro offsets
    cases av.hashHit D data with
    | some hit => exact ⟨_, rfl⟩
    | none =>
      have sound : ∀ p ∈ av.candidates data, OffsetSound U p.offset := by
        intro p member
        obtain ⟨r, row, anchor, ⟨b, content, found⟩, -⟩ := (mem_candidates compiled).mp member
        rw [(compileBody_parts found).2.2.1]
        exact offsets r row b content
      obtain ⟨hit, tried⟩ : ∃ hit, patternHit U data (detectFileType data) _ = .ok hit := patternHit_ok sound
      rw [tried]
      cases hit with
      | some hit => exact ⟨_, rfl⟩
      | none => exact ⟨_, rfl⟩

/-- Two hash signatures for one file, the newer one with another size, and a body signature with
the low nibble `?a` before a hex digit, whose anchor `4142434445` stands before it. -/
def mixed : SignatureDB :=
  .build asciiUnicode [.addHash "aef3f30a7b1e0047e55fc0f0e8e447bf".toList "md5".toList 0,
    .addHash "aef3f30a7b1e0047e55fc0f0e8e447bf".toList "md5".toList 9, .addPattern "4142434445?a46".toList "any".toList "*".toList]

def mixedFile : List UInt8 := [0x41, 0x42, 0x43, 0x44, 0x45, 0x1a, 0x46]

def mixedDigests : Digests where
  md5 _ := "aef3f30a7b1e0047e55fc0f0e8e447bf".toList
  sha1 _ := "176006eea8c199cdb0bf2eed86e42fe72802989e".toList
  sha256 _ := "5847a2817fb2965ed51e89fd8532a7105c71ded997ce7b84c840bca1c1d8b15d".toList

def mixedRx : List Fragment :=
  [.one (.byte 0x41), .one (.byte 0x42), .one (.byte 0x43), .one (.byte 0x44), .one (.byte 0x45), .one (.low 10), .one (.byte 0x46)]

/-- The older hash signature is out of force, and the body signature is reported. -/
theorem mixed_verdict :
    ∃ av res, AntiVirus.compile asciiUnicode mixed = .ok av ∧ av.scanFile asciiUnicode mixedDigests mixedFile = .ok res ∧
      (av.hashHit mixedDigests mixedFile).isSome = false ∧ res.infected = true ∧
      (HashHit mixedDigests mixed mixedFile (fun _ => True) ∨ BodyHit asciiUnicode mixed mixedFile (fun _ => True) ∨
        YaraHit asciiUnicode mixed mixedFile fun target => targetOk target (detectFileType mixedFile)) := by
  have ran : ((AntiVirus.compile asciiUnicode mixed).bind fun av =>
      (av.scanFile asciiUnicode mixedDigests mixedFile).map fun _ => (av.hashHit mixedDigests mixedFile).isSome) = .ok false := by
    decide +kernel
  obtain ⟨av, compiled, ran⟩ := bind_ok ran
  obtain ⟨res, scanned, noHash⟩ := map_ok ran
  have rx : compileHexsig asciiUnicode "4142434445?a46".toList = .ok (some mixedRx) := by decide +kernel
  have anchor : literalAnchor "4142434445?a46".toList = .ok (some [0x41, 0x42, 0x43, 0x44, 0x45]) := by decide +kernel
  obtain ⟨row, member, body⟩ : ∃ row ∈ mixed.rows, ∃ b, row.content = .body b ∧ b.hexPattern = "4142434445?a46".toList ∧
      b.target = "any".toList ∧ b.offset = "*".toList := ⟨_, List.mem_cons_of_mem _ (List.mem_cons_of_mem _ List.mem_cons_self),
        _, rfl, rfl, rfl, rfl⟩
  obtain ⟨b, content, text, target, offset⟩ := body
  have spelled : row.Spelled asciiUnicode := by
    intro b' content' fs a expression anchored
    obtain rfl := Content.body.inj (content.symm.trans content')
    rw [text, rx] at expression
    rw [text, anchor] at anchored
    obtain rfl := Option.some.inj (Except.ok.inj expression)
    obtain rfl := Option.some.inj (Except.ok.inj anchored)
    decide
  have hit : BodyHit asciiUnicode mixed mixedFile (Row.Spelled asciiUnicode) :=
    ⟨row, member, spelled, b, content, mixedRx, text ▸ rx, by rw [target]; decide +kernel, 0, by rw [offset]; decide +kernel⟩
  have verdict := (prefilter_keeps_verdict asciiUnicode mixedDigests mixed av compiled mixedFile (by decide)).1 res scanned
  have infected := verdict.2 (.inr (.inl hit))
  exact ⟨av, res, compiled, scanned, noHash, infected, verdict.1 infected⟩

/-- A YARA rule for PE files that finds `#!`. -/
def peRule : SignatureDB := .build asciiUnicode [.addYara (Dict.assign ∅ "$a".toList "hex:2321".toList) "all".toList "pe".toList]

/-- The digests of `#!`. -/
def scriptDigests : Digests where
  md5 _ := "ad540a4cc5c410795131d4d8db7a6d91".toList
  sha1 _ := "2d46bc445fe5eef1125228cce271ca63a02b246d".toList
  sha256 _ := "3612ddaf46e149a4f583faf0face846585148f59e0ce2645594df83b5dc807e8".toList

/-- A low nibble before `41424344`: its anchor is `a4142434`. -/
def shiftedAnchor : SignatureDB := .build asciiUnicode [.addPattern "?a41424344".toList "any".toList "*".toList]

/-- The digests of `\x1aABCD`. -/
def shiftedDigests : Digests where
  md5 _ := "f43b5f14c792fd6bd59b793c1db34cd2".toList
  sha1 _ := "252b17c99521c283351a47bca2549683c2b03935".toList
  sha256 _ := "31d2a412d499e878e1835b94744067874ddd013b3aa86eaec430056ebc719f94".toList

/-- The condition of a rule for PE files is met by a script, which is clean; and a match of
a signature is missed whose anchor got out of step. -/
theorem verdict_differs :
    (∃ av res, AntiVirus.compile asciiUnicode peRule = .ok av ∧ av.scanFile asciiUnicode scriptDigests [0x23, 0x21] = .ok res ∧
      res.infected = false ∧ YaraHit asciiUnicode peRule [0x23, 0x21] fun _ => true) ∧
    (∃ av res, AntiVirus.compile asciiUnicode shiftedAnchor = .ok av ∧
      av.scanFile asciiUnicode shiftedDigests [0x1a, 0x41, 0x42, 0x43, 0x44] = .ok res ∧
      res.infected = false ∧ BodyHit asciiUnicode shiftedAnchor [0x1a, 0x41, 0x42, 0x43, 0x44] fun _ => True) := by
  have scriptClean : ((AntiVirus.compile asciiUnicode peRule).bind fun av =>
      av.scanFile asciiUnicode scriptDigests [0x23, 0x21]).map AvResult.infected = .ok false := by decide +kernel
  have shiftedClean : ((AntiVirus.compile asciiUnicode shiftedAnchor).bind fun av =>
      av.scanFile asciiUnicode shiftedDigests [0x1a, 0x41, 0x42, 0x43, 0x44]).map AvResult.infected = .ok false := by decide +kernel
  constructor
  · obtain ⟨res, run, clean⟩ := map_ok scriptClean
    obtain ⟨av, compiled, scanned⟩ := bind_ok run
    have rule : compileYara 1 ⟨"pe".toList, Dict.assign ∅ "$a".toList "hex:2321".toList, "all".toList⟩ =
        .ok ⟨1, [[0x23, 0x21]], "all".toList, "pe".toList⟩ := by decide +kernel
    exact ⟨av, res, compiled, scanned, clean, _, List.mem_cons_self, _, rfl, _, rule, rfl, by decide +kernel⟩
  · obtain ⟨res, run, clean⟩ := map_ok shiftedClean
    obtain ⟨av, compiled, scanned⟩ := bind_ok run
    have rx : compileHexsig asciiUnicode "?a41424344".toList =
        .ok (some [.one (.low 10), .one (.byte 0x41), .one (.byte 0x42), .one (.byte 0x43), .one (.byte 0x44)]) := by decide +kernel
    have found : offsetMatch asciiUnicode [.one (.low 10), .one (.byte 0x41), .one (.byte 0x42), .one (.byte 0x43), .one (.byte 0x44)]
        [0x1a, 0x41, 0x42, 0x43, 0x44] "*".toList = .ok (some 0) := by decide +kernel
    exact ⟨av, res, compiled, scanned, clean, _, List.mem_cons_self, trivial, _, rfl, _, rx, by decide +kernel, 0, found⟩

end FfnNgfw.Antivirus
