import FfnNgfw.Lib.AhoCorasick

/-!
# Inline content signatures

The payload detector keeps its literal signatures in two automata, one for the payload as
it is and one for the payload in lower case, and tests where a match starts.
-/

namespace FfnNgfw.Detect

/-- `bytes.lower` of one byte. -/
def lowerByte (b : UInt8) : UInt8 := if 0x41 ≤ b ∧ b ≤ 0x5A then b + 32 else b

def lower (data : List UInt8) : List UInt8 := data.map lowerByte

structure ContentSignature where
  sid : Int
  pattern : List UInt8
  isPcre : Bool := false
  nocase : Bool := false
  offset : Int := 0
  depth : Int := 0
  enabled : Bool := true
  deriving DecidableEq

namespace ContentSignature

def regionWindow (s : ContentSignature) (n : Int) : Int × Int :=
  let start := if s.offset > 0 then s.offset else 0
  let stop := if s.depth > 0 then s.offset + s.depth else n
  (max 0 start, min n stop)

def inWindow (s : ContentSignature) (at' n : Int) : Bool := (s.regionWindow n).1 ≤ at' && at' < (s.regionWindow n).2

def fold (s : ContentSignature) (data : List UInt8) : List UInt8 := if s.nocase then lower data else data

def Occurs (s : ContentSignature) (payload : List UInt8) (at' : Nat) : Prop := s.fold s.pattern <+: (s.fold payload).drop at'

instance (s : ContentSignature) (payload : List UInt8) (at' : Nat) : Decidable (s.Occurs payload at') :=
  inferInstanceAs (Decidable (_ <+: _))

end ContentSignature

/-- The state of `_rebuild` while it goes through the signatures. -/
structure Automata where
  acCs : Automaton UInt8 Int := .empty
  acCi : Automaton UInt8 Int := .empty
  nCs : Nat := 0
  nCi : Nat := 0

def Automata.add (m : Automata) (s : ContentSignature) : Automata :=
  if !s.enabled || s.pattern.isEmpty then m
  else if s.isPcre then m
  else if s.nocase then { m with acCi := m.acCi.add (lower s.pattern) s.sid, nCi := m.nCi + 1 }
  else { m with acCs := m.acCs.add s.pattern s.sid, nCs := m.nCs + 1 }

structure PayloadDetector where
  sigs : Dict Int ContentSignature
  keyed : ∀ sid s, sigs.lookup sid = some s → s.sid = sid

namespace PayloadDetector

def values (d : PayloadDetector) : List ContentSignature := d.sigs.items.map Prod.snd

def rebuild (d : PayloadDetector) : Option (Automaton UInt8 Int) × Option (Automaton UInt8 Int) :=
  let m := d.values.foldl Automata.add {}
  (if m.nCs ≠ 0 then some m.acCs.build else none, if m.nCi ≠ 0 then some m.acCi.build else none)

def report (d : PayloadDetector) (n : Int) (found : Nat × Int) : Option (Int × Int) :=
  match d.sigs.lookup found.2 with
  | none => none
  | some s =>
    let at' := (found.1 : Int) - s.pattern.length + 1
    if s.inWindow at' n then some (s.sid, at') else none

def scan (d : PayloadDetector) (ac : Option (Automaton UInt8 Int)) (data : List UInt8) : List (Int × Int) :=
  match ac with
  | none => []
  | some ac => (ac.iterMatches data).filterMap (d.report data.length)

/-- The content matches of `inspect`. -/
def inspect (d : PayloadDetector) (payload : List UInt8) : List (Int × Int) :=
  if payload.isEmpty then [] else d.scan d.rebuild.1 payload ++ d.scan d.rebuild.2 (lower payload)

end PayloadDetector

/-- The signatures of one of the automata, with what they are entered under. -/
def entries (nocase : Bool) (sigs : List ContentSignature) : List (List UInt8 × Int) :=
  (sigs.filter fun s => s.enabled && !s.pattern.isEmpty && !s.isPcre && s.nocase == nocase).map fun s => (s.fold s.pattern, s.sid)

theorem entries_append (nocase : Bool) (a b : List ContentSignature) :
    entries nocase (a ++ b) = entries nocase a ++ entries nocase b := by
  rw [entries, List.filter_append, List.map_append]
  rfl

def Automata.of (sigs : List ContentSignature) : Automata where
  acCs := .addAll .empty (entries false sigs)
  acCi := .addAll .empty (entries true sigs)
  nCs := (entries false sigs).length
  nCi := (entries true sigs).length

theorem Automata.of_add (sigs : List ContentSignature) (s : ContentSignature) : (of sigs).add s = of (sigs ++ [s]) := by
  unfold of
  rw [entries_append, entries_append]
  by_cases used : s.enabled && !s.pattern.isEmpty && !s.isPcre
  · have parts := used
    simp only [Bool.and_eq_true, Bool.not_eq_true'] at parts
    obtain ⟨⟨enabled, nonempty⟩, literal⟩ := parts
    cases nocase : s.nocase with
    | false =>
      have own : entries false [s] = [(s.pattern, s.sid)] := by
        simp [entries, used, nocase, ContentSignature.fold]
      have other : entries true [s] = [] := by
        simp [entries, nocase]
      rw [own, other]
      simp [Automata.add, Automaton.addAll, enabled, nonempty, literal, nocase]
    | true =>
      have own : entries true [s] = [(lower s.pattern, s.sid)] := by
        simp [entries, used, nocase, ContentSignature.fold]
      have other : entries false [s] = [] := by
        simp [entries, nocase]
      rw [own, other]
      simp [Automata.add, Automaton.addAll, enabled, nonempty, literal, nocase]
  · have none' : ∀ nocase, entries nocase [s] = [] := by
      intro nocase
      simp [entries, used]
    rw [none', none', List.append_nil, List.append_nil]
    simp only [Bool.and_eq_true, Bool.not_eq_true', not_and_or, Bool.not_eq_true, Bool.not_eq_false] at used
    rcases used with (disabled | empty) | pcre
    · simp [Automata.add, disabled]
    · simp [Automata.add, empty]
    · simp [Automata.add, pcre]

theorem Automata.foldl_add (sigs : List ContentSignature) : sigs.foldl Automata.add {} = of sigs := by
  have from' : ∀ before, sigs.foldl Automata.add (of before) = of (before ++ sigs) := by
    induction sigs with
    | nil => simp
    | cons s sigs ih =>
      intro before
      rw [List.foldl_cons, of_add, ih, List.append_assoc, List.singleton_append]
  exact from' []

theorem entries_nonempty {nocase : Bool} {sigs : List ContentSignature} : ∀ p t, (p, t) ∈ entries nocase sigs → p ≠ [] := by
  intro p t member
  obtain ⟨s, inside, same⟩ := List.mem_map.mp member
  obtain ⟨rfl, rfl⟩ := Prod.mk.inj same
  have used := (List.mem_filter.mp inside).2
  simp only [Bool.and_eq_true, Bool.not_eq_true', List.isEmpty_eq_false_iff] at used
  unfold ContentSignature.fold lower
  split
  · simpa using used.1.1.2
  · exact used.1.1.2

variable {d : PayloadDetector} {s : ContentSignature} {payload : List UInt8}

theorem fold_length (s : ContentSignature) (data : List UInt8) : (s.fold data).length = data.length := by
  unfold ContentSignature.fold lower
  split
  · exact List.length_map _
  · rfl

theorem fold_ne_nil (nonempty : s.pattern ≠ []) : s.fold s.pattern ≠ [] := by
  rw [← List.length_pos_iff, fold_length]
  exact List.length_pos_of_ne_nil nonempty

theorem PayloadDetector.mem_values : s ∈ d.values ↔ d.sigs.lookup s.sid = some s := by
  rw [values, List.mem_map]
  constructor
  · rintro ⟨⟨sid, s'⟩, member, rfl⟩
    have found := Dict.mem_items.mp member
    rwa [d.keyed sid s' found]
  · intro found
    exact ⟨(s.sid, s), Dict.mem_items.mpr found, rfl⟩

theorem mem_entries (installed : d.sigs.lookup s.sid = some s) (enabled : s.enabled = true) (literal : s.isPcre = false)
    (nonempty : s.pattern ≠ []) {nocase : Bool} {p : List UInt8} :
    (p, s.sid) ∈ entries nocase d.values ↔ nocase = s.nocase ∧ p = s.fold s.pattern := by
  rw [entries, List.mem_map]
  constructor
  · rintro ⟨s', member, same⟩
    obtain ⟨member, used⟩ := List.mem_filter.mp member
    obtain ⟨rfl, sid⟩ := Prod.mk.inj same
    have found := PayloadDetector.mem_values.mp member
    rw [sid, installed] at found
    obtain rfl := Option.some.inj found
    simp only [Bool.and_eq_true, beq_iff_eq] at used
    exact ⟨used.2.symm, rfl⟩
  · rintro ⟨rfl, rfl⟩
    refine ⟨s, List.mem_filter.mpr ⟨PayloadDetector.mem_values.mpr installed, ?_⟩, rfl⟩
    simp [enabled, literal, nonempty]

theorem mem_scan {ps : List (List UInt8 × Int)} (nonempty : ∀ p t, (p, t) ∈ ps → p ≠ []) {data : List UInt8} {x : Int × Int} :
    x ∈ d.scan (if ps.length ≠ 0 then some ((Automaton.empty.addAll ps).build) else none) data ↔
      ∃ i t p, (p, t) ∈ ps ∧ i < data.length ∧ p <:+ data.take (i + 1) ∧ d.report data.length (i, t) = some x := by
  split
  · rw [PayloadDetector.scan, List.mem_filterMap]
    constructor
    · rintro ⟨⟨i, t⟩, found, reported⟩
      obtain ⟨small, p, member, ends⟩ := (Automaton.mem_iterMatches nonempty).mp found
      exact ⟨i, t, p, member, small, ends, reported⟩
    · rintro ⟨i, t, p, member, small, ends, reported⟩
      exact ⟨(i, t), (Automaton.mem_iterMatches nonempty).mpr ⟨small, p, member, ends⟩, reported⟩
  · rename_i empty
    obtain rfl : ps = [] := List.length_eq_zero_iff.mp (not_not.mp empty)
    simp [PayloadDetector.scan]

theorem report_eq (installed : d.sigs.lookup s.sid = some s) {n at' : Int} {i : Nat} {t : Int} :
    d.report n (i, t) = some (s.sid, at') ↔ t = s.sid ∧ at' = i - s.pattern.length + 1 ∧ s.inWindow at' n = true := by
  unfold PayloadDetector.report
  constructor
  · intro reported
    cases found : d.sigs.lookup t with
    | none =>
      rw [found] at reported
      cases reported
    | some s' =>
      simp only [found, Option.ite_none_right_eq_some, Option.some.injEq, Prod.mk.injEq] at reported
      obtain ⟨inside, sid, rfl⟩ := reported
      rw [d.keyed t s' found] at sid
      subst sid
      rw [installed] at found
      obtain rfl := Option.some.inj found
      exact ⟨rfl, rfl, inside⟩
  · rintro ⟨rfl, rfl, inside⟩
    simp [installed, inside]

theorem mem_inspect (installed : d.sigs.lookup s.sid = some s) (enabled : s.enabled = true) (literal : s.isPcre = false)
    (nonempty : s.pattern ≠ []) {at' : Nat} :
    (s.sid, (at' : Int)) ∈ d.inspect payload ↔ s.Occurs payload at' ∧ s.inWindow at' payload.length = true := by
  have kind : ∀ (nocase : Bool) (data : List UInt8), data.length = payload.length → (nocase = s.nocase → data = s.fold payload) →
      ((s.sid, (at' : Int)) ∈ d.scan (if (entries nocase d.values).length ≠ 0 then
          some (Automaton.empty.addAll (entries nocase d.values)).build else none) data ↔
        nocase = s.nocase ∧ s.Occurs payload at' ∧ s.inWindow at' payload.length = true) := by
    intro nocase data length folded
    have some' := fold_ne_nil nonempty
    have ends : at' + (s.fold s.pattern).length ≤ data.length ∧ _ ↔ _ := Automaton.suffix_take_iff some'
    rw [fold_length] at ends
    have positive := List.length_pos_of_ne_nil nonempty
    rw [mem_scan entries_nonempty, ContentSignature.Occurs]
    constructor
    · rintro ⟨i, t, p, member, small, suffix, reported⟩
      obtain ⟨rfl, start, inside⟩ := (report_eq installed).mp reported
      obtain ⟨same, rfl⟩ := (mem_entries installed enabled literal nonempty).mp member
      have stop : i + 1 = at' + s.pattern.length := by omega
      rw [stop] at suffix
      rw [← folded same, ← length]
      exact ⟨same, ends.mp ⟨by omega, suffix⟩, inside⟩
    · rintro ⟨same, occurs, inside⟩
      rw [← folded same] at occurs
      obtain ⟨small, suffix⟩ := ends.mpr occurs
      refine ⟨at' + s.pattern.length - 1, s.sid, s.fold s.pattern, (mem_entries installed enabled literal nonempty).mpr ⟨same, rfl⟩,
        by omega, ?_, (report_eq installed).mpr ⟨rfl, by omega, ?_⟩⟩
      · rwa [Nat.sub_add_cancel (by omega)]
      · rwa [length]
  have built : d.rebuild = ((if (entries false d.values).length ≠ 0 then
      some (Automaton.empty.addAll (entries false d.values)).build else none), (if (entries true d.values).length ≠ 0 then
      some (Automaton.empty.addAll (entries true d.values)).build else none)) := by
    rw [PayloadDetector.rebuild, Automata.foldl_add]
    rfl
  have exact' := kind false payload rfl fun same => by rw [ContentSignature.fold, ← same]; rfl
  have folded := kind true (lower payload) (List.length_map _) fun same => by rw [ContentSignature.fold, ← same]; rfl
  rw [PayloadDetector.inspect]
  split
  · rename_i empty
    rw [List.isEmpty_iff.mp empty]
    refine iff_of_false List.not_mem_nil ?_
    rintro ⟨⟨rest, whole⟩, -⟩
    have length := congrArg List.length whole
    have some' := List.length_pos_of_ne_nil nonempty
    rw [List.length_append, List.length_drop, fold_length, fold_length, List.length_nil] at length
    omega
  · rw [List.mem_append, built, exact', folded, ← or_and_right]
    refine and_iff_right ?_
    cases s.nocase
    · exact .inl rfl
    · exact .inr rfl

end FfnNgfw.Detect
