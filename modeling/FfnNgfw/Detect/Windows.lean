import FfnNgfw.Detect.Content
import FfnNgfw.Detect.Patterns
import Mathlib.Data.List.AList

/-!
# Content windows

The inline detector bounds the start of a match by a half-open window, the fast path
bounds its end. `windows_agree_iff` says for which signatures and payloads the two accept
the same occurrences.
-/

namespace FfnNgfw.Detect
open Threatdb (Text)

/-- The pattern that `load_content_signatures` adds for a row. -/
def contentPattern (patId : Nat) (s : ContentSignature) : Pattern :=
  let pcre := if s.isPcre then s.pattern.map fun b => Char.ofNat b.toNat else bytesPcre s.pattern
  let flags := if s.nocase then ['i'] else []
  let minOff := if s.offset > 0 then s.offset else 0
  let maxOff := if s.depth > 0 then s.offset + s.depth else 0
  ⟨patId, pcre, patternFlags flags minOff maxOff, minOff, maxOff, false⟩

def FastPathCompiler.addContent (c : FastPathCompiler) (s : ContentSignature) : FastPathCompiler :=
  let p := contentPattern c.nextId s
  c.addPattern p.pcre (if s.nocase then ['i'] else []) p.minOffset p.maxOffset false

def FastPathCompiler.loadContentSignatures (c : FastPathCompiler) (rows : List ContentSignature) : FastPathCompiler :=
  (rows.filter fun s => s.enabled).foldl addContent c

/-- Documented behaviour on a literal expression: a match is reported where the bytes end,
if the end is within the bounds that are on. -/
def Hyperscan.Literal (hs : Hyperscan) : Prop :=
  ∀ (raw : List UInt8) (flags : Text) (low high : Option Int) (payload : List UInt8) (stop : Nat), raw ≠ [] →
    (hs.reports ⟨bytesPcre raw, flags, low, high⟩ payload stop ↔
      (∃ at', stop = at' + raw.length ∧
        if 'i' ∈ flags then lower raw <+: (lower payload).drop at' else raw <+: payload.drop at') ∧
      (∀ m, low = some m → m ≤ stop) ∧ ∀ m, high = some m → stop ≤ m)

def literalScan : Hyperscan where
  reports x payload stop := ∃ raw, literalBytes x.pcre = some raw ∧
    (∃ at', stop = at' + raw.length ∧
      if 'i' ∈ x.flags then lower raw <+: (lower payload).drop at' else raw <+: payload.drop at') ∧
    (∀ m, x.minOffset = some m → m ≤ stop) ∧ ∀ m, x.maxOffset = some m → stop ≤ m

theorem literalScan_literal : literalScan.Literal := by
  intro raw flags low high payload stop nonempty
  constructor
  · rintro ⟨raw', read, found⟩
    rw [literalBytes_bytesPcre] at read
    obtain rfl := Option.some.inj read
    exact found
  · intro found
    exact ⟨raw, literalBytes_bytesPcre raw, found⟩

/-- The fast path reports the end of this occurrence for the pattern of the signature. -/
def FastAccepts (hs : Hyperscan) (d : PayloadDetector) (s : ContentSignature) (payload : List UInt8) (at' : Nat) : Prop :=
  ∃ patId, contentPattern patId s ∈ (FastPathCompiler.loadContentSignatures {} d.values).patterns ∧
    hs.reports (contentPattern patId s).expression payload (at' + s.pattern.length)

variable {d : PayloadDetector} {s : ContentSignature} {payload : List UInt8} {hs : Hyperscan}

theorem addContent_patterns (c : FastPathCompiler) (s : ContentSignature) :
    (c.addContent s).patterns = c.patterns ++ [contentPattern c.nextId s] := rfl

theorem mem_loadContentSignatures {rows : List ContentSignature} (member : s ∈ rows) (enabled : s.enabled = true) :
    ∃ patId, contentPattern patId s ∈ (FastPathCompiler.loadContentSignatures {} rows).patterns := by
  have inside : s ∈ rows.filter fun s => s.enabled := List.mem_filter.mpr ⟨member, enabled⟩
  unfold FastPathCompiler.loadContentSignatures
  have kept : ∀ (sigs : List ContentSignature) (c : FastPathCompiler) (p : Pattern),
      p ∈ c.patterns → p ∈ (sigs.foldl FastPathCompiler.addContent c).patterns := by
    intro sigs
    induction sigs with
    | nil => exact fun c p member => member
    | cons s sigs ih =>
      intro c p member
      exact ih _ p (by rw [addContent_patterns]; exact List.mem_append_left _ member)
  generalize ({} : FastPathCompiler) = c
  generalize (rows.filter fun s => s.enabled) = sigs at inside
  induction sigs generalizing c with
  | nil => cases inside
  | cons first sigs ih =>
    rcases List.mem_cons.mp inside with rfl | later
    · refine ⟨c.nextId, kept sigs _ _ ?_⟩
      rw [addContent_patterns]
      exact List.mem_append_right _ List.mem_cons_self
    · exact ih _ later

theorem patternFlags_caseless (flags : Text) (low high : Int) : 'i' ∈ patternFlags flags low high ↔ 'i' ∈ flags := by
  have keep : ∀ (p : Prop) [Decidable p] (flags : Text) (c : Char), c ≠ 'i' →
      ('i' ∈ (if p then flags ++ [c] else flags) ↔ 'i' ∈ flags) := by
    intro p _ flags c other
    split
    · simp [other.symm]
    · exact Iff.rfl
  simp only [patternFlags]
  rw [keep _ _ 'L' (by decide), keep _ _ 'H' (by decide), keep _ _ 's' (by decide)]

theorem contentPattern_expression (patId : Nat) (plain : s.isPcre = false) :
    (contentPattern patId s).expression = ⟨bytesPcre s.pattern,
      patternFlags (if s.nocase then ['i'] else []) (if s.offset > 0 then s.offset else 0)
      (if s.depth > 0 then s.offset + s.depth else 0),
      if s.offset > 0 then some s.offset else none, if s.depth > 0 ∧
      s.offset + s.depth ≠ 0 then some (s.offset + s.depth) else none⟩ := by
  simp only [contentPattern, Pattern.expression, plain, Bool.false_eq_true, if_false, Expression.mk.injEq, true_and]
  constructor
  · by_cases positive : s.offset > 0
    · rw [if_pos positive, if_pos positive, if_pos (by omega)]
    · rw [if_neg positive, if_neg positive, if_neg (by omega)]
  · by_cases positive : s.depth > 0
    · simp only [positive, if_true, true_and]
    · simp only [positive, if_false, false_and, ne_eq, not_true_eq_false]

theorem fastAccepts_iff (literal : hs.Literal) (installed : d.sigs.lookup s.sid = some s) (enabled : s.enabled = true)
    (plain : s.isPcre = false) (nonempty : s.pattern ≠ []) {at' : Nat} (occurs : s.Occurs payload at') :
    FastAccepts hs d s payload at' ↔
      (0 < s.offset → s.offset ≤ at' + s.pattern.length) ∧
        (0 < s.depth → s.offset + s.depth ≠ 0 → at' + s.pattern.length ≤ s.offset + s.depth) := by
  have here : if 'i' ∈ patternFlags (if s.nocase then ['i'] else []) (if s.offset > 0 then s.offset else 0)
        (if s.depth > 0 then s.offset + s.depth else 0) then lower s.pattern <+: (lower payload).drop at'
      else s.pattern <+: payload.drop at' := by
    simp only [patternFlags_caseless]
    rw [ContentSignature.Occurs, ContentSignature.fold, ContentSignature.fold] at occurs
    cases nocase : s.nocase with
    | false => simpa [nocase] using occurs
    | true => simpa [nocase] using occurs
  have reported : ∀ patId, hs.reports (contentPattern patId s).expression payload (at' + s.pattern.length) ↔
      (0 < s.offset → s.offset ≤ at' + s.pattern.length) ∧
        (0 < s.depth → s.offset + s.depth ≠ 0 → at' + s.pattern.length ≤ s.offset + s.depth) := by
    intro patId
    rw [contentPattern_expression patId plain, literal _ _ _ _ _ _ nonempty, and_iff_right ⟨at', rfl, here⟩]
    apply and_congr
    · by_cases positive : s.offset > 0
      · simp [positive]
      · simp [positive]
    · by_cases bounded : s.depth > 0 ∧ s.offset + s.depth ≠ 0
      · simp [bounded]
      · refine iff_of_true (by simp [bounded]) fun positive nonzero => ?_
        exact absurd ⟨positive, nonzero⟩ bounded
  obtain ⟨patId, loaded⟩ := mem_loadContentSignatures (PayloadDetector.mem_values.mpr installed) enabled
  constructor
  · rintro ⟨patId', -, found⟩
    exact (reported patId').mp found
  · intro within
    exact ⟨patId, loaded, (reported patId).mpr within⟩

theorem inWindow_iff {at' : Nat} (nonempty : s.pattern ≠ []) (occurs : s.Occurs payload at') :
    s.inWindow at' payload.length = true ↔ s.offset ≤ at' ∧ (0 < s.depth → at' < s.offset + s.depth) := by
  have inside : at' < payload.length := by
    obtain ⟨rest, whole⟩ := occurs
    have length := congrArg List.length whole
    have some' := List.length_pos_of_ne_nil nonempty
    rw [List.length_append, List.length_drop, fold_length, fold_length] at length
    omega
  simp only [ContentSignature.inWindow, ContentSignature.regionWindow, Bool.and_eq_true, decide_eq_true_eq, gt_iff_lt]
  by_cases positive : 0 < s.offset <;> by_cases bounded : 0 < s.depth
  all_goals simp only [positive, bounded, if_true, if_false, true_implies, false_implies, and_true]
  all_goals omega

/-! ### Where the two agree -/

/-- Every occurrence in the payload is accepted by both or by neither. -/
def WindowsAgree (hs : Hyperscan) (d : PayloadDetector) (s : ContentSignature) (payload : List UInt8) : Prop :=
  ∀ at' : Nat, s.Occurs payload at' → ((s.sid, (at' : Int)) ∈ d.inspect payload ↔ FastAccepts hs d s payload at')

/-- An occurrence at this place lies across an edge of the window: it starts before the
offset and ends after it, or it starts inside and ends beyond the depth. A window that
ends at 0 has no inside, but as a bound 0 is none. -/
def ContentSignature.AtEdge (s : ContentSignature) (at' : Nat) : Prop :=
  (at' < s.offset ∧ s.offset ≤ at' + s.pattern.length ∧ (0 < s.depth → at' + s.pattern.length ≤ s.offset + s.depth)) ∨
  (0 < s.depth ∧ s.offset ≤ at' ∧ at' < s.offset + s.depth ∧ s.offset + s.depth < at' + s.pattern.length) ∨
  (0 < s.depth ∧ s.offset + s.depth = 0)

theorem occurs_behind (s : ContentSignature) (at' : Nat) : s.Occurs (List.replicate at' 0 ++ s.pattern) at' := by
  have split : ∀ a b, s.fold (a ++ b) = s.fold a ++ s.fold b := by
    intro a b
    unfold ContentSignature.fold lower
    split
    · exact List.map_append
    · rfl
  have length : (s.fold (List.replicate at' 0)).length = at' := by
    rw [fold_length, List.length_replicate]
  rw [ContentSignature.Occurs, split, List.drop_left' length]

theorem agree_at_iff (literal : hs.Literal) (installed : d.sigs.lookup s.sid = some s) (enabled : s.enabled = true)
    (plain : s.isPcre = false) (nonempty : s.pattern ≠ []) {at' : Nat} (occurs : s.Occurs payload at') :
    ((s.sid, (at' : Int)) ∈ d.inspect payload ↔ FastAccepts hs d s payload at') ↔ ¬s.AtEdge at' := by
  have some' := List.length_pos_of_ne_nil nonempty
  rw [mem_inspect installed enabled plain nonempty, and_iff_right occurs, inWindow_iff nonempty occurs,
    fastAccepts_iff literal installed enabled plain nonempty occurs]
  unfold ContentSignature.AtEdge
  by_cases bounded : 0 < s.depth
  all_goals simp only [bounded, true_implies, false_implies, true_and, false_and, and_true, or_false]
  all_goals omega

theorem never_atEdge_iff (nonempty : s.pattern ≠ []) : (∀ at', ¬s.AtEdge at') ↔
    s.offset ≤ 0 ∧ (s.depth ≤ 0 ∨ s.offset + s.depth < 0 ∨ 0 < s.offset + s.depth ∧ s.pattern.length = 1) := by
  have some' := List.length_pos_of_ne_nil nonempty
  unfold ContentSignature.AtEdge
  constructor
  · intro never
    have low : s.offset ≤ 0 := by
      by_contra high
      by_cases fits : s.depth ≤ 0 ∨ (s.pattern.length : Int) ≤ s.offset + s.depth
      · -- an occurrence that ends at the offset, or as soon after it as it can
        exact never (s.offset.toNat - s.pattern.length) (.inl ⟨by omega, by omega, fun _ => by omega⟩)
      · exact never s.offset.toNat (.inr (.inl ⟨by omega, by omega, by omega, by omega⟩))
    refine ⟨low, ?_⟩
    by_cases unbounded : s.depth ≤ 0
    · exact .inl unbounded
    · have nonzero : s.offset + s.depth ≠ 0 := fun zero => never 0 (.inr (.inr ⟨by omega, zero⟩))
      by_cases ends : s.offset + s.depth < 0
      · exact .inr (.inl ends)
      · refine .inr (.inr ⟨by omega, ?_⟩)
        by_contra long
        -- an occurrence at the last place of the window
        exact never (s.offset + s.depth - 1).toNat (.inr (.inl ⟨by omega, by omega, by omega, by omega⟩))
  · rintro ⟨low, high⟩ at' (⟨early, -⟩ | ⟨bounded, -, inside, beyond⟩ | ⟨bounded, zero⟩)
    · omega
    · omega
    · omega

/-- The two engines accept the same occurrences in a payload just when none lies across an
edge of the window, and in every payload just when none can. -/
theorem windows_agree_iff (hs : Hyperscan) (literal : hs.Literal) (d : PayloadDetector) (s : ContentSignature)
    (installed : d.sigs.lookup s.sid = some s) (enabled : s.enabled = true) (plain : s.isPcre = false) (nonempty : s.pattern ≠ []) :
    (∀ payload, WindowsAgree hs d s payload ↔ ∀ at', s.Occurs payload at' → ¬s.AtEdge at') ∧
      ((∀ payload, WindowsAgree hs d s payload) ↔
        s.offset ≤ 0 ∧ (s.depth ≤ 0 ∨ s.offset + s.depth < 0 ∨ 0 < s.offset + s.depth ∧ s.pattern.length = 1)) := by
  have each : ∀ payload, WindowsAgree hs d s payload ↔ ∀ at', s.Occurs payload at' → ¬s.AtEdge at' := by
    intro payload
    exact forall₂_congr fun at' occurs => agree_at_iff literal installed enabled plain nonempty occurs
  refine ⟨each, ?_⟩
  rw [← never_atEdge_iff nonempty]
  constructor
  · intro agree at'
    exact (each _).mp (agree _) at' (occurs_behind s at')
  · intro never payload
    exact (each payload).mpr fun at' _ => never at'

/-- `AB` from the second byte on. -/
def shifted : ContentSignature := { sid := 1, pattern := [0x41, 0x42], offset := 1 }

def shiftedDetector : PayloadDetector where
  sigs := Dict.assign ∅ 1 shifted
  keyed := by
    intro sid s found
    rw [Dict.lookup_assign] at found
    split at found
    · rename_i same
      obtain rfl := Option.some.inj found
      exact same.symm
    · simp at found

theorem windows_agree_shifted :
    (∀ payload, WindowsAgree literalScan shiftedDetector shifted payload ↔
      ∀ at', shifted.Occurs payload at' → ¬shifted.AtEdge at') ∧
    ((∀ payload, WindowsAgree literalScan shiftedDetector shifted payload) ↔
      shifted.offset ≤ 0 ∧ (shifted.depth ≤ 0 ∨ shifted.offset + shifted.depth < 0 ∨
        0 < shifted.offset + shifted.depth ∧ shifted.pattern.length = 1)) :=
  windows_agree_iff literalScan literalScan_literal shiftedDetector shifted (by decide) rfl rfl (by decide)

/-- The payload `AB` has the pattern at 0: the inline detector refuses it, the fast path
takes it for its end at 2. -/
theorem early_start_accepted :
    shifted.Occurs [0x41, 0x42] 0 ∧ (shifted.sid, 0) ∉ shiftedDetector.inspect [0x41, 0x42] ∧
      FastAccepts literalScan shiftedDetector shifted [0x41, 0x42] 0 := by
  have installed : shiftedDetector.sigs.lookup shifted.sid = some shifted := by decide
  have occurs : shifted.Occurs [0x41, 0x42] 0 := by decide
  refine ⟨occurs, ?_, ?_⟩
  · intro found
    have inside := ((mem_inspect installed rfl rfl (by decide)).mp found).2
    exact absurd inside (by decide)
  · exact (fastAccepts_iff literalScan_literal installed rfl rfl (by decide) occurs).mpr (by decide)

end FfnNgfw.Detect
