import FfnNgfw.Emulator.Reading
import FfnNgfw.Emulator.Subset

/-!
# Compiled patterns and their languages

A pattern that is compiled to a table matches the longest word of its language, provided that
every `\x` stands before two hexadecimal digits and no quantifier where an operand is expected.
The parser takes texts without these two properties as well: `\x-5` becomes a set with the
number -5, and a leading `*` is read as a literal.
-/

namespace FfnNgfw.Emulator
open Threatdb (Text)

/-- The end of the longest word of the language that stands at `i`, or -1. -/
def Longest (L : Language UInt8) (data : List UInt8) (i : Nat) (fin : Int) : Prop :=
  (fin = -1 ∧ ∀ w, w <+: data.drop i → w ∉ L) ∨
    ∃ w, w <+: data.drop i ∧ w ∈ L ∧ fin = (i + w.length : Nat) ∧ ∀ v, v <+: data.drop i → v ∈ L → v.length ≤ w.length

def Nfa.Bytes (nfa : Nfa) : Prop := ∀ q bs t, (bs, t) ∈ nfa.sym q → ∀ x ∈ bs, 0 ≤ x ∧ x < 256

section

variable {nfa : Nfa} {dfa : Dfa} {cur : List Nat} {s a k j maxStates : Nat} {last : Int} {order : List (List Nat)} {data : List UInt8}

theorem Table.next (table : Table nfa a maxStates order dfa.trans dfa.accept) (full : order.length = dfa.trans.length)
    (here : order[k]? = some cur) :
    ∃ row, RowOk nfa order cur row ∧ ∀ b, dfa.next k b = row.getD b.toNat (-1) := by
  have inside := (List.getElem?_eq_some_iff.mp here).1
  rw [full] at inside
  have found := List.getElem?_eq_getElem inside
  obtain ⟨cur', there, ok⟩ := table.row k _ found
  rw [here] at there
  cases there
  refine ⟨_, ok, fun b => ?_⟩
  have value : dfa.trans.getD k [] = dfa.trans[k] := by rw [List.getD_eq_getElem?_getD, found, Option.getD_some]
  rw [Dfa.next, value]

theorem Table.accepting (table : Table nfa a maxStates order dfa.trans dfa.accept) (full : order.length = dfa.trans.length)
    (here : order[k]? = some cur) :
    k ∈ dfa.accept ↔ Leads nfa cur [] a := by
  have inside := (List.getElem?_eq_some_iff.mp here).1
  rw [full] at inside
  rw [table.accepts, here, leads_nil (table.shut cur (List.mem_of_getElem? here)), and_iff_right inside]
  constructor
  · rintro ⟨cur', same, member⟩
    cases same
    exact member
  · exact fun member => ⟨cur, rfl, member⟩

theorem walk_longest (wf : nfa.Wf) (table : Table nfa a maxStates order dfa.trans dfa.accept) (full : order.length = dfa.trans.length)
    (here : order[k]? = some cur) :
    (dfa.walk k last j data = last ∧ ∀ w, w <+: data → w ≠ [] → ¬Leads nfa cur w a) ∨
      ∃ w, w <+: data ∧ Leads nfa cur w a ∧ dfa.walk k last j data = (j + w.length : Nat) ∧ ∀ v, v <+: data →
        Leads nfa cur v a → v.length ≤ w.length := by
  induction data generalizing k last j cur with
  | nil => exact .inl ⟨rfl, fun w front some' => absurd (List.prefix_nil.mp front) some'⟩
  | cons b data ih =>
    have shut := table.shut cur (List.mem_of_getElem? here)
    obtain ⟨row, ok, next⟩ := table.next full here
    by_cases alive : (b.toNat : Int) ∈ bytesOf nfa cur
    · obtain ⟨i, there, value⟩ := ok.moves b alive
      have moved : dfa.next k b = i := (next b).trans value
      have accepting := table.accepting full there
      rw [Dfa.walk, if_neg (by omega), moved, Int.toNat_natCast]
      have heads : ∀ v, v <+: b :: data → Leads nfa cur v a → v = [] ∨ ∃ v', v = b :: v' ∧ v' <+: data ∧
          Leads nfa (after nfa cur b.toNat) v' a := by
        intro v front leads
        cases v with
        | nil => exact .inl rfl
        | cons c v =>
          obtain ⟨rfl, rest⟩ := List.cons_prefix_cons.mp front
          exact .inr ⟨v, rfl, rest, (leads_cons wf shut).mp leads⟩
      have later : ∀ last', _ := fun last' => @ih _ i (j + 1) last' there
      rcases later _ with ⟨same, nothing⟩ | ⟨w, front, leads, same, longest⟩
      · dsimp only
        rw [same]
        split
        · rename_i accepted
          refine .inr ⟨[b], List.cons_prefix_cons.mpr ⟨rfl, List.nil_prefix⟩, (leads_cons wf shut).mpr (accepting.mp accepted),
            rfl, fun v front leads => ?_⟩
          rcases heads v front leads with rfl | ⟨v', rfl, rest, leads'⟩
          · exact Nat.zero_le _
          · by_cases empty : v' = []
            · rw [empty]
            · exact absurd leads' (nothing v' rest empty)
        · rename_i rejected
          refine .inl ⟨rfl, fun w front some' leads => ?_⟩
          rcases heads w front leads with rfl | ⟨w', rfl, rest, leads'⟩
          · exact some' rfl
          · by_cases empty : w' = []
            · subst empty
              exact rejected (accepting.mpr leads')
            · exact nothing w' rest empty leads'
      · refine .inr ⟨b :: w, List.cons_prefix_cons.mpr ⟨rfl, front⟩, (leads_cons wf shut).mpr leads, ?_, fun v front' leads' => ?_⟩
        · dsimp only
          rw [same, List.length_cons]
          omega
        · rcases heads v front' leads' with rfl | ⟨v', rfl, rest, leads''⟩
          · exact Nat.zero_le _
          · exact Nat.succ_le_succ (longest v' rest leads'')
    · have stops : dfa.next k b = -1 := (next b).trans (ok.dead b alive)
      rw [Dfa.walk, if_pos (by omega)]
      refine .inl ⟨rfl, fun w front some' leads => ?_⟩
      cases w with
      | nil => exact some' rfl
      | cons c w =>
        obtain ⟨rfl, -⟩ := List.cons_prefix_cons.mp front
        exact after_nil wf alive ((leads_cons wf shut).mp leads)

theorem subsetConstruct_table (wf : nfa.Wf) (inside : s < nfa.size) (built : subsetConstruct nfa s a = .ok dfa) :
    ∃ order, order[0]? = some (epsClosure nfa [s]) ∧ Table nfa a 4096 order dfa.trans dfa.accept ∧
      order.length = dfa.trans.length ∧ dfa.start = 0 := by
  have single : ∀ q ∈ [s], q < nfa.size := fun q member => by rw [List.mem_singleton.mp member]; exact inside
  have first : Table nfa a 4096 [epsClosure nfa [s]] [] [] := by
    refine ⟨fun c member => ?_, ?_, Nat.zero_le _, fun k row found => ?_, fun k => ?_⟩
    · rw [List.mem_singleton.mp member]
      exact epsClosure_shut wf (List.nodup_singleton s) single
    · rw [List.length_singleton]
      omega
    · rw [List.getElem?_nil] at found
      cases found
    · exact ⟨fun member => absurd member List.not_mem_nil, fun both => absurd both.1 (Nat.not_lt_zero k)⟩
  obtain ⟨order, more, table, full, start⟩ := subsetLoop_table wf first built
  exact ⟨order, prefix_getElem more rfl, table, full, start⟩

theorem leads_start (wf : nfa.Wf) (inside : s < nfa.size) {w : List UInt8} {q : Nat} : Leads nfa (epsClosure nfa [s]) w q ↔
    nfa.moves.Path s w q := by
  have single : ∀ q ∈ [s], q < nfa.size := fun q member => by rw [List.mem_singleton.mp member]; exact inside
  constructor
  · rintro ⟨p, member, path⟩
    obtain ⟨r, start, silent⟩ := (mem_epsClosure wf (List.nodup_singleton s) single).mp member
    rw [List.mem_singleton.mp start] at silent
    exact silent.trans path
  · exact fun path => ⟨s, (mem_epsClosure wf (List.nodup_singleton s) single).mpr ⟨s, List.mem_cons_self, .nil s⟩, path⟩

theorem Table.reaches (wf : nfa.Wf) (table : Table nfa a maxStates order dfa.trans dfa.accept) (full : order.length = dfa.trans.length)
    (here : order[k]? = some cur) {w : List UInt8} {q : Nat} (leads : Leads nfa cur w q) :
    ∃ (k : Nat) (cur : List Nat), order[k]? = some cur ∧ q ∈ cur := by
  induction w generalizing k cur with
  | nil => exact ⟨k, cur, here, (leads_nil (table.shut cur (List.mem_of_getElem? here))).mp leads⟩
  | cons b w ih =>
    obtain ⟨row, ok, -⟩ := table.next full here
    have later := (leads_cons wf (table.shut cur (List.mem_of_getElem? here))).mp leads
    by_cases alive : (b.toNat : Int) ∈ bytesOf nfa cur
    · obtain ⟨i, there, -⟩ := ok.moves b alive
      exact ih there later
    · exact absurd later (after_nil wf alive)

theorem construct_matches {L : Language UInt8} (wf : nfa.Wf) (fragment : nfa.moves.Fragment (Set.Ico 0 nfa.size) s a L)
    (built : subsetConstruct nfa s a = .ok dfa) : nfa.Bytes ∧ ∀ data i, Longest L data i (dfa.matchAt data i) := by
  have inside := fragment.entry.2
  obtain ⟨order, first, table, full, start⟩ := subsetConstruct_table wf inside built
  refine ⟨fun q bs t listed x member => ⟨wf.natural q bs t listed x member, ?_⟩, fun data i => ?_⟩
  · obtain ⟨w, path⟩ := fragment.reached q ⟨Nat.zero_le q, (wf.sym q bs t listed).1⟩
    obtain ⟨k, cur, here, found⟩ := table.reaches wf full first ((leads_start wf inside).mpr path)
    obtain ⟨row, ok, -⟩ := table.next full here
    exact ok.low x (mem_bytesOf.mpr ⟨q, found, bs, t, listed, member⟩)
  · have words : ∀ w, Leads nfa (epsClosure nfa [s]) w a ↔ w ∈ L := fun w => (leads_start wf inside).trans (fragment.words w)
    have accepting : dfa.start ∈ dfa.accept ↔ [] ∈ L := by
      rw [start, table.accepting full first, words]
    rw [Dfa.matchAt]
    have walked := @walk_longest nfa dfa _ a 0 i 4096 (if dfa.start ∈ dfa.accept then (i : Int) else -1)
        order (data.drop i) wf table full first
    rw [start] at walked ⊢
    simp only [words] at walked
    rw [start] at accepting
    rcases walked with ⟨same, nothing⟩ | found
    · rw [same]
      split
      · rename_i accepted
        refine .inr ⟨[], List.nil_prefix, accepting.mp accepted, rfl, fun v front member => ?_⟩
        by_contra longer
        exact nothing v front (fun empty => longer (by rw [empty])) member
      · rename_i rejected
        refine .inl ⟨rfl, fun w front member => ?_⟩
        by_cases empty : w = []
        · subst empty
          exact rejected (accepting.mpr member)
        · exact nothing w front empty member
    · obtain ⟨w, front, member, same, longest⟩ := found
      exact .inr ⟨w, front, member, same, longest⟩

end

theorem forceRe_tame {prev : Option Char} {t : Text} (calm : forceRe prev t = false) : Tame t := by
  have later : ∀ (u : Text) (prev : Option Char) (t : Text), forceRe prev (u ++ t) = false → ∃ prev', forceRe prev' t = false := by
    intro u
    induction u with
    | nil => exact fun prev t calm => ⟨prev, calm⟩
    | cons c u ih =>
      intro prev t calm
      rw [List.cons_append, forceRe, Bool.or_eq_false_iff] at calm
      exact ih (some c) t calm.2
  constructor
  · intro brace
    obtain ⟨u, v, rfl⟩ := List.append_of_mem brace
    obtain ⟨prev', calm'⟩ := later u prev _ calm
    rw [forceRe, Bool.or_eq_false_iff] at calm'
    simp [forcedAt] at calm'
  · rintro ⟨u, v, rfl⟩
    rw [List.append_assoc] at calm
    obtain ⟨prev', calm'⟩ := later u prev _ calm
    rw [List.cons_append, forceRe, Bool.or_eq_false_iff, List.cons_append, forceRe, Bool.or_eq_false_iff] at calm'
    simp [forcedAt] at calm'

theorem compile_parts {decimal : Char → Option Nat} {pattern : Text} {nfa : Nfa} {dfa : Dfa}
    (compiled : compile decimal pattern = some (nfa, dfa)) :
    forceRe none pattern = false ∧ ∃ frag, parse decimal pattern = .ok (frag, nfa) ∧ subsetConstruct nfa frag.1 frag.2 = .ok dfa := by
  unfold compile at compiled
  split at compiled
  · cases compiled
  · rename_i calm
    split at compiled
    · cases compiled
    · rename_i frag nfa' parsed
      split at compiled
      · cases compiled
      · rename_i dfa' built
        cases compiled
        exact ⟨Bool.eq_false_iff.mpr calm, frag, parsed, built⟩

/-- Exactly the compiled texts that scan are patterns whose table matches their language. -/
theorem compiled_longest_iff {decimal : Char → Option Nat} {pattern : Text} {nfa : Nfa} {dfa : Dfa}
    (compiled : compile decimal pattern = some (nfa, dfa)) :
    (nfa.Bytes ∧ ∃ r, Reads .alt pattern r ∧ ∀ data i, Longest r.lang data i (dfa.matchAt data i)) ↔ scan .start pattern = true := by
  constructor
  · rintro ⟨-, r, reads, -⟩
    exact reads.scan
  · intro scans
    obtain ⟨calm, frag, parsed, built⟩ := compile_parts compiled
    obtain ⟨L, made, read⟩ := parse_reads parsed (forceRe_tame calm) scans
    obtain ⟨bytes, longest⟩ := construct_matches made.wf made.fragment built
    obtain ⟨r, reads, same⟩ := read fun q bs t listed x member => (bytes q bs t listed x member).2
    refine ⟨bytes, r, reads, ?_⟩
    rw [same]
    exact longest

def plainPattern : Text := ['(', 'a', '|', 'b', ')', '+', 'c', '?']

theorem plainPattern_compiles : (compile (fun _ => none) plainPattern).isSome = true := by decide +kernel

theorem plainPattern_longest : ∃ c, compile (fun _ => none) plainPattern = some c ∧ c.1.Bytes ∧
    ∃ r, Reads .alt plainPattern r ∧ ∀ data i, Longest r.lang data i (c.2.matchAt data i) := by
  obtain ⟨c, compiled⟩ := Option.isSome_iff_exists.mp plainPattern_compiles
  exact ⟨c, compiled, (compiled_longest_iff compiled).mpr (by decide)⟩

def negativePattern : Text := ['\\', 'x', '-', '5']

/-- `\x-5` is compiled to a table, with a set that holds -5, and it is no pattern. -/
theorem negative_escape_compiles : ∃ c, compile (fun _ => none) negativePattern = some c ∧ ([-5], 1) ∈ c.1.sym 0 ∧ ¬c.1.Bytes ∧
    ¬∃ r, Reads .alt negativePattern r := by
  have some' : (compile (fun _ => none) negativePattern).any (fun c => ([-5], 1) ∈ c.1.sym 0) = true := by decide +kernel
  obtain ⟨c, compiled, listed⟩ := (Option.any_eq_true _ _).mp some'
  have member : ([-5], 1) ∈ c.1.sym 0 := of_decide_eq_true listed
  refine ⟨c, compiled, member, fun bytes => ?_, fun read => ?_⟩
  · have natural := (bytes 0 [-5] 1 member (-5) List.mem_cons_self).1
    omega
  · obtain ⟨r, reads⟩ := read
    have scans := reads.scan
    revert scans
    decide

end FfnNgfw.Emulator
