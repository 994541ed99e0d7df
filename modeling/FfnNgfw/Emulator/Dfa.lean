import FfnNgfw.Emulator.Parser
import FfnNgfw.Lib.Fallible
import FfnNgfw.Lib.Worklist
import Mathlib.Data.List.Dedup

/-!
# The tables of the emulator

A pattern is compiled to a table by the subset construction, unless something in it is not
supported; the scan walks the table. A set of states is a list in ascending order. The order
in which Python goes over a set is not specified, and the numbers of the states depend on it;
here it is the order of the list.
-/

namespace FfnNgfw.Emulator
open Threatdb (Text)

/-- `_eps_closure` -/
def epsClosure (nfa : Nfa) (states : List Nat) : List Nat :=
  (List.range nfa.size).filter (· ∈ Worklist.explore nfa.eps nfa.size states states)

structure Dfa where
  trans : List (List Int)
  accept : List Nat
  start : Nat := 0
  nStates : Nat := 0

/-- `row[b] = j`, where a negative index counts from the end. -/
def setRow (row : List Int) (b : Int) (j : Nat) : Except Stop (List Int) :=
  if 0 ≤ b ∧ b < row.length then .ok (row.set b.toNat j)
  else if b < 0 ∧ 0 ≤ b + row.length then .ok (row.set (b + row.length).toNat j)
  else .error .index

/-- The keys of `by_byte`. -/
def bytesOf (nfa : Nfa) (cur : List Nat) : List Int := (cur.flatMap fun st => (nfa.sym st).flatMap Prod.fst).dedup

/-- The states of `by_byte` for one byte. -/
def targets (nfa : Nfa) (cur : List Nat) (b : Int) : List Nat :=
  (cur.flatMap fun st => (nfa.sym st).filterMap fun e => if b ∈ e.1 then some e.2 else none).dedup

/-- One byte of a row: `order` is also the table from a set of states to its number. -/
def fillByte (nfa : Nfa) (cur : List Nat) (maxStates : Nat) (acc : List (List Nat) × List Int) (b : Int) :
    Except Stop (List (List Nat) × List Int) :=
  let nxt := epsClosure nfa (targets nfa cur b)
  match acc.1.idxOf? nxt with
  | some j => (setRow acc.2 b j).map fun row => (acc.1, row)
  | none =>
    if maxStates ≤ acc.1.length then .error .unsupported
    else (setRow acc.2 b acc.1.length).map fun row => (acc.1 ++ [nxt], row)

/-- The loop over `order`, which grows; as many rows are done as sets have been taken. -/
def subsetLoop (nfa : Nfa) (accept maxStates : Nat) : Nat → List (List Nat) → List (List Int) → List Nat → Except Stop Dfa
  | 0, _, _, _ => .error .bound
  | n + 1, order, rows, acceptStates =>
    match order[rows.length]? with
    | none => .ok { trans := rows, accept := acceptStates, start := 0, nStates := order.length }
    | some cur => do
      let (order, row) ← (bytesOf nfa cur).foldlM (fillByte nfa cur maxStates) (order, List.replicate 256 (-1))
      subsetLoop nfa accept maxStates n order (rows ++ [row]) (if accept ∈ cur then acceptStates ++ [rows.length] else acceptStates)

def subsetConstruct (nfa : Nfa) (start accept : Nat) : Except Stop Dfa :=
  subsetLoop nfa accept 4096 4097 [epsClosure nfa [start]] [] []

/-- What sends a pattern to `re` at once, with the character before. -/
def forcedAt (prev : Option Char) (c : Char) (t : Text) : Bool :=
  c = '{' ∨ (c = '(' ∧ t.head? = some '?') ∨
    (c = '\\' ∧ t.head?.any (· ∈ ['b', 'B', 'A', 'Z', '1', '2', '3', '4', '5', '6', '7', '8', '9'])) ∨
    ((c = '^' ∨ c = '$') ∧ prev ≠ some '\\')

/-- `_FORCE_RE.search` -/
def forceRe : Option Char → Text → Bool
  | _, [] => false
  | prev, c :: t => forcedAt prev c t || forceRe (some c) t

/-- The automaton and the table of a pattern, or nothing when the pattern is left to `re`. -/
def compile (decimal : Char → Option Nat) (pattern : Text) : Option (Nfa × Dfa) :=
  if forceRe none pattern then none
  else
    match parse decimal pattern with
    | .error _ => none
    | .ok (frag, nfa) =>
      match subsetConstruct nfa frag.1 frag.2 with
      | .error _ => none
      | .ok dfa => some (nfa, dfa)

/-- `trans[state][b]` -/
def Dfa.next (dfa : Dfa) (state : Nat) (b : UInt8) : Int := (dfa.trans.getD state []).getD b.toNat (-1)

/-- The loop of `_dfa_match_at` over the bytes from `j` on. -/
def Dfa.walk (dfa : Dfa) : Nat → Int → Nat → List UInt8 → Int
  | _, last, _, [] => last
  | state, last, j, b :: data =>
    if dfa.next state b < 0 then last
    else
      let state := (dfa.next state b).toNat
      dfa.walk state (if state ∈ dfa.accept then ((j + 1 : Nat) : Int) else last) (j + 1) data

def Dfa.matchAt (dfa : Dfa) (data : List UInt8) (i : Nat) : Int :=
  dfa.walk dfa.start (if dfa.start ∈ dfa.accept then (i : Int) else -1) i (data.drop i)

/-- The loop of `find_all` from `i` on. -/
def Dfa.findFrom (dfa : Dfa) (data : List UInt8) : Nat → Nat → List (Nat × Nat)
  | 0, _ => []
  | n + 1, i =>
    if i < data.length then
      let fin := dfa.matchAt data i
      if (i : Int) < fin then (i, fin.toNat) :: dfa.findFrom data n fin.toNat else dfa.findFrom data n (i + 1)
    else []

def Dfa.findAll (dfa : Dfa) (data : List UInt8) : List (Nat × Nat) := dfa.findFrom data data.length 0

theorem setRow_stop {row : List Int} {b : Int} {j : Nat} : setRow row b j ≠ .error .bound := by
  unfold setRow
  split_ifs <;> intro same <;> cases same

theorem fillByte_stop {nfa : Nfa} {cur : List Nat} {maxStates : Nat} {acc : List (List Nat) × List Int} {b : Int} :
    fillByte nfa cur maxStates acc b ≠ .error .bound := by
  have written : ∀ (j : Nat) (f : List Int → List (List Nat) × List Int), (setRow acc.2 b j).map f ≠ .error .bound := by
    intro j f same
    cases set : setRow acc.2 b j with
    | error e =>
      rw [set] at same
      cases same
      exact setRow_stop set
    | ok row =>
      rw [set] at same
      cases same
  unfold fillByte
  dsimp only
  split
  · exact written _ _
  · split
    · exact fun same => by cases same
    · exact written _ _

theorem fillByte_order {nfa : Nfa} {cur : List Nat} {maxStates : Nat} {acc acc' : List (List Nat) × List Int} {b : Int}
    (filled : fillByte nfa cur maxStates acc b = .ok acc') :
    acc.1.length ≤ acc'.1.length ∧ (acc.1.length ≤ maxStates → acc'.1.length ≤ maxStates) := by
  unfold fillByte at filled
  dsimp only at filled
  split at filled
  · obtain ⟨row, -, rfl⟩ := map_ok filled
    exact ⟨Nat.le_refl _, id⟩
  · split at filled
    · cases filled
    · rename_i room
      obtain ⟨row, -, rfl⟩ := map_ok filled
      rw [List.length_append, List.length_singleton]
      omega

theorem subsetLoop_ends {nfa : Nfa} {accept maxStates n : Nat} {order : List (List Nat)} {rows : List (List Int)}
    {acceptStates : List Nat}
    (bound : order.length ≤ maxStates) (short : rows.length ≤ order.length) (enough : maxStates < n + rows.length) :
    subsetLoop nfa accept maxStates n order rows acceptStates ≠ .error .bound := by
  induction n generalizing order rows acceptStates with
  | zero => omega
  | succ n ih =>
    rw [subsetLoop]
    split
    · exact fun same => by cases same
    · rename_i cur current
      have inside := (List.getElem?_eq_some_iff.mp current).1
      intro same
      cases filled : (bytesOf nfa cur).foldlM (fillByte nfa cur maxStates) (order, List.replicate 256 (-1)) with
      | error e =>
        rw [filled] at same
        cases same
        obtain ⟨acc, b, -, stopped⟩ := foldlM_error filled
        exact fillByte_stop stopped
      | ok acc =>
        rw [filled] at same
        have lengths := foldlM_invariant (fun _ acc => order.length ≤ acc.1.length ∧ acc.1.length ≤ maxStates)
            (fun _ acc b acc' old one => by
          have step := fillByte_order one
          omega) ⟨Nat.le_refl _, bound⟩ filled
        refine ih lengths.2 ?_ ?_ same
        · rw [List.length_append, List.length_singleton]
          omega
        · rw [List.length_append, List.length_singleton]
          omega

theorem subsetConstruct_ends (nfa : Nfa) (start accept : Nat) : subsetConstruct nfa start accept ≠ .error .bound :=
  subsetLoop_ends (by rw [List.length_singleton]; omega) (Nat.zero_le _) (by rw [List.length_nil]; omega)

end FfnNgfw.Emulator
