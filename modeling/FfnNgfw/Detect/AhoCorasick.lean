import FfnNgfw.Lib.AhoCorasick

/-!
# The multi-pattern automaton

The class `AhoCorasick` of the payload detector. Its loops take a bound on their rounds
here, and a call whose loops are not over within it has no result.
-/

namespace FfnNgfw.Detect

inductive AcError where
  | runtimeError
  | valueError
  deriving DecidableEq

structure AhoCorasick (τ : Type) where
  nodes : Automaton UInt8 τ := .empty
  built : Bool := false
  npat : Nat := 0

namespace AhoCorasick

variable {τ : Type}

def add (ac : AhoCorasick τ) (pattern : List UInt8) (tag : τ) : Except AcError (AhoCorasick τ) :=
  if ac.built then .error .runtimeError
  else if pattern = [] then .error .valueError
  else .ok { ac with nodes := ac.nodes.add pattern tag, npat := ac.npat + 1 }

def build (fuel : Nat) (ac : AhoCorasick τ) : Option (AhoCorasick τ) :=
  (ac.nodes.buildIn fuel).map fun nodes => { ac with nodes := nodes, built := true }

def iterMatches (fuel : Nat) (ac : AhoCorasick τ) (data : List UInt8) : Option (List (Nat × τ)) :=
  (if ac.built then some ac else ac.build fuel).bind fun ac => ac.nodes.iterMatchesIn fuel data

def addAll (ac : AhoCorasick τ) (patterns : List (List UInt8 × τ)) : Except AcError (AhoCorasick τ) :=
  patterns.foldlM (fun ac p => ac.add p.1 p.2) ac

theorem addAll_nodes (patterns : List (List UInt8 × τ)) (nonempty : ∀ p t, (p, t) ∈ patterns → p ≠ []) (ac : AhoCorasick τ)
    (open' : ac.built = false) : ac.addAll patterns = .ok ⟨ac.nodes.addAll patterns, false, ac.npat + patterns.length⟩ := by
  induction patterns generalizing ac with
  | nil =>
    obtain ⟨nodes, built, npat⟩ := ac
    obtain rfl : built = false := open'
    rfl
  | cons p patterns ih =>
    have some' := nonempty p.1 p.2 List.mem_cons_self
    have added : ac.add p.1 p.2 = .ok { ac with nodes := ac.nodes.add p.1 p.2, npat := ac.npat + 1 } := by
      simp [add, open', some']
    have later := ih (fun q t member => nonempty q t (List.mem_cons_of_mem _ member))
      { ac with nodes := ac.nodes.add p.1 p.2, npat := ac.npat + 1 } open'
    rw [addAll, List.foldlM_cons, added]
    refine later.trans ?_
    rw [List.length_cons, Nat.add_comm patterns.length 1, ← Nat.add_assoc]
    rfl

/-- The patterns are accepted, the loops of `build` and of the scan end, and the scan
yields what occurs, each pattern as often as it was added. -/
theorem iter_matches_exact (patterns : List (List UInt8 × τ)) (nonempty : ∀ p t, (p, t) ∈ patterns → p ≠ []) (data : List UInt8) :
    ∃ ac : AhoCorasick τ, addAll {} patterns = .ok ac ∧ ∃ enough, ∀ fuel, enough ≤ fuel →
      ∃ built found, ac.build fuel = some built ∧ built.iterMatches fuel data = some found ∧ ac.iterMatches fuel data = some found ∧
        found.Perm (Automaton.occurrences patterns data) := by
  refine ⟨_, addAll_nodes patterns nonempty {} rfl, (Automaton.addAll (.empty : Automaton UInt8 τ) patterns).size, fun fuel enough => ?_⟩
  obtain ⟨built, scanned⟩ := Automaton.loops_end nonempty data enough
  have done : build fuel ⟨.addAll .empty patterns, false, 0 + patterns.length⟩ =
      some ⟨(Automaton.addAll .empty patterns).build, true, 0 + patterns.length⟩ := by
    rw [build, built]
    rfl
  refine ⟨_, _, done, scanned, ?_, Automaton.iterMatches_perm nonempty data⟩
  rw [iterMatches, if_neg Bool.false_ne_true, done]
  exact scanned

/-- `he`, `she`, `his` and `hers` -/
def ushersPatterns : List (List UInt8 × Nat) :=
  [([0x68, 0x65], 1), ([0x73, 0x68, 0x65], 2), ([0x68, 0x69, 0x73], 3), ([0x68, 0x65, 0x72, 0x73], 4)]

/-- `ushers` -/
def ushers : List UInt8 := [0x75, 0x73, 0x68, 0x65, 0x72, 0x73]

theorem ushersPatterns_nonempty : ∀ p t, (p, t) ∈ ushersPatterns → p ≠ [] := by
  intro p t member
  rintro rfl
  simp [ushersPatterns] at member

theorem ushers_exact :
    Automaton.occurrences ushersPatterns ushers = [(3, 1), (3, 2), (5, 4)] ∧
      ∃ ac : AhoCorasick Nat, addAll {} ushersPatterns = .ok ac ∧ ∃ enough, ∀ fuel, enough ≤ fuel →
        ∃ built found, ac.build fuel = some built ∧ built.iterMatches fuel ushers = some found ∧
          ac.iterMatches fuel ushers = some found ∧
          found.Perm (Automaton.occurrences ushersPatterns ushers) :=
  ⟨by decide, iter_matches_exact ushersPatterns ushersPatterns_nonempty ushers⟩

end AhoCorasick
end FfnNgfw.Detect
