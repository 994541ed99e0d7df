import Mathlib.Logic.Function.Basic
import Mathlib.Tactic.Common

/-!
# Open-addressed tables

A table is an array of slots. A key is looked for along its probe sequence up to
the first free slot. Entries are added in that free slot and never removed, so a
table in which every entry is found under its own key stays so, and behaves as a
partial map from keys to entries.
-/

namespace FfnNgfw

/-- How a table is read: which entries are in use, under which key, and the
slots at which a key is looked for. -/
structure Scheme (K E : Type) where
  used : E → Bool
  key : E → K
  slot : K → Nat → Nat
  probes : Nat

inductive Probe where
  | hit (i : Nat)
  | free (i : Nat)
  | full
  deriving DecidableEq

namespace Scheme

variable {K E : Type} [DecidableEq K] (s : Scheme K E)

/-- Walk `n` slots of the probe sequence of `k` from its `p`-th slot on. -/
def probeFrom (t : Nat → E) (k : K) : Nat → Nat → Probe
  | 0, _ => .full
  | n + 1, p =>
    if s.used (t (s.slot k p)) = false then .free (s.slot k p)
    else if s.key (t (s.slot k p)) = k then .hit (s.slot k p)
    else probeFrom t k n (p + 1)

def probe (t : Nat → E) (k : K) : Probe := s.probeFrom t k s.probes 0

def get (t : Nat → E) (k : K) : Option E :=
  match s.probe t k with
  | .hit i => some (t i)
  | _ => none

def Wf (t : Nat → E) : Prop := ∀ j, s.used (t j) = true → s.probe t (s.key (t j)) = .hit j

variable {s} {t : Nat → E} {k : K}

theorem probeFrom_hit {n p i : Nat} (h : s.probeFrom t k n p = .hit i) :
    s.used (t i) = true ∧ s.key (t i) = k := by
  induction n generalizing p with
  | zero => cases h
  | succ n ih =>
    rw [probeFrom] at h
    split at h
    · cases h
    · rename_i inUse
      split at h
      · rename_i same
        cases h
        exact ⟨by simpa using inUse, same⟩
      · exact ih h

theorem probeFrom_free {n p i : Nat} (h : s.probeFrom t k n p = .free i) : s.used (t i) = false := by
  induction n generalizing p with
  | zero => cases h
  | succ n ih =>
    rw [probeFrom] at h
    split at h
    · rename_i free
      cases h
      exact free
    · split at h
      · cases h
      · exact ih h

theorem probe_hit {i : Nat} (h : s.probe t k = .hit i) : s.used (t i) = true ∧ s.key (t i) = k :=
  probeFrom_hit h

theorem probe_free {i : Nat} (h : s.probe t k = .free i) : s.used (t i) = false := probeFrom_free h

theorem probe_congr {t' : Nat → E} (used : ∀ j, s.used (t' j) = s.used (t j))
    (key : ∀ j, s.key (t' j) = s.key (t j)) (k : K) : s.probe t' k = s.probe t k := by
  have walk : ∀ n p, s.probeFrom t' k n p = s.probeFrom t k n p := by
    intro n
    induction n with
    | zero => intro p; rfl
    | succ n ih =>
      intro p
      rw [probeFrom, probeFrom, used, key, ih]
  exact walk s.probes 0

theorem Wf.key_ne (wf : s.Wf t) (absent : ∀ i, s.probe t k ≠ .hit i) {j : Nat}
    (used : s.used (t j) = true) : s.key (t j) ≠ k := by
  intro same
  have found := wf j used
  rw [same] at found
  exact absent j found

section update

variable {i : Nat} {e : E}

theorem probe_update (used : s.used e = s.used (t i)) (key : s.key e = s.key (t i)) (k : K) :
    s.probe (Function.update t i e) k = s.probe t k := by
  apply probe_congr
  · intro j
    by_cases same : j = i
    · subst same; rw [Function.update_self, used]
    · rw [Function.update_of_ne same]
  · intro j
    by_cases same : j = i
    · subst same; rw [Function.update_self, key]
    · rw [Function.update_of_ne same]

theorem Wf.update (wf : s.Wf t) (used : s.used e = s.used (t i)) (key : s.key e = s.key (t i)) :
    s.Wf (Function.update t i e) := by
  intro j inUse
  rw [probe_update used key]
  by_cases same : j = i
  · subst same
    rw [Function.update_self] at inUse ⊢
    rw [key]
    exact wf j (used ▸ inUse)
  · rw [Function.update_of_ne same] at inUse ⊢
    exact wf j inUse

theorem get_update (found : s.probe t k = .hit i) (used : s.used e = true) (key : s.key e = k) :
    s.get (Function.update t i e) k = some e := by
  have old := probe_hit found
  rw [get, probe_update (by rw [used, old.1]) (by rw [key, old.2]), found]
  exact congrArg some (Function.update_self i e t)

theorem get_update_of_ne {k' : K} (found : s.probe t k = .hit i) (used : s.used e = true)
    (key : s.key e = k) (other : k' ≠ k) : s.get (Function.update t i e) k' = s.get t k' := by
  have old := probe_hit found
  rw [get, get, probe_update (by rw [used, old.1]) (by rw [key, old.2])]
  cases there : s.probe t k' with
  | hit j =>
    have ne : j ≠ i := by
      rintro rfl
      exact other ((probe_hit there).2.symm.trans old.2)
    exact congrArg some (Function.update_of_ne ne e t)
  | free j => rfl
  | full => rfl

end update

/-! ### Filling a free slot -/

section insert

variable {i : Nat} {e : E}

theorem probeFrom_insert_hit {n p j : Nat} (free : s.used (t i) = false)
    (h : s.probeFrom t k n p = .hit j) : s.probeFrom (Function.update t i e) k n p = .hit j := by
  induction n generalizing p with
  | zero => cases h
  | succ n ih =>
    rw [probeFrom] at h ⊢
    have ne : s.used (t (s.slot k p)) ≠ false → s.slot k p ≠ i := fun inUse same => inUse (same ▸ free)
    split at h
    · cases h
    · rename_i inUse
      rw [Function.update_of_ne (ne inUse), if_neg inUse]
      split at h
      · rename_i same; rw [if_pos same]; exact h
      · rename_i other; rw [if_neg other]; exact ih h

theorem probeFrom_insert_full {n p : Nat} (free : s.used (t i) = false)
    (h : s.probeFrom t k n p = .full) : s.probeFrom (Function.update t i e) k n p = .full := by
  induction n generalizing p with
  | zero => rfl
  | succ n ih =>
    rw [probeFrom] at h ⊢
    have ne : s.used (t (s.slot k p)) ≠ false → s.slot k p ≠ i := fun inUse same => inUse (same ▸ free)
    split at h
    · cases h
    · rename_i inUse
      rw [Function.update_of_ne (ne inUse), if_neg inUse]
      split at h
      · cases h
      · rename_i other; rw [if_neg other]; exact ih h

theorem probeFrom_insert_self {n p : Nat} (used : s.used e = true) (key : s.key e = k)
    (h : s.probeFrom t k n p = .free i) : s.probeFrom (Function.update t i e) k n p = .hit i := by
  have free := probeFrom_free h
  induction n generalizing p with
  | zero => cases h
  | succ n ih =>
    rw [probeFrom] at h ⊢
    split at h
    · cases h
      rw [Function.update_self, if_neg (by simp [used]), if_pos key]
    · rename_i inUse
      have ne : s.slot k p ≠ i := fun same => inUse (same ▸ free)
      rw [Function.update_of_ne ne, if_neg inUse]
      split at h
      · cases h
      · rename_i other; rw [if_neg other]; exact ih h

theorem probe_insert_self (found : s.probe t k = .free i) (used : s.used e = true)
    (key : s.key e = k) : s.probe (Function.update t i e) k = .hit i :=
  probeFrom_insert_self used key found

theorem probe_insert_full {k' : K} (found : s.probe t k = .free i) (h : s.probe t k' = .full) :
    s.probe (Function.update t i e) k' = .full :=
  probeFrom_insert_full (probe_free found) h

theorem probe_insert_hit {k' : K} {j : Nat} (found : s.probe t k = .free i) (h : s.probe t k' = .hit j) :
    s.probe (Function.update t i e) k' = .hit j :=
  probeFrom_insert_hit (probe_free found) h

theorem Wf.insert (wf : s.Wf t) (found : s.probe t k = .free i) (used : s.used e = true)
    (key : s.key e = k) : s.Wf (Function.update t i e) := by
  intro j inUse
  by_cases same : j = i
  · subst same
    rw [Function.update_self, key]
    exact probe_insert_self found used key
  · rw [Function.update_of_ne same] at inUse ⊢
    exact probe_insert_hit found (wf j inUse)

theorem get_insert (found : s.probe t k = .free i) (used : s.used e = true) (key : s.key e = k) :
    s.get (Function.update t i e) k = some e := by
  rw [get, probe_insert_self found used key]
  exact congrArg some (Function.update_self i e t)

theorem get_insert_of_ne {k' : K} (wf : s.Wf t) (found : s.probe t k = .free i)
    (key : s.key e = k) (other : k' ≠ k) : s.get (Function.update t i e) k' = s.get t k' := by
  have free := probe_free found
  cases there : s.probe t k' with
  | hit j =>
    have ne : j ≠ i := by
      rintro rfl
      rw [(probe_hit there).1] at free
      cases free
    rw [get, get, there, probe_insert_hit found there]
    exact congrArg some (Function.update_of_ne ne e t)
  | full => rw [get, get, there, probe_insert_full found there]
  | free j =>
    rw [get, get, there]
    cases now : s.probe (Function.update t i e) k' with
    | free _ | full => rfl
    | hit l =>
      -- An entry found under `k'` now was in the table before, under `k'`.
      have held := probe_hit now
      have ne : l ≠ i := by
        rintro rfl
        rw [Function.update_self, key] at held
        exact other held.2.symm
      rw [Function.update_of_ne ne] at held
      exact absurd held.2 (wf.key_ne (by simp [there]) held.1)

end insert

theorem get_eq_none {k : K} (absent : ∀ i, s.probe t k ≠ .hit i) : s.get t k = none := by
  rw [get]
  cases h : s.probe t k with
  | hit i => exact absurd h (absent i)
  | free _ | full => rfl

theorem get_hit {i : Nat} (h : s.probe t k = .hit i) : s.get t k = some (t i) := by rw [get, h]

/-! ### The slots a probe sequence visits -/

/-- The probe sequence of every key visits the first `size` slots, all of them and no others. -/
def Covers (s : Scheme K E) (size : Nat) : Prop :=
  (∀ k p, s.slot k p < size) ∧ ∀ k i, i < size → ∃ p < s.probes, s.slot k p = i

theorem probeFrom_within {size n p i : Nat} (within : ∀ k p, s.slot k p < size)
    (h : s.probeFrom t k n p = .hit i ∨ s.probeFrom t k n p = .free i) : i < size := by
  induction n generalizing p with
  | zero => simp [probeFrom] at h
  | succ n ih =>
    rw [probeFrom] at h
    split at h
    · simp only [reduceCtorEq, Probe.free.injEq, false_or] at h
      exact h ▸ within k p
    · split at h
      · simp only [reduceCtorEq, Probe.hit.injEq, or_false] at h
        exact h ▸ within k p
      · exact ih h

theorem probeFrom_full {n p q : Nat} (h : s.probeFrom t k n p = .full) (first : p ≤ q) (last : q < p + n) :
    s.used (t (s.slot k q)) = true ∧ s.key (t (s.slot k q)) ≠ k := by
  induction n generalizing p with
  | zero => omega
  | succ n ih =>
    rw [probeFrom] at h
    split at h
    · cases h
    · rename_i inUse
      split at h
      · cases h
      · rename_i other
        by_cases here : q = p
        · subst here
          exact ⟨by simpa using inUse, other⟩
        · exact ih h (by omega) (by omega)

theorem Covers.full {size i : Nat} (covers : s.Covers size) (h : s.probe t k = .full) (inside : i < size) :
    s.used (t i) = true ∧ s.key (t i) ≠ k := by
  obtain ⟨p, before, rfl⟩ := covers.2 k i inside
  exact probeFrom_full h (Nat.zero_le p) (by omega)

theorem wrap_reaches {size : Nat} (home : Nat) {i : Nat} (inside : i < size) : ∃ p < size, (home + p) % size = i := by
  have small := Nat.mod_lt home (Nat.zero_lt_of_lt inside)
  have whole := Nat.div_add_mod home size
  by_cases ahead : home % size ≤ i
  · refine ⟨i - home % size, by omega, ?_⟩
    rw [← Nat.mod_add_mod, Nat.add_sub_cancel' ahead, Nat.mod_eq_of_lt inside]
  · refine ⟨size - home % size + i, by omega, ?_⟩
    rw [← Nat.mod_add_mod, ← Nat.add_assoc, Nat.add_sub_cancel' (Nat.le_of_lt small), Nat.add_mod_left, Nat.mod_eq_of_lt inside]

/-! ### Entries that are put in without looking for their key

A key may come twice here. What is kept is that no free slot lies before an entry. -/

/-- Every entry in use is reached from the first slot of its key over slots in use. -/
def Reached (s : Scheme K E) (t : Nat → E) : Prop :=
  ∀ j, s.used (t j) = true →
    ∃ p < s.probes, s.slot (s.key (t j)) p = j ∧ ∀ q < p, s.used (t (s.slot (s.key (t j)) q)) = true

theorem probeFrom_reaches {n p r : Nat} (path : ∀ q, p ≤ q → q < r → s.used (t (s.slot k q)) = true) (first : p ≤ r) (last : r < p + n)
    (used : s.used (t (s.slot k r)) = true) (key : s.key (t (s.slot k r)) = k) : ∃ i, s.probeFrom t k n p = .hit i := by
  induction n generalizing p with
  | zero => omega
  | succ n ih =>
    have here : s.used (t (s.slot k p)) = true := by
      by_cases last' : p = r
      · rw [last']
        exact used
      · exact path p (Nat.le_refl p) (by omega)
    rw [probeFrom, if_neg (by simp [here])]
    by_cases same : s.key (t (s.slot k p)) = k
    · exact ⟨_, if_pos same⟩
    · rw [if_neg same]
      have later : p ≠ r := by
        rintro rfl
        exact same key
      exact ih (fun q above below => path q (by omega) below) (by omega) (by omega)

theorem Reached.hit_iff (reached : s.Reached t) : (∃ i, s.probe t k = .hit i) ↔ ∃ j, s.used (t j) = true ∧ s.key (t j) = k := by
  constructor
  · rintro ⟨i, found⟩
    exact ⟨i, probe_hit found⟩
  · rintro ⟨j, used, rfl⟩
    obtain ⟨p, small, there, path⟩ := reached j used
    apply probeFrom_reaches (fun q _ below => path q below) (Nat.zero_le p) (by omega)
    · rw [there]
      exact used
    · rw [there]

omit [DecidableEq K] in
theorem Reached.insert {p : Nat} {e : E} (reached : s.Reached t) (inside : p < s.probes)
    (path : ∀ q < p, s.used (t (s.slot k q)) = true) (free : s.used (t (s.slot k p)) = false) (key : s.key e = k) :
    s.Reached (Function.update t (s.slot k p) e) := by
  -- the slots of a path are in use, so none of them is the one that is filled
  have kept : ∀ i, s.used (t i) = true → Function.update t (s.slot k p) e i = t i := by
    intro i used
    apply Function.update_of_ne
    rintro rfl
    rw [free] at used
    cases used
  intro j used
  by_cases here : j = s.slot k p
  · subst here
    rw [Function.update_self, key]
    refine ⟨p, inside, rfl, fun q below => ?_⟩
    rw [kept _ (path q below)]
    exact path q below
  · rw [Function.update_of_ne here] at used ⊢
    obtain ⟨q, small, there, path'⟩ := reached j used
    refine ⟨q, small, there, fun r below => ?_⟩
    rw [kept _ (path' r below)]
    exact path' r below

end Scheme
end FfnNgfw
