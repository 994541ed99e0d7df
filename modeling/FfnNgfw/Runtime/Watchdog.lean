import Mathlib.Algebra.Order.Archimedean.Basic
import Mathlib.Data.List.Chain
import Mathlib.Data.List.Infix
import Mathlib.Data.Rat.Floor

/-!
# The hardware watchdog

The daemon pets the watchdog once in an interval. With health gating it withholds the pet while a
check is unhealthy; the documentation promises that fewer than `strikes_to_bite` unhealthy checks in
a row never reboot the box. A check takes no time here, and time is counted in half seconds, the
slices in which the daemon sleeps. A grace period without end is left out.
-/

namespace FfnNgfw.Runtime.Watchdog

/-- The settings, the numbers as `int` and `float` read them. -/
structure Config where
  timeoutSec : Int
  petIntervalSec : Int
  requireHealth : Bool
  startupGraceSec : ℚ
  strikesToBite : Int

/-- `DEFAULT_CONFIG` -/
def Config.default : Config := ⟨60, 15, false, 300, 3⟩

section serve

variable (cfg : Config) (getTimeout : Option Int)

/-- The timeout that the hardware reports; none and zero stand for the one that was asked for. -/
def actual : Int :=
  match getTimeout with
  | some seconds => if seconds = 0 then cfg.timeoutSec else seconds
  | none => cfg.timeoutSec

def interval : Int :=
  if actual cfg getTimeout ≤ cfg.petIntervalSec then max 1 (actual cfg getTimeout / 3) else cfg.petIntervalSec

def sleep (seconds : Int) (slept : Nat) : Nat := if (slept : Int) < 2 * seconds then sleep seconds (slept + 1) else slept
termination_by (2 * seconds - slept).toNat

/-- The loop before a check: the half seconds since the start, the strikes, and the times of the pets, the latest first. -/
structure State where
  now : Nat
  strikes : Nat
  pets : List Nat
deriving DecidableEq

/-- Whether a check is healthy, given what `evaluate_health` would say. -/
def healthy (s : State) (result : Bool) : Bool :=
  if cfg.requireHealth then if (s.now : ℚ) / 2 < cfg.startupGraceSec then true else result else true

def check (s : State) (result : Bool) : State :=
  let later := s.now + sleep (interval cfg getTimeout) 0
  if healthy cfg s result then ⟨later, 0, s.now :: s.pets⟩ else ⟨later, s.strikes + 1, s.pets⟩

def started : State := ⟨0, 0, []⟩

def serve (s : State) (results : List Bool) : State := results.foldl (check cfg getTimeout) s

def outcomes (s : State) : List Bool → List Bool
  | [] => []
  | r :: rest => healthy cfg s r :: outcomes (check cfg getTimeout s r) rest

/-- No `strikes_to_bite` checks in a row are unhealthy. -/
def Tolerated (checks : List Bool) : Prop := ¬ List.replicate cfg.strikesToBite.toNat false <:+: checks

def Served (pets : List Nat) : Prop := pets.IsChain fun later earlier : Nat => (later : Int) - earlier < 2 * actual cfg getTimeout

/-- What the rule promises: tolerated checks never let the watchdog bite, and after `strikes_to_bite` unhealthy checks in a row
there is no pet while the checks stay unhealthy. -/
def Promise : Prop :=
  (∀ results, Tolerated cfg (outcomes cfg getTimeout started results) →
    Served cfg getTimeout (serve cfg getTimeout started results).pets) ∧
    ∀ before later, List.replicate cfg.strikesToBite.toNat false <:+ outcomes cfg getTimeout started before →
      (∀ r ∈ outcomes cfg getTimeout (serve cfg getTimeout started before) later, r = false) →
      (serve cfg getTimeout started (before ++ later)).pets = (serve cfg getTimeout started before).pets

def Fits : Prop :=
  0 < cfg.strikesToBite →
    (if cfg.requireHealth then cfg.strikesToBite else 1) * max (interval cfg getTimeout) 0 < actual cfg getTimeout

end serve

section checks

variable {cfg : Config} {getTimeout : Option Int} {s : State} {result : Bool}

theorem sleep_eq (seconds : Int) (slept : Nat) : sleep seconds slept = max slept (2 * seconds).toNat := by
  induction slept using sleep.induct seconds with
  | case1 slept more ih =>
    rw [sleep, if_pos more, ih]
    omega
  | case2 slept done =>
    rw [sleep, if_neg done]
    omega

theorem check_now : (check cfg getTimeout s result).now = s.now + (2 * interval cfg getTimeout).toNat := by
  unfold check
  rw [sleep_eq, Nat.zero_max]
  split <;> rfl

theorem check_healthy (well : healthy cfg s result = true) :
    (check cfg getTimeout s result).strikes = 0 ∧ (check cfg getTimeout s result).pets = s.now :: s.pets := by
  rw [check, if_pos well]
  exact ⟨rfl, rfl⟩

theorem check_unhealthy (ill : healthy cfg s result = false) :
    (check cfg getTimeout s result).strikes = s.strikes + 1 ∧ (check cfg getTimeout s result).pets = s.pets := by
  rw [check, if_neg (Bool.eq_false_iff.mp ill)]
  exact ⟨rfl, rfl⟩

theorem healthy_true (s : State) : healthy cfg s true = true := by
  unfold healthy
  split
  · split <;> rfl
  · rfl

theorem ungated (off : cfg.requireHealth = false) : healthy cfg s result = true := by
  rw [healthy, if_neg (Bool.eq_false_iff.mp off)]

theorem gated (on : cfg.requireHealth = true) (past : cfg.startupGraceSec ≤ (s.now : ℚ) / 2) : healthy cfg s result = result := by
  rw [healthy, if_pos on, if_neg (not_lt.mpr past)]

/-! ### Runs of checks -/

theorem serve_append (s : State) (xs ys : List Bool) :
    serve cfg getTimeout s (xs ++ ys) = serve cfg getTimeout (serve cfg getTimeout s xs) ys := List.foldl_append

theorem outcomes_append (s : State) (xs ys : List Bool) :
    outcomes cfg getTimeout s (xs ++ ys) = outcomes cfg getTimeout s xs ++ outcomes cfg getTimeout (serve cfg getTimeout s xs) ys := by
  induction xs generalizing s with
  | nil => rfl
  | cons r xs ih =>
    rw [List.cons_append, outcomes, ih, outcomes, List.cons_append]
    rfl

theorem serve_now (s : State) (xs : List Bool) :
    (serve cfg getTimeout s xs).now = s.now + xs.length * (2 * interval cfg getTimeout).toNat := by
  induction xs generalizing s with
  | nil => simp [serve]
  | cons r xs ih =>
    show (serve cfg getTimeout (check cfg getTimeout s r) xs).now = _
    rw [ih, check_now, List.length_cons]
    ring

theorem serve_withholds {xs : List Bool} (ill : ∀ r ∈ outcomes cfg getTimeout s xs, r = false) :
    (serve cfg getTimeout s xs).pets = s.pets := by
  induction xs generalizing s with
  | nil => rfl
  | cons r xs ih =>
    show (serve cfg getTimeout (check cfg getTimeout s r) xs).pets = _
    rw [ih fun later member => ill later (List.mem_cons_of_mem _ member)]
    exact (check_unhealthy (ill _ List.mem_cons_self)).2

/-- What a run of checks has established: the strikes are the unhealthy checks at its end, the last pet lies that far back, and
the pets lie close together. -/
structure Paced (cfg : Config) (getTimeout : Option Int) (s : State) (checks : List Bool) : Prop where
  strikes : List.replicate s.strikes false <:+ checks
  ungated : cfg.requireHealth = false → s.strikes = 0
  last : ∀ p rest, s.pets = p :: rest → s.now = p + (s.strikes + 1) * (2 * interval cfg getTimeout).toNat
  served : Served cfg getTimeout s.pets

variable {checks : List Bool}

theorem replicate_snoc {n : Nat} (h : List.replicate n false <:+ checks) :
    List.replicate (n + 1) false <:+ checks ++ [false] := by
  rw [List.replicate_succ']
  exact List.suffix_append_self_iff.mpr h

theorem spaced {strikes : Nat} (fits : Fits cfg getTimeout) (never : cfg.requireHealth = false → strikes = 0)
    (few : strikes < cfg.strikesToBite.toNat) :
    ((strikes + 1) * (2 * interval cfg getTimeout).toNat : Int) < 2 * actual cfg getTimeout := by
  have bound := fits (by omega)
  have half : ((2 * interval cfg getTimeout).toNat : Int) = 2 * max (interval cfg getTimeout) 0 := by omega
  rw [half]
  have nonneg : 0 ≤ max (interval cfg getTimeout) 0 := le_max_right ..
  split at bound
  · have more : (strikes : Int) + 1 ≤ cfg.strikesToBite := by omega
    calc ((strikes : Int) + 1) * (2 * max (interval cfg getTimeout) 0)
        = 2 * (((strikes : Int) + 1) * max (interval cfg getTimeout) 0) := by ring
      _ ≤ 2 * (cfg.strikesToBite * max (interval cfg getTimeout) 0) := by gcongr
      _ < 2 * actual cfg getTimeout := by omega
  · rename_i off
    rw [never (Bool.eq_false_iff.mpr off)]
    omega

theorem step_paced (fits : Fits cfg getTimeout) (paced : Paced cfg getTimeout s checks)
    (tolerated : Tolerated cfg (checks ++ [healthy cfg s result])) :
    Paced cfg getTimeout (check cfg getTimeout s result) (checks ++ [healthy cfg s result]) := by
  obtain ⟨strikes, never, last, served⟩ := paced
  have few : s.strikes < cfg.strikesToBite.toNat := by
    by_contra many
    have sub : List.replicate cfg.strikesToBite.toNat false <:+ List.replicate s.strikes false := by
      rw [← Nat.sub_add_cancel (Nat.le_of_not_lt many), List.replicate_add]
      exact List.suffix_append ..
    exact tolerated (((sub.trans strikes).isInfix).trans (List.infix_append' [] checks _))
  cases well : healthy cfg s result with
  | false =>
    rw [well] at tolerated
    obtain ⟨struck, same⟩ := @check_unhealthy cfg getTimeout _ _ well
    refine ⟨?_, ?_, ?_, ?_⟩
    · rw [struck]
      exact replicate_snoc strikes
    · intro off
      rw [ungated off] at well
      cases well
    · intro p rest shape
      rw [same] at shape
      rw [check_now, last p rest shape, struck]
      ring
    · rw [same]
      exact served
  | true =>
    obtain ⟨cleared, petted⟩ := @check_healthy cfg getTimeout _ _ well
    refine ⟨?_, fun _ => cleared, ?_, ?_⟩
    · rw [cleared]
      exact List.nil_suffix
    · intro p rest shape
      rw [petted] at shape
      obtain ⟨rfl, -⟩ := List.cons.inj shape
      rw [check_now, cleared]
      ring
    · rw [petted]
      cases earlier : s.pets with
      | nil => exact List.isChain_singleton _
      | cons p rest =>
        rw [earlier] at served
        refine List.isChain_cons_cons.mpr ⟨?_, served⟩
        rw [last p rest earlier]
        have bound := spaced fits never few
        push_cast at bound ⊢
        omega

theorem serve_paced (fits : Fits cfg getTimeout) {xs : List Bool} (paced : Paced cfg getTimeout s checks)
    (tolerated : Tolerated cfg (checks ++ outcomes cfg getTimeout s xs)) :
    Paced cfg getTimeout (serve cfg getTimeout s xs) (checks ++ outcomes cfg getTimeout s xs) := by
  induction xs generalizing s checks with
  | nil =>
    rw [outcomes, List.append_nil]
    exact paced
  | cons r xs ih =>
    rw [outcomes, List.append_cons] at tolerated ⊢
    have now : Tolerated cfg (checks ++ [healthy cfg s r]) := fun inside => tolerated (inside.trans (List.prefix_append ..).isInfix)
    exact ih (step_paced fits paced now) tolerated

theorem started_paced : Paced cfg getTimeout started [] :=
  ⟨List.nil_suffix, fun _ => rfl, fun _ _ no => (nomatch no), List.isChain_nil⟩

/-! ### The longest gap -/

theorem tolerated_of_count (few : checks.count false < cfg.strikesToBite.toNat) : Tolerated cfg checks := by
  intro inside
  have count := inside.sublist.count_le false
  rw [List.count_replicate_self] at count
  omega

theorem outcomes_true (s : State) (n : Nat) : outcomes cfg getTimeout s (List.replicate n true) = List.replicate n true := by
  induction n generalizing s with
  | zero => rfl
  | succ n ih => rw [List.replicate_succ, outcomes, healthy_true, ih]

theorem outcomes_false (on : cfg.requireHealth = true) (past : cfg.startupGraceSec ≤ (s.now : ℚ) / 2) (n : Nat) :
    outcomes cfg getTimeout s (List.replicate n false) = List.replicate n false := by
  induction n generalizing s with
  | zero => rfl
  | succ n ih =>
    have still : cfg.startupGraceSec ≤ ((check cfg getTimeout s false).now : ℚ) / 2 := by
      rw [check_now, Nat.cast_add]
      have : (0 : ℚ) ≤ ((2 * interval cfg getTimeout).toNat : ℚ) := Nat.cast_nonneg _
      linarith
    rw [List.replicate_succ, outcomes, gated on past, ih still]

theorem gap_served (served : ∀ results, Tolerated cfg (outcomes cfg getTimeout started results) →
      Served cfg getTimeout (serve cfg getTimeout started results).pets) {wait strikes : Nat} (few : strikes < cfg.strikesToBite.toNat)
    (ill : outcomes cfg getTimeout (serve cfg getTimeout started (List.replicate (wait + 1) true)) (List.replicate strikes false) =
      List.replicate strikes false) : ((strikes + 1) * (2 * interval cfg getTimeout).toNat : Int) < 2 * actual cfg getTimeout := by
  let first := serve cfg getTimeout started (List.replicate wait true)
  let pet := serve cfg getTimeout started (List.replicate (wait + 1) true)
  let last := serve cfg getTimeout pet (List.replicate strikes false)
  have petted : pet.pets = first.now :: first.pets := by
    show (serve cfg getTimeout started (List.replicate (wait + 1) true)).pets = _
    rw [List.replicate_succ', serve_append]
    exact (check_healthy (healthy_true first)).2
  have withheld : last.pets = pet.pets := by
    apply serve_withholds
    intro r member
    rw [ill] at member
    exact List.eq_of_mem_replicate member
  have runs : serve cfg getTimeout started (List.replicate (wait + 1) true ++ (List.replicate strikes false ++ [true])) =
      check cfg getTimeout last true := by
    rw [serve_append, serve_append]
    rfl
  have tolerated : Tolerated cfg
      (outcomes cfg getTimeout started (List.replicate (wait + 1) true ++ (List.replicate strikes false ++ [true]))) := by
    apply tolerated_of_count
    rw [outcomes_append, outcomes_append, outcomes_true, ill, outcomes, healthy_true, outcomes]
    rw [List.count_append, List.count_append, List.count_replicate_self, List.count_replicate]
    simpa using few
  have chain := served _ tolerated
  rw [runs, Served, (check_healthy (healthy_true last)).2, withheld, petted] at chain
  have between := (List.isChain_cons_cons.mp chain).1
  have lastNow : last.now = first.now + (strikes + 1) * (2 * interval cfg getTimeout).toNat := by
    show (serve cfg getTimeout pet (List.replicate strikes false)).now = _
    rw [serve_now, serve_now, serve_now, List.length_replicate, List.length_replicate, List.length_replicate]
    ring
  rw [lastNow] at between
  push_cast at between ⊢
  omega

theorem past_grace (moving : 0 < (2 * interval cfg getTimeout).toNat) :
    ∃ wait, cfg.startupGraceSec ≤ ((serve cfg getTimeout started (List.replicate (wait + 1) true)).now : ℚ) / 2 := by
  obtain ⟨n, above⟩ := exists_nat_ge (2 * cfg.startupGraceSec)
  refine ⟨n, ?_⟩
  rw [serve_now, List.length_replicate]
  have more : (n : ℚ) ≤ ((started.now + (n + 1) * (2 * interval cfg getTimeout).toNat : Nat) : ℚ) := by
    apply Nat.cast_le.mpr
    calc n ≤ n + 1 := Nat.le_succ n
      _ ≤ (n + 1) * (2 * interval cfg getTimeout).toNat := Nat.le_mul_of_pos_right _ moving
      _ ≤ started.now + (n + 1) * (2 * interval cfg getTimeout).toNat := Nat.le_add_left ..
  linarith

theorem fits_of_promise (promise : Promise cfg getTimeout) : Fits cfg getTimeout := by
  intro bites
  have few : cfg.strikesToBite.toNat - 1 < cfg.strikesToBite.toNat := by omega
  have first : outcomes cfg getTimeout (serve cfg getTimeout started (List.replicate (0 + 1) true)) (List.replicate 0 false) =
      List.replicate 0 false := rfl
  have once := gap_served promise.1 (by omega) first
  split
  · rename_i on
    by_cases moving : 0 < (2 * interval cfg getTimeout).toNat
    · obtain ⟨wait, past⟩ := past_grace moving
      have bound := gap_served promise.1 few (outcomes_false on past (cfg.strikesToBite.toNat - 1))
      have half : ((2 * interval cfg getTimeout).toNat : Int) = 2 * max (interval cfg getTimeout) 0 := by omega
      have all : ((cfg.strikesToBite.toNat - 1 : Nat) : Int) + 1 = cfg.strikesToBite := by omega
      rw [half, all] at bound
      have twice : cfg.strikesToBite * (2 * max (interval cfg getTimeout) 0) =
          2 * (cfg.strikesToBite * max (interval cfg getTimeout) 0) := by ring
      omega
    · have none' : max (interval cfg getTimeout) 0 = 0 := by omega
      rw [none', Int.mul_zero]
      push_cast at once
      omega
  · push_cast at once
    omega

theorem promise_of_fits (fits : Fits cfg getTimeout) : Promise cfg getTimeout := by
  constructor
  · intro results tolerated
    exact (serve_paced fits started_paced tolerated).served
  · intro before later _ ill
    rw [serve_append]
    exact serve_withholds ill

end checks

/-- The rule keeps its promise exactly where the pets that may be withheld, as many intervals as there are strikes, fit into the
timeout of the hardware. -/
theorem promise_iff (cfg : Config) (getTimeout : Option Int) : Promise cfg getTimeout ↔ Fits cfg getTimeout :=
  ⟨fits_of_promise, promise_of_fits⟩

/-- Two unhealthy checks out of three allowed, half a timeout apart. -/
theorem two_strikes_bite : ¬ Promise ⟨60, 30, true, 0, 3⟩ (some 60) := by
  intro promise
  have bound : (3 : Int) * 30 < 60 := fits_of_promise promise (by decide)
  exact absurd bound (by decide)

/-- With health gating, the default settings keep the promise on hardware that takes the timeout. -/
example : Promise { Config.default with requireHealth := true } (some 60) := promise_of_fits (by unfold Fits; decide)

end FfnNgfw.Runtime.Watchdog
