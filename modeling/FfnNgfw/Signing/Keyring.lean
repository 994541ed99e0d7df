import Mathlib.Logic.Relation
import Mathlib.Tactic.Common

/-!
# The keys that sign sessions

One key signs; the ones it replaced verify until every token they can have signed has expired.
Times are in seconds, lifetimes in minutes. A secret that is missing in the file is an empty one.
-/

namespace FfnNgfw.Signing.Keyring

structure Current where
  secret : String
  created : Int
  adopted : Bool
deriving DecidableEq

structure Retired where
  secret : String
  retired : Int
  notAfter : Int
deriving DecidableEq

/-- A keyring as it was loaded; an entry that is no object is `none`. -/
structure Ring where
  current : Current
  retired : List (Option Retired)
deriving DecidableEq

structure Document where
  current : Option Current
  retired : List (Option Retired)
deriving DecidableEq

/-- `RETIRE_MARGIN_MINUTES` -/
def retireMarginMinutes : Int := 60

def empty (now : Int) (secret : String) : Ring := ⟨⟨secret, now, false⟩, []⟩

def adopt (existing : String) (now : Int) : Ring := ⟨⟨existing, now, true⟩, []⟩

def load : Option Document → Option Ring
  | none => none
  | some doc =>
    match doc.current with
    | none => none
    | some current => if current.secret = "" then none else some ⟨current, doc.retired⟩

def save (ring : Ring) : Document := ⟨some ring.current, ring.retired⟩

def live (now : Int) : Option Retired → Bool
  | none => false
  | some k => k.secret != "" && decide (now < k.notAfter)

def prune (ring : Ring) (now : Int) : Ring × Nat :=
  let keep := ring.retired.filter (live now)
  (⟨ring.current, keep⟩, ring.retired.length - keep.length)

def secretOf : Option Retired → String
  | none => ""
  | some k => k.secret

def verificationSecrets (doc : Option Ring) (now : Int) : List String :=
  match doc with
  | none => []
  | some ring => ring.current.secret :: (ring.retired.filter (live now)).map secretOf

def signingSecret (doc : Option Ring) : Option String := doc.map fun ring => ring.current.secret

/-- `rotate`; without a keyring it starts from an empty one, with a secret of its own. -/
def rotate (doc : Option Ring) (lifetimeMinutes marginMinutes : Int) (compromised : Bool) (now : Int) (spare secret : String) : Ring :=
  let ring := doc.getD (empty now spare)
  let old := ring.current
  let outgoing :=
    if old.secret ≠ "" ∧ compromised = false then [some ⟨old.secret, now, now + (lifetimeMinutes + marginMinutes) * 60⟩] else []
  let retired := if compromised then [] else outgoing ++ ring.retired
  (prune ⟨⟨secret, now, false⟩, retired⟩ now).1

/-- `cmd_rotate`: the file afterwards, which stays as it was when there is no keyring. -/
def cmdRotate (file : Option Document) (lifetimeMinutes : Int) (compromised : Bool) (now : Int) (secret : String) : Option Document :=
  match load file with
  | none => file
  | some ring => some (save (rotate (some ring) lifetimeMinutes retireMarginMinutes compromised now "" secret))

/-! ### Runs -/

def Ring.keys (ring : Ring) : List String := ring.current.secret :: ring.retired.map secretOf

structure State where
  file : Option Document
  clock : Int
  known : List String

def State.ring (s : State) : Option Ring := load s.file

def State.start (file : Option Document) (clock : Int) : State := ⟨file, clock, (load file).elim [] Ring.keys⟩

inductive Act where
  | wait (seconds : Nat)
  | rotate (lifetimeMinutes : Int) (compromised : Bool) (secret : String)
deriving DecidableEq

def Act.ordinary : Act → Bool
  | .wait _ => true
  | .rotate _ compromised _ => !compromised

def State.step (s : State) : Act → State
  | .wait seconds => { s with clock := s.clock + seconds }
  | .rotate lifetimeMinutes compromised secret => ⟨cmdRotate s.file lifetimeMinutes compromised s.clock secret,
      s.clock, secret :: s.known⟩

/-- A rotation covers the lifetime of a token, and its secret is a new one. -/
def Proper (token : Int) (s : State) : Act → Prop
  | .wait _ => True
  | .rotate lifetimeMinutes _ secret => token ≤ lifetimeMinutes ∧ secret ≠ "" ∧ secret ∉ s.known

instance decidableProper (token : Int) (s : State) : (a : Act) → Decidable (Proper token s a)
  | .wait _ => .isTrue trivial
  | .rotate lifetimeMinutes _ secret => inferInstanceAs (Decidable (token ≤ lifetimeMinutes ∧ secret ≠ "" ∧ secret ∉ s.known))

def Moves (token : Int) (allowed : Act → Bool) (s s' : State) : Prop := ∃ a, Proper token s a ∧ allowed a = true ∧ s' = s.step a

def Run (token : Int) (allowed : Act → Bool) : State → State → Prop := Relation.ReflTransGen (Moves token allowed)

section operations

variable {ring : Ring} {now lifetimeMinutes marginMinutes : Int} {secret spare key : String}

theorem live_iff {entry : Option Retired} : live now entry = true ↔ ∃ k, entry = some k ∧ k.secret ≠ "" ∧ now < k.notAfter := by
  cases entry with
  | none =>
    constructor
    · intro none'
      cases none'
    · rintro ⟨k, no, -⟩
      cases no
  | some k =>
    rw [live, Bool.and_eq_true, bne_iff_ne, decide_eq_true_iff]
    constructor
    · exact fun both => ⟨k, rfl, both⟩
    · intro ⟨k', same, both⟩
      cases same
      exact both

theorem mem_verificationSecrets :
    key ∈ verificationSecrets (some ring) now ↔
      key = ring.current.secret ∨ ∃ k, some k ∈ ring.retired ∧ k.secret = key ∧ k.secret ≠ "" ∧ now < k.notAfter := by
  rw [verificationSecrets, List.mem_cons]
  apply or_congr Iff.rfl
  rw [List.mem_map]
  constructor
  · intro ⟨entry, kept, same⟩
    obtain ⟨member, alive⟩ := List.mem_filter.mp kept
    obtain ⟨k, rfl, solid, later⟩ := live_iff.mp alive
    exact ⟨k, member, same, solid, later⟩
  · intro ⟨k, member, same, solid, later⟩
    exact ⟨some k, List.mem_filter.mpr ⟨member, live_iff.mpr ⟨k, rfl, solid, later⟩⟩, same⟩

theorem verificationSecrets_subset (h : key ∈ verificationSecrets (some ring) now) : key ∈ ring.keys := by
  rcases mem_verificationSecrets.mp h with rfl | ⟨k, member, same, -⟩
  · exact List.mem_cons_self
  · apply List.mem_cons_of_mem
    exact same ▸ List.mem_map_of_mem (f := secretOf) member

theorem load_save (solid : ring.current.secret ≠ "") : load (some (save ring)) = some ring := if_neg solid

theorem load_solid {file : Option Document} (h : load file = some ring) : ring.current.secret ≠ "" := by
  unfold load at h
  split at h
  · cases h
  split at h
  · cases h
  split at h
  · cases h
  · rename_i solid
    cases h
    exact solid

/-- What is retired after a rotation: the key that signed until then and the ones retired before, as far as they have not expired. -/
theorem mem_rotate_retired {k : Retired} :
    some k ∈ (rotate (some ring) lifetimeMinutes marginMinutes false now spare secret).retired ↔
      ((k = ⟨ring.current.secret, now, now + (lifetimeMinutes + marginMinutes) * 60⟩ ∧ ring.current.secret ≠ "") ∨
        some k ∈ ring.retired) ∧
        k.secret ≠ "" ∧ now < k.notAfter := by
  show some k ∈ (_ ++ ring.retired).filter (live now) ↔ _
  rw [List.mem_filter, List.mem_append]
  apply and_congr
  · apply or_congr _ Iff.rfl
    by_cases solid : ring.current.secret ≠ ""
    · rw [Option.getD_some, if_pos ⟨solid, rfl⟩, List.mem_singleton, Option.some.injEq]
      exact (and_iff_left solid).symm
    · rw [Option.getD_some, if_neg fun both => solid both.1]
      exact iff_of_false List.not_mem_nil fun both => solid both.2
  · rw [live_iff]
    constructor
    · intro ⟨k', same, both⟩
      cases same
      exact both
    · exact fun both => ⟨k, rfl, both⟩

theorem rotate_keys {compromised : Bool}
    (h : key ∈ (rotate (some ring) lifetimeMinutes marginMinutes compromised now spare secret).keys) :
    key = secret ∨ key = "" ∨ (compromised = false ∧ key ∈ ring.keys) := by
  rcases List.mem_cons.mp h with rfl | old
  · exact .inl rfl
  · obtain ⟨entry, member, rfl⟩ := List.mem_map.mp old
    cases entry with
    | none => exact .inr (.inl rfl)
    | some k =>
      cases compromised with
      | true => cases member
      | false =>
        obtain ⟨⟨rfl, -⟩ | before, -⟩ := mem_rotate_retired.mp member
        · exact .inr (.inr ⟨rfl, List.mem_cons_self⟩)
        · exact .inr (.inr ⟨rfl, List.mem_cons_of_mem _ (List.mem_map_of_mem (f := secretOf) before)⟩)

end operations

/-! ### Steps -/

section steps

variable {token : Int} {allowed : Act → Bool} {s s' : State} {key : String}

theorem step_rotate {lifetimeMinutes : Int} {compromised : Bool} {secret : String} (given : secret ≠ "") :
    (s.step (.rotate lifetimeMinutes compromised secret)).ring =
      s.ring.map fun ring => rotate (some ring) lifetimeMinutes retireMarginMinutes compromised s.clock "" secret := by
  show load (cmdRotate s.file lifetimeMinutes compromised s.clock secret) = (load s.file).map _
  unfold cmdRotate
  split
  · rename_i nothing
    rw [nothing, Option.map_none]
  · rename_i ring found
    rw [found, Option.map_some]
    exact load_save given

theorem Moves.clock (move : Moves token allowed s s') : s.clock ≤ s'.clock := by
  obtain ⟨a, -, -, rfl⟩ := move
  cases a with
  | wait seconds => exact Int.le_add_of_nonneg_right (Int.natCast_nonneg _)
  | rotate => exact Int.le_refl _

theorem Run.clock (run : Run token allowed s s') : s.clock ≤ s'.clock := by
  induction run with
  | refl => exact Int.le_refl _
  | tail _ move ih => exact Int.le_trans ih move.clock

theorem Run.keeps {inv : State → Prop} (step : ∀ s a, Proper token s a → allowed a = true → inv s → inv (s.step a)) (start : inv s)
    (run : Run token allowed s s') : inv s' := by
  induction run with
  | refl => exact start
  | tail _ move ih =>
    obtain ⟨a, proper, kind, rfl⟩ := move
    exact step _ a proper kind ih

def Accounted (s : State) : Prop := ∀ ring, s.ring = some ring → ∀ key ∈ ring.keys, key ≠ "" → key ∈ s.known

theorem start_accounted (file : Option Document) (clock : Int) : Accounted (.start file clock) := by
  intro ring found key member _
  have found : load file = some ring := found
  show key ∈ (load file).elim [] Ring.keys
  rw [found]
  exact member

theorem step_accounted (s : State) (a : Act) (proper : Proper token s a) (_ : allowed a = true)
    (before : Accounted s) : Accounted (s.step a) := by
  cases a with
  | wait seconds => exact before
  | rotate lifetimeMinutes compromised secret =>
    intro ring found key member solid
    rw [step_rotate proper.2.1] at found
    obtain ⟨old, was, rfl⟩ := Option.map_eq_some_iff.mp found
    rcases rotate_keys member with rfl | none' | ⟨-, older⟩
    · exact List.mem_cons_self
    · exact absurd none' solid
    · exact List.mem_cons_of_mem _ (before old was key older solid)

def Covered (key : String) (deadline : Int) (s : State) : Prop :=
  ∃ ring, s.ring = some ring ∧ (key = ring.current.secret ∨ ∃ k, some k ∈ ring.retired ∧ k.secret = key ∧ deadline < k.notAfter)

theorem step_covered {deadline : Int} {a : Act} (solid : key ≠ "") (proper : Proper token s a) (ordinary : a.ordinary = true)
    (covers : deadline ≤ s.clock + token * 60) (before : s.clock ≤ deadline) (covered : Covered key deadline s) :
    Covered key deadline (s.step a) := by
  cases a with
  | wait seconds => exact covered
  | rotate lifetimeMinutes compromised secret =>
    obtain ⟨enough, given, -⟩ := proper
    obtain rfl : compromised = false := Bool.not_eq_true' compromised ▸ ordinary
    obtain ⟨ring, found, holds⟩ := covered
    refine ⟨_, by rw [step_rotate given, found, Option.map_some], .inr ?_⟩
    rcases holds with rfl | ⟨k, member, same, later⟩
    · have until' : deadline < s.clock + (lifetimeMinutes + retireMarginMinutes) * 60 := by
        unfold retireMarginMinutes
        omega
      exact ⟨_, mem_rotate_retired.mpr ⟨.inl ⟨rfl, solid⟩, solid, Int.lt_of_le_of_lt before until'⟩, rfl, until'⟩
    · exact ⟨k, mem_rotate_retired.mpr ⟨.inr member, same ▸ solid, Int.lt_of_le_of_lt before later⟩, same, later⟩

theorem Run.covered (signs : signingSecret s.ring = some key) (run : Run token Act.ordinary s s')
    (within : s'.clock ≤ s.clock + token * 60) : Covered key (s.clock + token * 60) s' := by
  obtain ⟨ring, found, rfl⟩ := Option.map_eq_some_iff.mp signs
  induction run with
  | refl => exact ⟨ring, found, .inl rfl⟩
  | tail earlier move ih =>
    have before := Int.le_trans move.clock within
    obtain ⟨a, proper, ordinary, rfl⟩ := move
    have passed := Run.clock earlier
    exact step_covered (load_solid found) proper ordinary (by omega) before (ih before)

theorem Covered.verifies {deadline : Int} (solid : key ≠ "") (covered : Covered key deadline s) (within : s.clock ≤ deadline) :
    key ∈ verificationSecrets s.ring s.clock := by
  obtain ⟨ring, found, holds⟩ := covered
  rw [found]
  apply mem_verificationSecrets.mpr
  rcases holds with rfl | ⟨k, member, rfl, later⟩
  · exact .inl rfl
  · exact .inr ⟨k, member, rfl, solid, Int.lt_of_le_of_lt within later⟩

/-! ### Keys that are gone -/

def Outgone (key : String) (s : State) : Prop := key ∈ s.known ∧ signingSecret s.ring ≠ some key

theorem step_outgone (s : State) (a : Act) (proper : Proper token s a) (_ : allowed a = true) (before : Outgone key s) :
    Outgone key (s.step a) := by
  cases a with
  | wait seconds => exact before
  | rotate lifetimeMinutes compromised secret =>
    obtain ⟨-, given, fresh⟩ := proper
    refine ⟨List.mem_cons_of_mem _ before.1, ?_⟩
    intro signs
    rw [step_rotate given] at signs
    obtain ⟨ring, found, rfl⟩ := Option.map_eq_some_iff.mp signs
    obtain ⟨old, -, rfl⟩ := Option.map_eq_some_iff.mp found
    exact fresh before.1

def Discarded (key : String) (s : State) : Prop := key ≠ "" ∧ key ∈ s.known ∧ ∀ ring, s.ring = some ring → key ∉ ring.keys

theorem step_discarded (s : State) (a : Act) (proper : Proper token s a) (_ : allowed a = true) (before : Discarded key s) :
    Discarded key (s.step a) := by
  cases a with
  | wait seconds => exact before
  | rotate lifetimeMinutes compromised secret =>
    obtain ⟨-, given, fresh⟩ := proper
    obtain ⟨solid, known, gone⟩ := before
    refine ⟨solid, List.mem_cons_of_mem _ known, ?_⟩
    intro ring found member
    rw [step_rotate given] at found
    obtain ⟨old, was, rfl⟩ := Option.map_eq_some_iff.mp found
    rcases rotate_keys member with rfl | none' | ⟨-, older⟩
    · exact fresh known
    · exact solid none'
    · exact gone old was older

theorem compromised_discards {lifetimeMinutes : Int} {secret : String} (proper : Proper token s (.rotate lifetimeMinutes true secret))
    (solid : key ≠ "") (known : key ∈ s.known) : Discarded key (s.step (.rotate lifetimeMinutes true secret)) := by
  obtain ⟨-, given, fresh⟩ := proper
  refine ⟨solid, List.mem_cons_of_mem _ known, ?_⟩
  intro ring found member
  rw [step_rotate given] at found
  obtain ⟨old, -, rfl⟩ := Option.map_eq_some_iff.mp found
  rcases rotate_keys member with rfl | none' | ⟨no, -⟩
  · exact fresh known
  · exact solid none'
  · cases no

theorem verifies_solid {now : Int} (h : key ∈ verificationSecrets s.ring now) : key ≠ "" := by
  cases found : s.ring with
  | none =>
    rw [found] at h
    cases h
  | some ring =>
    rw [found] at h
    rcases mem_verificationSecrets.mp h with rfl | ⟨k, -, rfl, solid, -⟩
    · exact load_solid found
    · exact solid

end steps

def anyAct (_ : Act) : Bool := true

/-- From any file that is found, while every rotation covers the lifetime of a token and brings a new secret:
over ordinary rotations the key that signed still verifies a token's lifetime later; a key that has stopped signing
never signs again; and after a key was given up as compromised, none of those there had been verifies. -/
theorem rotation_logs_nobody_out (token : Int) (file : Option Document) (clock : Int) :
    (∀ s s' key, Run token anyAct (.start file clock) s → Run token Act.ordinary s s' →
      signingSecret s.ring = some key → s'.clock ≤ s.clock + token * 60 → key ∈ verificationSecrets s'.ring s'.clock) ∧
    (∀ s s' key, Run token anyAct (.start file clock) s → Run token anyAct s s' →
      key ∈ s.known → signingSecret s.ring ≠ some key → signingSecret s'.ring ≠ some key) ∧
    (∀ s s' key lifetimeMinutes compromised secret, Run token anyAct (.start file clock) s →
      Proper token s (.rotate lifetimeMinutes compromised secret) →
      Run token anyAct (s.step (.rotate lifetimeMinutes compromised secret)) s' →
      signingSecret s.ring = some key → signingSecret s'.ring ≠ some key) ∧
    ∀ s s' key lifetimeMinutes secret now, Run token anyAct (.start file clock) s →
      Proper token s (.rotate lifetimeMinutes true secret) → Run token anyAct (s.step (.rotate lifetimeMinutes true secret)) s' →
      key ∈ s.known ∨ key ∈ verificationSecrets s.ring now → ∀ later, key ∉ verificationSecrets s'.ring later := by
  have accounted : ∀ s, Run token anyAct (.start file clock) s → Accounted s := fun s before =>
    before.keeps step_accounted (start_accounted file clock)
  refine ⟨?_, ?_, ?_, ?_⟩
  · intro s s' key _ run signs within
    obtain ⟨ring, found, rfl⟩ := Option.map_eq_some_iff.mp signs
    exact (run.covered signs within).verifies (load_solid found) within
  · intro s s' key _ run known silent
    have gone : Outgone key s' := run.keeps step_outgone ⟨known, silent⟩
    exact gone.2
  · intro s s' key lifetimeMinutes compromised secret before proper run signs
    obtain ⟨ring, found, rfl⟩ := Option.map_eq_some_iff.mp signs
    have known := accounted s before ring found _ List.mem_cons_self (load_solid found)
    have outgone : Outgone ring.current.secret (s.step (.rotate lifetimeMinutes compromised secret)) := by
      refine ⟨List.mem_cons_of_mem _ known, ?_⟩
      intro again
      rw [step_rotate proper.2.1, found] at again
      have same : secret = ring.current.secret := Option.some.inj again
      exact proper.2.2 (same ▸ known)
    exact (run.keeps step_outgone outgone).2
  · intro s s' key lifetimeMinutes secret now before proper run there later verifies
    have solid := verifies_solid verifies
    have known : key ∈ s.known := by
      rcases there with known | verified
      · exact known
      · cases found : s.ring with
        | none =>
          rw [found] at verified
          cases verified
        | some ring =>
          rw [found] at verified
          exact accounted s before ring found key (verificationSecrets_subset verified) solid
    obtain ⟨-, -, gone⟩ := run.keeps step_discarded (compromised_discards proper solid known)
    cases found : s'.ring with
    | none =>
      rw [found] at verifies
      cases verifies
    | some ring =>
      rw [found] at verifies
      exact gone ring found (verificationSecrets_subset verifies)

def adopted : State := .start (some (save (adopt "a" 0))) 100

/-- An administrator who logged in before a rotation, and the key that is given up later. -/
theorem session_outlives_rotation :
    "a" ∈ verificationSecrets ((adopted.step (.rotate 480 false "b")).step (.wait 28800)).ring 28900 ∧
      signingSecret ((adopted.step (.rotate 480 false "b")).step (.rotate 480 true "c")).ring ≠ some "a" ∧
      signingSecret (adopted.step (.rotate 480 false "b")).ring ≠ some "a" ∧
      "b" ∉ verificationSecrets ((adopted.step (.rotate 480 false "b")).step (.rotate 480 true "c")).ring 100 := by
  have claim := rotation_logs_nobody_out 480 (some (save (adopt "a" 0))) 100
  have ordinary : Moves 480 Act.ordinary adopted (adopted.step (.rotate 480 false "b")) := ⟨_, by decide, rfl, rfl⟩
  have waits : Moves 480 Act.ordinary (adopted.step (.rotate 480 false "b"))
      ((adopted.step (.rotate 480 false "b")).step (.wait 28800)) :=
    ⟨.wait 28800, trivial, rfl, rfl⟩
  have first : Run 480 anyAct adopted (adopted.step (.rotate 480 false "b")) := .single ⟨_, by decide, rfl, rfl⟩
  have second : Run 480 anyAct (adopted.step (.rotate 480 false "b"))
      ((adopted.step (.rotate 480 false "b")).step (.rotate 480 true "c")) :=
    .single ⟨_, by decide, rfl, rfl⟩
  refine ⟨?_, ?_, ?_, ?_⟩
  · exact claim.1 adopted _ "a" .refl (.tail (.single ordinary) waits) rfl (by decide)
  · exact claim.2.1 _ _ "a" first second (by decide) (by decide)
  · exact claim.2.2.1 adopted _ "a" 480 false "b" .refl (by decide) .refl rfl
  · exact claim.2.2.2 _ _ "b" 480 "c" 100 first (by decide) .refl (.inl (by decide)) 100

end FfnNgfw.Signing.Keyring
