import FfnNgfw.Protect.Authenticator
import Mathlib.Logic.Function.Basic

/-!
# Guessing passwords

Logins come at the same time, each in a thread of its own. A login looks whether its source and
its user are limited, has its password checked, and then records its failure; it may be
interrupted between any two of these, and between reading the clock and looking. A reload puts
a new authenticator without failures in the place of the one that logins underway still use.
-/

namespace FfnNgfw.Protect.Guessing

inductive Slot where
  | source
  | user
  deriving DecidableEq

namespace Slot

def key : Slot → String → String
  | .source, name => "source:" ++ name
  | .user, name => "user:" ++ name

def of : Slot → Credentials → String
  | .source, q => q.source
  | .user, q => q.user

end Slot

/-- How far a login is, with the times of what has happened: when it got past the limits, when
its password was rejected, and when that was recorded. -/
inductive Progress where
  | source (now : Option Int)
  | user (bySource : Int) (now : Option Int)
  | judging (bySource byUser : Int)
  | rejected (bySource byUser ended : Int) (detail : String)
  | recorded (bySource byUser ended forSource : Int) (detail : String)
  | counted (bySource byUser ended forSource forUser : Int) (detail : String)
  | over (verdict : Verdict)

/-- `gate` is the authenticator that the login goes to. -/
structure Flight where
  gate : Nat
  profile : String
  credentials : Credentials
  progress : Progress

/-- The authenticators there have been, the newest of them in use, and every login so far. -/
structure State where
  clock : Int
  heap : Nat → Authenticator
  newest : Nat
  flights : List Flight

inductive Act where
  | wait (seconds : Nat)
  | load (profiles : Dict String Profile) (users : Dict String String)
  | login (profile : String) (credentials : Credentials)
  | move (flight : Nat)

def State.init (profiles : Dict String Profile) (users : Dict String String) (clock : Int) : State :=
  ⟨clock, fun _ => Authenticator.init profiles users, 0, []⟩

namespace State

def goes (s : State) (i : Nat) (g : Flight) (progress : Progress) : State := { s with flights := s.flights.set i { g with progress } }

def keeps (s : State) (i : Nat) (a : Authenticator) : State := { s with heap := Function.update s.heap i a }

/-- `limited`, with the time that was read before the lock was taken. -/
def look (s : State) (i : Nat) (g : Flight) (slot : Slot) (now : Int) (past : Progress) : State :=
  let (limited, a) := (s.heap g.gate).limited (slot.key (slot.of g.credentials)) now
  (s.keeps g.gate a).goes i g (if limited then .over (.refused "too many failed attempts") else past)

/-- `failed` -/
def record (s : State) (i : Nat) (g : Flight) (slot : Slot) (next : Progress) : State :=
  (s.keeps g.gate ((s.heap g.gate).failed (slot.key (slot.of g.credentials)) s.clock)).goes i g next

end State

variable (verifyPhash : String → String → Bool)

/-- The next step of a login: `check`, and `failed` for what it rejects. -/
def move (s : State) (i : Nat) : Option State :=
  match s.flights[i]? with
  | none => none
  | some g =>
    match g.progress with
    | .source none => some (s.goes i g (.source (some s.clock)))
    | .source (some now) => some (s.look i g .source now (.user s.clock none))
    | .user bySource none => some (s.goes i g (.user bySource (some s.clock)))
    | .user bySource (some now) => some (s.look i g .user now (.judging bySource s.clock))
    | .judging bySource byUser =>
      some (s.goes i g (match (s.heap g.gate).judge verifyPhash g.profile g.credentials with
        | .failed detail => .rejected bySource byUser s.clock detail
        | verdict => .over verdict))
    | .rejected bySource byUser ended detail => some (s.record i g .source (.recorded bySource byUser ended s.clock detail))
    | .recorded bySource byUser ended forSource detail =>
        some (s.record i g .user (.counted bySource byUser ended forSource s.clock detail))
    | .counted .. => none
    | .over _ => none

def step (s : State) : Act → Option State
  | .wait seconds => some { s with clock := s.clock + seconds }
  | .load profiles users =>
    some { s with heap := Function.update s.heap (s.newest + 1) (Authenticator.init profiles users), newest := s.newest + 1 }
  | .login profile q =>
    if !isUsername q.user.toList || 256 < q.password.length then some s
    else some { s with flights := s.flights ++ [⟨s.newest, profile, q, .source none⟩] }
  | .move i => move verifyPhash s i

def run (s : State) : List Act → Option State
  | [] => some s
  | a :: rest => (step verifyPhash s a).bind fun next => run next rest

/-! ### What is counted -/

inductive Standing where
  | outside
  | pending (passed : Int)
  | recorded (passed time : Int)

def Progress.standing : Progress → Slot → Standing
  | .user bySource _, .source => .pending bySource
  | .judging bySource _, .source => .pending bySource
  | .judging _ byUser, .user => .pending byUser
  | .rejected bySource _ _ _, .source => .pending bySource
  | .rejected _ byUser _ _, .user => .pending byUser
  | .recorded bySource _ _ forSource _, .source => .recorded bySource forSource
  | .recorded _ byUser _ _ _, .user => .pending byUser
  | .counted bySource _ _ forSource _ _, .source => .recorded bySource forSource
  | .counted _ byUser _ _ forUser _, .user => .recorded byUser forUser
  | _, _ => .outside

def Progress.ended : Progress → Option Int
  | .rejected _ _ ended _ => some ended
  | .recorded _ _ ended _ _ => some ended
  | .counted _ _ ended _ _ _ => some ended
  | _ => none

/-- A password of this user, or from this source, that was rejected in the window from `start` on. -/
def Flight.rejectedIn (slot : Slot) (name : String) (start : Int) (g : Flight) : Bool :=
  decide (slot.of g.credentials = name) && g.progress.ended.any fun t => start ≤ t && t < start + failureWindow

def State.rejections (s : State) (slot : Slot) (name : String) (start : Int) : Nat :=
    s.flights.countP (Flight.rejectedIn slot name start)

/-- What `limited` counts. -/
def State.seen (s : State) (g : Flight) (slot : Slot) (now : Int) : Nat :=
  (((s.heap g.gate).failures.lookup (slot.key (slot.of g.credentials))).getD []).countP fun t => now - t < failureWindow

/-- What no authenticator can count for the one that is asked: a password that is being checked
or whose failure is not recorded yet, and a failure of the window recorded with another one. -/
def Flight.unseenBy (slot : Slot) (name : String) (gate : Nat) (clock : Int) (g : Flight) : Bool :=
  decide (slot.of g.credentials = name) &&
    match g.progress.standing slot with
    | .outside => false
    | .pending _ => true
    | .recorded _ time => decide (g.gate ≠ gate) && decide (clock - time < failureWindow)

def State.unseen (s : State) (g : Flight) (slot : Slot) : Nat :=
    s.flights.countP (Flight.unseenBy slot (slot.of g.credentials) g.gate s.clock)

def Progress.looking : Progress → Option (Slot × Int)
  | .source now => now.map fun now => (.source, now)
  | .user _ now => now.map fun now => (.user, now)
  | _ => none

/-- Where a login gets past a limit, the failures that are counted and those that are not are below it together. -/
def meets (s : State) : Act → Bool
  | .move i =>
    match s.flights[i]? with
    | none => true
    | some g =>
      match g.progress.looking with
      | none => true
      | some (slot, now) => decide (failureLimit ≤ s.seen g slot now) || decide (s.seen g slot now + s.unseen g slot < failureLimit)
  | _ => true

def meetsAlong (s : State) : List Act → Bool
  | [] => true
  | a :: rest =>
    meets s a &&
      match step verifyPhash s a with
      | none => true
      | some next => meetsAlong next rest

/-! ### What an authenticator has on record -/

def entries (a : Authenticator) (key : String) : List Int := (a.failures.lookup key).getD []

section authenticator

variable {a : Authenticator} {slot slot' : Slot} {name name' key : String} {now clock since : Int}

theorem key_inj : slot.key name = slot'.key name' ↔ slot = slot' ∧ name = name' := by
  refine ⟨fun same => ?_, fun ⟨hs, hn⟩ => hs ▸ hn ▸ rfl⟩
  have chars := congrArg String.toList same
  cases slot with
  | source =>
    cases slot' with
    | source =>
      simp only [Slot.key, String.toList_append] at chars
      exact ⟨rfl, String.toList_injective (List.append_cancel_left chars)⟩
    | user =>
      simp only [Slot.key, String.toList_append] at chars
      cases chars
  | user =>
    cases slot' with
    | source =>
      simp only [Slot.key, String.toList_append] at chars
      cases chars
    | user =>
      simp only [Slot.key, String.toList_append] at chars
      exact ⟨rfl, String.toList_injective (List.append_cancel_left chars)⟩

theorem entries_init (profiles : Dict String Profile) (users : Dict String String) (key : String) :
    entries (Authenticator.init profiles users) key = [] := rfl

theorem entries_limited (a : Authenticator) (k key : String) (now : Int) :
    entries (a.limited k now).2 key = if key = k then (entries a k).filter (fun t => now - t < failureWindow) else entries a key := by
  show ((a.failures.assign k _).lookup key).getD [] = _
  rw [Dict.lookup_assign]
  split
  · rfl
  · rfl

theorem entries_failed (a : Authenticator) (k key : String) (now : Int) :
    entries (a.failed k now) key = if key = k then entries a k ++ [now] else entries a key := by
  show ((a.failures.assign k _).lookup key).getD [] = _
  rw [Dict.lookup_assign]
  split
  · rfl
  · rfl

theorem countP_limited (k : String) (past : now ≤ clock) (recent : clock - failureWindow < since) :
    (entries (a.limited k now).2 key).countP (fun t => since ≤ t) = (entries a key).countP (fun t => since ≤ t) := by
  rw [entries_limited]
  split
  · rename_i same
    subst same
    rw [List.countP_filter]
    apply List.countP_congr
    intro t _
    simp only [Bool.and_eq_true, decide_eq_true_eq]
    omega
  · rfl

end authenticator

variable {α : Type} {p : α → Bool}

theorem countP_set_add {l : List α} {i : Nat} {x : α} (found : l[i]? = some x) (p : α → Bool) (y : α) :
    (l.set i y).countP p + (if p x then 1 else 0) = l.countP p + if p y then 1 else 0 := by
  obtain ⟨bound, rfl⟩ := List.getElem?_eq_some_iff.mp found
  have part := List.boole_getElem_le_countP (p := p) (h := bound)
  rw [List.countP_set bound]
  omega

theorem countP_set_mono {l : List α} {i : Nat} {x y : α} (found : l[i]? = some x) (less : p y = true → p x = true) :
    (l.set i y).countP p ≤ l.countP p := by
  have sum := countP_set_add found p y
  by_cases new : p y = true
  · rw [if_pos new, if_pos (less new)] at sum
    omega
  · rw [if_neg new] at sum
    omega

theorem countP_set_same {l : List α} {i : Nat} {x y : α} (found : l[i]? = some x) (same : p y = p x) :
    (l.set i y).countP p = l.countP p := by
  have sum := countP_set_add found p y
  rw [same] at sum
  omega

theorem countP_append_none (l : List α) {x : α} (none : p x = false) : (l ++ [x]).countP p = l.countP p := by
  rw [List.countP_append, List.countP_singleton, none]
  rfl

/-! ### The invariant -/

/-- A failure that the authenticator `gate` has been told since then. -/
def Flight.toldSince (gate : Nat) (slot : Slot) (name : String) (since : Int) (g : Flight) : Bool :=
  decide (g.gate = gate) && decide (slot.of g.credentials = name) &&
    match g.progress.standing slot with
    | .recorded _ time => decide (since ≤ time)
    | _ => false

/-- What may still be found rejected in the window from `start` on: it got past the limit before the end of the
window, and its failure is not recorded yet or was recorded since. -/
def Flight.heldFrom (slot : Slot) (name : String) (start : Int) (g : Flight) : Bool :=
  decide (slot.of g.credentials = name) &&
    match g.progress.standing slot with
    | .outside => false
    | .pending passed => decide (passed < start + failureWindow)
    | .recorded passed time => decide (passed < start + failureWindow) && decide (start ≤ time)

def Progress.Ordered (clock : Int) : Progress → Prop
  | .source now => ∀ t ∈ now, t ≤ clock
  | .user bySource now => bySource ≤ clock ∧ ∀ t ∈ now, t ≤ clock
  | .judging bySource byUser => bySource ≤ clock ∧ byUser ≤ clock
  | .rejected bySource byUser ended _ => bySource ≤ ended ∧ byUser ≤ ended ∧ ended ≤ clock
  | .recorded bySource byUser ended forSource _ => bySource ≤ ended ∧ byUser ≤ ended ∧ ended ≤ clock ∧ ended ≤ forSource
  | .counted bySource byUser ended forSource forUser _ => bySource ≤ ended ∧ byUser ≤ ended ∧ ended ≤ clock ∧
      ended ≤ forSource ∧ ended ≤ forUser
  | .over _ => True

structure Kept (s : State) : Prop where
  ordered : ∀ g ∈ s.flights, g.progress.Ordered s.clock
  told : ∀ gate slot name since, s.clock - failureWindow < since →
    (entries (s.heap gate) (slot.key name)).countP (fun t => since ≤ t) = s.flights.countP (Flight.toldSince gate slot name since)
  gates : ∀ g ∈ s.flights, g.gate ≤ s.newest
  held : ∀ slot name start, s.flights.countP (Flight.heldFrom slot name start) ≤ failureLimit

theorem countP_le_add {p q r : α → Bool} (either : ∀ x, p x = true → q x = true ∨ r x = true) (l : List α) :
    l.countP p ≤ l.countP q + l.countP r := by
  induction l with
  | nil => exact Nat.le_refl 0
  | cons x l ih =>
    rw [List.countP_cons, List.countP_cons, List.countP_cons]
    by_cases here : p x = true
    · rcases either x here with left | right
      · rw [if_pos here, if_pos left]
        omega
      · rw [if_pos here, if_pos right]
        omega
    · rw [if_neg here]
      omega

section kept

variable {s s' : State} {i : Nat} {g g' : Flight} {slot : Slot} {name : String} {start clock now : Int}

theorem rejected_held (ordered : g.progress.Ordered clock) (rejected : g.rejectedIn slot name start = true) :
    g.heldFrom slot name start = true := by
  unfold Flight.rejectedIn at rejected
  unfold Flight.heldFrom
  rw [Bool.and_eq_true] at rejected ⊢
  refine ⟨rejected.1, ?_⟩
  obtain ⟨t, ended, window⟩ := (Option.any_eq_true ..).mp rejected.2
  rw [Bool.and_eq_true, decide_eq_true_eq, decide_eq_true_eq] at window
  generalize g.progress = progress at ordered ended
  cases progress with
  | rejected bySource byUser time detail =>
    obtain rfl : time = t := Option.some.inj ended
    obtain ⟨first, second, -⟩ := ordered
    cases slot with
    | source => exact decide_eq_true (by omega)
    | user => exact decide_eq_true (by omega)
  | recorded bySource byUser time forSource detail =>
    obtain rfl : time = t := Option.some.inj ended
    obtain ⟨first, second, -, later⟩ := ordered
    cases slot with
    | source => exact Bool.and_eq_true_iff.mpr ⟨decide_eq_true (by omega), decide_eq_true (by omega)⟩
    | user => exact decide_eq_true (by omega)
  | counted bySource byUser time forSource forUser detail =>
    obtain rfl : time = t := Option.some.inj ended
    obtain ⟨first, second, -, later, latest⟩ := ordered
    cases slot with
    | source => exact Bool.and_eq_true_iff.mpr ⟨decide_eq_true (by omega), decide_eq_true (by omega)⟩
    | user => exact Bool.and_eq_true_iff.mpr ⟨decide_eq_true (by omega), decide_eq_true (by omega)⟩
  | _ => cases ended

variable {progress : Progress}

theorem Progress.Ordered.later {later : Int} (ordered : progress.Ordered clock) (past : clock ≤ later) : progress.Ordered later := by
  cases progress with
  | source now => exact fun t member => (ordered t member).trans past
  | user bySource now => exact ⟨ordered.1.trans past, fun t member => (ordered.2 t member).trans past⟩
  | judging bySource byUser => exact ⟨ordered.1.trans past, ordered.2.trans past⟩
  | rejected bySource byUser ended detail => exact ⟨ordered.1, ordered.2.1, ordered.2.2.trans past⟩
  | recorded bySource byUser ended forSource detail => exact ⟨ordered.1, ordered.2.1, ordered.2.2.1.trans past, ordered.2.2.2⟩
  | counted bySource byUser ended forSource forUser detail => exact ⟨ordered.1, ordered.2.1, ordered.2.2.1.trans past, ordered.2.2.2⟩
  | «over» verdict => exact trivial

theorem Kept.moved (h : Kept s) (found : s.flights[i]? = some g) (progress : Progress) (heap : Nat → Authenticator)
    (ordered : progress.Ordered s.clock)
    (told : ∀ gate slot name since, s.clock - failureWindow < since →
      (entries (heap gate) (slot.key name)).countP (fun t => since ≤ t) =
        (s.flights.set i { g with progress }).countP (Flight.toldSince gate slot name since))
    (held : ∀ slot name start, (s.flights.set i { g with progress }).countP (Flight.heldFrom slot name start) ≤ failureLimit) :
    Kept { s with heap, flights := s.flights.set i { g with progress } } := by
  have member := List.mem_of_getElem? found
  refine ⟨fun x there => ?_, told, fun x there => ?_, held⟩
  · rcases List.mem_or_eq_of_mem_set there with old | rfl
    · exact h.ordered x old
    · exact ordered
  · rcases List.mem_or_eq_of_mem_set there with old | rfl
    · exact h.gates x old
    · exact h.gates g member

theorem Kept.goes (h : Kept s) (found : s.flights[i]? = some g) (ordered : progress.Ordered s.clock)
    (standing : ∀ slot, progress.standing slot = g.progress.standing slot ∨
      progress.standing slot = .outside ∧
      ∀ passed time, g.progress.standing slot ≠ .recorded passed time) : Kept (s.goes i g progress) := by
  refine h.moved found progress s.heap ordered (fun gate slot name since recent => ?_) fun slot name start => ?_
  · rw [h.told gate slot name since recent]
    refine (countP_set_same found ?_).symm
    unfold Flight.toldSince
    dsimp only
    rcases standing slot with same | ⟨outside, unrecorded⟩
    · rw [same]
    · rw [outside]
      congr 1
      cases shape : g.progress.standing slot with
      | recorded passed time => exact absurd shape (unrecorded passed time)
      | _ => rfl
  · refine (countP_set_mono found ?_).trans (h.held slot name start)
    unfold Flight.heldFrom
    dsimp only
    rcases standing slot with same | ⟨outside, -⟩
    · rw [same]
      exact id
    · rw [outside, Bool.and_false]
      exact fun no => (nomatch no)

theorem held_le (h : Kept s) (g : Flight) (slot : Slot) {start now : Int} (window : s.clock < start + failureWindow)
    (past : now ≤ s.clock) :
    s.flights.countP (Flight.heldFrom slot (slot.of g.credentials) start) ≤ s.seen g slot now + s.unseen g slot := by
  have recent : s.clock - failureWindow < start := by omega
  have seen : s.flights.countP (Flight.toldSince g.gate slot (slot.of g.credentials) start) ≤ s.seen g slot now := by
    rw [← h.told g.gate slot _ start recent]
    apply List.countP_mono_left
    intro t _ since
    have since : start ≤ t := of_decide_eq_true since
    exact decide_eq_true (by omega)
  refine (countP_le_add (fun x held => ?_) s.flights).trans (Nat.add_le_add_right seen _)
  unfold Flight.heldFrom at held
  unfold Flight.toldSince Flight.unseenBy
  rw [Bool.and_eq_true] at held
  obtain ⟨named, standing⟩ := held
  rw [named]
  cases shape : x.progress.standing slot with
  | outside =>
    rw [shape] at standing
    cases standing
  | pending passed => exact .inr rfl
  | recorded passed time =>
    rw [shape] at standing
    have since := of_decide_eq_true (Bool.and_eq_true_iff.mp standing).2
    by_cases same : x.gate = g.gate
    · exact .inl (by simp [same, since])
    · refine .inr ?_
      have window : s.clock - time < failureWindow := by omega
      simp [same, window]

theorem told_limited (h : Kept s) (found : s.flights[i]? = some g) {k : String} (past : now ≤ s.clock)
    (before : ∀ slot passed time, g.progress.standing slot ≠ .recorded passed time)
    (after : ∀ slot passed time, progress.standing slot ≠ .recorded passed time) {gate : Nat} {since : Int}
    (recent : s.clock - failureWindow < since) :
    (entries (Function.update s.heap g.gate ((s.heap g.gate).limited k now).2 gate) (slot.key name)).countP (fun t => since ≤ t) =
      (s.flights.set i { g with progress }).countP (Flight.toldSince gate slot name since) := by
  have never : ∀ x : Flight, (∀ slot passed time, x.progress.standing slot ≠ .recorded passed time) →
      x.toldSince gate slot name since = false := by
    intro x unrecorded
    unfold Flight.toldSince
    cases shape : x.progress.standing slot with
    | recorded passed time => exact absurd shape (unrecorded slot passed time)
    | _ => exact Bool.and_false _
  have same : (s.flights.set i { g with progress }).countP (Flight.toldSince gate slot name since) =
      s.flights.countP (Flight.toldSince gate slot name since) :=
    countP_set_same found ((never { g with progress } after).trans (never g before).symm)
  rw [same, ← h.told gate slot name since recent]
  by_cases here : gate = g.gate
  · subst here
    rw [Function.update_self, countP_limited k past recent]
  · rw [Function.update_of_ne here]

theorem Kept.look (h : Kept s) (found : s.flights[i]? = some g) (looking : g.progress.looking = some (slot, now))
    (fits : meets s (.move i) = true)
    (past : now ≤ s.clock) (before : ∀ slot passed time, g.progress.standing slot ≠ .recorded passed time)
    (ordered : progress.Ordered s.clock)
    (standing : progress.standing slot = .pending s.clock ∧ ∀ other, other ≠ slot →
    progress.standing other = g.progress.standing other) :
    Kept (s.look i g slot now progress) := by
  unfold State.look
  dsimp only [State.goes, State.keeps]
  split
  · refine h.moved found _ _ trivial (fun gate slot' name since recent => ?_) fun slot' name start => ?_
    · exact told_limited h found past before (fun slot _ _ no => by cases slot <;> cases no) recent
    · refine (countP_set_mono found fun held => ?_).trans (h.held slot' name start)
      unfold Flight.heldFrom at held
      cases slot' <;> cases (Bool.and_eq_true_iff.mp held).2
  · rename_i allowed
    refine h.moved found progress _ ordered (fun gate slot' name since recent => ?_) fun slot' name start => ?_
    · refine told_limited h found past before (fun other passed time recorded => ?_) recent
      by_cases same : other = slot
      · subst same
        rw [standing.1] at recorded
        cases recorded
      · rw [standing.2 other same] at recorded
        exact before other passed time recorded
    · by_cases counts : slot' = slot ∧ slot.of g.credentials = name ∧ s.clock < start + failureWindow
      · obtain ⟨rfl, rfl, window⟩ := counts
        have below : s.seen g slot' now < failureLimit := by
          have few : ¬ failureLimit ≤ (((s.heap g.gate).failures.lookup (slot'.key (slot'.of g.credentials))).getD []).countP
              fun t => now - t < failureWindow := by
            rw [List.countP_eq_length_filter]
            exact fun many => allowed (decide_eq_true many)
          exact Nat.lt_of_not_le few
        dsimp only [meets] at fits
        rw [found] at fits
        dsimp only at fits
        rw [looking] at fits
        dsimp only at fits
        rw [decide_eq_false (Nat.not_le.mpr below), Bool.false_or, decide_eq_true_eq] at fits
        have sum := countP_set_add found (Flight.heldFrom slot' (slot'.of g.credentials) start) { g with progress }
        have bound := held_le h g slot' window past
        have one : (if Flight.heldFrom slot' (slot'.of g.credentials) start { g with progress } = true then 1 else 0) ≤ 1 := by
          split
          · exact Nat.le_refl 1
          · exact Nat.zero_le 1
        omega
      · refine (countP_set_mono found fun held => ?_).trans (h.held slot' name start)
        unfold Flight.heldFrom at held ⊢
        rw [Bool.and_eq_true] at held ⊢
        obtain ⟨named, held⟩ := held
        refine ⟨named, ?_⟩
        by_cases same : slot' = slot
        · subst same
          have held : decide (s.clock < start + failureWindow) = true := by
            dsimp only at held
            rwa [standing.1] at held
          exact absurd ⟨rfl, of_decide_eq_true named, of_decide_eq_true held⟩ counts
        · dsimp only at held
          rwa [standing.2 slot' same] at held

theorem Kept.record (h : Kept s) (found : s.flights[i]? = some g) (ordered : progress.Ordered s.clock) {passed : Int}
    (before : g.progress.standing slot = .pending passed) (after : progress.standing slot = .recorded passed s.clock)
    (rest : ∀ other, other ≠ slot → progress.standing other = g.progress.standing other) : Kept (s.record i g slot progress) := by
  refine h.moved found progress (Function.update s.heap g.gate
    ((s.heap g.gate).failed (slot.key (slot.of g.credentials)) s.clock)) ordered
    (fun gate slot' name since recent => ?_) fun slot' name start => ?_
  · have told := h.told gate slot' name since recent
    by_cases here : slot' = slot ∧ slot.of g.credentials = name ∧ gate = g.gate
    · obtain ⟨rfl, rfl, rfl⟩ := here
      have sum := countP_set_add found (Flight.toldSince g.gate slot' (slot'.of g.credentials) since) { g with progress }
      have unrecorded : Flight.toldSince g.gate slot' (slot'.of g.credentials) since g = false := by
        unfold Flight.toldSince
        rw [before]
        exact Bool.and_false _
      have new : Flight.toldSince g.gate slot' (slot'.of g.credentials) since { g with progress } = decide (since ≤ s.clock) := by
        unfold Flight.toldSince
        dsimp only
        rw [after]
        simp
      rw [unrecorded, new] at sum
      rw [Function.update_self, entries_failed, if_pos rfl, List.countP_append, List.countP_singleton, told]
      exact sum.symm
    · have same : (s.flights.set i { g with progress }).countP (Flight.toldSince gate slot' name since) =
          s.flights.countP (Flight.toldSince gate slot' name since) := by
        refine countP_set_same found ?_
        unfold Flight.toldSince
        dsimp only
        by_cases named : g.gate = gate ∧ slot'.of g.credentials = name
        · have other : slot' ≠ slot := by
            rintro rfl
            exact here ⟨rfl, named.2, named.1.symm⟩
          rw [rest slot' other]
        · have neither : (decide (g.gate = gate) && decide (slot'.of g.credentials = name)) = false := by simpa using named
          rw [neither, Bool.false_and, Bool.false_and]
      rw [same, ← told]
      by_cases there : gate = g.gate
      · subst there
        have other : slot'.key name ≠ slot.key (slot.of g.credentials) := fun equal =>
          here ⟨(key_inj.mp equal).1, (key_inj.mp equal).2.symm, rfl⟩
        rw [Function.update_self, entries_failed, if_neg other]
      · rw [Function.update_of_ne there]
  · refine (countP_set_mono found fun held => ?_).trans (h.held slot' name start)
    unfold Flight.heldFrom at held ⊢
    rw [Bool.and_eq_true] at held ⊢
    refine ⟨held.1, ?_⟩
    have held := held.2
    dsimp only at held
    by_cases same : slot' = slot
    · subst same
      rw [after] at held
      rw [before]
      exact (Bool.and_eq_true_iff.mp held).1
    · rwa [rest slot' same] at held

theorem Kept.wait (h : Kept s) (seconds : Nat) : Kept { s with clock := s.clock + seconds } := by
  have past : s.clock ≤ s.clock + seconds := by omega
  refine ⟨fun g member => (h.ordered g member).later past, fun gate slot name since recent => ?_, h.gates, h.held⟩
  have recent : s.clock + seconds - failureWindow < since := recent
  exact h.told gate slot name since (by omega)

theorem Kept.load (h : Kept s) (profiles : Dict String Profile) (users : Dict String String) :
    Kept { s with heap := Function.update s.heap (s.newest + 1) (Authenticator.init profiles users), newest := s.newest + 1 } := by
  refine ⟨h.ordered, fun gate slot name since recent => ?_, fun g member => Nat.le_succ_of_le (h.gates g member), h.held⟩
  by_cases new : gate = s.newest + 1
  · subst new
    have none : s.flights.countP (Flight.toldSince (s.newest + 1) slot name since) = 0 := by
      rw [List.countP_eq_zero]
      intro g member told
      unfold Flight.toldSince at told
      rw [Bool.and_assoc] at told
      have gate := of_decide_eq_true (Bool.and_eq_true_iff.mp told).1
      have bound := h.gates g member
      omega
    dsimp only
    rw [Function.update_self, entries_init, none]
    rfl
  · dsimp only
    rw [Function.update_of_ne new]
    exact h.told gate slot name since recent

theorem Kept.login (h : Kept s) (profile : String) (q : Credentials) :
    Kept { s with flights := s.flights ++ [⟨s.newest, profile, q, .source none⟩] } := by
  refine ⟨fun g member => ?_, fun gate slot name since recent => ?_, fun g member => ?_, fun slot name start => ?_⟩
  · rcases List.mem_append.mp member with old | new
    · exact h.ordered g old
    · obtain rfl := List.mem_singleton.mp new
      exact fun t no => (nomatch no)
  · dsimp only
    rw [countP_append_none, h.told gate slot name since recent]
    unfold Flight.toldSince
    cases slot <;> exact Bool.and_false _
  · rcases List.mem_append.mp member with old | new
    · exact h.gates g old
    · obtain rfl := List.mem_singleton.mp new
      exact Nat.le_refl _
  · dsimp only
    rw [countP_append_none]
    · exact h.held slot name start
    · unfold Flight.heldFrom
      cases slot <;> exact Bool.and_false _

theorem kept_init (profiles : Dict String Profile) (users : Dict String String) (clock : Int) : Kept (State.init profiles users clock) :=
  ⟨fun _ no => (nomatch no), fun _ _ _ _ _ => rfl, fun _ no => (nomatch no), fun _ _ _ => Nat.zero_le _⟩

variable {verifyPhash : String → String → Bool}

theorem kept_move (h : Kept s) (fits : meets s (.move i) = true) (moved : move verifyPhash s i = some s') : Kept s' := by
  unfold move at moved
  cases found : s.flights[i]? with
  | none =>
    rw [found] at moved
    cases moved
  | some g =>
    rw [found] at moved
    dsimp only at moved
    have times := h.ordered g (List.mem_of_getElem? found)
    cases shape : g.progress with
    | source now =>
      rw [shape] at moved times
      cases now with
      | none =>
        obtain rfl := Option.some.inj moved
        exact h.goes found (fun t member => (Option.some.inj member ▸ Int.le_refl _)) fun slot =>
          .inl (by rw [shape]; cases slot <;> rfl)
      | some now =>
        obtain rfl := Option.some.inj moved
        refine h.look found (by rw [shape]; rfl) fits (times now rfl) (fun slot _ _ no => ?_) ⟨Int.le_refl _, fun t no => (nomatch no)⟩
          ⟨rfl, fun other different => ?_⟩
        · rw [shape] at no
          cases slot <;> cases no
        · rw [shape]
          cases other with
          | source => exact absurd rfl different
          | user => rfl
    | user bySource now =>
      rw [shape] at moved times
      cases now with
      | none =>
        obtain rfl := Option.some.inj moved
        exact h.goes found ⟨times.1, fun t member => (Option.some.inj member ▸ Int.le_refl _)⟩ fun slot =>
          .inl (by rw [shape]; cases slot <;> rfl)
      | some now =>
        obtain rfl := Option.some.inj moved
        refine h.look found (by rw [shape]; rfl) fits (times.2 now rfl) (fun slot _ _ no => ?_) ⟨times.1, Int.le_refl _⟩
          ⟨rfl, fun other different => ?_⟩
        · rw [shape] at no
          cases slot <;> cases no
        · rw [shape]
          cases other with
          | source => rfl
          | user => exact absurd rfl different
    | judging bySource byUser =>
      rw [shape] at moved times
      obtain rfl := Option.some.inj moved
      refine h.goes found ?_ fun slot => ?_
      · split
        · exact ⟨times.1, times.2, Int.le_refl _⟩
        · exact trivial
      · rw [shape]
        split
        · exact .inl (by cases slot <;> rfl)
        · exact .inr (by cases slot <;> exact ⟨rfl, fun _ _ no => (nomatch no)⟩)
    | rejected bySource byUser ended detail =>
      rw [shape] at moved times
      obtain rfl := Option.some.inj moved
      refine h.record found ⟨times.1, times.2.1, times.2.2, times.2.2⟩ (by rw [shape]; rfl) rfl fun other different => ?_
      rw [shape]
      cases other with
      | source => exact absurd rfl different
      | user => rfl
    | recorded bySource byUser ended forSource detail =>
      rw [shape] at moved times
      obtain rfl := Option.some.inj moved
      refine h.record found ⟨times.1, times.2.1, times.2.2.1, times.2.2.2,
        times.2.2.1⟩ (by rw [shape]; rfl) rfl fun other different => ?_
      rw [shape]
      cases other with
      | source => rfl
      | user => exact absurd rfl different
    | counted bySource byUser ended forSource forUser detail =>
      rw [shape] at moved
      cases moved
    | «over» verdict =>
      rw [shape] at moved
      cases moved

theorem kept_step (h : Kept s) {a : Act} (fits : meets s a = true) (taken : step verifyPhash s a = some s') : Kept s' := by
  cases a with
  | wait seconds =>
    obtain rfl := Option.some.inj taken
    exact h.wait seconds
  | load profiles users =>
    obtain rfl := Option.some.inj taken
    exact h.load profiles users
  | login profile q =>
    dsimp only [step] at taken
    split at taken
    · obtain rfl := Option.some.inj taken
      exact h
    · obtain rfl := Option.some.inj taken
      exact h.login profile q
  | move i => exact kept_move h fits taken

theorem kept_run (h : Kept s) {acts : List Act} (fits : meetsAlong verifyPhash s acts = true)
    (reached : run verifyPhash s acts = some s') : Kept s' := by
  induction acts generalizing s with
  | nil =>
    obtain rfl := Option.some.inj reached
    exact h
  | cons a rest ih =>
    rw [meetsAlong, Bool.and_eq_true] at fits
    obtain ⟨next, taken, later⟩ := Option.bind_eq_some_iff.mp reached
    rw [taken] at fits
    exact ih (kept_step h fits.1 taken) fits.2 later

theorem Kept.bounded (h : Kept s) (slot : Slot) (name : String) (start : Int) : s.rejections slot name start ≤ failureLimit :=
  (List.countP_mono_left fun g member => rejected_held (h.ordered g member)).trans (h.held slot name start)

end kept

variable {verifyPhash : String → String → Bool} {profiles : Dict String Profile} {users : Dict String String}
  {clock : Int} {acts : List Act} {s : State}

/-- In a run whose steps meet the condition, passwords of one user and from one source are rejected at most so often in any window. -/
theorem guessing_bounded (fits : meetsAlong verifyPhash (State.init profiles users clock) acts = true)
    (reached : run verifyPhash (State.init profiles users clock) acts = some s) (slot : Slot) (name : String) (start : Int) :
    s.rejections slot name start ≤ failureLimit :=
  (kept_run (kept_init profiles users clock) fits reached).bounded slot name start

def attempt : Credentials := ⟨"alice", "", "guess", "198.51.100.7", 0, 0, fun _ => none⟩

/-- A gateway that checks the local users, of whom there are none. -/
def closed : State := State.init (Dict.ofItems [("local", ⟨.locally, none⟩)]) ∅ 0

/-- Logins that look at their limits before the first of them is judged. -/
def together (logins : Nat) : List Act :=
  List.replicate logins (.login "local" attempt) ++ (List.range logins).flatMap (fun i => List.replicate 4 (.move i)) ++
    (List.range logins).map .move

/-- Three logins at once. -/
theorem three_together : ∃ s, run (fun _ _ => false) closed (together 3) = some s ∧ s.rejections .user "alice" 0 ≤ failureLimit := by
  have runs : (run (fun _ _ => false) closed (together 3)).isSome = true := by decide +kernel
  obtain ⟨s, reached⟩ := Option.isSome_iff_exists.mp runs
  exact ⟨s, reached, guessing_bounded (by decide +kernel) reached .user "alice" 0⟩

/-- Eleven logins at once: every one of them gets past the limit. -/
theorem eleven_together :
    ∃ s, run (fun _ _ => false) closed (together 11) = some s ∧ failureLimit < s.rejections .user "alice" 0 ∧
      failureLimit < s.rejections .source "198.51.100.7" 0 := by
  have runs : (run (fun _ _ => false) closed (together 11)).any
      (fun s => decide (failureLimit < s.rejections .user "alice" 0) && decide
        (failureLimit < s.rejections .source "198.51.100.7" 0)) = true := by
    decide +kernel
  obtain ⟨s, reached, both⟩ := (Option.any_eq_true ..).mp runs
  rw [Bool.and_eq_true, decide_eq_true_eq, decide_eq_true_eq] at both
  exact ⟨s, reached, both⟩

end FfnNgfw.Protect.Guessing
