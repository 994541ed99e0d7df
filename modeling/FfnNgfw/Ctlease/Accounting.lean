import FfnNgfw.Ctlease.Module
import Mathlib.Data.List.Range
import Mathlib.Data.UInt

/-!
# Safety of leases

`Move` says once what a step can do. Every run then keeps one owner for each object, numbers the
updates of a file from 1 on, and adds to the counters exactly what the updates say. A file whose
lease has become invalid changes no counter again.
-/

namespace FfnNgfw.Ctlease

variable {Handle Obj : Type}

theorem Counter.add_assoc (a b c : Counter) : (a.add b).add c = a.add (b.add c) := by simp [Counter.add, UInt64.add_assoc]

theorem Counter.add_comm (a b : Counter) : a.add b = b.add a := by simp [Counter.add, UInt64.add_comm]

def total [DecidableEq Obj] (entries : List (Addition Handle Obj)) (ct : Obj) (d : Direction) : Counter :=
  entries.foldr (fun e sum => if e.ct = ct then (delta e.identity e.update d).add sum else sum) ⟨0, 0⟩

theorem total_append [DecidableEq Obj] (entries : List (Addition Handle Obj)) (e : Addition Handle Obj) (ct : Obj) (d : Direction) :
    total (entries ++ [e]) ct d = if e.ct = ct then (total entries ct d).add (delta e.identity e.update d) else total entries ct d := by
  induction entries with
  | nil =>
    show (if e.ct = ct then _ else _) = _
    split
    · exact Counter.add_comm _ _
    · rfl
  | cons first entries ih =>
    show (if first.ct = ct then (delta first.identity first.update d).add (total (entries ++ [e]) ct d)
      else total (entries ++ [e]) ct d) = _
    rw [ih]
    show _ = if e.ct = ct then
      (if first.ct = ct then (delta first.identity first.update d).add (total entries ct d) else total entries ct d).add _
      else if first.ct = ct then (delta first.identity first.update d).add (total entries ct d) else total entries ct d
    split
    · split
      · exact (Counter.add_assoc _ _ _).symm
      · rfl
    · rfl

def Exact (identity : Bind) (u : Update) (d : Direction) : Prop :=
  (u.packets d).toNat * (identity.ethernetBytes d).toNat ≤ (u.octets d).toNat ∧
    (delta identity u d).bytes.toNat = (u.octets d).toNat - (u.packets d).toNat * (identity.ethernetBytes d).toNat

theorem exact_of_bounds {identity : Bind} {u : Update} {d : Direction} (h : outOfBounds identity u d = false) : Exact identity u d := by
  simp only [outOfBounds, Bool.or_eq_false_iff, decide_eq_false_iff_not, gt_iff_lt, UInt64.not_lt] at h
  obtain ⟨⟨⟨few, -⟩, enough⟩, -⟩ := h
  have few : (u.packets d).toNat ≤ 65535 := UInt64.le_iff_toNat_le.mp few
  have bound := (identity.ethernetBytes d).toNat_lt
  have size : (u.packets d).toNat * (identity.ethernetBytes d).toNat ≤ 65535 * 65535 := Nat.mul_le_mul few (by omega)
  have size' : (u.packets d).toNat * ((identity.ethernetBytes d).toNat + 20) ≤ 65535 * 65555 := Nat.mul_le_mul few (by omega)
  have product : (u.packets d * (identity.ethernetBytes d).toUInt64).toNat = (u.packets d).toNat * (identity.ethernetBytes d).toNat := by
    rw [UInt64.toNat_mul, UInt16.toNat_toUInt64, Nat.mod_eq_of_lt (by omega)]
  have product' : (u.packets d * ((identity.ethernetBytes d).toUInt64 + 20)).toNat =
      (u.packets d).toNat * ((identity.ethernetBytes d).toNat + 20) := by
    rw [UInt64.toNat_mul, UInt64.toNat_add, UInt16.toNat_toUInt64, show (20 : UInt64).toNat = 20 from rfl,
      Nat.mod_eq_of_lt (show (identity.ethernetBytes d).toNat + 20 < 2 ^ 64 by omega), Nat.mod_eq_of_lt (by omega)]
  have enough := UInt64.le_iff_toNat_le.mp enough
  rw [product', Nat.mul_add] at enough
  have less : (u.packets d).toNat * (identity.ethernetBytes d).toNat ≤ (u.octets d).toNat := by omega
  refine ⟨less, ?_⟩
  show (u.octets d - u.packets d * (identity.ethernetBytes d).toUInt64).toNat = _
  rw [UInt64.toNat_sub_of_le _ _ (UInt64.le_iff_toNat_le.mpr (by rw [product]; exact less)), product]

variable {l : Lease Obj}

theorem checkUpdate_none {u : Update} (h : checkUpdate l u = none) :
    u.sequence.toNat = l.sequence.toNat + 1 ∧ ∀ d, Exact l.identity u d := by
  unfold checkUpdate at h
  split at h
  · cases h
  · rename_i numbered
    split at h
    · cases h
    · split at h
      · cases h
      · rename_i bounds
        simp only [Bool.not_eq_true, Bool.or_eq_false_iff] at bounds
        obtain ⟨first, second⟩ := bounds
        simp only [not_or, ne_eq, not_not] at numbered
        obtain ⟨positive, next, -, -⟩ := numbered
        refine ⟨?_, fun d => by cases d; exact exact_of_bounds first; exact exact_of_bounds second⟩
        rw [next] at positive ⊢
        have small := l.sequence.toNat_lt
        rw [UInt64.toNat_add, show (1 : UInt64).toNat = 1 from rfl]
        by_cases wraps : l.sequence.toNat + 1 = 2 ^ 64
        · refine absurd (UInt64.toNat_inj.mp ?_) positive
          rw [UInt64.toNat_add, show (1 : UInt64).toNat = 1 from rfl, wraps]
          rfl
        · exact Nat.mod_eq_of_lt (by omega)

structure Ownership (w : World Handle Obj) : Prop where
  unique : w.claims.Nodup
  claimed : ∀ h, h ∈ w.claims ↔ (w.owns h).isSome = true
  exclusive : ∀ h h' ct, w.owns h = some ct → w.owns h' = some ct → h = h'

section

variable {w w' : World Handle Obj}

variable {h : Handle} {l : Lease Obj}

theorem owns_of_files [DecidableEq Handle] {f : File Obj} (files : w'.files = Function.update w.files h f) (h' : Handle) :
    w'.owns h' = if h' = h then f.lease.bind (·.ct) else w.owns h' := by
  unfold World.owns
  rw [files, Function.update_apply]
  split
  · rfl
  · rfl

theorem owns_opened (there : w.files h = .opened l) : w.owns h = l.ct := by
  unfold World.owns
  rw [there]
  rfl

theorem Ownership.same (h : Ownership w) (claims : w'.claims = w.claims) (owns : ∀ h, w'.owns h = w.owns h) : Ownership w' := by
  refine ⟨claims ▸ h.unique, fun x => ?_, fun x y ct first second => ?_⟩
  · rw [claims, owns]
    exact h.claimed x
  · rw [owns] at first second
    exact h.exclusive x y ct first second

theorem owns_setLease [DecidableEq Handle] (same : l.ct = w.owns h) (h' : Handle) : (w.setLease h l).owns h' = w.owns h' := by
  rw [owns_of_files rfl]
  split
  · rename_i here
    rw [here]
    exact same
  · rfl

/-- The lease of the file has become invalid, or the file is closed. -/
def Latched (w : World Handle Obj) (h : Handle) : Prop := (∃ l, w.files h = .opened l ∧ l.invalid = true) ∨ w.files h = .closed

theorem latched_of_files [DecidableEq Handle] {h h' : Handle} {f : File Obj} (files : w'.files = Function.update w.files h' f)
    (latched : Latched w h)
    (same : h = h' → (∃ l, f = .opened l ∧ l.invalid = true) ∨ f = .closed) : Latched w' h := by
  unfold Latched
  rw [files, Function.update_apply]
  split
  · rename_i here
    exact same here
  · exact latched

theorem Latched.lease (latched : Latched w h) (there : w.files h = .opened l) : l.invalid = true := by
  rcases latched with ⟨l', there', invalid⟩ | closed
  · rw [there] at there'
    cases there'
    exact invalid
  · rw [there] at closed
    cases closed

end

variable [DecidableEq Handle] [DecidableEq Obj]

inductive Move (w : World Handle Obj) : Option Handle → World Handle Obj → Prop where
  | idle {who : Option Handle} : Move w who w
  | opened {h : Handle} : w.files h = .unopened → Move w (some h) (w.setLease h ⟨none, Bind.zero, 0, false⟩)
  | described {h : Handle} {l : Lease Obj} (b : Bind) : w.files h = .opened l → l.ct = none →
      Move w (some h) (w.setLease h { l with identity := b })
  | bound {h : Handle} {l : Lease Obj} (b : Bind) (ct : Obj) : w.files h = .opened l → l.ct = none →
      (∀ other ∈ w.claims, w.owns other ≠ some ct) →
      Move w (some h) { w.setLease h { l with ct := some ct, identity := b } with claims := h :: w.claims }
  | spoiled {h : Handle} {l : Lease Obj} : w.files h = .opened l → Move w (some h) (w.setLease h { l with invalid := true })
  | added {h : Handle} {l : Lease Obj} {ct : Obj} {u : Update} (dying : Bool) (result : Option Errno) : w.files h = .opened l →
      l.ct = some ct →
      l.invalid = false → checkUpdate l u = none →
      Move w (some h)
        { (w.addTo ct (delta l.identity u)).setLease h { l with sequence := u.sequence, invalid := dying } with
          added := w.added ++ [⟨h, ct, l.identity, u, result⟩] }
  | released {h : Handle} {l : Lease Obj} : w.files h = .opened l → Move w (some h) (leaseRelease w h l)
  | traffic (ct : Obj) (count : Direction → Counter) :
      Move w none { w.addTo ct count with software := Function.update w.software ct fun d => (w.software ct d).add (count d) }

def Action.handle : Action Handle Obj → Option Handle
  | .openFile h => some h
  | .control h _ _ => some h
  | .release h => some h
  | .traffic _ _ => none

theorem control_move (w : World Handle Obj) {h : Handle} (there : w.files h = .opened l) (call : Call Obj) :
    Move w (some h) (control w h l call).1 := by
  cases call with
  | bind b found seen =>
    simp only [control, bindLease]
    split
    · exact .idle
    · rename_i unbound
      have unbound : l.ct = none := by simpa using unbound
      split
      · exact .idle
      · split
        · exact .idle
        · split
          · exact .idle
          · rename_i free
            split
            · exact .idle
            · split
              · exact .described b there unbound
              · refine .bound b _ there unbound fun other member owned => ?_
                simp only [List.any_eq_true, decide_eq_true_eq, not_exists, not_and] at free
                exact free other member owned
  | update u seen dyingAfter =>
    simp only [control, updateLease]
    split
    · exact .idle
    · rename_i ct bound
      split
      · exact .idle
      · rename_i valid
        split
        · exact .idle
        · rename_i checked
          split
          · exact .spoiled there
          · exact .added dyingAfter _ there bound (by simpa using valid) checked
  | check seen =>
    simp only [control, checkLease]
    split
    · exact .idle
    · split
      · exact .idle
      · split
        · exact .spoiled there
        · exact .idle

theorem step_move (w : World Handle Obj) (a : Action Handle Obj) : Move w a.handle (step w a).1 := by
  cases a with
  | openFile h =>
    simp only [step, Action.handle]
    split
    · rename_i fresh
      exact .opened fresh
    · exact .idle
  | control h permitted call =>
    simp only [step, Action.handle]
    split
    · rename_i l there
      split
      · exact control_move w there call
      · exact .idle
    · exact .idle
  | release h =>
    simp only [step, Action.handle]
    split
    · rename_i l there
      exact .released there
    · exact .idle
  | traffic ct count => exact .traffic ct count

section moves

variable {w w' : World Handle Obj} {who : Option Handle}

theorem Move.ownership (move : Move w who w') (h : Ownership w) : Ownership w' := by
  cases move with
  | idle => exact h
  | opened fresh => exact h.same rfl fun x => owns_setLease (by rw [World.owns, fresh]; rfl) x
  | described b there unbound => exact h.same rfl fun x => owns_setLease (by rw [owns_opened there]) x
  | @bound file l b ct there unbound free =>
    have none : w.owns file = none := by rw [owns_opened there, unbound]
    have owns (x : Handle) : World.owns { w.setLease file { l with ct := some ct, identity := b } with claims := file :: w.claims } x =
        if x = file then some ct else w.owns x := by
      rw [owns_of_files (w := w) rfl x]
      rfl
    have others {x : Handle} {o : Obj} (owned : w.owns x = some o) : x ∈ w.claims := (h.claimed x).mpr (by rw [owned]; rfl)
    refine ⟨List.nodup_cons.mpr ⟨fun there => ?_, h.unique⟩, fun x => ?_, fun x y o first second => ?_⟩
    · rw [h.claimed, none] at there
      cases there
    · rw [owns, List.mem_cons, h.claimed]
      split
      · simp [*]
      · simp [*]
    · rw [owns] at first second
      split at first
      · split at second
        · rename_i here there
          rw [here, there]
        · cases first
          exact absurd second (free y (others second))
      · split at second
        · cases second
          exact absurd first (free x (others first))
        · exact h.exclusive x y o first second
  | spoiled there => exact h.same rfl fun x => owns_setLease (by rw [owns_opened there]) x
  | @added file l ct u dying result there bound valid checked =>
    refine h.same rfl fun x => ?_
    rw [owns_of_files rfl]
    split
    · rename_i here
      rw [here, owns_opened there]
      rfl
    · rfl
  | @released file l there =>
    have owns (x : Handle) : (leaseRelease w file l).owns x = if x = file then none else w.owns x := by
      rw [owns_of_files (w := w) rfl x]
      rfl
    have listed : file ∈ w.claims ↔ l.ct.isSome = true := by rw [h.claimed, owns_opened there]
    have claims : (leaseRelease w file l).claims = w.claims.erase file := by
      show (if l.ct.isSome then w.claims.erase file else w.claims) = _
      split
      · rfl
      · rename_i unbound
        rw [List.erase_of_not_mem fun inside => unbound (listed.mp inside)]
    refine ⟨claims ▸ h.unique.erase file, fun x => ?_, fun x y o first second => ?_⟩
    · rw [claims, owns, h.unique.mem_erase_iff, h.claimed]
      split
      · simp [*]
      · simp [*]
    · rw [owns] at first second
      split at first
      · cases first
      · split at second
        · cases second
        · exact h.exclusive x y o first second
  | traffic ct count => exact h.same rfl fun _ => rfl

theorem Move.latched (move : Move w who w') {h : Handle} (latched : Latched w h) : Latched w' h := by
  cases move with
  | idle => exact latched
  | opened fresh =>
    refine latched_of_files rfl latched fun same => ?_
    subst same
    rcases latched with ⟨l, there, -⟩ | closed
    · rw [fresh] at there
      cases there
    · rw [fresh] at closed
      cases closed
  | described b there unbound | bound b ct there unbound free =>
    refine latched_of_files rfl latched fun same => .inl ⟨_, rfl, ?_⟩
    subst same
    have invalid := latched.lease there
    exact invalid
  | spoiled there => exact latched_of_files rfl latched fun _ => .inl ⟨_, rfl, rfl⟩
  | added dying result there bound valid checked =>
    refine latched_of_files rfl latched fun same => ?_
    subst same
    rw [latched.lease there] at valid
    cases valid
  | released there => exact latched_of_files rfl latched fun _ => .inr rfl
  | traffic ct count => exact latched

theorem Move.acct (move : Move w who w') {h : Handle} (latched : Latched w h) (by_ : who = some h) : w'.acct = w.acct := by
  cases move with
  | idle => rfl
  | opened fresh => rfl
  | described b there unbound => rfl
  | bound b ct there unbound free => rfl
  | spoiled there => rfl
  | added dying result there bound valid checked =>
    cases by_
    rw [latched.lease there] at valid
    cases valid
  | released there => rfl
  | traffic ct count => cases by_

def sequencesOf (entries : List (Addition Handle Obj)) (h : Handle) : List Nat :=
  (entries.filter (·.handle = h)).map (·.update.sequence.toNat)

def Counts (f : File Obj) (n : Nat) : Prop :=
  match f with
  | .unopened => n = 0
  | .opened l => l.sequence.toNat = n
  | .closed => True

structure Booked (acct : Obj → Direction → Counter) (w : World Handle Obj) : Prop where
  numbered : ∀ h, ∃ n, sequencesOf w.added h = List.range' 1 n ∧ Counts (w.files h) n
  exact : ∀ e ∈ w.added, ∀ d, Exact e.identity e.update d
  sums : ∀ ct d, w.acct ct d = ((acct ct d).add (w.software ct d)).add (total w.added ct d)

variable {acct : Obj → Direction → Counter}

theorem Booked.file {h : Handle} {f : File Obj} (booked : Booked acct w) (files : w'.files = Function.update w.files h f)
    (counts : ∀ n, Counts (w.files h) n → Counts f n) (added : w'.added = w.added) (same : w'.acct = w.acct)
    (software : w'.software = w.software) :
    Booked acct w' := by
  refine ⟨fun x => ?_, added ▸ booked.exact, fun ct d => ?_⟩
  · obtain ⟨n, numbers, count⟩ := booked.numbered x
    rw [files, Function.update_apply, added]
    refine ⟨n, numbers, ?_⟩
    split
    · rename_i here
      exact counts n (here ▸ count)
    · exact count
  · rw [same, software, added]
    exact booked.sums ct d

omit [DecidableEq Obj] in
theorem counts_opened {f : File Obj} {l l' : Lease Obj} (there : f = .opened l) (same : l'.sequence = l.sequence)
    (n : Nat) (h : Counts f n) :
    Counts (.opened l') n := by
  rw [there] at h
  exact (congrArg UInt64.toNat same).trans h

omit [DecidableEq Obj] in
theorem sequencesOf_append (entries : List (Addition Handle Obj)) (e : Addition Handle Obj) (h : Handle) :
    sequencesOf (entries ++ [e]) h = sequencesOf entries h ++ if e.handle = h then [e.update.sequence.toNat] else [] := by
  unfold sequencesOf
  rw [List.filter_append, List.map_append]
  by_cases mine : e.handle = h
  · simp [mine]
  · simp [mine]

theorem Move.booked (move : Move w who w') (booked : Booked acct w) : Booked acct w' := by
  cases move with
  | idle => exact booked
  | opened fresh =>
    refine booked.file rfl (fun n count => ?_) rfl rfl rfl
    rw [fresh] at count
    exact count.symm
  | described b there unbound => exact booked.file rfl (counts_opened there rfl) rfl rfl rfl
  | bound b ct there unbound free => exact booked.file rfl (counts_opened there rfl) rfl rfl rfl
  | spoiled there => exact booked.file rfl (counts_opened there rfl) rfl rfl rfl
  | released there => exact booked.file rfl (fun _ _ => trivial) rfl rfl rfl
  | @added file l ct u dying result there bound valid checked =>
    obtain ⟨next, exact⟩ := checkUpdate_none checked
    refine ⟨fun x => ?_, fun e member d => ?_, fun o d => ?_⟩
    · obtain ⟨n, numbers, count⟩ := booked.numbered x
      show ∃ n, sequencesOf (w.added ++ [_]) x = _ ∧ Counts (Function.update w.files file _ x) n
      rw [sequencesOf_append, numbers, Function.update_apply]
      by_cases here : x = file
      · subst here
        rw [there] at count
        have count : l.sequence.toNat = n := count
        rw [if_pos rfl, if_pos rfl]
        refine ⟨n + 1, ?_, by rw [← count]; exact next⟩
        rw [List.range'_concat, next, count]
        simp [Nat.add_comm]
      · rw [if_neg here, if_neg (Ne.symm here), List.append_nil]
        exact ⟨n, rfl, count⟩
    · rcases List.mem_append.mp member with old | last
      · exact booked.exact e old d
      · rw [List.mem_singleton.mp last]
        exact exact d
    · show Function.update w.acct ct _ o d = (_ : Counter).add (total (w.added ++ [_]) o d)
      rw [total_append, Function.update_apply]
      by_cases here : o = ct
      · subst here
        rw [if_pos rfl, if_pos rfl, booked.sums o d, Counter.add_assoc]
        rfl
      · rw [if_neg here, if_neg (Ne.symm here)]
        exact booked.sums o d
  | traffic ct count =>
    refine ⟨booked.numbered, booked.exact, fun o d => ?_⟩
    show Function.update w.acct ct _ o d = ((acct o d).add (Function.update w.software ct _ o d)).add (total w.added o d)
    rw [Function.update_apply, Function.update_apply]
    split
    · rename_i here
      subst here
      show (w.acct o d).add (count d) = ((acct o d).add ((w.software o d).add (count d))).add (total w.added o d)
      rw [booked.sums o d, Counter.add_assoc, Counter.add_comm (total w.added o d), ← Counter.add_assoc, ← Counter.add_assoc]
    · exact booked.sums o d

end moves

/-! ### Runs -/

section runs

variable (acct : Obj → Direction → Counter)

theorem run_append (w : World Handle Obj) (first second : List (Action Handle Obj)) :
    run w (first ++ second) = run (run w first) second :=
  List.foldl_append

theorem run_keeps {P : World Handle Obj → Prop} (keeps : ∀ {w w' : World Handle Obj} {who : Option Handle}, Move w who w' → P w → P w')
    {w : World Handle Obj} (here : P w) (actions : List (Action Handle Obj)) : P (run w actions) := by
  induction actions generalizing w with
  | nil => exact here
  | cons a actions ih => exact ih (keeps (step_move w a) here)

omit [DecidableEq Handle] [DecidableEq Obj] in
theorem start_ownership : Ownership (start acct : World Handle Obj) :=
  ⟨.nil, fun h => by simp [start, World.owns, File.lease], fun h h' ct first => by cases first⟩

theorem start_booked : Booked acct (start acct : World Handle Obj) := by
  refine ⟨fun h => ⟨0, rfl, rfl⟩, fun e member => absurd member List.not_mem_nil, fun ct d => ?_⟩
  simp [start, total, Counter.add]

end runs

omit [DecidableEq Obj] in
theorem checkUpdate_not_estale {u : Update} : checkUpdate l u ≠ some .estale := by
  unfold checkUpdate
  split
  · simp
  · split
    · simp
    · split
      · simp
      · simp

theorem estale_latched {w : World Handle Obj} {h : Handle} {permitted : Bool} {call : Call Obj}
    (later : ∀ b found seen, call ≠ .bind b found seen)
    (failed : (step w (.control h permitted call)).2 = some .estale) : Latched (step w (.control h permitted call)).1 h := by
  cases there : w.files h with
  | unopened =>
    simp only [step, there] at failed
    cases failed
  | closed =>
    simp only [step, there] at failed
    cases failed
  | opened l =>
    cases permitted with
    | false =>
      simp only [step, there] at failed
      cases failed
    | true =>
      simp only [step, there, if_true] at failed ⊢
      have spoiled (l' : Lease Obj) (w' : World Handle Obj) (invalid : l'.invalid = true)
          (files : w'.files = Function.update w.files h (.opened l')) :
          Latched w' h := .inl ⟨l', by rw [files, Function.update_self], invalid⟩
      cases call with
      | bind b found seen => exact absurd rfl (later b found seen)
      | check seen =>
        simp only [control, checkLease] at failed ⊢
        split at failed
        · cases failed
        · split at failed
          · rename_i invalid
            simp only [invalid, if_true]
            exact .inl ⟨l, there, invalid⟩
          · rename_i valid
            simp only [valid]
            split at failed
            · exact spoiled _ _ rfl rfl
            · cases failed
      | update u seen dyingAfter =>
        simp only [control, updateLease] at failed ⊢
        split at failed
        · cases failed
        · split at failed
          · rename_i invalid
            simp only [invalid, if_true]
            exact .inl ⟨l, there, invalid⟩
          · rename_i valid
            simp only [valid]
            split at failed
            · rename_i e refused
              cases failed
              exact absurd refused checkUpdate_not_estale
            · split at failed
              · exact spoiled _ _ rfl rfl
              · split at failed
                · rename_i dying
                  exact spoiled _ _ dying rfl
                · cases failed

/-- After a call of this kind has found the object changed or gone, its file changes no counter. -/
def Latches (kind : Call Obj → Prop) (w : World Handle Obj) : Prop :=
  ∀ (before after : List (Action Handle Obj)) (h : Handle) (permitted : Bool) (call : Call Obj) (a : Action Handle Obj), kind call →
    (step (run w before) (.control h permitted call)).2 = some .estale → a.handle = some h →
    (step (run w (before ++ .control h permitted call :: after)) a).1.acct = (run w (before ++ .control h permitted call :: after)).acct

/-- What the lease module promises, for the calls that latch and the updates that count as accepted. -/
structure Safe (latching : Call Obj → Prop) (accepted : Addition Handle Obj → Bool) (acct : Obj → Direction → Counter) : Prop where
  exclusive : ∀ (actions : List (Action Handle Obj)) (h h' : Handle) (ct : Obj), (run (start acct) actions).owns h = some ct →
    (run (start acct) actions).owns h' = some ct → h = h'
  latches : Latches latching (start acct : World Handle Obj)
  contiguous : ∀ (actions : List (Action Handle Obj)) (h : Handle),
    ∃ n, sequencesOf ((run (start acct) actions).added.filter accepted) h = List.range' 1 n
  sums : ∀ (actions : List (Action Handle Obj)) (ct : Obj) (d : Direction), (run (start acct) actions).acct ct d =
    ((acct ct d).add ((run (start acct) actions).software ct d)).add (total ((run (start acct) actions).added.filter accepted) ct d)
  exact : ∀ (actions : List (Action Handle Obj)), ∀ e ∈ (run (start acct) actions).added.filter accepted,
    ∀ d, Exact e.identity e.update d

theorem latches_later (w : World Handle Obj) : Latches (fun call => ∀ b found seen, call ≠ .bind b found seen) w := by
  intro before after h permitted call a later failed mine
  have latched := estale_latched later failed
  rw [run_append]
  exact (step_move _ a).acct (run_keeps (P := fun w => Latched w h) (fun move latched => move.latched latched) latched after) mine

/-- Only `bind` may be tried again. Every update that was added counts, also the one after which the object was found dying. -/
theorem lease_safe (acct : Obj → Direction → Counter) :
    Safe (fun call => ∀ b found seen, call ≠ .bind b found seen) (fun _ : Addition Handle Obj => true) acct := by
  have owners (actions : List (Action Handle Obj)) : Ownership (run (start acct) actions) :=
    run_keeps (fun move h => move.ownership h) (start_ownership acct) actions
  have booked (actions : List (Action Handle Obj)) : Booked acct (run (start acct) actions) :=
    run_keeps (fun move h => move.booked h) (start_booked acct) actions
  refine ⟨fun actions => (owners actions).exclusive, latches_later _, fun actions h => ?_, fun actions ct d => ?_,
    fun actions e member => ?_⟩
  · obtain ⟨n, numbers, -⟩ := (booked actions).numbered h
    rw [List.filter_true]
    exact ⟨n, numbers⟩
  · rw [List.filter_true]
    exact (booked actions).sums ct d
  · exact (booked actions).exact e (List.mem_of_mem_filter member)

def quiet : Obj → Direction → Counter := fun _ _ => ⟨0, 0⟩

def flowTuple : Tuple := ⟨1, 2, 3, 4⟩

def flowBind (mark : UInt32) : Bind :=
  ⟨1, 9, 30, udp, 0, 0, mark, [1, 0, 0, 0, 0, 0, 0, 0, 0, 0, 0, 0, 0, 0, 0, 0], flowTuple, flowTuple, fun _ => 14, 0⟩

def flowFound : Found Nat := ⟨0, .original, flowTuple, flowTuple⟩

def flowSeen (mark : UInt32) : Seen := ⟨false, false, ⟨true, true, true, false, false, false, false, false⟩,
    false, false, 9, mark, some (flowBind 0).labels, true⟩

def onePacket : Update := ⟨1, fun d => if d = .original then 1 else 0, fun d => if d = .original then 100 else 0, 0, 0⟩

/-- A file that could not be bound is bound later and counts; and an update is added although it
returns an error, because the object was found dying afterwards. -/
theorem estale_then_counted : ¬ Latches (fun _ => True) (start quiet : World Nat Nat) ∧
    ¬ ∀ (actions : List (Action Nat Nat)) (ct : Nat) (d : Direction), (run (start quiet) actions).acct ct d =
      ((quiet ct d).add ((run (start quiet) actions).software ct d)).add
        (total ((run (start quiet) actions).added.filter fun e => e.result = none) ct d) := by
  refine ⟨fun latches => ?_, fun sums => ?_⟩
  · have same := latches [.openFile 0] [.control 0 true (.bind (flowBind 7) (some flowFound) (flowSeen 7))] 0 true
      (.bind (flowBind 5) (some flowFound) (flowSeen 7))
        (.control 0 true (.update onePacket (flowSeen 7) false)) trivial (by decide +kernel) rfl
    exact absurd (congrFun (congrFun same 0) .original) (by decide +kernel)
  · have sum := sums [.openFile 0, .control 0 true (.bind (flowBind 7) (some flowFound) (flowSeen 7)),
      .control 0 true (.update onePacket (flowSeen 7) true)] 0 .original
    exact absurd sum (by decide +kernel)

end FfnNgfw.Ctlease
