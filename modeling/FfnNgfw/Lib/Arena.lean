import FfnNgfw.Lib.Memory

/-!
# Bump arenas

An arena is a range of memory with a cursor. Allocation moves the cursor up to the
next cache line and then past the block; nothing is freed. Sizes are 64-bit words
and wrap around, so the bounds of the arena are what keeps an allocation inside it.
-/

namespace FfnNgfw

structure Arena where
  base : Nat
  size : Nat
  used : Nat
  deriving DecidableEq

/-- `(x + (a - 1)) & ~(a - 1)`, for a power of two `a`. -/
def alignUp (x a : Nat) : Nat := (x + (a - 1)) % 2 ^ 64 / a * a

namespace Arena

def align : Nat := 64

/-- The address of `n` new bytes, or `none` when the arena is full or has no base. -/
def alloc (r : Arena) (n : Nat) : Option (Nat × Arena) :=
  let cur := alignUp r.used align
  if r.base = 0 ∨ r.size < (cur + n) % 2 ^ 64 then none
  else some (r.base + cur, { r with used := (cur + n) % 2 ^ 64 })

def dup (m : Mem) (r : Arena) (bs : List UInt8) : Option (Nat × Mem × Arena) :=
  (r.alloc bs.length).map fun (p, r) => (p, m.write p bs, r)

/-- The arena lies in the address space and its cursor in the arena. -/
structure Wf (r : Arena) : Prop where
  inside : r.used ≤ r.size
  small : r.size < 2 ^ 63
  mapped : r.base + r.size ≤ 2 ^ 64

def maxBlock : Nat := 2 ^ 62

theorem alignUp_bounds {x : Nat} (small : x < 2 ^ 63) : x ≤ alignUp x align ∧ alignUp x align < x + align := by
  unfold alignUp align
  omega

theorem alloc_some {r r' : Arena} {n p : Nat} (wf : r.Wf) (block : n < maxBlock) (h : r.alloc n = some (p, r')) :
    ∃ cur, r.used ≤ cur ∧ cur + n ≤ r.size ∧ r.base ≠ 0 ∧ p = r.base + cur ∧ r' = { r with used := cur + n } := by
  obtain ⟨inside, small, _⟩ := wf
  obtain ⟨above, below⟩ := alignUp_bounds (x := r.used) (by omega)
  unfold alloc at h
  dsimp only at h
  split at h
  · cases h
  · rename_i fits
    rw [not_or] at fits
    unfold maxBlock at block
    unfold align at below
    have noWrap : (alignUp r.used align + n) % 2 ^ 64 = alignUp r.used align + n := Nat.mod_eq_of_lt (by
      unfold align
      omega)
    rw [noWrap] at h fits
    cases h
    exact ⟨_, above, by omega, fits.1, rfl, rfl⟩

/-- From `(m, r)` to `(m', r')` the cursor only grows, and only bytes from `lo` to the
end of the arena change. -/
structure Grows (lo : Nat) (m : Mem) (r : Arena) (m' : Mem) (r' : Arena) : Prop where
  base : r'.base = r.base
  size : r'.size = r.size
  used : r.used ≤ r'.used
  fits : r'.used ≤ r'.size
  frame : ∀ a, a < lo ∨ r.base + r.size ≤ a → m' a = m a

theorem Grows.refl (lo : Nat) (m : Mem) {r : Arena} (wf : r.Wf) : Grows lo m r m r :=
  ⟨rfl, rfl, Nat.le_refl _, wf.inside, fun _ _ => rfl⟩

theorem Grows.trans {lo : Nat} {m m' m'' : Mem} {r r' r'' : Arena} (h : Grows lo m r m' r')
    (k : Grows lo m' r' m'' r'') : Grows lo m r m'' r'' := by
  refine ⟨k.base.trans h.base, k.size.trans h.size, Nat.le_trans h.used k.used, k.fits, fun a outside => ?_⟩
  rw [k.frame a (by rw [h.base, h.size]; exact outside), h.frame a outside]

variable {m m' : Mem}

theorem Grows.wf {lo : Nat} {r r' : Arena} (h : Grows lo m r m' r') (wf : r.Wf) : r'.Wf :=
  ⟨h.fits, h.size ▸ wf.small, h.base ▸ h.size ▸ wf.mapped⟩

theorem Grows.write {lo : Nat} {r : Arena} (wf : r.Wf) {p : Nat} {bs : List UInt8} (above : lo ≤ p)
    (below : p + bs.length ≤ r.base + r.size) : Grows lo m r (m.write p bs) r := by
  refine ⟨rfl, rfl, Nat.le_refl _, wf.inside, fun a outside => ?_⟩
  exact Mem.write_outside m p bs (by omega)

theorem Grows.writeAll {lo : Nat} {r : Arena} (wf : r.Wf) {ws : List (Nat × List UInt8)}
    (inside : ∀ w ∈ ws, lo ≤ w.1 ∧ w.1 + w.2.length ≤ r.base + r.size) : Grows lo m r (m.writeAll ws) r := by
  refine ⟨rfl, rfl, Nat.le_refl _, wf.inside, fun a outside => ?_⟩
  refine Mem.writeAll_outside fun w member => ?_
  have here := inside w member
  omega

theorem dup_some {r r' : Arena} {bs : List UInt8} {p : Nat} (wf : r.Wf) (block : bs.length < maxBlock)
    (h : r.dup m bs = some (p, m', r')) :
    ∃ cur, r.used ≤ cur ∧ cur + bs.length ≤ r.size ∧ r.base ≠ 0 ∧ p = r.base + cur ∧ m' = m.write p bs ∧
      r' = { r with used := cur + bs.length } := by
  obtain ⟨⟨q, r₁⟩, allocated, same⟩ := Option.map_eq_some_iff.mp h
  cases same
  obtain ⟨cur, above, below, bound, address, after⟩ := alloc_some wf block allocated
  exact ⟨cur, above, below, bound, address, rfl, after⟩

theorem dup_grows {lo p : Nat} {r r' : Arena} {bs : List UInt8} (wf : r.Wf) (block : bs.length < maxBlock)
    (low : lo ≤ r.base + r.used) (h : r.dup m bs = some (p, m', r')) : Grows lo m r m' r' := by
  obtain ⟨cur, above, below, _, rfl, rfl, rfl⟩ := dup_some wf block h
  refine ⟨rfl, rfl, by dsimp only; omega, below, fun a outside => ?_⟩
  exact Mem.write_outside m _ bs (by omega)

/-! ### Copies behind pointer fields

A job names a pointer field and the bytes it has to point to. The field is set to the
address of a copy, or to 0 when the arena is full. -/

def dupAll (m : Mem) (r : Arena) : List (Nat × List UInt8) → Mem × Arena × Bool
  | [] => (m, r, true)
  | (field, bs) :: jobs =>
    match r.dup m bs with
    | some (p, m, r) => dupAll (m.write field (le64 (UInt64.ofNat p))) r jobs
    | none =>
      let (m, r, _) := dupAll (m.write field (le64 0)) r jobs
      (m, r, false)

def JobsWf (lo : Nat) (r : Arena) (jobs : List (Nat × List UInt8)) : Prop :=
  ∀ job ∈ jobs, lo ≤ job.1 ∧ job.1 + 8 ≤ r.base + r.used ∧ job.2.length < maxBlock

theorem JobsWf.grown {lo : Nat} {r r' : Arena} {job : Nat × List UInt8} {jobs : List (Nat × List UInt8)}
    (h : JobsWf lo r (job :: jobs)) (base : r'.base = r.base) (used : r.used ≤ r'.used) : JobsWf lo r' jobs := by
  intro j member
  obtain ⟨above, below, block⟩ := h j (List.mem_cons_of_mem job member)
  exact ⟨above, by rw [base]; omega, block⟩

theorem dupAll_grows {lo : Nat} {r : Arena} {jobs : List (Nat × List UInt8)} (wf : r.Wf)
    (low : lo ≤ r.base + r.used) (ok : JobsWf lo r jobs) :
    Grows lo m r (dupAll m r jobs).1 (dupAll m r jobs).2.1 := by
  induction jobs generalizing m r with
  | nil => exact Grows.refl lo m wf
  | cons job jobs ih =>
    obtain ⟨field, bs⟩ := job
    obtain ⟨above, below, block⟩ := ok _ List.mem_cons_self
    have inside := wf.inside
    unfold dupAll
    cases found : r.dup m bs with
    | none =>
      dsimp only at above below ⊢
      have store : Grows lo m r (m.write field (le64 0)) r := Grows.write wf above (by simp [le64, le32]; omega)
      exact store.trans (ih wf low (ok.grown rfl (Nat.le_refl _)))
    | some out =>
      obtain ⟨p, m₁, r₁⟩ := out
      dsimp only at above below block ⊢
      have copied : Grows lo m r m₁ r₁ := dup_grows wf block low found
      have wf₁ := copied.wf wf
      have used := copied.used
      have store : Grows lo m₁ r₁ (m₁.write field (le64 (UInt64.ofNat p))) r₁ :=
        Grows.write wf₁ above (by rw [copied.base, copied.size]; simp [le64, le32]; omega)
      exact (copied.trans store).trans (ih wf₁ (by rw [copied.base]; omega) (ok.grown copied.base used))

def FieldsApart (job job' : Nat × List UInt8) : Prop := job.1 + 8 ≤ job'.1 ∨ job'.1 + 8 ≤ job.1

/-- Field `job.1` points to a copy of `job.2`, made since `r`. -/
def Copied (r : Arena) (m' : Mem) (r' : Arena) (job : Nat × List UInt8) : Prop :=
  ∃ cur, r.used ≤ cur ∧ cur + job.2.length ≤ r'.used ∧ Mem.At m' job.1 (le64 (UInt64.ofNat (r.base + cur))) ∧
    Mem.At m' (r.base + cur) job.2

theorem dupAll_frame {lo a : Nat} {r : Arena} {jobs : List (Nat × List UInt8)} (wf : r.Wf)
    (low : lo ≤ r.base + r.used) (ok : JobsWf lo r jobs) (inside : a < r.base + r.used)
    (outside : ∀ job ∈ jobs, a < job.1 ∨ job.1 + 8 ≤ a) : (dupAll m r jobs).1 a = m a := by
  induction jobs generalizing m r with
  | nil => rfl
  | cons job jobs ih =>
    obtain ⟨field, bs⟩ := job
    obtain ⟨above, below, block⟩ := ok _ List.mem_cons_self
    obtain ⟨apart, rest⟩ := List.forall_mem_cons.mp outside
    dsimp only at above below block apart
    unfold dupAll
    cases found : r.dup m bs with
    | none =>
      dsimp only
      rw [ih wf low (ok.grown rfl (Nat.le_refl _)) inside rest, Mem.write_outside _ _ _ apart]
    | some out =>
      obtain ⟨p, m₁, r₁⟩ := out
      have copied : Grows lo m r m₁ r₁ := dup_grows wf block low found
      obtain ⟨cur, up, down, _, rfl, rfl, rfl⟩ := dup_some wf block found
      dsimp only
      rw [ih (copied.wf wf) (by dsimp only; omega) (ok.grown rfl (by dsimp only; omega)) (by dsimp only; omega) rest,
        Mem.write_outside _ _ _ apart, Mem.write_outside _ _ _ (by omega)]

section fields

variable {lo field : Nat} {r : Arena} {bs : List UInt8} {jobs : List (Nat × List UInt8)} (wf : r.Wf)
  (low : lo ≤ r.base + r.used) (ok : JobsWf lo r jobs) (below : field + 8 ≤ r.base + r.used)
  (apart : ∀ job ∈ jobs, FieldsApart (field, bs) job)
include wf low ok below apart

theorem dupAll_field (v : UInt64) (m : Mem) : Mem.At (dupAll (m.write field (le64 v)) r jobs).1 field (le64 v) := by
  refine Mem.at_congr (Mem.at_write m field _) fun i byte => ?_
  have width : (le64 v).length = 8 := rfl
  rw [width] at byte
  refine dupAll_frame wf low ok (by omega) fun job later => ?_
  have here := apart job later
  unfold FieldsApart at here
  dsimp only at here
  omega

end fields

theorem dupAll_copied {lo : Nat} {r : Arena} {jobs : List (Nat × List UInt8)} (wf : r.Wf)
    (low : lo ≤ r.base + r.used) (ok : JobsWf lo r jobs) (apart : jobs.Pairwise FieldsApart)
    (noneFailed : (dupAll m r jobs).2.2 = true) :
    ∀ job ∈ jobs, Copied r (dupAll m r jobs).1 (dupAll m r jobs).2.1 job := by
  induction jobs generalizing m r with
  | nil =>
    intro job member
    cases member
  | cons job jobs ih =>
    obtain ⟨field, bs⟩ := job
    obtain ⟨above, below, block⟩ := ok _ List.mem_cons_self
    obtain ⟨first, rest⟩ := List.pairwise_cons.mp apart
    unfold dupAll at noneFailed ⊢
    cases found : r.dup m bs with
    | none =>
      rw [found] at noneFailed
      cases noneFailed
    | some out =>
      obtain ⟨p, m₁, r₁⟩ := out
      rw [found] at noneFailed
      dsimp only at above below block noneFailed ⊢
      have copied : Grows lo m r m₁ r₁ := dup_grows wf block low found
      obtain ⟨cur, up, down, _, rfl, rfl, rfl⟩ := dup_some wf block found
      have wf' := copied.wf wf
      have tailOk : JobsWf lo { r with used := cur + bs.length } jobs := ok.grown rfl (by dsimp only; omega)
      intro job member
      rcases List.mem_cons.mp member with rfl | later
      · have grows := dupAll_grows (m := (m.write (r.base + cur) bs).write field (le64 (UInt64.ofNat (r.base + cur))))
          wf' (by dsimp only; omega) tailOk
        refine ⟨cur, up, grows.used, ?_, ?_⟩
        · exact dupAll_field wf' (by dsimp only; omega) tailOk (by dsimp only; omega) first _ _
        · refine Mem.at_congr (Mem.at_write m (r.base + cur) bs) fun i inside => ?_
          have width : (le64 (UInt64.ofNat (r.base + cur))).length = 8 := rfl
          dsimp only at inside
          rw [dupAll_frame wf' (by dsimp only; omega) tailOk (by dsimp only; omega) fun j later => ?_]
          · exact Mem.write_outside _ _ _ (by rw [width]; omega)
          · obtain ⟨_, belowJ, _⟩ := ok j (List.mem_cons_of_mem _ later)
            exact Or.inr (by omega)
      · obtain ⟨cur', up', down', field', bytes'⟩ :=
          ih wf' (by dsimp only; omega) tailOk rest noneFailed job later
        exact ⟨cur', by dsimp only at up'; omega, down', field', bytes'⟩

theorem dupAll_null {lo : Nat} {r : Arena} {jobs : List (Nat × List UInt8)} (wf : r.Wf)
    (low : lo ≤ r.base + r.used) (ok : JobsWf lo r jobs) (apart : jobs.Pairwise FieldsApart)
    (failed : (dupAll m r jobs).2.2 = false) : ∃ job ∈ jobs, Mem.At (dupAll m r jobs).1 job.1 (le64 0) := by
  induction jobs generalizing m r with
  | nil => cases failed
  | cons job jobs ih =>
    obtain ⟨field, bs⟩ := job
    obtain ⟨above, below, block⟩ := ok _ List.mem_cons_self
    obtain ⟨first, rest⟩ := List.pairwise_cons.mp apart
    unfold dupAll at failed ⊢
    cases found : r.dup m bs with
    | none => exact ⟨_, List.mem_cons_self, dupAll_field wf low (ok.grown rfl (Nat.le_refl _)) below first 0 m⟩
    | some out =>
      obtain ⟨p, m₁, r₁⟩ := out
      rw [found] at failed
      dsimp only at block failed ⊢
      have copied : Grows lo m r m₁ r₁ := dup_grows wf block low found
      have base := copied.base
      have used := copied.used
      obtain ⟨job, later, null⟩ := ih (copied.wf wf) (by omega) (ok.grown base used) rest failed
      exact ⟨job, List.mem_cons_of_mem _ later, null⟩

/-! ### Where the cursor ends

The cursor as a function of the sizes that were asked for. -/

def roundUp (n : Nat) : Nat := (n + 63) / 64 * 64

/-- The cursor after blocks of these sizes, `none` when one of them does not fit.
Empty blocks are not asked for. -/
def place (size : Nat) : Nat → List Nat → Option Nat
  | used, [] => some used
  | used, n :: ns =>
    if n = 0 then place size used ns
    else if roundUp used + n ≤ size then place size (roundUp used + n) ns
    else none

def bump (size used n : Nat) : Nat := if roundUp used + n ≤ size then roundUp used + n else used

theorem alignUp_eq_roundUp {x : Nat} (small : x < 2 ^ 63) : alignUp x align = roundUp x := by
  unfold alignUp align roundUp
  omega

theorem alloc_eq {r : Arena} {n : Nat} (wf : r.Wf) (block : n < maxBlock) (bound : r.base ≠ 0) :
    r.alloc n =
      if roundUp r.used + n ≤ r.size then some (r.base + roundUp r.used, { r with used := roundUp r.used + n })
      else none := by
  obtain ⟨inside, small, _⟩ := wf
  have noWrap : (roundUp r.used + n) % 2 ^ 64 = roundUp r.used + n := Nat.mod_eq_of_lt (by
    unfold roundUp
    unfold maxBlock at block
    omega)
  unfold alloc
  dsimp only
  rw [alignUp_eq_roundUp (by omega), noWrap]
  by_cases fits : roundUp r.used + n ≤ r.size
  · rw [if_neg (by omega), if_pos fits]
  · rw [if_pos (Or.inr (by omega)), if_neg fits]

theorem dupAll_used {r : Arena} {jobs : List (Nat × List UInt8)} (wf : r.Wf) (bound : r.base ≠ 0)
    (blocks : ∀ job ∈ jobs, job.2.length < maxBlock) :
    (dupAll m r jobs).2.1.used = (jobs.map fun job => job.2.length).foldl (bump r.size) r.used := by
  induction jobs generalizing m r with
  | nil => rfl
  | cons job jobs ih =>
    obtain ⟨field, bs⟩ := job
    have block := blocks _ List.mem_cons_self
    have rest : ∀ job ∈ jobs, job.2.length < maxBlock := fun job member => blocks job (List.mem_cons_of_mem _ member)
    dsimp only at block
    unfold dupAll
    rw [List.map_cons, List.foldl_cons, dup, alloc_eq wf block bound, bump]
    by_cases fits : roundUp r.used + bs.length ≤ r.size
    · rw [if_pos fits, if_pos fits]
      exact ih ⟨fits, wf.small, wf.mapped⟩ bound rest
    · rw [if_neg fits, if_neg fits]
      exact ih wf bound rest

theorem dupAll_fits {r : Arena} {jobs : List (Nat × List UInt8)} (wf : r.Wf) (bound : r.base ≠ 0)
    (blocks : ∀ job ∈ jobs, 0 < job.2.length ∧ job.2.length < maxBlock) :
    (dupAll m r jobs).2.2 = (place r.size r.used (jobs.map fun job => job.2.length)).isSome := by
  induction jobs generalizing m r with
  | nil => rfl
  | cons job jobs ih =>
    obtain ⟨field, bs⟩ := job
    obtain ⟨⟨nonempty, block⟩, rest⟩ := List.forall_mem_cons.mp blocks
    dsimp only at nonempty block
    unfold dupAll
    rw [List.map_cons, place, if_neg (Nat.ne_of_gt nonempty), dup, alloc_eq wf block bound]
    by_cases fits : roundUp r.used + bs.length ≤ r.size
    · rw [if_pos fits, if_pos fits]
      exact ih ⟨fits, wf.small, wf.mapped⟩ bound rest
    · rw [if_neg fits, if_neg fits]
      rfl

theorem place_append (size used : Nat) (ns ns' : List Nat) :
    place size used (ns ++ ns') = (place size used ns).bind fun used => place size used ns' := by
  induction ns generalizing used with
  | nil => rfl
  | cons n ns ih =>
    rw [List.cons_append, place, place]
    split
    · exact ih used
    · split
      · exact ih _
      · rfl

end Arena
end FfnNgfw
