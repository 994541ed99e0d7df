import FfnNgfw.Dpmem.Staging
import Mathlib.Data.List.Pairwise

/-!
# Threat-intel rows in an arena

The rows of a threat-intel update are read through the pointers they hold. What a
row needs is stated about the image of an arena: the bytes by their offset, below
some bound, with pointers that lead to the same offsets from an address `A`. Images
that agree below the bound hold the same rows, wherever the arena lies.
-/

namespace FfnNgfw.Dpmem
open Mem

/-! ### Reading -/

/-- The string at `p` up to its terminator, at most `n` bytes. -/
def cstr (m : Mem) : Nat → Nat → List UInt8
  | _, 0 => []
  | p, n + 1 => if m p = 0 then [] else m p :: cstr m (p + 1) n

def readStr (m : Mem) (p : Nat) : Option (List UInt8) := if p = 0 then none else some (cstr m p (2 ^ 32))

structure SigRow where
  sid : UInt32
  name : Option (List UInt8)
  sigType : Option (List UInt8)
  hashType : Option (List UInt8)
  digest : List UInt8
  hexPattern : Option (List UInt8)
  severity : UInt8
  verdict : UInt8
  family : Option (List UInt8)
  deriving DecidableEq

structure IocRow where
  kind : Option (List UInt8)
  value : Option (List UInt8)
  verdict : UInt8
  deriving DecidableEq

def readSig (m : Mem) (row : Nat) : SigRow where
  sid := ldLe32 m row
  name := readStr m (ldLe64 m (row + 8)).toNat
  sigType := readStr m (ldLe64 m (row + 16)).toNat
  hashType := readStr m (ldLe64 m (row + 24)).toNat
  digest := m.bytes (ldLe64 m (row + 32)).toNat (ldLe32 m (row + 40)).toNat
  hexPattern := readStr m (ldLe64 m (row + 48)).toNat
  severity := m (row + 56)
  verdict := m (row + 57)
  family := readStr m (ldLe64 m (row + 64)).toNat

def readIoc (m : Mem) (row : Nat) : IocRow where
  kind := readStr m (ldLe64 m row).toNat
  value := readStr m (ldLe64 m (row + 8)).toNat
  verdict := m (row + 16)

def Bank.sigRows (m : Mem) (b : Bank) : List SigRow :=
  (List.range b.sigN.toNat).map fun i => readSig m (b.sig + i * sizeofSig)

def Bank.iocRows (m : Mem) (b : Bank) : List IocRow :=
  (List.range b.iocN.toNat).map fun i => readIoc m (b.ioc + i * sizeofIoc)

def Signature.content (s : Signature) : SigRow where
  sid := s.sid
  name := s.name.map WireStr.text
  sigType := s.sigType.map WireStr.text
  hashType := s.hashType.map WireStr.text
  digest := vecBytes s.digest
  hexPattern := s.hexPattern.map WireStr.text
  severity := s.severity
  verdict := s.verdict
  family := s.family.map WireStr.text

def Ioc.content (o : Ioc) : IocRow where
  kind := o.kind.map WireStr.text
  value := o.value.map WireStr.text
  verdict := o.verdict

theorem cstr_of_at {m : Mem} {p n : Nat} {s : List UInt8} (h : At m p (s ++ [0])) (noNul : 0 ∉ s)
    (enough : s.length < n) : cstr m p n = s := by
  induction s generalizing p n with
  | nil =>
    obtain ⟨n, rfl⟩ := Nat.exists_eq_succ_of_ne_zero (Nat.ne_of_gt enough)
    have terminator : m p = 0 := h 0 (by simp)
    rw [cstr, if_pos terminator]
  | cons c s ih =>
    obtain ⟨n, rfl⟩ := Nat.exists_eq_succ_of_ne_zero (show n ≠ 0 by omega)
    have first : m p = c := h 0 (by simp)
    have rest : At m (p + 1) (s ++ [0]) := by
      have whole : At m p ([c] ++ (s ++ [0])) := h
      exact (at_append.mp whole).2
    rw [List.mem_cons, not_or] at noNul
    rw [List.length_cons] at enough
    rw [cstr, first, if_neg (Ne.symm noNul.1), ih rest noNul.2 (by omega)]

/-! ### Rows of an image -/

def image (m : Mem) (base : Nat) : Mem := fun o => m (base + o)

theorem at_image {m : Mem} {base p : Nat} {bs : List UInt8} : At (image m base) p bs ↔ At m (base + p) bs := by
  unfold At image
  simp only [Nat.add_assoc]

theorem ldLe64_image (m : Mem) (base p : Nat) : ldLe64 (image m base) p = ldLe64 m (base + p) :=
  ldLe64_congr fun i _ => by rw [image, Nat.add_assoc]

/-- The pointer field at `field` leads to a copy of `bs` below `L`. -/
def CellHeld (img : Mem) (A L field : Nat) (bs : List UInt8) : Prop :=
  ∃ o, 0 < A + o ∧ A + o < 2 ^ 64 ∧ o + bs.length ≤ L ∧ ldLe64 img field = UInt64.ofNat (A + o) ∧ At img o bs

/-- The store `w` of the row is not one of the pointers that are set later. -/
def Untouched {α : Type} (cells : α → List (Nat × Option (List UInt8))) (row : Nat) (x : α) (w : Nat × List UInt8) :
    Prop :=
  ∀ k bs, (k, some bs) ∈ cells x → w.1 + w.2.length ≤ row + k ∨ row + k + 8 ≤ w.1

/-- The image holds the row at `row`: its fields, and what its pointers lead to. -/
structure RowHeld {α : Type} (size : Nat) (fields : Nat → α → List (Nat × List UInt8))
    (cells : α → List (Nat × Option (List UInt8))) (img : Mem) (A L row : Nat) (x : α) : Prop where
  below : row + size ≤ L
  cell : ∀ k bs, (k, some bs) ∈ cells x → CellHeld img A L (row + k) bs
  field : ∀ w ∈ fields row x, Untouched cells row x w → At img w.1 w.2

def RowsHeld {α : Type} (size : Nat) (fields : Nat → α → List (Nat × List UInt8))
    (cells : α → List (Nat × Option (List UInt8))) (img : Mem) (A L row : Nat) (xs : List α) : Prop :=
  ∀ (i : Nat) (x : α), xs[i]? = some x → RowHeld size fields cells img A L (row + i * size) x

section rows

variable {α : Type} {size : Nat} {fields : Nat → α → List (Nat × List UInt8)}
  {cells : α → List (Nat × Option (List UInt8))}

variable {xs : List α} {w : Nat × List UInt8}

theorem rowsHeld_congr {img img' : Mem} {A L row : Nat}
    (inside : ∀ row x, ∀ w ∈ fields row x, row ≤ w.1 ∧ w.1 + w.2.length ≤ row + size) (cellsWf : CellsWf size cells)
    (same : ∀ o < L, img' o = img o) (h : RowsHeld size fields cells img A L row xs) :
    RowsHeld size fields cells img' A L row xs := by
  intro i x read
  obtain ⟨below, cell, field⟩ := h i x read
  refine ⟨below, fun k bs member => ?_, fun w member untouched => ?_⟩
  · obtain ⟨o, positive, mapped, fits, pointer, bytes⟩ := cell k bs member
    have width := cellsWf.inside x _ member
    dsimp only at width
    refine ⟨o, positive, mapped, fits, ?_, at_congr bytes fun j inside => same _ (by omega)⟩
    rw [← pointer]
    exact ldLe64_congr fun j inside => same _ (by omega)
  · have here := inside _ x w member
    exact at_congr (field w member untouched) fun j inside => same _ (by omega)

theorem rowFields_mem {row : Nat} (h : w ∈ rowFields size fields row xs) :
    ∃ i x, xs[i]? = some x ∧ w ∈ fields (row + i * size) x := by
  induction xs generalizing row with
  | nil => cases h
  | cons x xs ih =>
    rcases List.mem_append.mp h with first | rest
    · exact ⟨0, x, rfl, by rwa [Nat.zero_mul]⟩
    · obtain ⟨i, y, read, member⟩ := ih rest
      exact ⟨i + 1, y, read, by rwa [Nat.succ_mul, Nat.add_comm (i * size), ← Nat.add_assoc]⟩

theorem mem_rowFields {row i : Nat} {x : α} (read : xs[i]? = some x)
    (h : w ∈ fields (row + i * size) x) : w ∈ rowFields size fields row xs := by
  induction xs generalizing row i with
  | nil => cases read
  | cons y xs ih =>
    cases i with
    | zero =>
      rw [List.getElem?_cons_zero, Option.some.injEq] at read
      subst read
      rw [Nat.zero_mul] at h
      exact List.mem_append_left _ h
    | succ i =>
      refine List.mem_append_right _ (ih read ?_)
      rwa [Nat.succ_mul, Nat.add_comm (i * size), ← Nat.add_assoc] at h

def Moves (fields : Nat → α → List (Nat × List UInt8)) : Prop :=
  ∀ a row x, fields (a + row) x = (fields row x).map fun w => (a + w.1, w.2)

theorem row_end_le {i j : Nat} (h : i < j) (size : Nat) : i * size + size ≤ j * size := by
  rw [← Nat.succ_mul]
  exact Nat.mul_le_mul_right size h

theorem untouched_outside {row i n : Nat} {x : α}
    (inside : ∀ row x, ∀ w ∈ fields row x, row ≤ w.1 ∧ w.1 + w.2.length ≤ row + size) (cellsWf : CellsWf size cells)
    (read : xs[i]? = some x) (member : w ∈ fields (row + i * size) x) (untouched : Untouched cells (row + i * size) x w)
    (byte : n < w.2.length) {job : Nat × List UInt8} (own : job ∈ rowFields size (rowJobs cells) row xs) :
    w.1 + n < job.1 ∨ job.1 + 8 ≤ w.1 + n := by
  obtain ⟨j, y, readJob, memberJob⟩ := rowFields_mem own
  have here := inside _ x w member
  have there := rowJobs_inside cellsWf _ y job memberJob
  rcases Nat.lt_trichotomy j i with before | same | after
  · have rows := row_end_le before size
    omega
  · subst same
    rw [read, Option.some.injEq] at readJob
    subst readJob
    obtain ⟨k, bs, cell, rfl⟩ := rowJobs_mem memberJob
    have apart := untouched k bs cell
    dsimp only
    omega
  · have rows := row_end_le after size
    omega

theorem rows_held {lo q : Nat} {r : Arena} {m : Mem} {jobs : List (Nat × List UInt8)}
    (inside : ∀ row x, ∀ w ∈ fields row x, row ≤ w.1 ∧ w.1 + w.2.length ≤ row + size) (moves : Moves fields)
    (cellsWf : CellsWf size cells) (wf : r.Wf) (placed : 0 < r.base) (low : lo ≤ r.base + r.used)
    (ok : Arena.JobsWf lo r jobs) (apart : jobs.Pairwise Arena.FieldsApart)
    (noneFailed : (r.dupAll m jobs).2.2 = true) (allocated : q + xs.length * size ≤ r.used)
    (stored : ∀ w ∈ rowFields size fields (r.base + q) xs, At m w.1 w.2)
    (own : ∀ job ∈ rowFields size (rowJobs cells) (r.base + q) xs, job ∈ jobs)
    (others : ∀ job ∈ jobs, job ∈ rowFields size (rowJobs cells) (r.base + q) xs ∨
      job.1 + 8 ≤ r.base + q ∨ r.base + q + xs.length * size ≤ job.1) :
    RowsHeld size fields cells (image (r.dupAll m jobs).1 r.base) r.base (r.dupAll m jobs).2.1.used q xs := by
  have copied := Arena.dupAll_copied wf low ok apart noneFailed
  obtain ⟨_, sameSize, used, fits, _⟩ := Arena.dupAll_grows (m := m) wf low ok
  have mapped := wf.mapped
  rw [sameSize] at fits
  intro i x read
  have rowEnd := row_end_le (List.getElem?_eq_some_iff.mp read).1 size
  refine ⟨by omega, fun k bs member => ?_, fun w member untouched => ?_⟩
  · -- A pointer: its job has made a copy since the rows were stored.
    have job := own _ (mem_rowFields read (mem_rowJobs (r.base + q + i * size) member))
    obtain ⟨cur, _, below, pointer, bytes⟩ := copied _ job
    have nonempty := (cellsWf.block x _ member bs rfl).1
    dsimp only at below pointer bytes
    refine ⟨cur, by omega, by omega, below, ?_, at_image.mpr bytes⟩
    rw [ldLe64_image, ← ldLe64_of_at pointer]
    congr 1
    omega
  · -- Any other byte of the row: no job is about it.
    have moved : (r.base + w.1, w.2) ∈ fields (r.base + q + i * size) x := by
      rw [Nat.add_assoc, moves]
      exact List.mem_map.mpr ⟨w, member, rfl⟩
    have here := inside _ x _ moved
    dsimp only at here
    have untouchedMoved : Untouched cells (r.base + q + i * size) x (r.base + w.1, w.2) := by
      intro k bs cell
      have apartCell := untouched k bs cell
      dsimp only
      omega
    rw [at_image]
    have before : At m (r.base + w.1) w.2 := stored (r.base + w.1, w.2) (mem_rowFields read moved)
    refine at_congr before fun n byte => ?_
    refine Arena.dupAll_frame wf low ok (by omega) fun job member => ?_
    rcases others job member with ours | below | above
    · exact untouched_outside inside cellsWf read moved untouchedMoved byte ours
    · exact Or.inr (by omega)
    · exact Or.inl (by omega)

end rows

theorem sigFields_moves : Moves sigFields := by
  intro a row s
  simp only [sigFields, List.map_cons, List.map_nil, Nat.add_assoc]

theorem iocFields_moves : Moves iocFields := by
  intro a row o
  simp only [iocFields, List.map_cons, List.map_nil, Nat.add_assoc]

def Behind (w w' : Nat × List UInt8) : Prop := w.1 + w.2.length ≤ w'.1

instance : Trans Behind Behind Behind where
  trans first second := by
    unfold Behind at first second ⊢
    omega

theorem apart_of_behind {ws : List (Nat × List UInt8)} (behind : ws.IsChain Behind) : ws.Pairwise Apart :=
  behind.pairwise.imp fun ordered => Or.inl ordered

theorem sigFields_apart (row : Nat) (s : Signature) : (sigFields row s).Pairwise Apart := by
  apply apart_of_behind
  simp [sigFields, Behind, le32, le64]

theorem iocFields_apart (row : Nat) (o : Ioc) : (iocFields row o).Pairwise Apart := by
  apply apart_of_behind
  simp [iocFields, Behind, le32, le64]

/-! ### Reading held rows -/

/-- The memory shows the image at `base` and also at `A`, where the pointers lead. -/
structure Shows (m : Mem) (base A L : Nat) (img : Mem) : Prop where
  here : ∀ o < L, m (base + o) = img o
  there : ∀ o < L, m (A + o) = img o

section reading

variable {m img : Mem} {base A L field : Nat}

theorem Shows.ldLe64 (shown : Shows m base A L img) (inside : field + 8 ≤ L) :
    ldLe64 m (base + field) = Mem.ldLe64 img field :=
  ldLe64_congr fun i byte => by rw [Nat.add_assoc, shown.here _ (by omega)]

theorem Shows.bytes_at (shown : Shows m base A L img) {bs : List UInt8} (inside : field + bs.length ≤ L)
    (h : At img field bs) : At m (base + field) bs :=
  at_congr h fun i byte => by rw [Nat.add_assoc, shown.here _ (by omega)]

theorem CellHeld.follow (shown : Shows m base A L img) (inside : field + 8 ≤ L) {bs : List UInt8}
    (held : CellHeld img A L field bs) :
    (Mem.ldLe64 m (base + field)).toNat ≠ 0 ∧ At m (Mem.ldLe64 m (base + field)).toNat bs := by
  obtain ⟨o, positive, mapped, below, pointer, bytes⟩ := held
  have address : (Mem.ldLe64 m (base + field)).toNat = A + o := by
    rw [shown.ldLe64 inside, pointer, UInt64.toNat_ofNat']
    exact Nat.mod_eq_of_lt mapped
  rw [address]
  refine ⟨by omega, at_congr bytes fun i byte => ?_⟩
  rw [Nat.add_assoc, shown.there _ (by omega)]

theorem readStr_held (shown : Shows m base A L img) (inside : field + 8 ≤ L) (s : Option WireStr)
    (present : ∀ bs, strCell s = some bs → CellHeld img A L field bs)
    (absent : s = none → At img field (le64 (strAddr s))) :
    readStr m (Mem.ldLe64 m (base + field)).toNat = s.map WireStr.text := by
  cases s with
  | none =>
    have null : Mem.ldLe64 m (base + field) = 0 := by
      rw [shown.ldLe64 inside]
      exact ldLe64_of_at (absent rfl)
    rw [null]
    rfl
  | some s =>
    obtain ⟨notNull, text⟩ := (present _ rfl).follow shown inside
    rw [readStr, if_neg notNull, cstr_of_at text s.noNul s.short]
    rfl

theorem readVec_held (shown : Shows m base A L img) (inside : field + 8 ≤ L) (v : Option WireVec)
    (present : ∀ bs, vecCell v = some bs → CellHeld img A L field bs) :
    m.bytes (Mem.ldLe64 m (base + field)).toNat (vecLen v).toNat = vecBytes v := by
  have length : (vecLen v).toNat = (vecBytes v).length := by
    rw [vecLen, UInt32.toNat_ofNat']
    refine Nat.mod_eq_of_lt ?_
    cases v with
    | none => decide
    | some v => exact v.short
  rw [length]
  by_cases empty : vecBytes v = []
  · rw [empty]
    rfl
  · obtain ⟨_, bytes⟩ := (present _ (if_neg empty)).follow shown inside
    exact bytes_of_at bytes

section held

variable {α : Type} {size row k : Nat} {fields : Nat → α → List (Nat × List UInt8)}
  {cells : α → List (Nat × Option (List UInt8))} {x : α}

theorem RowHeld.null (held : RowHeld size fields cells img A L row x) (cellsWf : CellsWf size cells)
    (isCell : (k, none) ∈ cells x) {v : UInt64} (member : (row + k, le64 v) ∈ fields row x) :
    At img (row + k) (le64 v) := by
  refine held.field _ member fun k' bs cell => ?_
  have width : (le64 v).length = 8 := rfl
  have symm : Std.Symm fun c c' : Nat × Option (List UInt8) => c.1 + 8 ≤ c'.1 ∨ c'.1 + 8 ≤ c.1 :=
    ⟨fun _ _ => Or.symm⟩
  have apart := (cellsWf.apart x).forall isCell cell (by simp)
  dsimp only at apart ⊢
  omega

theorem RowHeld.str (held : RowHeld size fields cells img A L row x) (cellsWf : CellsWf size cells)
    (shown : Shows m base A L img) {t : Option WireStr} (isCell : (k, strCell t) ∈ cells x)
    (member : (row + k, le64 (strAddr t)) ∈ fields row x) :
    readStr m (ldLe64 m (base + row + k)).toNat = t.map WireStr.text := by
  have inside := cellsWf.inside x _ isCell
  have below := held.below
  dsimp only at inside
  rw [Nat.add_assoc]
  refine readStr_held shown (by omega) t (fun bs present => held.cell k bs (present ▸ isCell)) fun absent => ?_
  subst absent
  exact held.null cellsWf isCell member

theorem RowHeld.scalar (held : RowHeld size fields cells img A L row x) (shown : Shows m base A L img)
    (inside : ∀ row x, ∀ w ∈ fields row x, row ≤ w.1 ∧ w.1 + w.2.length ≤ row + size) {bs : List UInt8}
    (member : (row + k, bs) ∈ fields row x)
    (untouched : ∀ k' copy, (k', some copy) ∈ cells x → k + bs.length ≤ k' ∨ k' + 8 ≤ k) :
    At m (base + row + k) bs := by
  have here := inside row x _ member
  have below := held.below
  dsimp only at here
  rw [Nat.add_assoc]
  refine shown.bytes_at (by omega) (held.field _ member fun k' copy cell => ?_)
  have apart := untouched k' copy cell
  dsimp only
  omega

end held

theorem readSig_held (shown : Shows m base A L img) {row : Nat} {s : Signature}
    (held : RowHeld sizeofSig sigFields sigCells img A L row s) : readSig m (base + row) = s.content := by
  have below := held.below
  unfold sizeofSig at below
  have sid : At m (base + row + 0) (le32 s.sid) :=
    held.scalar shown sigFields_inside (by simp [sigFields]) (by simp [sigCells, le32]; omega)
  have digestLen : At m (base + row + 40) (le32 (vecLen s.digest)) :=
    held.scalar shown sigFields_inside (by simp [sigFields]) (by simp [sigCells, le32]; omega)
  have severity : At m (base + row + 56) [s.severity] :=
    held.scalar shown sigFields_inside (by simp [sigFields]) (by simp [sigCells]; omega)
  have verdict : At m (base + row + 57) [s.verdict] :=
    held.scalar shown sigFields_inside (by simp [sigFields]) (by simp [sigCells]; omega)
  have digest : m.bytes (ldLe64 m (base + row + 32)).toNat (vecLen s.digest).toNat = vecBytes s.digest := by
    rw [Nat.add_assoc]
    exact readVec_held shown (by omega) s.digest fun bs present => held.cell 32 bs (by simp [sigCells, present])
  unfold readSig Signature.content
  rw [← digest, ← ldLe32_of_at digestLen, ← ldLe32_of_at sid,
    ← held.str (k := 8) sigCells_wf shown (t := s.name) (by simp [sigCells]) (by simp [sigFields]),
    ← held.str (k := 16) sigCells_wf shown (t := s.sigType) (by simp [sigCells]) (by simp [sigFields]),
    ← held.str (k := 24) sigCells_wf shown (t := s.hashType) (by simp [sigCells]) (by simp [sigFields]),
    ← held.str (k := 48) sigCells_wf shown (t := s.hexPattern) (by simp [sigCells]) (by simp [sigFields]),
    ← held.str (k := 64) sigCells_wf shown (t := s.family) (by simp [sigCells]) (by simp [sigFields])]
  have h56 : m (base + row + 56) = s.severity := severity 0 (by simp)
  have h57 : m (base + row + 57) = s.verdict := verdict 0 (by simp)
  rw [h56, h57]
  rfl

theorem readIoc_held (shown : Shows m base A L img) {row : Nat} {o : Ioc}
    (held : RowHeld sizeofIoc iocFields iocCells img A L row o) : readIoc m (base + row) = o.content := by
  have verdict : At m (base + row + 16) [o.verdict] :=
    held.scalar shown iocFields_inside (by simp [iocFields]) (by simp [iocCells]; omega)
  have h16 : m (base + row + 16) = o.verdict := verdict 0 (by simp)
  unfold readIoc Ioc.content
  rw [h16,
    ← held.str (k := 0) iocCells_wf shown (t := o.kind) (by simp [iocCells]) (by simp [iocFields]),
    ← held.str (k := 8) iocCells_wf shown (t := o.value) (by simp [iocCells]) (by simp [iocFields])]
  rfl

end reading

end FfnNgfw.Dpmem
