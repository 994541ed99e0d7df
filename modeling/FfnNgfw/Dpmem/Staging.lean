import FfnNgfw.Dpmem.Bank
import FfnNgfw.Dpmem.Wire

/-!
# Applying messages

`ffn_mpdp_apply` (`ffn_mpdp_consumer.c`). Model, threat-intel and policy updates
clone the active bank into the inactive one, append to the clone and publish it. A
stage returns the memory and the record of the clone also when it fails, since what
it has written by then stays. A signature verdict patches the active bank.
-/

namespace FfnNgfw.Dpmem
open Mem Portable

structure Staged where
  mem : Mem
  bank : Bank
  rc : MpdpRc

/-- `len ? ffn_dpmem_arena_dup(b, src, len) : NULL`. The flag says that a copy failed. -/
def dupVec (m : Mem) (b : Bank) (v : Option WireVec) : Nat × Mem × Bank × Bool :=
  if vecBytes v = [] then (0, m, b, false)
  else
    match b.arenaDup m (vecBytes v) with
    | some (p, m, b) => (p, m, b, false)
    | none => (0, m, b, true)

def stageMl (u : MlModelUpdate) (m : Mem) (b : Bank) : Staged :=
  let (tcopy, m, b, tfailed) := dupVec m b u.treeBlob
  let (ncopy, m, b, nfailed) := dupVec m b u.ngramParams
  if tfailed || nfailed then ⟨m, b, .enomem⟩
  else
    ⟨m, { b with
      mlVersion := u.version
      mlKind := u.kind
      mlFeaturesVersion := u.featuresVersion
      mlTreeBlob := tcopy
      mlTreeLen := vecLen u.treeBlob
      mlNgramParams := ncopy
      mlNgramLen := vecLen u.ngramParams }, .ok⟩

/-! ### Policy updates -/

/-- `struct fp_policy_ent` in memory: packed, little-endian. -/
def entBytes (r : PolicyRow) : List UInt8 :=
  le32 r.srcIp ++ le32 r.srcMask ++ le32 r.dstIp ++ le32 r.dstMask ++
    le16 r.sportLo ++ le16 r.sportHi ++ le16 r.dportLo ++ le16 r.dportHi ++
    [r.proto, r.vsys, r.action, r.flags] ++ le16 r.egress ++ le16 r.ruleId

def sizeofEnt : Nat := 32

def policyLoop (ent : Nat) (baseVsys : UInt8) : Mem → Nat → List WirePolicyRow → Mem × MpdpRc
  | m, _, [] => (m, .ok)
  | m, i, r :: rows =>
    match compileRow baseVsys i r with
    | none => (m, .edpmem)
    | some e => policyLoop ent baseVsys (m.write (ent + i * sizeofEnt) (entBytes e)) (i + 1) rows

def PolicyUpdate.baseVsys (pu : PolicyUpdate) : UInt8 := pu.vsys.toUInt8

def stagePolicy (pu : PolicyUpdate) (m : Mem) (b : Bank) : Staged :=
  let nrows := pu.rows.length
  if nrows = 0 then ⟨m, { b with policy := 0, policyN := 0 }, .ok⟩
  else
    match b.arenaAlloc (nrows * sizeofEnt) with
    | none => ⟨m, b, .enomem⟩
    | some (ent, b) =>
      let (m, rc) := policyLoop ent pu.baseVsys (m.fill ent 0 (nrows * sizeofEnt)) 0 pu.rows
      if rc ≠ .ok then ⟨m, b, rc⟩
      else ⟨m, { b with policy := ent, policyN := UInt32.ofNat nrows }, .ok⟩

/-! ### Threat-intel updates

Rows are stored with the pointers of the wire buffer. Every string that is present
and every digest that is not empty is then copied, and the pointer set to the copy. -/

def sizeofSig : Nat := 72
def sizeofIoc : Nat := 24

/-- `struct ffn_mpdp_sig` at `row` with pointers into the wire buffer. Padding is not
written. -/
def sigFields (row : Nat) (s : Signature) : List (Nat × List UInt8) :=
  [(row, le32 s.sid), (row + 8, le64 (strAddr s.name)), (row + 16, le64 (strAddr s.sigType)),
   (row + 24, le64 (strAddr s.hashType)), (row + 32, le64 (vecAddr s.digest)), (row + 40, le32 (vecLen s.digest)),
   (row + 48, le64 (strAddr s.hexPattern)), (row + 56, [s.severity]), (row + 57, [s.verdict]),
   (row + 64, le64 (strAddr s.family))]

def iocFields (row : Nat) (o : Ioc) : List (Nat × List UInt8) :=
  [(row, le64 (strAddr o.kind)), (row + 8, le64 (strAddr o.value)), (row + 16, [o.verdict])]

def rowFields {α : Type} (size : Nat) (fields : Nat → α → List (Nat × List UInt8)) : Nat → List α →
    List (Nat × List UInt8)
  | _, [] => []
  | row, x :: xs => fields row x ++ rowFields size fields (row + size) xs

def strCell (s : Option WireStr) : Option (List UInt8) := s.map fun s => s.text ++ [0]

def vecCell (v : Option WireVec) : Option (List UInt8) := if vecBytes v = [] then none else some (vecBytes v)

/-- The pointer fields of a signature, in the order of `ffn_dpmem_threatintel_load`,
with what has to be copied behind them. -/
def sigCells (s : Signature) : List (Nat × Option (List UInt8)) :=
  [(8, strCell s.name), (16, strCell s.sigType), (24, strCell s.hashType), (48, strCell s.hexPattern),
   (64, strCell s.family), (32, vecCell s.digest)]

def iocCells (o : Ioc) : List (Nat × Option (List UInt8)) := [(0, strCell o.kind), (8, strCell o.value)]

def rowJobs {α : Type} (cells : α → List (Nat × Option (List UInt8))) (row : Nat) (x : α) : List (Nat × List UInt8) :=
  (cells x).filterMap fun c => c.2.map fun bs => (row + c.1, bs)

def allocRows (b : Bank) (n size : Nat) : Option (Nat × Bank) :=
  if n = 0 then some (0, b) else b.arenaAlloc (n * size)

/-- `ffn_dpmem_threatintel_load`. The flag says that no copy ran out of arena. -/
def threatintelLoad (m : Mem) (b : Bank) (ti : ThreatIntelUpdate) (adds iocs : Nat) : Mem × Bank × Bool :=
  let jobs := rowFields sizeofSig (rowJobs sigCells) adds ti.adds ++ rowFields sizeofIoc (rowJobs iocCells) iocs ti.iocs
  let (m, r, fits) := b.toArena.dupAll m jobs
  (m, { b with
    toArena := r
    tiSeq := ti.seq
    sig := adds
    sigN := UInt32.ofNat ti.adds.length
    ioc := iocs
    iocN := UInt32.ofNat ti.iocs.length }, fits)

def removeFields (row : Nat) (v : UInt32) : List (Nat × List UInt8) := [(row, le32 v)]

/-- `apply_threatintel` up to the publication, with the flag of the load. -/
def stageThreatintelFits (ti : ThreatIntelUpdate) (m : Mem) (b : Bank) : Staged × Bool :=
  match allocRows b ti.adds.length sizeofSig with
  | none => (⟨m, b, .enomem⟩, true)
  | some (adds, b) =>
    let m := m.writeAll (rowFields sizeofSig sigFields adds ti.adds)
    match allocRows b ti.iocs.length sizeofIoc with
    | none => (⟨m, b, .enomem⟩, true)
    | some (iocs, b) =>
      let m := m.writeAll (rowFields sizeofIoc iocFields iocs ti.iocs)
      match allocRows b ti.removes.length 4 with
      | none => (⟨m, b, .enomem⟩, true)
      | some (removes, b) =>
        -- Nothing reads this array yet.
        let m := m.writeAll (rowFields 4 removeFields removes ti.removes)
        let (m, b, fits) := threatintelLoad m b ti adds iocs
        (⟨m, b, .ok⟩, fits)

def stageThreatintel (ti : ThreatIntelUpdate) (m : Mem) (b : Bank) : Staged := (stageThreatintelFits ti m b).1

def hotShaOf (sha : List UInt8) : List UInt8 := sha.take 32 ++ List.replicate (32 - (sha.take 32).length) 0

def applySigVerdict (sv : SignatureVerdict) (d : Hdr) : Hdr :=
  d.setBank d.active { d.bank d.active with
    hotSid := sv.sid
    hotVerdict := sv.verdict
    hotTs := sv.ts
    hotSha := hotShaOf (vecBytes sv.sha256) }

def Hdr.patched (d : Hdr) (out : Staged) : Hdr := { d.setBank d.inactive out.bank with mem := out.mem }

def applyStaged (stage : Mem → Bank → Staged) (d : Hdr) : Hdr × MpdpRc :=
  let c := d.cloned
  let out := stage c.mem (c.bank c.inactive)
  let p := c.patched out
  if out.rc = .ok then (p.publish p.inactive, .ok) else (p, out.rc)

def Frame.stage? : Frame → Option (Mem → Bank → Staged)
  | .message .mp2dp (some (.mlModelUpdate u)) => some (stageMl u)
  | .message .mp2dp (some (.threatIntelUpdate ti)) => some (stageThreatintel ti)
  | .message .mp2dp (some (.policyUpdate pu)) => some (stagePolicy pu)
  | _ => none

def ffnMpdpApply (f : Frame) (d : Hdr) : Hdr × MpdpRc :=
  match f with
  | .null => (d, .einval)
  | .unverified => (d, .ebadmsg)
  | .message .dp2mp _ => (d, .edir)
  | .message .mp2dp none => (d, .eunsupp)
  | .message .mp2dp (some body) =>
    match body with
    | .mlModelUpdate u => applyStaged (stageMl u) d
    | .threatIntelUpdate ti => applyStaged (stageThreatintel ti) d
    | .policyUpdate pu => applyStaged (stagePolicy pu) d
    | .signatureVerdict sv => (applySigVerdict sv d, .ok)
    | .other => (d, .eunsupp)

end FfnNgfw.Dpmem

/-!
## What staging touches

Every stage appends to the arena of the clone: it moves the cursor up and writes
only bytes at or above the cursor it was given. The region stays well formed, and
nothing outside the inactive bank changes before the publication.
-/

namespace FfnNgfw.Dpmem
open Mem Portable

/-! ### Rows of fields -/

section rows

variable {α : Type} {size : Nat} {fields : Nat → α → List (Nat × List UInt8)} (width : Nat × List UInt8 → Nat)
  (inside : ∀ row x, ∀ w ∈ fields row x, row ≤ w.1 ∧ w.1 + width w ≤ row + size)
include inside

theorem rowFields_inside {row : Nat} {xs : List α} :
    ∀ w ∈ rowFields size fields row xs, row ≤ w.1 ∧ w.1 + width w ≤ row + xs.length * size := by
  induction xs generalizing row with
  | nil =>
    intro w member
    cases member
  | cons x xs ih =>
    intro w member
    rw [List.length_cons, Nat.succ_mul]
    rcases List.mem_append.mp member with first | rest
    · have here := inside row x w first
      omega
    · have there := ih w rest
      omega

theorem rowFields_pairwise
    (apart : ∀ row x, (fields row x).Pairwise fun w w' => w.1 + width w ≤ w'.1 ∨ w'.1 + width w' ≤ w.1)
    (row : Nat) (xs : List α) :
    (rowFields size fields row xs).Pairwise fun w w' => w.1 + width w ≤ w'.1 ∨ w'.1 + width w' ≤ w.1 := by
  induction xs generalizing row with
  | nil => exact List.Pairwise.nil
  | cons x xs ih =>
    refine List.pairwise_append.mpr ⟨apart row x, ih (row + size), fun w first w' rest => Or.inl ?_⟩
    have here := inside row x w first
    have there := rowFields_inside width inside w' rest
    omega

end rows

theorem sigFields_inside (row : Nat) (s : Signature) :
    ∀ w ∈ sigFields row s, row ≤ w.1 ∧ w.1 + w.2.length ≤ row + sizeofSig := by
  intro w member
  simp only [sigFields, List.mem_cons, List.not_mem_nil, or_false] at member
  rcases member with rfl | rfl | rfl | rfl | rfl | rfl | rfl | rfl | rfl | rfl
  all_goals simp [le32, le64, sizeofSig]

theorem iocFields_inside (row : Nat) (o : Ioc) :
    ∀ w ∈ iocFields row o, row ≤ w.1 ∧ w.1 + w.2.length ≤ row + sizeofIoc := by
  intro w member
  simp only [iocFields, List.mem_cons, List.not_mem_nil, or_false] at member
  rcases member with rfl | rfl | rfl
  all_goals simp [le32, le64, sizeofIoc]

theorem removeFields_inside (row : Nat) (v : UInt32) :
    ∀ w ∈ removeFields row v, row ≤ w.1 ∧ w.1 + w.2.length ≤ row + 4 := by
  intro w member
  rw [removeFields, List.mem_singleton] at member
  subst member
  exact ⟨Nat.le_refl _, Nat.le_refl _⟩

theorem vecBytes_block (v : Option WireVec) : (vecBytes v).length < Arena.maxBlock := by
  unfold Arena.maxBlock
  cases v with
  | none => simp [vecBytes]
  | some v =>
    have short := v.short
    simp only [vecBytes]
    omega

theorem strCell_block {s : Option WireStr} {bs : List UInt8} (h : strCell s = some bs) :
    0 < bs.length ∧ bs.length < Arena.maxBlock := by
  obtain ⟨s, rfl, rfl⟩ := Option.map_eq_some_iff.mp h
  have short := s.short
  simp only [List.length_append, List.length_singleton, Arena.maxBlock]
  omega

theorem vecCell_block {v : Option WireVec} {bs : List UInt8} (h : vecCell v = some bs) :
    0 < bs.length ∧ bs.length < Arena.maxBlock := by
  unfold vecCell at h
  split at h
  · cases h
  · rename_i nonempty
    cases h
    exact ⟨List.length_pos_iff.mpr nonempty, vecBytes_block v⟩

/-- The pointer fields lie in a row of `size` bytes, apart from each other, and what
is copied behind them is neither empty nor too large. -/
structure CellsWf {α : Type} (size : Nat) (cells : α → List (Nat × Option (List UInt8))) : Prop where
  inside : ∀ x, ∀ c ∈ cells x, c.1 + 8 ≤ size
  block : ∀ x, ∀ c ∈ cells x, ∀ bs, c.2 = some bs → 0 < bs.length ∧ bs.length < Arena.maxBlock
  apart : ∀ x, (cells x).Pairwise fun c c' => c.1 + 8 ≤ c'.1 ∨ c'.1 + 8 ≤ c.1

theorem sigCells_wf : CellsWf sizeofSig sigCells := by
  refine ⟨fun s c member => ?_, fun s c member bs copied => ?_, fun s => by simp [sigCells]⟩
  all_goals
    simp only [sigCells, List.mem_cons, List.not_mem_nil, or_false] at member
    rcases member with rfl | rfl | rfl | rfl | rfl | rfl
  all_goals first
    | exact strCell_block copied
    | exact vecCell_block copied
    | simp [sizeofSig]

theorem iocCells_wf : CellsWf sizeofIoc iocCells := by
  refine ⟨fun o c member => ?_, fun o c member bs copied => ?_, fun o => by simp [iocCells]⟩
  all_goals
    simp only [iocCells, List.mem_cons, List.not_mem_nil, or_false] at member
    rcases member with rfl | rfl
  all_goals first
    | exact strCell_block copied
    | simp [sizeofIoc]

section cells

variable {α : Type} {size : Nat} {cells : α → List (Nat × Option (List UInt8))} (wf : CellsWf size cells)

theorem rowJobs_mem {row : Nat} {x : α} {w : Nat × List UInt8} (h : w ∈ rowJobs cells row x) :
    ∃ k bs, (k, some bs) ∈ cells x ∧ w = (row + k, bs) := by
  obtain ⟨⟨k, c⟩, member, same⟩ := List.mem_filterMap.mp h
  obtain ⟨bs, rfl, rfl⟩ := Option.map_eq_some_iff.mp same
  exact ⟨k, bs, member, rfl⟩

theorem mem_rowJobs (row : Nat) {k : Nat} {x : α} {bs : List UInt8} (h : (k, some bs) ∈ cells x) :
    (row + k, bs) ∈ rowJobs cells row x := List.mem_filterMap.mpr ⟨_, h, rfl⟩

include wf

theorem rowJobs_inside (row : Nat) (x : α) : ∀ w ∈ rowJobs cells row x, row ≤ w.1 ∧ w.1 + 8 ≤ row + size := by
  intro w member
  obtain ⟨k, bs, cell, rfl⟩ := rowJobs_mem member
  have inside := wf.inside x _ cell
  dsimp only at inside ⊢
  omega

theorem rowJobs_block (row : Nat) (x : α) :
    ∀ w ∈ rowJobs cells row x, 0 < w.2.length ∧ w.2.length < Arena.maxBlock := by
  intro w member
  obtain ⟨k, bs, cell, rfl⟩ := rowJobs_mem member
  exact wf.block x _ cell bs rfl

theorem rowJobs_apart (row : Nat) (x : α) : (rowJobs cells row x).Pairwise Arena.FieldsApart := by
  refine List.Pairwise.filterMap _ (fun c c' apart w found w' found' => ?_) (wf.apart x)
  obtain ⟨bs, _, rfl⟩ := Option.map_eq_some_iff.mp found
  obtain ⟨bs', _, rfl⟩ := Option.map_eq_some_iff.mp found'
  unfold Arena.FieldsApart
  dsimp only
  omega

end cells

/-! ### Each stage appends -/

/-- A stage moves the cursor up and writes at or above the one it was given. -/
def Appends (stage : Mem → Bank → Staged) : Prop :=
  ∀ m b, b.toArena.Wf →
    Arena.Grows (b.base + b.used) m b.toArena (stage m b).mem (stage m b).bank.toArena

theorem arenaAlloc_some {b b' : Bank} {n p : Nat} (h : b.arenaAlloc n = some (p, b')) :
    ∃ r, b.toArena.alloc n = some (p, r) ∧ b' = { b with toArena := r } := by
  obtain ⟨⟨q, r⟩, found, same⟩ := Option.map_eq_some_iff.mp h
  cases same
  exact ⟨r, found, rfl⟩

theorem arenaDup_some {m m' : Mem} {b b' : Bank} {bs : List UInt8} {p : Nat} (h : b.arenaDup m bs = some (p, m', b')) :
    ∃ r, b.toArena.dup m bs = some (p, m', r) ∧ b' = { b with toArena := r } := by
  obtain ⟨⟨q, m₁, r⟩, found, same⟩ := Option.map_eq_some_iff.mp h
  cases same
  exact ⟨r, found, rfl⟩

theorem dupVec_grows (lo : Nat) {m : Mem} {b : Bank} (v : Option WireVec) (wf : b.toArena.Wf)
    (low : lo ≤ b.base + b.used) :
    Arena.Grows lo m b.toArena (dupVec m b v).2.1 (dupVec m b v).2.2.1.toArena := by
  unfold dupVec
  split
  · exact Arena.Grows.refl lo m wf
  · cases found : b.arenaDup m (vecBytes v) with
    | none => exact Arena.Grows.refl lo m wf
    | some out =>
      obtain ⟨p, m', b'⟩ := out
      obtain ⟨r, copied, rfl⟩ := arenaDup_some found
      exact Arena.dup_grows wf (vecBytes_block v) low copied

theorem stageMl_appends (u : MlModelUpdate) : Appends (stageMl u) := by
  intro m b wf
  have first := dupVec_grows (b.base + b.used) (m := m) u.treeBlob wf (Nat.le_refl _)
  have base := first.base
  have used := first.used
  have second := dupVec_grows (b.base + b.used) (m := (dupVec m b u.treeBlob).2.1) u.ngramParams
    (first.wf wf) (by omega)
  unfold stageMl
  dsimp only
  split
  · exact first.trans second
  · exact first.trans second

theorem entBytes_length (e : PolicyRow) : (entBytes e).length = sizeofEnt := rfl

theorem policyLoop_frame {ent : Nat} {vsys : UInt8} {m : Mem} {i a : Nat} {rows : List WirePolicyRow}
    (outside : a < ent + i * sizeofEnt ∨ ent + (i + rows.length) * sizeofEnt ≤ a) :
    (policyLoop ent vsys m i rows).1 a = m a := by
  induction rows generalizing m i with
  | nil => rfl
  | cons r rows ih =>
    unfold policyLoop
    cases compiled : compileRow vsys i r with
    | none => rfl
    | some e =>
      dsimp only
      rw [List.length_cons, ← Nat.add_assoc, Nat.add_right_comm] at outside
      have rowEnd : (i + 1) * sizeofEnt ≤ (i + 1 + rows.length) * sizeofEnt := Nat.mul_le_mul_right _ (by omega)
      have step : (i + 1) * sizeofEnt = i * sizeofEnt + sizeofEnt := Nat.succ_mul i sizeofEnt
      rw [ih (by omega)]
      exact write_outside m _ _ (by rw [entBytes_length]; omega)

theorem stagePolicy_appends (pu : PolicyUpdate) : Appends (stagePolicy pu) := by
  intro m b wf
  have short := pu.rowsShort
  unfold stagePolicy
  dsimp only
  split
  · exact Arena.Grows.refl _ m wf
  · cases found : b.arenaAlloc (pu.rows.length * sizeofEnt) with
    | none => exact Arena.Grows.refl _ m wf
    | some out =>
      obtain ⟨ent, b'⟩ := out
      obtain ⟨r, allocated, rfl⟩ := arenaAlloc_some found
      have block : pu.rows.length * sizeofEnt < Arena.maxBlock := by
        unfold sizeofEnt Arena.maxBlock
        omega
      obtain ⟨cur, above, below, _, rfl, rfl⟩ := Arena.alloc_some wf block allocated
      have grows : Arena.Grows (b.base + b.used) m b.toArena
          (policyLoop (b.base + cur) pu.baseVsys (m.fill (b.base + cur) 0 (pu.rows.length * sizeofEnt)) 0 pu.rows).1
          { b.toArena with used := cur + pu.rows.length * sizeofEnt } := by
        refine ⟨rfl, rfl, by dsimp only; omega, below, fun a outside => ?_⟩
        rw [policyLoop_frame (by rw [Nat.zero_add, Nat.zero_mul]; omega), fill_outside _ _ _ _ (by omega)]
      dsimp only
      split
      · exact grows
      · exact grows

theorem allocRows_some {b b' : Bank} {n size p : Nat} (wf : b.toArena.Wf) (block : n * size < Arena.maxBlock)
    (h : allocRows b n size = some (p, b')) :
    (n = 0 ∧ p = 0 ∧ b' = b) ∨
      ∃ cur, b.used ≤ cur ∧ cur + n * size ≤ b.size ∧ b.base ≠ 0 ∧ p = b.base + cur ∧
        b' = { b with used := cur + n * size } := by
  unfold allocRows at h
  split at h
  · rename_i empty
    cases h
    exact Or.inl ⟨empty, rfl, rfl⟩
  · obtain ⟨r, allocated, rfl⟩ := arenaAlloc_some h
    obtain ⟨cur, above, below, bound, address, rfl⟩ := Arena.alloc_some wf block allocated
    exact Or.inr ⟨cur, above, below, bound, address, rfl⟩

theorem allocRows_inside {α : Type} {size p : Nat} {fields : Nat → α → List (Nat × List UInt8)}
    (width : Nat × List UInt8 → Nat)
    (inside : ∀ row x, ∀ w ∈ fields row x, row ≤ w.1 ∧ w.1 + width w ≤ row + size) {b b' : Bank} {xs : List α}
    (wf : b.toArena.Wf) (block : xs.length * size < Arena.maxBlock) (h : allocRows b xs.length size = some (p, b')) :
    ∀ w ∈ rowFields size fields p xs, b.base + b.used ≤ w.1 ∧ w.1 + width w ≤ b.base + b'.used := by
  intro w member
  rcases allocRows_some wf block h with ⟨empty, _, rfl⟩ | ⟨cur, above, below, _, rfl, rfl⟩
  · rw [List.length_eq_zero_iff] at empty
    subst empty
    cases member
  · have here := rowFields_inside width inside w member
    dsimp only
    omega

theorem allocRows_bank {b b' : Bank} {n size p : Nat} (wf : b.toArena.Wf) (block : n * size < Arena.maxBlock)
    (h : allocRows b n size = some (p, b')) :
    b'.base = b.base ∧ b'.size = b.size ∧ b.used ≤ b'.used ∧ b'.used ≤ b'.size := by
  have fits := wf.inside
  rcases allocRows_some wf block h with ⟨_, _, rfl⟩ | ⟨cur, above, below, _, rfl, rfl⟩
  · exact ⟨rfl, rfl, Nat.le_refl _, fits⟩
  · exact ⟨rfl, rfl, by dsimp only; omega, below⟩

theorem allocRows_grows {α : Type} {size p : Nat} (lo : Nat) {fields : Nat → α → List (Nat × List UInt8)}
    (inside : ∀ row x, ∀ w ∈ fields row x, row ≤ w.1 ∧ w.1 + w.2.length ≤ row + size) {m : Mem} {b b' : Bank}
    {xs : List α} (wf : b.toArena.Wf) (block : xs.length * size < Arena.maxBlock) (low : lo ≤ b.base + b.used)
    (h : allocRows b xs.length size = some (p, b')) :
    Arena.Grows lo m b.toArena (m.writeAll (rowFields size fields p xs)) b'.toArena := by
  obtain ⟨base, size, used, fits⟩ := allocRows_bank wf block h
  have grown : Arena.Grows lo m b.toArena m b'.toArena := ⟨base, size, used, fits, fun _ _ => rfl⟩
  refine grown.trans (Arena.Grows.writeAll (grown.wf wf) fun w member => ?_)
  have here := allocRows_inside (fun w => w.2.length) inside wf block h w member
  omega

theorem rowFields_all {α : Type} {size : Nat} {fields : Nat → α → List (Nat × List UInt8)}
    {p : Nat × List UInt8 → Prop} (each : ∀ row x, ∀ w ∈ fields row x, p w) {row : Nat} {xs : List α} :
    ∀ w ∈ rowFields size fields row xs, p w := by
  induction xs generalizing row with
  | nil =>
    intro w member
    cases member
  | cons x xs ih =>
    intro w member
    rcases List.mem_append.mp member with first | rest
    · exact each row x w first
    · exact ih w rest

theorem rowJobs_wf {α : Type} {size lo p : Nat} {cells : α → List (Nat × Option (List UInt8))}
    (cellsWf : CellsWf size cells) {b b' : Bank} {xs : List α} {r : Arena}
    (wf : b.toArena.Wf) (block : xs.length * size < Arena.maxBlock) (low : lo ≤ b.base + b.used)
    (h : allocRows b xs.length size = some (p, b')) (base : r.base = b.base) (used : b'.used ≤ r.used) :
    Arena.JobsWf lo r (rowFields size (rowJobs cells) p xs) := by
  intro w member
  have here := allocRows_inside (fun _ => 8) (rowJobs_inside cellsWf) wf block h w member
  exact ⟨by omega, by omega, (rowFields_all (rowJobs_block cellsWf) w member).2⟩

/-- The three arrays of a threat-intel update, when all of them fit. -/
structure Arrays (ti : ThreatIntelUpdate) (b : Bank) where
  adds : Nat
  b₁ : Bank
  iocs : Nat
  b₂ : Bank
  removes : Nat
  b₃ : Bank
  addsAt : allocRows b ti.adds.length sizeofSig = some (adds, b₁)
  iocsAt : allocRows b₁ ti.iocs.length sizeofIoc = some (iocs, b₂)
  removesAt : allocRows b₂ ti.removes.length 4 = some (removes, b₃)

def Arrays.mem {ti : ThreatIntelUpdate} {b : Bank} (x : Arrays ti b) (m : Mem) : Mem :=
  ((m.writeAll (rowFields sizeofSig sigFields x.adds ti.adds)).writeAll
    (rowFields sizeofIoc iocFields x.iocs ti.iocs)).writeAll (rowFields 4 removeFields x.removes ti.removes)

section arrays

variable {ti : ThreatIntelUpdate} {b : Bank} (x : Arrays ti b)

theorem adds_block (ti : ThreatIntelUpdate) : ti.adds.length * sizeofSig < Arena.maxBlock := by
  have short := ti.addsShort
  unfold sizeofSig Arena.maxBlock
  omega

theorem iocs_block (ti : ThreatIntelUpdate) : ti.iocs.length * sizeofIoc < Arena.maxBlock := by
  have short := ti.iocsShort
  unfold sizeofIoc Arena.maxBlock
  omega

theorem removes_block (ti : ThreatIntelUpdate) : ti.removes.length * 4 < Arena.maxBlock := by
  have short := ti.removesShort
  unfold Arena.maxBlock
  omega

theorem Arrays.cursors (wf : b.toArena.Wf) :
    (x.b₁.toArena.Wf ∧ x.b₁.base = b.base ∧ b.used ≤ x.b₁.used) ∧
    (x.b₂.toArena.Wf ∧ x.b₂.base = b.base ∧ x.b₁.used ≤ x.b₂.used) ∧
    (x.b₃.toArena.Wf ∧ x.b₃.base = b.base ∧ x.b₂.used ≤ x.b₃.used) := by
  have keeps {b b' : Bank} (wf : b.toArena.Wf) (base : b'.base = b.base) (size : b'.size = b.size)
      (fits : b'.used ≤ b'.size) : b'.toArena.Wf := ⟨fits, size ▸ wf.small, base ▸ size ▸ wf.mapped⟩
  obtain ⟨base₁, size₁, used₁, fits₁⟩ := allocRows_bank wf (adds_block ti) x.addsAt
  have wf₁ := keeps wf base₁ size₁ fits₁
  obtain ⟨base₂, size₂, used₂, fits₂⟩ := allocRows_bank wf₁ (iocs_block ti) x.iocsAt
  have wf₂ := keeps wf₁ base₂ size₂ fits₂
  obtain ⟨base₃, size₃, used₃, fits₃⟩ := allocRows_bank wf₂ (removes_block ti) x.removesAt
  have wf₃ := keeps wf₂ base₃ size₃ fits₃
  exact ⟨⟨wf₁, base₁, used₁⟩, ⟨wf₂, by omega, used₂⟩, wf₃, by omega, used₃⟩

theorem Arrays.grows (m : Mem) (wf : b.toArena.Wf) :
    Arena.Grows (b.base + b.used) m b.toArena (x.mem m) x.b₃.toArena := by
  obtain ⟨⟨wf₁, base₁, used₁⟩, ⟨wf₂, base₂, used₂⟩, _⟩ := x.cursors wf
  have first := allocRows_grows (b.base + b.used) (m := m) sigFields_inside wf (adds_block ti) (Nat.le_refl _)
    x.addsAt
  have second := allocRows_grows (b.base + b.used)
    (m := m.writeAll (rowFields sizeofSig sigFields x.adds ti.adds)) iocFields_inside wf₁ (iocs_block ti)
    (by omega) x.iocsAt
  have third := allocRows_grows (b.base + b.used)
    (m := (m.writeAll (rowFields sizeofSig sigFields x.adds ti.adds)).writeAll
      (rowFields sizeofIoc iocFields x.iocs ti.iocs)) removeFields_inside wf₂ (removes_block ti)
    (by omega) x.removesAt
  exact (first.trans second).trans third

def Arrays.jobs : List (Nat × List UInt8) :=
  rowFields sizeofSig (rowJobs sigCells) x.adds ti.adds ++ rowFields sizeofIoc (rowJobs iocCells) x.iocs ti.iocs

theorem Arrays.jobs_wf (wf : b.toArena.Wf) : Arena.JobsWf (b.base + b.used) x.b₃.toArena x.jobs := by
  obtain ⟨⟨wf₁, base₁, used₁⟩, ⟨_, base₂, used₂⟩, _, base₃, used₃⟩ := x.cursors wf
  intro w member
  rcases List.mem_append.mp member with sig | ioc
  · exact rowJobs_wf sigCells_wf wf (adds_block ti) (Nat.le_refl _) x.addsAt (by omega) (by omega) w sig
  · exact rowJobs_wf iocCells_wf wf₁ (iocs_block ti) (by omega) x.iocsAt (by omega) (by omega) w ioc

end arrays

/-- Everything the threat-intel stage can do: one of the arrays does not fit, or all
are filled and the strings are copied. -/
theorem stageThreatintel_cases (ti : ThreatIntelUpdate) (m : Mem) (b : Bank) (wf : b.toArena.Wf) :
    ((stageThreatintel ti m b).rc = .enomem ∧
      Arena.Grows (b.base + b.used) m b.toArena (stageThreatintel ti m b).mem
        (stageThreatintel ti m b).bank.toArena) ∨
    ∃ x : Arrays ti b, (stageThreatintelFits ti m b) =
      (⟨(threatintelLoad (x.mem m) x.b₃ ti x.adds x.iocs).1, (threatintelLoad (x.mem m) x.b₃ ti x.adds x.iocs).2.1, .ok⟩,
        (threatintelLoad (x.mem m) x.b₃ ti x.adds x.iocs).2.2) := by
  unfold stageThreatintel stageThreatintelFits
  cases addsAt : allocRows b ti.adds.length sizeofSig with
  | none => exact Or.inl ⟨rfl, Arena.Grows.refl _ m wf⟩
  | some out₁ =>
    obtain ⟨adds, b₁⟩ := out₁
    have first := allocRows_grows (b.base + b.used) (m := m) sigFields_inside wf (adds_block ti)
      (Nat.le_refl _) addsAt
    dsimp only
    cases iocsAt : allocRows b₁ ti.iocs.length sizeofIoc with
    | none => exact Or.inl ⟨rfl, first⟩
    | some out₂ =>
      obtain ⟨iocs, b₂⟩ := out₂
      have base₁ := first.base
      have used₁ := first.used
      have second := allocRows_grows (b.base + b.used)
        (m := m.writeAll (rowFields sizeofSig sigFields adds ti.adds)) iocFields_inside (first.wf wf) (iocs_block ti)
        (by omega) iocsAt
      dsimp only
      cases removesAt : allocRows b₂ ti.removes.length 4 with
      | none => exact Or.inl ⟨rfl, first.trans second⟩
      | some out₃ =>
        obtain ⟨removes, b₃⟩ := out₃
        exact Or.inr ⟨⟨adds, b₁, iocs, b₂, removes, b₃, addsAt, iocsAt, removesAt⟩, rfl⟩

theorem stageThreatintel_appends (ti : ThreatIntelUpdate) : Appends (stageThreatintel ti) := by
  intro m b wf
  rcases stageThreatintel_cases ti m b wf with ⟨_, grows⟩ | ⟨x, loaded⟩
  · exact grows
  · have arrays := x.grows m wf
    have base := arrays.base
    have used := arrays.used
    unfold stageThreatintel
    rw [loaded]
    exact arrays.trans (Arena.dupAll_grows (arrays.wf wf) (by omega) (x.jobs_wf wf))

end FfnNgfw.Dpmem
