import FfnNgfw.Lib.Fifo
import FfnNgfw.Portable.Abi
import Mathlib.Data.List.Forall2

/-!
# The rings as queues

`ffn_dp_abi.h` and `ffn_dpring.py` each have their own push and pop. Both act on the
shared bytes as a queue of at most 64 descriptors, for any value of the counters.
-/

namespace FfnNgfw.Portable
open Mem

/-! ### Descriptors in memory -/

structure Entry where
  desc : Desc
  flags : UInt16
  seq : UInt32
  deriving DecidableEq

def Entry.bytes (e : Entry) : List UInt8 :=
  le16 e.desc.opcode ++ le16 e.flags ++ le32 e.seq ++ le64 e.desc.arg0 ++ le64 e.desc.arg1 ++ le64 e.desc.arg2

theorem entry_length (e : Entry) : e.bytes.length = descSize := rfl

theorem entry_read {m : Mem} {p : Nat} {e : Entry} (h : At m p e.bytes) :
    ldLe16 m p = e.desc.opcode ∧ ldLe16 m (p + 2) = e.flags ∧ ldLe32 m (p + 4) = e.seq ∧
      ldLe64 m (p + 8) = e.desc.arg0 ∧ ldLe64 m (p + 16) = e.desc.arg1 ∧ ldLe64 m (p + 24) = e.desc.arg2 := by
  unfold Entry.bytes at h
  simp only [at_append] at h
  obtain ⟨⟨⟨⟨⟨opcode, flags⟩, seq⟩, arg0⟩, arg1⟩, arg2⟩ := h
  exact ⟨ldLe16_of_at opcode, ldLe16_of_at flags, ldLe32_of_at seq, ldLe64_of_at arg0, ldLe64_of_at arg1,
    ldLe64_of_at arg2⟩

/-! ### `DpRing` of `ffn_dpring.py`

Python integers do not wrap, so the counters are masked where they are subtracted and
where they are stored. -/

def pyRingDesc (base : Nat) (idx : Nat) : Nat := base + ringHdrSz + idx % ringDescs.toNat * descSize

/-- `struct.pack_into("<I", mm, p, v & 0xFFFFFFFF)`. -/
def pyStore32 (m : Mem) (p : Nat) (v : Nat) : Mem := m.write p (le32 (UInt32.ofNat (v % 2 ^ 32)))

/-- `push` on the ring at `base`: `none` when it returns `False`. -/
def pyRingPush (m : Mem) (base : Nat) (d : Desc) (flags : UInt16) : Option Mem :=
  let head := (ldLe32 m base).toNat
  let tail := (ldLe32 m (base + 4)).toNat
  if (ringDescs.toNat : Int) ≤ ((head : Int) - tail) % 2 ^ 32 then none
  else
    let o := pyRingDesc base head
    let m := m.write o (Entry.bytes ⟨d, flags, UInt32.ofNat (head % 2 ^ 32)⟩)
    some (pyStore32 m base (head + 1))

/-- `pop_event` on the ring at `base`: `none` when it returns `None`. -/
def pyRingPop (m : Mem) (base : Nat) : Option (Mem × Entry) :=
  let head := (ldLe32 m base).toNat
  let tail := (ldLe32 m (base + 4)).toNat
  if head = tail then none
  else
    let o := pyRingDesc base tail
    let e : Entry := ⟨⟨ldLe16 m o, ldLe64 m (o + 8), ldLe64 m (o + 16), ldLe64 m (o + 24)⟩, ldLe16 m (o + 2), ldLe32 m (o + 4)⟩
    some (pyStore32 m (base + 4) (tail + 1), e)

def pyPush (m : Mem) (d : Desc) (flags : UInt16) : Option Mem := pyRingPush m offCmdRing d flags

def popEvent (m : Mem) : Option (Mem × Entry) := pyRingPop m offEvtRing

/-! ### One behaviour in two languages -/

theorem ofNat_mod (v : Nat) : UInt32.ofNat (v % 2 ^ 32) = UInt32.ofNat v := by
  apply UInt32.toNat_inj.mp
  rw [UInt32.toNat_ofNat', UInt32.toNat_ofNat', Nat.mod_mod]

theorem ofNat_toNat_succ (v : UInt32) : UInt32.ofNat ((v.toNat + 1) % 2 ^ 32) = v + 1 := by
  apply UInt32.toNat_inj.mp
  rw [ofNat_mod, UInt32.toNat_ofNat', UInt32.toNat_add]
  rfl

theorem pyRingDesc_eq (ring : Nat) (idx : UInt32) : pyRingDesc ring idx.toNat = ringDesc ring idx := by
  unfold pyRingDesc ringDesc
  rw [UInt32.toNat_mod]

theorem outstanding_iff (head tail : UInt32) :
    (ringDescs.toNat : Int) ≤ ((head.toNat : Int) - tail.toNat) % 2 ^ 32 ↔ ringDescs ≤ head - tail := by
  have smallHead := head.toNat_lt
  have smallTail := tail.toNat_lt
  rw [UInt32.le_iff_toNat_le, UInt32.toNat_sub]
  omega

theorem ringPush_eq (m : Mem) (ring : Nat) (d : Desc) : ringPush m ring d = pyRingPush m ring d 0 := by
  have packed (p : Nat) (seq : UInt32) :
      stLe64 (stLe64 (stLe64 (stLe32 (stLe16 (stLe16 m p d.opcode) (p + 2) 0) (p + 4) seq) (p + 8) d.arg0) (p + 16)
        d.arg1) (p + 24) d.arg2 = m.write p (Entry.bytes ⟨d, 0, seq⟩) := by
    unfold Entry.bytes
    rw [← write_append, ← write_append, ← write_append, ← write_append, ← write_append]
    rfl
  unfold ringPush pyRingPush ringHead ringTail ringSetHead pyStore32
  simp only [outstanding_iff, pyRingDesc_eq, packed, ofNat_mod (ldLe32 m ring).toNat, UInt32.ofNat_toNat,
    ofNat_toNat_succ]
  rfl

theorem ringPop_eq (m : Mem) (ring : Nat) : ringPop m ring = (pyRingPop m ring).map fun (m, e) => (m, e.desc) := by
  unfold ringPop pyRingPop ringHead ringTail ringSetTail pyStore32
  simp only [pyRingDesc_eq, ofNat_toNat_succ, UInt32.toNat_inj]
  split
  · rfl
  · rfl

/-- The ring holds the queue `q`, its first entry at counter value `first`. -/
structure RingHolds (m : Mem) (ring : Nat) (first : UInt32) (q : List Entry) : Prop where
  room : q.length ≤ ringDescs.toNat
  tail : ringTail m ring = first
  head : ringHead m ring = first + UInt32.ofNat q.length
  slots : ∀ i e, q[i]? = some e → At m (ringDesc ring (first + UInt32.ofNat i)) e.bytes

def ringSize : Nat := ringHdrSz + ringDescs.toNat * descSize

theorem slot_inside (ring : Nat) (idx : UInt32) :
    ring + ringHdrSz ≤ ringDesc ring idx ∧ ringDesc ring idx + descSize ≤ ring + ringSize := by
  have small : (idx % ringDescs).toNat < 64 := by
    rw [UInt32.toNat_mod]
    exact Nat.mod_lt _ (by decide)
  unfold ringDesc ringSize ringHdrSz descSize
  rw [show ringDescs.toNat = 64 from rfl]
  omega

/-- Different positions of one window of 64 have slots apart from each other, also
where the counter wraps. -/
theorem slots_apart (ring : Nat) (tail : UInt32) {i j : Nat} (hi : i < 64) (hj : j < 64) (ne : i ≠ j) :
    ringDesc ring (tail + UInt32.ofNat i) + descSize ≤ ringDesc ring (tail + UInt32.ofNat j) ∨
      ringDesc ring (tail + UInt32.ofNat j) + descSize ≤ ringDesc ring (tail + UInt32.ofNat i) := by
  have small := tail.toNat_lt
  unfold ringDesc descSize
  simp only [UInt32.toNat_mod, UInt32.toNat_add, UInt32.toNat_ofNat', show ringDescs.toNat = 64 from rfl]
  omega

theorem ringHolds_congr {m m' : Mem} {ring : Nat} {first : UInt32} {q : List Entry} (h : RingHolds m ring first q)
    (same : ∀ a, ring ≤ a → a < ring + ringSize → m' a = m a) : RingHolds m' ring first q := by
  have big : 16 + 64 * 32 = ringSize := rfl
  refine ⟨h.room, ?_, ?_, fun i e read => ?_⟩
  · rw [← h.tail]
    exact ldLe32_congr fun i small => same _ (by omega) (by omega)
  · rw [← h.head]
    exact ldLe32_congr fun i small => same _ (by omega) (by omega)
  · have inside := slot_inside ring (first + UInt32.ofNat i)
    refine at_congr (h.slots i e read) fun k byte => same _ (by omega) ?_
    rw [entry_length] at byte
    omega

theorem pyRingPush_frame {m m' : Mem} {ring : Nat} {d : Desc} {flags : UInt16} (h : pyRingPush m ring d flags = some m')
    {a : Nat} (outside : a < ring ∨ ring + ringSize ≤ a) : m' a = m a := by
  unfold pyRingPush pyStore32 at h
  simp only [pyRingDesc_eq] at h
  split at h
  · cases h
  · cases h
    have inside := slot_inside ring (ldLe32 m ring)
    have big : 16 + 64 * 32 = ringSize := rfl
    rw [write_outside _ _ _ (by rw [show ∀ v : UInt32, (le32 v).length = 4 from fun _ => rfl]; omega),
      write_outside _ _ _ (by rw [entry_length]; omega)]

theorem pyRingPop_frame {m m' : Mem} {ring : Nat} {e : Entry} (h : pyRingPop m ring = some (m', e))
    {a : Nat} (outside : a < ring ∨ ring + ringSize ≤ a) : m' a = m a := by
  unfold pyRingPop pyStore32 at h
  dsimp only at h
  split at h
  · cases h
  · cases h
    have big : 16 + 64 * 32 = ringSize := rfl
    exact write_outside _ _ _ (by rw [show ∀ v : UInt32, (le32 v).length = 4 from fun _ => rfl]; omega)

/-! ### Operations on the queue -/

section operations

variable {m : Mem} {ring : Nat} {first : UInt32} {q : List Entry}

theorem ringHolds_nil (head : ringHead m ring = first) (tail : ringTail m ring = first) : RingHolds m ring first [] :=
  ⟨Nat.zero_le _, tail, head.trans (UInt32.add_zero first).symm, nofun⟩

theorem head_sub_tail (h : RingHolds m ring first q) :
    ringDescs ≤ ringHead m ring - ringTail m ring ↔ q.length = ringDescs.toNat := by
  have room := h.room
  have small := first.toNat_lt
  rw [show ringDescs.toNat = 64 from rfl] at room ⊢
  rw [h.head, h.tail, UInt32.le_iff_toNat_le, UInt32.toNat_sub, UInt32.toNat_add, UInt32.toNat_ofNat',
    show ringDescs.toNat = 64 from rfl]
  omega

theorem head_eq_tail (h : RingHolds m ring first q) :
    (ldLe32 m ring).toNat = (ldLe32 m (ring + 4)).toNat ↔ q = [] := by
  have room := h.room
  have small := first.toNat_lt
  rw [show ringDescs.toNat = 64 from rfl] at room
  rw [show ldLe32 m ring = ringHead m ring from rfl, show ldLe32 m (ring + 4) = ringTail m ring from rfl, h.head, h.tail,
    UInt32.toNat_add, UInt32.toNat_ofNat', ← List.length_eq_zero_iff]
  omega

theorem pyRingPush_holds (h : RingHolds m ring first q) (d : Desc) (flags : UInt16) :
    if q.length = ringDescs.toNat then pyRingPush m ring d flags = none
    else ∃ m', pyRingPush m ring d flags = some m' ∧
      RingHolds m' ring first (q ++ [⟨d, flags, first + UInt32.ofNat q.length⟩]) := by
  have counters := head_sub_tail h
  have room := h.room
  unfold pyRingPush pyStore32
  simp only [outstanding_iff, pyRingDesc_eq, ofNat_mod (ldLe32 m ring).toNat, UInt32.ofNat_toNat, ofNat_toNat_succ]
  rw [show ldLe32 m ring = ringHead m ring from rfl, show ldLe32 m (ring + 4) = ringTail m ring from rfl]
  split
  · rename_i full
    rw [if_pos (counters.mpr full)]
  · rename_i space
    rw [if_neg (fun full => space (counters.mp full)), h.head]
    have inside := slot_inside ring (first + UInt32.ofNat q.length)
    have big : ringHdrSz = 16 := rfl
    have width : ∀ v : UInt32, (le32 v).length = 4 := fun _ => rfl
    refine ⟨_, rfl, ?_, ?_, ?_, fun i e read => ?_⟩
    · rw [List.length_append, List.length_singleton]
      omega
    · refine Eq.trans (ldLe32_congr fun i small => ?_) h.tail
      rw [write_outside _ _ _ (by rw [width]; omega), write_outside _ _ _ (by rw [entry_length]; omega)]
    · rw [ringHead, ldLe32_of_at (at_write _ ring _), List.length_append, List.length_singleton, UInt32.ofNat_add,
        UInt32.add_assoc]
      rfl
    · have slot := slot_inside ring (first + UInt32.ofNat i)
      rcases Nat.lt_or_ge i q.length with old | new
      · -- An unread entry is in another slot.
        have apart := slots_apart ring first (i := i) (j := q.length)
          (by rw [show ringDescs.toNat = 64 from rfl] at room; omega)
          (by rw [show ringDescs.toNat = 64 from rfl] at room space; omega) (by omega)
        rw [List.getElem?_append_left old] at read
        refine at_congr (h.slots i e read) fun k byte => ?_
        rw [entry_length] at byte
        rw [write_outside _ _ _ (by rw [width]; omega), write_outside _ _ _ (by rw [entry_length]; omega)]
      · rw [List.getElem?_append_right new] at read
        have last : i = q.length := by
          have bound := (List.getElem?_eq_some_iff.mp read).1
          rw [List.length_singleton] at bound
          omega
        subst last
        rw [Nat.sub_self, List.getElem?_cons_zero, Option.some.injEq] at read
        subst read
        refine at_congr (at_write m (ringDesc ring (first + UInt32.ofNat q.length)) _) fun k byte => ?_
        rw [write_outside _ _ _ (by rw [width]; omega)]

theorem pyRingPop_nil (h : RingHolds m ring first []) : pyRingPop m ring = none := by
  have counters := head_eq_tail h
  unfold pyRingPop
  dsimp only
  rw [if_pos (counters.mpr rfl)]

theorem pyRingPop_cons {e : Entry} {rest : List Entry} (h : RingHolds m ring first (e :: rest)) :
    ∃ m', pyRingPop m ring = some (m', e) ∧ RingHolds m' ring (first + 1) rest := by
  have counters := head_eq_tail h
  unfold pyRingPop
  dsimp only
  rw [if_neg (fun same => by cases counters.mp same), pyRingDesc_eq,
    show ldLe32 m (ring + 4) = ringTail m ring from rfl, h.tail]
  have stored := h.slots 0 e rfl
  rw [show first + UInt32.ofNat 0 = first from UInt32.add_zero first] at stored
  obtain ⟨opcode, flags, seq, arg0, arg1, arg2⟩ := entry_read stored
  rw [opcode, flags, seq, arg0, arg1, arg2]
  have width : ∀ v : UInt32, (le32 v).length = 4 := fun _ => rfl
  have room := h.room
  rw [List.length_cons] at room
  refine ⟨_, rfl, by omega, ?_, ?_, fun i e' read => ?_⟩
  · rw [ringTail, pyStore32, ofNat_toNat_succ, ldLe32_of_at (at_write _ _ _)]
  · have kept : ringHead (pyStore32 m (ring + 4) (first.toNat + 1)) ring = ringHead m ring :=
      ldLe32_congr fun i small => write_outside _ _ _ (by rw [width]; omega)
    rw [kept, h.head, List.length_cons, UInt32.add_assoc, Nat.add_comm, UInt32.ofNat_add]
    rfl
  · have slot := slot_inside ring (first + 1 + UInt32.ofNat i)
    have position : first + 1 + UInt32.ofNat i = first + UInt32.ofNat (i + 1) := by
      rw [UInt32.add_assoc, Nat.add_comm, UInt32.ofNat_add]
      rfl
    have big : ringHdrSz = 16 := rfl
    refine at_congr (position ▸ h.slots (i + 1) e' read) fun k byte => ?_
    exact write_outside _ _ _ (by rw [width]; omega)

end operations

end FfnNgfw.Portable

/-!
## Rings across the language boundary

Any interleaving of pushes and pops on one ring, each made by the C helpers or by the
Python client, is a run of a bounded queue.
-/

namespace FfnNgfw.Portable
open Mem

inductive Party where
  | c | python
  deriving DecidableEq

inductive RingOp where
  | push (by_ : Party) (d : Desc) (flags : UInt16)
  | pop (by_ : Party)

def Party.push : Party → Mem → Nat → Desc → UInt16 → Option Mem
  | .c, m, ring, d, _ => ringPush m ring d
  | .python, m, ring, d, flags => pyRingPush m ring d flags

def Party.flags : Party → UInt16 → UInt16
  | .c, _ => 0
  | .python, flags => flags

/-- What a consumer is given. Only the Python client returns flags and sequence number. -/
structure Popped where
  desc : Desc
  tag : Option (UInt16 × UInt32)

def Party.pop : Party → Mem → Nat → Option (Mem × Popped)
  | .c, m, ring => (ringPop m ring).map fun (m, d) => (m, ⟨d, none⟩)
  | .python, m, ring => (pyRingPop m ring).map fun (m, e) => (m, ⟨e.desc, some (e.flags, e.seq)⟩)

/-- The shared memory, the descriptors of the successful pushes and what the pops gave. -/
structure RingTrace where
  mem : Mem
  pushed : List Entry
  popped : List Popped

def ringStep (ring : Nat) (s : RingTrace) : RingOp → RingTrace
  | .push party d flags =>
    match party.push s.mem ring d flags with
    | none => s
    | some m => { s with mem := m, pushed := s.pushed ++ [⟨d, party.flags flags, ringHead s.mem ring⟩] }
  | .pop party =>
    match party.pop s.mem ring with
    | none => s
    | some (m, out) => { s with mem := m, popped := s.popped ++ [out] }

def ringRun (ring : Nat) (m : Mem) (ops : List RingOp) : RingTrace := ops.foldl (ringStep ring) ⟨m, [], []⟩

def Entry.reads (e : Entry) (out : Popped) : Prop :=
  out.desc = e.desc ∧ ∀ t, out.tag = some t → t = (e.flags, e.seq)

/-- The trace is that of the queue `f`: the ring holds what `f` holds, and every pop
gave the entry it took. -/
structure Follows (ring : Nat) (start : UInt32) (s : RingTrace) (f : Fifo Entry) : Prop where
  conserved : f.Conserved ringDescs.toNat
  holds : RingHolds s.mem ring (start + UInt32.ofNat f.popped.length) f.queue
  pushed : s.pushed = f.pushed
  popped : List.Forall₂ Entry.reads f.popped s.popped

theorem party_push_eq (party : Party) (m : Mem) (ring : Nat) (d : Desc) (flags : UInt16) :
    party.push m ring d flags = pyRingPush m ring d (party.flags flags) := by
  cases party with
  | c => exact ringPush_eq m ring d
  | python => rfl

theorem party_pop_eq (party : Party) (m : Mem) (ring : Nat) :
    ∃ show_ : Entry → Popped, (∀ e : Entry, e.reads (show_ e)) ∧
      party.pop m ring = (pyRingPop m ring).map fun (m, e) => (m, show_ e) := by
  cases party with
  | c =>
    refine ⟨fun e => ⟨e.desc, none⟩, fun e => ⟨rfl, nofun⟩, ?_⟩
    rw [Party.pop, ringPop_eq, Option.map_map]
    rfl
  | python => exact ⟨fun e => ⟨e.desc, some (e.flags, e.seq)⟩, fun e => ⟨rfl, fun t same => (Option.some.inj same).symm⟩, rfl⟩

variable {f : Fifo Entry} {s : RingTrace} {start : UInt32}

theorem follows_step {ring : Nat} (h : Follows ring start s f)
    (op : RingOp) : ∃ fop, Follows ring start (ringStep ring s op) (f.step ringDescs.toNat fop) := by
  obtain ⟨conserved, holds, pushed, popped⟩ := h
  cases op with
  | push party d flags =>
    refine ⟨.push ⟨d, party.flags flags, ringHead s.mem ring⟩, ?_⟩
    have next := conserved.step (.push ⟨d, party.flags flags, ringHead s.mem ring⟩)
    have spec := pyRingPush_holds holds d (party.flags flags)
    have room := conserved.bounded
    rw [← party_push_eq] at spec
    simp only [ringStep, Fifo.step] at next ⊢
    split at spec
    · rename_i full
      rw [spec, if_neg (by omega)]
      exact ⟨conserved, holds, pushed, popped⟩
    · rename_i space
      obtain ⟨m', found, after⟩ := spec
      rw [if_pos (by omega)] at next
      rw [found, if_pos (by omega)]
      rw [← holds.head] at after
      exact ⟨next, after, by rw [pushed], popped⟩
  | pop party =>
    refine ⟨.pop, ?_⟩
    have next := conserved.step .pop
    obtain ⟨show_, reads, same⟩ := party_pop_eq party s.mem ring
    simp only [ringStep, Fifo.step] at next ⊢
    rw [same]
    cases queue : f.queue with
    | nil =>
      rw [pyRingPop_nil (queue ▸ holds)]
      exact ⟨conserved, holds, pushed, popped⟩
    | cons e rest =>
      rw [queue] at next
      obtain ⟨m', found, after⟩ := pyRingPop_cons (queue ▸ holds)
      rw [found]
      refine ⟨next, ?_, pushed, ?_⟩
      · dsimp only [Option.map_some]
        rw [List.length_append, List.length_singleton, UInt32.ofNat_add, ← UInt32.add_assoc]
        exact after
      · exact List.rel_append popped (List.Forall₂.cons (reads e) List.Forall₂.nil)

theorem follows_run {ring : Nat} (h : Follows ring start s f)
    (ops : List RingOp) : ∃ f', Follows ring start (ops.foldl (ringStep ring) s) f' := by
  induction ops generalizing s f with
  | nil => exact ⟨f, h⟩
  | cons op ops ih =>
    obtain ⟨fop, next⟩ := follows_step h op
    exact ih next

theorem follows_start {m : Mem} {ring : Nat} (head : ringHead m ring = start)
    (tail : ringTail m ring = start) : Follows ring start ⟨m, [], []⟩ Fifo.empty := by
  have zero : start + UInt32.ofNat 0 = start := UInt32.add_zero start
  exact ⟨Fifo.conserved_empty _, ringHolds_nil (head.trans zero.symm) (tail.trans zero.symm), rfl, List.Forall₂.nil⟩

/-- What holds of the trace after any operations on a ring whose counters started at
`start`. -/
structure FaithfulFifo (ring : Nat) (start : UInt32) (s : RingTrace) : Prop where
  /-- The popped descriptors are the first of the pushed ones, in order. -/
  order : s.popped.map Popped.desc <+: s.pushed.map Entry.desc
  /-- Flags and sequence numbers, where they are returned, are those of the push. -/
  tags : ∀ (i : Nat) (out : Popped) (t : UInt16 × UInt32), s.popped[i]? = some out → out.tag = some t →
    ∃ e, s.pushed[i]? = some e ∧ t = (e.flags, e.seq)
  /-- Every descriptor that was not popped yet stands in its slot as it was pushed. -/
  unread : ∀ (i : Nat) (e : Entry), s.popped.length ≤ i → s.pushed[i]? = some e →
    At s.mem (ringDesc ring (start + UInt32.ofNat i)) e.bytes
  /-- A push is refused exactly when 64 descriptors are outstanding. -/
  refused : ∀ (party : Party) (d : Desc) (flags : UInt16),
    party.push s.mem ring d flags = none ↔ s.pushed.length = s.popped.length + 64

theorem reads_descs {es : List Entry} {outs : List Popped} (h : List.Forall₂ Entry.reads es outs) :
    outs.map Popped.desc = es.map Entry.desc := by
  induction h with
  | nil => rfl
  | cons reads _ ih => rw [List.map_cons, List.map_cons, ih, reads.1]

theorem follows_faithful {ring : Nat} (h : Follows ring start s f) : FaithfulFifo ring start s := by
  obtain ⟨conserved, holds, pushed, popped⟩ := h
  have lengths := popped.length_eq
  refine ⟨?_, fun i out t read tagged => ?_, fun i e unread read => ?_, fun party d flags => ?_⟩
  · rw [reads_descs popped, pushed]
    exact conserved.popped_prefix.map _
  · have inside := (List.getElem?_eq_some_iff.mp read).1
    have early : f.pushed[i]? = f.popped[i]? := by
      rw [conserved.order, List.getElem?_append_left (by omega)]
    have small : i < f.popped.length := by omega
    have reads : (f.popped.get ⟨i, small⟩).reads (s.popped.get ⟨i, inside⟩) := popped.get small inside
    rw [List.getElem?_eq_getElem inside, Option.some.injEq] at read
    rw [List.get_eq_getElem, List.get_eq_getElem, read] at reads
    refine ⟨f.popped[i], ?_, reads.2 t tagged⟩
    rw [pushed, early, List.getElem?_eq_getElem small]
  · rw [pushed, conserved.unread (by omega)] at read
    have stored := holds.slots (i - f.popped.length) e read
    rw [UInt32.add_assoc, ← UInt32.ofNat_add] at stored
    rwa [show f.popped.length + (i - f.popped.length) = i by omega] at stored
  · have spec := pyRingPush_holds holds d (party.flags flags)
    have count := conserved.outstanding
    rw [← party_push_eq, show ringDescs.toNat = 64 from rfl] at spec
    rw [pushed]
    split at spec
    · rename_i full
      rw [spec]
      exact ⟨fun _ => by omega, fun _ => rfl⟩
    · rename_i space
      obtain ⟨m', found, _⟩ := spec
      rw [found]
      exact ⟨nofun, fun full => absurd full (by omega)⟩

theorem ring_faithful_fifo (m : Mem) (ring : Nat) (start : UInt32) (head : ringHead m ring = start)
    (tail : ringTail m ring = start) (ops : List RingOp) : FaithfulFifo ring start (ringRun ring m ops) := by
  obtain ⟨f, follows⟩ := follows_run (follows_start head tail) ops
  exact follows_faithful follows

/-- Both counters at 2^32 - 1: the second push is the first after the wrap. -/
def wrapOps : List RingOp := [.push .python ⟨1, 2, 3, 4⟩ 5, .push .c ⟨6, 7, 8, 9⟩ 0, .pop .c, .pop .python]

theorem wrapOps_faithful :
    ringHead (fun _ => 0xFF) offCmdRing = 0xFFFFFFFF ∧ ringTail (fun _ => 0xFF) offCmdRing = 0xFFFFFFFF ∧
      FaithfulFifo offCmdRing 0xFFFFFFFF (ringRun offCmdRing (fun _ => 0xFF) wrapOps) := by
  have head : ringHead (fun _ => 0xFF) offCmdRing = 0xFFFFFFFF := by decide
  have tail : ringTail (fun _ => 0xFF) offCmdRing = 0xFFFFFFFF := by decide
  exact ⟨head, tail, ring_faithful_fifo (fun _ => 0xFF) offCmdRing 0xFFFFFFFF head tail wrapOps⟩

end FfnNgfw.Portable
