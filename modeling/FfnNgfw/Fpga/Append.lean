import FfnNgfw.Fpga.Tenants
import Mathlib.Data.List.GetD
import Mathlib.Logic.Function.Basic

/-!
# Loading and then appending

`do_update` is to append to what `do_load` has loaded. Where the entries go is computed
from the number of entries alone, without the offset of the vsys, and the filter is
programmed in whole words from the new entries alone.
-/

namespace FfnNgfw.Fpga

/-! ### Bytes and words of the device -/

/-- `data` written over `f` from `offset` on. -/
def overlay (f : Nat → UInt8) (offset : Nat) (data : List UInt8) : Nat → UInt8 :=
  fun a => if offset ≤ a then data.getD (a - offset) (f a) else f a

section overlay

variable {f : Nat → UInt8} {offset a : Nat} {data more : List UInt8}

theorem overlay_nil : overlay f offset [] = f := by
  funext a
  simp [overlay]

theorem overlay_outside (outside : a < offset ∨ offset + data.length ≤ a) : overlay f offset data a = f a := by
  unfold overlay
  split
  · rw [List.getD_eq_default _ _ (by omega)]
  · rfl

theorem overlay_inside {i : Nat} (inside : i < data.length) : overlay f offset data (offset + i) = data.get ⟨i, inside⟩ := by
  rw [overlay, if_pos (by omega), Nat.add_sub_cancel_left, List.getD_eq_getElem _ _ inside]
  rfl

theorem overlay_append : overlay (overlay f offset data) (offset + data.length) more = overlay f offset (data ++ more) := by
  funext a
  by_cases before : a < offset + data.length
  · rw [overlay_outside (.inl before)]
    unfold overlay
    split
    · rw [List.getD_append _ _ _ _ (by omega)]
    · rfl
  · rw [overlay, if_pos (by omega), overlay_outside (.inr (by omega)), overlay, if_pos (by omega),
      List.getD_append_right _ _ _ _ (by omega), Nat.sub_sub]

end overlay

section transfers

variable {dev : Device} {region offset fuel : Nat} {payload : List UInt8} {log : List Ioctl}

theorem ioctl_bytes (dev : Device) (region offset : Nat) (data : List UInt8) :
    dev.ioctl (.bytes region offset data) =
      { dev with ddr := Function.update dev.ddr region (overlay (dev.ddr region) offset data) } := by
  rw [Device.ioctl]
  congr
  funext r a
  by_cases here : r = region
  · subst here
    simp [overlay]
  · simp [here]

theorem chunks_device (enough : payload.length ≤ fuel) (written : writeChunks region offset fuel payload = some log) :
    log.foldl Device.ioctl dev =
      { dev with ddr := Function.update dev.ddr region (overlay (dev.ddr region) offset payload) } := by
  induction fuel generalizing dev offset payload log with
  | zero =>
    obtain rfl : payload = [] := List.length_eq_zero_iff.mp (Nat.le_zero.mp enough)
    obtain rfl : [] = log := Option.some.inj written
    simp [overlay_nil]
  | succ fuel ih =>
    by_cases empty : payload = []
    · subst empty
      obtain rfl : [] = log := Option.some.inj written
      simp [overlay_nil]
    · obtain ⟨-, rest, rfl, more⟩ := writeChunks_cons empty written
      obtain ⟨whole, positive⟩ := length_chunk payload
      have positive := positive empty
      rw [List.foldl_cons, ih (by omega) more, ioctl_bytes]
      simp only [Function.update_self, Function.update_idem, overlay_append, List.take_append_drop]

theorem writePayload_small (small : payload.length ≤ chunkSize) (reach : payload = [] ∨ offset < 2 ^ 64) :
    ∃ log, writePayload region offset payload = some log := by
  unfold writePayload
  cases payload with
  | nil => exact ⟨[], rfl⟩
  | cons b payload =>
    have near : offset < 2 ^ 64 := reach.resolve_left (List.cons_ne_nil b payload)
    have left : (b :: payload).drop chunkSize = [] := List.drop_eq_nil_of_le small
    simp only [List.length_cons, writeChunks, ddrWrite, if_pos near, left, writeChunks_nil]
    exact ⟨_, rfl⟩

theorem writePayload_reach (written : writePayload region offset payload = some log) : payload = [] ∨ offset < 2 ^ 64 := by
  by_cases empty : payload = []
  · exact .inl empty
  · obtain ⟨fuel, same⟩ := Nat.exists_eq_succ_of_ne_zero (Nat.pos_iff_ne_zero.mp (List.length_pos_of_ne_nil empty))
    rw [writePayload, same] at written
    exact .inr (writeChunks_cons empty written).1

theorem words_device (table : Nat) (data : Nat → Nat) (ws : List Nat) :
    (ws.map fun w => Ioctl.word table w (data w)).foldl Device.ioctl dev =
      { dev with table := fun t i => if t = table ∧ i ∈ ws then data i else dev.table t i } := by
  induction ws generalizing dev with
  | nil => simp
  | cons w ws ih =>
    rw [List.map_cons, List.foldl_cons, ih, Device.ioctl]
    congr
    funext t i
    simp only [List.mem_cons]
    by_cases here : t = table
    · by_cases first : i = w
      · simp [here, first]
      · simp [here, first]
    · simp [here]

end transfers

/-! ### Input files -/

structure Record where
  bytes : List UInt8
  value : List UInt8
  deriving DecidableEq

/-- A compiled input file of a DDR type: all of its entries have the size of the type. -/
structure Feed (db : DbType) where
  records : List Record
  sized : ∀ r ∈ records, r.bytes.length = db.entrySize

namespace Feed

variable {db : DbType} (crc32 : List UInt8 → Nat)

def payload (f : Feed db) : List UInt8 := (f.records.map Record.bytes).flatten

def bits (f : Feed db) : List Nat := f.records.flatMap fun r => bloomHashes crc32 r.value

def compiled (f : Feed db) : Compiled :=
  .records (f.records.map Record.bytes) (db.bloom.map fun _ => f.bits crc32)

def payloads (fs : List (Feed db)) : List UInt8 := fs.flatMap payload

def Marks (f : Feed db) (w : Nat) : Prop := ∃ b ∈ f.bits crc32, b / 64 = w

variable {crc32} {f : Feed db}

theorem payload_length (f : Feed db) : f.payload.length = f.records.length * db.entrySize := by
  obtain ⟨records, sized⟩ := f
  simp only [payload]
  induction records with
  | nil => simp
  | cons r records ih =>
    have here : r.bytes.length = db.entrySize := sized r List.mem_cons_self
    have rest := ih fun r' member => sized r' (List.mem_cons_of_mem r member)
    rw [List.map_cons, List.flatten_cons, List.length_append, here, rest, List.length_cons, Nat.succ_mul, Nat.add_comm]

theorem entrySize_pos (db : DbType) : 0 < db.entrySize := by
  cases db <;> decide

theorem payload_eq_nil : f.payload = [] ↔ f.records = [] := by
  rw [← List.length_eq_zero_iff, payload_length, Nat.mul_eq_zero, List.length_eq_zero_iff]
  exact or_iff_left (Nat.pos_iff_ne_zero.mp (entrySize_pos db))

theorem guessSize (some' : f.payload ≠ []) : (f.compiled crc32).guessSize = db.entrySize := by
  have records : f.records ≠ [] := fun none' => some' (payload_eq_nil.mpr none')
  have positive := List.length_pos_of_ne_nil records
  have payload : (f.compiled crc32).payload = f.payload := rfl
  have count : (f.compiled crc32).count = f.records.length := by simp [compiled, Compiled.count]
  rw [Compiled.guessSize, payload, if_neg some', count, payload_length, Nat.max_eq_left positive,
    Nat.mul_div_cancel_left _ positive]

theorem bits_small {b : Nat} (member : b ∈ f.bits crc32) : b < bloomFilterBits := by
  obtain ⟨r, -, hashed⟩ := List.mem_flatMap.mp member
  obtain ⟨i, -, rfl⟩ := List.mem_map.mp hashed
  exact Nat.mod_lt _ (by decide)

end Feed

def programmed {db : DbType} (crc32 : List UInt8 → Nat) (table : Nat → Nat → Nat) (f : Feed db) : Nat → Nat → Nat :=
  fun t i => if db.filterTable = some t ∧ i ∈ bloomWords (f.bits crc32) then bloomWord (f.bits crc32) i else table t i

theorem bloom_device {dev : Device} {db : DbType} {crc32 : List UInt8 → Nat} (f : Feed db) :
    ((((db.bloom.map fun _ => f.bits crc32).map (loadBloomFilter db)).getD []).foldl Device.ioctl dev) =
      { dev with table := programmed crc32 dev.table f } := by
  cases filter : db.filterTable with
  | none =>
    have without : db.bloom = none := by simpa [DbType.filterTable] using filter
    have same : programmed crc32 dev.table f = dev.table := by
      funext t i
      simp [programmed, filter]
    simp [without, same]
  | some table =>
    obtain ⟨bloom, found, -⟩ := Option.map_eq_some_iff.mp filter
    have words : (bloomWords (f.bits crc32)).map (fun w => Ioctl.word table (w % 65536) (bloomWord (f.bits crc32) w)) =
        (bloomWords (f.bits crc32)).map fun w => Ioctl.word table w (bloomWord (f.bits crc32) w) := by
      apply List.map_congr_left
      intro w member
      rw [bloomWords_small (fun b => Feed.bits_small) member]
    simp only [found, Option.map_some, Option.getD_some, loadBloomFilter_eq filter, words, words_device]
    congr
    funext t i
    simp [programmed, filter, eq_comm]

/-! ### One load, one update -/

section steps

variable {db : DbType} {crc32 : List UInt8 → Nat} {region vsys : Nat} {s s' : Node} {f : Feed db}

/-- The node with the file written from `offset` on and counted. -/
def Node.store (crc32 : List UInt8 → Nat) (s : Node) (region offset vsys count : Nat) (f : Feed db) : Node where
  device :=
    { table := programmed crc32 s.device.table f
      ddr := Function.update s.device.ddr region (overlay (s.device.ddr region) offset f.payload) }
  counts := fun db' v => if db' = db ∧ v = vsys then count else s.counts db' v

theorem commit_store {offset count : Nat} {bytes : List Ioctl} (written : writePayload region offset f.payload = some bytes) :
    s.commit (bytes ++ ((db.bloom.map fun _ => f.bits crc32).map (loadBloomFilter db)).getD []) db vsys count =
      s.store crc32 region offset vsys count f := by
  rw [Node.commit, List.foldl_append, chunks_device (Nat.le_refl _) written, bloom_device]
  rfl

theorem loadIoctls_feed (target : db.ddr = some region) : loadIoctls db (f.compiled crc32) vsys =
    (writePayload region (vsys * vsysSlot) f.payload).map fun bytes =>
      bytes ++ ((db.bloom.map fun _ => f.bits crc32).map (loadBloomFilter db)).getD [] := by
  simp only [loadIoctls, Feed.compiled, ddr_bram target, target, loadDdr4Payload, ddrOffset_eq]
  change (writePayload region (vsys * vsysSlot) f.payload >>= _) = _
  cases writePayload region (vsys * vsysSlot) f.payload <;> rfl

theorem updateIoctls_feed (target : db.ddr = some region) (existing : Nat) :
    updateIoctls db (f.compiled crc32) vsys existing =
      (writePayload region (existing * db.entrySize) f.payload).map fun bytes =>
        bytes ++ ((db.bloom.map fun _ => f.bits crc32).map (loadBloomFilter db)).getD [] := by
  have offset : writePayload region (existing * (f.compiled crc32).guessSize) f.payload =
      writePayload region (existing * db.entrySize) f.payload := by
    by_cases empty : f.payload = []
    · rw [empty]
      rfl
    · rw [Feed.guessSize empty]
  rw [← offset]
  simp only [updateIoctls, Feed.compiled, ddr_bram target, target]
  change (writePayload region (existing * (f.compiled crc32).guessSize) f.payload >>= _) = _
  simp only [Feed.compiled]
  cases writePayload region _ f.payload <;> rfl

theorem feed_count : (f.compiled crc32).count = f.records.length := List.length_map ..

theorem doLoad_eq (target : db.ddr = some region) (s : Node) (f : Feed db) (vsys : Nat) :
    doLoad s db (f.compiled crc32) vsys = (writePayload region (vsys * vsysSlot) f.payload).map fun _ =>
      s.store crc32 region (vsys * vsysSlot) vsys f.records.length f := by
  rw [doLoad, loadIoctls_feed target, feed_count]
  cases written : writePayload region (vsys * vsysSlot) f.payload with
  | none => rfl
  | some bytes =>
    rw [Option.map_some, Option.map_some, Option.map_some, commit_store written]

theorem doUpdate_eq (target : db.ddr = some region) (s : Node) (f : Feed db) (vsys : Nat) :
    doUpdate s db (f.compiled crc32) vsys =
      (writePayload region (s.counts db vsys * db.entrySize) f.payload).map fun _ =>
        s.store crc32 region (s.counts db vsys * db.entrySize) vsys (s.counts db vsys + f.records.length) f := by
  rw [doUpdate, updateIoctls_feed target, feed_count]
  cases written : writePayload region (s.counts db vsys * db.entrySize) f.payload with
  | none => rfl
  | some bytes =>
    rw [Option.map_some, Option.map_some, Option.map_some, commit_store written]

theorem doUpdates_device (target : db.ddr = some region) {fs : List (Feed db)}
    (done : doUpdates s db vsys (fs.map (Feed.compiled crc32)) = some s') :
    s'.device.table = fs.foldl (programmed crc32) s.device.table ∧
      s'.device.ddr = Function.update s.device.ddr region
        (overlay (s.device.ddr region) (s.counts db vsys * db.entrySize) (Feed.payloads fs)) := by
  induction fs generalizing s with
  | nil =>
    obtain rfl : s = s' := Option.some.inj done
    simp [Feed.payloads, overlay_nil]
  | cons f fs ih =>
    rw [List.map_cons, doUpdates, List.foldlM_cons, doUpdate_eq target] at done
    cases written : writePayload region (s.counts db vsys * db.entrySize) f.payload with
    | none =>
      rw [written] at done
      cases done
    | some bytes =>
      rw [written, Option.map_some] at done
      obtain ⟨table, ddr⟩ := ih done
      refine ⟨table, ?_⟩
      have next : (s.counts db vsys + f.records.length) * db.entrySize =
          s.counts db vsys * db.entrySize + f.payload.length := by
        rw [Feed.payload_length, Nat.add_mul]
      rw [ddr]
      simp only [Node.store, Function.update_self, Function.update_idem, if_true, and_self, next, overlay_append,
        Feed.payloads, List.flatMap_cons]

theorem doUpdates_done (target : db.ddr = some region) {fs : List (Feed db)}
    (room : s.counts db vsys * db.entrySize + (Feed.payloads fs).length ≤ vsysSlot) :
    ∃ s', doUpdates s db vsys (fs.map (Feed.compiled crc32)) = some s' := by
  induction fs generalizing s with
  | nil => exact ⟨s, rfl⟩
  | cons f fs ih =>
    have slot : vsysSlot = 40960 := rfl
    have chunk : chunkSize = 4194304 := rfl
    rw [Feed.payloads, List.flatMap_cons, List.length_append, ← Feed.payloads] at room
    obtain ⟨bytes, written⟩ : ∃ bytes, writePayload region (s.counts db vsys * db.entrySize) f.payload = some bytes :=
      writePayload_small (by omega) (.inr (by omega))
    rw [List.map_cons, doUpdates, List.foldlM_cons, doUpdate_eq target, written, Option.map_some]
    apply ih
    simp only [Node.store, and_self, if_true, Nat.add_mul, ← Feed.payload_length]
    omega

end steps

section filter

variable {db : DbType} {crc32 : List UInt8 → Nat} {table w : Nat} {words : Nat → Nat → Nat}

theorem mem_words {f : Feed db} : w ∈ bloomWords (f.bits crc32) ↔ f.Marks crc32 w := mem_bloomWords

theorem filter_last (filter : db.filterTable = some table) {before after : List (Feed db)} {last : Feed db}
    (marks : last.Marks crc32 w) (quiet : ∀ f ∈ after, ¬ f.Marks crc32 w) :
    (before ++ last :: after).foldl (programmed crc32) words table w = bloomWord (last.bits crc32) w := by
  rw [List.foldl_append, List.foldl_cons]
  have here : programmed crc32 (before.foldl (programmed crc32) words) last table w = bloomWord (last.bits crc32) w :=
    if_pos ⟨filter, mem_words.mpr marks⟩
  generalize programmed crc32 (before.foldl (programmed crc32) words) last = now at *
  induction after generalizing now with
  | nil => exact here
  | cons f after ih =>
    rw [List.foldl_cons]
    apply ih (fun g member => quiet g (List.mem_cons_of_mem f member))
    rw [programmed, if_neg fun marked => quiet f List.mem_cons_self (mem_words.mp marked.2)]
    exact here

theorem exists_last {fs : List (Feed db)} (marked : ∃ f ∈ fs, f.Marks crc32 w) :
    ∃ before last after, fs = before ++ last :: after ∧ last.Marks crc32 w ∧ ∀ g ∈ after, ¬ g.Marks crc32 w := by
  induction fs with
  | nil =>
    obtain ⟨f, member, -⟩ := marked
    cases member
  | cons g fs ih =>
    by_cases later : ∃ h ∈ fs, h.Marks crc32 w
    · obtain ⟨before, last, after, rfl, rest⟩ := ih later
      exact ⟨g :: before, last, after, rfl, rest⟩
    · obtain ⟨f, member, marks⟩ := marked
      rcases List.mem_cons.mp member with rfl | inside
      · exact ⟨[], f, fs, rfl, marks, fun h inside marks => later ⟨h, inside, marks⟩⟩
      · exact absurd ⟨f, inside, marks⟩ later

def Passes (crc32 : List UInt8 → Nat) (word : Nat → Nat) (value : List UInt8) : Prop :=
  ∀ b ∈ bloomHashes crc32 value, (word (b / 64)).testBit (b % 64) = true

theorem word_mem {f : Feed db} {b : Nat} :
    (bloomWord (f.bits crc32) (b / 64)).testBit (b % 64) = true ↔ b ∈ f.bits crc32 := by
  rw [bloomWord_testBit]
  constructor
  · rintro ⟨b', member, word, bit⟩
    obtain rfl : b' = b := by omega
    exact member
  · intro member
    exact ⟨b, member, rfl, rfl⟩

variable (crc32) in
/-- Of the files with bits in one word, the last one has all the bits of the others. -/
def WordsKept (fs : List (Feed db)) : Prop :=
  ∀ f ∈ fs, ∀ b ∈ f.bits crc32, ∀ before last after, fs = before ++ last :: after → last.Marks crc32 (b / 64) →
    (∀ g ∈ after, ¬ g.Marks crc32 (b / 64)) → b ∈ last.bits crc32

theorem passes_iff (filter : db.filterTable = some table) (fs : List (Feed db)) :
    (∀ f ∈ fs, ∀ r ∈ f.records, Passes crc32 (fs.foldl (programmed crc32) words table) r.value) ↔ WordsKept crc32 fs := by
  constructor
  · intro passes f member b inside before last after split marks quiet
    obtain ⟨r, record, hashed⟩ := List.mem_flatMap.mp inside
    have set := passes f member r record b hashed
    rw [split, filter_last filter marks quiet, word_mem] at set
    exact set
  · intro kept f member r record b hashed
    have inside : b ∈ f.bits crc32 := List.mem_flatMap.mpr ⟨r, record, hashed⟩
    obtain ⟨before, last, after, split, marks, quiet⟩ := exists_last ⟨f, member, b, inside, rfl⟩
    have found := kept f member b inside before last after split marks quiet
    rw [split, filter_last filter marks quiet, word_mem]
    exact found

end filter

/-! ### A load and its updates -/

section append

variable (crc32 : List UInt8 → Nat) {db : DbType} (region vsys : Nat) (a : Feed db) (bs : List (Feed db))

/-- The law of `do_update`: from any state the calls complete, and leave the entries of
all files one after the other at the offset of the vsys, the slots of other vsys as they
were, and a filter that every entry passes. -/
def Appends : Prop :=
  ∀ s : Node, ∃ s₁ s', doLoad s db (a.compiled crc32) vsys = some s₁ ∧
    doUpdates s₁ db vsys (bs.map (Feed.compiled crc32)) = some s' ∧
    (∀ (i : Nat) (inside : i < (Feed.payloads (a :: bs)).length),
      s'.device.ddr region (vsys * vsysSlot + i) = (Feed.payloads (a :: bs)).get ⟨i, inside⟩) ∧
    (∀ r addr, r ≠ region ∨ addr / vsysSlot ≠ vsys → s'.device.ddr r addr = s.device.ddr r addr) ∧
    (∀ table, db.filterTable = some table → ∀ f ∈ a :: bs, ∀ r ∈ f.records, Passes crc32 (s'.device.table table) r.value)

/-- The files fit the slot together, its offset fits 64 bits, a vsys other than the
global one is never updated, and no word of the filter loses a bit. -/
structure AppendsWell : Prop where
  fits : (Feed.payloads (a :: bs)).length ≤ vsysSlot
  reach : a.records = [] ∨ vsys * vsysSlot < 2 ^ 64
  place : vsys = 0 ∨ ∀ b ∈ bs, b.records = []
  filter : db.filterTable.isSome = true → WordsKept crc32 (a :: bs)

variable {crc32 region vsys a bs}

theorem run_device (target : db.ddr = some region) {s s₁ s' : Node} (loaded : doLoad s db (a.compiled crc32) vsys = some s₁)
    (updated : doUpdates s₁ db vsys (bs.map (Feed.compiled crc32)) = some s') :
    s'.device.table = (a :: bs).foldl (programmed crc32) s.device.table ∧
      s'.device.ddr = Function.update s.device.ddr region
        (overlay (overlay (s.device.ddr region) (vsys * vsysSlot) a.payload) a.payload.length (Feed.payloads bs)) := by
  rw [doLoad_eq target, Option.map_eq_some_iff] at loaded
  obtain ⟨-, -, rfl⟩ := loaded
  obtain ⟨table, ddr⟩ := doUpdates_device target updated
  refine ⟨table, ?_⟩
  rw [ddr]
  simp only [Node.store, Function.update_self, Function.update_idem, and_self, if_true, Feed.payload_length]

theorem payloads_cons : Feed.payloads (a :: bs) = a.payload ++ Feed.payloads bs := rfl

theorem payloads_nil (empty : ∀ b ∈ bs, b.records = []) : Feed.payloads bs = [] := by
  rw [Feed.payloads, List.flatMap_eq_nil_iff]
  exact fun b member => Feed.payload_eq_nil.mpr (empty b member)

theorem AppendsWell.appends (target : db.ddr = some region) (well : AppendsWell crc32 vsys a bs) :
    Appends crc32 region vsys a bs := by
  intro s
  have slot : vsysSlot = 40960 := rfl
  have chunk : chunkSize = 4194304 := rfl
  have fits := well.fits
  rw [payloads_cons, List.length_append] at fits
  have reach : a.payload = [] ∨ vsys * vsysSlot < 2 ^ 64 := well.reach.imp_left Feed.payload_eq_nil.mpr
  obtain ⟨bytes, written⟩ : ∃ bytes, writePayload region (vsys * vsysSlot) a.payload = some bytes :=
    writePayload_small (by omega) reach
  let s₁ := s.store crc32 region (vsys * vsysSlot) vsys a.records.length a
  have loaded : doLoad s db (a.compiled crc32) vsys = some s₁ := by rw [doLoad_eq target, written, Option.map_some]
  obtain ⟨s', updated⟩ : ∃ s', doUpdates s₁ db vsys (bs.map (Feed.compiled crc32)) = some s' := by
    apply doUpdates_done target
    simp only [s₁, Node.store, and_self, if_true, ← Feed.payload_length]
    exact fits
  obtain ⟨table, ddr⟩ := run_device target loaded updated
  -- Either the updates are at the offset of the global vsys, or they write nothing.
  have whole : overlay (overlay (s.device.ddr region) (vsys * vsysSlot) a.payload) a.payload.length (Feed.payloads bs) =
      overlay (s.device.ddr region) (vsys * vsysSlot) (Feed.payloads (a :: bs)) := by
    rw [payloads_cons]
    rcases well.place with rfl | empty
    · rw [Nat.zero_mul]
      have joined := @overlay_append (s.device.ddr region) 0 a.payload (Feed.payloads bs)
      rwa [Nat.zero_add] at joined
    · rw [payloads_nil empty, overlay_nil, List.append_nil]
  rw [whole] at ddr
  refine ⟨_, s', loaded, updated, fun i inside => ?_, fun r addr other => ?_, fun t filter => ?_⟩
  · rw [ddr, Function.update_self, overlay_inside inside]
  · rw [ddr]
    by_cases here : r = region
    · subst here
      rw [Function.update_self, overlay_outside]
      have outside := other.resolve_left (not_not_intro rfl)
      have total := well.fits
      by_contra inside
      apply outside
      rw [not_or, Nat.not_lt, Nat.not_le] at inside
      apply Nat.div_eq_of_lt_le
      · exact inside.1
      · rw [Nat.succ_mul]
        omega
    · rw [Function.update_of_ne here]
  · rw [table, passes_iff filter]
    exact well.filter (by rw [filter]; rfl)

def Node.filled (b : UInt8) : Node := ⟨⟨fun _ _ => 0, fun _ _ => b⟩, fun _ _ => 0⟩

theorem Appends.not_outside (law : Appends crc32 region vsys a bs) {addr : Nat} (outside : addr / vsysSlot ≠ vsys) (b : UInt8)
    (sets : ∀ s s₁ s', doLoad s db (a.compiled crc32) vsys = some s₁ →
      doUpdates s₁ db vsys (bs.map (Feed.compiled crc32)) = some s' →
      (∀ (i : Nat) (inside : i < (Feed.payloads (a :: bs)).length),
        s'.device.ddr region (vsys * vsysSlot + i) = (Feed.payloads (a :: bs)).get ⟨i, inside⟩) →
      s'.device.ddr region addr = b) : False := by
  obtain ⟨s₁, s', loaded, updated, bytes, others, -⟩ := law (Node.filled (b + 1))
  have kept : s'.device.ddr region addr = b + 1 := others region addr (.inr outside)
  rw [sets _ s₁ s' loaded updated bytes, UInt8.left_eq_add] at kept
  cases kept

theorem Appends.fits (law : Appends crc32 region vsys a bs) : (Feed.payloads (a :: bs)).length ≤ vsysSlot := by
  apply Nat.le_of_not_lt
  intro excess
  have next : (vsys * vsysSlot + vsysSlot) / vsysSlot ≠ vsys := by
    rw [← Nat.succ_mul, Nat.mul_div_cancel _ (by decide)]
    omega
  exact law.not_outside next _ fun s s₁ s' _ _ bytes => bytes vsysSlot excess

theorem Appends.place (target : db.ddr = some region) (law : Appends crc32 region vsys a bs) :
    vsys = 0 ∨ ∀ b ∈ bs, b.records = [] := by
  by_contra wrong
  rw [not_or] at wrong
  obtain ⟨tenant, some'⟩ := wrong
  have nonempty : 0 < (Feed.payloads bs).length := by
    apply List.length_pos_of_ne_nil
    intro none'
    rw [Feed.payloads, List.flatMap_eq_nil_iff] at none'
    exact some' fun b member => Feed.payload_eq_nil.mp (none' b member)
  have fits := law.fits
  rw [payloads_cons, List.length_append] at fits
  have global : a.payload.length / vsysSlot ≠ vsys := by
    rw [Nat.div_eq_of_lt (by omega)]
    exact Ne.symm tenant
  refine law.not_outside global ((Feed.payloads bs).get ⟨0, nonempty⟩) fun s s₁ s' loaded updated _ => ?_
  rw [(run_device target loaded updated).2, Function.update_self]
  exact overlay_inside nonempty

/-- Load and updates append exactly when the files fit together in the slot of the
global vsys, or in another one that is not updated, and no word of the filter is
programmed without a bit that an earlier file has set in it. -/
theorem appends_iff (crc32 : List UInt8 → Nat) (db : DbType) (region : Nat) (target : db.ddr = some region) (vsys : Nat)
    (a : Feed db) (bs : List (Feed db)) : Appends crc32 region vsys a bs ↔ AppendsWell crc32 vsys a bs := by
  refine ⟨fun law => ⟨law.fits, ?_, law.place target, fun filtered => ?_⟩, AppendsWell.appends target⟩
  · obtain ⟨s₁, -, loaded, -⟩ := law (Node.filled 0)
    rw [doLoad_eq target, Option.map_eq_some_iff] at loaded
    obtain ⟨bytes, written, -⟩ := loaded
    exact (writePayload_reach written).imp_left Feed.payload_eq_nil.mp
  · obtain ⟨table, filter⟩ := Option.isSome_iff_exists.mp filtered
    obtain ⟨s₁, s', loaded, updated, -, -, passes⟩ := law (Node.filled 0)
    have passed := passes table filter
    rw [(run_device target loaded updated).1] at passed
    exact (passes_iff filter _).mp passed

end append

/-- A file of one network: its address, prefix length, country and a flag. -/
def oneNetwork (last : UInt8) : Feed .geoip := ⟨[⟨[0, 0, last, 10, 24, 85, 83, 1], []⟩], by simp [DbType.entrySize]⟩

/-- One network and then another, loaded for all. The filter is never asked. -/
theorem appends_global_networks :
    Appends (fun _ => 0) 6 0 (oneNetwork 1) [oneNetwork 2] ∧ AppendsWell (fun _ => 0) 0 (oneNetwork 1) [oneNetwork 2] := by
  have well : AppendsWell (fun _ => 0) 0 (oneNetwork 1) [oneNetwork 2] :=
    ⟨by decide, .inr (by decide), .inl rfl, fun filtered => by cases filtered⟩
  exact ⟨(appends_iff (fun _ => 0) .geoip 6 rfl 0 (oneNetwork 1) [oneNetwork 2]).mpr well, well⟩

/-- The update of vsys 1 goes where the global networks are. -/
theorem tenant_update_misplaced :
    ¬ ∀ (crc32 : List UInt8 → Nat) (db : DbType) (region : Nat), db.ddr = some region →
      ∀ (vsys : Nat) (a : Feed db) (bs : List (Feed db)),
      Appends crc32 region vsys a bs := by
  intro all
  have law := all (fun _ => 0) .geoip 6 rfl 1 (oneNetwork 1) [oneNetwork 2]
  rcases law.place rfl with wrong | empty
  · cases wrong
  · cases empty (oneNetwork 2) List.mem_cons_self

end FfnNgfw.Fpga
