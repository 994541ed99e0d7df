import FfnNgfw.Portable.FlowCache
import Mathlib.Data.Finset.Card
import Mathlib.Data.Nat.Bitwise

/-!
# The flow table as a map

`dp_flow_init`, then any sequence of `dp_flow_insert` and `dp_flow_flush`. Nothing
here depends on the hash: the functions are read with any hash in the place of
`dp_flow_hash`. A table of 2^j slots is walked from the home slot of a key through
every slot, so an insertion fails only when no slot is free.
-/

namespace FfnNgfw.Portable

section hashed

variable (hash : FlowKey → UInt32)

/-- `flowScheme` with `hash` for `dp_flow_hash`. -/
def hashedScheme (mask : UInt32) : Scheme FlowKey FlowEnt :=
  { flowScheme mask with slot := fun k probe => (((hash k &&& mask) + UInt32.ofNat probe) &&& mask).toNat }

/-- `dp_flow_lookup`, with `hash` for `dp_flow_hash`. -/
def hashedLookup (ft : FlowTable) (k : FlowKey) : Option Nat :=
  match (hashedScheme hash ft.mask).probe ft.ent k with
  | .hit i => some i
  | _ => none

/-- `dp_flow_insert`, with `hash` for `dp_flow_hash`. -/
def hashedInsert (ft : FlowTable) (k : FlowKey) : FlowTable × Option Nat :=
  match (hashedScheme hash ft.mask).probe ft.ent k with
  | .free i => ({ ft.set i { FlowEnt.zero with key := k, used := true } with count := ft.count + 1 }, some i)
  | .hit i => (ft, some i)
  | .full => (ft, none)

inductive TableCall where
  | insert (k : FlowKey)
  | flush
  deriving DecidableEq

def TableCall.exec (ft : FlowTable) : TableCall → FlowTable
  | .insert k => (hashedInsert hash ft k).1
  | .flush => dpFlowFlush ft

def runTable (ft : FlowTable) (calls : List TableCall) : FlowTable := calls.foldl (TableCall.exec hash) ft

/-- Some insertion of `k` returned an entry, and no flush came after it. -/
def Inserted (ft : FlowTable) (calls : List TableCall) (k : FlowKey) : Prop :=
  ∃ before after, calls = before ++ .insert k :: after ∧ .flush ∉ after ∧
    (hashedInsert hash (runTable hash ft before) k).2 ≠ none

end hashed

theorem hashed_dpFlowHash : hashedLookup dpFlowHash = dpFlowLookup ∧ hashedInsert dpFlowHash = dpFlowInsert := ⟨rfl, rfl⟩

def FlowTable.occupied (ft : FlowTable) : Finset Nat := (Finset.range ft.slots.toNat).filter fun i => (ft.ent i).used

theorem toNat_double (p : UInt32) : (p <<< 1).toNat = p.toNat * 2 % 2 ^ 32 := by
  rw [UInt32.toNat_shiftLeft, Nat.shiftLeft_eq]
  rfl

variable {slots mask : UInt32}

theorem flowSize_zero (some' : 0 < slots) (fuel : Nat) : flowSize slots fuel 0 = none := by
  induction fuel with
  | zero => rfl
  | succ fuel ih =>
    rw [flowSize, if_pos some']
    exact ih

theorem flowSize_pow {slots p size : UInt32} {fuel j : Nat} (small : j < 32) (start : p.toNat = 2 ^ j)
    (h : flowSize slots fuel p = some size) : ∃ i < 32, size.toNat = 2 ^ i := by
  induction fuel generalizing p j with
  | zero => cases h
  | succ fuel ih =>
    rw [flowSize] at h
    split at h
    · rename_i less
      have doubled := toNat_double p
      rw [start, ← Nat.pow_succ] at doubled
      by_cases more : j + 1 < 32
      · rw [Nat.mod_eq_of_lt (Nat.pow_lt_pow_right (by omega) more)] at doubled
        exact ih more doubled h
      · -- The bit is shifted out: the loop runs on 0 and never ends.
        obtain rfl : j = 31 := by omega
        have out : p <<< 1 = 0 := UInt32.toNat_inj.mp (by rw [doubled]; rfl)
        rw [out, flowSize_zero (UInt32.lt_of_le_of_lt (by simp [UInt32.le_iff_toNat_le]) less)] at h
        cases h
    · cases h
      exact ⟨j, small, start⟩

structure Fresh (ft : FlowTable) (j : Nat) : Prop where
  small : j < 32
  size : ft.slots.toNat = 2 ^ j
  mask : ft.mask.toNat = 2 ^ j - 1
  empty : ft.ent = fun _ => FlowEnt.zero
  count : ft.count = 0

theorem init_fresh {calloc : Bool} {ft : FlowTable} {rc : Rc}
    (h : dpFlowInit calloc slots = some (ft, rc)) : ∃ j, Fresh ft j := by
  simp only [dpFlowInit, Option.map_eq_some_iff, Prod.mk.injEq] at h
  obtain ⟨size, found, rfl, -⟩ := h
  obtain ⟨j, small, power⟩ := flowSize_pow (Nat.zero_lt_succ 31) rfl found
  refine ⟨j, small, power, ?_, rfl, rfl⟩
  have positive := Nat.two_pow_pos j
  have one : (1 : UInt32) ≤ size := by
    rw [UInt32.le_iff_toNat_le, power]
    exact positive
  simp only [UInt32.toNat_sub_of_le _ _ one, power, UInt32.toNat_one]

/-! ### Requested sizes -/

/-- The loop of `dp_flow_init` ends: some number of rounds is enough. -/
def SizingEnds (slots : UInt32) : Prop := ∃ fuel size, flowSize slots fuel 1 = some size

/-- `dp_flow_init` returns, and with `DP_OK` the table has a power of two of slots, at
least as many as were asked for, and the mask that goes with them. -/
def InitSound (slots : UInt32) : Prop :=
  SizingEnds slots ∧ ∀ calloc, ∃ ft rc, dpFlowInit calloc slots = some (ft, rc) ∧
    (rc = .ok → (∃ j, ft.slots.toNat = 2 ^ j) ∧ slots ≤ ft.slots ∧ ft.mask = ft.slots - 1)

theorem flowSize_ge {slots p size : UInt32} {fuel : Nat} (h : flowSize slots fuel p = some size) : slots ≤ size := by
  induction fuel generalizing p with
  | zero => cases h
  | succ fuel ih =>
    rw [flowSize] at h
    split at h
    · exact ih h
    · rename_i reached
      cases h
      exact UInt32.not_lt.mp reached

theorem flowSize_ends {slots p : UInt32} {fuel j : Nat} (few : slots.toNat ≤ 2 ^ 31) (start : p.toNat = 2 ^ j)
    (small : j < 32) (enough : 31 < j + fuel) : ∃ size, flowSize slots fuel p = some size := by
  induction fuel generalizing p j with
  | zero => omega
  | succ fuel ih =>
    rw [flowSize]
    split
    · rename_i less
      rw [UInt32.lt_iff_toNat_lt, start] at less
      have below : 2 ^ j < 2 ^ 31 := Nat.lt_of_lt_of_le less few
      have more : j < 31 := (Nat.pow_lt_pow_iff_right (by omega)).mp below
      have doubled : (p <<< 1).toNat = 2 ^ (j + 1) := by
        rw [toNat_double, start, ← Nat.pow_succ]
        apply Nat.mod_eq_of_lt
        exact Nat.pow_lt_pow_right (by omega) (by omega)
      exact ih doubled (by omega) (by omega)
    · exact ⟨p, rfl⟩

theorem flowSize_found (few : slots.toNat ≤ 2 ^ 31) : ∃ size, flowSize slots 33 1 = some size :=
  flowSize_ends few (UInt32.toNat_one : (1 : UInt32).toNat = 2 ^ 0) (Nat.zero_lt_succ 31) (Nat.le_of_ble_eq_true rfl)

theorem sizingEnds_iff (slots : UInt32) : SizingEnds slots ↔ slots.toNat ≤ 2 ^ 31 := by
  constructor
  · rintro ⟨fuel, size, h⟩
    obtain ⟨i, small, power⟩ := flowSize_pow (Nat.zero_lt_succ 31) rfl h
    have large := UInt32.le_iff_toNat_le.mp (flowSize_ge h)
    have most : 2 ^ i ≤ 2 ^ 31 := Nat.pow_le_pow_right (by omega) (by omega)
    omega
  · intro few
    obtain ⟨size, h⟩ := flowSize_found few
    exact ⟨33, size, h⟩

/-- A request above 2^31 slots is never answered; every other one is answered rightly. -/
theorem flow_init_sound_iff (slots : UInt32) : InitSound slots ↔ slots.toNat ≤ 2 ^ 31 := by
  constructor
  · intro sound
    exact (sizingEnds_iff slots).mp sound.1
  · intro few
    refine ⟨(sizingEnds_iff slots).mpr few, fun calloc => ?_⟩
    obtain ⟨size, found⟩ := flowSize_found few
    refine ⟨_, _, by rw [dpFlowInit, found]; rfl, fun _ => ?_⟩
    obtain ⟨i, -, power⟩ := flowSize_pow (Nat.zero_lt_succ 31) rfl found
    exact ⟨⟨i, power⟩, flowSize_ge found, rfl⟩

theorem flow_init_spins : ¬InitSound 0x80000001 := by
  intro sound
  have few := (sizingEnds_iff _).mp sound.1
  exact absurd few (by decide)

variable {hash : FlowKey → UInt32} {ft : FlowTable} {k : FlowKey} {i j : Nat}

theorem toNat_masked {x mask : UInt32} (low : mask.toNat = 2 ^ j - 1) : (x &&& mask).toNat = x.toNat % 2 ^ j := by
  rw [UInt32.toNat_and, low, Nat.and_two_pow_sub_one_eq_mod]

theorem slot_mod {probe : Nat} (small : j < 32) (low : mask.toNat = 2 ^ j - 1) :
    (hashedScheme hash mask).slot k probe = ((hash k).toNat % 2 ^ j + probe) % 2 ^ j := by
  have divides : 2 ^ j ∣ 2 ^ 32 := Nat.pow_dvd_pow 2 small.le
  have walk : (UInt32.ofNat probe).toNat % 2 ^ j = probe % 2 ^ j := by
    rw [UInt32.toNat_ofNat']
    exact Nat.mod_mod_of_dvd probe divides
  change (((hash k &&& mask) + UInt32.ofNat probe) &&& mask).toNat = _
  rw [toNat_masked low, UInt32.toNat_add, Nat.mod_mod_of_dvd _ divides, toNat_masked low, Nat.add_mod, walk,
    ← Nat.add_mod]

theorem hashed_covers (small : j < 32) (low : mask.toNat = 2 ^ j - 1) :
    (hashedScheme hash mask).Covers (2 ^ j) := by
  have positive := Nat.two_pow_pos j
  refine ⟨fun k p => ?_, fun k i inside => ?_⟩
  · rw [slot_mod small low]
    exact Nat.mod_lt _ positive
  · have probes : (hashedScheme hash mask).probes = 2 ^ j := by
      change mask.toNat + 1 = 2 ^ j
      omega
    obtain ⟨p, short, there⟩ := Scheme.wrap_reaches ((hash k).toNat % 2 ^ j) inside
    exact ⟨p, by rw [probes]; exact short, by rw [slot_mod small low, there]⟩

/-! ### What holds between calls -/

variable (hash ft j) in
/-- A table of 2^j slots in which every entry is found under its own key. -/
structure TableInv : Prop where
  small : j < 32
  size : ft.slots.toNat = 2 ^ j
  mask : ft.mask.toNat = 2 ^ j - 1
  wf : (hashedScheme hash ft.mask).Wf ft.ent
  count : ft.count.toNat = ft.occupied.card

theorem mem_occupied : i ∈ ft.occupied ↔ i < ft.slots.toNat ∧ (ft.ent i).used = true := by
  rw [FlowTable.occupied, Finset.mem_filter, Finset.mem_range]

theorem TableInv.covers (inv : TableInv hash ft j) : (hashedScheme hash ft.mask).Covers ft.slots.toNat :=
  inv.size ▸ hashed_covers inv.small inv.mask

theorem TableInv.of_empty (small : j < 32) (size : ft.slots.toNat = 2 ^ j) (mask : ft.mask.toNat = 2 ^ j - 1)
    (empty : ft.ent = fun _ => FlowEnt.zero) (count : ft.count = 0) : TableInv hash ft j := by
  refine ⟨small, size, mask, ?_, ?_⟩
  · intro l used
    rw [empty] at used
    cases used
  · have none' : ft.occupied = ∅ := by
      apply Finset.eq_empty_of_forall_notMem
      intro l member
      rw [mem_occupied, empty] at member
      cases member.2
    rw [count, none', Finset.card_empty]
    rfl

theorem Fresh.inv (fresh : Fresh ft j) : TableInv hash ft j :=
  .of_empty fresh.small fresh.size fresh.mask fresh.empty fresh.count

theorem TableInv.flush (inv : TableInv hash ft j) : TableInv hash (dpFlowFlush ft) j :=
  .of_empty inv.small inv.size inv.mask rfl rfl

theorem insert_cases (hash : FlowKey → UInt32) (ft : FlowTable) (k : FlowKey) :
    (∃ i, (hashedScheme hash ft.mask).probe ft.ent k = .free i ∧
      hashedInsert hash ft k = ({ ft.set i (FlowEnt.fresh k) with count := ft.count + 1 }, some i)) ∨
    (∃ i, (hashedScheme hash ft.mask).probe ft.ent k = .hit i ∧ hashedInsert hash ft k = (ft, some i)) ∨
    ((hashedScheme hash ft.mask).probe ft.ent k = .full ∧ hashedInsert hash ft k = (ft, none)) := by
  cases found : (hashedScheme hash ft.mask).probe ft.ent k with
  | free i => exact .inl ⟨i, rfl, by simp only [hashedInsert, found, FlowEnt.fresh]⟩
  | hit i => exact .inr (.inl ⟨i, rfl, by simp only [hashedInsert, found]⟩)
  | full => exact .inr (.inr ⟨rfl, by simp only [hashedInsert, found]⟩)

theorem occupied_set (inside : i < ft.slots.toNat) :
    (ft.set i (FlowEnt.fresh k)).occupied = insert i ft.occupied := by
  ext l
  rw [Finset.mem_insert, mem_occupied, mem_occupied]
  by_cases same : l = i
  · subst same
    simpa [FlowTable.set, FlowEnt.fresh] using inside
  · simp [FlowTable.set, same]

theorem occupied_card_le (ft : FlowTable) : ft.occupied.card ≤ ft.slots.toNat := by
  calc ft.occupied.card ≤ (Finset.range ft.slots.toNat).card := Finset.card_filter_le _ _
    _ = ft.slots.toNat := Finset.card_range _

theorem TableInv.insert (inv : TableInv hash ft j) (k : FlowKey) : TableInv hash (hashedInsert hash ft k).1 j := by
  rcases insert_cases hash ft k with ⟨i, found, result⟩ | ⟨i, -, result⟩ | ⟨-, result⟩
  · rw [result]
    refine ⟨inv.small, inv.size, inv.mask, inv.wf.insert found rfl rfl, ?_⟩
    have inside : i < ft.slots.toNat := Scheme.probeFrom_within inv.covers.1 (.inr found)
    have free : i ∉ ft.occupied := by
      intro member
      have used : (ft.ent i).used = false := Scheme.probe_free found
      rw [(mem_occupied.mp member).2] at used
      cases used
    have grown : (ft.set i (FlowEnt.fresh k)).occupied.card = ft.occupied.card + 1 := by
      rw [occupied_set inside, Finset.card_insert_of_notMem free]
    have room : ft.occupied.card + 1 ≤ ft.slots.toNat := grown ▸ occupied_card_le (ft.set i (FlowEnt.fresh k))
    have word := ft.slots.toNat_lt
    change (ft.count + 1).toNat = (ft.set i (FlowEnt.fresh k)).occupied.card
    rw [UInt32.toNat_add, inv.count, grown, UInt32.toNat_one, Nat.mod_eq_of_lt (by omega)]
  · rwa [result]
  · rwa [result]

theorem TableInv.run (inv : TableInv hash ft j) (calls : List TableCall) : TableInv hash (runTable hash ft calls) j := by
  induction calls generalizing ft with
  | nil => exact inv
  | cons call calls ih =>
    cases call with
    | insert k => exact ih (inv.insert k)
    | flush => exact ih inv.flush

/-! ### Lookups -/

theorem lookup_eq_some : hashedLookup hash ft k = some i ↔ (hashedScheme hash ft.mask).probe ft.ent k = .hit i := by
  rw [hashedLookup]
  cases (hashedScheme hash ft.mask).probe ft.ent k <;> simp

theorem TableInv.lookup_iff (inv : TableInv hash ft j) :
    hashedLookup hash ft k = some i ↔ (ft.ent i).used = true ∧ (ft.ent i).key = k := by
  rw [lookup_eq_some]
  refine ⟨Scheme.probe_hit, fun ⟨used, key⟩ => ?_⟩
  have found := inv.wf i used
  rwa [show (hashedScheme hash ft.mask).key (ft.ent i) = k from key] at found

theorem lookup_insert (inv : TableInv hash ft j) (k' : FlowKey) :
    (∃ i, hashedLookup hash (hashedInsert hash ft k').1 k = some i) ↔
      (∃ i, hashedLookup hash ft k = some i) ∨ (k' = k ∧ (hashedInsert hash ft k').2 ≠ none) := by
  have after := inv.insert k'
  simp only [after.lookup_iff, inv.lookup_iff]
  rcases insert_cases hash ft k' with ⟨i, found, result⟩ | ⟨i, found, result⟩ | ⟨found, result⟩
  · have free : (ft.ent i).used = false := Scheme.probe_free found
    rw [result]
    constructor
    · rintro ⟨l, used, key⟩
      by_cases same : l = i
      · subst same
        refine .inr ⟨?_, by simp⟩
        simpa [FlowTable.set, FlowEnt.fresh] using key
      · simp only [FlowTable.set, Function.update_of_ne same] at used key
        exact .inl ⟨l, used, key⟩
    · rintro (⟨l, used, key⟩ | ⟨rfl, -⟩)
      · have ne : l ≠ i := by
          rintro rfl
          rw [free] at used
          cases used
        exact ⟨l, by simp [FlowTable.set, ne, used], by simp [FlowTable.set, ne, key]⟩
      · exact ⟨i, by simp [FlowTable.set, FlowEnt.fresh], by simp [FlowTable.set, FlowEnt.fresh]⟩
  · rw [result]
    refine ⟨.inl, fun h => h.elim id ?_⟩
    rintro ⟨rfl, -⟩
    exact ⟨i, Scheme.probe_hit found⟩
  · rw [result]
    simp

theorem inserted_nil : ¬ Inserted hash ft [] k := by
  rintro ⟨before, after, split, -⟩
  simp at split

theorem inserted_flush (calls : List TableCall) : ¬ Inserted hash ft (calls ++ [.flush]) k := by
  rintro ⟨before, after, split, kept, -⟩
  rcases List.eq_nil_or_concat after with rfl | ⟨rest, last, rfl⟩
  · have ends := (List.append_inj' (split.trans rfl) rfl).2
    simp at ends
  · rw [List.concat_eq_append, ← List.cons_append, ← List.append_assoc] at split
    have ends := (List.append_inj' split rfl).2
    simp only [List.cons.injEq, and_true] at ends
    exact kept (by simp [← ends])

theorem inserted_insert (calls : List TableCall) (k' : FlowKey) :
    Inserted hash ft (calls ++ [.insert k']) k ↔
      Inserted hash ft calls k ∨ (k' = k ∧ (hashedInsert hash (runTable hash ft calls) k').2 ≠ none) := by
  constructor
  · rintro ⟨before, after, split, kept, returned⟩
    rcases List.eq_nil_or_concat after with rfl | ⟨rest, last, rfl⟩
    · obtain ⟨rfl, ends⟩ := List.append_inj' split rfl
      simp only [List.cons.injEq, TableCall.insert.injEq, and_true] at ends
      exact .inr ⟨ends, ends ▸ returned⟩
    · rw [List.concat_eq_append, ← List.cons_append, ← List.append_assoc] at split
      have ends := (List.append_inj' split rfl).1
      refine .inl ⟨before, rest, ends, fun member => kept ?_, returned⟩
      simp [member]
  · rintro (⟨before, after, rfl, kept, returned⟩ | ⟨rfl, returned⟩)
    · exact ⟨before, after ++ [.insert k'], by simp, by simp [kept], returned⟩
    · exact ⟨calls, [], rfl, by simp, returned⟩

theorem runTable_append (calls : List TableCall) (call : TableCall) :
    runTable hash ft (calls ++ [call]) = call.exec hash (runTable hash ft calls) := by
  simp [runTable]

theorem lookup_run (inv : TableInv hash ft j) (empty : ft.ent = fun _ => FlowEnt.zero) (calls : List TableCall) :
    (∃ i, hashedLookup hash (runTable hash ft calls) k = some i) ↔ Inserted hash ft calls k := by
  induction calls using List.reverseRecOn with
  | nil =>
    refine iff_of_false ?_ inserted_nil
    rintro ⟨i, found⟩
    have used := (inv.lookup_iff.mp found).1
    rw [empty] at used
    cases used
  | append_singleton calls call ih =>
    rw [runTable_append]
    cases call with
    | insert k' =>
      rw [inserted_insert, ← ih]
      exact lookup_insert (inv.run calls) k'
    | flush =>
      refine iff_of_false ?_ (inserted_flush calls)
      rintro ⟨i, found⟩
      cases ((inv.run calls).flush.lookup_iff.mp found).1

/-- For any hash, after any calls: a key is found exactly when it was inserted since the
last flush, in the one slot that holds it; `count` counts the slots in use; and an
insertion fails only when every slot holds another key. -/
theorem flow_table_is_map (slots : UInt32) (ft : FlowTable) (init : dpFlowInit true slots = some (ft, .ok))
    (hash : FlowKey → UInt32) (calls : List TableCall) :
    let now := runTable hash ft calls
    (∃ j, now.slots.toNat = 2 ^ j) ∧
    (∀ k, (∃ i, hashedLookup hash now k = some i) ↔ Inserted hash ft calls k) ∧
    (∀ k i, hashedLookup hash now k = some i →
      (i < now.slots.toNat ∧ (now.ent i).used = true ∧ (now.ent i).key = k) ∧
        ∀ l, (now.ent l).used = true → (now.ent l).key = k → l = i) ∧
    now.count.toNat = now.occupied.card ∧
    (∀ k, (hashedInsert hash now k).2 = none →
      ∀ i < now.slots.toNat, (now.ent i).used = true ∧ (now.ent i).key ≠ k) := by
  obtain ⟨j, fresh⟩ := init_fresh init
  have start : TableInv hash ft j := fresh.inv
  have inv := start.run calls
  intro now
  refine ⟨⟨j, inv.size⟩, fun k => lookup_run start fresh.empty calls, fun k i found => ?_, inv.count,
    fun k failed i inside => ?_⟩
  · have held := inv.lookup_iff.mp found
    refine ⟨⟨?_, held⟩, fun l used key => ?_⟩
    · exact Scheme.probeFrom_within inv.covers.1 (.inl (lookup_eq_some.mp found))
    · have other : hashedLookup hash now k = some l := inv.lookup_iff.mpr ⟨used, key⟩
      rw [found] at other
      exact (Option.some.inj other).symm
  · rcases insert_cases hash now k with ⟨_, -, result⟩ | ⟨_, -, result⟩ | ⟨full, -⟩
    · rw [result] at failed
      cases failed
    · rw [result] at failed
      cases failed
    · exact inv.covers.full full inside

/-- Two keys of one home slot in a table of two slots. -/
theorem flow_table_two_slots :
    let ft : FlowTable := ⟨fun _ => FlowEnt.zero, 2, 1, 0⟩
    let calls : List TableCall := [.insert FlowKey.zero, .insert ⟨1, 1, 1, 1, 6, 1⟩]
    (∃ i, hashedLookup (fun _ => 7) (runTable (fun _ => 7) ft calls) ⟨1, 1, 1, 1, 6, 1⟩ = some i) ∧
      Inserted (fun _ => 7) ft calls ⟨1, 1, 1, 1, 6, 1⟩ := by
  intro ft calls
  have found : hashedLookup (fun _ => 7) (runTable (fun _ => 7) ft calls) ⟨1, 1, 1, 1, 6, 1⟩ = some 0 := by decide
  exact ⟨⟨0, found⟩, ((flow_table_is_map 2 ft rfl (fun _ => 7) calls).2.1 _).mp ⟨0, found⟩⟩

end FfnNgfw.Portable
