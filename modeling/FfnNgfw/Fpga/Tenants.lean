import FfnNgfw.Fpga.Compiler
import Mathlib.Data.List.Dedup
import Mathlib.Data.List.Induction
import Mathlib.Tactic.Common

/-!
# Databases of different virtual systems

`do_load` gives each vsys 256 indices of the policy table and 40 KB of a region, and
bounds neither a rulebase nor a payload by it. Indices wrap around at 16 bits. The bloom
filter beside a region is one for all. What two loads write is apart exactly when the
two stretches do not meet.
-/

namespace FfnNgfw.Fpga

/-! ### What a load writes -/

inductive Cell where
  | word (table index : Nat)
  | byte (region addr : Nat)
  deriving DecidableEq

def Ioctl.covers : Ioctl → Cell → Prop
  | .word t i _, .word t' i' => t' = t ∧ i' = i
  | .bytes r offset data, .byte r' a => r' = r ∧ offset ≤ a ∧ a < offset + data.length
  | _, _ => False

def Touches (log : List Ioctl) (cell : Cell) : Prop := ∃ io ∈ log, io.covers cell

variable {cell : Cell} {bits : List Nat} {table region : Nat}

theorem touches_append {log log' : List Ioctl} :
    Touches (log ++ log') cell ↔ Touches log cell ∨ Touches log' cell := by
  simp only [Touches, List.mem_append, or_and_right, exists_or]

theorem touches_nil : ¬ Touches [] cell := by
  rintro ⟨io, member, -⟩
  cases member

theorem touches_cons {io : Ioctl} {log : List Ioctl} :
    Touches (io :: log) cell ↔ io.covers cell ∨ Touches log cell := by
  simp only [Touches, List.mem_cons, exists_eq_or_imp]

theorem covers_word {table index data : Nat} :
    (Ioctl.word table index data).covers cell ↔ cell = .word table index := by
  cases cell <;> simp [Ioctl.covers]

theorem covers_bytes {region offset : Nat} {data : List UInt8} :
    (Ioctl.bytes region offset data).covers cell ↔
      ∃ a, cell = .byte region a ∧ offset ≤ a ∧ a < offset + data.length := by
  cases cell with
  | word t i => simp [Ioctl.covers]
  | byte r a =>
    simp only [Ioctl.covers, Cell.byte.injEq]
    constructor
    · rintro ⟨rfl, low, high⟩
      exact ⟨a, ⟨rfl, rfl⟩, low, high⟩
    · rintro ⟨_, ⟨rfl, rfl⟩, low, high⟩
      exact ⟨rfl, low, high⟩

theorem touches_chunks {region offset fuel : Nat} {payload : List UInt8} {log : List Ioctl}
    (enough : payload.length ≤ fuel) (written : writeChunks region offset fuel payload = some log) :
    Touches log cell ↔ ∃ a, cell = .byte region a ∧ offset ≤ a ∧ a < offset + payload.length := by
  induction fuel generalizing offset payload log with
  | zero =>
    obtain rfl : payload = [] := List.length_eq_zero_iff.mp (Nat.le_zero.mp enough)
    obtain rfl : [] = log := Option.some.inj written
    refine iff_of_false touches_nil ?_
    rintro ⟨a, -, low, high⟩
    exact absurd high (Nat.not_lt.mpr low)
  | succ fuel ih =>
    by_cases empty : payload = []
    · subst empty
      obtain rfl : [] = log := Option.some.inj written
      refine iff_of_false touches_nil ?_
      rintro ⟨a, -, low, high⟩
      exact absurd high (Nat.not_lt.mpr low)
    · obtain ⟨-, rest, rfl, more⟩ := writeChunks_cons empty written
      obtain ⟨whole, positive⟩ := length_chunk payload
      have positive := positive empty
      rw [touches_cons, covers_bytes, ih (by omega) more]
      constructor
      · rintro (⟨a, rfl, low, high⟩ | ⟨a, rfl, low, high⟩)
        · exact ⟨a, rfl, low, by omega⟩
        · exact ⟨a, rfl, by omega, by omega⟩
      · rintro ⟨a, rfl, low, high⟩
        by_cases first : a < offset + (payload.take chunkSize).length
        · exact .inl ⟨a, rfl, low, first⟩
        · exact .inr ⟨a, rfl, by omega, by omega⟩

theorem policyEntries_indices (lines : List PolicyLine) :
    (policyEntries lines).map Prod.fst = List.range (2 * lines.length) := by
  induction lines using List.reverseRecOn with
  | nil => rfl
  | append_singleton lines r ih =>
    have count : (policyEntries lines).length = 2 * lines.length := by
      rw [← List.length_map Prod.fst, ih, List.length_range]
    have step : policyEntries (lines ++ [r]) =
        policyEntries lines ++ [((policyEntries lines).length / 2 * 2, r.matchWord),
          ((policyEntries lines).length / 2 * 2 + 1, r.metaWord)] := by
      rw [policyEntries, List.foldl_append]
      rfl
    have base : 2 * lines.length / 2 * 2 = 2 * lines.length := by omega
    rw [step, List.map_append, ih, count, base, List.length_append, List.length_singleton, Nat.mul_add, Nat.mul_one,
      List.range_succ, List.range_succ, List.append_assoc]
    rfl

theorem policyEntries_length (lines : List PolicyLine) : (policyEntries lines).length = 2 * lines.length := by
  rw [← List.length_map Prod.fst, policyEntries_indices, List.length_range]

theorem mapM_some {α β : Type} {f : α → Option β} {xs : List α} {ys : List β} (h : xs.mapM f = some ys) {x : α}
    (member : x ∈ xs) : ∃ y, f x = some y := by
  induction xs generalizing ys with
  | nil => cases member
  | cons a xs ih =>
    simp only [List.mapM_cons, Option.bind_eq_bind, Option.bind_eq_some_iff] at h
    obtain ⟨y, first, zs, rest, -⟩ := h
    rcases List.mem_cons.mp member with rfl | later
    · exact ⟨y, first⟩
    · exact ih rest later

theorem compilePolicy_bound {lines : List PolicyLine} {entries : List (Nat × Nat)} {payload : List UInt8}
    (compiled : compilePolicy lines = some (entries, payload)) :
    entries = policyEntries lines ∧ entries.length ≤ 65536 := by
  rw [compilePolicy, Option.map_eq_some_iff] at compiled
  obtain ⟨packed, packs, same⟩ := compiled
  obtain ⟨rfl, -⟩ := Prod.mk.inj same
  refine ⟨rfl, Nat.le_of_not_lt fun excess => ?_⟩
  -- The last index would not fit in 16 bits.
  rw [policyEntries_length] at excess
  have last : 65536 ∈ (policyEntries lines).map Prod.fst := by
    rw [policyEntries_indices, List.mem_range]
    exact excess
  obtain ⟨⟨idx, data⟩, member, rfl⟩ := List.mem_map.mp last
  obtain ⟨bytes, fits⟩ := mapM_some packs member
  simp [packHQ] at fits

theorem loadBram_policy (entries : List (Nat × Nat)) (vsys : Nat) :
    loadBramEntries .policy tblTcamPolicy entries vsys = entries.map fun e =>
      ipCfgWrite tblTcamPolicy (e.1 + vsys * 256) (e.2 &&& 0xFFFFFFFF) ((e.2 >>> 32) &&& 0xFFFFFFFF) := by
  have table : tblTcamPolicy ∈ ipCfgTables := by decide
  by_cases global : vsys = 0
  · subst global
    simp [loadBramEntries, table]
  · simp [loadBramEntries, table, Nat.pos_of_ne_zero global]

theorem touches_policy {lines : List PolicyLine} {vsys : Nat} :
    Touches (loadBramEntries .policy tblTcamPolicy (policyEntries lines) vsys) cell ↔
      ∃ k < (policyEntries lines).length, cell = .word tblTcamPolicy ((k + vsys * 256) % 65536) := by
  rw [loadBram_policy, policyEntries_length]
  constructor
  · rintro ⟨io, written, covers⟩
    obtain ⟨entry, member, rfl⟩ := List.mem_map.mp written
    have index : entry.1 ∈ (policyEntries lines).map Prod.fst := List.mem_map_of_mem member
    rw [policyEntries_indices, List.mem_range] at index
    exact ⟨entry.1, index, covers_word.mp covers⟩
  · rintro ⟨k, low, rfl⟩
    have index : k ∈ (policyEntries lines).map Prod.fst := by
      rw [policyEntries_indices, List.mem_range]
      exact low
    obtain ⟨entry, member, rfl⟩ := List.mem_map.mp index
    exact ⟨_, List.mem_map_of_mem member, covers_word.mpr rfl⟩

/-! ### Bloom words -/

def DbType.filterTable (db : DbType) : Option Nat :=
  db.bloom.map fun table => if table ∈ ipCfgTables then table else tblBloomProgram

theorem mem_bloomWords {w : Nat} : w ∈ bloomWords bits ↔ ∃ b ∈ bits, b / 64 = w := by
  rw [bloomWords, List.mem_insertionSort, List.mem_dedup, List.mem_map]

theorem bloomWord_testBit (bits : List Nat) (w i : Nat) :
    (bloomWord bits w).testBit i = true ↔ ∃ b ∈ bits, b / 64 = w ∧ b % 64 = i := by
  have fold : ∀ data, (bits.foldl (fun data b => if b / 64 = w then data ||| 1 <<< (b % 64) else data) data).testBit i = true ↔
      data.testBit i = true ∨ ∃ b ∈ bits, b / 64 = w ∧ b % 64 = i := by
    induction bits with
    | nil => simp
    | cons b bits ih =>
      intro data
      rw [List.foldl_cons, ih]
      by_cases here : b / 64 = w
      · simp [here, Nat.testBit_or, Nat.one_shiftLeft, Nat.testBit_two_pow, or_assoc]
      · simp [here]
  simpa [bloomWord] using fold 0

theorem bloomWord_lt (bits : List Nat) (w : Nat) : bloomWord bits w < 2 ^ 64 := by
  apply Nat.lt_pow_two_of_testBit
  intro i high
  apply Bool.eq_false_iff.mpr
  intro set
  obtain ⟨b, -, -, rfl⟩ := (bloomWord_testBit bits w i).mp set
  omega

theorem word_halves {data : Nat} (small : data < 2 ^ 64) :
    (data &&& 0xFFFFFFFF) % 2 ^ 32 + ((data >>> 32) &&& 0xFFFFFFFF) % 2 ^ 32 * 2 ^ 32 = data := by
  have mask : ∀ n, n &&& 0xFFFFFFFF = n % 2 ^ 32 := fun n => Nat.and_two_pow_sub_one_eq_mod n 32
  rw [mask, mask, Nat.shiftRight_eq_div_pow]
  omega

theorem loadBloomFilter_eq {db : DbType} (filter : db.filterTable = some table) (bits : List Nat) :
    loadBloomFilter db bits = (bloomWords bits).map fun w => .word table (w % 65536) (bloomWord bits w) := by
  rw [DbType.filterTable, Option.map_eq_some_iff] at filter
  obtain ⟨bloom, same, target⟩ := filter
  simp only [loadBloomFilter, same]
  apply List.map_congr_left
  intro w _
  have small := bloomWord_lt bits w
  split at target
  · rename_i config
    subst target
    rw [if_pos config, ipCfgWrite, word_halves small]
  · rename_i plain
    subst target
    rw [if_neg plain, tblWrite, Nat.mod_eq_of_lt small]

theorem loadBloomFilter_none {db : DbType} (without : db.filterTable = none) (bits : List Nat) :
    loadBloomFilter db bits = [] := by
  rw [DbType.filterTable, Option.map_eq_none_iff] at without
  simp only [loadBloomFilter, without]

theorem bloomWords_small (small : ∀ b ∈ bits, b < bloomFilterBits) {w : Nat} (member : w ∈ bloomWords bits) :
    w % 65536 = w := by
  obtain ⟨b, inside, rfl⟩ := mem_bloomWords.mp member
  have bound : b < 65536 := small b inside
  omega

theorem touches_bloom {db : DbType} (small : ∀ b ∈ bits, b < bloomFilterBits) :
    Touches (loadBloomFilter db bits) cell ↔
      ∃ table, db.filterTable = some table ∧ ∃ b ∈ bits, cell = .word table (b / 64) := by
  cases filter : db.filterTable with
  | none =>
    rw [loadBloomFilter_none filter]
    simp [Touches]
  | some table =>
    rw [loadBloomFilter_eq filter]
    constructor
    · rintro ⟨io, written, covers⟩
      obtain ⟨w, member, rfl⟩ := List.mem_map.mp written
      rw [covers_word, bloomWords_small small member] at covers
      obtain ⟨b, inside, rfl⟩ := mem_bloomWords.mp member
      exact ⟨table, rfl, b, inside, covers⟩
    · rintro ⟨_, same, b, inside, rfl⟩
      obtain rfl := Option.some.inj same
      have member : b / 64 ∈ bloomWords bits := mem_bloomWords.mpr ⟨b, inside, rfl⟩
      refine ⟨_, List.mem_map_of_mem member, ?_⟩
      rw [covers_word, bloomWords_small small member]

/-- How many indices lie from `a` up to `b`, around the end of the table. -/
def around (a b : Nat) : Nat := (b + (65536 - a % 65536)) % 65536

theorem arcs_apart_iff {a b m n : Nat} (some' : 0 < m) (other : 0 < n) :
    (∀ k < m, ∀ l < n, (k + a) % 65536 ≠ (l + b) % 65536) ↔ m ≤ around a b ∧ n ≤ around b a := by
  unfold around
  constructor
  · intro apart
    constructor
    · apply Nat.le_of_not_lt
      intro reaches
      exact apart _ reaches 0 other (by omega)
    · apply Nat.le_of_not_lt
      intro reaches
      exact apart 0 some' _ reaches (by omega)
  · rintro ⟨first, second⟩ k low l low' same
    omega

/-! ### Two loads -/

/-- What the compilers give `do_load` for a policy or for a region. The bits of a bloom
filter come with the types that have one. -/
inductive Accepted : DbType → Compiled → Prop where
  | policy {lines : List PolicyLine} {entries : List (Nat × Nat)} {payload : List UInt8}
      (compiled : compilePolicy lines = some (entries, payload)) : Accepted .policy (.words entries)
  | ddr {db : DbType} {region : Nat} {entries : List (List UInt8)} {bloomBits : Option (List Nat)}
      (target : db.ddr = some region) (filter : bloomBits.isSome = db.bloom.isSome)
      (small : ∀ b ∈ bloomBits.getD [], b < bloomFilterBits) : Accepted db (.records entries bloomBits)

/-- The two stretches of the policy table or of the region do not meet, nor do the words
of the filter. -/
def Apart (c : Compiled) (u : Nat) (c' : Compiled) (v : Nat) : Prop :=
  match c, c' with
  | .words entries, .words entries' =>
    entries = [] ∨ entries' = [] ∨
      (entries.length ≤ around (u * 256) (v * 256) ∧ entries'.length ≤ around (v * 256) (u * 256))
  | .records _ _, .records _ _ =>
    (c.payload = [] ∨ c'.payload = [] ∨ u * vsysSlot + c.payload.length ≤ v * vsysSlot ∨
      v * vsysSlot + c'.payload.length ≤ u * vsysSlot) ∧
    ∀ b ∈ c.bits, ∀ b' ∈ c'.bits, b / 64 ≠ b' / 64
  | _, _ => True

theorem ddrOffset_eq (vsys : Nat) : ddrOffset vsys = vsys * vsysSlot := by
  by_cases global : vsys = 0
  · simp [ddrOffset, global]
  · rw [ddrOffset, if_pos (Nat.pos_of_ne_zero global)]

theorem ddr_bram {db : DbType} (target : db.ddr = some region) : db.bram = none := by
  cases db <;> first | rfl | cases target

theorem touches_load {db : DbType} {c : Compiled} {vsys : Nat} {log : List Ioctl} (accepted : Accepted db c)
    (loaded : loadIoctls db c vsys = some log) (cell : Cell) :
    Touches log cell ↔
      (db = .policy ∧ ∃ entries, c = .words entries ∧
        ∃ k < entries.length, cell = .word tblTcamPolicy ((k + vsys * 256) % 65536)) ∨
      (∃ region a, db.ddr = some region ∧ cell = .byte region a ∧ vsys * vsysSlot ≤ a ∧
        a < vsys * vsysSlot + c.payload.length) ∨
      (∃ table, db.filterTable = some table ∧ ∃ b ∈ c.bits, cell = .word table (b / 64)) := by
  cases accepted with
  | @policy lines entries payload compiled =>
    obtain ⟨rfl, -⟩ := compilePolicy_bound compiled
    obtain rfl : loadBramEntries .policy tblTcamPolicy (policyEntries lines) vsys = log := Option.some.inj loaded
    rw [touches_policy]
    simp [DbType.ddr, DbType.filterTable, DbType.bloom]
  | @ddr db region entries bloomBits target filter small =>
    have other : db ≠ .policy := by
      rintro rfl
      cases target
    simp only [loadIoctls, ddr_bram target, target, Option.bind_eq_bind, Option.bind_eq_some_iff, Option.pure_def,
      Option.some.injEq] at loaded
    obtain ⟨bytes, written, rfl⟩ := loaded
    rw [loadDdr4Payload, writePayload, ddrOffset_eq] at written
    have bits : (bloomBits.map (loadBloomFilter db)).getD [] = loadBloomFilter db (bloomBits.getD []) := by
      cases bloomBits with
      | none =>
        have without : db.bloom = none := by simpa using filter.symm
        simp [loadBloomFilter, without]
      | some bits => rfl
    rw [touches_append, touches_chunks (Nat.le_refl _) written, bits, touches_bloom small]
    simp [target, other, Compiled.bits]

theorem ddr_injective {db db' : DbType} (target : db.ddr = some region) (target' : db'.ddr = some region) :
    db = db' := by
  cases db <;> cases target <;> cases db' <;> first | rfl | cases target'

theorem filterTable_cases {db : DbType} (filter : db.filterTable = some table) :
    (db, table) ∈ [(.threats, 0x10), (.url, 0x12), (.blocklist, tblBloomProgram), (.dnsBlocklist, 0x13)] := by
  cases db <;> cases filter <;> decide

theorem filterTable_injective {db db' : DbType} (filter : db.filterTable = some table)
    (filter' : db'.filterTable = some table) : db = db' := by
  have first := filterTable_cases filter
  have second := filterTable_cases filter'
  simp only [List.mem_cons, Prod.mk.injEq, List.not_mem_nil, or_false, tblBloomProgram] at first second
  rcases first with ⟨rfl, rfl⟩ | ⟨rfl, rfl⟩ | ⟨rfl, rfl⟩ | ⟨rfl, rfl⟩
  all_goals simpa [eq_comm] using second

theorem filterTable_ne {db : DbType} : db.filterTable ≠ some tblTcamPolicy := by
  intro filter
  have := filterTable_cases filter
  revert this
  simp [tblTcamPolicy, tblBloomProgram]

theorem Accepted.ddr_or_policy {db : DbType} {c : Compiled} (accepted : Accepted db c) :
    (∃ lines entries payload, db = .policy ∧ c = .words entries ∧ compilePolicy lines = some (entries, payload)) ∨
      ∃ region entries bits, db.ddr = some region ∧ c = .records entries bits := by
  cases accepted with
  | policy compiled => exact .inl ⟨_, _, _, rfl, rfl, compiled⟩
  | ddr target _ _ => exact .inr ⟨_, _, _, target, rfl⟩

theorem Accepted.filterTable {db : DbType} {c : Compiled} (accepted : Accepted db c) {b : Nat} (inside : b ∈ c.bits) :
    ∃ table, db.filterTable = some table := by
  cases accepted with
  | policy compiled => cases inside
  | @ddr _ _ _ bloomBits _ filter _ =>
    cases bloomBits with
    | none => cases inside
    | some bits =>
      obtain ⟨table, found⟩ := Option.isSome_iff_exists.mp filter.symm
      exact ⟨_, by rw [DbType.filterTable, found]; rfl⟩

section apart

variable {db db' : DbType} {c c' : Compiled} {u v : Nat} {log log' : List Ioctl}

theorem types_apart (accepted : Accepted db c) (accepted' : Accepted db' c') (loaded : loadIoctls db c u = some log)
    (loaded' : loadIoctls db' c' v = some log') (other : db ≠ db') (cell : Cell) :
    ¬ (Touches log cell ∧ Touches log' cell) := by
  rw [touches_load accepted loaded, touches_load accepted' loaded']
  rintro ⟨⟨rfl, _, -, k, -, rfl⟩ | ⟨region, a, target, rfl, -⟩ | ⟨table, filter, b, -, rfl⟩,
    ⟨rfl, _, -, k', -, same⟩ | ⟨region', a', target', same, -⟩ | ⟨table', filter', b', -, same⟩⟩
  · exact other rfl
  · cases same
  · obtain ⟨rfl, -⟩ := Cell.word.inj same
    exact filterTable_ne filter'
  · cases same
  · obtain ⟨rfl, -⟩ := Cell.byte.inj same
    exact other (ddr_injective target target')
  · cases same
  · obtain ⟨rfl, -⟩ := Cell.word.inj same
    exact filterTable_ne filter
  · cases same
  · obtain ⟨rfl, -⟩ := Cell.word.inj same
    exact other (filterTable_injective filter filter')

theorem policies_apart {entries entries' : List (Nat × Nat)} (accepted : Accepted .policy (.words entries))
    (accepted' : Accepted .policy (.words entries')) (loaded : loadIoctls .policy (.words entries) u = some log)
    (loaded' : loadIoctls .policy (.words entries') v = some log') :
    (∀ cell, ¬ (Touches log cell ∧ Touches log' cell)) ↔ Apart (.words entries) u (.words entries') v := by
  have touches : ∀ {es : List (Nat × Nat)} {vsys : Nat} {written : List Ioctl} {cell : Cell}, Accepted .policy (.words es) →
      loadIoctls .policy (.words es) vsys = some written →
      (Touches written cell ↔ ∃ k < es.length, cell = .word tblTcamPolicy ((k + vsys * 256) % 65536)) := by
    intro es vsys written cell accepted loaded
    rw [touches_load accepted loaded]
    simp [DbType.ddr, DbType.filterTable, DbType.bloom]
  simp only [touches accepted loaded, touches accepted' loaded', Apart]
  by_cases none' : entries = []
  · simp [none']
  by_cases none'' : entries' = []
  · simp [none'']
  simp only [none', none'', false_or]
  rw [← arcs_apart_iff (List.length_pos_of_ne_nil none') (List.length_pos_of_ne_nil none'')]
  constructor
  · intro apart k low l low' same
    exact apart _ ⟨⟨k, low, rfl⟩, l, low', by rw [same]⟩
  · rintro apart cell ⟨⟨k, low, rfl⟩, l, low', same⟩
    exact apart k low l low' (Cell.word.inj same).2

theorem regions_apart {entries entries' : List (List UInt8)} {bits bits' : Option (List Nat)} {region : Nat}
    (target : db.ddr = some region) (accepted : Accepted db (.records entries bits))
    (accepted' : Accepted db (.records entries' bits')) (loaded : loadIoctls db (.records entries bits) u = some log)
    (loaded' : loadIoctls db (.records entries' bits') v = some log') :
    (∀ cell, ¬ (Touches log cell ∧ Touches log' cell)) ↔ Apart (.records entries bits) u (.records entries' bits') v := by
  have plain : db ≠ .policy := by
    rintro rfl
    cases target
  simp only [touches_load accepted loaded, touches_load accepted' loaded', Apart, plain, false_and, false_or]
  have filtered : ∀ b ∈ (Compiled.records entries bits).bits, ∃ table, db.filterTable = some table :=
    fun _ => accepted.filterTable
  generalize Compiled.records entries bits = c at *
  generalize Compiled.records entries' bits' = c' at *
  constructor
  · intro apart
    refine ⟨?_, fun b inside b' inside' same => ?_⟩
    · by_contra meets
      simp only [not_or, ← List.length_pos_iff_ne_nil, Nat.not_le] at meets
      obtain ⟨some', other, first, second⟩ := meets
      -- The later of the two starts belongs to both stretches.
      exact apart (.byte region (max (u * vsysSlot) (v * vsysSlot)))
        ⟨.inl ⟨region, _, target, rfl, by omega, by omega⟩, .inl ⟨region, _, target, rfl, by omega, by omega⟩⟩
    · obtain ⟨table, filter⟩ := filtered b inside
      exact apart (.word table (b / 64))
        ⟨.inr ⟨table, filter, b, inside, rfl⟩, .inr ⟨table, filter, b', inside', by rw [same]⟩⟩
  · rintro ⟨bytes, words⟩ cell ⟨⟨r, a, -, rfl, low, high⟩ | ⟨t, filter, b, inside, rfl⟩,
      ⟨r', a', -, same, low', high'⟩ | ⟨t', filter', b', inside', same⟩⟩
    · obtain ⟨-, rfl⟩ := Cell.byte.inj same
      rcases bytes with none' | none' | before | after
      · simp only [none', List.length_nil] at high
        omega
      · simp only [none', List.length_nil] at high'
        omega
      · omega
      · omega
    · cases same
    · cases same
    · exact words b inside b' inside' (Cell.word.inj same).2

end apart

/-- What two loads write is apart exactly when, for one type of database, the stretches
of the table or of the region do not meet and no word of the filter is used by both. -/
theorem tenants_apart_iff {db db' : DbType} {c c' : Compiled} {u v : Nat} {log log' : List Ioctl}
    (accepted : Accepted db c) (accepted' : Accepted db' c') (loaded : loadIoctls db c u = some log)
    (loaded' : loadIoctls db' c' v = some log') :
    (∀ cell, ¬ (Touches log cell ∧ Touches log' cell)) ↔ (db = db' → Apart c u c' v) := by
  by_cases same : db = db'
  · subst same
    simp only [true_implies]
    rcases accepted.ddr_or_policy with ⟨-, entries, -, rfl, rfl, -⟩ | ⟨region, entries, bits, target, rfl⟩
    · rcases accepted'.ddr_or_policy with ⟨-, entries', -, -, rfl, -⟩ | ⟨_, _, _, target, -⟩
      · exact policies_apart accepted accepted' loaded loaded'
      · cases target
    · rcases accepted'.ddr_or_policy with ⟨-, _, -, rfl, -, -⟩ | ⟨_, entries', bits', -, rfl⟩
      · cases target
      · exact regions_apart target accepted accepted' loaded loaded'
  · exact iff_of_true (types_apart accepted accepted' loaded loaded' same) fun eq => absurd eq same

def anyRule : PolicyLine := ⟨1, 0, 0, 0, 0, 0, none, none, .allow⟩

/-- The rules of vsys 1 and of vsys 2, one each. -/
theorem tenants_apart_one_rule :
    let entries := policyEntries [anyRule]
    ∀ cell, ¬ (Touches (loadBramEntries .policy tblTcamPolicy entries 1) cell ∧
      Touches (loadBramEntries .policy tblTcamPolicy entries 2) cell) := by
  intro entries
  have accepted : Accepted .policy (.words entries) := @Accepted.policy [anyRule] _ _ rfl
  exact (tenants_apart_iff accepted accepted rfl rfl).mpr fun _ => .inr (.inr (by decide))

/-- The 129th global rule lies where the first rule of vsys 1 does. -/
theorem global_rules_overrun :
    ¬ ∀ (db db' : DbType) (c c' : Compiled) (u v : Nat) (log log' : List Ioctl), u ≠ v → Accepted db c → Accepted db' c' →
      loadIoctls db c u = some log → loadIoctls db' c' v = some log' → ∀ cell, ¬ (Touches log cell ∧ Touches log' cell) := by
  intro all
  have many : (compilePolicy (List.replicate 129 anyRule)).isSome = true := by decide +kernel
  have one : (compilePolicy [anyRule]).isSome = true := by decide +kernel
  obtain ⟨⟨entries, payload⟩, compiled⟩ := Option.isSome_iff_exists.mp many
  obtain ⟨⟨entries', payload'⟩, compiled'⟩ := Option.isSome_iff_exists.mp one
  obtain ⟨same, -⟩ := compilePolicy_bound compiled
  obtain ⟨same', -⟩ := compilePolicy_bound compiled'
  have last : Touches (loadBramEntries .policy tblTcamPolicy entries 0) (.word tblTcamPolicy 256) := by
    rw [same, touches_policy, policyEntries_length, List.length_replicate]
    exact ⟨256, by decide, rfl⟩
  have first : Touches (loadBramEntries .policy tblTcamPolicy entries' 1) (.word tblTcamPolicy 256) := by
    rw [same', touches_policy, policyEntries_length]
    exact ⟨0, by decide, rfl⟩
  exact all .policy .policy (.words entries) (.words entries') 0 1 _ _ (by decide) (.policy compiled) (.policy compiled') rfl rfl _
    ⟨last, first⟩

end FfnNgfw.Fpga
