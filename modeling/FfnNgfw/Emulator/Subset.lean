import FfnNgfw.Emulator.Dfa
import FfnNgfw.Emulator.Fragments

/-!
# What the tables say

Every row of a finished table belongs to a set of states of the automaton that is closed under
silent moves, and leads to the set after one byte more. So walking the table is walking all
paths of the automaton at once, and the walk stops at the longest word that is accepted.
-/

namespace FfnNgfw.Emulator

variable {nfa : Nfa} {cur : List Nat} {s a q : Nat} {b : UInt8} {w : List UInt8}

theorem silent_path {p q : Nat} : nfa.moves.Path p [] q ↔ Relation.ReflTransGen (fun x y => y ∈ nfa.eps x) p q := by
  constructor
  · intro path
    generalize word : ([] : List UInt8) = w at path
    induction path with
    | nil => exact .refl
    | silent move _ ih => exact .head move (ih word)
    | read => cases word
  · intro path
    induction path using Relation.ReflTransGen.head_induction_on with
    | refl => exact .nil q
    | head move _ ih => exact .silent move ih

def Shut (nfa : Nfa) (cur : List Nat) : Prop := ∀ p ∈ cur, ∀ q, nfa.moves.Path p [] q → q ∈ cur

theorem mem_epsClosure {states : List Nat} (wf : nfa.Wf) (distinct : states.Nodup) (inside : ∀ q ∈ states, q < nfa.size) :
    q ∈ epsClosure nfa states ↔ ∃ p ∈ states, nfa.moves.Path p [] q := by
  have found : q ∈ Worklist.explore nfa.eps nfa.size states states ↔ Worklist.Reach nfa.eps states q := by
    have within : ∀ q ∈ states, q ∈ List.range nfa.size := fun q member => List.mem_range.mpr (inside q member)
    have closed : ∀ q ∈ List.range nfa.size, ∀ t ∈ nfa.eps q, t ∈ List.range nfa.size :=
        fun q _ t move => List.mem_range.mpr (wf.eps q t move).2
    exact Worklist.mem_explore distinct within closed (Nat.le_of_eq List.length_range)
  rw [epsClosure, List.mem_filter, decide_eq_true_eq, found]
  constructor
  · rintro ⟨-, p, member, path⟩
    exact ⟨p, member, silent_path.mpr path⟩
  · rintro ⟨p, member, path⟩
    refine ⟨?_, p, member, silent_path.mp path⟩
    rw [List.mem_range]
    cases (silent_path.mp path).cases_tail with
    | inl same =>
      rw [same]
      exact inside p member
    | inr last =>
      obtain ⟨_, -, move⟩ := last
      exact (wf.eps _ _ move).2

theorem epsClosure_shut {states : List Nat} (wf : nfa.Wf) (distinct : states.Nodup) (inside : ∀ q ∈ states, q < nfa.size) :
    Shut nfa (epsClosure nfa states) := by
  intro p member q path
  obtain ⟨r, start, before⟩ := (mem_epsClosure wf distinct inside).mp member
  exact (mem_epsClosure wf distinct inside).mpr ⟨r, start, before.trans path⟩

/-! ### One byte -/

variable {x : Int} {order order' : List (List Nat)} {row : List Int} {maxStates : Nat}

theorem mem_bytesOf : x ∈ bytesOf nfa cur ↔ ∃ p ∈ cur, ∃ bs t, (bs, t) ∈ nfa.sym p ∧ x ∈ bs := by
  simp only [bytesOf, List.mem_dedup, List.mem_flatMap, Prod.exists]

theorem mem_targets {t : Nat} : t ∈ targets nfa cur x ↔ ∃ p ∈ cur, ∃ bs, (bs, t) ∈ nfa.sym p ∧ x ∈ bs := by
  rw [targets, List.mem_dedup, List.mem_flatMap]
  refine exists_congr fun p => and_congr_right fun _ => ?_
  rw [List.mem_filterMap]
  constructor
  · rintro ⟨⟨bs, t'⟩, member, same⟩
    dsimp only at same
    split at same
    · cases same
      exact ⟨bs, member, by assumption⟩
    · cases same
  · rintro ⟨bs, member, inside⟩
    exact ⟨(bs, t), member, if_pos inside⟩

def after (nfa : Nfa) (cur : List Nat) (x : Int) : List Nat := epsClosure nfa (targets nfa cur x)

theorem targets_inside (wf : nfa.Wf) : ∀ t ∈ targets nfa cur x, t < nfa.size := by
  intro t member
  obtain ⟨p, -, bs, listed, -⟩ := mem_targets.mp member
  exact (wf.sym p bs t listed).2

theorem after_shut (wf : nfa.Wf) : Shut nfa (after nfa cur x) := epsClosure_shut wf (List.nodup_dedup _) (targets_inside wf)

/-- The words from the set to the state `q`. -/
def Leads (nfa : Nfa) (cur : List Nat) (w : List UInt8) (q : Nat) : Prop := ∃ p ∈ cur, nfa.moves.Path p w q

theorem leads_nil (shut : Shut nfa cur) : Leads nfa cur [] q ↔ q ∈ cur := by
  constructor
  · rintro ⟨p, member, path⟩
    exact shut p member q path
  · exact fun member => ⟨q, member, .nil q⟩

theorem path_cons {p : Nat} (path : nfa.moves.Path p (b :: w) q) :
    ∃ p' t, nfa.moves.Path p [] p' ∧ nfa.moves.read p' b t ∧ nfa.moves.Path t w q := by
  generalize word : b :: w = v at path
  induction path with
  | nil => cases word
  | silent move _ ih =>
    obtain ⟨p', t, front, read, back⟩ := ih word
    exact ⟨p', t, .silent move front, read, back⟩
  | @read p t q b' v move rest =>
    obtain ⟨rfl, rfl⟩ := List.cons.inj word
    exact ⟨p, t, .nil p, move, rest⟩

theorem leads_cons (wf : nfa.Wf) (shut : Shut nfa cur) : Leads nfa cur (b :: w) q ↔ Leads nfa (after nfa cur b.toNat) w q := by
  constructor
  · rintro ⟨p, member, path⟩
    obtain ⟨p', t, front, ⟨bs, listed, inside⟩, back⟩ := path_cons path
    have target : t ∈ targets nfa cur b.toNat := mem_targets.mpr ⟨p', shut p member p' front, bs, listed, inside⟩
    exact ⟨t, (mem_epsClosure wf (List.nodup_dedup _) (targets_inside wf)).mpr ⟨t, target, .nil t⟩, back⟩
  · rintro ⟨t, member, path⟩
    obtain ⟨r, target, silent⟩ := (mem_epsClosure wf (List.nodup_dedup _) (targets_inside wf)).mp member
    obtain ⟨p, member', bs, listed, inside⟩ := mem_targets.mp target
    exact ⟨p, member', .read ⟨bs, listed, inside⟩ (silent.trans path)⟩

theorem after_nil (wf : nfa.Wf) (none' : (b.toNat : Int) ∉ bytesOf nfa cur) : ¬Leads nfa (after nfa cur b.toNat) w q := by
  rintro ⟨t, member, -⟩
  obtain ⟨r, target, -⟩ := (mem_epsClosure wf (List.nodup_dedup _) (targets_inside wf)).mp member
  obtain ⟨p, inside, bs, listed, here⟩ := mem_targets.mp target
  exact none' (mem_bytesOf.mpr ⟨p, inside, bs, r, listed, here⟩)

/-! ### One row -/

theorem prefix_getElem {α : Type} {xs ys : List α} {i : Nat} {x : α} (more : xs <+: ys) (found : xs[i]? = some x) : ys[i]? = some x := by
  obtain ⟨zs, rfl⟩ := more
  rw [List.getElem?_append_left (List.getElem?_eq_some_iff.mp found).1]
  exact found

/-- A row sends the bytes that can be read to the sets after them. -/
structure RowOk (nfa : Nfa) (order : List (List Nat)) (cur : List Nat) (row : List Int) : Prop where
  moves : ∀ b : UInt8, (b.toNat : Int) ∈ bytesOf nfa cur → ∃ j : Nat, order[j]? = some (after nfa cur b.toNat) ∧
    row.getD b.toNat (-1) = j
  dead : ∀ b : UInt8, (b.toNat : Int) ∉ bytesOf nfa cur → row.getD b.toNat (-1) = -1
  low : Low (bytesOf nfa cur)

theorem RowOk.mono (ok : RowOk nfa order cur row) (more : order <+: order') :
    RowOk nfa order' cur row where
  moves b member := by
    obtain ⟨j, found, value⟩ := ok.moves b member
    exact ⟨j, prefix_getElem more found, value⟩
  dead := ok.dead
  low := ok.low

theorem setRow_natural {row row' : List Int} {j : Nat} (natural : 0 ≤ x) (set : setRow row x j = .ok row') :
    x < row.length ∧ row' = row.set x.toNat j := by
  unfold setRow at set
  split_ifs at set with inside negative
  · cases set
    exact ⟨inside.2, rfl⟩
  · omega

theorem fillByte_ok {acc acc' : List (List Nat) × List Int} (natural : 0 ≤ x)
    (filled : fillByte nfa cur maxStates acc x = .ok acc') :
    acc.1 <+: acc'.1 ∧ (∀ c ∈ acc'.1, c ∈ acc.1 ∨ c = after nfa cur x) ∧ (acc.1.length ≤ maxStates → acc'.1.length ≤ maxStates) ∧
      x < acc.2.length ∧ ∃ j : Nat, acc'.1[j]? = some (after nfa cur x) ∧ acc'.2 = acc.2.set x.toNat j := by
  unfold fillByte at filled
  dsimp only at filled
  split at filled
  · rename_i j known
    obtain ⟨row, set, rfl⟩ := map_ok filled
    obtain ⟨inside, rfl⟩ := setRow_natural natural set
    obtain ⟨bound, found, -⟩ := List.idxOf?_eq_some_iff.mp known
    have here := List.getElem?_eq_getElem bound
    rw [found] at here
    exact ⟨List.prefix_refl _, fun c member => .inl member, id, inside, j, here, rfl⟩
  · split at filled
    · cases filled
    · rename_i room
      obtain ⟨row, set, rfl⟩ := map_ok filled
      obtain ⟨inside, rfl⟩ := setRow_natural natural set
      refine ⟨List.prefix_append _ _, fun c member => ?_, fun _ => ?_, inside, acc.1.length, List.getElem?_concat_length, rfl⟩
      · exact (List.mem_append.mp member).imp_right List.mem_singleton.mp
      · rw [List.length_append, List.length_singleton]
        omega

/-- The row after the bytes of `done`. -/
structure Filling (nfa : Nfa) (order : List (List Nat)) (cur : List Nat) (maxStates : Nat) (done : List Int)
    (acc : List (List Nat) × List Int) : Prop where
  more : order <+: acc.1
  shut : ∀ c ∈ acc.1, Shut nfa c
  bound : acc.1.length ≤ maxStates
  length : acc.2.length = 256
  moves : ∀ b : UInt8, (b.toNat : Int) ∈ done → ∃ j : Nat, acc.1[j]? = some (after nfa cur b.toNat) ∧ acc.2.getD b.toNat (-1) = j
  dead : ∀ b : UInt8, (b.toNat : Int) ∉ done → acc.2.getD b.toNat (-1) = -1
  low : Low done

theorem Filling.step {done : List Int} {acc acc' : List (List Nat) × List Int}
    (filling : Filling nfa order cur maxStates done acc) (wf : nfa.Wf) (natural : 0 ≤ x)
    (filled : fillByte nfa cur maxStates acc x = .ok acc') :
    Filling nfa order cur maxStates (done ++ [x]) acc' := by
  obtain ⟨more, members, bound, inside, j, found, row⟩ := fillByte_ok natural filled
  have length := filling.length
  have here : ∀ b : UInt8, (b.toNat : Int) = x → acc'.2.getD b.toNat (-1) = j := by
    intro b same
    have index : x.toNat = b.toNat := by omega
    rw [row, index, List.getD_eq_getElem?_getD, List.getElem?_set_self (by omega), Option.getD_some]
  have other : ∀ b : UInt8, (b.toNat : Int) ≠ x → acc'.2.getD b.toNat (-1) = acc.2.getD b.toNat (-1) := by
    intro b differs
    rw [row, List.getD_eq_getElem?_getD, List.getD_eq_getElem?_getD, List.getElem?_set_ne (by omega)]
  refine ⟨filling.more.trans more, fun c member => ?_, bound filling.bound, by rw [row, List.length_set, length],
    fun b member => ?_, fun b outside => ?_, fun y member => ?_⟩
  · rcases members c member with old | rfl
    · exact filling.shut c old
    · exact after_shut wf
  · by_cases same : (b.toNat : Int) = x
    · exact ⟨j, by rw [same]; exact found, here b same⟩
    · have old : (b.toNat : Int) ∈ done := (List.mem_append.mp member).resolve_right fun last => same (List.mem_singleton.mp last)
      obtain ⟨i, there, value⟩ := filling.moves b old
      exact ⟨i, prefix_getElem more there, (other b same).trans value⟩
  · rw [List.mem_append, not_or, List.mem_singleton] at outside
    exact (other b outside.2).trans (filling.dead b outside.1)
  · rcases List.mem_append.mp member with old | last
    · exact filling.low y old
    · rw [List.mem_singleton.mp last]
      omega

theorem bytesOf_natural (wf : nfa.Wf) : Natural (bytesOf nfa cur) := by
  intro x member
  obtain ⟨p, -, bs, t, listed, inside⟩ := mem_bytesOf.mp member
  exact wf.natural p bs t listed x inside

theorem fill_row (wf : nfa.Wf) (shut : ∀ c ∈ order, Shut nfa c) (bound : order.length ≤ maxStates)
    (filled : (bytesOf nfa cur).foldlM (fillByte nfa cur maxStates) (order, List.replicate 256 (-1)) = .ok (order', row)) :
    order <+: order' ∧ (∀ c ∈ order', Shut nfa c) ∧ order'.length ≤ maxStates ∧ RowOk nfa order' cur row := by
  have first : Filling nfa order cur maxStates [] (order, List.replicate 256 (-1)) := by
    refine ⟨List.prefix_refl _, shut, bound, List.length_replicate, fun b member => absurd member List.not_mem_nil, fun b _ => ?_,
      fun x member => absurd member List.not_mem_nil⟩
    rw [List.getD_eq_getElem?_getD, List.getElem?_replicate]
    split <;> rfl
  have last := foldlM_invariant (fun done acc => Natural done → Filling nfa order cur maxStates done acc)
      (fun done acc x acc' filling one natural => by
    have old : Natural done := fun y member => natural y (List.mem_append_left _ member)
    exact (filling old).step wf (natural x (List.mem_append_right _ List.mem_cons_self)) one)
    (fun _ => first) filled (bytesOf_natural wf)
  exact ⟨last.more, last.shut, last.bound, last.moves, last.dead, last.low⟩

structure Table (nfa : Nfa) (a maxStates : Nat) (order : List (List Nat)) (rows : List (List Int)) (accept : List Nat) : Prop where
  shut : ∀ c ∈ order, Shut nfa c
  bound : order.length ≤ maxStates
  short : rows.length ≤ order.length
  row : ∀ (k : Nat) (row : List Int), rows[k]? = some row → ∃ cur, order[k]? = some cur ∧ RowOk nfa order cur row
  accepts : ∀ k : Nat, k ∈ accept ↔ k < rows.length ∧ ∃ cur, order[k]? = some cur ∧ a ∈ cur

theorem Table.step {rows : List (List Int)} {accept : List Nat}
    (table : Table nfa a maxStates order rows accept) (wf : nfa.Wf) (current : order[rows.length]? = some cur)
    (filled : (bytesOf nfa cur).foldlM (fillByte nfa cur maxStates) (order, List.replicate 256 (-1)) = .ok (order', row)) :
    order <+: order' ∧ Table nfa a maxStates order' (rows ++ [row]) (if a ∈ cur then accept ++ [rows.length] else accept) := by
  obtain ⟨more, shut, bound, ok⟩ := fill_row wf table.shut table.bound filled
  have inside := (List.getElem?_eq_some_iff.mp (prefix_getElem more current)).1
  refine ⟨more, shut, bound, ?_, fun k row' found => ?_, fun k => ?_⟩
  · rw [List.length_append, List.length_singleton]
    omega
  · by_cases old : k < rows.length
    · rw [List.getElem?_append_left old] at found
      obtain ⟨cur', there, ok'⟩ := table.row k row' found
      exact ⟨cur', prefix_getElem more there, ok'.mono more⟩
    · have last : k < (rows ++ [row]).length := (List.getElem?_eq_some_iff.mp found).1
      rw [List.length_append, List.length_singleton] at last
      obtain rfl : k = rows.length := by omega
      rw [List.getElem?_concat_length] at found
      cases found
      exact ⟨cur, prefix_getElem more current, ok⟩
  · have known : k ∈ accept ↔ k < rows.length ∧ ∃ c, order'[k]? = some c ∧ a ∈ c := by
      rw [table.accepts k]
      refine and_congr_right fun old => ?_
      have there := List.getElem?_eq_getElem (Nat.lt_of_lt_of_le old table.short)
      rw [there, prefix_getElem more there]
    have last : (rows ++ [row]).length = rows.length + 1 := by rw [List.length_append, List.length_singleton]
    rw [last, Nat.lt_succ_iff_lt_or_eq]
    by_cases here : k = rows.length
    · subst here
      rw [prefix_getElem more current]
      have fresh : rows.length ∉ accept := fun member => absurd ((known.mp member).1) (Nat.lt_irrefl _)
      split
      · rename_i accepts
        simp [accepts]
      · rename_i rejects
        simp [fresh, rejects]
    · have listed : k ∈ (if a ∈ cur then accept ++ [rows.length] else accept) ↔ k ∈ accept := by
        split
        · rw [List.mem_append, List.mem_singleton, or_iff_left here]
        · exact Iff.rfl
      rw [listed, known, or_iff_left here]

theorem subsetLoop_table {maxStates n : Nat} {rows : List (List Int)} {accept : List Nat} {dfa : Dfa}
    (wf : nfa.Wf) (table : Table nfa a maxStates order rows accept) (built : subsetLoop nfa a maxStates n order rows accept = .ok dfa) :
    ∃ order', order <+: order' ∧ Table nfa a maxStates order' dfa.trans dfa.accept ∧ order'.length = dfa.trans.length ∧
      dfa.start = 0 := by
  induction n generalizing order rows accept with
  | zero => cases built
  | succ n ih =>
    rw [subsetLoop] at built
    split at built
    · rename_i finished
      cases built
      have short := table.short
      rw [List.getElem?_eq_none_iff] at finished
      exact ⟨order, List.prefix_refl _, table, Nat.le_antisymm finished short, rfl⟩
    · rename_i cur current
      obtain ⟨⟨order', row⟩, filled, built⟩ := bind_ok built
      obtain ⟨more, table'⟩ := table.step wf current filled
      obtain ⟨order'', more', rest⟩ := ih table' built
      exact ⟨order'', more.trans more', rest⟩

end FfnNgfw.Emulator
