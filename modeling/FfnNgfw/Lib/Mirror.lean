import FfnNgfw.Lib.Dict
import Mathlib.Logic.Function.Basic

/-!
# Mirrors

A table that mirrors a changing set of objects by their notices. An object shows as at
most one entry of the table, `entry`; a notice that it is gone names the key to delete,
`gone`. A table that mirrors the objects goes on doing so over any change whose notice
says all of it.
-/

namespace FfnNgfw

inductive Notice (M : Type) where
  | new (m : M)
  | del (m : M)
  deriving DecidableEq

/-- A change of the objects: one is set, new or in the place of an old one, or one is removed. -/
inductive ObjectChange (I M : Type) where
  | set (i : I) (m : M)
  | remove (i : I)
  deriving DecidableEq

namespace Mirror

variable {I M K V : Type} [DecidableEq I] [DecidableEq K]

section defs

variable (entry : M → Option (K × V)) (gone : M → Option K)

def apply (table : K → Option V) : Notice M → K → Option V
  | .new m =>
    match entry m with
    | some (k, v) => Function.update table k (some v)
    | none => table
  | .del m =>
    match gone m with
    | some k => Function.update table k none
    | none => table

def change (objects : Dict I M) : ObjectChange I M → Dict I M
  | .set i m => objects.assign i m
  | .remove i => objects.erase i

/-- What is told of a change: removing what is not there is no change. -/
def notice (objects : Dict I M) : ObjectChange I M → Option (Notice M)
  | .set _ m => some (.new m)
  | .remove i => (objects.lookup i).map .del

def dump (objects : Dict I M) (table : K → Option V) : K → Option V :=
  (objects.items.map fun o => Notice.new o.2).foldl (apply entry gone) table

def Mirrors (table : K → Option V) (objects : Dict I M) : Prop :=
  ∀ k v, table k = some v ↔ ∃ i m, objects.lookup i = some m ∧ entry m = some (k, v)

/-- Only the object `i`, if any, shows under the key. -/
def Own (objects : Dict I M) (i : I) (k : K) : Prop :=
  ∀ i' m v, objects.lookup i' = some m → entry m = some (k, v) → i' = i

def Distinct (objects : Dict I M) : Prop :=
  ∀ i m k v, objects.lookup i = some m → entry m = some (k, v) → Own entry objects i k

/-- The notice of the change says all of it: the key it names is the object's own, and an
object set in the place of an old one shows under the same key. -/
def Told (objects : Dict I M) : ObjectChange I M → Prop
  | .set i m =>
    (∀ k v, entry m = some (k, v) → Own entry objects i k) ∧
      ∀ old k v, objects.lookup i = some old → entry old = some (k, v) → ∃ v', entry m = some (k, v')
  | .remove i => ∀ m k, objects.lookup i = some m → gone m = some k → Own entry objects i k

def Unseen (objects : Dict I M) : ObjectChange I M → Prop
  | .set i m => entry m = none ∧ ∀ old, objects.lookup i = some old → entry old = none
  | .remove i => ∀ old, objects.lookup i = some old → entry old = none

end defs

variable {entry : M → Option (K × V)} {gone : M → Option K} {table : K → Option V} {objects : Dict I M}

theorem apply_new {m : M} {k : K} {v : V} (shows : entry m = some (k, v)) :
    apply entry gone table (.new m) = Function.update table k (some v) := by
  simp only [apply, shows]

theorem apply_new_none {m : M} (hidden : entry m = none) : apply entry gone table (.new m) = table := by
  simp only [apply, hidden]

theorem apply_del {m : M} {k : K} (named : gone m = some k) :
    apply entry gone table (.del m) = Function.update table k none := by
  simp only [apply, named]

theorem Mirrors.set {i : I} {m : M} (mirrors : Mirrors entry table objects) (told : Told entry gone objects (.set i m)) :
    Mirrors entry (apply entry gone table (.new m)) (objects.assign i m) := by
  obtain ⟨own, stays⟩ := told
  intro k v
  simp only [Dict.lookup_assign]
  cases shows : entry m with
  | none =>
    -- Neither the old object nor the new one shows.
    rw [apply_new_none shows, mirrors]
    constructor
    · rintro ⟨i', m', found, shown⟩
      have other : i' ≠ i := by
        rintro rfl
        obtain ⟨v', shown'⟩ := stays m' k v found shown
        rw [shows] at shown'
        cases shown'
      exact ⟨i', m', by rw [if_neg other, found], shown⟩
    · rintro ⟨i', m', found, shown⟩
      split at found
      · cases found
        rw [shows] at shown
        cases shown
      · exact ⟨i', m', found, shown⟩
  | some kv =>
    obtain ⟨k₀, v₀⟩ := kv
    rw [apply_new shows]
    by_cases here : k = k₀
    · subst here
      rw [Function.update_self]
      constructor
      · rintro same
        cases same
        exact ⟨i, m, if_pos rfl, shows⟩
      · rintro ⟨i', m', found, shown⟩
        split at found
        · cases found
          rw [shows] at shown
          cases shown
          rfl
        · rename_i other
          exact absurd (own k v₀ shows i' m' v found shown) other
    · rw [Function.update_of_ne here, mirrors]
      constructor
      · rintro ⟨i', m', found, shown⟩
        have other : i' ≠ i := by
          rintro rfl
          obtain ⟨v', shown'⟩ := stays m' k v found shown
          rw [shows] at shown'
          cases shown'
          exact here rfl
        exact ⟨i', m', by rw [if_neg other, found], shown⟩
      · rintro ⟨i', m', found, shown⟩
        split at found
        · cases found
          rw [shows] at shown
          cases shown
          exact absurd rfl here
        · exact ⟨i', m', found, shown⟩

theorem lookup_erase_iff {i i' : I} {m : M} :
    (objects.erase i).lookup i' = some m ↔ i' ≠ i ∧ objects.lookup i' = some m := by
  by_cases same : i' = i
  · subst same
    simp
  · simp [AList.lookup_erase_ne same, same]

variable (names : ∀ m k v, entry m = some (k, v) → gone m = some k)
include names

theorem Mirrors.remove {i : I} {m : M} (mirrors : Mirrors entry table objects) (told : Told entry gone objects (.remove i))
    (found : objects.lookup i = some m) : Mirrors entry (apply entry gone table (.del m)) (objects.erase i) := by
  intro k v
  simp only [lookup_erase_iff]
  cases named : gone m with
  | none =>
    have same : apply entry gone table (.del m) = table := by simp only [apply, named]
    rw [same, mirrors]
    constructor
    · rintro ⟨i', m', found', shown⟩
      have other : i' ≠ i := by
        rintro rfl
        rw [found] at found'
        cases found'
        rw [names m k v shown] at named
        cases named
      exact ⟨i', m', ⟨other, found'⟩, shown⟩
    · rintro ⟨i', m', ⟨-, found'⟩, shown⟩
      exact ⟨i', m', found', shown⟩
  | some k₀ =>
    rw [apply_del named]
    by_cases here : k = k₀
    · subst here
      rw [Function.update_self]
      refine iff_of_false (by simp) ?_
      rintro ⟨i', m', ⟨other, found'⟩, shown⟩
      exact other (told m k found named i' m' v found' shown)
    · rw [Function.update_of_ne here, mirrors]
      constructor
      · rintro ⟨i', m', found', shown⟩
        have other : i' ≠ i := by
          rintro rfl
          rw [found] at found'
          cases found'
          rw [names m k v shown] at named
          cases named
          exact here rfl
        exact ⟨i', m', ⟨other, found'⟩, shown⟩
      · rintro ⟨i', m', ⟨-, found'⟩, shown⟩
        exact ⟨i', m', found', shown⟩

omit names [DecidableEq K] in
theorem Mirrors.absent {i : I} (mirrors : Mirrors entry table objects) (absent : objects.lookup i = none) :
    Mirrors entry table (objects.erase i) := by
  intro k v
  simp only [lookup_erase_iff, mirrors k v]
  constructor
  · rintro ⟨i', m', found, shown⟩
    refine ⟨i', m', ⟨?_, found⟩, shown⟩
    rintro rfl
    rw [absent] at found
    cases found
  · rintro ⟨i', m', ⟨-, found⟩, shown⟩
    exact ⟨i', m', found, shown⟩

theorem Mirrors.change {c : ObjectChange I M} (mirrors : Mirrors entry table objects) (told : Told entry gone objects c) :
    Mirrors entry (((notice objects c).toList).foldl (apply entry gone) table) (Mirror.change objects c) := by
  cases c with
  | set i m => exact mirrors.set told
  | remove i =>
    rw [notice, Mirror.change]
    cases found : objects.lookup i with
    | none => exact mirrors.absent found
    | some m => exact mirrors.remove names told found

omit names [DecidableEq K] in
theorem Mirrors.unseen {c : ObjectChange I M} (mirrors : Mirrors entry table objects) (unseen : Unseen entry objects c) :
    Mirrors entry table (Mirror.change objects c) := by
  intro k v
  rw [mirrors]
  cases c with
  | set i m =>
    obtain ⟨hidden, before⟩ := unseen
    simp only [Mirror.change, Dict.lookup_assign]
    constructor
    · rintro ⟨i', m', found, shown⟩
      have other : i' ≠ i := by
        rintro rfl
        rw [before m' found] at shown
        cases shown
      exact ⟨i', m', by rw [if_neg other, found], shown⟩
    · rintro ⟨i', m', found, shown⟩
      split at found
      · cases found
        rw [hidden] at shown
        cases shown
      · exact ⟨i', m', found, shown⟩
  | remove i =>
    simp only [Mirror.change, lookup_erase_iff]
    constructor
    · rintro ⟨i', m', found, shown⟩
      refine ⟨i', m', ⟨?_, found⟩, shown⟩
      rintro rfl
      rw [unseen m' found] at shown
      cases shown
    · rintro ⟨i', m', ⟨-, found⟩, shown⟩
      exact ⟨i', m', found, shown⟩

omit names in
theorem dump_other {ms : List M} {k : K} (others : ∀ m ∈ ms, ∀ v, entry m ≠ some (k, v)) :
    (ms.map Notice.new).foldl (apply entry gone) table k = table k := by
  induction ms generalizing table with
  | nil => rfl
  | cons m ms ih =>
    rw [List.map_cons, List.foldl_cons, ih fun m' member => others m' (List.mem_cons_of_mem m member)]
    cases shows : entry m with
    | none => rw [apply_new_none shows]
    | some kv =>
      have ne : k ≠ kv.1 := by
        rintro rfl
        exact others m List.mem_cons_self kv.2 shows
      rw [apply_new shows, Function.update_of_ne ne]

omit names in
theorem dump_last {ms : List M} {k : K} (shown : ∃ m ∈ ms, ∃ v, entry m = some (k, v)) :
    ∃ m ∈ ms, ∃ v, entry m = some (k, v) ∧ (ms.map Notice.new).foldl (apply entry gone) table k = some v := by
  induction ms generalizing table with
  | nil =>
    obtain ⟨m, member, -⟩ := shown
    cases member
  | cons m ms ih =>
    rw [List.map_cons, List.foldl_cons]
    by_cases later : ∃ m' ∈ ms, ∃ v, entry m' = some (k, v)
    · obtain ⟨m', member, v, shows, last⟩ := @ih (apply entry gone table (.new m)) later
      exact ⟨m', List.mem_cons_of_mem m member, v, shows, last⟩
    · obtain ⟨m', member, v, shows⟩ := shown
      rcases List.mem_cons.mp member with rfl | inside
      · refine ⟨m', List.mem_cons_self, v, shows, ?_⟩
        rw [dump_other fun m'' inside v' shows' => later ⟨m'', inside, v', shows'⟩, apply_new shows, Function.update_self]
      · exact absurd ⟨m', inside, v, shows⟩ later

omit names in
theorem mirrors_dump (distinct : Distinct entry objects) : Mirrors entry (dump entry gone objects fun _ => none) objects := by
  intro k v
  have split : (objects.items.map fun o => Notice.new o.2) = (objects.items.map Prod.snd).map Notice.new := by
    rw [List.map_map]
    rfl
  rw [dump, split]
  by_cases shown : ∃ m ∈ objects.items.map Prod.snd, ∃ v, entry m = some (k, v)
  · obtain ⟨m, member, v', shows, last⟩ := @dump_last _ _ _ _ entry gone (fun _ => none) _ k shown
    rw [last]
    obtain ⟨⟨i, m⟩, item, rfl⟩ := List.mem_map.mp member
    have found := Dict.mem_items.mp item
    constructor
    · rintro same
      cases same
      exact ⟨i, m, found, shows⟩
    · rintro ⟨i', m', found', shows'⟩
      obtain rfl := distinct i m k v' found shows i' m' v found' shows'
      rw [found] at found'
      cases found'
      rw [shows] at shows'
      cases shows'
      rfl
  · have others : ∀ m ∈ objects.items.map Prod.snd, ∀ v, entry m ≠ some (k, v) :=
      fun m member v shows => shown ⟨m, member, v, shows⟩
    rw [dump_other others]
    refine iff_of_false (by simp) ?_
    rintro ⟨i, m, found, shows⟩
    exact others m (List.mem_map.mpr ⟨(i, m), Dict.mem_items.mpr found, rfl⟩) v shows

end Mirror
end FfnNgfw
