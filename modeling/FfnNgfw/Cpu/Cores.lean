import FfnNgfw.Lib.Dict
import FfnNgfw.Lib.UnionFind
import Mathlib.Data.List.Sort
import Mathlib.Data.List.Dedup
import Mathlib.Data.List.Induction

/-!
# Physical cores

Logical CPUs grouped by their SMT siblings, and the two ways in which whole groups are chosen
for the dataplane: from the top of the list by a fraction, or what the management and control
planes leave.
-/

namespace FfnNgfw.Cpu

/-- `sorted(set(..))` -/
def sortedSet (cpus : List Nat) : List Nat := cpus.dedup.insertionSort (· ≤ ·)

abbrev Siblings := Dict Nat (List Nat)

def siblingsOf (sibs : Siblings) (c : Nat) : List Nat := (sibs.lookup c).getD []

def joinSiblings (sibs : Siblings) (available : List Nat) : Forest Nat :=
  available.foldl (fun f c => ((siblingsOf sibs c).filter (· ∈ available)).foldl (fun f s => f.join s c) f) .single

/-- `grouped.setdefault(owner(c), []).append(c)` for each CPU. -/
def collect (f : Forest Nat) (available : List Nat) : Forest Nat × Dict Nat (List Nat) :=
  available.foldl (fun (f, grouped) c => ((f.owner c).2, grouped.assign (f.owner c).1 ((grouped.lookup (f.owner c).1).getD [] ++ [c])))
    (f, ∅)

def coreLe (g h : List Nat) : Prop := g.headD 0 ≤ h.headD 0

instance instDecidableCoreLe : DecidableRel coreLe := fun _ _ => inferInstanceAs (Decidable (_ ≤ _))

def physicalCores (ncpu : Nat) (sibs : Siblings) (cpuIds : Option (List Nat)) : List (List Nat) :=
  let available := sortedSet (cpuIds.getD (List.range ncpu))
  ((collect (joinSiblings sibs available) available).2.items.map Prod.snd).insertionSort coreLe

/-- Whole physical cores from the top, never that of CPU 0. `share` is what the fraction of so many
groups is rounded to, `node` the NUMA node of a CPU. -/
def pickDpdkCores (node : Nat → Option Nat) (ncpu : Nat) (sibs : Siblings) (preferNode : Option Nat) (share : Nat → Nat)
    (cpuIds : Option (List Nat)) : List Nat × List String :=
  let groups := (physicalCores ncpu sibs cpuIds).filter fun g => 0 ∉ g
  if groups.isEmpty then ([], ["only one physical core is present; isolating nothing."])
  else
    let preferred : List (List Nat) × List String :=
      match preferNode with
      | none => (groups, [])
      | some n =>
        let onNode := groups.filter fun g => node (g.headD 0) = some n
        if 2 ≤ onNode.length then (onNode, [])
        else if onNode.isEmpty then (groups, [])
        else (groups, ["NIC is on NUMA node " ++ toString n ++ " but only " ++ toString onNode.length ++
          " usable physical core(s) there; ignoring the NUMA preference rather than isolating a single core."])
    let groups := preferred.1
    let count := min (max 1 (share groups.length)) groups.length
    let chosenGroups := groups.drop (groups.length - count)
    let chosen := chosenGroups.flatten.insertionSort (· ≤ ·)
    (chosen, preferred.2 ++
      if chosenGroups.any fun g => 1 < g.length then
        ["isolated " ++ toString chosenGroups.length ++ " whole physical core(s) (" ++ toString chosen.length ++
          " logical CPUs); SMT siblings move together because an isolated thread " ++
          "sharing a core with a schedulable one is still preempted."]
      else [])

structure Planes where
  mgmt : List Nat
  ctrl : List Nat
  data : List Nat
  deriving DecidableEq

/-- An eighth each for management and control, the rest for data, by physical core. -/
def balancedPlan (cpuIds : List Nat) (sibs : Siblings) : Planes :=
  let ids := sortedSet cpuIds
  let groups := physicalCores ids.length sibs (some ids)
  if groups.length < 4 then ⟨ids, ids, ids⟩
  else
    let reserve := max 1 (groups.length / 8)
    ⟨(groups.take reserve).flatten.insertionSort (· ≤ ·), ((groups.take (2 * reserve)).drop reserve).flatten.insertionSort (· ≤ ·),
      (groups.drop (2 * reserve)).flatten.insertionSort (· ≤ ·)⟩

theorem mem_sortedSet {cpus : List Nat} {c : Nat} : c ∈ sortedSet cpus ↔ c ∈ cpus := by
  rw [sortedSet, List.mem_insertionSort, List.mem_dedup]

theorem sortedSet_nodup (cpus : List Nat) : (sortedSet cpus).Nodup :=
  (List.perm_insertionSort _ _).nodup_iff.mpr (List.nodup_dedup cpus)

theorem sortedSet_sorted (cpus : List Nat) : (sortedSet cpus).Pairwise (· < ·) := by
  have ordered : (sortedSet cpus).Pairwise (· ≤ ·) := List.pairwise_insertionSort _ _
  exact (ordered.and (sortedSet_nodup cpus)).imp fun both => Nat.lt_of_le_of_ne both.1 both.2

section groups

variable {sibs : Siblings} {available : List Nat} {f : Forest Nat}

theorem foldl_join_mono {x y c : Nat} (same : f.root x = f.root y) (ss : List Nat) :
    (ss.foldl (fun f s => f.join s c) f).root x = (ss.foldl (fun f s => f.join s c) f).root y := by
  induction ss generalizing f with
  | nil => exact same
  | cons s rest ih => exact ih (Forest.join_mono same s c)

theorem foldl_join_same {c s : Nat} {ss : List Nat} (member : s ∈ ss) :
    (ss.foldl (fun f s => f.join s c) f).root s = (ss.foldl (fun f s => f.join s c) f).root c := by
  induction ss generalizing f with
  | nil => cases member
  | cons t rest ih =>
    rcases List.mem_cons.mp member with rfl | member
    · exact foldl_join_mono (f.join_same s c) rest
    · exact ih member

theorem joinSiblings_root {c s : Nat} (there : c ∈ available) (there' : s ∈ available) (sibling : s ∈ siblingsOf sibs c) :
    (joinSiblings sibs available).root s = (joinSiblings sibs available).root c := by
  have kept : ∀ (cs : List Nat) (f : Forest Nat), f.root s = f.root c →
      (cs.foldl (fun f c => ((siblingsOf sibs c).filter (· ∈ available)).foldl (fun f s => f.join s c) f) f).root s =
      (cs.foldl (fun f c => ((siblingsOf sibs c).filter (· ∈ available)).foldl (fun f s => f.join s c) f) f).root c := by
    intro cs
    induction cs with
    | nil => exact fun f same => same
    | cons d rest ih => exact fun f same => ih _ (foldl_join_mono same _)
  have joined : ∀ (cs : List Nat) (f : Forest Nat), c ∈ cs →
      (cs.foldl (fun f c => ((siblingsOf sibs c).filter (· ∈ available)).foldl (fun f s => f.join s c) f) f).root s =
      (cs.foldl (fun f c => ((siblingsOf sibs c).filter (· ∈ available)).foldl (fun f s => f.join s c) f) f).root c := by
    intro cs
    induction cs with
    | nil => exact fun f member => absurd member List.not_mem_nil
    | cons d rest ih =>
      intro f member
      rcases List.mem_cons.mp member with rfl | member
      · exact kept rest _ (foldl_join_same (List.mem_filter.mpr ⟨sibling, decide_eq_true there'⟩))
      · exact ih _ member
  exact joined available .single there

def members (f : Forest Nat) (available : List Nat) (r : Nat) : List Nat := available.filter fun c => f.root c = r

theorem collect_spec (f : Forest Nat) (available : List Nat) :
    (∀ x, (collect f available).1.root x = f.root x) ∧
    ∀ r, (collect f available).2.lookup r = if members f available r = [] then none else some (members f available r) := by
  induction available using List.reverseRecOn with
  | nil => exact ⟨fun _ => rfl, fun _ => rfl⟩
  | append_singleton done c ih =>
    obtain ⟨roots, groups⟩ := ih
    have step : collect f (done ++ [c]) = (((collect f done).1.owner c).2, (collect f done).2.assign ((collect f done).1.owner c).1
        (((collect f done).2.lookup ((collect f done).1.owner c).1).getD [] ++ [c])) := by
      unfold collect
      rw [List.foldl_append]
      rfl
    have root : ((collect f done).1.owner c).1 = f.root c := by rw [Forest.owner_root, roots]
    rw [step, root]
    refine ⟨fun x => (Forest.owner_keeps _ c x).trans (roots x), fun r => ?_⟩
    rw [Dict.lookup_assign]
    have grown : members f (done ++ [c]) r = members f done r ++ if f.root c = r then [c] else [] := by
      unfold members
      rw [List.filter_append]
      by_cases same : f.root c = r <;> simp [same]
    by_cases same : r = f.root c
    · subst same
      have own : ((collect f done).2.lookup (f.root c)).getD [] = members f done (f.root c) := by
        rw [groups]
        split
        · rename_i empty
          exact empty.symm
        · rfl
      rw [if_pos rfl, own, grown, if_pos rfl, if_neg (by simp)]
    · rw [if_neg same, groups, grown, if_neg (Ne.symm same), List.append_nil]

theorem mem_members {r c : Nat} : c ∈ members f available r ↔ c ∈ available ∧ f.root c = r := by
  rw [members, List.mem_filter, decide_eq_true_eq]

theorem mem_collected {g : List Nat} : g ∈ (collect f available).2.items.map Prod.snd ↔ g ≠ [] ∧ ∃ r, g = members f available r := by
  obtain ⟨-, groups⟩ := collect_spec f available
  rw [List.mem_map]
  constructor
  · rintro ⟨⟨r, g⟩, member, rfl⟩
    have found := (groups r).symm.trans (Dict.mem_items.mp member)
    split at found
    · cases found
    · rename_i some'
      cases found
      exact ⟨some', r, rfl⟩
  · rintro ⟨some', r, rfl⟩
    exact ⟨(r, members f available r), Dict.mem_items.mpr ((groups r).trans (if_neg some')), rfl⟩

theorem collected_nodup (f : Forest Nat) (available : List Nat) : ((collect f available).2.items.map Prod.snd).Nodup := by
  have items : (collect f available).2.items.Nodup := (Dict.items_nodup _).of_map _
  refine List.Nodup.map_on ?_ items
  rintro ⟨r, g⟩ member ⟨r', g'⟩ member' (rfl : g = g')
  have own : ∀ q, (q, g) ∈ (collect f available).2.items → g ≠ [] ∧ g = members f available q := by
    intro q there
    have found := ((collect_spec f available).2 q).symm.trans (Dict.mem_items.mp there)
    split at found
    · cases found
    · rename_i some'
      cases found
      exact ⟨some', rfl⟩
  obtain ⟨some', first⟩ := own r member
  obtain ⟨-, second⟩ := own r' member'
  obtain ⟨c, inside⟩ := List.exists_mem_of_ne_nil g some'
  have root := (mem_members.mp (first ▸ inside)).2
  have root' := (mem_members.mp (second ▸ inside)).2
  rw [← root, ← root']

end groups

/-! ### Physical cores -/

section cores

variable {ncpu : Nat} {sibs : Siblings} {cpuIds : Option (List Nat)} {ids : List Nat}

/-- A choice of whole groups: what is chosen is closed under siblings, both ways. -/
def Whole (sibs : Siblings) (ids chosen : List Nat) : Prop :=
  ∀ c ∈ ids, ∀ s ∈ ids, s ∈ siblingsOf sibs c → (c ∈ chosen ↔ s ∈ chosen)

theorem mem_physicalCores {g : List Nat} : g ∈ physicalCores ncpu sibs (some ids) ↔
    g ≠ [] ∧ ∃ r, g = members (joinSiblings sibs (sortedSet ids)) (sortedSet ids) r := by
  unfold physicalCores
  rw [List.mem_insertionSort]
  exact mem_collected

theorem physicalCores_sorted : (physicalCores ncpu sibs (some ids)).Pairwise coreLe := by
  have total : Std.Total coreLe := ⟨fun g h => Nat.le_total _ _⟩
  have trans' : IsTrans (List Nat) coreLe := ⟨fun g h k => Nat.le_trans⟩
  exact List.pairwise_insertionSort _ _

theorem physicalCores_nodup : (physicalCores ncpu sibs (some ids)).Nodup :=
  (List.perm_insertionSort _ _).nodup_iff.mpr (collected_nodup _ _)

theorem sibling_grouped {g : List Nat} (group : g ∈ physicalCores ncpu sibs (some ids)) {c s : Nat} (there : c ∈ ids) (there' : s ∈ ids)
    (sibling : s ∈ siblingsOf sibs c) : c ∈ g ↔ s ∈ g := by
  obtain ⟨-, r, rfl⟩ := mem_physicalCores.mp group
  have same := joinSiblings_root (mem_sortedSet.mpr there) (mem_sortedSet.mpr there') sibling
  rw [mem_members, mem_members, same, mem_sortedSet, mem_sortedSet]
  exact and_congr_left fun _ => iff_of_true there there'

theorem flatten_whole {groups : List (List Nat)} (each : ∀ g ∈ groups, g ∈ physicalCores ncpu sibs (some ids)) :
    Whole sibs ids (groups.flatten.insertionSort (· ≤ ·)) := by
  intro c there s there' sibling
  rw [List.mem_insertionSort, List.mem_insertionSort, List.mem_flatten, List.mem_flatten]
  exact exists_congr fun g => and_congr_right fun member => sibling_grouped (each g member) there there' sibling

theorem zero_first {g : List Nat} {n : Nat} (some' : 0 < n) (later : g ∈ (physicalCores ncpu sibs (some ids)).drop n) : 0 ∉ g := by
  intro inside
  have head : ∀ h ∈ physicalCores ncpu sibs (some ids), 0 ∈ h → h.headD 0 = 0 := by
    intro h group zero
    obtain ⟨-, r, rfl⟩ := mem_physicalCores.mp group
    have ordered : (members (joinSiblings sibs (sortedSet ids)) (sortedSet ids) r).Pairwise (· < ·) := (sortedSet_sorted ids).filter _
    cases shape : members (joinSiblings sibs (sortedSet ids)) (sortedSet ids) r with
    | nil => rfl
    | cons first rest =>
      rw [shape] at ordered zero
      rcases List.mem_cons.mp zero with rfl | behind
      · rfl
      · exact absurd ((List.pairwise_cons.mp ordered).1 0 behind) (Nat.not_lt_zero _)
  have whole := List.take_append_drop n (physicalCores ncpu sibs (some ids))
  have group := List.mem_of_mem_drop later
  cases front : (physicalCores ncpu sibs (some ids)).take n with
  | nil =>
    rcases List.take_eq_nil_iff.mp front with zero | empty
    · exact Nat.ne_of_gt some' zero
    · rw [empty] at group
      cases group
  | cons h rest =>
    have first : h ∈ (physicalCores ncpu sibs (some ids)).take n := front ▸ List.mem_cons_self
    have low := (List.pairwise_append.mp (whole.symm ▸ physicalCores_sorted)).2.2 h first g later
    have top := head g group inside
    have zero : h.headD 0 = 0 := by
      have below : h.headD 0 ≤ g.headD 0 := low
      omega
    have firstGroup := List.mem_of_mem_take first
    obtain ⟨some'', r, shape⟩ := mem_physicalCores.mp firstGroup
    have zeroInside : 0 ∈ h := by
      cases h with
      | nil => exact absurd rfl some''
      | cons a as =>
        obtain rfl : a = 0 := zero
        exact List.mem_cons_self
    have same : h = g := by
      obtain ⟨-, r', shape'⟩ := mem_physicalCores.mp group
      have root := (mem_members.mp (shape ▸ zeroInside)).2
      have root' := (mem_members.mp (shape' ▸ inside)).2
      rw [shape, shape', ← root, ← root']
    have apart := (List.nodup_append.mp (whole.symm ▸ physicalCores_nodup)).2.2 h first g later
    exact apart same

theorem pickDpdkCores_whole {node : Nat → Option Nat} {preferNode : Option Nat} {share : Nat → Nat} :
    Whole sibs ids (pickDpdkCores node ncpu sibs preferNode share (some ids)).1 ∧
      0 ∉ (pickDpdkCores node ncpu sibs preferNode share (some ids)).1 := by
  unfold pickDpdkCores
  dsimp only
  split
  · exact ⟨fun c _ s _ _ => iff_of_false List.not_mem_nil List.not_mem_nil, List.not_mem_nil⟩
  · obtain ⟨groups, shape⟩ : ∃ groups, groups = (physicalCores ncpu sibs (some ids)).filter fun g => 0 ∉ g := ⟨_, rfl⟩
    rw [← shape]
    generalize chosen : (match preferNode with
      | none => (groups, [])
      | some n => _ : List (List Nat) × List String) = preferred
    have inside : ∀ g ∈ preferred.1, g ∈ groups := by
      rw [← chosen]
      intro g member
      split at member
      · exact member
      · split at member
        · exact (List.mem_filter.mp member).1
        · split at member <;> exact member
    have free : ∀ g ∈ preferred.1.drop (preferred.1.length - min (max 1 (share preferred.1.length)) preferred.1.length),
        g ∈ physicalCores ncpu sibs (some ids) ∧ 0 ∉ g := by
      intro g member
      have there := inside g (List.mem_of_mem_drop member)
      rw [shape, List.mem_filter, decide_eq_true_eq] at there
      exact there
    refine ⟨flatten_whole fun g member => (free g member).1, ?_⟩
    rw [List.mem_insertionSort, List.mem_flatten]
    rintro ⟨g, member, zero⟩
    exact (free g member).2 zero

theorem balancedPlan_whole (enough : ¬(physicalCores (sortedSet ids).length sibs (some (sortedSet ids))).length < 4) :
    Whole sibs ids (balancedPlan ids sibs).data ∧ 0 ∉ (balancedPlan ids sibs).data := by
  unfold balancedPlan
  dsimp only
  rw [if_neg enough]
  constructor
  · intro c there s there' sibling
    exact flatten_whole (fun g member => List.mem_of_mem_drop member) c (mem_sortedSet.mpr there) s (mem_sortedSet.mpr there') sibling
  · rw [List.mem_insertionSort, List.mem_flatten]
    rintro ⟨g, member, zero⟩
    exact zero_first (Nat.mul_pos Nat.two_pos (Nat.lt_of_lt_of_le Nat.one_pos (Nat.le_max_left 1 _))) member zero

theorem balancedPlan_shared (few : (physicalCores (sortedSet ids).length sibs (some (sortedSet ids))).length < 4) :
    balancedPlan ids sibs = ⟨sortedSet ids, sortedSet ids, sortedSet ids⟩ := if_pos few

end cores

end FfnNgfw.Cpu
