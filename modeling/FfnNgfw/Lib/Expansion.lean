import FfnNgfw.Lib.Fallible

/-!
# Expanding names through groups

A name stands for values or for a group of names. `expand` follows the names of a list
with a stack of the groups that are open: it refuses a name that is open already, and
too deep a stack. What it gathers are the values of all names that can be reached, and
where it succeeds no name that can be reached is reached again from its own members.
-/

namespace FfnNgfw.Expansion

/-- `wild` is the value of a name that needs no entry. -/
inductive Entry (N A : Type) where
  | wild (value : A)
  | leaf (values : List A)
  | group (members : List N)

structure Setting (N A : Type) where
  entry : N → Except String (Entry N A)
  /-- what is done to the values of a group before they are added -/
  tidy : List A → List A
  limit : Nat
  size : Nat
  bottom : String
  cycle : N → String
  large : String

variable {N A : Type} {S : Setting N A}

def Setting.add (S : Setting N A) (out more : List A) : Except String (List A) :=
  if S.size < (out ++ more).length then throw S.large else return out ++ more

section expand

variable [DecidableEq N]

/-- One name of a list, where `inner` expands the members of a group. -/
def Setting.visit (S : Setting N A) (inner : List N → Except String (List A)) (stack : List N) (out : List A) (value : N) :
    Except String (List A) := do
  if S.limit < stack.length ∨ value ∈ stack then throw (S.cycle value)
  match ← S.entry value with
  | .wild a => return out ++ [a]
  | .leaf more => S.add out more
  | .group members => do
    let more ← inner members
    S.add out (S.tidy more)

def expand (S : Setting N A) : Nat → List N → List N → Except String (List A)
  | 0, _, _ => .error S.bottom
  | fuel + 1, stack, values =>
    values.foldlM (fun out value => S.visit (expand S fuel (stack ++ [value])) stack out value) []

end expand

inductive Reaches (S : Setting N A) : List N → N → Prop where
  | listed {names : List N} {n : N} (member : n ∈ names) : Reaches S names n
  | inside {names members : List N} {g n : N} (member : g ∈ names) (group : S.entry g = .ok (.group members))
      (rest : Reaches S members n) : Reaches S names n

def Stands (S : Setting N A) (n : N) (a : A) : Prop :=
  S.entry n = .ok (.wild a) ∨ ∃ values, S.entry n = .ok (.leaf values) ∧ a ∈ values

def Cyclic (S : Setting N A) (n : N) : Prop := ∃ members, S.entry n = .ok (.group members) ∧ Reaches S members n

variable {names : List N} {n : N}

theorem Reaches.single (reached : Reaches S names n) : ∃ v ∈ names, Reaches S [v] n := by
  cases reached with
  | listed member => exact ⟨n, member, .listed (List.mem_singleton_self n)⟩
  | inside member group rest => exact ⟨_, member, .inside (List.mem_singleton_self _) group rest⟩

theorem reaches_single_iff {v : N} :
    Reaches S [v] n ↔ n = v ∨ ∃ members, S.entry v = .ok (.group members) ∧ Reaches S members n := by
  constructor
  · intro reached
    cases reached with
    | listed member => exact .inl (List.mem_singleton.mp member)
    | inside member group rest => exact .inr ⟨_, List.mem_singleton.mp member ▸ group, rest⟩
  · rintro (rfl | ⟨members, group, rest⟩)
    · exact .listed (List.mem_singleton_self n)
    · exact .inside (List.mem_singleton_self v) group rest

theorem foldlM_visits {visit : List A → N → Except String (List A)} {values : List N} {acc out : List A}
    (grows : ∀ {acc out v}, visit acc v = .ok out → ∀ a, a ∈ acc → a ∈ out)
    (done : values.foldlM visit acc = .ok out) :
    (∀ a ∈ acc, a ∈ out) ∧
      (∀ v ∈ values, ∃ before after, visit before v = .ok after ∧ ∀ a ∈ after, a ∈ out) ∧
      ∀ a ∈ out, a ∈ acc ∨ ∃ v ∈ values, ∃ before after, visit before v = .ok after ∧ a ∉ before ∧ a ∈ after := by
  induction values generalizing acc with
  | nil =>
    cases done
    exact ⟨fun _ here => here, by simp, fun _ here => .inl here⟩
  | cons v values ih =>
    rw [List.foldlM_cons] at done
    obtain ⟨next, first, rest⟩ := bind_ok done
    obtain ⟨kept, each, from_⟩ := ih rest
    refine ⟨fun a here => kept a (grows first a here), fun u member => ?_, fun a here => ?_⟩
    · rcases List.mem_cons.mp member with rfl | later
      · exact ⟨acc, next, first, kept⟩
      · exact each u later
    · rcases from_ a here with known | ⟨u, member, found⟩
      · by_cases before : a ∈ acc
        · exact .inl before
        · exact .inr ⟨v, List.mem_cons_self, acc, next, first, before, known⟩
      · exact .inr ⟨u, List.mem_cons_of_mem _ member, found⟩

section gathered

variable [DecidableEq N]

variable {stack : List N} {value : N}

theorem visit_refused (refused : S.limit < stack.length ∨ value ∈ stack)
    (inner : List N → Except String (List A)) (out : List A) : S.visit inner stack out value = .error (S.cycle value) := by
  unfold Setting.visit
  rw [if_pos refused]
  rfl

theorem visit_fresh (fresh : ¬(S.limit < stack.length ∨ value ∈ stack))
    (inner : List N → Except String (List A)) (out : List A) :
    S.visit inner stack out value = S.entry value >>= fun entry =>
      match entry with
      | .wild a => .ok (out ++ [a])
      | .leaf more => S.add out more
      | .group members => inner members >>= fun more => S.add out (S.tidy more) := by
  unfold Setting.visit
  rw [if_neg fresh]
  rfl

theorem visit_ok {inner : List N → Except String (List A)} {out out' : List A}
    (visited : S.visit inner stack out value = .ok out') :
    ¬(S.limit < stack.length ∨ value ∈ stack) ∧ ∃ more, out' = out ++ more ∧
      (S.entry value = .ok (.leaf more) ∨ (∃ a, S.entry value = .ok (.wild a) ∧ more = [a]) ∨
        ∃ members gathered, S.entry value = .ok (.group members) ∧ inner members = .ok gathered ∧ more = S.tidy gathered) := by
  have added {out more out' : List A} (done : S.add out more = .ok out') : out' = out ++ more := by
    unfold Setting.add at done
    split at done
    · cases done
    · exact (Except.ok.inj done).symm
  unfold Setting.visit at visited
  split at visited
  · cases visited
  · rename_i fresh
    obtain ⟨entry, found, visited⟩ := bind_ok visited
    refine ⟨fresh, ?_⟩
    cases entry with
    | wild a =>
      cases visited
      exact ⟨[a], rfl, .inr (.inl ⟨a, found, rfl⟩)⟩
    | leaf more => exact ⟨more, added visited, .inl found⟩
    | group members =>
      obtain ⟨gathered, expanded, visited⟩ := bind_ok visited
      exact ⟨S.tidy gathered, added visited, .inr (.inr ⟨members, gathered, found, expanded, rfl⟩)⟩

theorem visit_grows {inner : List N → Except String (List A)} {out out' : List A}
    (visited : S.visit inner stack out value = .ok out') : ∀ a ∈ out, a ∈ out' := by
  obtain ⟨-, more, rfl, -⟩ := visit_ok visited
  exact fun a here => List.mem_append_left _ here

/-- Where the expansion succeeds, it has gathered the values of all names that can be
reached, none of which is open. -/
theorem expand_ok (tidy : ∀ l a, a ∈ S.tidy l ↔ a ∈ l) {fuel : Nat} {stack values : List N} {out : List A}
    (done : expand S fuel stack values = .ok out) :
    (∀ a, a ∈ out ↔ ∃ n, Reaches S values n ∧ Stands S n a) ∧
      ∀ n, Reaches S values n → n ∉ stack ∧ ¬Cyclic S n := by
  induction fuel generalizing stack values out with
  | zero => cases done
  | succ fuel ih =>
    rw [expand] at done
    obtain ⟨-, each, from_⟩ := foldlM_visits visit_grows done
    refine ⟨fun a => ⟨fun here => ?_, ?_⟩, fun n reached => ?_⟩
    · rcases from_ a here with never | ⟨v, member, before, after, visited, fresh, here⟩
      · cases never
      · obtain ⟨-, more, rfl, kinds⟩ := visit_ok visited
        have added : a ∈ more := (List.mem_append.mp here).resolve_left fresh
        rcases kinds with leaf | ⟨b, wild, rfl⟩ | ⟨members, gathered, group, expanded, rfl⟩
        · exact ⟨v, .listed member, .inr ⟨more, leaf, added⟩⟩
        · exact ⟨v, .listed member, .inl (by rw [List.mem_singleton.mp added]; exact wild)⟩
        · obtain ⟨n, reached, stands⟩ := ((ih expanded).1 a).mp ((tidy gathered a).mp added)
          exact ⟨n, .inside member group reached, stands⟩
    · rintro ⟨n, reached, stands⟩
      obtain ⟨v, member, reached⟩ := reached.single
      obtain ⟨before, after, visited, kept⟩ := each v member
      obtain ⟨-, more, rfl, kinds⟩ := visit_ok visited
      refine kept a (List.mem_append_right before ?_)
      rcases reaches_single_iff.mp reached with rfl | ⟨members, group, rest⟩
      · rcases stands with wild | ⟨values, leaf, inside⟩
        · rcases kinds with leaf | ⟨b, wild', rfl⟩ | ⟨members, gathered, group, -, -⟩
          · rw [wild] at leaf
            cases leaf
          · rw [wild] at wild'
            cases wild'
            exact List.mem_singleton_self a
          · rw [wild] at group
            cases group
        · rcases kinds with leaf' | ⟨b, wild, rfl⟩ | ⟨members, gathered, group, -, -⟩
          · rw [leaf] at leaf'
            cases leaf'
            exact inside
          · rw [leaf] at wild
            cases wild
          · rw [leaf] at group
            cases group
      · rcases kinds with leaf | ⟨b, wild, rfl⟩ | ⟨members', gathered, group', expanded, rfl⟩
        · rw [group] at leaf
          cases leaf
        · rw [group] at wild
          cases wild
        · rw [group] at group'
          cases group'
          exact (tidy gathered a).mpr (((ih expanded).1 a).mpr ⟨n, rest, stands⟩)
    · obtain ⟨v, member, reached⟩ := reached.single
      obtain ⟨before, after, visited, -⟩ := each v member
      obtain ⟨fresh, more, -, kinds⟩ := visit_ok visited
      have inner : ∀ members, S.entry v = .ok (.group members) → ∀ n, Reaches S members n → n ∉ stack ++ [v] ∧ ¬Cyclic S n := by
        intro members group
        rcases kinds with leaf | ⟨b, wild, -⟩ | ⟨members', gathered, group', expanded, -⟩
        · rw [group] at leaf
          cases leaf
        · rw [group] at wild
          cases wild
        · rw [group] at group'
          cases group'
          exact (ih expanded).2
      rcases reaches_single_iff.mp reached with rfl | ⟨members, group, rest⟩
      · refine ⟨fun opened => fresh (.inr opened), ?_⟩
        rintro ⟨members, group, back⟩
        exact (inner members group n back).1 (by simp)
      · obtain ⟨closed, acyclic⟩ := inner members group n rest
        exact ⟨fun opened => closed (List.mem_append_left _ opened), acyclic⟩

theorem visit_deep (deep : S.limit < stack.length) (inner inner' : List N → Except String (List A))
    (out : List A) (value : N) : S.visit inner stack out value = S.visit inner' stack out value := by
  unfold Setting.visit
  rw [if_pos (.inl deep), if_pos (.inl deep)]
  rfl

theorem expand_fuel {fuel : Nat} (enough : S.limit < fuel + stack.length) (more : Nat) (values : List N) :
    expand S (fuel + 1 + more) stack values = expand S (fuel + 1) stack values := by
  have steps : ∀ out value, S.visit (expand S (fuel + more) (stack ++ [value])) stack out value =
      S.visit (expand S fuel (stack ++ [value])) stack out value := by
    intro out value
    induction fuel generalizing stack out value with
    | zero => exact visit_deep (by omega) _ _ out value
    | succ fuel ih =>
      have inner : expand S (fuel + 1 + more) (stack ++ [value]) = expand S (fuel + 1) (stack ++ [value]) := by
        funext members
        have enough' : S.limit < fuel + (stack ++ [value]).length := by
          rw [List.length_append, List.length_singleton]
          omega
        rw [Nat.add_right_comm, expand, expand]
        congr
        funext out value
        exact ih enough' out value
      rw [inner]
  rw [Nat.add_right_comm, expand, expand]
  congr
  funext out value
  exact steps out value

end gathered

end FfnNgfw.Expansion
