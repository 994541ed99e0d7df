import FfnNgfw.Policy.Groups
import Mathlib.Data.Fintype.EquivFin

/-!
# What application groups denote

An expansion of applications ends where `any` is met. The group that has it is expanded
to `any` alone, but a list with other names keeps them beside it, and what stands behind
`any` is not looked at.
-/

namespace FfnNgfw.Policy
open Expansion

section applications

variable {root : Config} {owner : Vsys} {fuel : Nat} {stack values names : List String} {n v : String}

def applicationEntry (root : Config) (owner : Vsys) (value : String) : Except String (Entry String String) :=
  if value = "any" then .ok (.wild "any")
  else
    match find root owner Objects.applicationGroup value with
    | some [] => .error ("Empty application group: " ++ value)
    | some (m :: ms) => .ok (.group (m :: ms))
    | none =>
      if value ∈ owner.objects.application ∨ value ∈ root.shared.application then .ok (.leaf [value])
      else .error ("Application filter or unresolved application requires an App-ID provider: " ++ value)

def applicationSetting (root : Config) (owner : Vsys) : Setting String String where
  entry := applicationEntry root owner
  tidy := sortedSet
  limit := stackLimit
  size := 256
  bottom := "Application group cycle or excessive nesting"
  cycle _ := "Application group cycle or excessive nesting"
  large := "Expanded application list exceeds 256 entries"

/-- A list that is expanded to `any` and nothing else. -/
inductive Absorbs (root : Config) (owner : Vsys) : List String → Prop where
  | any {values : List String} (member : "any" ∈ values) : Absorbs root owner values
  | groups {values : List String} (some' : values ≠ []) (members : String → List String)
      (group : ∀ v ∈ values, applicationEntry root owner v = .ok (.group (members v)))
      (inner : ∀ v ∈ values, Absorbs root owner (members v)) : Absorbs root owner values

def expanded : Option (List String) → List String
  | none => ["any"]
  | some names => sortedSet names

theorem mem_sortedSet {a : String} : a ∈ sortedSet names ↔ a ∈ names := by
  rw [sortedSet, List.mem_insertionSort, List.mem_dedup]

theorem sortedSet_any : sortedSet names = ["any"] ↔ names ≠ [] ∧ ∀ a ∈ names, a = "any" := by
  constructor
  · intro same
    have each (a : String) : a ∈ names ↔ a = "any" := by rw [← mem_sortedSet, same, List.mem_singleton]
    exact ⟨List.ne_nil_of_mem ((each "any").mpr rfl), fun a member => (each a).mp member⟩
  · rintro ⟨some', all⟩
    have single : names.dedup = ["any"] := by
      have nodup := List.nodup_dedup names
      have inside : ∀ a ∈ names.dedup, a = "any" := fun a member => all a (List.mem_dedup.mp member)
      have nonempty : names.dedup ≠ [] := by
        obtain ⟨a, member⟩ := List.exists_mem_of_ne_nil _ some'
        exact List.ne_nil_of_mem (List.mem_dedup.mpr member)
      rcases whole : names.dedup with _ | ⟨a, _ | ⟨b, rest⟩⟩
      · exact absurd whole nonempty
      · rw [inside a (by rw [whole]; exact List.mem_cons_self)]
      · rw [whole] at nodup inside
        have first := inside a (by simp)
        have second := inside b (by simp)
        rw [first, second] at nodup
        simp at nodup
    rw [sortedSet, single]
    rfl

/-! ### One expansion -/

/-- What a name that is not `any` adds. -/
def part (root : Config) (owner : Vsys) (inner : List String → Except String (Option (List String))) (value : String) :
    Except String (List String) :=
  match find root owner Objects.applicationGroup value with
  | some [] => throw ("Empty application group: " ++ value)
  | some (m :: ms) => (inner (m :: ms)).map expanded
  | none =>
    if value ∈ owner.objects.application ∨ value ∈ root.shared.application then pure [value]
    else throw ("Application filter or unresolved application requires an App-ID provider: " ++ value)

def visitApplication (root : Config) (owner : Vsys) (inner : List String → Except String (Option (List String)))
    (stack : List String) (out : Option (List String)) (value : String) : Except String (Option (List String)) :=
  match out with
  | none => .ok none
  | some out =>
    if value = "any" then .ok none
    else if value ∈ stack ∨ stackLimit < stack.length then .error "Application group cycle or excessive nesting"
    else
      part root owner inner value >>= fun more =>
        if 256 < (out ++ more).length then .error "Expanded application list exceeds 256 entries" else .ok (some (out ++ more))

theorem expandApplications_succ : expandApplications root owner (fuel + 1) stack values =
    values.foldlM (fun out value =>
      visitApplication root owner (expandApplications root owner fuel (stack ++ [value])) stack out value) (some []) := by
  rw [expandApplications]
  congr
  funext out value
  cases out with
  | none => rfl
  | some out =>
    unfold visitApplication
    dsimp only
    by_cases any : value = "any"
    · rw [if_pos any, if_pos any]
      rfl
    rw [if_neg any, if_neg any]
    by_cases refused : value ∈ stack ∨ stackLimit < stack.length
    · rw [if_pos refused, if_pos refused]
      rfl
    rw [if_neg refused, if_neg refused]
    unfold part
    cases find root owner Objects.applicationGroup value with
    | none =>
      dsimp only
      by_cases known : value ∈ owner.objects.application ∨ value ∈ root.shared.application
      · rw [if_pos known, if_pos known]
        rfl
      · rw [if_neg known, if_neg known]
        rfl
    | some members =>
      cases members with
      | nil => rfl
      | cons m ms =>
        dsimp only [bind, Except.bind]
        cases expandApplications root owner fuel (stack ++ [value]) (m :: ms) with
        | error e => rfl
        | ok inner => cases inner <;> rfl

variable {result : Option (List String)}

theorem visitApplication_ok {inner : List String → Except String (Option (List String))} {out : List String}
    (visited : visitApplication root owner inner stack (some out) v = .ok result) :
    (v = "any" ∧ result = none) ∨
      (v ≠ "any" ∧ v ∉ stack ∧ ∃ more, part root owner inner v = .ok more ∧ result = some (out ++ more)) := by
  unfold visitApplication at visited
  dsimp only at visited
  by_cases any : v = "any"
  · rw [if_pos any] at visited
    cases visited
    exact .inl ⟨any, rfl⟩
  rw [if_neg any] at visited
  by_cases refused : v ∈ stack ∨ stackLimit < stack.length
  · rw [if_pos refused] at visited
    cases visited
  rw [if_neg refused] at visited
  obtain ⟨more, read, visited⟩ := bind_ok visited
  split at visited
  · cases visited
  · cases visited
    exact .inr ⟨any, fun opened => refused (.inl opened), more, read, rfl⟩

theorem visits_none (inner : String → List String → Except String (Option (List String))) :
    values.foldlM (fun out value => visitApplication root owner (inner value) stack out value) none = .ok none := by
  induction values with
  | nil => rfl
  | cons v values ih => exact ih

theorem visits_ok {inner : String → List String → Except String (Option (List String))} {out : List String}
    (done : values.foldlM (fun out value => visitApplication root owner (inner value) stack out value) (some out) = .ok result) :
    ("any" ∈ values ∧ result = none) ∨
      ("any" ∉ values ∧ ∃ names, result = some names ∧
        (∀ v ∈ values, v ∉ stack ∧ ∃ more, part root owner (inner v) v = .ok more) ∧
        ∀ a, a ∈ names ↔ a ∈ out ∨ ∃ v ∈ values, ∃ more, part root owner (inner v) v = .ok more ∧ a ∈ more) := by
  induction values generalizing out with
  | nil =>
    cases done
    exact .inr ⟨List.not_mem_nil, out, rfl, by simp, by simp⟩
  | cons v values ih =>
    rw [List.foldlM_cons] at done
    obtain ⟨next, first, rest⟩ := bind_ok done
    rcases visitApplication_ok first with ⟨rfl, rfl⟩ | ⟨other, closed, more, read, rfl⟩
    · rw [visits_none] at rest
      cases rest
      exact .inl ⟨List.mem_cons_self, rfl⟩
    · rcases ih rest with ⟨later, rfl⟩ | ⟨absent, names, rfl, each, gathered⟩
      · exact .inl ⟨List.mem_cons_of_mem _ later, rfl⟩
      · refine .inr ⟨?_, names, rfl, ?_, fun a => (gathered a).trans ?_⟩
        · exact fun inside => (List.mem_cons.mp inside).elim (fun same => other same.symm) absent
        · intro u member
          rcases List.mem_cons.mp member with rfl | later
          · exact ⟨closed, more, read⟩
          · exact each u later
        · constructor
          · rintro (here | ⟨u, member, found⟩)
            · rcases List.mem_append.mp here with known | added
              · exact .inl known
              · exact .inr ⟨v, List.mem_cons_self, more, read, added⟩
            · exact .inr ⟨u, List.mem_cons_of_mem _ member, found⟩
          · rintro (known | ⟨u, member, more', read', added⟩)
            · exact .inl (List.mem_append_left _ known)
            · rcases List.mem_cons.mp member with rfl | later
              · rw [read] at read'
                cases read'
                exact .inl (List.mem_append_right _ added)
              · exact .inr ⟨u, later, more', read', added⟩

theorem part_ok {inner : List String → Except String (Option (List String))} {more : List String} (other : v ≠ "any")
    (read : part root owner inner v = .ok more) :
    (applicationEntry root owner v = .ok (.leaf [v]) ∧ more = [v]) ∨
      ∃ members result, applicationEntry root owner v = .ok (.group members) ∧ members ≠ [] ∧
        inner members = .ok result ∧ more = expanded result := by
  unfold part at read
  unfold applicationEntry
  rw [if_neg other]
  cases group : find root owner Objects.applicationGroup v with
  | none =>
    rw [group] at read
    dsimp only at read ⊢
    split at read
    · rename_i known
      cases read
      rw [if_pos known]
      exact .inl ⟨rfl, rfl⟩
    · cases read
  | some members =>
    rw [group] at read
    cases members with
    | nil => cases read
    | cons m ms =>
      obtain ⟨result, done, rfl⟩ := map_ok read
      exact .inr ⟨m :: ms, result, rfl, by simp, done, rfl⟩

theorem expandApplications_ne_nil (some' : values ≠ [])
    (done : expandApplications root owner fuel stack values = .ok result) : expanded result ≠ [] := by
  induction fuel generalizing stack values result with
  | zero => cases done
  | succ fuel ih =>
    rw [expandApplications_succ] at done
    rcases visits_ok done with ⟨-, rfl⟩ | ⟨absent, names, rfl, each, gathered⟩
    · simp [expanded]
    · obtain ⟨v, member⟩ := List.exists_mem_of_ne_nil _ some'
      have other : v ≠ "any" := fun same => absent (same ▸ member)
      obtain ⟨-, more, read⟩ := each v member
      have nonempty : more ≠ [] := by
        rcases part_ok other read with ⟨-, rfl⟩ | ⟨members, inner, -, some'', done', rfl⟩
        · simp
        · exact ih some'' done'
      obtain ⟨a, inside⟩ := List.exists_mem_of_ne_nil _ nonempty
      exact List.ne_nil_of_mem (mem_sortedSet.mpr ((gathered a).mpr (.inr ⟨v, member, more, read, inside⟩)))

theorem expanded_any_iff (done : expandApplications root owner fuel stack values = .ok result) :
    expanded result = ["any"] ↔ Absorbs root owner values := by
  induction fuel generalizing stack values result with
  | zero => cases done
  | succ fuel ih =>
    rw [expandApplications_succ] at done
    rcases visits_ok done with ⟨member, rfl⟩ | ⟨absent, names, rfl, each, gathered⟩
    · exact ⟨fun _ => .any member, fun _ => rfl⟩
    · have other (v : String) (member : v ∈ values) : v ≠ "any" := fun same => absent (same ▸ member)
      rw [expanded, sortedSet_any]
      constructor
      · rintro ⟨some', all⟩
        have nonempty : values ≠ [] := by
          rintro rfl
          obtain ⟨a, inside⟩ := List.exists_mem_of_ne_nil _ some'
          simpa using (gathered a).mp inside
        have group (v : String) (member : v ∈ values) :
            ∃ members, applicationEntry root owner v = .ok (.group members) ∧ Absorbs root owner members := by
          obtain ⟨-, more, read⟩ := each v member
          have here : ∀ a ∈ more, a = "any" := fun a inside => all a ((gathered a).mpr (.inr ⟨v, member, more, read, inside⟩))
          rcases part_ok (other v member) read with ⟨-, rfl⟩ | ⟨members, inner, entry, some'', done', rfl⟩
          · exact absurd (here v (by simp)) (other v member)
          · refine ⟨members, entry, (ih done').mp ?_⟩
            have nonempty' := expandApplications_ne_nil some'' done'
            cases inner with
            | none => rfl
            | some names' =>
              refine sortedSet_any.mpr ⟨fun none' => nonempty' (by rw [none']; rfl), fun a inside => here a (mem_sortedSet.mpr inside)⟩
        choose members entry inner using group
        exact .groups nonempty (fun v => if member : v ∈ values then members v member else [])
          (fun v member => by rw [dif_pos member]; exact entry v member)
          (fun v member => by rw [dif_pos member]; exact inner v member)
      · intro absorbs
        cases absorbs with
        | any member => exact absurd member absent
        | groups some' members group inner =>
          have alone (v : String) (member : v ∈ values) : ∃ more, part root owner
              (expandApplications root owner fuel (stack ++ [v])) v = .ok more ∧ more = ["any"] := by
            obtain ⟨-, more, read⟩ := each v member
            refine ⟨more, read, ?_⟩
            rcases part_ok (other v member) read with ⟨leaf, -⟩ | ⟨members', result, entry, -, done', rfl⟩
            · rw [group v member] at leaf
              cases leaf
            · rw [group v member] at entry
              cases entry
              exact (ih done').mpr (inner v member)
          obtain ⟨v, member⟩ := List.exists_mem_of_ne_nil _ some'
          obtain ⟨more, read, same⟩ := alone v member
          refine ⟨List.ne_nil_of_mem ((gathered "any").mpr (.inr ⟨v, member, more, read, by simp [same]⟩)), fun a inside => ?_⟩
          rcases (gathered a).mp inside with never | ⟨u, member, more, read, inside⟩
          · cases never
          · obtain ⟨more', read', same⟩ := alone u member
            rw [read] at read'
            cases read'
            rw [same] at inside
            exact List.mem_singleton.mp inside

theorem expanded_reaches (done : expandApplications root owner fuel stack values = .ok result)
    (far : ¬Reaches (applicationSetting root owner) values "any") :
    (∀ a, a ∈ expanded result ↔
      ∃ n, Reaches (applicationSetting root owner) values n ∧ Stands (applicationSetting root owner) n a) ∧
      ∀ n, Reaches (applicationSetting root owner) values n → n ∉ stack ∧ ¬Cyclic (applicationSetting root owner) n := by
  induction fuel generalizing stack values result with
  | zero => cases done
  | succ fuel ih =>
    rw [expandApplications_succ] at done
    rcases visits_ok done with ⟨member, -⟩ | ⟨absent, names, rfl, each, gathered⟩
    · exact absurd (.listed member) far
    have other (v : String) (member : v ∈ values) : v ≠ "any" := fun same => absent (same ▸ member)
    -- what is known of the members of a group in the list
    have inner (v : String) (member : v ∈ values) (members : List String)
        (group : applicationEntry root owner v = .ok (.group members)) :
        ∃ result, expandApplications root owner fuel (stack ++ [v]) members = .ok result ∧
          part root owner (expandApplications root owner fuel (stack ++ [v])) v = .ok (expanded result) ∧
          ¬Reaches (applicationSetting root owner) members "any" := by
      obtain ⟨-, more, read⟩ := each v member
      rcases part_ok (other v member) read with ⟨leaf, -⟩ | ⟨members', result, entry, -, done', rfl⟩
      · rw [group] at leaf
        cases leaf
      · rw [group] at entry
        cases entry
        exact ⟨result, done', read, fun reached => far (.inside member group reached)⟩
    refine ⟨fun a => (mem_sortedSet.trans (gathered a)).trans ⟨?_, ?_⟩, fun n reached => ?_⟩
    · rintro (never | ⟨v, member, more, read, inside⟩)
      · cases never
      · rcases part_ok (other v member) read with ⟨leaf, rfl⟩ | ⟨members, result, entry, -, done', rfl⟩
        · exact ⟨v, .listed member, .inr ⟨[v], leaf, inside⟩⟩
        · obtain ⟨result', done'', -, far'⟩ := inner v member members entry
          rw [done'] at done''
          cases done''
          obtain ⟨n, reached, stands⟩ := ((ih done' far').1 a).mp inside
          exact ⟨n, .inside member entry reached, stands⟩
    · rintro ⟨n, reached, stands⟩
      obtain ⟨v, member, reached⟩ := reached.single
      refine .inr ⟨v, member, ?_⟩
      rcases reaches_single_iff.mp reached with rfl | ⟨members, group, rest⟩
      · obtain ⟨-, more, read⟩ := each n member
        refine ⟨more, read, ?_⟩
        rcases part_ok (other n member) read with ⟨leaf, rfl⟩ | ⟨members, result, entry, -⟩
        · rcases stands with wild | ⟨values', leaf', inside⟩
          · rw [show (applicationSetting root owner).entry n = applicationEntry root owner n from rfl, leaf] at wild
            cases wild
          · rw [show (applicationSetting root owner).entry n = applicationEntry root owner n from rfl, leaf] at leaf'
            cases leaf'
            exact inside
        · rcases stands with wild | ⟨values', leaf', inside⟩
          · rw [show (applicationSetting root owner).entry n = applicationEntry root owner n from rfl, entry] at wild
            cases wild
          · rw [show (applicationSetting root owner).entry n = applicationEntry root owner n from rfl, entry] at leaf'
            cases leaf'
      · obtain ⟨result, done', read, far'⟩ := inner v member members group
        exact ⟨_, read, ((ih done' far').1 a).mpr ⟨n, rest, stands⟩⟩
    · obtain ⟨v, member, reached⟩ := reached.single
      obtain ⟨closed, -⟩ := each v member
      rcases reaches_single_iff.mp reached with rfl | ⟨members, group, rest⟩
      · refine ⟨closed, ?_⟩
        rintro ⟨members, group, back⟩
        obtain ⟨result, done', -, far'⟩ := inner n member members group
        exact ((ih done' far').2 n back).1 (by simp)
      · obtain ⟨result, done', -, far'⟩ := inner v member members group
        obtain ⟨closed', acyclic⟩ := (ih done' far').2 n rest
        exact ⟨fun opened => closed' (List.mem_append_left _ opened), acyclic⟩

theorem expandApplications_fuel (enough : stackLimit < fuel + stack.length) (more : Nat) (values : List String) :
    expandApplications root owner (fuel + 1 + more) stack values = expandApplications root owner (fuel + 1) stack values := by
  have steps : ∀ out value,
      visitApplication root owner (expandApplications root owner (fuel + more) (stack ++ [value])) stack out value =
        visitApplication root owner (expandApplications root owner fuel (stack ++ [value])) stack out value := by
    intro out value
    induction fuel generalizing stack out value with
    | zero =>
      have deep : value ∈ stack ∨ stackLimit < stack.length := .inr (by omega)
      cases out with
      | none => rfl
      | some out =>
        unfold visitApplication
        dsimp only
        rw [if_pos deep, if_pos deep]
    | succ fuel ih =>
      have inner : expandApplications root owner (fuel + 1 + more) (stack ++ [value]) =
          expandApplications root owner (fuel + 1) (stack ++ [value]) := by
        funext members
        have enough' : stackLimit < fuel + (stack ++ [value]).length := by
          rw [List.length_append, List.length_singleton]
          omega
        rw [Nat.add_right_comm, expandApplications_succ, expandApplications_succ]
        congr
        funext out value
        exact ih enough' out value
      rw [inner]
  rw [Nat.add_right_comm, expandApplications_succ, expandApplications_succ]
  congr
  funext out value
  exact steps out value

end applications

/-! ### Groups and their leaves -/

/-- A list matches what the names that can be reached from it stand for, everything where
`any` is one of them, and no name that can be reached leads back to itself. -/
structure Denotes {A X : Type} (S : Setting String A) (values : List String) (holds : A → X → Prop) (matches' : X → Prop) : Prop where
  union : ∀ x, matches' x ↔ ∃ n a, Reaches S values n ∧ Stands S n a ∧ holds a x
  any : Reaches S values "any" → ∀ x, matches' x
  acyclic : ∀ n, Reaches S values n → ¬Cyclic S n

section denotes

variable {root : Config} {owner : Vsys} {values : List String}

theorem addresses_denote {out : List Block} (done : addresses root owner values = .ok out) :
    Denotes (addressSetting root owner) values (fun (b : Block) (a : UInt32) => b.contains a = true)
      (fun a => addressMatch a out = true) := by
  obtain ⟨gathered, acyclic⟩ := addresses_ok root owner done
  have union (a : UInt32) : addressMatch a out = true ↔
      ∃ n b, Reaches (addressSetting root owner) values n ∧ Stands (addressSetting root owner) n b ∧ b.contains a = true := by
    rw [addressMatch, List.any_eq_true]
    constructor
    · rintro ⟨b, member, inside⟩
      obtain ⟨n, reached, stands⟩ := (gathered b).mp member
      exact ⟨n, b, reached, stands, inside⟩
    · rintro ⟨n, b, reached, stands, inside⟩
      exact ⟨b, (gathered b).mpr ⟨n, reached, stands⟩, inside⟩
  refine ⟨union, fun reached a => (union a).mpr ⟨"any", .net 0 0, reached, .inl rfl, ?_⟩, acyclic⟩
  have small := a.toNat_lt
  simp only [Block.contains, decide_eq_true_eq]
  rw [Nat.shiftRight_eq_div_pow, Nat.div_eq_of_lt small]
  rfl

theorem addresses6_denote {out : List (Nat × Nat)} (done : addresses6 root owner values = .ok out) :
    Denotes (address6Setting root owner) values
      (fun (net : Nat × Nat) (a : BitVec 128) => (PacketTest.Network.v6 net.1 net.2).contains (.v6 a.toNat) = true)
      (fun a => PacketTest.addressMatch (.v6 a.toNat) (out.map fun net => .v6 net.1 net.2) = true) := by
  obtain ⟨gathered, acyclic⟩ := addresses6_ok root owner done
  have union (a : BitVec 128) : PacketTest.addressMatch (.v6 a.toNat) (out.map fun net => .v6 net.1 net.2) = true ↔
      ∃ n net, Reaches (address6Setting root owner) values n ∧ Stands (address6Setting root owner) n net ∧
        (PacketTest.Network.v6 net.1 net.2).contains (.v6 a.toNat) = true := by
    rw [PacketTest.addressMatch, List.any_map, List.any_eq_true]
    constructor
    · rintro ⟨net, member, inside⟩
      obtain ⟨n, reached, stands⟩ := (gathered net).mp member
      exact ⟨n, net, reached, stands, inside⟩
    · rintro ⟨n, net, reached, stands, inside⟩
      exact ⟨net, (gathered net).mpr ⟨n, reached, stands⟩, inside⟩
  refine ⟨union, fun reached a => (union a).mpr ⟨"any", (0, 0), reached, .inl rfl, ?_⟩, acyclic⟩
  simp only [PacketTest.Network.contains, decide_eq_true_eq]
  rw [Nat.shiftRight_eq_div_pow, Nat.div_eq_of_lt a.isLt]
  rfl

theorem services_denote {out : List Service} (done : services root owner values = .ok out) :
    Denotes (serviceSetting root owner) values
      (fun (s : Service) (p : PacketTest.Packet) => PacketTest.serviceMatch s p = some true)
      (fun p => PacketTest.servicesMatch (some out) p = some true) := by
  obtain ⟨gathered, acyclic⟩ := services_ok root owner done
  have union (p : PacketTest.Packet) : PacketTest.servicesMatch (some out) p = some true ↔
      ∃ n s, Reaches (serviceSetting root owner) values n ∧ Stands (serviceSetting root owner) n s ∧
        PacketTest.serviceMatch s p = some true := by
    have some' : PacketTest.servicesMatch (some out) p = some true ↔ ∃ s ∈ out, PacketTest.serviceMatch s p = some true := by
      rw [PacketTest.servicesMatch, Kleene.disj_true, List.mem_map]
    rw [some']
    constructor
    · rintro ⟨s, member, inside⟩
      obtain ⟨n, reached, stands⟩ := (gathered s).mp member
      exact ⟨n, s, reached, stands, inside⟩
    · rintro ⟨n, s, reached, stands, inside⟩
      exact ⟨s, (gathered s).mpr ⟨n, reached, stands⟩, inside⟩
  exact ⟨union, fun reached p => (union p).mpr ⟨"any", ⟨.any, [], []⟩, reached, .inl rfl, rfl⟩, acyclic⟩

theorem memberMatch_iff {out : List String} {app : String} : memberMatch out (some app) = some true ↔ out = ["any"] ∨ app ∈ out := by
  unfold memberMatch
  by_cases all : out = ["any"]
  · simp [all]
  · simp [all]

theorem stands_application {n a : String} (stands : Stands (applicationSetting root owner) n a) : a = n := by
  have entry (e : Entry String String) (known : applicationEntry root owner n = .ok e) :
      (n = "any" ∧ e = .wild "any") ∨ e = .leaf [n] ∨ ∃ members, e = .group members := by
    unfold applicationEntry at known
    split at known
    · rename_i any
      cases known
      exact .inl ⟨any, rfl⟩
    · split at known
      · cases known
      · cases known
        exact .inr (.inr ⟨_, rfl⟩)
      · split at known
        · cases known
          exact .inr (.inl rfl)
        · cases known
  rcases stands with wild | ⟨values, leaf, inside⟩
  · rcases entry _ wild with ⟨any, same⟩ | same | ⟨members, same⟩
    · cases same
      exact any.symm
    · cases same
    · cases same
  · rcases entry _ leaf with ⟨-, same⟩ | same | ⟨members, same⟩
    · cases same
    · cases same
      exact List.mem_singleton.mp inside
    · cases same

/-- Applications mean what their leaves mean exactly where a list from which `any` can be
reached absorbs and hides no cycle. -/
theorem applications_denote_iff {out : List String} (done : applications root owner values = .ok out) :
    Denotes (applicationSetting root owner) values (fun (a app : String) => a = "any" ∨ a = app)
        (fun app => memberMatch out (some app) = some true) ↔
      (Reaches (applicationSetting root owner) values "any" →
        Absorbs root owner values ∧ ∀ n, Reaches (applicationSetting root owner) values n →
        ¬Cyclic (applicationSetting root owner) n) := by
  obtain ⟨result, finished, same⟩ := map_ok done
  have shown : out = expanded result := by
    rw [← same]
    cases result <;> rfl
  subst shown
  constructor
  · intro denotes reached
    refine ⟨(expanded_any_iff finished).mp ?_, denotes.acyclic⟩
    by_contra other
    obtain ⟨app, outside⟩ := Infinite.exists_notMem_finset (expanded result).toFinset
    rcases memberMatch_iff.mp (denotes.any reached app) with same | inside
    · exact other same
    · exact outside (List.mem_toFinset.mpr inside)
  · intro given
    by_cases reached : Reaches (applicationSetting root owner) values "any"
    · obtain ⟨absorbs, acyclic⟩ := given reached
      have all (app : String) : memberMatch (expanded result) (some app) = some true :=
        memberMatch_iff.mpr (.inl ((expanded_any_iff finished).mpr absorbs))
      exact ⟨fun app => ⟨fun _ => ⟨"any", "any", reached, .inl rfl, .inl rfl⟩, fun _ => all app⟩, fun _ => all, acyclic⟩
    · obtain ⟨gathered, acyclic⟩ := expanded_reaches finished reached
      have stranger : "any" ∉ expanded result := by
        intro inside
        obtain ⟨n, there, stands⟩ := (gathered "any").mp inside
        exact reached (stands_application stands ▸ there)
      have shown (app : String) : memberMatch (expanded result) (some app) = some true ↔ app ∈ expanded result := by
        refine memberMatch_iff.trans ⟨fun either => either.resolve_left fun same => stranger ?_, .inr⟩
        rw [same]
        exact List.mem_singleton_self _
      refine ⟨fun app => (shown app).trans ((gathered app).trans ?_), fun never => absurd never reached,
        fun n there => (acyclic n there).2⟩
      constructor
      · rintro ⟨n, there, stands⟩
        exact ⟨n, app, there, stands, .inr rfl⟩
      · rintro ⟨n, a, there, stands, rfl | rfl⟩
        · exact absurd (stands_application stands ▸ there) reached
        · exact ⟨n, there, stands⟩

end denotes

/-- All expansions end, whatever the configuration, and what they return denotes the leaves
that can be reached; for applications this holds exactly where a list from which `any` can
be reached absorbs and hides no cycle. -/
theorem groups_denote (root : Config) (owner : Vsys) (values : List String) :
    (∀ out, addresses root owner values = .ok out →
      Denotes (addressSetting root owner) values (fun (b : Block) (a : UInt32) => b.contains a = true)
        (fun a => addressMatch a out = true)) ∧
    (∀ out, addresses6 root owner values = .ok out →
      Denotes (address6Setting root owner) values
        (fun (net : Nat × Nat) (a : BitVec 128) => (PacketTest.Network.v6 net.1 net.2).contains (.v6 a.toNat) = true)
        (fun a => PacketTest.addressMatch (.v6 a.toNat) (out.map fun net => .v6 net.1 net.2) = true)) ∧
    (∀ out, services root owner values = .ok out →
      Denotes (serviceSetting root owner) values
        (fun (s : Service) (p : PacketTest.Packet) => PacketTest.serviceMatch s p = some true)
        (fun p => PacketTest.servicesMatch (some out) p = some true)) ∧
    (∀ out, applications root owner values = .ok out →
      (Denotes (applicationSetting root owner) values (fun (a app : String) => a = "any" ∨ a = app)
          (fun app => memberMatch out (some app) = some true) ↔
        (Reaches (applicationSetting root owner) values "any" → Absorbs root owner values ∧
          ∀ n, Reaches (applicationSetting root owner) values n → ¬Cyclic (applicationSetting root owner) n))) ∧
    ∀ more, expandAddresses root owner (stackLimit + 2 + more) [] values = expandAddresses root owner (stackLimit + 2) [] values ∧
      expand (address6Setting root owner) (stackLimit + 2 + more) [] values =
        expand (address6Setting root owner) (stackLimit + 2) [] values ∧
      expandServices root owner (stackLimit + 2 + more) [] values = expandServices root owner (stackLimit + 2) [] values ∧
      expandApplications root owner (stackLimit + 2 + more) [] values = expandApplications root owner (stackLimit + 2) [] values := by
  refine ⟨fun out => addresses_denote, fun out => addresses6_denote, fun out => services_denote,
    fun out => applications_denote_iff, fun more => ⟨?_, ?_, ?_, ?_⟩⟩
  · rw [expandAddresses_eq, expandAddresses_eq]
    exact expand_fuel (Nat.lt_succ_self stackLimit) more values
  · exact expand_fuel (Nat.lt_succ_self stackLimit) more values
  · rw [expandServices_eq, expandServices_eq]
    exact expand_fuel (Nat.lt_succ_self stackLimit) more values
  · exact expandApplications_fuel (Nat.lt_succ_self stackLimit) more values

def openGroup : Vsys where
  name := "vsys1"
  objects := { application := ["web"], applicationGroup := [("tools", ["any"]), ("loop", ["loop"])] }

/-- A group with `any` in it beside an application, and a cycle behind `any`. -/
theorem openGroup_lost :
    applications {} openGroup ["tools", "web"] = .ok ["any", "web"] ∧
      Reaches (applicationSetting {} openGroup) ["tools", "web"] "any" ∧ memberMatch ["any", "web"] (some "ssh") = some false ∧
      applications {} openGroup ["any", "loop"] = .ok ["any"] ∧
      Reaches (applicationSetting {} openGroup) ["any", "loop"] "loop" ∧ Cyclic (applicationSetting {} openGroup) "loop" := by
  have tools : (applicationSetting {} openGroup).entry "tools" = .ok (.group ["any"]) := rfl
  have loop : (applicationSetting {} openGroup).entry "loop" = .ok (.group ["loop"]) := rfl
  refine ⟨by decide +kernel, .inside (by simp) tools (.listed (by simp)), by decide +kernel, by decide +kernel,
    .listed (by simp), ["loop"], loop, .listed (by simp)⟩

end FfnNgfw.Policy
