import FfnNgfw.Policy.Groups
import Mathlib.Logic.Relation

/-!
# What a name means to the editor and to the compilers

The editor looks a name up in the scope where it is used and then among the shared objects, an
object before a group in each. `Resolver` looks for an object in both before it looks for a group,
and it looks up the members of a shared group from the virtual system again.
-/

namespace FfnNgfw.Policy.Naming
open Expansion

/-- The addresses or the services of a virtual system and the shared ones: which objects there are, and the members of each group,
`none` for a dynamic one. -/
structure Space where
  object : Bool → String → Bool
  group : Bool → String → Option (Option (List String))

structure Key where
  shared : Bool
  group : Bool
  name : String
deriving DecidableEq

section spaces

variable (root : Config) (owner : Vsys)

def objectsOf (shared : Bool) : Objects := if shared then root.shared else owner.objects

def addressSpace : Space where
  object shared name := ((objectsOf root owner shared).address.lookup name).isSome
  group shared name := ((objectsOf root owner shared).addressGroup.lookup name).map fun
    | .static members => some members
    | .dynamic => none

def serviceSpace : Space where
  object shared name := ((objectsOf root owner shared).service.lookup name).isSome
  group shared name := ((objectsOf root owner shared).serviceGroup.lookup name).map some

end spaces

section editor

variable (sp : Space)

/-- `key in index` -/
def Space.has (k : Key) : Bool := if k.group then (sp.group k.shared k.name).isSome else sp.object k.shared k.name

def resolve (shared : Bool) (name : String) : Option Key :=
  ((if shared then [true] else [false, true]).flatMap fun owner => [⟨owner, false, name⟩, ⟨owner, true, name⟩]).find? sp.has

/-- `group_members` of a static group. -/
def members (k : Key) : Option (List String) := if k.group then (sp.group k.shared k.name).join else none

/-- The search of `validate_group`, as many levels down: the groups that are finished afterwards. -/
def visit : Nat → List Key → List Key → Key → Except String (List Key)
  | 0, _, _, _ => .error "Group nesting exceeds 64 levels"
  | left + 1, active, visited, current =>
    if current ∈ active then .error "Group membership would create a cycle"
    else if current ∈ visited ∨ current.group = false then .ok visited
    else
      match members sp current with
      | none => .error "Dynamic groups cannot be nested through this editor"
      | some names => do
        let done ← names.foldlM
          (fun visited name =>
            match resolve sp current.shared name with
            | none => .error ("Group member does not exist in this scope: " ++ name)
            | some target => visit left (current :: active) visited target) visited
        return current :: done

end editor

def distinctNames (o : Objects) : Bool :=
  decide ((o.address.map Prod.fst).Nodup) && decide ((o.addressGroup.map Prod.fst).Nodup) && decide ((o.service.map Prod.fst).Nodup) &&
    decide ((o.serviceGroup.map Prod.fst).Nodup)

def validateGroup (root : Config) (sp : Space) (key : Key) : Except String Unit :=
  if !(root.shared :: (owners root).map Vsys.objects).all distinctNames then
    .error "Configuration contains duplicate object names; repair before editing"
  else (visit sp 65 [] [] key).map fun _ => ()

/-! ### The compilers -/

/-- The scope in which `Resolver.find` finds a name. -/
def findScope (there : Bool → Bool) : Option Bool := if there false then some false else if there true then some true else none

/-- The entry that `Resolver` expands for a name; `any` and literals have none. -/
def selected (sp : Space) (name : String) : Option Key :=
  if name = "any" then none
  else
    match findScope (sp.object · name) with
    | some shared => some ⟨shared, false, name⟩
    | none => (findScope fun shared => (sp.group shared name).isSome).map fun shared => ⟨shared, true, name⟩

structure Reads {A : Type} (sp : Space) (S : Setting String A) (empty : String → String) : Prop where
  static : ∀ k m ms, selected sp k.name = some k → members sp k = some (m :: ms) → S.entry k.name = .ok (.group (m :: ms))
  nothing : ∀ k, selected sp k.name = some k → members sp k = some [] → S.entry k.name = .error (empty k.name)

section spaces

variable {root : Config} {owner : Vsys} {sp : Space} {shared : Bool} {name : String} {k : Key}

theorem find_scope {α : Type} (kind : Objects → List (String × α)) (name : String) :
    find root owner kind name =
      (findScope fun shared => ((kind (objectsOf root owner shared)).lookup name).isSome).bind fun shared =>
        (kind (objectsOf root owner shared)).lookup name := by
  unfold find findScope objectsOf
  simp only [Bool.false_eq_true, if_false, if_true]
  cases here : (kind owner.objects).lookup name with
  | some x => simp [here]
  | none =>
    cases there : (kind root.shared).lookup name with
    | some x => simp [there]
    | none => simp

theorem selected_name (h : selected sp name = some k) : k.name = name := by
  unfold selected at h
  split at h
  · cases h
  split at h
  · cases h
    rfl
  · obtain ⟨shared, -, rfl⟩ := Option.map_eq_some_iff.mp h
    rfl

theorem selected_ne_any (h : selected sp name = some k) : name ≠ "any" := by
  rintro rfl
  cases h

/-- Where a group is selected there is no object of its name, and the group is the one that is found. -/
theorem selected_group (h : selected sp k.name = some k) (group : k.group = true) :
    findScope (sp.object · k.name) = none ∧ (findScope fun shared => (sp.group shared k.name).isSome) = some k.shared := by
  unfold selected at h
  split at h
  · cases h
  split at h
  · have h := Option.some.inj h
    rw [← h] at group
    cases group
  · rename_i none'
    obtain ⟨shared, found, same⟩ := Option.map_eq_some_iff.mp h
    refine ⟨none', ?_⟩
    rw [← same]
    exact found

theorem members_group {names : List String} (h : members sp k = some names) : k.group = true ∧
    sp.group k.shared k.name = some (some names) := by
  unfold members at h
  split at h
  · rename_i group
    exact ⟨group, Option.join_eq_some_iff.mp h⟩
  · cases h

theorem address_reads : Reads (addressSpace root owner) (addressSetting root owner)
    ("NAT requires a nonempty static address group: " ++ ·) := by
  have entry : ∀ k names, selected (addressSpace root owner) k.name = some k → members (addressSpace root owner) k = some names →
      find root owner Objects.address k.name = none ∧ find root owner Objects.addressGroup k.name = some (.static names) ∧
        k.name ≠ "any" := by
    intro k names chosen inside
    obtain ⟨group, listed⟩ := members_group inside
    obtain ⟨noObject, found⟩ := selected_group chosen group
    refine ⟨?_, ?_, selected_ne_any chosen⟩
    · rw [find_scope]
      exact congrArg (Option.bind · _) noObject
    · have found : (findScope fun shared => ((objectsOf root owner shared).addressGroup.lookup k.name).isSome) = some k.shared := by
        rw [← found]
        congr
        funext shared
        exact Option.isSome_map.symm
      rw [find_scope, found]
      obtain ⟨g, there, same⟩ := Option.map_eq_some_iff.mp listed
      cases g with
      | static ms => exact (Option.some.inj same) ▸ there
      | dynamic => cases same
  constructor
  · intro k m ms chosen inside
    obtain ⟨noObject, found, plain⟩ := entry k _ chosen inside
    show addressEntry root owner k.name = _
    rw [addressEntry, if_neg plain, noObject, found]
  · intro k chosen inside
    obtain ⟨noObject, found, plain⟩ := entry k _ chosen inside
    show addressEntry root owner k.name = _
    rw [addressEntry, if_neg plain, noObject, found]

theorem service_reads : Reads (serviceSpace root owner) (serviceSetting root owner) ("Empty service group: " ++ ·) := by
  have entry : ∀ k names, selected (serviceSpace root owner) k.name = some k → members (serviceSpace root owner) k = some names →
      find root owner Objects.service k.name = none ∧ find root owner Objects.serviceGroup k.name = some names ∧ k.name ≠ "any" := by
    intro k names chosen inside
    obtain ⟨group, listed⟩ := members_group inside
    obtain ⟨noObject, found⟩ := selected_group chosen group
    refine ⟨?_, ?_, selected_ne_any chosen⟩
    · rw [find_scope]
      exact congrArg (Option.bind · _) noObject
    · have found : (findScope fun shared => ((objectsOf root owner shared).serviceGroup.lookup k.name).isSome) = some k.shared := by
        rw [← found]
        congr
        funext shared
        exact Option.isSome_map.symm
      rw [find_scope, found]
      obtain ⟨ms, there, same⟩ := Option.map_eq_some_iff.mp listed
      exact (Option.some.inj same) ▸ there
  constructor
  · intro k m ms chosen inside
    obtain ⟨noObject, found, plain⟩ := entry k _ chosen inside
    show serviceEntry root owner k.name = _
    rw [serviceEntry, if_neg plain, noObject, found]
  · intro k chosen inside
    obtain ⟨noObject, found, plain⟩ := entry k _ chosen inside
    show serviceEntry root owner k.name = _
    rw [serviceEntry, if_neg plain, noObject, found]

end spaces

/-- A group of the virtual system has the name of a shared object, and no object of the virtual system has it. -/
def Shadows (sp : Space) (name : String) : Prop := sp.object false name = false ∧ (sp.group false name).isSome = true ∧
    sp.object true name = true

instance decidableShadows (sp : Space) (name : String) : Decidable (Shadows sp name) :=
  inferInstanceAs (Decidable (sp.object false name = false ∧ (sp.group false name).isSome = true ∧ sp.object true name = true))

theorem agree_iff (sp : Space) (name : String) :
    resolve sp false name = selected sp name ↔ ¬ Shadows sp name ∧ (name = "any" → resolve sp false name = none) := by
  unfold resolve selected Shadows findScope Space.has
  by_cases any : name = "any"
  · subst any
    simp only [if_true, true_implies]
    constructor
    · intro none'
      refine ⟨?_, none'⟩
      rintro ⟨-, group, -⟩
      rw [List.find?_eq_none] at none'
      exact none' ⟨false, true, "any"⟩ (by decide) group
    · exact fun both => both.2
  · rw [if_neg any]
    cases mine : sp.object false name <;> cases theirs : sp.object true name <;> cases group : sp.group false name <;>
      cases other : sp.group true name <;> simp [mine, theirs, group, other, any]

/-! ### What the editor has checked -/

/-- A group leads to the entries that the editor takes its members for. -/
def Leads (sp : Space) (k t : Key) : Prop := ∃ names, members sp k = some names ∧ ∃ name ∈ names, resolve sp k.shared name = some t

def LeadsTo (sp : Space) : Key → Key → Prop := Relation.ReflTransGen (Leads sp)

section checked

variable {sp : Space}

/-- Every member of a finished group is there, and the groups among them are finished too. -/
def Finished (sp : Space) (visited : List Key) : Prop :=
  ∀ k ∈ visited, ∃ names, members sp k = some names ∧
    ∀ name ∈ names, ∃ t, resolve sp k.shared name = some t ∧ (t.group = true → t ∈ visited)

structure Visited (sp : Space) (visited done : List Key) : Prop where
  kept : ∀ k ∈ visited, k ∈ done
  finished : Finished sp done

theorem visit_members {left : Nat} {active : List Key} {shared : Bool}
    (inner : ∀ {visited done t}, Finished sp visited → visit sp left active visited t = .ok done →
      Visited sp visited done ∧ (t.group = true → t ∈ done)) {names : List String} {visited done : List Key}
    (finished : Finished sp visited)
    (h : names.foldlM
      (fun visited name =>
        match resolve sp shared name with
        | none => .error ("Group member does not exist in this scope: " ++ name)
        | some target => visit sp left active visited target) visited = Except.ok done) :
    Visited sp visited done ∧ ∀ name ∈ names, ∃ t, resolve sp shared name = some t ∧ (t.group = true → t ∈ done) := by
  induction names generalizing visited with
  | nil =>
    cases h
    exact ⟨⟨fun k there => there, finished⟩, fun name no => (nomatch no)⟩
  | cons name names ih =>
    rw [List.foldlM_cons] at h
    obtain ⟨next, first, rest⟩ := bind_ok h
    cases found : resolve sp shared name with
    | none =>
      rw [found] at first
      cases first
    | some target =>
      rw [found] at first
      obtain ⟨step, own⟩ := inner finished first
      obtain ⟨later, others⟩ := ih step.finished rest
      refine ⟨⟨fun k there => later.kept k (step.kept k there), later.finished⟩, ?_⟩
      intro n member
      rcases List.mem_cons.mp member with rfl | member
      · exact ⟨target, found, fun group => later.kept _ (own group)⟩
      · exact others n member

theorem visit_ok {left : Nat} {active visited done : List Key} {current : Key} (finished : Finished sp visited)
    (h : visit sp left active visited current = .ok done) : Visited sp visited done ∧ (current.group = true → current ∈ done) := by
  induction left generalizing active visited done current with
  | zero => cases h
  | succ left ih =>
    rw [visit] at h
    split at h
    · cases h
    split at h
    · rename_i known
      cases h
      exact ⟨⟨fun k there => there, finished⟩, fun group => known.resolve_right fun no => (nomatch group.symm.trans no)⟩
    split at h
    · cases h
    · rename_i names listed
      obtain ⟨inside, searched, last⟩ := bind_ok h
      cases last
      obtain ⟨⟨kept, closed⟩, all⟩ := visit_members ih finished searched
      refine ⟨⟨fun k there => List.mem_cons_of_mem _ (kept k there), ?_⟩, fun _ => List.mem_cons_self⟩
      intro k member
      rcases List.mem_cons.mp member with rfl | member
      · refine ⟨names, listed, ?_⟩
        intro name there
        obtain ⟨t, found, done⟩ := all name there
        exact ⟨t, found, fun group => List.mem_cons_of_mem _ (done group)⟩
      · obtain ⟨names', listed', all'⟩ := closed k member
        refine ⟨names', listed', ?_⟩
        intro name there
        obtain ⟨t, found, done⟩ := all' name there
        exact ⟨t, found, fun group => List.mem_cons_of_mem _ (done group)⟩

theorem accepted_members {root : Config} {g k : Key} (accepted : validateGroup root sp g = .ok ()) (leads : LeadsTo sp g k)
    (group : k.group = true) : ∃ names, members sp k = some names ∧ ∀ name ∈ names, ∃ t, resolve sp k.shared name = some t := by
  unfold validateGroup at accepted
  split at accepted
  · cases accepted
  obtain ⟨done, searched, -⟩ := map_ok accepted
  obtain ⟨⟨-, finished⟩, own⟩ := visit_ok (fun _ no => absurd no List.not_mem_nil) searched
  have inside : k.group = true → k ∈ done := by
    clear group
    induction leads with
    | refl => exact own
    | tail _ edge ih =>
      obtain ⟨names, listed, name, member, found⟩ := edge
      obtain ⟨names', listed', all⟩ := finished _ (ih (members_group listed).1)
      obtain rfl := Option.some.inj (listed.symm.trans listed')
      obtain ⟨t, found', there⟩ := all name member
      obtain rfl := Option.some.inj (found.symm.trans found')
      exact there
  obtain ⟨names, listed, all⟩ := finished k (inside group)
  refine ⟨names, listed, ?_⟩
  intro name member
  obtain ⟨t, found, -⟩ := all name member
  exact ⟨t, found⟩

def nests (sp : Space) : Nat → Key → Bool
  | 0, k => !k.group
  | n + 1, k =>
    match members sp k with
    | none => true
    | some names => names.all fun name =>
      match resolve sp k.shared name with
      | none => true
      | some t => nests sp n t

theorem nests_succ {n : Nat} {k : Key} : nests sp (n + 1) k = true ↔ ∀ t, Leads sp k t → nests sp n t = true := by
  rw [nests]
  constructor
  · rintro all t ⟨names, listed, name, member, found⟩
    rw [listed] at all
    have one := List.all_eq_true.mp all name member
    rw [found] at one
    exact one
  · intro all
    split
    · rfl
    · rename_i names listed
      apply List.all_eq_true.mpr
      intro name member
      split
      · rfl
      · rename_i t found
        exact all t ⟨names, listed, name, member, found⟩

theorem nests_acyclic {n : Nat} {k : Key} (shallow : nests sp n k = true) : ¬ Relation.TransGen (Leads sp) k k := by
  induction n generalizing k with
  | zero =>
    intro cycle
    obtain ⟨t, ⟨names, listed, -⟩, -⟩ := Relation.TransGen.head'_iff.mp cycle
    rw [nests, (members_group listed).1] at shallow
    cases shallow
  | succ n ih =>
    intro cycle
    obtain ⟨t, edge, back⟩ := Relation.TransGen.head'_iff.mp cycle
    exact ih (nests_succ.mp shallow t edge) (Relation.TransGen.tail' back edge)

end checked

/-! ### What the compilers expand -/

section expanded

variable {A : Type} {sp : Space} {S : Setting String A} {empty : String → String} {g : Key}

/-- Every name that the editor meets below a group stands for the same entry to the compilers. -/
structure Alike (sp : Space) (g : Key) : Prop where
  own : selected sp g.name = some g
  members : ∀ k, LeadsTo sp g k → ∀ names, members sp k = some names → ∀ name ∈ names, resolve sp k.shared name = selected sp name

/-- Below a group there are members that exist, and what is no group has values. -/
structure Solid (sp : Space) (S : Setting String A) (g : Key) : Prop where
  groups : ∀ k, LeadsTo sp g k → k.group = true → ∃ names, members sp k = some names ∧
    ∀ name ∈ names, ∃ t, resolve sp k.shared name = some t
  leaves : ∀ k, LeadsTo sp g k → k.group = false → ∃ values, S.entry k.name = .ok (.leaf values)

/-- The entries that a list of names stands for, all of them below the group. -/
def Below (sp : Space) (g : Key) (values : List String) : Prop := ∀ v ∈ values, ∃ k, selected sp v = some k ∧ LeadsTo sp g k

theorem below_members (alike : Alike sp g) (solid : Solid sp S g) {k : Key} (leads : LeadsTo sp g k) {names : List String}
    (listed : members sp k = some names) {name : String} (member : name ∈ names) : ∃ t, selected sp name = some t ∧ Leads sp k t := by
  obtain ⟨names', listed', all⟩ := solid.groups k leads (members_group listed).1
  obtain rfl := Option.some.inj (listed.symm.trans listed')
  obtain ⟨t, found⟩ := all name member
  exact ⟨t, (alike.members k leads names listed name member).symm.trans found, names, listed, name, member, found⟩

/-- The errors that do not concern the names: too many values, and a group without members. -/
inductive Excused (sp : Space) (S : Setting String A) (empty : String → String) (g : Key) : Except String (List A) → Prop where
  | done (out : List A) : Excused sp S empty g (.ok out)
  | large : Excused sp S empty g (.error S.large)
  | empty (k : Key) (leads : LeadsTo sp g k) (listed : members sp k = some []) : Excused sp S empty g (.error (empty k.name))

variable {values stack : List String}

theorem foldlM_excused {visit : List A → String → Except String (List A)} {out : List A}
    (each : ∀ v ∈ values, ∀ out, Excused sp S empty g (visit out v)) : Excused sp S empty g (values.foldlM visit out) := by
  induction values generalizing out with
  | nil => exact .done out
  | cons v values ih =>
    rw [List.foldlM_cons]
    have first := each v List.mem_cons_self out
    cases visited : visit out v with
    | error e =>
      rw [visited] at first
      cases first with
      | large => exact .large
      | empty k leads listed => exact .empty k leads listed
    | ok next => exact ih fun v member => each v (List.mem_cons_of_mem _ member)

theorem add_excused (out more : List A) : Excused sp S empty g (S.add out more) := by
  unfold Setting.add
  split
  · exact .large
  · exact .done _

theorem bind_excused {x : Except String (List A)} {f : List A → Except String (List A)} (first : Excused sp S empty g x)
    (later : ∀ more, Excused sp S empty g (f more)) : Excused sp S empty g (x >>= f) := by
  cases first with
  | done more => exact later more
  | large => exact .large
  | empty k leads listed => exact .empty k leads listed

theorem visit_excused (reads : Reads sp S empty) (solid : Solid sp S g) {inner : List String → Except String (List A)}
    {out : List A} {k : Key} (chosen : selected sp k.name = some k) (leads : LeadsTo sp g k)
    (fresh : ¬(S.limit < stack.length ∨ k.name ∈ stack))
    (groups : ∀ m ms, members sp k = some (m :: ms) → Excused sp S empty g (inner (m :: ms))) :
    Excused sp S empty g (S.visit inner stack out k.name) := by
  rw [visit_fresh fresh]
  cases group : k.group with
  | false =>
    obtain ⟨values, leaf⟩ := solid.leaves k leads group
    rw [leaf]
    exact add_excused out values
  | true =>
    obtain ⟨names, listed, -⟩ := solid.groups k leads group
    cases names with
    | nil =>
      rw [reads.nothing k chosen listed]
      exact .empty k leads listed
    | cons m ms =>
      rw [reads.static k m ms chosen listed]
      exact bind_excused (groups m ms listed) fun more => add_excused out (S.tidy more)

theorem expand_shallow (reads : Reads sp S empty) (alike : Alike sp g) (solid : Solid sp S g) {n fuel : Nat}
    (below : ∀ v ∈ values, ∃ k, selected sp v = some k ∧ LeadsTo sp g k ∧ nests sp n k = true)
    (opened : ∀ u ∈ stack, ∀ v ∈ values, ∃ k t, selected sp u = some k ∧ selected sp v = some t ∧ Relation.TransGen (Leads sp) k t)
    (room : n + stack.length ≤ S.limit) (enough : n < fuel) : Excused sp S empty g (expand S fuel stack values) := by
  induction n generalizing fuel stack values with
  | zero =>
    obtain ⟨fuel, rfl⟩ := Nat.exists_eq_succ_of_ne_zero (Nat.ne_of_gt enough)
    rw [expand]
    apply foldlM_excused
    intro v member out
    obtain ⟨k, chosen, leads, shallow⟩ := below v member
    obtain rfl := selected_name chosen
    apply visit_excused reads solid chosen leads
    · rintro (deep | again)
      · omega
      · obtain ⟨k', t, first, second, cycle⟩ := opened _ again _ member
        obtain rfl := Option.some.inj (first.symm.trans chosen)
        obtain rfl := Option.some.inj (second.symm.trans chosen)
        exact nests_acyclic shallow cycle
    · intro m ms listed
      rw [nests, (members_group listed).1] at shallow
      cases shallow
  | succ n ih =>
    obtain ⟨fuel, rfl⟩ := Nat.exists_eq_succ_of_ne_zero (Nat.ne_of_gt (Nat.zero_lt_of_lt enough))
    rw [expand]
    apply foldlM_excused
    intro v member out
    obtain ⟨k, chosen, leads, shallow⟩ := below v member
    obtain rfl := selected_name chosen
    apply visit_excused reads solid chosen leads
    · rintro (deep | again)
      · omega
      · obtain ⟨k', t, first, second, cycle⟩ := opened _ again _ member
        obtain rfl := Option.some.inj (first.symm.trans chosen)
        obtain rfl := Option.some.inj (second.symm.trans chosen)
        exact nests_acyclic shallow cycle
    · intro m ms listed
      apply ih
      · intro name inside
        obtain ⟨t, found, edge⟩ := below_members alike solid leads listed inside
        exact ⟨t, found, leads.tail edge, nests_succ.mp shallow t edge⟩
      · intro u there name inside
        obtain ⟨t, found, edge⟩ := below_members alike solid leads listed inside
        rcases List.mem_append.mp there with before | own
        · obtain ⟨k', t', first, second, path⟩ := opened u before _ member
          obtain rfl := Option.some.inj (second.symm.trans chosen)
          exact ⟨k', t, first, found, path.tail edge⟩
        · obtain rfl := List.mem_singleton.mp own
          exact ⟨k, t, chosen, found, .single edge⟩
      · rw [List.length_append, List.length_singleton]
        omega
      · omega

theorem nests_of_expand (reads : Reads sp S empty) (alike : Alike sp g) (solid : Solid sp S g) {fuel : Nat}
    {out : List A} (below : Below sp g values) (done : expand S fuel stack values = .ok out) :
    ∀ v ∈ values, ∀ k, selected sp v = some k → stack.length ≤ S.limit ∧ nests sp (S.limit - stack.length) k = true := by
  induction fuel generalizing stack values out with
  | zero => cases done
  | succ fuel ih =>
    intro v member k chosen
    rw [expand] at done
    obtain ⟨-, each, -⟩ := foldlM_visits visit_grows done
    obtain ⟨before, after, visited, -⟩ := each v member
    obtain ⟨fresh, more, -, kinds⟩ := Expansion.visit_ok visited
    obtain ⟨k', chosen', leads⟩ := below v member
    obtain rfl := Option.some.inj (chosen.symm.trans chosen')
    obtain rfl := selected_name chosen
    have room : stack.length ≤ S.limit := by omega
    refine ⟨room, ?_⟩
    cases group : k.group with
    | false =>
      have none' : members sp k = none := by rw [members, group, if_neg Bool.false_ne_true]
      cases S.limit - stack.length with
      | zero => rw [nests, group]; rfl
      | succ n => rw [nests, none']
    | true =>
      obtain ⟨names, listed, -⟩ := solid.groups k leads group
      cases names with
      | nil =>
        have fails := reads.nothing k chosen listed
        rcases kinds with leaf | ⟨a, wild, -⟩ | ⟨names', gathered, found, -⟩
        · cases leaf.symm.trans fails
        · cases wild.symm.trans fails
        · cases found.symm.trans fails
      | cons m ms =>
        have entry := reads.static k m ms chosen listed
        rcases kinds with leaf | ⟨a, wild, -⟩ | ⟨names', gathered, found, expanded, -⟩
        · cases leaf.symm.trans entry
        · cases wild.symm.trans entry
        obtain rfl : m :: ms = names' := Entry.group.inj (Except.ok.inj (entry.symm.trans found))
        have inside : Below sp g (m :: ms) := by
          intro name there
          obtain ⟨t, same, edge⟩ := below_members alike solid leads listed there
          exact ⟨t, same, leads.tail edge⟩
        have deeper := ih inside expanded
        rw [List.length_append, List.length_singleton] at deeper
        obtain ⟨t, same, -⟩ := inside m List.mem_cons_self
        have left : S.limit - stack.length = S.limit - (stack.length + 1) + 1 := by
          have := (deeper m List.mem_cons_self t same).1
          omega
        rw [left, nests_succ]
        rintro t ⟨names, listed', name, there, found⟩
        obtain rfl := Option.some.inj (listed.symm.trans listed')
        exact (deeper name there t ((alike.members k leads _ listed name there).symm.trans found)).2

/-- The name of a group: names are no reason to fail where its groups nest as deep as the stack takes,
and elsewhere the expansion fails. -/
theorem expand_group (reads : Reads sp S empty) (alike : Alike sp g) (solid : Solid sp S g) :
    (nests sp S.limit g = true → Excused sp S empty g (expand S (S.limit + 2) [] [g.name])) ∧
      ∀ out, expand S (S.limit + 2) [] [g.name] = .ok out → nests sp S.limit g = true := by
  constructor
  · intro shallow
    apply expand_shallow (n := S.limit) reads alike solid
    · intro v member
      obtain rfl := List.mem_singleton.mp member
      exact ⟨g, alike.own, .refl, shallow⟩
    · exact fun u no => absurd no List.not_mem_nil
    · exact Nat.le_refl _
    · omega
  · intro out done
    have below : Below sp g [g.name] := by
      intro v member
      obtain rfl := List.mem_singleton.mp member
      exact ⟨g, alike.own, .refl⟩
    exact (nests_of_expand reads alike solid below done g.name (List.mem_singleton_self _) g alike.own).2

end expanded

section results

variable (root : Config) (owner : Vsys)

/-- The names of a group are no reason for its expansion to fail; it may have too many values, or meet a group without members. -/
def Expands {A : Type} (sp : Space) (g : Key) (large : String) (empty : String → String) (result : Except String (List A)) : Prop :=
  (∃ out, result = .ok out) ∨ result = .error large ∨ ∃ k, LeadsTo sp g k ∧ members sp k = some [] ∧ result = .error (empty k.name)

theorem Excused.expands {A B : Type} {sp : Space} {S : Setting String A} {empty : String → String} {g : Key}
    {result : Except String (List A)}
    (excused : Excused sp S empty g result) (f : List A → List B) : Expands sp g S.large empty (result.map f) := by
  cases excused with
  | done out => exact .inl ⟨f out, rfl⟩
  | large => exact .inr (.inl rfl)
  | empty k leads listed => exact .inr (.inr ⟨k, leads, listed, rfl⟩)

variable {root owner}

theorem address_group {g : Key} (accepted : validateGroup root (addressSpace root owner) g = .ok ())
    (alike : Alike (addressSpace root owner) g)
    (static : ∀ k, LeadsTo (addressSpace root owner) g k → k.group = false → ∃ values,
    addressEntry root owner k.name = .ok (.leaf values)) :
    (nests (addressSpace root owner) stackLimit g = true →
      Expands (addressSpace root owner) g "Expanded address list exceeds 256 entries"
      ("NAT requires a nonempty static address group: " ++ ·) (addresses root owner [g.name])) ∧
    ∀ out, addresses root owner [g.name] = .ok out → nests (addressSpace root owner) stackLimit g = true := by
  have solid : Solid (addressSpace root owner) (addressSetting root owner) g := ⟨fun k leads => accepted_members accepted leads, static⟩
  obtain ⟨enough, only⟩ := expand_group address_reads alike solid
  unfold addresses
  rw [expandAddresses_eq]
  refine ⟨fun shallow => (enough shallow).expands sortedBlocks, ?_⟩
  intro out done
  obtain ⟨gathered, expanded, -⟩ := map_ok done
  exact only gathered expanded

theorem service_group {g : Key} (accepted : validateGroup root (serviceSpace root owner) g = .ok ())
    (alike : Alike (serviceSpace root owner) g)
    (static : ∀ k, LeadsTo (serviceSpace root owner) g k → k.group = false → ∃ values,
    serviceEntry root owner k.name = .ok (.leaf values)) :
    (nests (serviceSpace root owner) stackLimit g = true →
      Expands (serviceSpace root owner) g "Expanded service list exceeds 256 entries"
      ("Empty service group: " ++ ·) (services root owner [g.name])) ∧
    ∀ out, services root owner [g.name] = .ok out → nests (serviceSpace root owner) stackLimit g = true := by
  have solid : Solid (serviceSpace root owner) (serviceSetting root owner) g := ⟨fun k leads => accepted_members accepted leads, static⟩
  obtain ⟨enough, only⟩ := expand_group service_reads alike solid
  unfold services
  rw [expandServices_eq]
  refine ⟨?_, only⟩
  intro shallow
  have result := (enough shallow).expands id
  rw [Except.map_id] at result
  exact result

end results

/-- The editor and the compilers take a name for the same entry exactly when no group of the virtual system stands in front of a shared
object of its name, and nothing is called `any`. An accepted group below which they agree on every name, and whose leaves have values,
expands but for its size and for groups without members where at most sixteen groups lie inside one another, and fails where more do. -/
theorem names_agree_iff (root : Config) (owner : Vsys) :
    (∀ name, resolve (addressSpace root owner) false name = selected (addressSpace root owner) name ↔
      ¬ Shadows (addressSpace root owner) name ∧ (name = "any" → resolve (addressSpace root owner) false name = none)) ∧
    (∀ name, resolve (serviceSpace root owner) false name = selected (serviceSpace root owner) name ↔
      ¬ Shadows (serviceSpace root owner) name ∧ (name = "any" → resolve (serviceSpace root owner) false name = none)) ∧
    (∀ g, validateGroup root (addressSpace root owner) g = .ok () → Alike (addressSpace root owner) g →
      (∀ k, LeadsTo (addressSpace root owner) g k → k.group = false → ∃ values, addressEntry root owner k.name = .ok (.leaf values)) →
      (nests (addressSpace root owner) stackLimit g = true →
      Expands (addressSpace root owner) g "Expanded address list exceeds 256 entries"
        ("NAT requires a nonempty static address group: " ++ ·) (addresses root owner [g.name])) ∧
      ∀ out, addresses root owner [g.name] = .ok out → nests (addressSpace root owner) stackLimit g = true) ∧
    ∀ g, validateGroup root (serviceSpace root owner) g = .ok () → Alike (serviceSpace root owner) g →
      (∀ k, LeadsTo (serviceSpace root owner) g k → k.group = false → ∃ values, serviceEntry root owner k.name = .ok (.leaf values)) →
      (nests (serviceSpace root owner) stackLimit g = true →
        Expands (serviceSpace root owner) g "Expanded service list exceeds 256 entries"
        ("Empty service group: " ++ ·) (services root owner [g.name])) ∧
      ∀ out, services root owner [g.name] = .ok out → nests (serviceSpace root owner) stackLimit g = true :=
  ⟨agree_iff _, agree_iff _, fun _ => address_group, fun _ => service_group⟩

section samples

def shadowingVsys : Vsys :=
  { name := "vsys1", objects := { address := [("db", .netmask "10.0.0.2")], addressGroup := [("web", .static ["db"])] } }

def shadowedRoot : Config := { shared := { address := [("web", .netmask "10.0.0.1")] }, vsys := [shadowingVsys] }

def chain : List String → List (String × AddressGroup)
  | a :: b :: rest => (a, .static [b]) :: chain (b :: rest)
  | _ => []

def deepVsys : Vsys :=
  { name := "vsys1"
    objects :=
      { address := [("leaf", .netmask "10.0.0.1")]
        addressGroup := chain ["a", "b", "c", "d", "e", "f", "g", "h", "i", "j", "k", "l", "m", "n", "o", "p", "q", "leaf"] } }

/-- A group around a shared one whose member is a group of the same name, in the shared scope. -/
def loopingVsys : Vsys := { name := "vsys1", objects := { addressGroup := [("inner", .static ["outer"])] } }

def sharedRoot : Config :=
  { shared := { address := [("host", .netmask "10.0.0.1")], addressGroup := [("outer", .static ["inner"]), ("inner", .static ["host"])] }
    vsys := [loopingVsys] }

/-- The two take one name for different entries; and groups that the editor accepts nest too deep for the compilers,
or are cycles there. -/
theorem names_differ :
    (resolve (addressSpace shadowedRoot shadowingVsys) false "web" = some ⟨false, true, "web"⟩ ∧
      selected (addressSpace shadowedRoot shadowingVsys) "web" = some ⟨true, false, "web"⟩ ∧
      addresses shadowedRoot shadowingVsys ["web"] = .ok [.net 0x0a000001 32]) ∧
    (validateGroup { vsys := [deepVsys] } (addressSpace { vsys := [deepVsys] } deepVsys) ⟨false, true, "a"⟩ = .ok () ∧
      addresses { vsys := [deepVsys] } deepVsys ["a"] = .error "Address group cycle or excessive nesting: leaf") ∧
    validateGroup sharedRoot (addressSpace sharedRoot loopingVsys) ⟨false, true, "inner"⟩ = .ok () ∧
      addresses sharedRoot loopingVsys ["inner"] = .error "Address group cycle or excessive nesting: inner" := by
  decide +kernel

def plainRoot : Config := { vsys := [shadowingVsys] }

theorem plain_leads {k : Key} (leads : LeadsTo (addressSpace plainRoot shadowingVsys) ⟨false, true, "web"⟩ k) :
    k = ⟨false, true, "web"⟩ ∨ k = ⟨false, false, "db"⟩ := by
  induction leads with
  | refl => exact .inl rfl
  | tail _ edge ih =>
    obtain ⟨names, listed, name, member, found⟩ := edge
    rcases ih with rfl | rfl
    · obtain rfl : ["db"] = names := Option.some.inj listed
      obtain rfl := List.mem_singleton.mp member
      have db : resolve (addressSpace plainRoot shadowingVsys) false "db" = some ⟨false, false, "db"⟩ := by decide +kernel
      exact .inr (Option.some.inj (found.symm.trans db))
    · cases listed

/-- With no shared object in the way, a group of one address. -/
theorem plain_group_expands :
    resolve (addressSpace plainRoot shadowingVsys) false "web" = selected (addressSpace plainRoot shadowingVsys) "web" ∧
      Expands (addressSpace plainRoot shadowingVsys) ⟨false, true, "web"⟩ "Expanded address list exceeds 256 entries"
        ("NAT requires a nonempty static address group: " ++ ·) (addresses plainRoot shadowingVsys ["web"]) := by
  have claim := names_agree_iff plainRoot shadowingVsys
  have alike : Alike (addressSpace plainRoot shadowingVsys) ⟨false, true, "web"⟩ := by
    refine ⟨by decide +kernel, ?_⟩
    intro k leads names listed name member
    rcases plain_leads leads with rfl | rfl
    · obtain rfl : ["db"] = names := Option.some.inj listed
      obtain rfl := List.mem_singleton.mp member
      decide +kernel
    · cases listed
  refine ⟨(claim.1 "web").mpr ⟨by decide +kernel, fun any => absurd any (by decide)⟩, ?_⟩
  refine (claim.2.2.1 ⟨false, true, "web"⟩ (by decide +kernel) alike ?_).1 (by decide +kernel)
  intro k leads leaf
  rcases plain_leads leads with rfl | rfl
  · cases leaf
  · have object : find plainRoot shadowingVsys Objects.address "db" = some (.netmask "10.0.0.2") := by decide +kernel
    have read : ipv4 "10.0.0.2" = .ok (.net 0x0a000002 32) := ok_of_toOption (by decide +kernel)
    refine ⟨[.net 0x0a000002 32], ?_⟩
    rw [addressEntry, if_neg (by decide), object]
    dsimp only
    rw [read]
    rfl

end samples

end FfnNgfw.Policy.Naming
