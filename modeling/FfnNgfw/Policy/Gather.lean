import FfnNgfw.Lib.Fallible
import FfnNgfw.Policy.Nft

/-!
# What the loop over the virtual systems gathers

No kernel index is in two zones, every zone with interfaces has a row, and the rules are
the rows of all plans in order, each with the pairs of zones of its own virtual system.
-/

namespace FfnNgfw.Policy

/-! ### Zones -/

variable {bindings : Bindings} {name : String} {g g' : Gathered} {owner : Vsys} {root : Config}
variable {tokens : Option Tokens}

theorem bindInterface_cases {acc acc' : List Nat × List Nat} (h : bindInterface bindings acc name = .ok acc') :
    ∃ i, bindings name = some i ∧ i ∉ acc.1 ∧ acc' = (i :: acc.1, acc.2 ++ [i]) := by
  unfold bindInterface at h
  split at h
  · cases h
  · rename_i i bound
    split at h
    · cases h
    split at h
    · cases h
    · rename_i fresh
      exact ⟨i, bound, fresh, (Except.ok.inj h).symm⟩

/-- The interfaces bound so far, from `seen` on. -/
structure Bound (bindings : Bindings) (seen : List Nat) (names : List String) (acc : List Nat × List Nat) : Prop where
  indices : ∀ i, i ∈ acc.2 ↔ ∃ n ∈ names, bindings n = some i
  known : ∀ i, i ∈ acc.1 ↔ i ∈ seen ∨ i ∈ acc.2
  fresh : ∀ i ∈ acc.2, i ∉ seen

theorem bindInterface_bound {seen : List Nat} {names : List String} {acc acc' : List Nat × List Nat}
    (bound : Bound bindings seen names acc) (h : bindInterface bindings acc name = .ok acc') :
    Bound bindings seen (names ++ [name]) acc' := by
  obtain ⟨i, here, new, rfl⟩ := bindInterface_cases h
  obtain ⟨indices, seenIff, fresh⟩ := bound
  refine ⟨?_, ?_, ?_⟩
  · intro j
    simp only [List.mem_append, List.mem_singleton, indices]
    constructor
    · rintro (⟨n, member, value⟩ | rfl)
      · exact ⟨n, Or.inl member, value⟩
      · exact ⟨name, Or.inr rfl, here⟩
    · rintro ⟨n, member | rfl, value⟩
      · exact Or.inl ⟨n, member, value⟩
      · exact Or.inr (Option.some.inj (value.symm.trans here))
  · intro j
    simp only [List.mem_cons, List.mem_append, seenIff, List.not_mem_nil, or_false]
    tauto
  · intro j member
    rcases List.mem_append.mp member with old | now
    · exact fresh j old
    · rw [List.mem_singleton.mp now]
      exact fun known => new ((seenIff i).mpr (Or.inl known))

structure RowOf (root : Config) (bindings : Bindings) (owner : Vsys) (zone : Zone) (row : ZoneRow) : Prop where
  scope : row.scope = owner.name
  name : row.name = zone.name
  indices : ∃ names, interfaces root owner [zone.name] = .ok names ∧ ∀ i, i ∈ row.indices ↔ ∃ n ∈ names, bindings n = some i

theorem addZone_cases {zone : Zone} (h : addZone root bindings owner g zone = .ok g') : g'.rules = g.rules ∧
      ((zone.layer3 = [] ∧ g'.zones = g.zones ∧ g'.seen = g.seen) ∨
        ∃ row, RowOf root bindings owner zone row ∧ (∀ i ∈ row.indices, i ∉ g.seen) ∧ g'.zones = g.zones ++ [row] ∧
          ∀ i, i ∈ g'.seen ↔ i ∈ g.seen ∨ i ∈ row.indices) := by
  unfold addZone at h
  split at h
  · cases h
  dsimp only at h
  split at h
  · rename_i empty
    cases h
    exact ⟨rfl, Or.inl ⟨empty, rfl, rfl⟩⟩
  · obtain ⟨names, resolved, h⟩ := bind_ok h
    obtain ⟨⟨seen, indices⟩, bound, h⟩ := bind_ok h
    cases h
    have start : Bound bindings g.seen [] (g.seen, []) := ⟨by simp, by simp, by simp⟩
    obtain ⟨members, seenIff, fresh⟩ :=
      foldlM_invariant (Bound bindings g.seen) (fun _ _ _ _ => bindInterface_bound) start bound
    refine ⟨rfl, Or.inr ⟨⟨owner.name, zone.name, indices.insertionSort (· ≤ ·)⟩, ⟨rfl, rfl, names, resolved, ?_⟩, ?_, rfl, ?_⟩⟩
    · intro i
      rw [List.mem_insertionSort]
      exact members i
    · intro i member
      exact fresh i ((List.mem_insertionSort _).mp member)
    · intro i
      rw [List.mem_insertionSort]
      exact seenIff i

structure ZonesOk (g : Gathered) : Prop where
  covered : ∀ z ∈ g.zones, ∀ i ∈ z.indices, i ∈ g.seen
  disjoint : g.zones.Pairwise fun a b => ∀ i ∈ a.indices, i ∉ b.indices

theorem addZone_ok {zone : Zone} (ok : ZonesOk g) (h : addZone root bindings owner g zone = .ok g') : ZonesOk g' := by
  obtain ⟨_, ⟨_, zones, seen⟩ | ⟨row, _, fresh, zones, seen⟩⟩ := addZone_cases h
  · exact ⟨by rw [zones, seen]; exact ok.covered, by rw [zones]; exact ok.disjoint⟩
  · refine ⟨?_, ?_⟩
    · intro z member i inside
      rw [zones] at member
      rw [seen]
      rcases List.mem_append.mp member with old | new
      · exact Or.inl (ok.covered z old i inside)
      · rw [List.mem_singleton.mp new] at inside
        exact Or.inr inside
    · rw [zones, List.pairwise_append]
      refine ⟨ok.disjoint, by simp, ?_⟩
      intro a old b new i inside
      rw [List.mem_singleton.mp new]
      exact fun here => fresh i here (ok.covered a old i inside)

theorem ZonesOk.unique (ok : ZonesOk g) {a b : ZoneRow} (memberA : a ∈ g.zones) (memberB : b ∈ g.zones)
    {i : Nat} (inA : i ∈ a.indices) (inB : i ∈ b.indices) : a = b := by
  have forth : g.zones.Pairwise fun a b => ∀ i, i ∈ a.indices → i ∈ b.indices → a = b :=
    ok.disjoint.imp fun apart i here there => absurd there (apart i here)
  have back : g.zones.Pairwise (flip fun a b => ∀ i, i ∈ a.indices → i ∈ b.indices → a = b) :=
    ok.disjoint.imp fun apart i here there => absurd here (apart i there)
  exact forth.forall_of_forall_of_flip (fun _ _ _ _ _ => rfl) back memberA memberB i inA inB

structure ZonesOf (root : Config) (bindings : Bindings) (owner : Vsys) (g : Gathered) (done : List Zone) (g' : Gathered) : Prop where
  rules : g'.rules = g.rules
  ok : ZonesOk g'
  others : ∃ rows, g'.zones = g.zones ++ rows ∧ ∀ r ∈ rows, r.scope = owner.name
  present : ∀ z ∈ done, z.layer3 ≠ [] → ∃ row ∈ g'.zones, RowOf root bindings owner z row

theorem addZone_of {g b b' : Gathered} {done : List Zone} {zone : Zone}
    (zones : ZonesOf root bindings owner g done b) (h : addZone root bindings owner b zone = .ok b') :
    ZonesOf root bindings owner g (done ++ [zone]) b' := by
  have ok := addZone_ok zones.ok h
  obtain ⟨rows, added, scopes⟩ := zones.others
  obtain ⟨rules, ⟨empty, same, _⟩ | ⟨row, of, _, more, _⟩⟩ := addZone_cases h
  · refine ⟨rules.trans zones.rules, ok, ⟨rows, same.trans added, scopes⟩, ?_⟩
    intro z member used
    rw [same]
    rcases List.mem_append.mp member with old | new
    · exact zones.present z old used
    · rw [List.mem_singleton.mp new] at used
      exact absurd empty used
  · refine ⟨rules.trans zones.rules, ok, ⟨rows ++ [row], by rw [more, added, List.append_assoc], ?_⟩, ?_⟩
    · intro r member
      rcases List.mem_append.mp member with old | new
      · exact scopes r old
      · rw [List.mem_singleton.mp new]
        exact of.scope
    · intro z member used
      rw [more]
      rcases List.mem_append.mp member with old | new
      · obtain ⟨r, there, rowOf⟩ := zones.present z old used
        exact ⟨r, List.mem_append_left _ there, rowOf⟩
      · rw [List.mem_singleton.mp new]
        exact ⟨row, List.mem_append_right _ List.mem_cons_self, of⟩

theorem addZones_of (ok : ZonesOk g)
    (h : owner.zones.foldlM (addZone root bindings owner) g = .ok g') : ZonesOf root bindings owner g owner.zones g' := by
  have start : ZonesOf root bindings owner g [] g := ⟨rfl, ok, ⟨[], by simp, by simp⟩, by simp⟩
  exact foldlM_invariant (ZonesOf root bindings owner g) (fun _ _ _ _ => addZone_of) start h

/-! ### Rules -/

/-- The match asks for nothing that the packet test would have to be told. -/
structure Plain (m : Match) : Prop where
  application : m.application = ["any"]
  sourceUser : m.sourceUser = ["any"]
  sourceDevice : m.sourceDevice = ["any"]
  destinationDevice : m.destinationDevice = ["any"]
  services : m.services ≠ none

theorem checkRow_plain {m : Match} {action : Action} (h : checkRow tokens name m action = .ok ()) : Plain m := by
  unfold checkRow at h
  split at h
  · cases h
  · rename_i none
    split at h
    · cases h
    · rename_i services
      rw [List.find?_eq_none] at none
      simp only [List.mem_cons, List.not_mem_nil, or_false, forall_eq_or_imp, forall_eq, ne_eq, decide_not, Bool.not_eq_true',
        decide_eq_false_iff_not, not_not] at none
      exact ⟨none.1, none.2.1, none.2.2.1, none.2.2.2, services⟩

/-- The rule that a row of a plan gives, over the zones gathered so far. -/
structure Renders (zones : List ZoneRow) (row : Row) (rule : RuleRow) : Prop where
  scope : rule.scope = row.scope
  name : rule.name = row.name
  position : rule.position = row.position
  compiled : row.compiled = .ok (rule.match, rule.action)
  plain : Plain rule.match
  pairs : rule.pairs = pairsFor row.scope rule.match zones

theorem addRow_cases {row : Row} (h : addRow tokens g row = .ok g') :
    g'.zones = g.zones ∧ g'.seen = g.seen ∧ ∃ rule, Renders g.zones row rule ∧ g'.rules = g.rules ++ [rule] := by
  unfold addRow at h
  split at h
  · cases h
  · rename_i m action compiled
    obtain ⟨_, checked, h⟩ := bind_ok h
    dsimp only at h
    split at h
    · cases h
    · cases h
      exact ⟨rfl, rfl, _, ⟨rfl, rfl, rfl, compiled, checkRow_plain checked, rfl⟩, rfl⟩

theorem pairsFor_append {scope : String} {rows : List ZoneRow} (others : ∀ r ∈ rows, r.scope ≠ scope) (m : Match)
    (zones : List ZoneRow) : pairsFor scope m (zones ++ rows) = pairsFor scope m zones := by
  have none : ∀ p : ZoneRow → Bool, rows.filter (fun z => decide (z.scope = scope) && p z) = [] := by
    intro p
    rw [List.filter_eq_nil_iff]
    intro r member
    simp [others r member]
  unfold pairsFor
  simp only [List.filter_append, Bool.and_assoc, none, List.append_nil]

theorem Renders.append {zones rows : List ZoneRow} {row : Row} {rule : RuleRow} (renders : Renders zones row rule)
    (others : ∀ r ∈ rows, r.scope ≠ row.scope) : Renders (zones ++ rows) row rule :=
  ⟨renders.scope, renders.name, renders.position, renders.compiled, renders.plain,
    by rw [renders.pairs, pairsFor_append others]⟩

def planRows (root : Config) (owner : Vsys) : List Row := compileRows root owner 1 [] owner.security

theorem compilePolicy_rows {rows : List Row} (h : compilePolicy root owner = .ok rows) :
    rows = planRows root owner := by
  unfold compilePolicy at h
  split at h
  · cases h
  · exact (Except.ok.inj h).symm

theorem planRows_scope (root : Config) (owner : Vsys) : ∀ row ∈ planRows root owner, row.scope = owner.name := by
  have folded : ∀ (entries : List RuleEntry) (position : Nat) (names : List String),
      ∀ row ∈ compileRows root owner position names entries, row.scope = owner.name := by
    intro entries
    induction entries with
    | nil =>
      intro position names row member
      cases member
    | cons e rest ih =>
      intro position names row member
      unfold compileRows at member
      split at member
      · exact ih _ _ row member
      · rcases List.mem_cons.mp member with rfl | later
        · rfl
        · exact ih _ _ row later
  exact folded owner.security 1 []

/-- What has been gathered when the virtual systems of `done` are through. -/
structure Done (root : Config) (bindings : Bindings) (done : List Vsys) (g : Gathered) : Prop where
  ok : ZonesOk g
  scopes : ∀ z ∈ g.zones, z.scope ∈ done.map Vsys.name
  present : ∀ owner ∈ done, ∀ z ∈ owner.zones, z.layer3 ≠ [] → ∃ row ∈ g.zones, RowOf root bindings owner z row
  policies : ∀ owner ∈ done, compilePolicy root owner = .ok (planRows root owner)
  rules : List.Forall₂ (Renders g.zones) (done.flatMap (planRows root)) g.rules

theorem addRows_renders {rows : List Row} (h : rows.foldlM (addRow tokens) g = .ok g') :
    g'.zones = g.zones ∧ g'.seen = g.seen ∧ ∃ rules, List.Forall₂ (Renders g.zones) rows rules ∧ g'.rules = g.rules ++ rules := by
  refine foldlM_invariant (fun done b => b.zones = g.zones ∧ b.seen = g.seen ∧
    ∃ rules, List.Forall₂ (Renders g.zones) done rules ∧ b.rules = g.rules ++ rules) ?_ ⟨rfl, rfl, [], .nil, by simp⟩ h
  rintro done b row b' ⟨zones, seen, rules, renders, added⟩ step
  obtain ⟨zones', seen', rule, one, added'⟩ := addRow_cases step
  rw [zones] at one
  refine ⟨zones'.trans zones, seen'.trans seen, rules ++ [rule], ?_, by rw [added', added, List.append_assoc]⟩
  exact List.rel_append renders (.cons one .nil)

theorem gatherOwner_done {done : List Vsys}
    (before : Done root bindings done g) (new : owner.name ∉ done.map Vsys.name)
    (h : gatherOwner root bindings tokens g owner = .ok g') : Done root bindings (done ++ [owner]) g' := by
  unfold gatherOwner at h
  obtain ⟨mid, zoned, h⟩ := bind_ok h
  obtain ⟨rows, policy, h⟩ := bind_ok h
  obtain ⟨kept, ok, ⟨more, zones, scopes⟩, present⟩ := addZones_of before.ok zoned
  split at h
  · cases h
  obtain ⟨zones', seen', rules, renders, added⟩ := addRows_renders h
  have same := compilePolicy_rows policy
  subst same
  have earlier : List.Forall₂ (Renders mid.zones) (done.flatMap (planRows root)) g.rules := by
    have apart : ∀ row ∈ done.flatMap (planRows root), row.scope ≠ owner.name := by
      intro row member same
      obtain ⟨o, old, inside⟩ := List.mem_flatMap.mp member
      rw [planRows_scope root o row inside] at same
      exact new (same ▸ List.mem_map_of_mem old)
    rw [zones]
    refine List.Forall₂.imp ?_ ((List.forall₂_and_left _ _).mpr ⟨apart, before.rules⟩)
    rintro row rule ⟨other, renders⟩
    exact renders.append fun r member same => other (same.symm.trans (scopes r member))
  refine ⟨⟨?_, ?_⟩, ?_, ?_, ?_, ?_⟩
  · rw [zones', seen']
    exact ok.covered
  · rw [zones']
    exact ok.disjoint
  · intro z member
    rw [zones', zones] at member
    rw [List.map_append, List.mem_append]
    rcases List.mem_append.mp member with old | here
    · exact Or.inl (before.scopes z old)
    · exact Or.inr (by simp [scopes z here])
  · intro o member z inside used
    rw [zones']
    rcases List.mem_append.mp member with old | here
    · obtain ⟨row, there, of⟩ := before.present o old z inside used
      exact ⟨row, by rw [zones]; exact List.mem_append_left _ there, of⟩
    · rw [List.mem_singleton.mp here] at inside ⊢
      exact present z inside used
  · intro o member
    rcases List.mem_append.mp member with old | here
    · exact before.policies o old
    · rw [List.mem_singleton.mp here]
      exact policy
  · rw [zones', added, kept, List.flatMap_append]
    refine List.rel_append earlier ?_
    simpa using renders

theorem gather_done (h : gather root bindings tokens = .ok g) : Done root bindings (owners root) g := by
  have run := foldlM_invariant (fun done g => (done.map Vsys.name).Nodup → Done root bindings done g) ?_ ?_ h
  · exact run (owners_nodup root)
  · intro done b owner b' before step nodup
    rw [List.map_append, List.nodup_append] at nodup
    refine gatherOwner_done (before nodup.1) ?_ step
    intro there
    exact nodup.2.2 owner.name there owner.name (by simp) rfl
  · intro _
    exact ⟨⟨by simp, by simp⟩, by simp, by simp, by simp, .nil⟩

end FfnNgfw.Policy
