import FfnNgfw.Lib.FirstMatch
import FfnNgfw.Translate.Render

/-!
# The rendered table translates by the first rule that matches

The prerouting line that a new packet meets first belongs to the first rule that selects it;
the chain it leads to leaves the mark of that rule, and in postrouting only the lines of that
rule know the mark.
-/

namespace FfnNgfw.Translate

open Policy

/-! ### What a rule says -/

section meaning

variable (seed : String → String → String) (mapping : Dict String String) (links : Dict String Link) (k : Kernel) (p : NatPacket)

def logical (device : String) : Option String := (mapping.items.find? fun item => item.2 = device).map Prod.fst

def NatService.Serves (s : NatService) : Bool :=
  s.protocol = .any || (s.protocol.isPacket p.l4proto && (s.sourcePorts = [] || portAmong p.sport s.sourcePorts) &&
    (s.destinationPorts = [] || portAmong p.dport s.destinationPorts))

def owns (interfaces : List String) (a : UInt32) : Bool :=
  interfaces.any fun name => ((mapping.lookup name).bind fun device => links.lookup device).any fun link =>
    link.addresses.any fun item => item.1 = "inet" && addressIn a [item.2]

/-- Ingress, source, destination and service match, and the egress contains the routed interface or owns the destination. -/
def NatRule.selects (rule : NatRule) : Bool :=
  (logical mapping p.iif).any (fun name => name ∈ rule.ingress) && addressIn p.saddr rule.source && addressIn p.daddr rule.destination &&
    rule.services.any (fun s => s.Serves p) &&
    (((k.fib p.daddr).bind (logical mapping)).any (fun name => name ∈ rule.egress) || owns mapping links rule.egress p.daddr)

def NatRule.destinationOf (rule : NatRule) : Option (UInt32 × Option Nat) :=
  match rule.dnat with
  | none => none
  | some (.static address port) => (hostOf address).map fun a => (a, port)
  | some (.dynamic addresses method port) =>
    let choice := match method with
      | .roundRobin => k.numgen
      | .sourceIpHash => k.jhash [p.saddr] (seed rule.scope rule.name)
      | .ipHash => k.jhash [p.saddr, p.daddr] (seed rule.scope rule.name)
    ((addresses[choice % addresses.length]?).bind hostOf).map fun a => (a, port)

/-- The source translation of a rule for a packet that leaves by the device. -/
def NatRule.sourceOf (rule : NatRule) (oif : String) : Posted :=
  match rule.snat with
  | .none => .accept .none
  | .static address | .snat address => .accept (((hostOf address).map .address).getD .none)
  | .masquerade interface => if logical mapping oif = some interface then .accept .masquerade else .drop

end meaning

def Injective (mapping : Dict String String) : Prop :=
  ∀ a b device, mapping.lookup a = some device → mapping.lookup b = some device → a = b

theorem logical_iff {mapping : Dict String String} (injective : Injective mapping) {device name : String} :
    logical mapping device = some name ↔ mapping.lookup name = some device := by
  unfold logical
  constructor
  · intro h
    obtain ⟨⟨found, value⟩, first, rfl⟩ := Option.map_eq_some_iff.mp h
    have same : value = device := by simpa using List.find?_some first
    subst same
    exact Dict.mem_items.mp (List.mem_of_find?_eq_some first)
  · intro there
    have some' : (mapping.items.find? fun item => item.2 = device).isSome := by
      rw [List.find?_isSome]
      exact ⟨(name, device), Dict.mem_items.mpr there, by simp⟩
    obtain ⟨⟨found, value⟩, first⟩ := Option.isSome_iff_exists.mp some'
    have same : value = device := by simpa using List.find?_some first
    subst same
    rw [first, Option.map_some, injective found name value (Dict.mem_items.mp (List.mem_of_find?_eq_some first)) there]

theorem mem_devices {mapping : Dict String String} (injective : Injective mapping) (device : String) (names : List String) :
    decide (device ∈ devices mapping names) = (logical mapping device).any fun name => name ∈ names := by
  rw [Bool.eq_iff_iff, decide_eq_true_iff]
  unfold devices
  rw [List.mem_filterMap]
  constructor
  · rintro ⟨name, member, there⟩
    rw [(logical_iff injective).mpr there]
    simpa using member
  · intro h
    cases found : logical mapping device with
    | none => simp [found] at h
    | some name =>
      rw [found] at h
      exact ⟨name, by simpa using h, (logical_iff injective).mp found⟩

/-! ### Prerouting -/

theorem addressIn_congr {a : UInt32} {xs ys : List String} (same : ∀ text, text ∈ xs ↔ text ∈ ys) : addressIn a xs = addressIn a ys := by
  unfold addressIn
  rw [Bool.eq_iff_iff, List.any_eq_true, List.any_eq_true]
  simp only [same]

theorem owns_eq (mapping : Dict String String) (links : Dict String Link) (names : List String) (a : UInt32) :
    owns mapping links names a = addressIn a (localAddresses links (devices mapping names)) := by
  have sorted : addressIn a (localAddresses links (devices mapping names)) =
      addressIn a ((devices mapping names).flatMap fun device =>
        ((links.lookup device).map fun link => (link.addresses.filter fun a => a.1 = "inet").map Prod.snd).getD []) :=
    addressIn_congr fun text => by simp [localAddresses, sortedSet]
  rw [sorted, Bool.eq_iff_iff]
  unfold owns addressIn devices
  rw [List.any_eq_true, List.any_eq_true]
  constructor
  · rintro ⟨name, member, found⟩
    cases there : mapping.lookup name with
    | none => simp [there] at found
    | some device =>
      cases linked : links.lookup device with
      | none => simp [there, linked] at found
      | some link =>
        simp only [there, Option.bind_some, linked, Option.any_some, List.any_eq_true, Bool.and_eq_true, decide_eq_true_eq] at found
        obtain ⟨item, inside, inet, holds⟩ := found
        refine ⟨item.2, ?_, by simpa using holds⟩
        refine List.mem_flatMap.mpr ⟨device, List.mem_filterMap.mpr ⟨name, member, there⟩, ?_⟩
        simp only [linked, Option.map_some, Option.getD_some]
        exact List.mem_map_of_mem (List.mem_filter.mpr ⟨inside, by simpa using inet⟩)
  · rintro ⟨text, member, holds⟩
    obtain ⟨device, inside, member⟩ := List.mem_flatMap.mp member
    obtain ⟨name, named, there⟩ := List.mem_filterMap.mp inside
    refine ⟨name, named, ?_⟩
    cases linked : links.lookup device with
    | none => simp [linked] at member
    | some link =>
      simp only [linked, Option.map_some, Option.getD_some] at member
      obtain ⟨item, found, rfl⟩ := List.mem_map.mp member
      obtain ⟨found, inet⟩ := List.mem_filter.mp found
      simp only [there, Option.bind_some, linked, Option.any_some, List.any_eq_true, Bool.and_eq_true]
      exact ⟨item, found, inet, by simpa using holds⟩

section prerouting

variable {seed : String → String → String} {mapping : Dict String String} {links : Dict String Link} {k : Kernel} {p : NatPacket}

theorem conditions_any (injective : Injective mapping) (rule : NatRule) :
    (conditions mapping links rule).any (fun c => c.holds k p) =
      (((k.fib p.daddr).bind (logical mapping)).any (fun name => name ∈ rule.egress) || owns mapping links rule.egress p.daddr) := by
  have routed : ((k.fib p.daddr).any fun device => device ∈ devices mapping rule.egress) =
      ((k.fib p.daddr).bind (logical mapping)).any fun name => name ∈ rule.egress := by
    cases k.fib p.daddr with
    | none => rfl
    | some device => exact mem_devices injective device rule.egress
  rw [owns_eq]
  unfold conditions
  dsimp only
  split
  · rename_i empty
    simp [Condition.holds, routed, empty, addressIn]
  · simp [Condition.holds, routed]

theorem preLines_findSome (injective : Injective mapping) (i : Nat) (rule : NatRule) :
    (preLines mapping links i rule).findSome? (PreLine.jump k p) = if rule.selects mapping links k p then some (.chain i) else none := by
  have each : ∀ l ∈ preLines mapping links i rule, l.jump k p = if (l.jump k p).isSome then some (.chain i) else none := by
    intro l member
    obtain ⟨service, _, member⟩ := List.mem_flatMap.mp member
    obtain ⟨c, _, rfl⟩ := List.mem_map.mp member
    simp only [PreLine.jump]
    split <;> rfl
  have hit : (preLines mapping links i rule).any (fun l => (l.jump k p).isSome) = rule.selects mapping links k p := by
    have shape : ∀ s, (natMatch mapping rule s).holds p = (decide (p.iif ∈ devices mapping rule.ingress) &&
        addressIn p.saddr rule.source && addressIn p.daddr rule.destination && s.Serves p) := fun _ => rfl
    unfold NatRule.selects
    rw [← conditions_any injective, ← mem_devices injective, Bool.eq_iff_iff]
    simp only [preLines, List.any_flatMap, List.any_map, List.any_eq_true, Function.comp, PreLine.jump, Option.isSome_ite, shape,
      Bool.and_eq_true]
    constructor
    · rintro ⟨s, member, c, among, ⟨rest, serves⟩, condition⟩
      exact ⟨⟨rest, s, member, serves⟩, c, among, condition⟩
    · rintro ⟨⟨rest, s, member, serves⟩, c, among, condition⟩
      exact ⟨s, member, c, among, ⟨rest, serves⟩, condition⟩
  rw [findSome_const each, hit]

theorem eachRule_findSome {α β : Type} {f : Nat → NatRule → List α} {g : α → Option β} {hit : NatRule → Bool} {v : Nat → β}
    (each : ∀ i rule, (f i rule).findSome? g = if hit rule then some (v i) else none) (i : Nat) (rules : List NatRule) :
    (eachRule f i rules).findSome? g = (firstMatchFrom hit i rules).map fun found => v found.1 := by
  induction rules generalizing i with
  | nil => rfl
  | cons rule rest ih =>
    rw [eachRule, List.findSome?_append, each, firstMatchFrom, ih]
    cases hit rule <;> rfl

theorem eachRule_getElem {α : Type} (f : Nat → NatRule → α) (i j : Nat) (rules : List NatRule) :
    (eachRule (fun i rule => [f i rule]) i rules)[j]? = rules[j]?.map (f (i + j)) := by
  induction rules generalizing i j with
  | nil => rfl
  | cons rule rest ih =>
    cases j with
    | zero => rfl
    | succ j =>
      rw [eachRule, List.singleton_append, List.getElem?_cons_succ, List.getElem?_cons_succ, ih, Nat.add_assoc, Nat.add_comm 1 j]

theorem runStmts_forward {destination : Destination} {a : UInt32} (resolved : destination.resolve k p = some a) (mark port : Nat)
    (protocols : List Protocol) (served : protocols.any (fun l4 => l4.isPacket p.l4proto) = true) :
    runStmts k p mark (protocols.map (fun l4 => .dnat (some l4) destination (some port)) ++ [.drop]) = ⟨mark,
      some (a, some port), false⟩ := by
  induction protocols with
  | nil => cases served
  | cons l4 rest ih =>
    rw [List.map_cons, List.cons_append, runStmts]
    rw [List.any_cons, Bool.or_eq_true] at served
    by_cases here : l4.isPacket p.l4proto = true
    · rw [if_pos (by simpa using here), resolved]
    · rw [if_neg (by simpa using here)]
      exact ih (served.resolve_left here)

theorem destinationOf_eq (rule : NatRule) {dnat : Dnat} (some' : rule.dnat = some dnat) :
    rule.destinationOf seed k p = ((destination seed rule dnat).resolve k p).map fun a => (a, dnat.port) := by
  unfold NatRule.destinationOf
  rw [some']
  cases dnat with
  | static address port => rfl
  | dynamic addresses method port => cases method <;> rfl

theorem resolve_isSome (seed : String → String → String) (k : Kernel) (p : NatPacket) {rule : NatRule}
    (valid : rule.Valid) {dnat : Dnat} (some' : rule.dnat = some dnat) :
    ∃ a, (destination seed rule dnat).resolve k p = some a := by
  have host : ∀ text ∈ rule.hosts, ∃ a, hostOf text = some a := by
    intro text member
    obtain ⟨a, read⟩ := valid.hosts text member
    exact ⟨a, by rw [hostOf, read]; rfl⟩
  cases dnat with
  | static address port => exact host address (by simp [NatRule.hosts, some'])
  | dynamic addresses method port =>
    have filled := List.length_pos_of_ne_nil (valid.pool addresses method port some')
    have bound := Nat.mod_lt ((selector seed rule method).value k p) filled
    obtain ⟨a, read⟩ := host _ (show addresses.get ⟨_, bound⟩ ∈ rule.hosts by
      rw [NatRule.hosts, some']
      exact List.mem_append_right _ (List.get_mem addresses ⟨_, bound⟩))
    refine ⟨a, ?_⟩
    simp only [destination, Destination.resolve]
    rw [List.getElem?_eq_getElem bound]
    exact read

theorem ruleChain_runs {rule : NatRule} (valid : rule.Valid) (selected : rule.selects mapping links k p = true) (revision i mark : Nat) :
    runStmts k p mark (ruleChain seed revision i rule) = ⟨markOf revision i, rule.destinationOf seed k p, false⟩ := by
  rw [ruleChain, runStmts, runStmts, actions]
  cases dnat : rule.dnat with
  | none => simp [runStmts, NatRule.destinationOf, dnat]
  | some target =>
    obtain ⟨a, resolved⟩ := resolve_isSome seed k p valid dnat
    rw [destinationOf_eq rule dnat, resolved]
    dsimp only
    cases port : target.port with
    | none =>
      simp only
      simp [runStmts, resolved]
    | some number =>
      simp only
      refine runStmts_forward resolved _ number (protocols rule) ?_
      -- the service that was hit has a protocol of its own, and it is the packet's
      simp only [NatRule.selects, Bool.and_eq_true, List.any_eq_true] at selected
      obtain ⟨⟨-, s, member, serves⟩, -⟩ := selected
      have named := valid.port target number dnat port s member
      simp only [NatService.Serves, named, decide_false, Bool.false_or, Bool.and_eq_true] at serves
      refine List.any_eq_true.mpr ⟨s.protocol, ?_, serves.1.1⟩
      refine List.mem_filter.mpr ⟨by cases s.protocol <;> simp, ?_⟩
      exact List.any_eq_true.mpr ⟨s, member, by simp⟩

end prerouting

/-! ### Postrouting -/

theorem markOf_injective {revision revision' i i' : Nat} (small : i < 1024) (small' : i' < 1024)
    (same : markOf revision i = markOf revision' i') : revision = revision' ∧ i = i' := by
  unfold markOf at same
  omega

theorem markOf_pos (revision i : Nat) : markOf revision i ≠ 0 := by
  unfold markOf markBase
  omega

section postrouting

variable {mapping : Dict String String} {revision : Nat} {oif : String} {saddr : UInt32}

theorem postLines_other {mark i : Nat} (rule : NatRule) (other : mark ≠ markOf revision i) :
    (postLines mapping revision i rule).findSome? (PostLine.verdict mark oif saddr) = none := by
  unfold postLines
  cases rule.snat <;> simp [PostLine.verdict, other]

theorem eachRule_none {α β : Type} {f : Nat → NatRule → List α} {g : α → Option β} (i : Nat) (rules : List NatRule)
    (none' : ∀ j rule, i ≤ j → (f j rule).findSome? g = none) : (eachRule f i rules).findSome? g = none := by
  induction rules generalizing i with
  | nil => rfl
  | cons rule rest ih =>
    rw [eachRule, List.findSome?_append, none' i rule (Nat.le_refl i), ih (i + 1) fun j r later => none' j r (by omega)]
    rfl

theorem eachRule_at {α β : Type} {f : Nat → NatRule → List α} {g : α → Option β} {j : Nat}
    (others : ∀ i rule, i ≠ j → (f i rule).findSome? g = none) (i : Nat) (rules : List NatRule) (reached : i ≤ j) {rule : NatRule}
    (read : rules[j - i]? = some rule) : (eachRule f i rules).findSome? g = (f j rule).findSome? g := by
  induction rules generalizing i with
  | nil => simp at read
  | cons first rest ih =>
    rw [eachRule, List.findSome?_append]
    by_cases here : i = j
    · subst here
      have same : first = rule := by simpa using read
      rw [eachRule_none (i + 1) rest fun j r later => others j r (by omega), same, Option.or_none]
    · rw [others i first here]
      have shift : j - i = (j - (i + 1)) + 1 := by omega
      rw [shift, List.getElem?_cons_succ] at read
      exact ih (i + 1) (by omega) read

theorem sourceOf_static {rule : NatRule} {address : String} {a : UInt32} (host : hostOf address = some a)
    (snat : rule.snat = .static address ∨ rule.snat = .snat address) : rule.sourceOf mapping oif = .accept (.address a) := by
  unfold NatRule.sourceOf
  rcases snat with snat | snat <;> simp [snat, host]

theorem postLines_own (injective : Injective mapping) {rule : NatRule} (valid : rule.Valid) (source : addressIn saddr rule.source = true)
    (commissioned : ∀ interface, rule.snat = .masquerade interface → (mapping.lookup interface).isSome) (i : Nat) :
    (postLines mapping revision i rule).findSome? (PostLine.verdict (markOf revision i) oif saddr) =
      some (rule.sourceOf mapping oif) := by
  have host : ∀ address, rule.snat = .static address ∨ rule.snat = .snat address → ∃ a, hostOf address = some a := by
    intro address snat
    obtain ⟨a, read⟩ := valid.hosts address (by rcases snat with snat | snat <;> simp [NatRule.hosts, snat])
    exact ⟨a, by rw [hostOf, read]; rfl⟩
  unfold postLines
  cases snat : rule.snat with
  | none => simp [PostLine.verdict, NatRule.sourceOf, snat]
  | snat address =>
    obtain ⟨a, read⟩ := host address (.inr snat)
    rw [sourceOf_static read (.inr snat)]
    simp [PostLine.verdict, read]
  | static address =>
    obtain ⟨a, read⟩ := host address (.inl snat)
    obtain ⟨original, single⟩ := Option.isSome_iff_exists.mp (valid.static address snat)
    have same : saddr = original := by
      obtain ⟨text, member, holds⟩ := List.any_eq_true.mp source
      obtain ⟨block, parsed⟩ := valid.source text member
      rw [parsed, staticHost_block single member parsed] at holds
      simpa [Block.contains, UInt32.toNat_inj] using holds
    rw [sourceOf_static read (.inl snat)]
    simp [PostLine.verdict, read, single, same]
  | masquerade interface =>
    obtain ⟨device, there⟩ := Option.isSome_iff_exists.mp (commissioned interface snat)
    have named : logical mapping oif = some interface ↔ oif = device := by
      rw [logical_iff injective, there, Option.some.injEq, eq_comm]
    simp only [NatRule.sourceOf, snat, there, Option.getD_some, named]
    by_cases out : oif = device <;> simp [PostLine.verdict, out]

end postrouting

section table

variable {seed : String → String → String} {mapping : Dict String String} {links : Dict String Link} {revision : Nat}
  {size : NatPlan → Nat} {digest : NatPlan → String} {plan : NatPlan} {t : Table}

theorem render_spec (rendered : render seed mapping links revision size digest plan = .ok t) :
    (plan.rules.length ≤ 1024 ∧ ∀ rule ∈ plan.rules, rule.Valid) ∧ (1 ≤ revision ∧ revision < 16384) ∧
    (∀ rule ∈ plan.rules, ∀ interface, rule.snat = .masquerade interface → (mapping.lookup interface).isSome) ∧
    t.pre = [.replyReturn, .markedReturn] ++ eachRule (preLines mapping links) 0 plan.rules ∧
    t.chains = eachRule (fun i rule => [ruleChain seed revision i rule]) 0 plan.rules ∧
    t.post = eachRule (postLines mapping revision) 0 plan.rules ++ [.foreignDrop] := by
  unfold render at rendered
  obtain ⟨plan', accepted, built⟩ := bind_ok rendered
  obtain ⟨same, valid⟩ := validatePlan_valid accepted
  rw [same] at built
  obtain ⟨_, range, built⟩ := bind_ok built
  obtain ⟨_, checked, built⟩ := bind_ok built
  obtain rfl := Except.ok.inj built
  refine ⟨valid, by simpa using demand_ok range, ?_, rfl, rfl, rfl⟩
  intro rule member interface snat
  have used : interface ∈ usedInterfaces plan := by
    refine List.mem_append_right _ (List.mem_filterMap.mpr ⟨rule, member, ?_⟩)
    rw [snat]
  obtain ⟨_, -, ok⟩ := mapM_mem checked used
  unfold checkInterface at ok
  cases there : mapping.lookup interface with
  | none => simp [there] at ok
  | some device => rfl

theorem prerouting_new (rendered : render seed mapping links revision size digest plan = .ok t) (injective : Injective mapping)
    (k : Kernel) {p : NatPacket} (original : p.direction = .original) (unmarked : p.mark = 0) :
    prerouting t k p =
      match firstMatch (NatRule.selects mapping links k p) plan.rules with
      | none => ⟨0, none, false⟩
      | some (i, rule) => ⟨markOf revision i, rule.destinationOf seed k p, false⟩ := by
  obtain ⟨⟨-, valid⟩, -, -, pre, chains, -⟩ := render_spec rendered
  have scan : t.pre.findSome? (PreLine.jump k p) =
      (firstMatch (NatRule.selects mapping links k p) plan.rules).map fun found => .chain found.1 := by
    rw [pre, List.findSome?_append, eachRule_findSome fun i rule => preLines_findSome injective i rule]
    simp [PreLine.jump, original, unmarked, firstMatch]
  unfold prerouting
  rw [scan]
  cases found : firstMatch (NatRule.selects mapping links k p) plan.rules with
  | none => simp [unmarked]
  | some item =>
    obtain ⟨i, rule⟩ := item
    obtain ⟨selected, read⟩ := firstMatchFrom_get found
    have chain : t.chains.getD i [] = ruleChain seed revision i rule := by
      rw [chains, List.getD_eq_getElem?_getD, eachRule_getElem, show plan.rules[i]? = some rule from read, Nat.zero_add]
      rfl
    simp only [Option.map_some]
    rw [chain]
    exact ruleChain_runs (valid rule (firstMatchFrom_mem found)) selected revision i p.mark

theorem postrouting_unmarked (rendered : render seed mapping links revision size digest plan = .ok t) (oif : String) (saddr : UInt32) :
    postrouting t 0 oif saddr = .accept .none := by
  obtain ⟨-, -, -, -, -, post⟩ := render_spec rendered
  unfold postrouting
  rw [post, List.findSome?_append, eachRule_none 0 plan.rules fun j rule _ => postLines_other rule (markOf_pos revision j).symm]
  simp [PostLine.verdict]

theorem postrouting_selected (rendered : render seed mapping links revision size digest plan = .ok t) (injective : Injective mapping)
    {i : Nat} {rule : NatRule} (read : plan.rules[i]? = some rule) {saddr : UInt32} (source : addressIn saddr rule.source = true)
    (oif : String) : postrouting t (markOf revision i) oif saddr = rule.sourceOf mapping oif := by
  obtain ⟨⟨small, valid⟩, -, commissioned, -, -, post⟩ := render_spec rendered
  have member := List.mem_of_getElem? read
  have others : ∀ j r, j ≠ i → (postLines mapping revision j r).findSome? (PostLine.verdict (markOf revision i) oif saddr) = none := by
    intro j r differs
    refine postLines_other r fun same => differs ?_
    unfold markOf at same
    omega
  unfold postrouting
  rw [post, List.findSome?_append, eachRule_at others 0 plan.rules (Nat.zero_le i) read,
    postLines_own injective (valid rule member) source (commissioned rule member)]
  rfl

/-- A new packet of the original direction is translated by the first rule that selects it, in
both hooks, or not at all; and a mark belongs to one rule of one generation. -/
theorem nat_first_match (rendered : render seed mapping links revision size digest plan = .ok t) (injective : Injective mapping) :
    (∀ (k : Kernel) (p : NatPacket), p.direction = .original → p.mark = 0 →
      match firstMatch (NatRule.selects mapping links k p) plan.rules with
      | none => prerouting t k p = ⟨0, none, false⟩ ∧ ∀ oif, postrouting t (prerouting t k p).mark oif p.saddr = .accept .none
      | some (i, rule) => prerouting t k p = ⟨markOf revision i, rule.destinationOf seed k p, false⟩ ∧
          ∀ oif, postrouting t (prerouting t k p).mark oif p.saddr = rule.sourceOf mapping oif) ∧
    ∀ revision revision' i i', i < 1024 → i' < 1024 → markOf revision i = markOf revision' i' → revision = revision' ∧ i = i' := by
  refine ⟨?_, fun _ _ _ _ small small' same => markOf_injective small small' same⟩
  intro k p original unmarked
  have pre := prerouting_new rendered injective k original unmarked
  rw [pre]
  cases found : firstMatch (NatRule.selects mapping links k p) plan.rules with
  | none => exact ⟨rfl, fun oif => postrouting_unmarked rendered oif p.saddr⟩
  | some item =>
    obtain ⟨i, rule⟩ := item
    obtain ⟨selected, read⟩ := firstMatchFrom_get found
    simp only [NatRule.selects, Bool.and_eq_true] at selected
    exact ⟨rfl, postrouting_selected rendered injective read selected.1.1.1.2⟩

end table

/-! ### A plan -/

def sampleWeb : NatRule where
  name := "web"
  scope := "vsys1"
  position := 1
  ingress := ["ethernet1/1"]
  egress := ["ethernet1/1"]
  source := ["0.0.0.0/0"]
  destination := ["203.0.113.1"]
  services := [⟨.tcp, [], ["443"]⟩]
  snat := .none
  dnat := some (.static "10.0.0.5" (some 8443))

def sampleOut : NatRule where
  name := "out"
  scope := "vsys1"
  position := 2
  ingress := ["ethernet1/2"]
  egress := ["ethernet1/1"]
  source := ["10.0.0.0/8"]
  destination := ["0.0.0.0/0"]
  services := [⟨.any, [], []⟩]
  snat := .masquerade "ethernet1/1"
  dnat := none

def samplePlan : NatPlan := ⟨1, [sampleWeb, sampleOut]⟩

def sampleMapping : Dict String String := ((∅ : Dict String String).assign "ethernet1/1" "p1").assign "ethernet1/2" "p2"

def sampleLinks : Dict String Link :=
  ((∅ : Dict String Link).assign "p1" ⟨false, none, [("inet", "203.0.113.1")]⟩).assign "p2" ⟨false, none, [("inet", "10.0.0.1")]⟩

def sampleKernel : Kernel := ⟨fun a => if a = 0xcb007101 then some "lo" else some "p1", 0, fun _ _ => 0⟩

def samplePacket (iif : String) (saddr daddr : UInt32) : NatPacket := ⟨.original, 0, iif, saddr, daddr, .tcp, 50000, 443⟩

theorem sample_injective : Injective sampleMapping := by
  intro a b device first second
  have each : ∀ x ∈ sampleMapping.items, ∀ y ∈ sampleMapping.items, x.2 = y.2 → x.1 = y.1 := by decide +kernel
  exact each (a, device) (Dict.mem_items.mpr first) (b, device) (Dict.mem_items.mpr second) rfl

/-- A connection to the firewall's own address goes to the web server, one from inside goes out
by the address of its interface and nowhere else. -/
theorem nat_first_match_sample :
    ∃ t, render (fun _ _ => "") sampleMapping sampleLinks 7 (fun _ => 0) (fun _ => "") samplePlan = .ok t ∧
      prerouting t sampleKernel (samplePacket "p1" 0xc6336407 0xcb007101) = ⟨markOf 7 0, some (0x0a000005, some 8443), false⟩ ∧
      prerouting t sampleKernel (samplePacket "p2" 0x0a000007 0x08080808) = ⟨markOf 7 1, none, false⟩ ∧
      postrouting t (markOf 7 1) "p1" 0x0a000007 = .accept .masquerade ∧ postrouting t (markOf 7 1) "p2" 0x0a000007 = .drop := by
  cases rendered : render (fun _ _ => "") sampleMapping sampleLinks 7 (fun _ => 0) (fun _ => "") samplePlan with
  | error text =>
    have ok : (render (fun _ _ => "") sampleMapping sampleLinks 7 (fun _ => 0) (fun _ => "") samplePlan).toOption.isSome = true := by
      decide +kernel
    rw [rendered] at ok
    cases ok
  | ok t =>
    obtain ⟨translated, -⟩ := nat_first_match rendered sample_injective
    have web := translated sampleKernel (samplePacket "p1" 0xc6336407 0xcb007101) rfl rfl
    have out := translated sampleKernel (samplePacket "p2" 0x0a000007 0x08080808) rfl rfl
    have webRule : firstMatch (NatRule.selects sampleMapping sampleLinks sampleKernel (samplePacket "p1" 0xc6336407 0xcb007101))
        samplePlan.rules =
        some (0, sampleWeb) := by decide +kernel
    have outRule : firstMatch (NatRule.selects sampleMapping sampleLinks sampleKernel (samplePacket "p2" 0x0a000007 0x08080808))
        samplePlan.rules =
        some (1, sampleOut) := by decide +kernel
    simp only [webRule] at web
    simp only [outRule] at out
    have target : sampleWeb.destinationOf (fun _ _ => "") sampleKernel (samplePacket "p1" 0xc6336407 0xcb007101) =
        some (0x0a000005, some 8443) := by decide +kernel
    have marked : (prerouting t sampleKernel (samplePacket "p2" 0x0a000007 0x08080808)).mark = markOf 7 1 := by rw [out.1]
    rw [marked] at out
    refine ⟨t, rfl, by rw [web.1, target], out.1, ?_, ?_⟩
    · rw [show (0x0a000007 : UInt32) = (samplePacket "p2" 0x0a000007 0x08080808).saddr from rfl, out.2 "p1"]
      decide +kernel
    · rw [show (0x0a000007 : UInt32) = (samplePacket "p2" 0x0a000007 0x08080808).saddr from rfl, out.2 "p2"]
      decide +kernel

end FfnNgfw.Translate
