import FfnNgfw.Lib.FirstMatch
import FfnNgfw.Policy.Gather

/-!
# The rendered table and the packet test agree

The first line of the forward chain that matches a packet leads to the rule that the
packet test selects for the packet's connection, in both directions. Packets between
virtual systems fall through to the drop.
-/

namespace FfnNgfw.Policy

/-! ### Running the chain -/

def stopped (p : Packet) : Bool := guards.any fun g => g.stops p

def serviceHit (l4proto : PacketProtocol) (c : Conn) (s : Service) : Bool :=
  s.protocol = .any || (s.protocol.isPacket l4proto && portIn c.sport s.sourcePorts && portIn c.dport s.destinationPorts)

def addressHit (c : Conn) (m : Match) : Bool := addressMatch c.saddr m.source && addressMatch c.daddr m.destination

/-- The interfaces by which the connection's first packet came in and went out. -/
def Packet.ends (p : Packet) : Nat × Nat :=
  match p.direction with
  | .original => (p.iif, p.oif)
  | .reply => (p.oif, p.iif)

def pairHit (p : Packet) (pair : List Nat × List Nat) : Bool := p.ends.1 ∈ pair.1 && p.ends.2 ∈ pair.2

def ruleHit (p : Packet) (rule : RuleRow) : Bool :=
  rule.pairs.any (pairHit p) && addressHit p.conn rule.match && (rule.match.services.getD []).any (serviceHit p.l4proto p.conn)

theorem ruleCond_eq (m : Match) (s : Service) (d : Direction × List Nat × List Nat) (p : Packet) : (ruleCond m s d).holds p =
    (decide (d.1 = p.direction) && decide (p.iif ∈ d.2.1) && decide (p.oif ∈ d.2.2) && addressHit p.conn m &&
      (decide (s.protocol = .any) || s.protocol.isPacket p.l4proto) &&
      portIn p.conn.sport (if s.protocol = .any then [] else s.sourcePorts) &&
      portIn p.conn.dport (if s.protocol = .any then [] else s.destinationPorts)) := rfl

theorem ruleCond_holds (m : Match) (s : Service) (pair : List Nat × List Nat) (p : Packet) :
    ((directions pair).any fun d => (ruleCond m s d).holds p) =
      (pairHit p pair && addressHit p.conn m && serviceHit p.l4proto p.conn s) := by
  have ports : serviceHit p.l4proto p.conn s = ((decide (s.protocol = .any) || s.protocol.isPacket p.l4proto) &&
      portIn p.conn.sport (if s.protocol = .any then [] else s.sourcePorts) &&
      portIn p.conn.dport (if s.protocol = .any then [] else s.destinationPorts)) := by
    unfold serviceHit
    by_cases any : s.protocol = .any
    · simp [any, portIn]
    · simp [any]
  unfold directions pairHit Packet.ends
  rw [ports]
  cases direction : p.direction with
  | original => simp [ruleCond_eq, direction, Bool.and_assoc]
  | reply => simp [ruleCond_eq, direction, Bool.and_assoc, Bool.and_left_comm]

theorem ruleLines_findSome (p : Packet) (i : Nat) (rule : RuleRow) :
    (ruleLines i rule).findSome? (fun l => l.verdict p) = if ruleHit p rule then some (.goto (.rule i)) else none := by
  have each : ∀ l ∈ ruleLines i rule, l.verdict p = if (l.verdict p).isSome then some (.goto (.rule i)) else none := by
    intro l member
    obtain ⟨pair, _, member⟩ := List.mem_flatMap.mp member
    obtain ⟨d, _, member⟩ := List.mem_flatMap.mp member
    obtain ⟨s, _, rfl⟩ := List.mem_map.mp member
    unfold Line.verdict
    dsimp only
    split <;> rfl
  have hit : (ruleLines i rule).any (fun l => (l.verdict p).isSome) = ruleHit p rule := by
    have sums : (ruleLines i rule).any (fun l => (l.verdict p).isSome) =
        rule.pairs.any fun pair => (rule.match.services.getD []).any fun s =>
          (directions pair).any fun d => (ruleCond rule.match s d).holds p := by
      rw [Bool.eq_iff_iff]
      simp only [ruleLines, List.any_flatMap, List.any_map, List.any_eq_true, Function.comp, Line.verdict,
        Option.isSome_ite]
      constructor
      · rintro ⟨pair, pairIn, d, dIn, s, sIn, holds⟩
        exact ⟨pair, pairIn, s, sIn, d, dIn, holds⟩
      · rintro ⟨pair, pairIn, s, sIn, d, dIn, holds⟩
        exact ⟨pair, pairIn, d, dIn, s, sIn, holds⟩
    rw [sums, Bool.eq_iff_iff]
    simp only [ruleCond_holds, ruleHit, List.any_eq_true, Bool.and_eq_true]
    constructor
    · rintro ⟨pair, pairIn, s, sIn, ⟨between, address⟩, service⟩
      exact ⟨⟨⟨pair, pairIn, between⟩, address⟩, s, sIn, service⟩
    · rintro ⟨⟨⟨pair, pairIn, between⟩, address⟩, s, sIn, service⟩
      exact ⟨pair, pairIn, s, sIn, ⟨between, address⟩, service⟩
  rw [findSome_const each, hit]

theorem rulesLines_findSome (p : Packet) (i : Nat) (rules : List RuleRow) :
    (rulesLines i rules).findSome? (fun l => l.verdict p) =
      (firstMatchFrom (ruleHit p) i rules).map fun found => .goto (.rule found.1) := by
  induction rules generalizing i with
  | nil => rfl
  | cons rule rest ih =>
    rw [rulesLines, List.findSome?_append, ruleLines_findSome, firstMatchFrom, ih]
    cases ruleHit p rule <;> rfl

theorem zoneLines_findSome (p : Packet) (zones : List ZoneRow) :
    (zones.map zoneLine).findSome? (fun l => l.verdict p) =
      if zones.any fun z => decide (p.iif ∈ z.indices) && decide (p.oif ∈ z.indices) then some (.goto .implicitAllow) else none := by
  rw [List.findSome?_map]
  refine findSome_const fun z _ => ?_
  simp [zoneLine, Line.verdict, Cond.holds, portIn]

theorem runChain_forward (g : Gathered) (p : Packet) : runChain (forwardLines g []) p =
    if stopped p then .drop
    else
      match firstMatchFrom (ruleHit p) 0 g.rules with
      | some found => .goto (.rule found.1)
      | none =>
        if g.zones.any fun z => decide (p.iif ∈ z.indices) && decide (p.oif ∈ z.indices) then .goto .implicitAllow else .drop := by
  have stops : (guards.map Line.guard).findSome? (fun l => l.verdict p) = if stopped p then some .drop else none := by
    rw [List.findSome?_map]
    exact findSome_const fun _ _ => rfl
  have clears : Line.verdict p .clearMark = none := rfl
  have drops : Line.verdict p .counterDrop = some .drop := rfl
  unfold runChain forwardLines hostLines
  rw [List.findSome?_append, List.findSome?_append, List.findSome?_append, List.findSome?_append, rulesLines_findSome,
    zoneLines_findSome, List.findSome?_cons]
  simp only [clears, drops, stops, List.flatMap_nil, List.findSome?_nil, List.findSome?_cons]
  cases stopped p with
  | true => rfl
  | false =>
    cases firstMatchFrom (ruleHit p) 0 g.rules with
    | some found => rfl
    | none =>
      cases g.zones.any fun z => decide (p.iif ∈ z.indices) && decide (p.oif ∈ z.indices) <;> rfl

variable {p : Packet} {scope destination source : String}

theorem pairsFor_hit {g : Gathered} (ok : ZonesOk g) {source destination : ZoneRow}
    (sourceIn : source ∈ g.zones) (destinationIn : destination ∈ g.zones) (enters : p.ends.1 ∈ source.indices)
    (leaves : p.ends.2 ∈ destination.indices) (scope : String) (m : Match) :
    (pairsFor scope m g.zones).any (pairHit p) =
      (decide (source.scope = scope ∧ destination.scope = scope) && zoneIn m.fromZones source.name &&
        zoneIn m.toZones destination.name && typeAllows m.ruleType source.name destination.name) := by
  rw [Bool.eq_iff_iff]
  simp only [pairsFor, List.any_eq_true, List.mem_flatMap, List.mem_map, List.mem_filter, Bool.and_eq_true, decide_eq_true_eq,
    pairHit]
  constructor
  · rintro ⟨pair, ⟨s, ⟨sIn, sScope, sZone⟩, d, ⟨dIn, ⟨dScope, dZone⟩, allows⟩, rfl⟩, inS, inD⟩
    cases ok.unique sIn sourceIn inS enters
    cases ok.unique dIn destinationIn inD leaves
    exact ⟨⟨⟨⟨sScope, dScope⟩, sZone⟩, dZone⟩, allows⟩
  · rintro ⟨⟨⟨⟨sScope, dScope⟩, sZone⟩, dZone⟩, allows⟩
    exact ⟨_, ⟨source, ⟨sourceIn, sScope, sZone⟩, destination, ⟨destinationIn, ⟨dScope, dZone⟩, allows⟩, rfl⟩, enters, leaves⟩

/-! ### The packet test -/

def Conn.hasPorts (c : Conn) : Bool := c.protocol = .tcp || c.protocol = .udp

/-- The packet test for a connection: its tuple, its zones, and its ports where it has any. -/
def Conn.test (c : Conn) (source destination : String) : TestPacket where
  source := c.saddr
  destination := c.daddr
  fromZone := source
  toZone := destination
  protocol := c.protocol
  sourcePort := if c.hasPorts then some c.sport else none
  destinationPort := if c.hasPorts then some c.dport else none

theorem allMatches_some (values : List Bool) : allMatches (values.map some) = some (values.all id) := by
  unfold allMatches
  by_cases fails : false ∈ values
  · have none : values.all id = false := by
      rw [List.all_eq_false]
      exact ⟨false, fails, by simp⟩
    rw [if_pos (List.mem_map_of_mem fails), none]
  · have holds : values.all id = true := by
      rw [List.all_eq_true]
      intro v member
      cases v with
      | false => exact absurd member fails
      | true => rfl
    rw [if_neg (by simpa using fails), if_neg (by simp), holds]

theorem portMatch_some (port : Nat) (ranges : List PortRange) : portMatch (some port) ranges = some (portIn port ranges) := by
  unfold portMatch portIn
  by_cases empty : ranges = []
  · simp [empty]
  · simp [empty]

theorem serviceMatch_some (s : Service) (c : Conn) (source destination : String) :
    serviceMatch s (c.test source destination) = some (serviceHit c.protocol c s) := by
  unfold serviceMatch serviceHit
  by_cases any : s.protocol = .any
  · simp [any]
  · rw [if_neg any]
    by_cases ported : c.hasPorts = true
    · have ports : ∀ port ranges, portMatch (if c.hasPorts then some port else none) ranges = some (portIn port ranges) := by
        intro port ranges
        rw [if_pos ported, portMatch_some]
      simp only [Conn.test, ports]
      rw [show [some (s.protocol.isPacket c.protocol), some (portIn c.sport s.sourcePorts), some (portIn c.dport s.destinationPorts)] =
        [s.protocol.isPacket c.protocol, portIn c.sport s.sourcePorts, portIn c.dport s.destinationPorts].map some from rfl,
        allMatches_some]
      simp [any, Bool.and_assoc]
    · -- neither TCP nor UDP: no service with a protocol matches, whatever it says about ports
      have other : s.protocol.isPacket c.protocol = false := by
        unfold Protocol.isPacket
        split
        · rename_i tcp
          simp [Conn.hasPorts, tcp] at ported
        · rename_i udp
          simp [Conn.hasPorts, udp] at ported
        · rfl
      simp [Conn.test, other, allMatches, any]

theorem servicesMatch_some (services : List Service) (c : Conn) (source destination : String) :
    servicesMatch (some services) (c.test source destination) = some (services.any (serviceHit c.protocol c)) := by
  unfold servicesMatch
  simp only [serviceMatch_some]
  by_cases hit : ∃ s ∈ services, serviceHit c.protocol c s = true
  · rw [if_pos (by simpa using hit)]
    simpa using hit
  · rw [if_neg (by simpa using hit), if_neg (by simp)]
    have none : services.any (serviceHit c.protocol c) = false := by simpa using hit
    rw [none]

def matchHit (m : Match) (c : Conn) (source destination : String) : Bool :=
  zoneIn m.fromZones source && zoneIn m.toZones destination && typeAllows m.ruleType source destination &&
    addressHit c m && (m.services.getD []).any (serviceHit c.protocol c)

theorem memberMatch_some (values : List String) (value : String) : memberMatch values (some value) = some (zoneIn values value) := by
  unfold memberMatch zoneIn
  by_cases any : values = ["any"]
  · simp [any]
  · simp [any]

theorem allMatches_plain (a b x y z : Bool) (extra : List Bool) :
    allMatches ([some a, some b, some true, some true, some true, some true] ++ extra.map some ++ [some x, some y, some z]) =
      some (a && b && extra.all id && (x && y) && z) := by
  have listed := allMatches_some ([a, b, true, true, true, true] ++ extra ++ [x, y, z])
  rw [List.map_append, List.map_append] at listed
  refine listed.trans ?_
  simp [Bool.and_assoc]

theorem matchPacket_plain {m : Match} (plain : Plain m) (c : Conn) (source destination : String) :
    matchPacket m (c.test source destination) = some (matchHit m c source destination) := by
  obtain ⟨services, given⟩ : ∃ services, m.services = some services := Option.ne_none_iff_exists'.mp plain.services
  have free : ∀ given, memberMatch ["any"] given = some true := fun _ => rfl
  have zones : memberMatch m.fromZones (some (c.test source destination).fromZone) = some (zoneIn m.fromZones source) ∧
      memberMatch m.toZones (some (c.test source destination).toZone) = some (zoneIn m.toZones destination) :=
    ⟨memberMatch_some _ _, memberMatch_some _ _⟩
  unfold matchPacket matchHit
  rw [plain.application, plain.sourceUser, plain.sourceDevice, plain.destinationDevice, given, servicesMatch_some, zones.1, zones.2]
  simp only [free]
  cases m.ruleType with
  | universal => exact allMatches_plain _ _ _ _ _ []
  | intrazone =>
    refine (allMatches_plain _ _ _ _ _ [decide (source = destination)]).trans ?_
    simp [typeAllows, addressHit, Conn.test]
  | interzone =>
    refine (allMatches_plain _ _ _ _ _ [decide (source ≠ destination)]).trans ?_
    simp [typeAllows, addressHit, Conn.test]

/-! ### Selecting -/

def rowHit (scope : String) (c : Conn) (source destination : String) (row : Row) : Bool :=
  match row.compiled with
  | .error _ => false
  | .ok (m, _) => row.scope = scope && matchHit m c source destination

/-- The row has been compiled, and to a match that the packet test can decide. -/
def Row.Decided (row : Row) : Prop := ∃ m action, row.compiled = .ok (m, action) ∧ Plain m

theorem selectRow_decided {rows : List Row} (decided : ∀ row ∈ rows, row.Decided)
    (owned : ∀ row ∈ rows, row.scope = scope) (c : Conn) (source destination : String) :
    selectRow rows (c.test source destination) = some
      (match rows.find? (rowHit scope c source destination) with
        | some row => .rule row
        | none => if source = destination then .intrazoneDefault else .interzoneDefault) := by
  induction rows with
  | nil => rfl
  | cons row rest ih =>
    obtain ⟨m, action, compiled, plain⟩ := decided row List.mem_cons_self
    have here := owned row List.mem_cons_self
    have hit : rowHit scope c source destination row = matchHit m c source destination := by
      unfold rowHit
      rw [compiled]
      simp [here]
    unfold selectRow
    rw [compiled]
    dsimp only
    rw [matchPacket_plain plain, List.find?_cons, hit]
    cases matchHit m c source destination with
    | true => rfl
    | false =>
      exact ih (fun r member => decided r (List.mem_cons_of_mem row member)) fun r member => owned r (List.mem_cons_of_mem row member)

theorem firstMatch_rows {zones : List ZoneRow} {rows : List Row} {rules : List RuleRow} (hitRow : Row → Bool) {hitRule : RuleRow → Bool}
    (renders : List.Forall₂ (Renders zones) rows rules) (same : ∀ row rule, Renders zones row rule → hitRule rule = hitRow row)
    (i : Nat) :
    match rows.find? hitRow with
    | none => firstMatchFrom hitRule i rules = none
    | some row => ∃ j rule, firstMatchFrom hitRule i rules = some (i + j, rule) ∧ rules[j]? = some rule ∧ Renders zones row rule := by
  induction renders generalizing i with
  | nil => rfl
  | @cons row rule rows rules one more ih =>
    rw [List.find?_cons, ← same row rule one]
    unfold firstMatchFrom
    cases hitRule rule with
    | true => exact ⟨0, rule, rfl, rfl, one⟩
    | false =>
      have rest := ih (i + 1)
      cases found : rows.find? hitRow with
      | none =>
        rw [found] at rest
        exact rest
      | some r =>
        rw [found] at rest
        obtain ⟨j, rule', first, read, of⟩ := rest
        rw [Nat.add_assoc, Nat.add_comm 1 j] at first
        exact ⟨j + 1, rule', first, read, of⟩

theorem findSome_unique {α β : Type} {f : α → Option β} {a : α} {xs : List α} (member : a ∈ xs)
    (others : ∀ x ∈ xs, x ≠ a → f x = none) : xs.findSome? f = f a := by
  cases found : f a with
  | none =>
    rw [List.findSome?_eq_none_iff]
    intro x inside
    by_cases same : x = a
    · rw [same, found]
    · exact others x inside same
  | some b =>
    induction xs with
    | nil => cases member
    | cons x xs ih =>
      rw [List.findSome?_cons]
      by_cases same : x = a
      · rw [same, found]
      · rw [others x List.mem_cons_self same]
        rcases List.mem_cons.mp member with rfl | later
        · exact absurd rfl same
        · exact ih later fun y inside => others y (List.mem_cons_of_mem x inside)

theorem find_owner {root : Config} {owner : Vsys} (member : owner ∈ owners root) (c : Conn) (source destination : String) :
    ((owners root).flatMap (planRows root)).find? (rowHit owner.name c source destination) =
      (planRows root owner).find? (rowHit owner.name c source destination) := by
  rw [List.find?_flatMap]
  refine findSome_unique member fun o there differ => ?_
  rw [List.find?_eq_none]
  intro row inside
  have scope := planRows_scope root o row inside
  have apart : o.name ≠ owner.name := fun same => differ (List.inj_on_of_nodup_map (owners_nodup root) there member same)
  unfold rowHit
  split
  · simp
  · simp [scope, apart]

def Conn.portsOk (c : Conn) : Bool :=
  !c.hasPorts || (1 ≤ c.sport && c.sport ≤ 65535 && (1 ≤ c.dport && c.dport ≤ 65535))

theorem validatePacket_test {owner : Vsys} {c : Conn}
    (sourceIn : source ∈ owner.zones.map Zone.name) (destinationIn : destination ∈ owner.zones.map Zone.name)
    (ports : c.portsOk = true) : validatePacket owner (c.test source destination) = .ok (c.test source destination) := by
  have port : ∀ n : Nat, (c.hasPorts = true → 1 ≤ n ∧ n ≤ 65535) →
      packetPortOk c.protocol (if c.hasPorts then some n else none) = true := by
    intro n small
    unfold packetPortOk
    by_cases ported : c.hasPorts = true
    · have kind : (decide (c.protocol = .tcp) || decide (c.protocol = .udp)) = true := ported
      simp [ported, small ported, kind]
    · simp [ported]
  have limits : c.hasPorts = true → (1 ≤ c.sport ∧ c.sport ≤ 65535) ∧ 1 ≤ c.dport ∧ c.dport ≤ 65535 := by
    intro ported
    simpa [Conn.portsOk, ported] using ports
  have first : packetPortOk (c.test source destination).protocol (c.test source destination).sourcePort = true :=
    port c.sport fun ported => (limits ported).1
  have second : packetPortOk (c.test source destination).protocol (c.test source destination).destinationPort = true :=
    port c.dport fun ported => (limits ported).2
  have silent : packetTextOk none = true := rfl
  unfold validatePacket
  have fromOk : (c.test source destination).fromZone ∈ owner.zones.map Zone.name := sourceIn
  have toOk : (c.test source destination).toZone ∈ owner.zones.map Zone.name := destinationIn
  rw [if_neg (not_not.mpr fromOk), if_neg (not_not.mpr toOk), first, second]
  simp [Conn.test, silent]

section gathered

variable {root : Config} {bindings : Bindings} {g : Gathered} (done : Done root bindings (owners root) g)
include done

theorem rows_decided {owner : Vsys} (member : owner ∈ owners root) : ∀ row ∈ planRows root owner, row.Decided := by
  intro row inside
  have rendered : ∀ (rows : List Row) (rules : List RuleRow), List.Forall₂ (Renders g.zones) rows rules →
      ∀ row ∈ rows, row.Decided := by
    intro rows rules renders
    induction renders with
    | nil =>
      intro row inside
      cases inside
    | cons one _ ih =>
      intro row inside
      rcases List.mem_cons.mp inside with rfl | later
      · exact ⟨_, _, one.compiled, one.plain⟩
      · exact ih row later
  exact rendered _ _ done.rules row (List.mem_flatMap.mpr ⟨owner, member, inside⟩)

theorem testPolicy_rows {owner : Vsys} (member : owner ∈ owners root) {c : Conn} {source destination : String}
    (sourceIn : source ∈ owner.zones.map Zone.name) (destinationIn : destination ∈ owner.zones.map Zone.name)
    (ports : c.portsOk = true) : testPolicy root owner.name (c.test source destination) =
      .ok (some (match (planRows root owner).find? (rowHit owner.name c source destination) with
        | some row => .rule row
        | none => if source = destination then .intrazoneDefault else .interzoneDefault)) := by
  have found : (owners root).find? (fun o => decide (o.name = owner.name)) = some owner := by
    cases first : (owners root).find? fun o => decide (o.name = owner.name) with
    | none => exact absurd (List.find?_eq_none.mp first owner member) (by simp)
    | some o =>
      have same : o.name = owner.name := by simpa using List.find?_some first
      rw [List.inj_on_of_nodup_map (owners_nodup root) (List.mem_of_find?_eq_some first) member same]
  unfold testPolicy
  rw [found]
  dsimp only
  rw [done.policies owner member, validatePacket_test sourceIn destinationIn ports]
  rw [← selectRow_decided (rows_decided done member) (planRows_scope root owner)]
  rfl

end gathered

/-- The interface with this index is one that the zone of the virtual system is bound to. -/
def InZone (root : Config) (bindings : Bindings) (scope name : String) (index : Nat) : Prop :=
  ∃ owner ∈ owners root, owner.name = scope ∧ ∃ zone ∈ owner.zones, zone.name = name ∧ zone.layer3 ≠ [] ∧
    ∃ names, interfaces root owner [name] = .ok names ∧ ∃ n ∈ names, bindings n = some index

/-- The zone row that has the interfaces of a zone of `owner`. -/
structure RowFor (root : Config) (bindings : Bindings) (g : Gathered) (owner : Vsys) (name : String) (row : ZoneRow) : Prop where
  member : row ∈ g.zones
  configured : name ∈ owner.zones.map Zone.name
  scope : row.scope = owner.name
  called : row.name = name
  indices : ∃ names, interfaces root owner [name] = .ok names ∧ ∀ i, i ∈ row.indices ↔ ∃ n ∈ names, bindings n = some i

section meaning

variable {root : Config} {bindings : Bindings} {g : Gathered} (done : Done root bindings (owners root) g)
include done

theorem inZone_row {scope name : String} {index : Nat} (inside : InZone root bindings scope name index) :
    ∃ owner ∈ owners root, owner.name = scope ∧ ∃ row, RowFor root bindings g owner name row ∧ index ∈ row.indices := by
  obtain ⟨owner, member, named, zone, zoneIn, rfl, used, names, resolved, bound⟩ := inside
  obtain ⟨row, there, rowScope, rowName, names', resolved', indices⟩ := done.present owner member zone zoneIn used
  have same : names = names' := Except.ok.inj (resolved.symm.trans resolved')
  subst same
  exact ⟨owner, member, named, row, ⟨there, List.mem_map_of_mem zoneIn, rowScope, rowName, names, resolved', indices⟩,
    (indices index).mpr bound⟩

theorem rowFor_same {owner : Vsys} {source destination : String} {s d : ZoneRow} (sourceRow : RowFor root bindings g owner source s)
    (destinationRow : RowFor root bindings g owner destination d) {i : Nat} (inside : i ∈ s.indices) : s = d ↔ source = destination := by
  constructor
  · rintro rfl
    exact sourceRow.called.symm.trans destinationRow.called
  · rintro rfl
    obtain ⟨names, resolved, indices⟩ := sourceRow.indices
    obtain ⟨names', resolved', indices'⟩ := destinationRow.indices
    have same : names = names' := Except.ok.inj (resolved.symm.trans resolved')
    subst same
    exact done.ok.unique sourceRow.member destinationRow.member inside ((indices' i).mpr ((indices i).mp inside))

theorem zones_hit {p : Packet} {s d : ZoneRow} (sIn : s ∈ g.zones) (dIn : d ∈ g.zones) (enters : p.ends.1 ∈ s.indices)
    (leaves : p.ends.2 ∈ d.indices) :
    (g.zones.any fun z => decide (p.iif ∈ z.indices) && decide (p.oif ∈ z.indices)) = true ↔ s = d := by
  have swap : ∀ z : ZoneRow, p.iif ∈ z.indices ∧ p.oif ∈ z.indices ↔ p.ends.1 ∈ z.indices ∧ p.ends.2 ∈ z.indices := by
    intro z
    unfold Packet.ends
    cases p.direction with
    | original => rfl
    | reply => exact and_comm
  simp only [List.any_eq_true, Bool.and_eq_true, decide_eq_true_eq, swap]
  constructor
  · rintro ⟨z, zIn, first, second⟩
    exact (done.ok.unique sIn zIn enters first).trans (done.ok.unique zIn dIn second leaves)
  · rintro rfl
    exact ⟨s, sIn, enters, leaves⟩

end meaning

/-! ### Meaning -/

def Verdict.Means (rules : List RuleRow) (v : Verdict) : Selected → Prop
  | .rule row => ∃ i rule, v = .goto (.rule i) ∧ rules[i]? = some rule ∧ rule.scope = row.scope ∧ rule.name = row.name ∧
      rule.position = row.position ∧ row.compiled = .ok (rule.match, rule.action)
  | .intrazoneDefault => v = .goto .implicitAllow
  | .interzoneDefault => v = .drop

/-- For the packets of a kind: within a virtual system the first line that matches, past
the guards, leads to what the packet test selects; between virtual systems it is the drop. -/
def PreservesFor (kind : Packet → Prop) (root : Config) (bindings : Bindings) (out : Rendered) : Prop :=
  (∀ p scope source destination, kind p → InZone root bindings scope source p.ends.1 →
    InZone root bindings scope destination p.ends.2 →
      ∃ selected v, testPolicy root scope (p.conn.test source destination) = .ok (some selected) ∧ v.Means out.rules selected ∧
        runChain out.forward p = if stopped p then .drop else v) ∧
  ∀ p scope scope' source destination, scope ≠ scope' → InZone root bindings scope source p.ends.1 →
    InZone root bindings scope' destination p.ends.2 → runChain out.forward p = .drop

theorem renders_hit {root : Config} {bindings : Bindings} {g : Gathered} (done : Done root bindings (owners root) g) {owner : Vsys}
    {s d : ZoneRow} (sourceRow : RowFor root bindings g owner source s)
    (destinationRow : RowFor root bindings g owner destination d) (own : p.l4proto = p.conn.protocol)
    (enters : p.ends.1 ∈ s.indices) (leaves : p.ends.2 ∈ d.indices) (row : Row) (rule : RuleRow) (renders : Renders g.zones row rule) :
    ruleHit p rule = rowHit owner.name p.conn source destination row := by
  unfold ruleHit rowHit matchHit
  rw [renders.compiled, renders.pairs, pairsFor_hit done.ok sourceRow.member destinationRow.member enters leaves, own,
    sourceRow.scope, destinationRow.scope, sourceRow.called, destinationRow.called]
  simp [Bool.and_assoc, eq_comm]

theorem gathered_meaning {root : Config} {bindings : Bindings} {g : Gathered} (done : Done root bindings (owners root) g)
    (own : p.l4proto = p.conn.protocol) (ports : p.conn.portsOk = true)
    (enters : InZone root bindings scope source p.ends.1) (leaves : InZone root bindings scope destination p.ends.2) :
    ∃ selected v, testPolicy root scope (p.conn.test source destination) = .ok (some selected) ∧ v.Means g.rules selected ∧
      runChain (forwardLines g []) p = if stopped p then .drop else v := by
  obtain ⟨owner, member, rfl, s, sourceRow, inS⟩ := inZone_row done enters
  obtain ⟨owner', member', named, d, destinationRow, inD⟩ := inZone_row done leaves
  have same : owner' = owner := List.inj_on_of_nodup_map (owners_nodup root) member' member named
  subst same
  have tested := testPolicy_rows done member' sourceRow.configured destinationRow.configured ports
  have scan := firstMatch_rows _ done.rules (renders_hit done sourceRow destinationRow own inS inD) 0
  rw [find_owner member'] at scan
  refine ⟨_, _, tested, ?_, runChain_forward g p⟩
  cases found : (planRows root owner').find? (rowHit owner'.name p.conn source destination) with
  | some row =>
    rw [found] at scan
    obtain ⟨j, rule, first, read, renders⟩ := scan
    rw [first]
    exact ⟨0 + j, rule, rfl, by rw [Nat.zero_add]; exact read, renders.scope, renders.name, renders.position, renders.compiled⟩
  | none =>
    rw [found] at scan
    rw [scan]
    have implicit := (zones_hit done sourceRow.member destinationRow.member inS inD).trans
        (rowFor_same done sourceRow destinationRow inS)
    by_cases intrazone : source = destination
    · rw [if_pos intrazone, if_pos (implicit.mpr intrazone)]
      rfl
    · rw [if_neg intrazone, if_neg fun hit => intrazone (implicit.mp hit)]
      rfl

theorem gathered_apart {root : Config} {bindings : Bindings} {g : Gathered} (done : Done root bindings (owners root) g)
    {scope scope' source destination : String} (apart : scope ≠ scope')
    (enters : InZone root bindings scope source p.ends.1) (leaves : InZone root bindings scope' destination p.ends.2) :
    runChain (forwardLines g []) p = .drop := by
  obtain ⟨owner, _, rfl, s, sourceRow, inS⟩ := inZone_row done enters
  obtain ⟨owner', _, rfl, d, destinationRow, inD⟩ := inZone_row done leaves
  have differ : s ≠ d := by
    rintro rfl
    exact apart (sourceRow.scope.symm.trans destinationRow.scope)
  have misses : ∀ row rule, Renders g.zones row rule → ruleHit p rule = false := by
    intro row rule renders
    have none : ¬(owner.name = row.scope ∧ owner'.name = row.scope) := fun both => apart (both.1.trans both.2.symm)
    unfold ruleHit
    rw [renders.pairs, pairsFor_hit done.ok sourceRow.member destinationRow.member inS inD, sourceRow.scope, destinationRow.scope]
    simp [none]
  have scan := firstMatch_rows (fun _ => false) done.rules misses 0
  rw [List.find?_eq_none.mpr (by simp)] at scan
  rw [runChain_forward, scan, if_neg fun hit => differ ((zones_hit done sourceRow.member destinationRow.member inS inD).mp hit)]
  simp

theorem render_gathered {digest : List RuleRow → List ZoneRow → List HostLink → String} {root : Config} {bindings : Bindings}
    {tokens : Option Tokens} {hosts : List HostLink} {out : Rendered} (accepted : render digest root bindings tokens hosts = .ok out) :
    ∃ g, gather root bindings tokens = .ok g ∧ out.rules = g.rules ∧ out.forward = forwardLines g hosts := by
  unfold render at accepted
  obtain ⟨g, gathered, accepted⟩ := bind_ok accepted
  split at accepted
  · cases accepted
  obtain ⟨chains, _, accepted⟩ := bind_ok accepted
  obtain ⟨implicitLabel, _, accepted⟩ := bind_ok accepted
  dsimp only at accepted
  split at accepted
  · cases accepted
  · cases accepted
    exact ⟨g, gathered, rfl, rfl⟩

theorem render_of_gather {digest : List RuleRow → List ZoneRow → List HostLink → String} {root : Config} {bindings : Bindings}
    {tokens : Option Tokens} {hosts : List HostLink} {g : Gathered} {chains : List String} {implicitLabel : Option (List Nat)}
    (gathered : gather root bindings tokens = .ok g) (linked : (hosts.all fun h => indexOk h.index) = true)
    (chained : ruleChains tokens 0 g.rules = .ok chains) (labelled : label tokens ("implicit", "intrazone-default") = .ok implicitLabel)
    (small : ¬65536 < scriptSize (scriptLines (digest g.rules g.zones hosts) (forwardLines g hosts) chains implicitLabel)) :
    render digest root bindings tokens hosts =
      .ok ⟨String.join ((scriptLines (digest g.rules g.zones hosts) (forwardLines g hosts) chains implicitLabel).map fun l => l ++ "\n"),
        digest g.rules g.zones hosts, g.rules, g.zones, forwardLines g hosts⟩ := by
  simp only [render, gathered, linked, chained, labelled, bind, Except.bind]
  rw [if_neg small]
  rfl

/-- Packets of the connection itself, not errors about it, with ports that the packet test takes. -/
def Tested (p : Packet) : Prop := p.l4proto = p.conn.protocol ∧ p.conn.portsOk = true

theorem render_preserves {digest : List RuleRow → List ZoneRow → List HostLink → String} {root : Config} {bindings : Bindings}
    {tokens : Option Tokens} {out : Rendered} (accepted : render digest root bindings tokens [] = .ok out) :
    PreservesFor Tested root bindings out := by
  obtain ⟨g, gathered, rules, forward⟩ := render_gathered accepted
  have done := gather_done gathered
  unfold PreservesFor
  rw [rules, forward]
  refine ⟨?_, ?_⟩
  · rintro p scope source destination ⟨own, ports⟩ enters leaves
    exact gathered_meaning done own ports enters leaves
  · intro p scope scope' source destination apart enters leaves
    exact gathered_apart done apart enters leaves

/-! ### An office -/

/-- Web traffic of the office is let out, and the rest of what it sends is dropped. -/
def office : Config where
  shared :=
    { address := [("lan", .netmask "192.0.2.0/24")]
      service := [("web", .tcp "" "443,8000-8080")] }
  vsys :=
    [{ name := "vsys1"
       zones := [⟨"trust", ["ethernet1/1"]⟩, ⟨"untrust", ["ethernet1/2"]⟩]
       security :=
        [{ name := "web", fromZones := ["trust"], toZones := ["untrust"], source := ["lan"], service := ["web"], action := .allow,
           logEnd := false },
          { name := "rest", fromZones := ["trust"], toZones := ["untrust"], action := .drop, logEnd := false }] }]

def officeBindings : Bindings := fun interface =>
  if interface = "ethernet1/1" then some 10 else if interface = "ethernet1/2" then some 11 else none

def officeGathered : Gathered where
  zoneNames := [("vsys1", "untrust"), ("vsys1", "trust")]
  seen := [11, 10]
  zones := [⟨"vsys1", "trust", [10]⟩, ⟨"vsys1", "untrust", [11]⟩]
  rules :=
    [⟨"vsys1", "web", 1,
        { fromZones := ["trust"], toZones := ["untrust"], source := [.net 0xc0000200 24], destination := [.net 0 0],
          services := some [⟨.tcp, [], [⟨443, none⟩, ⟨8000, some 8080⟩]⟩], sourceUser := ["any"], application := ["any"],
          ruleType := .universal, sourceDevice := ["any"], destinationDevice := ["any"] },
        ⟨.allow, false, .none, false, false, none⟩, [([10], [11])]⟩,
      ⟨"vsys1", "rest", 2,
        { fromZones := ["trust"], toZones := ["untrust"], source := [.net 0 0], destination := [.net 0 0],
          services := some [⟨.any, [], []⟩], sourceUser := ["any"], application := ["any"], ruleType := .universal,
          sourceDevice := ["any"], destinationDevice := ["any"] },
        ⟨.drop, false, .none, false, false, none⟩, [([10], [11])]⟩]

def officeLines : List String :=
  scriptLines "" (forwardLines officeGathered [])
    [" chain r0 \x7b counter comment \"vsys1/web\"; goto grant; \x7d", " chain r1 \x7b counter comment \"vsys1/rest\"; drop; \x7d"] none

def officeOut : Rendered :=
  ⟨String.join (officeLines.map fun l => l ++ "\n"), "", officeGathered.rules, officeGathered.zones, forwardLines officeGathered []⟩

theorem office_accepted : render (fun _ _ _ => "") office officeBindings none [] = .ok officeOut := by
  have gathered : gather office officeBindings none = .ok officeGathered := by decide +kernel
  have chains : ruleChains none 0 officeGathered.rules =
      .ok [" chain r0 \x7b counter comment \"vsys1/web\"; goto grant; \x7d",
        " chain r1 \x7b counter comment \"vsys1/rest\"; drop; \x7d"] := by decide +kernel
  have small : ¬65536 < scriptSize officeLines := by decide +kernel
  exact render_of_gather gathered rfl chains rfl small

theorem office_trust : InZone office officeBindings "vsys1" "trust" 10 :=
  ⟨_, List.mem_cons_self, rfl, ⟨"trust", ["ethernet1/1"]⟩, by decide, rfl, by decide, ["ethernet1/1"], by decide, "ethernet1/1",
    by decide, rfl⟩

theorem office_untrust : InZone office officeBindings "vsys1" "untrust" 11 :=
  ⟨_, List.mem_cons_self, rfl, ⟨"untrust", ["ethernet1/2"]⟩, by decide, rfl, by decide, ["ethernet1/2"], by decide, "ethernet1/2",
    by decide, rfl⟩

/-- A first packet from the office to a web server, from the given source port. -/
def webPacket (sport : Nat) : Packet where
  ipv4 := true
  state := .new
  direction := .original
  label := 0
  iif := 10
  oif := 11
  saddr := 0xc000020a
  l4proto := .tcp
  conn := ⟨0xc000020a, 0xc6336401, .tcp, sport, 443⟩

theorem office_preserves : runChain officeOut.forward (webPacket 50000) = .goto (.rule 0) ∧
    ∃ selected v, testPolicy office "vsys1" ((webPacket 50000).conn.test "trust" "untrust") = .ok (some selected) ∧
      v.Means officeOut.rules selected ∧ runChain officeOut.forward (webPacket 50000) = if stopped (webPacket 50000) then .drop else v :=
  ⟨by decide +kernel, (render_preserves office_accepted).1 (webPacket 50000) "vsys1" "trust" "untrust" ⟨rfl,
    rfl⟩ office_trust office_untrust⟩

def icmpError : Packet := { webPacket 50000 with state := .related, l4proto := .icmp }

theorem port_zero_refused : ¬PreservesFor (fun p => p.l4proto = p.conn.protocol) office officeBindings officeOut := by
  intro preserves
  obtain ⟨selected, v, tested, _⟩ := preserves.1 (webPacket 0) "vsys1" "trust" "untrust" rfl office_trust office_untrust
  have refused : (testPolicy office "vsys1" ((webPacket 0).conn.test "trust" "untrust")).isOk = false := by decide +kernel
  rw [tested] at refused
  cases refused

theorem icmp_error_strays : ¬PreservesFor (fun p => p.conn.portsOk = true) office officeBindings officeOut := by
  intro preserves
  obtain ⟨selected, v, tested, means, leads⟩ := preserves.1 icmpError "vsys1" "trust" "untrust" rfl office_trust office_untrust
  have name : (testPolicy office "vsys1" (icmpError.conn.test "trust" "untrust")).map (Option.map Selected.name) = .ok (some "web") := by
    decide +kernel
  have runs : runChain officeOut.forward icmpError = .goto (.rule 1) := by decide +kernel
  have second : officeOut.rules[1]?.map RuleRow.name = some "rest" := by decide +kernel
  rw [tested] at name
  rw [runs, if_neg (by decide)] at leads
  cases selected with
  | rule row =>
    obtain ⟨i, rule, goes, read, _, called, _⟩ := means
    rw [← leads] at goes
    cases goes
    rw [read] at second
    have web : row.name = "web" := by simpa [Except.map, Selected.name] using name
    have rest : rule.name = "rest" := by simpa using second
    rw [called, web] at rest
    exact absurd rest (by decide)
  | intrazoneDefault => exact absurd name (by decide)
  | interzoneDefault => exact absurd name (by decide)

/-- Over all packets the table of the office does not keep the meaning, nor does it with one
of the two conditions alone. -/
theorem office_not_preserved : render (fun _ _ _ => "") office officeBindings none [] = .ok officeOut ∧
    ¬PreservesFor (fun _ => True) office officeBindings officeOut ∧
    ¬PreservesFor (fun p => p.l4proto = p.conn.protocol) office officeBindings officeOut ∧
    ¬PreservesFor (fun p => p.conn.portsOk = true) office officeBindings officeOut := by
  refine ⟨office_accepted, ?_, port_zero_refused, icmp_error_strays⟩
  rintro ⟨inside, between⟩
  exact port_zero_refused ⟨fun p scope source destination _ => inside p scope source destination trivial, between⟩

end FfnNgfw.Policy
