import FfnNgfw.Lib.Fallible
import FfnNgfw.Lib.Kleene
import FfnNgfw.Threatdb.Text

/-!
# Tests of packets against a plan

`test_policy` of all kinds of rules: the rows of a plan are tried in their order on a
packet that may leave fields out. A row that cannot be told for lack of one ends the
test. The plan is what `compile_policy` has made of the configuration.
-/

namespace FfnNgfw.PacketTest
open Policy (Block PortRange Protocol PacketProtocol Service RuleType)
open Kleene

inductive Kind where
  | security | nat | qos | pbf | decryption
  deriving DecidableEq

inductive Network where
  | v4 (block : Block)
  | v6 (base len : Nat)
  deriving DecidableEq

/-- What a rule matches. Rules that are not of the Security rulebase have no type and no
devices, and NAT rules alone an interface. -/
structure Match where
  fromZones : List String
  toZones : List String
  source : List Network
  destination : List Network
  /-- `none` is application-default -/
  services : Option (List Service)
  sourceUser : List String
  application : List String
  ruleType : Option RuleType := none
  sourceDevice : Option (List String) := none
  destinationDevice : Option (List String) := none
  egressInterface : Option String := none
  deriving DecidableEq

/-- A row of a plan; one that cannot be compiled has the reason in its place. -/
structure Row (A : Type) where
  name : String
  scope : String
  position : Nat
  compiled : Except String (Match × A)

/-! ### Packets -/

/-- The request; an address is a text. -/
structure Description where
  source : Option String
  destination : Option String
  fromZone : Option String
  toZone : Option String
  protocol : Option String
  sourcePort : Option Int := none
  destinationPort : Option Int := none
  application : Option String := none
  sourceUser : Option String := none
  sourceDevice : Option String := none
  destinationDevice : Option String := none
  egressInterface : Option String := none
  deriving DecidableEq

inductive Address where
  | v4 (a : UInt32)
  | v6 (a : Nat)
  deriving DecidableEq

def Address.version : Address → Nat
  | .v4 _ => 4
  | .v6 _ => 6

structure Packet where
  source : Address
  destination : Address
  fromZone : String
  toZone : String
  protocol : PacketProtocol
  sourcePort : Option Nat
  destinationPort : Option Nat
  application : Option String
  sourceUser : Option String
  sourceDevice : Option String
  destinationDevice : Option String
  egressInterface : Option String
  deriving DecidableEq

def parseAddress (ipv6 : Bool) (text : String) : Option Address :=
  match Policy.ipv4Address text.toList with
  | some a => some (.v4 a)
  | none => if ipv6 then (Threatdb.ipv6Address text.toList).map .v6 else none

def packetAddress (ipv6 : Bool) (key : String) (text : Option String) : Except String Address :=
  match text.bind (parseAddress ipv6) with
  | some a => .ok a
  | none => .error ("Packet " ++ key ++ " must be an " ++ (if ipv6 then "IP" else "IPv4") ++ " address")

def packetZone (zones : List String) (key : String) (name : Option String) : Except String String :=
  match name with
  | some name => if name ∈ zones then .ok name else .error ("Select a configured " ++ key)
  | none => .error ("Select a configured " ++ key)

def packetProtocol (text : Option String) : Except String PacketProtocol :=
  match text with
  | some "tcp" => .ok .tcp
  | some "udp" => .ok .udp
  | some "icmp" => .ok .icmp
  | some "other" => .ok .other
  | _ => .error "Packet protocol must be tcp, udp, icmp or other"

def packetPort (protocol : PacketProtocol) (port : Option Int) : Except String (Option Nat) :=
  match port with
  | none => .ok none
  | some n =>
    if 1 ≤ n ∧ n ≤ 65535 ∧ (protocol = .tcp ∨ protocol = .udp) then .ok (some n.toNat)
    else .error "Packet ports require TCP/UDP and values 1–65535"

def packetText (key : String) (text : Option String) : Except String (Option String) :=
  match text with
  | none => .ok none
  | some t => if 1 ≤ t.length ∧ t.length ≤ 1024 then .ok (some t) else .error ("Invalid packet " ++ key)

def validatePacket (zones : List String) (ipv6 : Bool) (d : Description) : Except String Packet := do
  let source ← packetAddress ipv6 "source" d.source
  let destination ← packetAddress ipv6 "destination" d.destination
  if source.version ≠ destination.version then throw "Original packet addresses must have the same family"
  let fromZone ← packetZone zones "from_zone" d.fromZone
  let toZone ← packetZone zones "to_zone" d.toZone
  let protocol ← packetProtocol d.protocol
  let sourcePort ← packetPort protocol d.sourcePort
  let destinationPort ← packetPort protocol d.destinationPort
  let application ← packetText "application" d.application
  let sourceUser ← packetText "source_user" d.sourceUser
  let sourceDevice ← packetText "source_device" d.sourceDevice
  let destinationDevice ← packetText "destination_device" d.destinationDevice
  let egressInterface ← packetText "egress_interface" d.egressInterface
  return ⟨source, destination, fromZone, toZone, protocol, sourcePort, destinationPort, application, sourceUser,
    sourceDevice, destinationDevice, egressInterface⟩

/-! ### Matching -/

def Network.contains : Network → Address → Bool
  | .v4 block, .v4 a => block.contains a
  | .v6 base len, .v6 a => a >>> (128 - len) = base >>> (128 - len)
  | _, _ => false

def addressMatch (value : Address) (addresses : List Network) : Bool := addresses.any fun item => item.contains value

/-- `none` where the packet does not say. -/
def portMatch (value : Option Nat) (ranges : List PortRange) : Option Bool :=
  if ranges = [] then some true else value.map fun port => ranges.any fun r => r.contains port

def allMatches (values : List (Option Bool)) : Option Bool := conj values

def memberMatch (values : List String) (given : Option String) : Option Bool :=
  if values = ["any"] then some true else given.map fun value => value ∈ values

def serviceMatch (service : Service) (p : Packet) : Option Bool :=
  if service.protocol = .any then some true
  else
    allMatches [some (service.protocol.isPacket p.protocol), portMatch p.sourcePort service.sourcePorts,
      portMatch p.destinationPort service.destinationPorts]

def servicesMatch (services : Option (List Service)) (p : Packet) : Option Bool :=
  match services with
  | none => none
  | some services => disj (services.map fun s => serviceMatch s p)

def zonesMatch (ruleType : Option RuleType) (p : Packet) : Option Bool :=
  match ruleType with
  | some .intrazone => some (p.fromZone = p.toZone)
  | some .interzone => some (p.fromZone ≠ p.toZone)
  | _ => some true

def egressMatch (interface given : Option String) : Option Bool :=
  if interface.getD "any" = "any" then some true else given.map fun value => value = interface.getD "any"

def matchPacket (m : Match) (p : Packet) : Option Bool :=
  allMatches
    [memberMatch m.fromZones (some p.fromZone), memberMatch m.toZones (some p.toZone), memberMatch m.sourceUser p.sourceUser,
      memberMatch m.application p.application, memberMatch (m.sourceDevice.getD ["any"]) p.sourceDevice,
      memberMatch (m.destinationDevice.getD ["any"]) p.destinationDevice, zonesMatch m.ruleType p,
      some (addressMatch p.source m.source), some (addressMatch p.destination m.destination),
      egressMatch m.egressInterface p.egressInterface, servicesMatch m.services p]

section test

variable {A : Type}

def Row.test (row : Row A) (p : Packet) : Option Bool :=
  match row.compiled with
  | .ok (m, _) => matchPacket m p
  | .error _ => none

/-! ### The test -/

inductive Status where
  | noMatch | matched | indeterminate
  deriving DecidableEq

def Status.text : Status → String
  | .noMatch => "no-match"
  | .matched => "matched"
  | .indeterminate => "indeterminate"

structure TraceEntry where
  name : String
  position : Option Nat
  result : String
  reason : String
  deriving DecidableEq

inductive Selected (A : Type) where
  | rule (row : Row A)
  | implicit (name scope action : String)

structure Report (A : Type) where
  status : Status
  selected : Option (Selected A)
  trace : List TraceEntry

def Row.reason (row : Row A) (p : Packet) : String :=
  match row.compiled with
  | .error reason => reason
  | .ok (m, _) =>
    if row.test p ≠ none then ""
    else if m.services = none then "Application-default requires an App-ID default-service resolver"
    else "Supply missing ports, user, device, application or egress interface"

def Row.trace (row : Row A) (p : Packet) (result : String) : TraceEntry := ⟨row.name, some row.position, result, row.reason p⟩

def testRows (p : Packet) : List (Row A) → Report A
  | [] => ⟨.noMatch, none, []⟩
  | row :: rest =>
    match row.test p with
    | none => ⟨.indeterminate, none, [row.trace p "indeterminate"]⟩
    | some true => ⟨.matched, some (.rule row), [row.trace p "match"]⟩
    | some false =>
      let report := testRows p rest
      { report with trace := row.trace p "no-match" :: report.trace }

def implicitRule (scope : String) (p : Packet) (report : Report A) : Report A :=
  let same := p.fromZone = p.toZone
  let name := if same then "intrazone-default" else "interzone-default"
  ⟨.matched, some (.implicit name scope (if same then "allow" else "deny")),
    report.trace ++ [⟨name, none, "match", "Implicit policy intent; no runtime enforcement acknowledgment"⟩]⟩

/-- `plan` is what the configuration is compiled to, and `zones` are those of the virtual system. -/
def testPolicy (plan : Except String (List (Row A))) (zones : List String) (kind : Kind) (scope : String) (d : Description) :
    Except String (Report A) := do
  let rows ← plan
  let p ← validatePacket zones (kind = .nat) d
  let report := testRows p rows
  if kind = .security ∧ report.status = .noMatch then return implicitRule scope p report
  return report

end test

/-- The same packet, with values for some of the fields that were left out. -/
structure Completes (d d' : Description) : Prop where
  source : d'.source = d.source
  destination : d'.destination = d.destination
  fromZone : d'.fromZone = d.fromZone
  toZone : d'.toZone = d.toZone
  protocol : d'.protocol = d.protocol
  sourcePort : Below d.sourcePort d'.sourcePort
  destinationPort : Below d.destinationPort d'.destinationPort
  application : Below d.application d'.application
  sourceUser : Below d.sourceUser d'.sourceUser
  sourceDevice : Below d.sourceDevice d'.sourceDevice
  destinationDevice : Below d.destinationDevice d'.destinationDevice
  egressInterface : Below d.egressInterface d'.egressInterface

structure Packet.Extends (p p' : Packet) : Prop where
  source : p'.source = p.source
  destination : p'.destination = p.destination
  fromZone : p'.fromZone = p.fromZone
  toZone : p'.toZone = p.toZone
  protocol : p'.protocol = p.protocol
  sourcePort : Below p.sourcePort p'.sourcePort
  destinationPort : Below p.destinationPort p'.destinationPort
  application : Below p.application p'.application
  sourceUser : Below p.sourceUser p'.sourceUser
  sourceDevice : Below p.sourceDevice p'.sourceDevice
  destinationDevice : Below p.destinationDevice p'.destinationDevice
  egressInterface : Below p.egressInterface p'.egressInterface

section validation

variable {zones : List String} {ipv6 : Bool} {d d' : Description} {p p' : Packet}

theorem below_of_checked {α β : Type} (check : Option α → Except String (Option β)) (absent : check none = .ok none)
    {a b : Option α} {x y : Option β} (below : Below a b) (first : check a = .ok x) (second : check b = .ok y) : Below x y := by
  cases a with
  | none =>
    rw [absent] at first
    cases first
    exact .none y
  | some v =>
    rw [below v rfl, first] at second
    cases second
    exact .refl x

theorem validatePacket_ok (valid : validatePacket zones ipv6 d = .ok p) :
    (packetAddress ipv6 "source" d.source = .ok p.source ∧ packetAddress ipv6 "destination" d.destination = .ok p.destination ∧
      packetZone zones "from_zone" d.fromZone = .ok p.fromZone ∧ packetZone zones "to_zone" d.toZone = .ok p.toZone) ∧
    packetProtocol d.protocol = .ok p.protocol ∧ packetPort p.protocol d.sourcePort = .ok p.sourcePort ∧
    packetPort p.protocol d.destinationPort = .ok p.destinationPort ∧
    packetText "application" d.application = .ok p.application ∧ packetText "source_user" d.sourceUser = .ok p.sourceUser ∧
    packetText "source_device" d.sourceDevice = .ok p.sourceDevice ∧
    packetText "destination_device" d.destinationDevice = .ok p.destinationDevice ∧
    packetText "egress_interface" d.egressInterface = .ok p.egressInterface := by
  unfold validatePacket at valid
  obtain ⟨source, sourceOk, valid⟩ := bind_ok valid
  obtain ⟨destination, destinationOk, valid⟩ := bind_ok valid
  split at valid
  · cases valid
  obtain ⟨_, fromZone, valid⟩ := bind_ok valid
  obtain ⟨_, toZone, valid⟩ := bind_ok valid
  obtain ⟨_, protocol, valid⟩ := bind_ok valid
  obtain ⟨_, sourcePort, valid⟩ := bind_ok valid
  obtain ⟨_, destinationPort, valid⟩ := bind_ok valid
  obtain ⟨_, application, valid⟩ := bind_ok valid
  obtain ⟨_, sourceUser, valid⟩ := bind_ok valid
  obtain ⟨_, sourceDevice, valid⟩ := bind_ok valid
  obtain ⟨_, destinationDevice, valid⟩ := bind_ok valid
  obtain ⟨_, egressInterface, valid⟩ := bind_ok valid
  cases valid
  exact ⟨⟨sourceOk, destinationOk, fromZone, toZone⟩, protocol, sourcePort, destinationPort, application, sourceUser,
    sourceDevice, destinationDevice, egressInterface⟩

theorem validatePacket_extends (completes : Completes d d') (valid : validatePacket zones ipv6 d = .ok p)
    (valid' : validatePacket zones ipv6 d' = .ok p') : p.Extends p' := by
  obtain ⟨⟨source, destination, fromZone, toZone⟩, protocol, sourcePort, destinationPort, application, sourceUser, sourceDevice,
    destinationDevice, egress⟩ := validatePacket_ok valid
  obtain ⟨⟨source', destination', fromZone', toZone'⟩, protocol', sourcePort', destinationPort', application', sourceUser',
    sourceDevice', destinationDevice', egress'⟩ := validatePacket_ok valid'
  rw [completes.source, source] at source'
  rw [completes.destination, destination] at destination'
  rw [completes.fromZone, fromZone] at fromZone'
  rw [completes.toZone, toZone] at toZone'
  rw [completes.protocol, protocol] at protocol'
  have same : p'.protocol = p.protocol := (Except.ok.inj protocol').symm
  rw [same] at sourcePort' destinationPort'
  exact ⟨(Except.ok.inj source').symm, (Except.ok.inj destination').symm, (Except.ok.inj fromZone').symm,
    (Except.ok.inj toZone').symm, same, below_of_checked (packetPort p.protocol) rfl completes.sourcePort sourcePort sourcePort',
    below_of_checked (packetPort p.protocol) rfl completes.destinationPort destinationPort destinationPort',
    below_of_checked (packetText "application") rfl completes.application application application',
    below_of_checked (packetText "source_user") rfl completes.sourceUser sourceUser sourceUser',
    below_of_checked (packetText "source_device") rfl completes.sourceDevice sourceDevice sourceDevice',
    below_of_checked (packetText "destination_device") rfl completes.destinationDevice destinationDevice destinationDevice',
    below_of_checked (packetText "egress_interface") rfl completes.egressInterface egress egress'⟩

end validation

/-! ### Answers stay -/

section answers

variable {A : Type} {p p' : Packet} {row : Row A} {rows : List (Row A)}

theorem portMatch_below {value value' : Option Nat} (below : Below value value') (ranges : List PortRange) :
    Below (portMatch value ranges) (portMatch value' ranges) := by
  unfold portMatch
  split
  · exact .refl _
  · exact below.map _

theorem memberMatch_below {given given' : Option String} (below : Below given given') (values : List String) :
    Below (memberMatch values given) (memberMatch values given') := by
  unfold memberMatch
  split
  · exact .refl _
  · exact below.map _

theorem egressMatch_below {given given' : Option String} (below : Below given given') (interface : Option String) :
    Below (egressMatch interface given) (egressMatch interface given') := by
  unfold egressMatch
  split
  · exact .refl _
  · exact below.map _

theorem serviceMatch_below (more : p.Extends p') (service : Service) : Below (serviceMatch service p) (serviceMatch service p') := by
  unfold serviceMatch
  split
  · exact .refl _
  · refine conj_below (.cons ?_ (.cons (portMatch_below more.sourcePort _) (.cons (portMatch_below more.destinationPort _) .nil)))
    rw [more.protocol]
    exact .refl _

theorem servicesMatch_below (more : p.Extends p') (services : Option (List Service)) :
    Below (servicesMatch services p) (servicesMatch services p') := by
  cases services with
  | none => exact .refl _
  | some services => exact disj_below (below_map fun s _ => serviceMatch_below more s)

theorem matchPacket_below (more : p.Extends p') (m : Match) : Below (matchPacket m p) (matchPacket m p') := by
  have zones : zonesMatch m.ruleType p' = zonesMatch m.ruleType p := by
    unfold zonesMatch
    rw [more.fromZone, more.toZone]
  unfold matchPacket
  rw [more.fromZone, more.toZone, more.source, more.destination, zones]
  exact conj_below (.cons (.refl _) (.cons (.refl _) (.cons (memberMatch_below more.sourceUser _)
    (.cons (memberMatch_below more.application _) (.cons (memberMatch_below more.sourceDevice _)
      (.cons (memberMatch_below more.destinationDevice _) (.cons (.refl _) (.cons (.refl _) (.cons (.refl _)
        (.cons (egressMatch_below more.egressInterface _) (.cons (servicesMatch_below more _) .nil)))))))))))

theorem Row.test_below (more : p.Extends p') (row : Row A) : Below (row.test p) (row.test p') := by
  unfold Row.test
  split
  · exact matchPacket_below more _
  · exact .refl _

theorem Row.trace_known (more : p.Extends p') {b : Bool} (known : row.test p = some b) (result : String) :
    row.trace p' result = row.trace p result := by
  have known' := row.test_below more b known
  have reason : row.reason p' = row.reason p := by
    unfold Row.reason
    split
    · rfl
    · rw [if_pos (by rw [known']; simp), if_pos (by rw [known]; simp)]
  rw [Row.trace, Row.trace, reason]

theorem testRows_known (more : p.Extends p') (decided : (testRows p rows).status ≠ .indeterminate) :
    testRows p' rows = testRows p rows := by
  induction rows with
  | nil => rfl
  | cons row rest ih =>
    cases here : row.test p with
    | none =>
      rw [testRows, here] at decided
      exact absurd rfl decided
    | some b =>
      have here' := row.test_below more b here
      cases b with
      | true =>
        rw [testRows, here', testRows, here]
        dsimp only
        rw [row.trace_known more here]
      | false =>
        rw [testRows, here] at decided
        rw [testRows, here', testRows, here]
        dsimp only
        rw [ih decided, row.trace_known more here]

theorem testRows_indeterminate (stopped : (testRows p rows).status = .indeterminate) :
    ∃ before row after, rows = before ++ row :: after ∧ row.test p = none ∧ ∀ r ∈ before, r.test p = some false := by
  induction rows with
  | nil => cases stopped
  | cons row rest ih =>
    cases here : row.test p with
    | none => exact ⟨[], row, rest, rfl, here, by simp⟩
    | some b =>
      rw [testRows, here] at stopped
      cases b with
      | true => cases stopped
      | false =>
        obtain ⟨before, found, after, rfl, unknown, missed⟩ := ih stopped
        refine ⟨row :: before, found, after, rfl, unknown, fun r member => ?_⟩
        rcases List.mem_cons.mp member with rfl | later
        · exact here
        · exact missed r later

end answers

/-- A test that reports a rule or none reports the same of every valid completion of the
packet, and one that is not decided has come to no rule that matches. -/
theorem testPolicy_never_guesses {A : Type} {plan : Except String (List (Row A))} {zones : List String} {kind : Kind}
    {scope : String} {d : Description} {report : Report A} (tested : testPolicy plan zones kind scope d = .ok report) :
    (report.status ≠ .indeterminate →
      ∀ d' p', Completes d d' → validatePacket zones (kind = .nat) d' = .ok p' → testPolicy plan zones kind scope d' = .ok report) ∧
    (report.status = .indeterminate →
      ∃ rows p before row after, plan = .ok rows ∧ validatePacket zones (kind = .nat) d = .ok p ∧
        rows = before ++ row :: after ∧ row.test p = none ∧ ∀ r ∈ before, r.test p = some false) := by
  unfold testPolicy at tested ⊢
  obtain ⟨rows, planned, tested⟩ := bind_ok tested
  obtain ⟨p, valid, tested⟩ := bind_ok tested
  dsimp only at tested
  by_cases implicit : kind = .security ∧ (testRows p rows).status = .noMatch
  · rw [if_pos implicit] at tested
    cases tested
    refine ⟨fun _ d' p' completes valid' => ?_, nofun⟩
    have more := validatePacket_extends completes valid valid'
    have known : testRows p' rows = testRows p rows := testRows_known more (by rw [implicit.2]; decide)
    rw [planned, valid']
    show (if kind = .security ∧ (testRows p' rows).status = .noMatch then _ else _) = _
    rw [known, if_pos implicit]
    unfold implicitRule
    rw [more.fromZone, more.toZone]
    rfl
  · rw [if_neg implicit] at tested
    cases tested
    refine ⟨fun decided d' p' completes valid' => ?_, fun stopped => ?_⟩
    · have known := testRows_known (validatePacket_extends completes valid valid') decided
      rw [planned, valid']
      show (if kind = .security ∧ (testRows p' rows).status = .noMatch then _ else _) = _
      rw [known, if_neg implicit]
      rfl
    · obtain ⟨before, row, after, split, unknown, missed⟩ := testRows_indeterminate stopped
      exact ⟨rows, p, before, row, after, planned, valid, split, unknown, missed⟩

def sampleRows : List (Row Unit) :=
  [⟨"web", "vsys1", 1, .ok (⟨["dmz"], ["any"], [.v4 (.net 0 0)], [.v4 (.net 0 0)], some [⟨.tcp, [], [⟨443, none⟩]⟩], ["any"], ["any"],
      some .universal, some ["any"], some ["any"], none⟩, ())⟩,
    ⟨"mail", "vsys1", 2, .ok (⟨["trust"], ["any"], [.v4 (.net 0 0)], [.v4 (.net 0 0)], some [⟨.any, [], []⟩], ["any"], ["any"],
      some .universal, some ["any"], some ["any"], none⟩, ())⟩]

/-- A packet without ports, from a zone that the first rule does not have. -/
def sampleDescription : Description where
  source := some "192.0.2.1"
  destination := some "198.51.100.7"
  fromZone := some "trust"
  toZone := some "dmz"
  protocol := some "tcp"

theorem sampleRows_decide : ∃ report, testPolicy (.ok sampleRows) ["trust", "dmz"] .security "vsys1" sampleDescription = .ok report ∧
    report.status = .matched ∧ testPolicy (.ok sampleRows) ["trust", "dmz"] .security "vsys1"
      { sampleDescription with sourcePort := some 50000, destinationPort := some 25 } = .ok report := by
  have tested : testPolicy (.ok sampleRows) ["trust", "dmz"] .security "vsys1" sampleDescription =
      .ok (testRows ⟨.v4 0xC0000201, .v4 0xC6336407, "trust", "dmz", .tcp, none, none, none, none, none, none, none⟩ sampleRows) := rfl
  have valid : validatePacket ["trust", "dmz"] (Kind.security = .nat)
      { sampleDescription with sourcePort := some 50000, destinationPort := some 25 } =
        .ok ⟨.v4 0xC0000201, .v4 0xC6336407, "trust", "dmz", .tcp, some 50000, some 25, none, none, none, none, none⟩ := rfl
  have completes : Completes sampleDescription { sampleDescription with sourcePort := some 50000, destinationPort := some 25 } :=
    ⟨rfl, rfl, rfl, rfl, rfl, .none _, .none _, .refl _, .refl _, .refl _, .refl _, .refl _⟩
  exact ⟨_, tested, by decide +kernel, (testPolicy_never_guesses tested).1 (by decide +kernel) _ _ completes valid⟩

section security

variable {m : Policy.Match} {p : Policy.TestPacket}

def securityMatch (m : Policy.Match) : Match where
  fromZones := m.fromZones
  toZones := m.toZones
  source := m.source.map .v4
  destination := m.destination.map .v4
  services := m.services
  sourceUser := m.sourceUser
  application := m.application
  ruleType := some m.ruleType
  sourceDevice := some m.sourceDevice
  destinationDevice := some m.destinationDevice

def securityRow (row : Policy.Row) : Row Policy.Action :=
  ⟨row.name, row.scope, row.position, row.compiled.map fun (m, action) => (securityMatch m, action)⟩

def securityPacket (p : Policy.TestPacket) : Packet :=
  ⟨.v4 p.source, .v4 p.destination, p.fromZone, p.toZone, p.protocol, p.sourcePort, p.destinationPort, p.application,
    p.sourceUser, p.sourceDevice, p.destinationDevice, none⟩

theorem addressMatch_v4 (a : UInt32) (blocks : List Block) :
    addressMatch (.v4 a) (blocks.map .v4) = Policy.addressMatch a blocks := by
  rw [addressMatch, Policy.addressMatch, List.any_map]
  rfl

theorem matchPacket_security : matchPacket (securityMatch m) (securityPacket p) = Policy.matchPacket m p := by
  have source := addressMatch_v4 p.source m.source
  have destination := addressMatch_v4 p.destination m.destination
  have services : servicesMatch m.services (securityPacket p) = Policy.servicesMatch m.services p := by
    cases m.services <;> rfl
  unfold matchPacket Policy.matchPacket
  refine conj_congr ?_ ?_ <;>
    simp only [securityMatch, securityPacket, source, destination] <;>
    cases m.ruleType <;> simp [zonesMatch, egressMatch, memberMatch, Policy.memberMatch, ← services, securityPacket]

theorem testRows_security (rows : List Policy.Row) :
    Policy.selectRow rows p =
      match (testRows (securityPacket p) (rows.map securityRow)).status with
      | .indeterminate => none
      | .noMatch => some (if p.fromZone = p.toZone then .intrazoneDefault else .interzoneDefault)
      | .matched => (rows.find? fun row => (securityRow row).test (securityPacket p) = some true).map .rule := by
  induction rows with
  | nil => rfl
  | cons row rest ih =>
    rw [Policy.selectRow, List.map_cons, testRows]
    cases compiled : row.compiled with
    | error reason =>
      have unknown : (securityRow row).test (securityPacket p) = none := by rw [Row.test, securityRow, compiled]; rfl
      rw [unknown]
    | ok ma =>
      obtain ⟨m, action⟩ := ma
      have test : (securityRow row).test (securityPacket p) = Policy.matchPacket m p := by
        rw [Row.test, securityRow, compiled]
        exact matchPacket_security
      rw [test, List.find?_cons, test]
      dsimp only
      cases answer : Policy.matchPacket m p with
      | none => rfl
      | some b =>
        cases b with
        | true => rfl
        | false => simpa using ih

end security

end FfnNgfw.PacketTest
