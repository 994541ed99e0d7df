import FfnNgfw.Policy.Objects

/-!
# Policy plans

Security rules compiled to what they match and do, and the first-match test that the
administrator sees. A predicate the test cannot decide stops it; it never passes such a
rule by.
-/

namespace FfnNgfw.Policy

/-! ### Checking a rule -/

def isSpace (c : Char) : Bool :=
  c.isWhitespace || c.toNat ∈ [0x0b, 0x0c, 0x1c, 0x1d, 0x1e, 0x1f, 0x85, 0xa0, 0x1680, 0x2028, 0x2029, 0x202f, 0x205f, 0x3000] ||
    (0x2000 ≤ c.toNat && c.toNat ≤ 0x200a)

def textOk (value : String) : Bool :=
  value.toList.all fun c =>
    c ∈ ['\n', '\r', '\t'] || (32 ≤ c.toNat && c.toNat ≤ 0xd7ff) || (0xe000 ≤ c.toNat && c.toNat ≤ 0xfffd) || 0x10000 ≤ c.toNat

def nameChar (c : Char) : Bool := c.isAlphanum || c = '_'

def nameOk (name : String) : Bool :=
  match name.toList with
  | [] => false
  | c :: rest =>
    nameChar c && rest.length ≤ 62 && rest.all (fun c => nameChar c || c = ' ' || c = '.' || c = '-') && rest.getLast? ≠ some ' '

/-- A field of the schema: its label, whether `any` is its default, and the inventory it
refers to. -/
structure Field where
  label : String
  any : Bool
  ref : Option String

def inventory (root : Config) (owner : Vsys) (ref : String) : List String :=
  let both (f : Objects → List String) := f root.shared ++ f owner.objects
  let named (path : String) := both fun o => (o.named.filter fun e => e.1 = path).map Prod.snd
  match ref with
  | "zone" => owner.zones.map Zone.name
  | "address" => both (fun o => o.address.map Prod.fst ++ o.addressGroup.map Prod.fst) ++ named "region" ++ named "external-list"
  | "application" => both (fun o => o.application ++ o.applicationGroup.map Prod.fst) ++ named "application-filter"
  | "service" => both fun o => o.service.map Prod.fst ++ o.serviceGroup.map Prod.fst
  | path => named path

/-- An IPv6 literal is refused here already; the source leaves that to `addresses`. -/
def checkReference (root : Config) (owner : Vsys) (f : Field) (value : String) : Except String Unit :=
  match f.ref with
  | none => return
  | some ref =>
    if value = "" ∨ (value = "any" ∧ f.any) ∨ (value = "application-default" ∧ f.label = "Service") ∨
        (ref = "address" ∧ (ipNetwork value.toList).isSome) ∨ value ∈ inventory root owner ref then return
    else throw (f.label ++ ": unknown reference " ++ value)

def checkText (root : Config) (owner : Vsys) (f : Field) (value : String) : Except String Unit := do
  if !textOk value ∨ 1024 < value.length then throw ("Invalid " ++ f.label)
  checkReference root owner f value

def checkList (root : Config) (owner : Vsys) (f : Field) (values : List String) : Except String Unit := do
  if 256 < values.length ∨ ¬values.Nodup then throw (f.label ++ ": expected unique list values")
  if values.any fun v => !textOk v || 1024 < v.length || v.toList.all isSpace then throw ("Invalid " ++ f.label)
  if f.any ∧ values = [] then throw (f.label ++ " must include a value or any")
  if "any" ∈ values ∧ values.length ≠ 1 then throw "Any cannot be combined with other matches"
  if "application-default" ∈ values ∧ values.length ≠ 1 then throw "Application-default cannot be combined with other services"
  values.forM (checkReference root owner f)

def profileLabels : List (String × String) :=
  [("virus", "Antivirus Profile"), ("vulnerability", "Vulnerability Protection Profile"), ("spyware", "Anti-Spyware"),
    ("url-filtering", "URL Filtering"), ("file-blocking", "File Blocking"), ("data-filtering", "Data Filtering"),
    ("crucible-analysis", "Crucible Analysis")]

/-- `describe` sets the mode from the group and the profiles that the entry names. -/
def RuleEntry.profileMode (e : RuleEntry) : ProfileMode :=
  if e.profileGroup ≠ "" then .group
  else if e.profiles.any (fun p => p.2 ≠ "") then .profiles
  else .none

def validate (root : Config) (owner : Vsys) (e : RuleEntry) : Except String Unit := do
  if !nameOk e.name then throw "Invalid rule name (1–63 characters)"
  if !textOk e.description ∨ 1024 < e.description.length then throw "Invalid description"
  checkList root owner ⟨"Tags", false, some "tag"⟩ e.tag
  checkList root owner ⟨"Source Zone", true, some "zone"⟩ e.fromZones
  checkList root owner ⟨"Source Address", true, some "address"⟩ e.source
  checkList root owner ⟨"Destination Zone", true, some "zone"⟩ e.toZones
  checkList root owner ⟨"Destination Address", true, some "address"⟩ e.destination
  checkList root owner ⟨"Source User", true, none⟩ e.sourceUser
  checkList root owner ⟨"Application", true, some "application"⟩ e.application
  checkList root owner ⟨"Service", true, some "service"⟩ e.service
  checkList root owner ⟨"Source Device", true, some "device"⟩ e.sourceDevice
  checkList root owner ⟨"Destination Device", true, some "device"⟩ e.destinationDevice
  checkText root owner ⟨"Security Profile Group", false, some "profile-group"⟩ e.profileGroup
  profileLabels.forM fun p => checkText root owner ⟨p.2, false, some ("profiles/" ++ p.1)⟩ ((e.profiles.lookup p.1).getD "")
  checkText root owner ⟨"Log Forwarding Profile", false, some "log-settings/profiles"⟩ e.logSetting
  if e.profileMode = .group ∧ e.profiles.any (fun p => p.2 ≠ "") then
    throw "Select one profile group without individual profiles"
  if e.icmpUnreachable ∧ e.action = .allow then throw "ICMP Unreachable requires a blocking action"
  if e.ruleType = .intrazone ∧ e.toZones ≠ ["any"] then
    throw "Intrazone rules use the source zone as destination; set Destination Zone to any"

/-! ### Compiling -/

structure Match where
  fromZones : List String
  toZones : List String
  source : List Block
  destination : List Block
  /-- `none` is application-default, which is not the same as any service -/
  services : Option (List Service)
  sourceUser : List String
  application : List String
  ruleType : RuleType
  sourceDevice : List String
  destinationDevice : List String
  deriving DecidableEq

structure Logging where
  start : Bool
  «end» : Bool
  forwardingProfile : Option String
  deriving DecidableEq

structure Action where
  type : ActionType
  icmpUnreachable : Bool
  profileMode : ProfileMode
  logging : Logging
  deriving DecidableEq

/-- The two implicit rules cannot be edited, nor can a rule with XML of its own. -/
def RuleEntry.editable (e : RuleEntry) : Bool :=
  e.known && e.name.toLower ∉ ["intrazone-default", "interzone-default"]

def compileEntry (root : Config) (owner : Vsys) (e : RuleEntry) : Except String (Match × Action) := do
  if !e.editable then throw "Imported rule contains unsupported XML fields"
  validate root owner e
  let services ← if e.service = ["application-default"] then pure none else (services root owner e.service).map some
  let source ← addresses root owner e.source
  let destination ← addresses root owner e.destination
  let application ← applications root owner e.application
  return (⟨e.fromZones, e.toZones, source, destination, services, e.sourceUser, application, e.ruleType, e.sourceDevice,
      e.destinationDevice⟩,
    ⟨e.action, e.icmpUnreachable, e.profileMode, ⟨e.logStart, e.logEnd, if e.logSetting = "" then none else some e.logSetting⟩⟩)

/-- A rule of a plan; what cannot be compiled stays in its place with the reason. -/
structure Row where
  name : String
  scope : String
  position : Nat
  compiled : Except String (Match × Action)

/-- The rows of the entries from `position` on. `names` are those of the enabled ones before. -/
def compileRows (root : Config) (owner : Vsys) : Nat → List String → List RuleEntry → List Row
  | _, _, [] => []
  | position, names, e :: rest =>
    if e.disabled then compileRows root owner (position + 1) names rest
    else
      let compiled := if e.name ∈ names then .error "Duplicate rule identity" else compileEntry root owner e
      ⟨e.name, owner.name, position, compiled⟩ :: compileRows root owner (position + 1) (e.name :: names) rest

def compilePolicy (root : Config) (owner : Vsys) : Except String (List Row) :=
  if 1024 < owner.security.length then .error "Policy planning supports at most 1024 rules per rulebase"
  else .ok (compileRows root owner 1 [] owner.security)

def blockers (rows : List Row) : List String :=
  rows.filterMap fun row =>
    match row.compiled with
    | .error reason => some reason
    | .ok _ => none

/-! ### The packet test -/

inductive PacketProtocol where
  | tcp | udp | icmp | other
  deriving DecidableEq

structure TestPacket where
  source : UInt32
  destination : UInt32
  fromZone : String
  toZone : String
  protocol : PacketProtocol
  sourcePort : Option Nat := none
  destinationPort : Option Nat := none
  application : Option String := none
  sourceUser : Option String := none
  sourceDevice : Option String := none
  destinationDevice : Option String := none
  deriving DecidableEq

def packetPortOk (protocol : PacketProtocol) (port : Option Nat) : Bool :=
  port.all fun n => 1 ≤ n && n ≤ 65535 && (protocol = .tcp || protocol = .udp)

def packetTextOk (text : Option String) : Bool := text.all fun t => 1 ≤ t.length && t.length ≤ 1024

def validatePacket (owner : Vsys) (p : TestPacket) : Except String TestPacket :=
  if p.fromZone ∉ owner.zones.map Zone.name then .error "Select a configured from_zone"
  else if p.toZone ∉ owner.zones.map Zone.name then .error "Select a configured to_zone"
  else if !packetPortOk p.protocol p.sourcePort then .error "Packet ports require TCP/UDP and values 1–65535"
  else if !packetPortOk p.protocol p.destinationPort then .error "Packet ports require TCP/UDP and values 1–65535"
  else if !packetTextOk p.application then .error "Invalid packet application"
  else if !packetTextOk p.sourceUser then .error "Invalid packet source_user"
  else if !packetTextOk p.sourceDevice then .error "Invalid packet source_device"
  else if !packetTextOk p.destinationDevice then .error "Invalid packet destination_device"
  else .ok p

def addressMatch (value : UInt32) (addresses : List Block) : Bool := addresses.any fun item => item.contains value

/-- `none` where the packet does not say. -/
def portMatch (value : Option Nat) (ranges : List PortRange) : Option Bool :=
  if ranges = [] then some true else value.map fun port => ranges.any fun r => r.contains port

def allMatches (values : List (Option Bool)) : Option Bool :=
  if some false ∈ values then some false else if none ∈ values then none else some true

def memberMatch (values : List String) (given : Option String) : Option Bool :=
  if values = ["any"] then some true else given.map fun value => value ∈ values

def Protocol.isPacket : Protocol → PacketProtocol → Bool
  | .tcp, .tcp => true
  | .udp, .udp => true
  | _, _ => false

def serviceMatch (service : Service) (p : TestPacket) : Option Bool :=
  if service.protocol = .any then some true
  else
    allMatches [some (service.protocol.isPacket p.protocol), portMatch p.sourcePort service.sourcePorts,
      portMatch p.destinationPort service.destinationPorts]

def servicesMatch (services : Option (List Service)) (p : TestPacket) : Option Bool :=
  match services with
  | none => none
  | some services =>
    let results := services.map fun s => serviceMatch s p
    if some true ∈ results then some true else if none ∈ results then none else some false

def matchPacket (m : Match) (p : TestPacket) : Option Bool :=
  allMatches
    ([memberMatch m.fromZones (some p.fromZone), memberMatch m.toZones (some p.toZone), memberMatch m.sourceUser p.sourceUser,
      memberMatch m.application p.application, memberMatch m.sourceDevice p.sourceDevice,
      memberMatch m.destinationDevice p.destinationDevice] ++
    (match m.ruleType with
      | .universal => []
      | .intrazone => [some (p.fromZone = p.toZone)]
      | .interzone => [some (p.fromZone ≠ p.toZone)]) ++
    [some (addressMatch p.source m.source), some (addressMatch p.destination m.destination), servicesMatch m.services p])

inductive Selected where
  | rule (row : Row)
  | intrazoneDefault
  | interzoneDefault

def Selected.name : Selected → String
  | .rule row => row.name
  | .intrazoneDefault => "intrazone-default"
  | .interzoneDefault => "interzone-default"

/-- `none` where a rule could not be decided. -/
def selectRow (rows : List Row) (p : TestPacket) : Option Selected :=
  match rows with
  | [] => some (if p.fromZone = p.toZone then .intrazoneDefault else .interzoneDefault)
  | row :: rest =>
    match row.compiled with
    | .error _ => none
    | .ok (m, _) =>
      match matchPacket m p with
      | none => none
      | some true => some (.rule row)
      | some false => selectRow rest p

def testPolicy (root : Config) (scope : String) (packet : TestPacket) : Except String (Option Selected) := do
  match (owners root).find? fun owner => owner.name = scope with
  | none => throw "Virtual system not found"
  | some owner =>
    let rows ← compilePolicy root owner
    let packet ← validatePacket owner packet
    return selectRow rows packet

end FfnNgfw.Policy
