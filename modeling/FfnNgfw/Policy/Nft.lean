import FfnNgfw.Policy.Plan

/-!
# Security rules as an nftables table

`render` expands the rules of all virtual systems into one forward chain: a line for each
pair of zones, each direction and each service of a rule, then a line for each zone, then
a drop. Lines are kept as data; `text` gives them as they are handed to nft.
-/

namespace FfnNgfw.Policy

/-! ### Packets and chains -/

inductive Direction where
  | original | reply
  deriving DecidableEq

inductive CtState where
  | new | established | related | invalid | untracked
  deriving DecidableEq

structure Conn where
  saddr : UInt32
  daddr : UInt32
  protocol : PacketProtocol
  sport : Nat
  dport : Nat
  deriving DecidableEq

/-- A packet with the connection that it belongs to, or that it reports an error about. -/
structure Packet where
  ipv4 : Bool
  state : CtState
  direction : Direction
  label : Nat
  iif : Nat
  oif : Nat
  saddr : UInt32
  l4proto : PacketProtocol
  conn : Conn
  deriving DecidableEq

inductive Guard where
  | notIpv4 | invalid | replyNotEstablished | replyNotGranted
  deriving DecidableEq

/-- A label number names a bit: `ct label & 0 != 0` says that bit 0 is not set. -/
def Guard.stops (p : Packet) : Guard → Bool
  | .notIpv4 => !p.ipv4
  | .invalid => p.state = .invalid
  | .replyNotEstablished => p.direction = .reply && p.state ≠ .established
  | .replyNotGranted => p.direction = .reply && !p.label.testBit 0

def guards : List Guard := [.notIpv4, .invalid, .replyNotEstablished, .replyNotGranted]

/-- The conditions of a line; those that are left out hold of every packet. -/
structure Cond where
  direction : Option Direction := none
  iif : List Nat
  oif : List Nat
  addresses : Option (List Block × List Block) := none
  l4proto : Protocol := .any
  sports : List PortRange := []
  dports : List PortRange := []
  deriving DecidableEq

def portIn (port : Nat) (ranges : List PortRange) : Bool := ranges = [] || ranges.any fun r => r.contains port

def Cond.holds (c : Cond) (p : Packet) : Bool :=
  c.direction.all (· = p.direction) && p.iif ∈ c.iif && p.oif ∈ c.oif &&
    c.addresses.all (fun a => addressMatch p.conn.saddr a.1 && addressMatch p.conn.daddr a.2) &&
    (c.l4proto = .any || c.l4proto.isPacket p.l4proto) && portIn p.conn.sport c.sports && portIn p.conn.dport c.dports

inductive Target where
  | rule (i : Nat) | implicitAllow | grant
  deriving DecidableEq

inductive Line where
  | clearMark
  | guard (g : Guard)
  | hostOriginal (index : Nat) (address : UInt32)
  | hostReply (index : Nat) (address : UInt32)
  | jump (c : Cond) (target : Target)
  | counterDrop
  deriving DecidableEq

inductive Verdict where
  | drop
  | goto (target : Target)
  deriving DecidableEq

/-- What the line does with the packet; `none` passes it on. -/
def Line.verdict (p : Packet) : Line → Option Verdict
  | .clearMark => none
  | .guard g => if g.stops p then some .drop else none
  | .hostOriginal index address =>
    if p.direction = .original ∧ p.iif = index ∧ p.saddr = address then some (.goto .grant) else none
  | .hostReply index address =>
    if p.direction = .reply ∧ p.oif = index ∧ p.conn.saddr = address then some (.goto .grant) else none
  | .jump c target => if c.holds p then some (.goto target) else none
  | .counterDrop => some .drop

/-- The first line with a verdict gives it; the policy of the chain is drop. -/
def runChain (lines : List Line) (p : Packet) : Verdict := (lines.findSome? fun l => l.verdict p).getD .drop

def elements (values : List String) : String := "\x7b " ++ ", ".intercalate values ++ " \x7d"

def hex4 (n : Nat) : String :=
  String.ofList ((List.range 4).map fun i => Nat.digitChar ((n >>> (4 * (3 - i))) % 16))

def jsonChar (c : Char) : String :=
  if c = '"' then "\\\""
  else if c = '\\' then "\\\\"
  else if c = '\n' then "\\n"
  else if c = '\r' then "\\r"
  else if c = '\t' then "\\t"
  else if c.toNat = 8 then "\\b"
  else if c.toNat = 12 then "\\f"
  else if 32 ≤ c.toNat ∧ c.toNat ≤ 126 then c.toString
  else if c.toNat < 0x10000 then "\\u" ++ hex4 c.toNat
  else "\\u" ++ hex4 (0xd800 + (c.toNat - 0x10000) / 1024) ++ "\\u" ++ hex4 (0xdc00 + (c.toNat - 0x10000) % 1024)

def jsonText (s : String) : String := "\"" ++ String.join (s.toList.map jsonChar) ++ "\""

def Guard.text : Guard → String
  | .notIpv4 => "  meta nfproto != ipv4 drop"
  | .invalid => "  ct state invalid drop"
  | .replyNotEstablished => "  ct direction reply ct state != established drop"
  | .replyNotGranted => "  ct direction reply ct label & 0 != 0 drop"

def Target.text : Target → String
  | .rule i => "r" ++ toString i
  | .implicitAllow => "implicit_allow"
  | .grant => "grant"

def Cond.text (c : Cond) : String :=
  (match c.direction with
    | none => ""
    | some .original => "ct direction original "
    | some .reply => "ct direction reply ") ++
  "iif " ++ elements (c.iif.map toString) ++ " oif " ++ elements (c.oif.map toString) ++
  (match c.addresses with
    | none => ""
    | some a => " ct original ip saddr " ++ elements (a.1.map Block.text) ++ " ct original ip daddr " ++
    elements (a.2.map Block.text)) ++
  (if c.l4proto = .any then "" else " meta l4proto " ++ c.l4proto.text) ++
  (if c.sports = [] then "" else " ct original proto-src " ++ elements (c.sports.map PortRange.text)) ++
  (if c.dports = [] then "" else " ct original proto-dst " ++ elements (c.dports.map PortRange.text))

def Line.text : Line → String
  | .clearMark => "  meta mark set meta mark & 0x7fffffff"
  | .guard g => g.text
  | .hostOriginal index address => "  ct direction original iif " ++ toString index ++ " ip saddr " ++ dotted address ++ " goto grant"
  | .hostReply index address => "  ct direction reply oif " ++ toString index ++ " ct original ip saddr " ++
      dotted address ++ " goto grant"
  | .jump c target => "  " ++ c.text ++ " goto " ++ target.text
  | .counterDrop => "  counter drop"

/-! ### Rendering -/

structure ZoneRow where
  scope : String
  name : String
  indices : List Nat
  deriving DecidableEq

structure RuleRow where
  scope : String
  name : String
  position : Nat
  «match» : Match
  action : Action
  /-- the interfaces of each pair of zones that the rule is about -/
  pairs : List (List Nat × List Nat)
  deriving DecidableEq

structure HostLink where
  index : Nat
  address : UInt32
  deriving DecidableEq

/-- The kernel index of a logical interface; none where it has no whole number for one. -/
abbrev Bindings := String → Option Nat

abbrev Tokens := String × String → Option Nat

structure Gathered where
  zoneNames : List (String × String) := []
  seen : List Nat := []
  zones : List ZoneRow := []
  rules : List RuleRow := []
  deriving DecidableEq

def indexOk (index : Nat) : Bool := 1 ≤ index && index ≤ 0x7fffffff

def bindInterface (bindings : Bindings) (acc : List Nat × List Nat) (interface : String) : Except String (List Nat × List Nat) :=
  match bindings interface with
  | none => .error ("Uncommissioned Security interface: " ++ interface)
  | some index =>
    if !indexOk index then .error ("Uncommissioned Security interface: " ++ interface)
    else if index ∈ acc.1 then .error "An interface belongs to multiple zones or virtual systems"
    else .ok (index :: acc.1, acc.2 ++ [index])

def addZone (root : Config) (bindings : Bindings) (owner : Vsys) (acc : Gathered) (zone : Zone) : Except String Gathered :=
  if (owner.name, zone.name) ∈ acc.zoneNames then .error "Duplicate zone identity"
  else
    let acc := { acc with zoneNames := (owner.name, zone.name) :: acc.zoneNames }
    -- a zone without interfaces has no packets, and must not block what does not use it
    if zone.layer3 = [] then .ok acc
    else do
      let names ← interfaces root owner [zone.name]
      let bound ← names.foldlM (bindInterface bindings) (acc.seen, [])
      return { acc with seen := bound.1, zones := acc.zones ++ [⟨owner.name, zone.name, bound.2.insertionSort (· ≤ ·)⟩] }

def checkRow (tokens : Option Tokens) (name : String) (m : Match) (action : Action) : Except String Unit :=
  match [("application", m.application), ("source-user", m.sourceUser), ("source-device", m.sourceDevice),
    ("destination-device", m.destinationDevice)].find? fun f => f.2 ≠ ["any"] with
  | some f => .error (name ++ ": " ++ f.1 ++ " requires an identity/inspection provider")
  | none =>
    if m.services = none then .error (name ++ ": application-default requires App-ID service resolution")
    else if action.profileMode ≠ .none then .error (name ++ ": requested inspection profiles require a commissioned engine")
    else if (action.type ≠ .allow ∧ action.type ≠ .drop) ∨ action.icmpUnreachable then
      .error (name ++ ": reject/reset action requires a commissioned response provider")
    else if action.logging.forwardingProfile.isSome then
      .error (name ++ ": log forwarding requires a commissioned forwarding provider")
    else if (action.logging.start ∨ action.logging.end) ∧ (tokens.isNone ∨ action.type ≠ .allow) then
      .error (name ++ ": session logging requires a commissioned conntrack event collector")
    else .ok ()

def zoneIn (zones : List String) (name : String) : Bool := zones = ["any"] || name ∈ zones

def typeAllows (t : RuleType) (source destination : String) : Bool :=
  !(t = .intrazone && source ≠ destination) && !(t = .interzone && source = destination)

def pairsFor (scope : String) (m : Match) (zones : List ZoneRow) : List (List Nat × List Nat) :=
  (zones.filter fun z => z.scope = scope && zoneIn m.fromZones z.name).flatMap fun source =>
    (zones.filter fun z => z.scope = scope && zoneIn m.toZones z.name && typeAllows m.ruleType source.name z.name).map
      fun destination => (source.indices, destination.indices)

def addRow (tokens : Option Tokens) (acc : Gathered) (row : Row) : Except String Gathered :=
  match row.compiled with
  | .error reason => .error reason
  | .ok (m, action) => do
    checkRow tokens row.name m action
    let pairs := pairsFor row.scope m acc.zones
    if pairs = [] then throw (row.name ++ ": no applicable routed zone pair")
    else return { acc with rules := acc.rules ++ [⟨row.scope, row.name, row.position, m, action, pairs⟩] }

def gatherOwner (root : Config) (bindings : Bindings) (tokens : Option Tokens) (acc : Gathered) (owner : Vsys) :
    Except String Gathered := do
  let acc ← owner.zones.foldlM (addZone root bindings owner) acc
  let rows ← compilePolicy root owner
  if blockers rows ≠ [] then throw ("; ".intercalate (blockers rows))
  else rows.foldlM (addRow tokens) acc

def gather (root : Config) (bindings : Bindings) (tokens : Option Tokens) : Except String Gathered :=
  (owners root).foldlM (gatherOwner root bindings tokens) {}

def directions (pair : List Nat × List Nat) : List (Direction × List Nat × List Nat) :=
  [(.original, pair.1, pair.2), (.reply, pair.2, pair.1)]

def ruleCond (m : Match) (service : Service) (d : Direction × List Nat × List Nat) : Cond where
  direction := some d.1
  iif := d.2.1
  oif := d.2.2
  addresses := some (m.source, m.destination)
  l4proto := service.protocol
  sports := if service.protocol = .any then [] else service.sourcePorts
  dports := if service.protocol = .any then [] else service.destinationPorts

def ruleLines (i : Nat) (rule : RuleRow) : List Line :=
  rule.pairs.flatMap fun pair => (directions pair).flatMap fun d =>
    (rule.match.services.getD []).map fun service => .jump (ruleCond rule.match service d) (.rule i)

def rulesLines : Nat → List RuleRow → List Line
  | _, [] => []
  | i, rule :: rest => ruleLines i rule ++ rulesLines (i + 1) rest

def zoneLine (zone : ZoneRow) : Line := .jump { iif := zone.indices, oif := zone.indices } .implicitAllow

def hostLines (hosts : List HostLink) : List Line :=
  hosts.flatMap fun h => [.hostOriginal h.index h.address, .hostReply h.index h.address]

def forwardLines (g : Gathered) (hosts : List HostLink) : List Line :=
  .clearMark :: guards.map .guard ++ hostLines hosts ++ rulesLines 0 g.rules ++ g.zones.map zoneLine ++ [.counterDrop]

/-- The bits of a token, from bit 1 of the label on, behind the grant bit. -/
def labelBits (token : Nat) : List Nat := 0 :: ((List.range 30).filter fun i => token.testBit i).map (· + 1)

def label (tokens : Option Tokens) (identity : String × String) : Except String (Option (List Nat)) :=
  match tokens with
  | none => .ok none
  | some tokens =>
    match tokens identity with
    | none => .error "Missing or invalid durable Security session token"
    | some token =>
      if 1 ≤ token ∧ token < 0x40000000 then .ok (some (labelBits token))
      else .error "Missing or invalid durable Security session token"

def labelText : Option (List Nat) → String
  | none => ""
  | some bits => "ct direction original ct label & 0 != 0 ct label set " ++ " | ".intercalate (bits.map toString) ++ "; "

def ruleChain (tokens : Option Tokens) (i : Nat) (rule : RuleRow) : Except String String := do
  let decision ← if rule.action.type = .allow then (label tokens (rule.scope, rule.name)).map fun l => labelText l ++ "goto grant"
    else pure "drop"
  return " chain r" ++ toString i ++ " \x7b counter comment " ++ jsonText (rule.scope ++ "/" ++ rule.name) ++
    "; " ++ decision ++ "; \x7d"

def ruleChains (tokens : Option Tokens) : Nat → List RuleRow → Except String (List String)
  | _, [] => .ok []
  | i, rule :: rest => do
    let chain ← ruleChain tokens i rule
    let chains ← ruleChains tokens (i + 1) rest
    return chain :: chains

structure Rendered where
  script : String
  digest : String
  rules : List RuleRow
  zones : List ZoneRow
  forward : List Line
  deriving DecidableEq

def scriptLines (digest : String) (forward : List Line) (chains : List String) (implicitLabel : Option (List Nat)) : List String :=
  ["table inet ffn_security \x7b", " comment \"ffn-security:" ++ digest ++ "\"",
    " chain forward \x7b type filter hook forward priority -260; policy drop;"] ++
  forward.map Line.text ++ [" \x7d"] ++ chains ++
  [" chain implicit_allow \x7b counter; " ++ labelText implicitLabel ++ "goto grant; \x7d",
    " chain grant \x7b ct direction original ct label set ct label | 0; meta mark set meta mark | 0x80000000; accept; \x7d",
    "\x7d"]

def scriptSize (lines : List String) : Nat := (lines.map fun l => l.utf8ByteSize + 1).sum

/-- `digest` stands for the hash of the plan, which is only printed. -/
def render (digest : List RuleRow → List ZoneRow → List HostLink → String) (root : Config) (bindings : Bindings)
    (tokens : Option Tokens) (hosts : List HostLink) : Except String Rendered := do
  let g ← gather root bindings tokens
  if !hosts.all fun h => indexOk h.index then throw "Invalid service-route link"
  else
    let chains ← ruleChains tokens 0 g.rules
    let implicitLabel ← label tokens ("implicit", "intrazone-default")
    let planDigest := digest g.rules g.zones hosts
    let lines := scriptLines planDigest (forwardLines g hosts) chains implicitLabel
    if 65536 < scriptSize lines then throw "Expanded Security policy exceeds 64 KiB"
    else return ⟨String.join (lines.map fun l => l ++ "\n"), planDigest, g.rules, g.zones, forwardLines g hosts⟩

end FfnNgfw.Policy
