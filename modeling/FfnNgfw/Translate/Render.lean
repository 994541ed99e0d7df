import FfnNgfw.Policy.Nft
import FfnNgfw.Translate.Plan

/-!
# NAT rules as an nftables table

`render` spreads a rule over one prerouting line for each service and condition, a chain that
marks the connection and translates its destination, and postrouting lines that know the rule
by the mark. Lines are kept as data; `text` gives them as they are handed to nft. An element
of a set stands for what `ipv4` and `ports` read in its text.
-/

namespace FfnNgfw.Translate

open Policy

/-- The first packet of a connection as the prerouting hook has it. -/
structure NatPacket where
  direction : Direction
  mark : Nat
  iif : String
  saddr : UInt32
  daddr : UInt32
  l4proto : PacketProtocol
  sport : Nat
  dport : Nat

structure Kernel where
  /-- the device that an address is routed to -/
  fib : UInt32 → Option String
  numgen : Nat
  jhash : List UInt32 → String → Nat

def addressIn (a : UInt32) (texts : List String) : Bool :=
  texts.any fun text =>
    match ipv4 text with
    | .ok block => block.contains a
    | .error _ => false

def portAmong (port : Nat) (texts : List String) : Bool :=
  texts.any fun text =>
    match ports text with
    | .ok ranges => ranges.any fun r => r.contains port
    | .error _ => false

def hostOf (text : String) : Option UInt32 := (ipv4Host text).toOption

/-! ### Lines -/

structure NatMatch where
  iif : List String
  saddr : List String
  daddr : List String
  protocol : Protocol
  sports : List String
  dports : List String

def NatMatch.holds (m : NatMatch) (p : NatPacket) : Bool :=
  p.iif ∈ m.iif && addressIn p.saddr m.saddr && addressIn p.daddr m.daddr &&
    (m.protocol = .any || (m.protocol.isPacket p.l4proto && (m.sports = [] || portAmong p.sport m.sports) &&
      (m.dports = [] || portAmong p.dport m.dports)))

inductive Condition where
  | routed (devices : List String)
  | «local» (addresses : List String)

def Condition.holds (k : Kernel) (p : NatPacket) : Condition → Bool
  | .routed devices => (k.fib p.daddr).any fun device => device ∈ devices
  | .local addresses => addressIn p.daddr addresses

inductive PreLine where
  | replyReturn
  | markedReturn
  | goto (m : NatMatch) (c : Condition) (chain : Nat)

inductive Selector where
  | numgen
  | jhash (daddr : Bool) (seed : String)

def Selector.value (k : Kernel) (p : NatPacket) : Selector → Nat
  | .numgen => k.numgen
  | .jhash false seed => k.jhash [p.saddr] seed
  | .jhash true seed => k.jhash [p.saddr, p.daddr] seed

/-- Where a `dnat` statement sends a connection. -/
inductive Destination where
  | address (text : String)
  | pool (selector : Selector) (addresses : List String)

def Destination.resolve (k : Kernel) (p : NatPacket) : Destination → Option UInt32
  | .address text => hostOf text
  | .pool selector addresses => (addresses[selector.value k p % addresses.length]?).bind hostOf

inductive Stmt where
  | counter (comment : String)
  | setMark (mark : Nat)
  | accept
  | dnat (protocol : Option Protocol) (destination : Destination) (port : Option Nat)
  | drop

inductive PostLine where
  | masquerade (mark : Nat) (device : String)
  | drop (mark : Nat)
  | static (mark : Nat) (host : UInt32) (address : String)
  | snat (mark : Nat) (address : String)
  | accept (mark : Nat)
  /-- marks of other generations -/
  | foreignDrop

/-! ### What the table does -/

/-- The connection mark, the new destination if there is one, and whether the packet is gone. -/
structure Prerouted where
  mark : Nat
  dnat : Option (UInt32 × Option Nat)
  dropped : Bool
  deriving DecidableEq

def runStmts (k : Kernel) (p : NatPacket) : Nat → List Stmt → Prerouted
  | mark, [] => ⟨mark, none, false⟩
  | mark, .counter _ :: rest => runStmts k p mark rest
  | _, .setMark mark :: rest => runStmts k p mark rest
  | mark, .accept :: _ => ⟨mark, none, false⟩
  | mark, .drop :: _ => ⟨mark, none, true⟩
  | mark, .dnat protocol destination port :: rest =>
    if protocol.all fun l4 => l4.isPacket p.l4proto then
      match destination.resolve k p with
      | some a => ⟨mark, some (a, port), false⟩
      | none => runStmts k p mark rest
    else runStmts k p mark rest

inductive Jump where
  | back
  | chain (i : Nat)

def PreLine.jump (k : Kernel) (p : NatPacket) : PreLine → Option Jump
  | .replyReturn => if p.direction = .reply then some .back else none
  | .markedReturn => if p.mark ≠ 0 then some .back else none
  | .goto m c i => if m.holds p && c.holds k p then some (.chain i) else none

structure Table where
  pre : List PreLine
  chains : List (List Stmt)
  post : List PostLine
  script : String

def prerouting (t : Table) (k : Kernel) (p : NatPacket) : Prerouted :=
  match t.pre.findSome? (PreLine.jump k p) with
  | some (.chain i) => runStmts k p p.mark (t.chains.getD i [])
  | some .back | none => ⟨p.mark, none, false⟩

inductive SourceTranslation where
  | none
  | masquerade
  | address (a : UInt32)
  deriving DecidableEq

inductive Posted where
  | accept (source : SourceTranslation)
  | drop
  deriving DecidableEq

/-- What a postrouting line does with a packet of a connection with this mark. -/
def PostLine.verdict (mark : Nat) (oif : String) (saddr : UInt32) : PostLine → Option Posted
  | .masquerade m device => if mark = m ∧ oif = device then some (.accept .masquerade) else none
  | .drop m => if mark = m then some .drop else none
  | .static m host address =>
    if mark = m ∧ saddr = host then (hostOf address).map fun a => .accept (.address a) else none
  | .snat m address => if mark = m then (hostOf address).map fun a => .accept (.address a) else none
  | .accept m => if mark = m then some (.accept .none) else none
  | .foreignDrop => if mark &&& 0xff000000 = 0xf1000000 then some .drop else none

def postrouting (t : Table) (mark : Nat) (oif : String) (saddr : UInt32) : Posted :=
  (t.post.findSome? (PostLine.verdict mark oif saddr)).getD (.accept .none)

def quoted (values : List String) : String := elements (values.map jsonText)

def NatMatch.text (m : NatMatch) : String :=
  "iifname " ++ quoted m.iif ++ " ip saddr " ++ elements m.saddr ++ " ip daddr " ++ elements m.daddr ++
    if m.protocol = .any then ""
    else " meta l4proto " ++ m.protocol.text ++
      (if m.sports = [] then "" else " " ++ m.protocol.text ++ " sport " ++ elements m.sports) ++
      (if m.dports = [] then "" else " " ++ m.protocol.text ++ " dport " ++ elements m.dports)

def Condition.text : Condition → String
  | .routed devices => "fib daddr oifname " ++ quoted devices
  | .local addresses => "ip daddr " ++ elements addresses

def PreLine.text : PreLine → String
  | .replyReturn => "  ct direction reply return"
  | .markedReturn => "  ct mark != 0 return"
  | .goto m c i => "  " ++ m.text ++ " " ++ c.text ++ " goto r" ++ toString i

def Destination.text : Destination → String
  | .address a => "dnat to " ++ a
  | .pool selector addresses =>
    "dnat ip to " ++
      (match selector with
        | .numgen => "numgen inc mod " ++ toString addresses.length
        | .jhash daddr seed =>
          "jhash " ++ (if daddr then "ip saddr . ip daddr" else "ip saddr") ++ " mod " ++ toString addresses.length ++
          " seed 0x" ++ seed) ++
      " map \x7b " ++ ", ".intercalate (addresses.zipIdx.map fun a => toString a.2 ++ " : " ++ a.1) ++ " \x7d"

def Stmt.text : Stmt → String
  | .counter comment => "counter comment " ++ jsonText comment
  | .setMark mark => "ct mark set " ++ toString mark
  | .accept => "accept"
  | .dnat protocol destination port =>
    (match protocol with | none => "" | some l4 => "meta l4proto " ++ l4.text ++ " ") ++ destination.text ++
      (match port with | none => "" | some port => ":" ++ toString port)
  | .drop => "drop"

def chainText (i : Nat) (stmts : List Stmt) : String :=
  " chain r" ++ toString i ++ " \x7b " ++ "; ".intercalate (stmts.map Stmt.text) ++ "; \x7d"

def PostLine.text : PostLine → String
  | .masquerade mark device => "  ct mark " ++ toString mark ++ " oifname " ++ jsonText device ++ " masquerade"
  | .drop mark => "  ct mark " ++ toString mark ++ " drop"
  | .static mark host address =>
    "  ct mark " ++ toString mark ++ " snat ip to ip saddr map \x7b " ++ dotted host ++ " : " ++ address ++ " \x7d"
  | .snat mark address => "  ct mark " ++ toString mark ++ " snat to " ++ address
  | .accept mark => "  ct mark " ++ toString mark ++ " accept"
  | .foreignDrop => "  ct mark & 0xff000000 == 0xf1000000 drop"

/-! ### Rendering -/

/-- What `ip -d -j link` and `addr` say of a device: the addresses with their families. -/
structure Link where
  master : Bool
  kind : Option String
  addresses : List (String × String)

def markBase : Nat := 0xf1000000

def markOf (revision i : Nat) : Nat := markBase + revision * 1024 + i

section render

variable (seed : String → String → String) (mapping : Dict String String) (links : Dict String Link) (revision : Nat)

def devices (names : List String) : List String := names.filterMap fun name => mapping.lookup name

def localAddresses (outgoing : List String) : List String :=
  sortedSet (outgoing.flatMap fun device =>
    ((links.lookup device).map fun link => (link.addresses.filter fun a => a.1 = "inet").map Prod.snd).getD [])

def conditions (rule : NatRule) : List Condition :=
  let outgoing := devices mapping rule.egress
  let addresses := localAddresses links outgoing
  .routed outgoing :: if addresses = [] then [] else [.local addresses]

def natMatch (rule : NatRule) (service : NatService) : NatMatch :=
  ⟨devices mapping rule.ingress, rule.source, rule.destination, service.protocol, service.sourcePorts, service.destinationPorts⟩

def preLines (i : Nat) (rule : NatRule) : List PreLine :=
  rule.services.flatMap fun service => (conditions mapping links rule).map fun c => .goto (natMatch mapping rule service) c i

def selector (rule : NatRule) : Method → Selector
  | .roundRobin => .numgen
  | .sourceIpHash => .jhash false (seed rule.scope rule.name)
  | .ipHash => .jhash true (seed rule.scope rule.name)

def destination (rule : NatRule) : Dnat → Destination
  | .static address _ => .address address
  | .dynamic addresses method _ => .pool (selector seed rule method) addresses

/-- `sorted({s['protocol'] for s in r['services']})` -/
def protocols (rule : NatRule) : List Protocol :=
  [Protocol.any, .tcp, .udp].filter fun l4 => rule.services.any fun s => s.protocol = l4

def actions (rule : NatRule) : List Stmt :=
  match rule.dnat with
  | none => [.accept]
  | some dnat =>
    match dnat.port with
    | none => [.dnat none (destination seed rule dnat) none]
    | some port => (protocols rule).map (fun l4 => .dnat (some l4) (destination seed rule dnat) (some port)) ++ [.drop]

def ruleChain (i : Nat) (rule : NatRule) : List Stmt :=
  .counter ("NAT " ++ rule.scope ++ "/" ++ rule.name) :: .setMark (markOf revision i) :: actions seed rule

def postLines (i : Nat) (rule : NatRule) : List PostLine :=
  let mark := markOf revision i
  match rule.snat with
  | .masquerade interface => [.masquerade mark ((mapping.lookup interface).getD ""), .drop mark]
  | .static address => [.static mark ((staticHost rule.source).getD 0) address]
  | .snat address => [.snat mark address]
  | .none => [.accept mark]

def eachRule {α : Type} (f : Nat → NatRule → List α) : Nat → List NatRule → List α
  | _, [] => []
  | i, rule :: rest => f i rule ++ eachRule f (i + 1) rest

def usedInterfaces (plan : NatPlan) : List String :=
  plan.rules.flatMap (fun r => r.ingress ++ r.egress) ++ plan.rules.filterMap fun r =>
    match r.snat with
    | .masquerade interface => some interface
    | _ => none

def checkInterface (logical : String) : Except String Unit :=
  match (mapping.lookup logical).bind fun device => links.lookup device with
  | none => .error ("Uncommissioned or missing interface: " ++ logical)
  | some link =>
    if link.master ∨ link.kind = some "bridge" ∨ link.kind = some "vrf" then
      .error "NAT provider currently requires routed interfaces in the main routing table"
    else .ok ()

variable (size : NatPlan → Nat) (digest : NatPlan → String)

/-- `digest` and `seed` stand for the hashes of the plan and of a rule's identity, `size` for the length of the plan as JSON. -/
def render (plan : NatPlan) : Except String Table := do
  let plan ← validatePlan size plan
  demand (1 ≤ revision ∧ revision < 16384) "NAT generation space exhausted; reconcile conntrack before reset"
  let _ ← (usedInterfaces plan).mapM (checkInterface mapping links)
  let pre := [.replyReturn, .markedReturn] ++ eachRule (preLines mapping links) 0 plan.rules
  let chains := eachRule (fun i rule => [ruleChain seed revision i rule]) 0 plan.rules
  let post := eachRule (postLines mapping revision) 0 plan.rules ++ [.foreignDrop]
  let lines := ["table ip ffn_nat \x7b", " comment \"ffn-nat:" ++ digest plan ++ "\"",
      " chain prerouting \x7b type nat hook prerouting priority dstnat; policy accept;"] ++ pre.map PreLine.text ++ [" \x7d"] ++
    (chains.zipIdx.map fun c => chainText c.2 c.1) ++
    [" chain postrouting \x7b type nat hook postrouting priority srcnat; policy accept;"] ++ post.map PostLine.text ++ [" \x7d", "\x7d"]
  return ⟨pre, chains, post, String.join (lines.map fun l => l ++ "\n")⟩

end render

end FfnNgfw.Translate
