import FfnNgfw.Lib.Threads
import FfnNgfw.Protect.Intent

/-!
# The sessions of the gateway daemon

The main thread reloads the intent and ends what has expired; handler threads log clients in
and out and carry their tunnels. Each works on the gateways, the sessions and the tunnel
workers through the operations below, and may be interrupted wherever it does not hold the
lock in question. A block under the lock of a gateway, or under the daemon's own where it
calls nothing, is one operation. Worker requests succeed.
-/

namespace FfnNgfw.Protect

open Threads

def maxSessions : Nat := 1000

structure Pool where
  free : List UInt32
  used : List UInt32

namespace Pool

def init (spec : Spec) : Pool := ⟨spec.configured, []⟩

/-- `used` is a set. -/
def take (p : Pool) (free : List UInt32) (address : UInt32) : Pool := ⟨free, p.used.insert address⟩

def allocate (p : Pool) (preferred : Option UInt32) : Option (UInt32 × Pool) :=
  match preferred.filter (· ∈ p.free), p.free with
  | some wanted, free => some (wanted, p.take (free.erase wanted) wanted)
  | none, [] => none
  | none, first :: rest => some (first, p.take rest first)

def release (p : Pool) (address : UInt32) : Pool :=
  if address ∈ p.used then ⟨p.free ++ [address], p.used.filter (· ≠ address)⟩ else p

end Pool

/-! ### Sessions and gateways -/

/-- A session object: which gateway object made it, and the id it was given there. -/
structure Ref where
  home : Nat
  id : Nat
  deriving DecidableEq

inductive TunnelResult where
  | ended
  | text (s : String)
  deriving DecidableEq

structure Session where
  user : String
  source : String
  gateway : String
  clientIp : UInt32
  tunnelResult : Option TunnelResult
  registered : Bool
  lock : Option Nat

def Session.Ended (s : Session) : Prop := s.tunnelResult = some .ended

instance (s : Session) : Decidable s.Ended := inferInstanceAs (Decidable (_ = _))

/-- What a tunnel worker serves, and the host routes into its device. -/
structure Worker where
  alive : Bool
  sessions : List Nat
  routes : List UInt32

namespace Worker

def start : Worker := ⟨true, [], []⟩

/-- The device goes with its process, and the routes with the device. -/
def stop : Worker := ⟨false, [], []⟩

def add (w : Worker) (id : Nat) : Worker := { w with sessions := w.sessions.insert id }

def del (w : Worker) (id : Nat) : Worker := { w with sessions := w.sessions.filter (· ≠ id) }

def route (w : Worker) (clientIp : UInt32) (add : Bool) : Worker :=
  { w with routes := if add then w.routes.insert clientIp else w.routes.filter (· ≠ clientIp) }

end Worker

structure GatewayState where
  name : String
  spec : Spec
  pool : Pool
  /-- The keys of `sessions`; the session under `id` is the one this gateway made as `id`. -/
  sessions : List Nat
  nextId : Nat
  worker : Worker

namespace GatewayState

def init (name : String) (spec : Spec) : GatewayState := ⟨name, spec, Pool.init spec, [], 1, Worker.start⟩

def restartNeeded (g : GatewayState) (spec : Spec) : Bool :=
  g.spec.interface ≠ spec.interface || g.spec.address ≠ spec.address || g.spec.tunnel ≠ spec.tunnel ||
    g.spec.tunnelAddress ≠ spec.tunnelAddress || g.spec.mtu ≠ spec.mtu || g.spec.pools ≠ spec.pools

end GatewayState

/-- `objects` are all gateway objects there have been, `gateways` names those in force. -/
structure Daemon where
  gateways : Dict String Nat
  objects : List GatewayState
  heap : Ref → Option Session
  byCookie : List Ref
  lock : Option Nat

namespace Daemon

def init : Daemon := ⟨∅, [], fun _ => none, [], none⟩

variable (d : Daemon)

def editGateway (g : Nat) (f : GatewayState → GatewayState) : Daemon := { d with objects := d.objects.modify g f }

def editSession (r : Ref) (f : Session → Session) : Daemon :=
  { d with heap := Function.update d.heap r ((d.heap r).map f) }

def mayLock (t : Nat) : Bool := d.lock = none || d.lock = some t

def startGateway (name : String) (spec : Spec) : Daemon :=
  { d with gateways := d.gateways.assign name d.objects.length, objects := d.objects ++ [GatewayState.init name spec] }

end Daemon

/-! ### Operations -/

/-- How `Handler.tunnel` came back from moving packets. -/
inductive Closing where
  | clientClosed
  | idle
  | oversizedFrame
  | workerClosed
  | other (text : String)

inductive Request where
  | logout
  | tunnelConfig
  | tunnel (closing : Closing)

/-- The operations, from the calls of the main thread on: `load` and what it is made of, the
requests of the handlers, `newSession`, `endSession` and the two registrations, which differ
in whether the route of an earlier registration is taken away. -/
inductive Op where
  | load (intent : Dict String RawGateway)
  | stopGateways (names : List String) (protect : Dict String Spec)
  | startGateways (specs : List (String × Spec))
  | endSessions (g : Nat)
  | stopWorker (g : Nat)
  | tick (name : String) (due : List Nat)
  | login (name user source : String) (preferred : Option UInt32)
  | request (name : String) (r : Ref) (kind : Request)
  | authorised (g : Nat) (name : String) (r : Ref) (kind : Request)
  | newSession (g : Nat) (user source : String) (preferred : Option UInt32)
  | allocate (g : Nat) (user source : String) (preferred : Option UInt32)
  | addCookie (r : Ref)
  | endSession (r : Ref)
  | mark (r : Ref) (gateway : Option Nat)
  | dropCookie (r : Ref) (gateway : Option Nat)
  | release (r : Ref) (g : Nat)
  | cleanUp (r : Ref) (g : Nat)
  | workerDel (r : Ref) (g : Nat)
  | routeDel (r : Ref) (g : Nat)
  | closed (r : Ref) (closing : Closing)
  | setResult (r : Ref) (text : String)
  | register (esp : Bool) (r : Ref) (g : Nat)
  | againDel (esp : Bool) (r : Ref) (g : Nat)
  | againRoute (r : Ref) (g : Nat)
  | againClear (r : Ref) (g : Nat)
  | workerAdd (r : Ref) (g : Nat)
  | routeAdd (r : Ref) (g : Nat)
  | registered (r : Ref)

/-- The daemon's lock and a session's are reentrant; a session's is only kept across operations
by a registration. -/
def Session.mayLock (s : Session) (t : Nat) : Bool := s.lock = none || s.lock = some t

def endAll (g : Nat) (ids : List Nat) : List Op := ids.map fun id => .endSession ⟨g, id⟩

section exec

variable (t : Nat) (d : Daemon)

def loadIntent (intent : Dict String RawGateway) : Option (Daemon × List Op) :=
  match validateIntent intent with
  | .error _ => some (d, [])
  | .ok protect =>
    if d.mayLock t then some ({ d with lock := some t }, [.stopGateways (d.gateways.items.map Prod.fst) protect]) else none

/-- The loop over the gateways in force, and `stop_gateway` up to the sessions. -/
def stopNext (names : List String) (protect : Dict String Spec) : Daemon × List Op :=
  match names with
  | [] => (d, [.startGateways protect.items])
  | name :: rest =>
    match d.gateways.lookup name with
    | none => (d, [.stopGateways rest protect])
    | some g =>
      if (protect.lookup name).all fun spec => (d.objects[g]?).all (·.restartNeeded spec) then
        ({ d with gateways := d.gateways.erase name }, [.endSessions g, .stopGateways rest protect])
      else (d, [.stopGateways rest protect])

def startNext (specs : List (String × Spec)) : Daemon × List Op :=
  match specs with
  | [] => ({ d with lock := none }, [])
  | (name, spec) :: rest =>
    match d.gateways.lookup name with
    | some g => (d.editGateway g fun o => { o with spec := spec }, [.startGateways rest])
    | none => (d.startGateway name spec, [.startGateways rest])

def authorisedBy (g : Nat) (name : String) (r : Ref) (kind : Request) (s : Session) : List Op :=
  if r ∈ d.byCookie ∧ s.gateway = name then
    match kind with
    | .logout => [.endSession r]
    | .tunnelConfig => [.register true r g]
    | .tunnel closing => [.register false r g, .closed r closing]
  else []

def replaced (g : Nat) (o : GatewayState) (user source : String) : List Nat :=
  o.sessions.filter fun id => (d.heap ⟨g, id⟩).any fun s => s.user = user ∧ s.source = source

def allocateIn (g : Nat) (o : GatewayState) (user source : String) (preferred : Option UInt32) : Daemon × List Op :=
  if maxSessions ≤ o.sessions.length then (d, [])
  else
    match o.pool.allocate preferred with
    | none => (d, [])
    | some (clientIp, pool) =>
      let r : Ref := ⟨g, o.nextId⟩
      let session : Session := ⟨user, source, o.name, clientIp, none, false, none⟩
      ({ d.editGateway g fun o => { o with pool := pool, sessions := o.sessions ++ [o.nextId], nextId := o.nextId + 1 } with
          heap := Function.update d.heap r (some session) }, [.addCookie r])

/-- Under the gateway's lock: the entry, whoever made it, and the address. -/
def releaseIn (r : Ref) (g : Nat) (s : Session) : Daemon :=
  d.editGateway g fun o => { o with sessions := o.sessions.filter (· ≠ r.id), pool := o.pool.release s.clientIp }

def editWorker (g : Nat) (f : Worker → Worker) : Daemon := d.editGateway g fun o => { o with worker := f o.worker }

def registerIn (esp : Bool) (r : Ref) (g : Nat) (s : Session) : Option (Daemon × List Op) :=
  if s.mayLock t then
    some (d.editSession r fun s => { s with lock := some t }, if s.registered then [.againDel esp r g] else [.workerAdd r g])
  else none

def whenClosed (r : Ref) (closing : Closing) (s : Session) : List Op :=
  if s.Ended then []
  else
    match closing with
    | .other text => [.setResult r text]
    | _ => [.endSession r]

def onSession (r : Ref) (f : Session → Option (Daemon × List Op)) : Option (Daemon × List Op) :=
  match d.heap r with
  | none => some (d, [])
  | some s => f s

def onGateway (g : Nat) (f : GatewayState → Daemon × List Op) : Option (Daemon × List Op) :=
  match d.objects[g]? with
  | none => some (d, [])
  | some o => some (f o)

def exec (op : Op) : Option (Daemon × List Op) :=
  match op with
  | .load intent => loadIntent t d intent
  | .stopGateways names protect => some (stopNext d names protect)
  | .startGateways specs => some (startNext d specs)
  | .endSessions g => onGateway d g fun o => (d, endAll g o.sessions ++ [.stopWorker g])
  | .stopWorker g => some (editWorker d g fun _ => .stop, [])
  | .tick name due =>
    match d.gateways.lookup name with
    | none => some (d, [])
    | some g => onGateway d g fun o => (d, endAll g (o.sessions.filter (· ∈ due)))
  | .login name user source preferred =>
    match d.gateways.lookup name with
    | none => some (d, [])
    | some g => some (d, [.newSession g user source preferred])
  | .request name r kind =>
    match d.gateways.lookup name with
    | none => some (d, [])
    | some g => some (d, [.authorised g name r kind])
  | .authorised g name r kind =>
    if d.mayLock t then onSession d r fun s => some (d, authorisedBy d g name r kind s) else none
  | .newSession g user source preferred =>
    onGateway d g fun o => (d, endAll g (replaced d g o user source) ++ [.allocate g user source preferred])
  | .allocate g user source preferred => onGateway d g fun o => allocateIn d g o user source preferred
  | .addCookie r => if d.mayLock t then some ({ d with byCookie := d.byCookie.insert r }, []) else none
  | .endSession r => onSession d r fun s => some (d, [.mark r (d.gateways.lookup s.gateway)])
  | .mark r gateway =>
    onSession d r fun s =>
      if !s.mayLock t then none
      else if s.Ended then some (d, [])
      else some (d.editSession r fun s => { s with tunnelResult := some .ended }, [.dropCookie r gateway])
  | .dropCookie r gateway =>
    if d.mayLock t then
      some ({ d with byCookie := d.byCookie.filter (· ≠ r) }, gateway.toList.map fun g => .release r g)
    else none
  | .release r g => onSession d r fun s => some (releaseIn d r g s, [.cleanUp r g])
  | .cleanUp r g =>
    onSession d r fun s =>
      some (d, if s.registered ∧ (d.objects[g]?).any (·.worker.alive) then [.workerDel r g] else [])
  | .workerDel r g => some (editWorker d g (·.del r.id), [.routeDel r g])
  | .routeDel r g => onSession d r fun s => some (editWorker d g (·.route s.clientIp false), [])
  | .closed r closing => onSession d r fun s => some (d, whenClosed r closing s)
  | .setResult r text => some (d.editSession r fun s => { s with tunnelResult := some (.text text) }, [])
  | .register esp r g => onSession d r fun s => registerIn t d esp r g s
  | .againDel esp r g => some (editWorker d g (·.del r.id), [if esp then .againRoute r g else .againClear r g])
  | .againRoute r g => onSession d r fun s => some (editWorker d g (·.route s.clientIp false), [.againClear r g])
  | .againClear r g => some (d.editSession r fun s => { s with registered := false }, [.workerAdd r g])
  | .workerAdd r g => some (editWorker d g (·.add r.id), [.routeAdd r g])
  | .routeAdd r g => onSession d r fun s => some (editWorker d g (·.route s.clientIp true), [.registered r])
  | .registered r => some (d.editSession r fun s => { s with registered := true, lock := none }, [])

end exec

/-- The main thread is thread 0; every handler is a thread of its own. -/
def takes (t : Nat) : Op → Bool
  | .load _ => t = 0
  | .tick _ _ => t = 0
  | .login _ _ _ _ => t ≠ 0
  | .request _ _ _ => t ≠ 0
  | _ => false

def daemon : Machine Daemon Op := ⟨takes, fun t op d => exec t d op⟩

def start : Config Daemon Op := ⟨Daemon.init, fun _ => []⟩

end FfnNgfw.Protect
