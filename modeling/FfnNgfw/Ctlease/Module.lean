import Mathlib.Logic.Function.Basic
import Mathlib.Tactic.Common

/-!
# Leases on conntrack objects

`ffn_ctlease.c`: a file is bound to one conntrack object and adds what the hardware has counted to
its counters. The kernel may change the object at any time, so an operation is given what its reads
of the object find (`Seen`), whatever that is. The operations on one file exclude each other, and
so do those on the list of claims.
-/

namespace FfnNgfw.Ctlease

inductive Direction where
  | original
  | reply
  deriving DecidableEq

inductive Errno where
  | eperm | ealready | eopnotsupp | einval | enoent | ebusy | estale | enotconn
  deriving DecidableEq

def tcp : UInt32 := 6
def udp : UInt32 := 17

structure Tuple where
  source : UInt32
  destination : UInt32
  sourcePort : UInt16
  destinationPort : UInt16
  deriving DecidableEq

/-- `struct ffn_ctlease_bind` -/
structure Bind where
  version : UInt32
  conntrackId : UInt32
  timeoutSeconds : UInt32
  protocol : UInt32
  zone : UInt16
  reserved : UInt16
  mark : UInt32
  labels : List UInt8
  original : Tuple
  reply : Tuple
  ethernetBytes : Direction → UInt16
  reserved2 : UInt32

/-- `struct ffn_ctlease_update` -/
structure Update where
  sequence : UInt64
  packets : Direction → UInt64
  octets : Direction → UInt64
  activeMask : UInt32
  reserved : UInt32

structure Status where
  confirmed : Bool
  seenReply : Bool
  assured : Bool
  fixedTimeout : Bool
  template : Bool
  offload : Bool
  hwOffload : Bool
  seqAdjust : Bool

structure Seen where
  dying : Bool
  expired : Bool
  status : Status
  helper : Bool
  established : Bool
  id : UInt32
  mark : UInt32
  labels : Option (List UInt8)
  acct : Bool

/-- What `nf_conntrack_find_get` returns: the object, the direction it was found in, and its tuples. -/
structure Found (Obj : Type) where
  ct : Obj
  direction : Direction
  original : Tuple
  reply : Tuple

structure Lease (Obj : Type) where
  ct : Option Obj
  identity : Bind
  sequence : UInt64
  invalid : Bool

structure Counter where
  packets : UInt64
  bytes : UInt64
  deriving DecidableEq

def Counter.add (a b : Counter) : Counter := ⟨a.packets + b.packets, a.bytes + b.bytes⟩

def maxTimeout (protocol : UInt32) : UInt32 := if protocol = tcp then 432000 else 300

def usable (identity : Bind) (seen : Seen) : Option Errno :=
  if seen.dying || seen.expired then some .estale
  else if !(seen.status.confirmed && seen.status.seenReply && seen.status.assured) ||
      (seen.status.fixedTimeout || seen.status.template || seen.status.offload ||
        seen.status.hwOffload || seen.status.seqAdjust) || seen.helper then
    some .eopnotsupp
  -- A FIN or RST reached the kernel: the hardware flow must be withdrawn.
  else if identity.protocol = tcp ∧ seen.established = false then some .estale
  else if seen.id ≠ identity.conntrackId ∨ seen.mark ≠ identity.mark ∨ seen.labels ≠ some identity.labels then some .estale
  else if !seen.acct then some .eopnotsupp
  else none

def checkBind (b : Bind) : Option Errno :=
  if b.protocol ≠ udp ∧ b.protocol ≠ tcp then some .eopnotsupp
  else if b.version ≠ 1 ∨ b.conntrackId = 0 ∨ b.reserved ≠ 0 ∨ b.reserved2 ≠ 0 ∨ b.timeoutSeconds = 0 ∨
      b.timeoutSeconds > maxTimeout b.protocol ∨ b.labels.all (· = 0) then some .einval
  else if (b.ethernetBytes .original ≠ 14 ∧ b.ethernetBytes .original ≠ 18) ∨
    (b.ethernetBytes .reply ≠ 14 ∧ b.ethernetBytes .reply ≠ 18) then
    some .einval
  else none

def Direction.bit : Direction → UInt32
  | .original => 1
  | .reply => 2

def outOfBounds (identity : Bind) (u : Update) (d : Direction) : Bool :=
  u.packets d > 65535 || u.octets d > u.packets d * 9216 || u.octets d < u.packets d * ((identity.ethernetBytes d).toUInt64 + 20) ||
    (u.activeMask &&& d.bit ≠ 0 && u.packets d = 0)

def checkUpdate {Obj : Type} (l : Lease Obj) (u : Update) : Option Errno :=
  if u.sequence = 0 ∨ u.sequence ≠ l.sequence + 1 ∨ u.reserved ≠ 0 ∨ u.activeMask &&& ~~~3 ≠ 0 then some .einval
  else if u.packets .original = 0 ∧ u.packets .reply = 0 then some .einval
  else if outOfBounds l.identity u .original || outOfBounds l.identity u .reply then some .einval
  else none

def delta (identity : Bind) (u : Update) (d : Direction) : Counter :=
  ⟨u.packets d, u.octets d - u.packets d * (identity.ethernetBytes d).toUInt64⟩

/-! ### Files -/

variable {Handle Obj : Type}

inductive File (Obj : Type) where
  | unopened
  | opened (l : Lease Obj)
  | closed

/-- An update that was added to the counters, and what it returned. -/
structure Addition (Handle Obj : Type) where
  handle : Handle
  ct : Obj
  identity : Bind
  update : Update
  result : Option Errno

/-- `added` and `software` are the history: the updates that were added, and what the kernel has counted itself. -/
structure World (Handle Obj : Type) where
  files : Handle → File Obj
  claims : List Handle
  acct : Obj → Direction → Counter
  added : List (Addition Handle Obj)
  software : Obj → Direction → Counter

def File.lease : File Obj → Option (Lease Obj)
  | .opened l => some l
  | _ => none

def World.owns (w : World Handle Obj) (h : Handle) : Option Obj := (w.files h).lease.bind (·.ct)

section

variable [DecidableEq Handle] [DecidableEq Obj]

def World.setLease (w : World Handle Obj) (h : Handle) (l : Lease Obj) : World Handle Obj :=
  { w with files := Function.update w.files h (.opened l) }

/-- `bind_lease` -/
def bindLease (w : World Handle Obj) (h : Handle) (l : Lease Obj) (b : Bind) (found : Option (Found Obj)) (seen : Seen) :
    World Handle Obj × Option Errno :=
  if l.ct.isSome then (w, some .ealready)
  else
    match checkBind b with
    | some e => (w, some e)
    | none =>
      match found with
      | none => (w, some .enoent)
      | some f =>
        if w.claims.any (fun other => w.owns other = some f.ct) then (w, some .ebusy)
        else if f.direction ≠ .original ∨ f.original ≠ b.original ∨ f.reply ≠ b.reply then (w, some .estale)
        else
          match if b.protocol = tcp ∧ seen.established = false then some .eopnotsupp else usable b seen with
          | some e => (w.setLease h { l with identity := b }, some e)
          | none => ({ w.setLease h { l with ct := some f.ct, identity := b } with claims := h :: w.claims }, none)

def World.addTo (w : World Handle Obj) (ct : Obj) (add : Direction → Counter) : World Handle Obj :=
  { w with acct := Function.update w.acct ct fun d => (w.acct ct d).add (add d) }

/-- `update_lease`; the object may be found dying after the counters were changed. -/
def updateLease (w : World Handle Obj) (h : Handle) (l : Lease Obj) (u : Update) (seen : Seen) (dyingAfter : Bool) :
    World Handle Obj × Option Errno :=
  match l.ct with
  | none => (w, some .enotconn)
  | some ct =>
    if l.invalid then (w, some .estale)
    else
      match checkUpdate l u with
      | some e => (w, some e)
      | none =>
        match usable l.identity seen with
        | some e => (w.setLease h { l with invalid := true }, some e)
        | none =>
          let result := if dyingAfter then some .estale else none
          let w := (w.addTo ct (delta l.identity u)).setLease h { l with sequence := u.sequence, invalid := dyingAfter }
          ({ w with added := w.added ++ [⟨h, ct, l.identity, u, result⟩] }, result)

/-- `check_lease` -/
def checkLease (w : World Handle Obj) (h : Handle) (l : Lease Obj) (seen : Seen) : World Handle Obj × Option Errno :=
  match l.ct with
  | none => (w, some .enotconn)
  | some _ =>
    if l.invalid then (w, some .estale)
    else
      match usable l.identity seen with
      | some e => (w.setLease h { l with invalid := true }, some e)
      | none => (w, none)

/-- `lease_release` -/
def leaseRelease (w : World Handle Obj) (h : Handle) (l : Lease Obj) : World Handle Obj :=
  { w with files := Function.update w.files h .closed, claims := if l.ct.isSome then w.claims.erase h else w.claims }

inductive Call (Obj : Type) where
  | bind (b : Bind) (found : Option (Found Obj)) (seen : Seen)
  | update (u : Update) (seen : Seen) (dyingAfter : Bool)
  | check (seen : Seen)

/-- The kernel counts software packets; its other changes are what the calls find. -/
inductive Action (Handle Obj : Type) where
  | openFile (h : Handle)
  | control (h : Handle) (permitted : Bool) (call : Call Obj)
  | release (h : Handle)
  | traffic (ct : Obj) (count : Direction → Counter)

def Bind.zero : Bind := ⟨0, 0, 0, 0, 0, 0, 0, List.replicate 16 0, ⟨0, 0, 0, 0⟩, ⟨0, 0, 0, 0⟩, fun _ => 0, 0⟩

def control (w : World Handle Obj) (h : Handle) (l : Lease Obj) : Call Obj → World Handle Obj × Option Errno
  | .bind b found seen => bindLease w h l b found seen
  | .update u seen dyingAfter => updateLease w h l u seen dyingAfter
  | .check seen => checkLease w h l seen

/-- Nothing is done with a file that is not open, and no file is opened twice. -/
def step (w : World Handle Obj) : Action Handle Obj → World Handle Obj × Option Errno
  | .openFile h =>
    match w.files h with
    | .unopened => (w.setLease h ⟨none, Bind.zero, 0, false⟩, none)
    | _ => (w, none)
  | .control h permitted call =>
    match w.files h with
    | .opened l => if permitted then control w h l call else (w, some .eperm)
    | _ => (w, none)
  | .release h =>
    match w.files h with
    | .opened l => (leaseRelease w h l, none)
    | _ => (w, none)
  | .traffic ct count => ({ w.addTo ct count
      with software := Function.update w.software ct fun d => (w.software ct d).add (count d) }, none)

def run (w : World Handle Obj) (actions : List (Action Handle Obj)) : World Handle Obj := actions.foldl (fun w a => (step w a).1) w

end

def start (acct : Obj → Direction → Counter) : World Handle Obj := ⟨fun _ => .unopened, [], acct, [], fun _ _ => ⟨0, 0⟩⟩

end FfnNgfw.Ctlease
