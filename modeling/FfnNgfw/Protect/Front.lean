import FfnNgfw.Protect.Authenticator
import FfnNgfw.Protect.Book

/-!
# Portals, cookies and logins

What stands before the sessions: a portal checks a password and hands out a cookie, and a
gateway opens a session for a password or for such a cookie. The daemon below is the one of
the sessions; `serve` carries out its operations, `reload` those of `load`.
-/

namespace FfnNgfw.Protect

open Threads

/-- An entry of `portal_cookies`. -/
structure Ticket where
  user : String
  portal : String
  expires : Int
  deriving DecidableEq

/-- `authenticators` are all there have been, the last is the one in force; `authProfile` is
the profile in the spec of each gateway object. -/
structure Front where
  daemon : Daemon
  authenticators : List Authenticator
  authProfile : Nat → String
  portals : Dict String Portal
  portalCookies : Dict String Ticket

inductive Grant where
  | session (g : Nat) (preferred : Option UInt32)
  | cookie (token : String) (portal : String) (expires : Int)

/-- A handler reads the authenticator, then the profile of the gateway, and may be interrupted
between the two. `token` is the random text of a new cookie, `issued` the time when its
lifetime begins. -/
inductive FrontOp where
  | load (intent : RawAccess)
  | reload (protect : Access) (op : Op)
  | expire (now : Int)
  | portalConfig (name : String) (q : Credentials) (token : String) (issued : Int)
  | portalCookie (name : String) (portal : Portal) (q : Credentials) (token : String) (issued : Int)
  | portalAuth (name : String) (portal : Portal) (q : Credentials) (token : String) (issued : Int)
  | login (name : String) (q : Credentials) (preferred : Option UInt32)
  | loginCookie (g : Nat) (q : Credentials) (preferred : Option UInt32)
  | loginAuth (g : Nat) (q : Credentials) (preferred : Option UInt32)
  | loginProfile (a g : Nat) (q : Credentials) (preferred : Option UInt32)
  | check (a : Nat) (profileName : String) (q : Credentials) (grant : Grant)
  | failed (a : Nat) (q : Credentials)
  | issue (token : String) (ticket : Ticket)
  | serve (op : Op)

namespace Front

def init : Front := ⟨Daemon.init, [Authenticator.init ∅ ∅], fun _ => "", ∅, ∅⟩

variable (d : Front)

/-- The object that `daemon.authenticator` is. -/
def authenticator : Nat := d.authenticators.length - 1

/-- The cookie is known, was given to this user and has not expired. -/
def shows (q : Credentials) : Option Ticket :=
  if q.cookie ≠ "" ∧ q.cookie ≠ "empty" then
    (d.portalCookies.lookup q.cookie).filter fun ticket => ticket.user = q.user ∧ q.now < ticket.expires
  else none

/-- The spec that `load` puts in force has its profile with it, and the intent is replaced at
the end. -/
def install (protect : Access) (op : Op) : Front :=
  match op with
  | .startGateways [] => { d with portals := protect.portals }
  | .startGateways ((name, _) :: _) =>
    { d with
      authProfile := Function.update d.authProfile ((d.daemon.gateways.lookup name).getD d.daemon.objects.length)
        (protect.profileOf name) }
  | _ => d

end Front

def Grant.op (q : Credentials) : Grant → FrontOp
  | .session g preferred => .serve (.newSession g q.user q.source preferred)
  | .cookie token portal expires => .issue token ⟨q.user, portal, expires⟩

variable (verifyPhash : String → String → Bool)

def checked (d : Front) (a : Nat) (profileName : String) (q : Credentials) (grant : Grant) : Front × List FrontOp :=
  match d.authenticators[a]? with
  | none => (d, [])
  | some authenticator =>
    let (verdict, after) := authenticator.check verifyPhash profileName q
    ({ d with authenticators := d.authenticators.set a after },
      match verdict with
      | .accepted => [grant.op q]
      | .refused _ => []
      | .failed _ => [.failed a q])

def attend (t : Nat) (d : Front) (op : FrontOp) : Option (Front × List FrontOp) :=
  match op with
  | .load intent =>
    match validateAccess intent with
    | none => some (d, [])
    | some protect =>
      (exec t d.daemon (.load intent.gateways)).map fun r =>
        ({ d with daemon := r.1, authenticators := d.authenticators ++ [.init protect.profiles protect.users] },
          r.2.map (.reload protect))
  | .reload protect op =>
    (exec t d.daemon op).map fun r => ({ d.install protect op with daemon := r.1 }, r.2.map (.reload protect))
  | .expire now =>
    if d.daemon.mayLock t then
      let expired := d.portalCookies.items.filter fun item => item.2.expires < now
      some ({ d with portalCookies := expired.foldl (fun cookies item => cookies.erase item.1) d.portalCookies }, [])
    else none
  | .portalConfig name q token issued =>
    match d.portals.lookup name with
    | none => some (d, [])
    | some portal => some (d, [.portalCookie name portal q token issued])
  | .portalCookie name portal q token issued =>
    if d.daemon.mayLock t then
      some (d, if (d.shows q).any (·.portal = name) then [] else [.portalAuth name portal q token issued])
    else none
  | .portalAuth name portal q token issued =>
    some (d, [.check d.authenticator portal.authProfile q (.cookie token name (issued + portal.loginLifetime))])
  | .login name q preferred =>
    match d.daemon.gateways.lookup name with
    | none => some (d, [])
    | some g => some (d, [.loginCookie g q preferred])
  | .loginCookie g q preferred =>
    if d.daemon.mayLock t then
      some (d, [if (d.shows q).isSome then (Grant.session g preferred).op q else .loginAuth g q preferred])
    else none
  | .loginAuth g q preferred => some (d, [.loginProfile d.authenticator g q preferred])
  | .loginProfile a g q preferred => some (d, [.check a (d.authProfile g) q (.session g preferred)])
  | .check a profileName q grant => some (checked verifyPhash d a profileName q grant)
  | .failed a q =>
    some ({ d with
      authenticators := d.authenticators.modify a fun x =>
        (x.failed ("source:" ++ q.source) q.clock).failed ("user:" ++ q.user) q.clock }, [])
  | .issue token ticket =>
    if d.daemon.mayLock t then some ({ d with portalCookies := d.portalCookies.assign token ticket }, []) else none
  | .serve op => (exec t d.daemon op).map fun r => ({ d with daemon := r.1 }, r.2.map .serve)

def welcomes (t : Nat) : FrontOp → Bool
  | .load _ => t = 0
  | .expire _ => t = 0
  | .serve (.tick _ _) => t = 0
  | .portalConfig _ _ _ _ => t ≠ 0
  | .login _ _ _ => t ≠ 0
  | .serve (.request _ _ _) => t ≠ 0
  | _ => false

def front : Machine Front FrontOp := ⟨welcomes, fun t op d => attend verifyPhash t d op⟩

def opening : Config Front FrontOp := ⟨Front.init, fun _ => []⟩

end FfnNgfw.Protect
