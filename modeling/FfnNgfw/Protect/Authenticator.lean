import FfnNgfw.Protect.Intent

/-!
# Who may log in

The authentication part of an intent and the decision on one login attempt. Users are kept
with the hash of their password, a profile says where passwords are checked and may name the
users it allows. What the directories answer is an input; the bind name, the shared secret
and the transport settings only go to them and are left out.
-/

namespace FfnNgfw.Protect

def failureWindow : Int := 300

def failureLimit : Nat := 10

/-- `USERNAME` -/
def isUsername (s : List Char) : Bool :=
  match s with
  | [] => false
  | first :: rest =>
    first.isAlphanum && rest.all (fun c => c.isAlphanum || c = '.' || c = '_' || c = '@' || c = '\\' || c = '-') &&
      rest.length ≤ 63

structure Directory where
  host : String
  port : Int
  deriving DecidableEq

inductive Method where
  | locally
  | ldap (servers : List Directory)
  | radius (servers : List Directory)

structure Profile where
  method : Method
  allow : Option (List String)

structure Portal where
  authProfile : String
  loginLifetime : Int

/-- `authProfile` holds the profile of each gateway. -/
structure RawAccess where
  users : Dict String String
  profiles : Dict String Profile
  portals : Dict String Portal
  gateways : Dict String RawGateway
  authProfile : Dict String String

structure Access where
  users : Dict String String
  profiles : Dict String Profile
  portals : Dict String Portal
  gateways : Dict String Spec
  authProfile : Dict String String

def Access.profileOf (protect : Access) (gateway : String) : String := (protect.authProfile.lookup gateway).getD ""

def validServers (servers : List Directory) : Bool :=
  1 ≤ servers.length && servers.length ≤ 4 && servers.all fun server =>
    1 ≤ server.host.length && server.host.length ≤ 253 &&
      server.host.toList.all (fun c => c.isAlphanum || c = '.' || c = ':' || c = '-') && 1 ≤ server.port && server.port ≤ 65535

def validUser (user : String × String) : Bool := isName user.1.toList && user.2.startsWith "pbkdf2-sha256$"

def validProfile (profile : String × Profile) : Bool :=
  isName profile.1.toList && (profile.2.allow.getD []).all (fun user => isUsername user.toList) &&
    match profile.2.method with
    | .locally => true
    | .ldap servers => validServers servers
    | .radius servers => validServers servers

def validPortal (profiles : Dict String Profile) (portal : String × Portal) : Bool :=
  isName portal.1.toList && (profiles.lookup portal.2.authProfile).isSome && 60 ≤ portal.2.loginLifetime &&
    portal.2.loginLifetime ≤ 31536000

/-- `validate_intent`; `load` only logs what it raises. -/
def validateAccess (raw : RawAccess) : Option Access :=
  match validateIntent raw.gateways with
  | .error _ => none
  | .ok gateways =>
    if raw.users.items.all validUser && raw.profiles.items.all validProfile && raw.portals.items.all (validPortal raw.profiles) &&
        raw.gateways.items.all (fun gateway => ((raw.authProfile.lookup gateway.1).bind raw.profiles.lookup).isSome) then
      some ⟨raw.users, raw.profiles, raw.portals, gateways, raw.authProfile⟩
    else none

/-! ### The decision -/

structure Authenticator where
  profiles : Dict String Profile
  users : Dict String String
  failures : Dict String (List Int)

/-- A request for access. `now` is the time of day when a cookie is looked at, `clock` the
monotonic clock; `answers` is what a server says to this attempt, nothing if it cannot be
reached. -/
structure Credentials where
  user : String
  cookie : String
  password : String
  source : String
  now : Int
  clock : Int
  answers : Directory → Option Bool

inductive Verdict where
  | accepted
  | refused (detail : String)
  | failed (detail : String)
  deriving DecidableEq

namespace Authenticator

def init (profiles : Dict String Profile) (users : Dict String String) : Authenticator := ⟨profiles, users, ∅⟩

def limited (a : Authenticator) (key : String) (clock : Int) : Bool × Authenticator :=
  let recent := ((a.failures.lookup key).getD []).filter fun t => clock - t < failureWindow
  (failureLimit ≤ recent.length, { a with failures := a.failures.assign key recent })

def failed (a : Authenticator) (key : String) (clock : Int) : Authenticator :=
  { a with failures := a.failures.assign key ((a.failures.lookup key).getD [] ++ [clock]) }

def ask (servers : List Directory) (q : Credentials) (unreachable : String) : Verdict :=
  match servers.findSome? q.answers with
  | none => .failed unreachable
  | some true => .accepted
  | some false => .failed "invalid username or password"

variable (verifyPhash : String → String → Bool)

/-- The part of `check` after the limits. -/
def judge (a : Authenticator) (profileName : String) (q : Credentials) : Verdict :=
  match a.profiles.lookup profileName with
  | none => .refused "authentication profile missing"
  | some profile =>
    let allow := profile.allow.getD []
    if !allow.isEmpty && q.user ∉ allow then .failed "invalid username or password"
    else
      match profile.method with
      | .locally =>
        if (a.users.lookup q.user).any fun phash => verifyPhash phash q.password then .accepted
        else .failed "invalid username or password"
      | .ldap servers => ask servers q "directory unreachable"
      | .radius servers => ask servers q "authentication server unreachable"

def check (a : Authenticator) (profileName : String) (q : Credentials) : Verdict × Authenticator :=
  if !isUsername q.user.toList || 256 < q.password.length then (.refused "invalid username or password", a)
  else
    let (source, a) := a.limited ("source:" ++ q.source) q.clock
    if source then (.refused "too many failed attempts", a)
    else
      let (user, a) := a.limited ("user:" ++ q.user) q.clock
      if user then (.refused "too many failed attempts", a) else (a.judge verifyPhash profileName q, a)

end Authenticator

/-- The user is on the allow list, where there is one, and a local user, where the profile
checks the local users. -/
def Admits (profiles : Dict String Profile) (users : Dict String String) (profileName user : String) : Prop :=
  ∃ profile, profiles.lookup profileName = some profile ∧ (profile.allow.getD [] = [] ∨ user ∈ profile.allow.getD []) ∧
    (profile.method matches .locally → users.lookup user ≠ none)

def Authenticator.Admits (a : Authenticator) (profileName user : String) : Prop :=
  Protect.Admits a.profiles a.users profileName user

namespace Authenticator

variable {verifyPhash : String → String → Bool} {a : Authenticator} {profileName : String} {q : Credentials}

theorem judge_accepted (h : a.judge verifyPhash profileName q = .accepted) : a.Admits profileName q.user := by
  simp only [judge] at h
  split at h
  · cases h
  · rename_i profile found
    split at h
    · cases h
    · rename_i allowed
      have listed : profile.allow.getD [] = [] ∨ q.user ∈ profile.allow.getD [] := by
        simp only [Bool.and_eq_true, Bool.not_eq_true', List.isEmpty_eq_false_iff, decide_eq_true_eq, not_and, not_not] at allowed
        by_cases empty : profile.allow.getD [] = []
        · exact .inl empty
        · exact .inr (allowed empty)
      refine ⟨profile, found, listed, fun method => ?_⟩
      split at h
      · split at h
        · rename_i known
          intro missing
          rw [missing] at known
          cases known
        · cases h
      · rename_i servers ldap
        rw [ldap] at method
        cases method
      · rename_i servers radius
        rw [radius] at method
        cases method

theorem check_accepted (h : (a.check verifyPhash profileName q).1 = .accepted) : a.Admits profileName q.user := by
  simp only [check] at h
  split at h
  · cases h
  · split at h
    · cases h
    · split at h
      · cases h
      · exact judge_accepted (a := ((a.limited _ _).2.limited _ _).2) h

theorem check_kept :
    (a.check verifyPhash profileName q).2.profiles = a.profiles ∧ (a.check verifyPhash profileName q).2.users = a.users := by
  simp only [check]
  split
  · exact ⟨rfl, rfl⟩
  · split
    · exact ⟨rfl, rfl⟩
    · split <;> exact ⟨rfl, rfl⟩

end Authenticator

end FfnNgfw.Protect
