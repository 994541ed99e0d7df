import FfnNgfw.Protect.Front

/-!
# Revocation

A user that the profile of a gateway no longer accepts after a reload logs in there only with
a portal cookie that has not expired; `load` leaves the cookies alone.
-/

namespace FfnNgfw.Protect

open Threads

/-! ### What the operations below do -/

def Op.opens : Op → Bool
  | .login _ _ _ _ => true
  | .newSession _ _ _ _ => true
  | .allocate _ _ _ _ => true
  | _ => false

def Daemon.roll (d : Daemon) : Dict String Nat × List String := (d.gateways, d.objects.map (·.name))

section below

variable {t : Nat} {d d' : Daemon} {op : Op} {more : List Op}

theorem roll_editGateway (g : Nat) {f : GatewayState → GatewayState} (same : ∀ o, (f o).name = o.name) :
    (d.editGateway g f).roll = d.roll := by
  have kept : ∀ o : GatewayState, (f o).name = id o.name := same
  simp [Daemon.roll, Daemon.editGateway, map_modify kept, List.modify_id]

/-- Such an operation changes neither which sessions there are nor the roll, and calls for
nothing that would. -/
structure Calm (d d' : Daemon) (more : List Op) : Prop where
  heap : ∀ r, d.heap r = none → d'.heap r = none
  roll : d'.roll = d.roll
  opens : ∀ o ∈ more, o.opens = false
  loads : ∀ o ∈ more, o.loads = false

theorem heap_editSession {r r' : Ref} {f : Session → Session} (h : d.heap r' = none) : (d.editSession r f).heap r' = none := by
  by_cases same : r' = r
  · subst same
    simp [Daemon.editSession, h]
  · simp [Daemon.editSession, Function.update_of_ne same, h]

theorem calm_nil : Calm d d [] := ⟨fun _ h => h, rfl, List.forall_mem_nil _, List.forall_mem_nil _⟩

theorem calm_next {next : Op} (opens : next.opens = false) (loads : next.loads = false) : Calm d d [next] :=
  ⟨fun _ h => h, rfl, List.forall_mem_singleton.mpr opens, List.forall_mem_singleton.mpr loads⟩

theorem calm_session {r : Ref} {f : Session → Session} (opens : ∀ o ∈ more, o.opens = false) (loads : ∀ o ∈ more, o.loads = false) :
    Calm d (d.editSession r f) more := ⟨fun _ => heap_editSession, rfl, opens, loads⟩

theorem calm_worker {g : Nat} {f : Worker → Worker} (opens : ∀ o ∈ more, o.opens = false) (loads : ∀ o ∈ more, o.loads = false) :
    Calm d (editWorker d g f) more := ⟨fun _ h => h, roll_editGateway g fun _ => rfl, opens, loads⟩

theorem calm_ends {g : Nat} {ids : List Nat} : Calm d d (endAll g ids) := by
  refine ⟨fun _ h => h, rfl, fun o member => ?_, fun o member => ?_⟩
  · obtain ⟨id, -, rfl⟩ := mem_endAll member
    rfl
  · obtain ⟨id, -, rfl⟩ := mem_endAll member
    rfl

theorem calm_ends_then {g : Nat} {ids : List Nat} {last : Op} (opens : last.opens = false) (loads : last.loads = false) :
    Calm d d (endAll g ids ++ [last]) := by
  refine ⟨fun _ h => h, rfl, fun o member => ?_, fun o member => ?_⟩
  · rcases List.mem_append.mp member with ended | single
    · exact calm_ends.opens (d := d) o ended
    · rw [List.mem_singleton.mp single]
      exact opens
  · rcases List.mem_append.mp member with ended | single
    · exact calm_ends.loads (d := d) o ended
    · rw [List.mem_singleton.mp single]
      exact loads

theorem authorisedBy_calm {g : Nat} {name : String} {r : Ref} {kind : Request} (s : Session) :
    Calm d d (authorisedBy d g name r kind s) := by
  unfold authorisedBy
  split
  · split
    · exact calm_next rfl rfl
    · exact calm_next rfl rfl
    · exact ⟨fun _ h => h, rfl, by simp [Op.opens], by simp [Op.loads]⟩
  · exact calm_nil

theorem whenClosed_calm {r : Ref} {closing : Closing} (s : Session) : Calm d d (whenClosed r closing s) := by
  unfold whenClosed
  split
  · exact calm_nil
  · split <;> exact calm_next rfl rfl

theorem exec_calm (opens : op.opens = false) (loads : op.loads = false) (h : exec t d op = some (d', more)) : Calm d d' more := by
  cases op with
  | load intent => cases loads
  | stopGateways names protect => cases loads
  | startGateways specs => cases loads
  | endSessions g =>
    rcases onGateway_cases h with ⟨-, rfl, rfl⟩ | ⟨o, -, done⟩
    · exact calm_nil
    · cases done
      exact calm_ends_then rfl rfl
  | stopWorker g =>
    cases h
    exact calm_worker (List.forall_mem_nil _) (List.forall_mem_nil _)
  | tick name due =>
    simp only [exec] at h
    split at h
    · cases h
      exact calm_nil
    · rcases onGateway_cases h with ⟨-, rfl, rfl⟩ | ⟨o, -, done⟩
      · exact calm_nil
      · cases done
        exact calm_ends
  | login name user source preferred => cases opens
  | request name r kind =>
    simp only [exec] at h
    split at h
    · cases h
      exact calm_nil
    · cases h
      exact calm_next rfl rfl
  | authorised g name r kind =>
    simp only [exec] at h
    split at h
    · rcases onSession_cases h with ⟨-, rfl, rfl⟩ | ⟨s, -, done⟩
      · exact calm_nil
      · cases done
        exact authorisedBy_calm s
    · cases h
  | newSession g user source preferred => cases opens
  | allocate g user source preferred => cases opens
  | addCookie r =>
    simp only [exec] at h
    split at h
    · cases h
      exact ⟨fun _ h => h, rfl, List.forall_mem_nil _, List.forall_mem_nil _⟩
    · cases h
  | endSession r =>
    rcases onSession_cases h with ⟨-, rfl, rfl⟩ | ⟨s, -, done⟩
    · exact calm_nil
    · cases done
      exact calm_next rfl rfl
  | mark r gateway =>
    rcases onSession_cases h with ⟨-, rfl, rfl⟩ | ⟨s, -, done⟩
    · exact calm_nil
    · split at done
      · cases done
      · split at done
        · cases done
          exact calm_nil
        · cases done
          exact calm_session (List.forall_mem_singleton.mpr rfl) (List.forall_mem_singleton.mpr rfl)
  | dropCookie r gateway =>
    simp only [exec] at h
    split at h
    · cases h
      cases gateway with
      | none => exact ⟨fun _ h => h, rfl, List.forall_mem_nil _, List.forall_mem_nil _⟩
      | some g => exact ⟨fun _ h => h, rfl, List.forall_mem_singleton.mpr rfl, List.forall_mem_singleton.mpr rfl⟩
    · cases h
  | release r g =>
    rcases onSession_cases h with ⟨-, rfl, rfl⟩ | ⟨s, -, done⟩
    · exact calm_nil
    · cases done
      exact ⟨fun _ h => h, roll_editGateway g fun _ => rfl, List.forall_mem_singleton.mpr rfl, List.forall_mem_singleton.mpr rfl⟩
  | cleanUp r g =>
    rcases onSession_cases h with ⟨-, rfl, rfl⟩ | ⟨s, -, done⟩
    · exact calm_nil
    · cases done
      split
      · exact calm_next rfl rfl
      · exact calm_nil
  | workerDel r g =>
    cases h
    exact calm_worker (List.forall_mem_singleton.mpr rfl) (List.forall_mem_singleton.mpr rfl)
  | routeDel r g =>
    rcases onSession_cases h with ⟨-, rfl, rfl⟩ | ⟨s, -, done⟩
    · exact calm_nil
    · cases done
      exact calm_worker (List.forall_mem_nil _) (List.forall_mem_nil _)
  | closed r closing =>
    rcases onSession_cases h with ⟨-, rfl, rfl⟩ | ⟨s, -, done⟩
    · exact calm_nil
    · cases done
      exact whenClosed_calm s
  | setResult r text =>
    cases h
    exact calm_session (List.forall_mem_nil _) (List.forall_mem_nil _)
  | register esp r g =>
    rcases onSession_cases h with ⟨-, rfl, rfl⟩ | ⟨s, -, done⟩
    · exact calm_nil
    · unfold registerIn at done
      split at done
      · cases done
        split <;> exact calm_session (List.forall_mem_singleton.mpr rfl) (List.forall_mem_singleton.mpr rfl)
      · cases done
  | againDel esp r g =>
    cases h
    cases esp <;> exact calm_worker (List.forall_mem_singleton.mpr rfl) (List.forall_mem_singleton.mpr rfl)
  | againRoute r g | routeAdd r g =>
    rcases onSession_cases h with ⟨-, rfl, rfl⟩ | ⟨s, -, done⟩
    · exact calm_nil
    · cases done
      exact calm_worker (List.forall_mem_singleton.mpr rfl) (List.forall_mem_singleton.mpr rfl)
  | againClear r g =>
    cases h
    exact calm_session (List.forall_mem_singleton.mpr rfl) (List.forall_mem_singleton.mpr rfl)
  | workerAdd r g =>
    cases h
    exact calm_worker (List.forall_mem_singleton.mpr rfl) (List.forall_mem_singleton.mpr rfl)
  | registered r =>
    cases h
    exact calm_session (List.forall_mem_nil _) (List.forall_mem_nil _)

theorem exec_opening (opens : op.opens = true) (h : exec t d op = some (d', more)) :
    d'.roll = d.roll ∧ ∀ o ∈ more, o.loads = false := by
  cases op with
  | login name user source preferred =>
    simp only [exec] at h
    split at h
    · cases h
      exact ⟨rfl, List.forall_mem_nil _⟩
    · cases h
      exact ⟨rfl, List.forall_mem_singleton.mpr rfl⟩
  | newSession g user source preferred =>
    rcases onGateway_cases h with ⟨-, rfl, rfl⟩ | ⟨o, -, done⟩
    · exact ⟨rfl, List.forall_mem_nil _⟩
    · cases done
      refine ⟨rfl, fun o member => ?_⟩
      rcases List.mem_append.mp member with ended | last
      · exact calm_ends.loads (d := d) o ended
      · rw [List.mem_singleton.mp last]
        rfl
  | allocate g user source preferred =>
    rcases onGateway_cases h with ⟨-, rfl, rfl⟩ | ⟨o, -, done⟩
    · exact ⟨rfl, List.forall_mem_nil _⟩
    · unfold allocateIn at done
      split at done
      · cases done
        exact ⟨rfl, List.forall_mem_nil _⟩
      · split at done
        · cases done
          exact ⟨rfl, List.forall_mem_nil _⟩
        · rename_i clientIp pool given
          cases done
          have same : (d.editGateway g fun o =>
              { o with pool := pool, sessions := o.sessions ++ [o.nextId], nextId := o.nextId + 1 }).roll = d.roll :=
            roll_editGateway g fun _ => rfl
          exact ⟨same, List.forall_mem_singleton.mpr rfl⟩
  | _ => cases opens

theorem exec_roll (loads : op.loads = false) (h : exec t d op = some (d', more)) :
    d'.roll = d.roll ∧ ∀ o ∈ more, o.loads = false := by
  cases opens : op.opens with
  | false =>
    have calm := exec_calm opens loads h
    exact ⟨calm.roll, calm.loads⟩
  | true => exact exec_opening opens h

inductive Roll (d : Daemon) : Op → Dict String Nat × List String → Prop where
  | same {op : Op} : (∀ name spec rest, op ≠ .startGateways ((name, spec) :: rest)) → Roll d op d.roll
  | stop {name : String} {rest : List String} {protect : Dict String Spec} :
      Roll d (.stopGateways (name :: rest) protect) (d.roll.1.erase name, d.roll.2)
  | respec {name : String} {spec : Spec} {rest : List (String × Spec)} {g : Nat} : d.gateways.lookup name = some g →
      Roll d (.startGateways ((name, spec) :: rest)) d.roll
  | start {name : String} {spec : Spec} {rest : List (String × Spec)} : d.gateways.lookup name = none →
      Roll d (.startGateways ((name, spec) :: rest)) (d.roll.1.assign name d.objects.length, d.roll.2 ++ [name])

theorem exec_turn (h : exec t d op = some (d', more)) : Roll d op d'.roll := by
  cases op with
  | stopGateways names protect =>
    simp only [exec, Option.some.injEq] at h
    cases names with
    | nil =>
      cases h
      exact .same (by simp)
    | cons name rest =>
      simp only [stopNext] at h
      split at h
      · cases h
        exact .same (by simp)
      · split at h
        · cases h
          exact .stop
        · cases h
          exact .same (by simp)
  | startGateways specs =>
    simp only [exec, Option.some.injEq] at h
    cases specs with
    | nil =>
      cases h
      exact .same (by simp)
    | cons item rest =>
      obtain ⟨name, spec⟩ := item
      simp only [startNext] at h
      split at h
      · rename_i g found
        cases h
        have same : (d.editGateway g fun o => { o with spec := spec }).roll = d.roll := roll_editGateway g fun _ => rfl
        rw [same]
        exact .respec found
      · rename_i absent
        cases h
        have started : (d.startGateway name spec).roll = (d.roll.1.assign name d.objects.length, d.roll.2 ++ [name]) := by
          simp [Daemon.roll, Daemon.startGateway, GatewayState.init]
        rw [started]
        exact .start absent
  | load intent =>
    simp only [exec, loadIntent] at h
    split at h
    · cases h
      exact .same (by simp)
    · split at h
      · cases h
        exact .same (by simp)
      · cases h
  | _ =>
    rw [(exec_roll rfl h).1]
    exact .same (by simp)

end below

/-! ### Every run -/

def Named (roll : Dict String Nat × List String) : Prop := ∀ name k, roll.1.lookup name = some k → roll.2[k]? = some name

def Op.fits (protect : Access) : Op → Prop
  | .load _ => False
  | .stopGateways _ specs => specs = protect.gateways
  | .startGateways items => ∀ item ∈ items, protect.gateways.lookup item.1 = some item.2
  | _ => True

def FrontOp.fits (t : Nat) : FrontOp → Prop
  | .load _ => t = 0
  | .reload protect op => t = 0 ∧ op.fits protect
  | .serve op => op.loads = false
  | _ => True

def Authenticator.rules (a : Authenticator) : Dict String Profile × Dict String String := (a.profiles, a.users)

/-- The profiles and users of all authenticators there have been; the failures they count
are left aside. -/
def Front.staff (d : Front) : List (Dict String Profile × Dict String String) := d.authenticators.map Authenticator.rules

/-- A profile accepts the user, or did when its authenticator was the one in force. -/
def Vouched (d : Front) (user : String) : Prop := ∃ a ∈ d.staff, ∃ profileName, Admits a.1 a.2 profileName user

def FrontOp.vouched (d : Front) : FrontOp → Prop
  | .issue _ ticket => Vouched d ticket.user
  | _ => True

structure Reached (c : Config Front FrontOp) : Prop where
  named : Named c.shared.daemon.roll
  present : c.shared.staff ≠ []
  fits : ∀ t, ∀ op ∈ c.todo t, op.fits t
  cookies : ∀ token ticket, c.shared.portalCookies.lookup token = some ticket → Vouched c.shared ticket.user
  vouched : ∀ t, ∀ op ∈ c.todo t, op.vouched c.shared

theorem Roll.named {d : Daemon} {op : Op} {roll : Dict String Nat × List String} (turn : Roll d op roll) (h : Named d.roll) :
    Named roll := by
  cases turn with
  | same _ => exact h
  | @stop name rest protect =>
    intro n k found
    by_cases same : n = name
    · subst same
      simp at found
    · rw [AList.lookup_erase_ne same] at found
      exact h n k found
  | respec _ => exact h
  | @start name spec rest absent =>
    intro n k found
    dsimp only at found ⊢
    rw [Dict.lookup_assign] at found
    have length : d.roll.2.length = d.objects.length := List.length_map _
    split at found
    · rename_i same
      cases found
      rw [same, ← length, List.getElem?_concat_length]
    · have before := h n k found
      rw [List.getElem?_append_left (List.getElem?_eq_some_iff.mp before).1]
      exact before

section front

variable {verifyPhash : String → String → Bool} {t : Nat} {d d' : Front} {op : FrontOp} {more : List FrontOp}

theorem staff_set {a : Nat} {x y : Authenticator} (there : d.authenticators[a]? = some x) (same : y.rules = x.rules) :
    ({ d with authenticators := d.authenticators.set a y } : Front).staff = d.staff := by
  apply List.ext_getElem?
  intro i
  simp only [Front.staff, List.getElem?_map, List.getElem?_set]
  by_cases here : a = i
  · subst here
    rw [if_pos rfl, if_pos (List.getElem?_eq_some_iff.mp there).1, there, Option.map_some, Option.map_some, same]
  · rw [if_neg here]

variable {protect : Access} {intent : RawAccess} {calls : List Op} {o : FrontOp}

theorem fits_of_quiet {o : Op} (h : o.loads = false) : o.fits protect := by
  cases o <;> trivial

theorem exec_follow_fits {d d' : Daemon} {o : Op} {more : List Op} (fits : o.fits protect)
    (h : exec t d o = some (d', more)) : ∀ next ∈ more, next.fits protect := by
  cases o with
  | load intent => exact fits.elim
  | stopGateways names specs =>
    simp only [exec, Option.some.injEq] at h
    cases names with
    | nil =>
      cases h
      refine List.forall_mem_singleton.mpr fun item member => ?_
      rw [← (show specs = protect.gateways from fits)]
      exact Dict.mem_items.mp member
    | cons name rest =>
      simp only [stopNext] at h
      split at h
      · cases h
        exact List.forall_mem_singleton.mpr fits
      · split at h
        · cases h
          exact List.forall_mem_cons.mpr ⟨trivial, List.forall_mem_singleton.mpr fits⟩
        · cases h
          exact List.forall_mem_singleton.mpr fits
  | startGateways specs =>
    simp only [exec, Option.some.injEq] at h
    cases specs with
    | nil =>
      cases h
      exact List.forall_mem_nil _
    | cons item rest =>
      simp only [startNext] at h
      split at h <;> cases h <;> exact List.forall_mem_singleton.mpr (List.forall_mem_cons.mp fits).2
  | _ => exact fun next member => fits_of_quiet ((exec_roll rfl h).2 next member)

theorem validateAccess_ok (h : validateAccess intent = some protect) :
    ∃ gateways, validateIntent intent.gateways = .ok gateways ∧
      protect = ⟨intent.users, intent.profiles, intent.portals, gateways, intent.authProfile⟩ := by
  unfold validateAccess at h
  split at h
  · cases h
  · rename_i gateways valid
    split at h
    · cases h
      exact ⟨gateways, valid, rfl⟩
    · cases h

theorem load_calls {d d' : Daemon} {more : List Op}
    (valid : validateAccess intent = some protect) (h : exec t d (.load intent.gateways) = some (d', more)) :
    ∃ names, more = [.stopGateways names protect.gateways] := by
  obtain ⟨gateways, accepted, rfl⟩ := validateAccess_ok valid
  simp only [exec, loadIntent, accepted] at h
  split at h
  · cases h
    exact ⟨_, rfl⟩
  · cases h

theorem mem_reload (h : o ∈ calls.map (.reload protect)) :
    ∃ next ∈ calls, o = .reload protect next := by
  obtain ⟨next, member, same⟩ := List.mem_map.mp h
  exact ⟨next, member, same.symm⟩

theorem mem_serve (h : o ∈ calls.map .serve) : ∃ next ∈ calls, o = .serve next := by
  obtain ⟨next, member, same⟩ := List.mem_map.mp h
  exact ⟨next, member, same.symm⟩

def FrontOp.handles : FrontOp → Bool
  | .load _ => false
  | .reload _ _ => false
  | .issue _ _ => false
  | .serve op => !op.loads
  | _ => true

inductive Served (t : Nat) (d : Front) : FrontOp → Front → List FrontOp → Prop where
  | refused {intent : RawAccess} : validateAccess intent = none → Served t d (.load intent) d []
  | load {intent : RawAccess} {protect : Access} {below : Daemon} {names : List String} : validateAccess intent = some protect →
      below.roll = d.daemon.roll →
      Served t d (.load intent) { d with daemon := below, authenticators := d.authenticators ++ [.init protect.profiles protect.users] }
        [.reload protect (.stopGateways names protect.gateways)]
  | reload {protect : Access} {op : Op} {below : Daemon} {calls : List Op} : exec t d.daemon op = some (below, calls) →
      Served t d (.reload protect op) { d.install protect op with daemon := below } (calls.map (.reload protect))
  | serve {op : Op} {below : Daemon} {calls : List Op} : exec t d.daemon op = some (below, calls) →
      Served t d (.serve op) { d with daemon := below } (calls.map .serve)
  | expire {now : Int} {expired : List (String × Ticket)} :
      Served t d (.expire now) { d with portalCookies := expired.foldl (fun cookies item => cookies.erase item.1) d.portalCookies } []
  | stay {op : FrontOp} {more : List FrontOp} : op.handles = true → (∀ o ∈ more, o.handles = true) → Served t d op d more
  | checked {a : Nat} {profileName : String} {q : Credentials} {grant : Grant} {x y : Authenticator} {more : List FrontOp} :
      d.authenticators[a]? = some x → y.rules = x.rules →
      (more = [grant.op q] ∧ x.Admits profileName q.user ∨ ∀ o ∈ more, o = .failed a q) →
      Served t d (.check a profileName q grant) { d with authenticators := d.authenticators.set a y } more
  | failed {a : Nat} {q : Credentials} {f : Authenticator → Authenticator} : (∀ x, (f x).rules = x.rules) →
      Served t d (.failed a q) { d with authenticators := d.authenticators.modify a f } []
  | issue {token : String} {ticket : Ticket} :
      Served t d (.issue token ticket) { d with portalCookies := d.portalCookies.assign token ticket } []

theorem load_roll {below : Daemon}
    (h : exec t d.daemon (.load intent.gateways) = some (below, calls)) : below.roll = d.daemon.roll := by
  have turn := exec_turn h
  generalize below.roll = roll at turn ⊢
  cases turn
  rfl

theorem checked_served {a : Nat} {profileName : String} {q : Credentials} {grant : Grant}
    (h : checked verifyPhash d a profileName q grant = (d', more)) : Served t d (.check a profileName q grant) d' more := by
  simp only [checked] at h
  split at h
  · cases h
    exact .stay rfl (List.forall_mem_nil _)
  · rename_i x found
    cases h
    refine .checked found (Prod.ext Authenticator.check_kept.1 Authenticator.check_kept.2) ?_
    split
    · rename_i accepted
      exact .inl ⟨rfl, Authenticator.check_accepted accepted⟩
    · exact .inr (List.forall_mem_nil _)
    · exact .inr (List.forall_mem_singleton.mpr rfl)

theorem attend_served (h : attend verifyPhash t d op = some (d', more)) : Served t d op d' more := by
  cases op with
  | load intent =>
    simp only [attend] at h
    split at h
    · rename_i invalid
      cases h
      exact .refused invalid
    · rename_i protect valid
      obtain ⟨⟨below, calls⟩, done, same⟩ := Option.map_eq_some_iff.mp h
      cases same
      obtain ⟨names, rfl⟩ := load_calls valid done
      exact .load valid (load_roll done)
  | reload protect op =>
    obtain ⟨⟨below, calls⟩, done, same⟩ := Option.map_eq_some_iff.mp h
    cases same
    exact .reload done
  | expire now =>
    simp only [attend] at h
    split at h
    · cases h
      exact .expire
    · cases h
  | portalConfig name q token issued | login name q preferred =>
    simp only [attend] at h
    split at h
    · cases h
      exact .stay rfl (List.forall_mem_nil _)
    · cases h
      exact .stay rfl (List.forall_mem_singleton.mpr rfl)
  | portalCookie name portal q token issued =>
    simp only [attend] at h
    split at h
    · cases h
      refine .stay rfl ?_
      split
      · exact List.forall_mem_nil _
      · exact List.forall_mem_singleton.mpr rfl
    · cases h
  | portalAuth name portal q token issued =>
    cases h
    exact .stay rfl (List.forall_mem_singleton.mpr rfl)
  | loginCookie g q preferred =>
    simp only [attend] at h
    split at h
    · cases h
      refine .stay rfl (List.forall_mem_singleton.mpr ?_)
      split <;> rfl
    · cases h
  | loginAuth g q preferred =>
    cases h
    exact .stay rfl (List.forall_mem_singleton.mpr rfl)
  | loginProfile a g q preferred =>
    cases h
    exact .stay rfl (List.forall_mem_singleton.mpr rfl)
  | check a profileName q grant => exact checked_served (Option.some.inj h)
  | failed a q =>
    cases h
    exact .failed fun _ => rfl
  | issue token ticket =>
    simp only [attend] at h
    split at h
    · cases h
      exact .issue
    · cases h
  | serve op =>
    obtain ⟨⟨below, calls⟩, done, same⟩ := Option.map_eq_some_iff.mp h
    cases same
    exact .serve done

theorem handles_fits (h : o.handles = true) : o.fits t := by
  cases o with
  | serve op =>
    have quiet : op.loads = false := by simpa [FrontOp.handles] using h
    exact quiet
  | load intent => cases h
  | reload protect op => cases h
  | _ => trivial

theorem handles_vouched (h : o.handles = true) : o.vouched d := by
  cases o with
  | issue token ticket => cases h
  | _ => trivial

theorem lookup_expired {cookies : Dict String Ticket} {expired : List (String × Ticket)} {token : String} {ticket : Ticket}
    (h : (expired.foldl (fun cookies item => cookies.erase item.1) cookies).lookup token = some ticket) :
    cookies.lookup token = some ticket := by
  induction expired generalizing cookies with
  | nil => exact h
  | cons item rest ih =>
    have after := ih h
    by_cases same : token = item.1
    · rw [same, AList.lookup_erase] at after
      cases after
    · rwa [AList.lookup_erase_ne same] at after

section served

variable (h : Served t d op d' more)

include h

theorem Served.staff : d'.staff = d.staff ∨
    ∃ intent protect, op = .load intent ∧ validateAccess intent = some protect ∧
      d'.staff = d.staff ++ [(protect.profiles, protect.users)] := by
  cases h with
  | load valid _ => exact .inr ⟨_, _, rfl, valid, by simp [Front.staff, Authenticator.rules, Authenticator.init]⟩
  | @reload protect op below calls done =>
    refine .inl ?_
    simp only [Front.install]
    split <;> rfl
  | checked found same _ => exact .inl (staff_set found same)
  | failed same =>
    have same : ∀ x, Authenticator.rules _ = id (Authenticator.rules x) := same
    exact .inl (by simp [Front.staff, map_modify same, List.modify_id])
  | _ => exact .inl rfl

theorem Served.turn (fits : op.fits t) :
    (d'.daemon.roll = d.daemon.roll ∧ d'.authProfile = d.authProfile) ∨
    ∃ protect o, op = .reload protect o ∧ Roll d.daemon o d'.daemon.roll ∧ d'.authProfile = (d.install protect o).authProfile := by
  cases h with
  | load _ same => exact .inl ⟨same, rfl⟩
  | reload done => exact .inr ⟨_, _, rfl, exec_turn done, rfl⟩
  | serve done => exact .inl ⟨(exec_roll fits done).1, rfl⟩
  | _ => exact .inl ⟨rfl, rfl⟩

theorem Served.fits (fits : op.fits t) : ∀ o ∈ more, o.fits t := by
  cases h with
  | load _ _ => exact List.forall_mem_singleton.mpr ⟨fits, rfl⟩
  | reload done =>
    intro o member
    obtain ⟨next, called, rfl⟩ := mem_reload member
    exact ⟨fits.1, exec_follow_fits fits.2 done next called⟩
  | serve done =>
    intro o member
    obtain ⟨next, called, rfl⟩ := mem_serve member
    exact (exec_roll fits done).2 next called
  | stay _ handles => exact fun o member => handles_fits (handles o member)
  | @checked a profileName q grant _ _ _ _ _ calls =>
    rcases calls with ⟨rfl, -⟩ | failed
    · refine List.forall_mem_singleton.mpr ?_
      cases grant <;> trivial
    · intro o member
      rw [failed o member]
      trivial
  | _ => exact List.forall_mem_nil _

theorem Served.mono {user : String} (vouched : Vouched d user) : Vouched d' user := by
  obtain ⟨a, member, profileName, admits⟩ := vouched
  refine ⟨a, ?_, profileName, admits⟩
  rcases h.staff with same | ⟨intent, protect, -, -, same⟩
  · rw [same]
    exact member
  · rw [same]
    exact List.mem_append_left _ member

theorem Served.vouched : ∀ o ∈ more, o.vouched d' := by
  have again := h
  cases h with
  | refused _ => exact List.forall_mem_nil _
  | load _ _ => exact List.forall_mem_singleton.mpr trivial
  | reload done =>
    intro o member
    obtain ⟨next, -, rfl⟩ := mem_reload member
    trivial
  | serve done =>
    intro o member
    obtain ⟨next, -, rfl⟩ := mem_serve member
    trivial
  | stay _ handles => exact fun o member => handles_vouched (handles o member)
  | @checked a profileName q grant x _ _ found _ calls =>
    rcases calls with ⟨rfl, accepted⟩ | failed
    · refine List.forall_mem_singleton.mpr ?_
      cases grant with
      | session g preferred => trivial
      | cookie token portal expires =>
        have member : x.rules ∈ d.staff := List.mem_map_of_mem (List.mem_of_getElem? found)
        exact again.mono ⟨x.rules, member, profileName, accepted⟩
    · intro o member
      rw [failed o member]
      trivial
  | _ => exact List.forall_mem_nil _

theorem Served.cookies {token : String} {ticket : Ticket} (found : d'.portalCookies.lookup token = some ticket) :
    d.portalCookies.lookup token = some ticket ∨ op = .issue token ticket := by
  cases h with
  | @reload protect op below calls done =>
    have same : (d.install protect op).portalCookies = d.portalCookies := by
      simp only [Front.install]
      split <;> rfl
    rw [← same]
    exact .inl found
  | expire => exact .inl (lookup_expired found)
  | @issue token' ticket' =>
    dsimp only at found
    rw [Dict.lookup_assign] at found
    split at found
    · rename_i same
      cases found
      exact .inr (same ▸ rfl)
    · exact .inl found
  | _ => exact .inl found

end served

end front

section runs

variable {verifyPhash : String → String → Bool} {c c' : Config Front FrontOp} {a : Act FrontOp} {acts : List (Act FrontOp)}

theorem mem_started {todo : Nat → List FrontOp} {t t' : Nat} {job op : FrontOp} (h : op ∈ Function.update todo t [job] t') :
    op ∈ todo t' ∨ (t' = t ∧ op = job) := by
  by_cases same : t' = t
  · subst same
    rw [Function.update_self] at h
    exact .inr ⟨rfl, List.mem_singleton.mp h⟩
  · rw [Function.update_of_ne same] at h
    exact .inl h

theorem welcomes_fits {t : Nat} {job : FrontOp} (h : welcomes t job = true) :
    job.fits t ∧ ∀ d, job.vouched d := by
  cases job with
  | load intent => exact ⟨show t = 0 from of_decide_eq_true h, fun _ => trivial⟩
  | serve op => cases op <;> first | exact ⟨rfl, fun _ => trivial⟩ | cases h
  | portalConfig _ _ _ _ => exact ⟨trivial, fun _ => trivial⟩
  | login _ _ _ => exact ⟨trivial, fun _ => trivial⟩
  | expire _ => exact ⟨trivial, fun _ => trivial⟩
  | _ => cases h

theorem opening_reached : Reached opening where
  named := by intro name k found; simp [opening, Front.init, Daemon.init, Daemon.roll] at found
  present := by simp [opening, Front.init, Front.staff]
  fits := fun _ => List.forall_mem_nil _
  cookies := by intro token ticket found; simp [opening, Front.init] at found
  vouched := fun _ => List.forall_mem_nil _

theorem Reached.step (h : Reached c) (step : (front verifyPhash).step c a = some c') : Reached c' := by
  cases a with
  | start t job =>
    obtain ⟨idle, taken, rfl⟩ := Machine.step_start step
    refine ⟨h.named, h.present, fun t' op member => ?_, h.cookies, fun t' op member => ?_⟩
    · rcases mem_started member with before | ⟨rfl, rfl⟩
      · exact h.fits t' op before
      · exact (welcomes_fits taken).1
    · rcases mem_started member with before | ⟨rfl, rfl⟩
      · exact h.vouched t' op before
      · exact (welcomes_fits taken).2 _
  | run t =>
    obtain ⟨op, rest, d, more, next, done, rfl⟩ := Machine.step_run step
    have done : Served t c.shared op d more := attend_served done
    have fits := h.fits t op (Machine.head_mem next)
    refine ⟨?_, ?_, fun t' o member => ?_, fun token ticket found => ?_, fun t' o member => ?_⟩
    · rcases done.turn fits with ⟨same, -⟩ | ⟨protect, o, -, turn, -⟩
      · exact same ▸ h.named
      · exact turn.named h.named
    · rcases done.staff with same | ⟨intent, protect, -, -, same⟩
      · exact same ▸ h.present
      · exact same ▸ List.append_ne_nil_of_left_ne_nil h.present _
    · rcases Machine.mem_after next member with ⟨before, -⟩ | ⟨rfl, new⟩
      · exact h.fits t' o before
      · exact done.fits fits o new
    · rcases done.cookies found with before | rfl
      · exact done.mono (h.cookies token ticket before)
      · have vouched : Vouched c.shared ticket.user := h.vouched t _ (Machine.head_mem next)
        exact done.mono vouched
    · rcases Machine.mem_after next member with ⟨before, -⟩ | ⟨rfl, new⟩
      · have vouched := h.vouched t' o before
        cases o with
        | issue token ticket => exact done.mono vouched
        | _ => trivial
      · exact done.vouched o new

theorem reached_run (h : Reached c) (run : (front verifyPhash).run c acts = some c') : Reached c' := by
  induction acts generalizing c with
  | nil =>
    cases run
    exact h
  | cons a rest ih =>
    obtain ⟨next, first, later⟩ := Option.bind_eq_some_iff.mp run
    exact ih (h.step first) later

end runs

/-! ### Keeping a user out -/

section shut

variable (names : List String) (name user : String)

/-- None of the profiles accepts the user, and the gateway has one of them. -/
structure Access.Keeps (protect : Access) : Prop where
  out : ∀ profileName ∈ names, ¬Admits protect.profiles protect.users profileName user
  given : protect.gateways.lookup name ≠ none → protect.profileOf name ∈ names

def FrontOp.keeps : FrontOp → Prop
  | .load intent => ∀ protect, validateAccess intent = some protect → protect.Keeps names name user
  | .reload protect _ => protect.Keeps names name user
  | _ => True

/-- The authenticator `a` accepts the user under none of the profiles. -/
def Barred (d : Front) (a : Nat) : Prop :=
  ∃ x, d.staff[a]? = some x ∧ ∀ profileName ∈ names, ¬Admits x.1 x.2 profileName user

def Holds (d : Front) (g : Nat) : Prop := d.daemon.roll.2[g]? = some name ∧ d.authProfile g ∈ names

def InForce (d : Front) : Prop := ∀ g, d.daemon.gateways.lookup name = some g → Holds names name d g

structure Shut (c : Config Front FrontOp) : Prop where
  reached : Reached c
  keeps : ∀ t, ∀ op ∈ c.todo t, op.keeps names name user
  barred : Barred names user c.shared c.shared.authenticator
  inForce : InForce names name c.shared

variable {names name user} {verifyPhash : String → String → Bool} {t : Nat} {d d' : Front} {op : FrontOp} {more : List FrontOp}

theorem Barred.mono {a : Nat} (h : Barred names user d a) (step : Served t d op d' more) : Barred names user d' a := by
  obtain ⟨x, found, out⟩ := h
  refine ⟨x, ?_, out⟩
  rcases step.staff with same | ⟨intent, protect, -, -, same⟩
  · rw [same]
    exact found
  · rw [same, List.getElem?_append_left (List.getElem?_eq_some_iff.mp found).1]
    exact found

theorem Barred.step (keeps : op.keeps names name user) (h : Barred names user d d.authenticator)
    (step : Served t d op d' more) : Barred names user d' d'.authenticator := by
  have last : ∀ d : Front, d.authenticator = d.staff.length - 1 := fun d => by simp [Front.authenticator, Front.staff]
  rcases step.staff with same | ⟨intent, protect, rfl, valid, same⟩
  · have again := h.mono step
    rwa [last, ← same, ← last] at again
  · refine ⟨(protect.profiles, protect.users), ?_, (keeps protect valid).out⟩
    rw [last, same]
    simp

variable {protect : Access}

theorem install_profile {o : Op} {g : Nat} (names : (d.install protect o).authProfile g ≠ d.authProfile g) :
    ∃ name spec rest, o = .startGateways ((name, spec) :: rest) ∧
      g = (d.daemon.gateways.lookup name).getD d.daemon.objects.length ∧
        (d.install protect o).authProfile g = protect.profileOf name := by
  revert names
  simp only [Front.install]
  split
  · exact fun differs => absurd rfl differs
  · rename_i name spec rest
    intro differs
    by_cases same : g = (d.daemon.gateways.lookup name).getD d.daemon.objects.length
    · refine ⟨name, spec, rest, rfl, same, ?_⟩
      rw [same]
      exact Function.update_self ..
    · exact absurd (Function.update_of_ne same ..) differs
  · exact fun differs => absurd rfl differs

theorem Holds.step {g : Nat} (named : Named d.daemon.roll) (fits : op.fits t) (keeps : op.keeps names name user)
    (h : Holds names name d g) (step : Served t d op d' more) : Holds names name d' g := by
  rcases step.turn fits with ⟨same, profiles⟩ | ⟨protect, o, rfl, turn, profiles⟩
  · exact ⟨same ▸ h.1, profiles ▸ h.2⟩
  · have bound : g < d.daemon.objects.length := by
      have inside := (List.getElem?_eq_some_iff.mp h.1).1
      simpa [Daemon.roll] using inside
    have name' : d'.daemon.roll.2[g]? = some name := by
      generalize d'.daemon.roll = roll at turn
      cases turn with
      | start _ =>
        rw [List.getElem?_append_left (by simpa [Daemon.roll] using bound)]
        exact h.1
      | _ => exact h.1
    refine ⟨name', ?_⟩
    rw [profiles]
    by_cases unchanged : (d.install protect o).authProfile g = d.authProfile g
    · rw [unchanged]
      exact h.2
    · obtain ⟨other, spec, rest, rfl, place, profile⟩ := install_profile unchanged
      cases found : d.daemon.gateways.lookup other with
      | none =>
        rw [found, Option.getD_none] at place
        omega
      | some k =>
        rw [found, Option.getD_some] at place
        subst place
        have same : other = name := Option.some.inj ((named other g found).symm.trans h.1)
        subst same
        have there := (List.forall_mem_cons.mp fits.2).1
        rw [profile]
        exact keeps.given (by rw [there]; simp)

theorem inForce_start {spec : Spec} {rest : List (String × Spec)} (named : Named d.daemon.roll)
    (fits : Op.fits protect (.startGateways ((name, spec) :: rest))) (keeps : protect.Keeps names name user)
    (step : Served t d (.reload protect (.startGateways ((name, spec) :: rest))) d' more) :
    InForce names name d' := by
  have given : protect.profileOf name ∈ names := by
    have there := (List.forall_mem_cons.mp fits).1
    exact keeps.given (by rw [there]; simp)
  obtain ⟨below, turn, roll, profile⟩ : ∃ below, Roll d.daemon (.startGateways ((name, spec) :: rest)) below ∧ d'.daemon.roll = below ∧
      d'.authProfile = Function.update d.authProfile ((d.daemon.gateways.lookup name).getD d.daemon.objects.length)
        (protect.profileOf name) := by
    cases step with
    | reload done => exact ⟨_, exec_turn done, rfl, rfl⟩
    | stay handles => cases handles
  intro g found
  have found : below.1.lookup name = some g := roll ▸ found
  rw [Holds, roll, profile]
  cases turn with
  | same other => exact absurd rfl (other name spec rest)
  | respec before =>
    refine ⟨named name g found, ?_⟩
    cases before.symm.trans found
    rw [before, Option.getD_some, Function.update_self]
    exact given
  | start before =>
    rw [Dict.lookup_assign, if_pos rfl] at found
    cases found
    have length : d.daemon.roll.2.length = d.daemon.objects.length := List.length_map _
    rw [before, Option.getD_none, Function.update_self, ← length, List.getElem?_concat_length]
    exact ⟨rfl, given⟩

theorem InForce.step (named : Named d.daemon.roll) (fits : op.fits t) (keeps : op.keeps names name user)
    (h : InForce names name d) (step : Served t d op d' more) : InForce names name d' := by
  have before {g : Nat} (found : d.daemon.gateways.lookup name = some g) : Holds names name d' g :=
    (h g found).step named fits keeps step
  rcases step.turn fits with ⟨same, -⟩ | ⟨protect, o, rfl, turn, -⟩
  · intro g found
    have gateways : d'.daemon.gateways = d.daemon.gateways := congrArg Prod.fst same
    exact before (gateways ▸ found)
  · by_cases own : ∃ spec rest, o = .startGateways ((name, spec) :: rest)
    · obtain ⟨spec, rest, rfl⟩ := own
      exact inForce_start named fits.2 keeps step
    · intro g found
      have found : d'.daemon.roll.1.lookup name = some g := found
      refine before ?_
      generalize d'.daemon.roll = roll at turn found
      cases turn with
      | same _ => exact found
      | @stop stopped rest specs =>
        by_cases same : name = stopped
        · subst same
          simp at found
        · rwa [AList.lookup_erase_ne same] at found
      | respec _ => exact found
      | @start other spec rest _ =>
        rw [Dict.lookup_assign, if_neg] at found
        · exact found
        · rintro rfl
          exact own ⟨spec, rest, rfl⟩

theorem Served.keeps (keeps : op.keeps names name user) (h : Served t d op d' more) : ∀ o ∈ more, o.keeps names name user := by
  have handled {o : FrontOp} (handles : o.handles = true) : o.keeps names name user := by
    cases o with
    | load intent => cases handles
    | reload protect op => cases handles
    | _ => trivial
  cases h with
  | load valid _ => exact List.forall_mem_singleton.mpr (keeps _ valid)
  | reload done =>
    intro o member
    obtain ⟨next, -, rfl⟩ := mem_reload member
    exact keeps
  | serve done =>
    intro o member
    obtain ⟨next, -, rfl⟩ := mem_serve member
    trivial
  | stay _ handles => exact fun o member => handled (handles o member)
  | @checked a profileName q grant _ _ _ _ _ calls =>
    rcases calls with ⟨rfl, -⟩ | failed
    · refine List.forall_mem_singleton.mpr ?_
      cases grant <;> trivial
    · intro o member
      rw [failed o member]
      trivial
  | _ => exact List.forall_mem_nil _

theorem Reached.quiet {c : Config Front FrontOp} (h : Reached c) {t : Nat} (other : t ≠ 0) : ∀ op ∈ c.todo t,
    op.keeps names name user := by
  intro op member
  have fits := h.fits t op member
  cases op with
  | load intent => exact absurd fits other
  | reload protect op => exact absurd fits.1 other
  | _ => trivial

/-- The intents that the run goes on to load keep the user out, too. -/
def Later (names : List String) (name user : String) (acts : List (Act FrontOp)) : Prop :=
  ∀ t intent, .start t (.load intent) ∈ acts → FrontOp.keeps names name user (.load intent)

theorem Shut.step {c c' : Config Front FrontOp} {a : Act FrontOp} (h : Shut names name user c)
    (later : ∀ t intent, a = .start t (.load intent) → FrontOp.keeps names name user (.load intent))
    (step : (front verifyPhash).step c a = some c') : Shut names name user c' := by
  have reached := h.reached.step step
  cases a with
  | start t job =>
    obtain ⟨idle, taken, rfl⟩ := Machine.step_start step
    refine ⟨reached, fun t' op member => ?_, h.barred, h.inForce⟩
    rcases mem_started member with before | ⟨-, rfl⟩
    · exact h.keeps t' op before
    · cases op with
      | load intent => exact later t intent rfl
      | reload protect op => cases taken
      | _ => trivial
  | run t =>
    obtain ⟨op, rest, d, more, next, done, rfl⟩ := Machine.step_run step
    have done : Served t c.shared op d more := attend_served done
    have fits := h.reached.fits t op (Machine.head_mem next)
    have keeps := h.keeps t op (Machine.head_mem next)
    refine ⟨reached, fun t' o member => ?_, h.barred.step keeps done, h.inForce.step h.reached.named fits keeps done⟩
    rcases Machine.mem_after next member with ⟨before, -⟩ | ⟨rfl, new⟩
    · exact h.keeps t' o before
    · exact done.keeps keeps o new

def Due (protect : Access) (name : String) (op : FrontOp) : Prop :=
  (∃ names, op = .reload protect (.stopGateways names protect.gateways)) ∨
  ∃ items spec, op = .reload protect (.startGateways items) ∧ (name, spec) ∈ items

theorem stop_calls {d d' : Daemon} {stops : List String} {specs : Dict String Spec} {calls : List Op}
    (h : exec t d (.stopGateways stops specs) = some (d', calls)) :
    (∃ rest, .stopGateways rest specs ∈ calls) ∨ .startGateways specs.items ∈ calls := by
  simp only [exec, Option.some.injEq] at h
  cases stops with
  | nil =>
    cases h
    exact .inr (by simp)
  | cons stopped rest =>
    refine .inl ⟨rest, ?_⟩
    simp only [stopNext] at h
    split at h
    · cases h
      simp
    · split at h <;> cases h <;> simp

theorem start_calls {d d' : Daemon} {item : String × Spec} {rest : List (String × Spec)} {calls : List Op}
    (h : exec t d (.startGateways (item :: rest)) = some (d', calls)) : .startGateways rest ∈ calls := by
  simp only [exec, Option.some.injEq, startNext] at h
  split at h <;> cases h <;> simp

theorem Due.step (there : protect.gateways.lookup name ≠ none) (keeps : protect.Keeps names name user)
    (named : Named d.daemon.roll) (fits : op.fits t) (due : Due protect name op) (step : Served t d op d' more) :
    InForce names name d' ∨ ∃ o ∈ more, Due protect name o := by
  rcases due with ⟨stops, rfl⟩ | ⟨items, spec, rfl, member⟩
  · cases step with
    | stay handles => cases handles
    | @reload _ _ below calls done =>
      rcases stop_calls done with ⟨rest, again⟩ | start
      · exact .inr ⟨_, List.mem_map_of_mem again, .inl ⟨rest, rfl⟩⟩
      · obtain ⟨spec, found⟩ := Option.ne_none_iff_exists'.mp there
        exact .inr ⟨_, List.mem_map_of_mem start, .inr ⟨_, spec, rfl, Dict.mem_items.mpr found⟩⟩
  · cases items with
    | nil => cases member
    | cons item rest =>
      by_cases same : item.1 = name
      · obtain ⟨first, spec'⟩ := item
        cases same
        exact .inl (inForce_start named fits.2 keeps step)
      · rcases List.mem_cons.mp member with rfl | later
        · exact absurd rfl same
        · cases step with
          | stay handles => cases handles
          | @reload _ _ below calls done =>
            exact .inr ⟨_, List.mem_map_of_mem (start_calls done), .inr ⟨rest, spec, rfl, later⟩⟩

structure Loading (names : List String) (name user : String) (intent : RawAccess) (protect : Access) (c : Config Front FrontOp) :
    Prop where
  reached : Reached c
  keeps : ∀ t, ∀ op ∈ c.todo t, op.keeps names name user
  phase : c.todo 0 = [.load intent] ∨
    Barred names user c.shared c.shared.authenticator ∧ (InForce names name c.shared ∨ ∃ op ∈ c.todo 0, Due protect name op)

theorem Loading.step {intent : RawAccess} {c c' : Config Front FrontOp} {a : Act FrontOp}
    (valid : validateAccess intent = some protect) (there : protect.gateways.lookup name ≠ none)
    (out : protect.Keeps names name user) (h : Loading names name user intent protect c) (only : ∀ job, a ≠ .start 0 job)
    (step : (front verifyPhash).step c a = some c') : Loading names name user intent protect c' := by
  have reached := h.reached.step step
  cases a with
  | start t job =>
    obtain ⟨idle, taken, rfl⟩ := Machine.step_start step
    have other : t ≠ 0 := fun same => only job (same ▸ rfl)
    have main : Function.update c.todo t [job] 0 = c.todo 0 := Function.update_of_ne (Ne.symm other) ..
    refine ⟨reached, fun t' op member => ?_, ?_⟩
    · rcases mem_started member with before | ⟨-, rfl⟩
      · exact h.keeps t' op before
      · cases op with
        | load intent => exact absurd (show t = 0 from of_decide_eq_true taken) other
        | reload protect op => cases taken
        | _ => trivial
    · dsimp only
      rw [main]
      exact h.phase
  | run t =>
    obtain ⟨op, rest, d, more, next, done, rfl⟩ := Machine.step_run step
    have done : Served t c.shared op d more := attend_served done
    have fits := h.reached.fits t op (Machine.head_mem next)
    have keeps := h.keeps t op (Machine.head_mem next)
    refine ⟨reached, fun t' o member => ?_, ?_⟩
    · rcases Machine.mem_after next member with ⟨before, -⟩ | ⟨rfl, new⟩
      · exact h.keeps t' o before
      · exact done.keeps keeps o new
    · dsimp only
      rcases h.phase with first | ⟨barred, rest'⟩
      · by_cases main : t = 0
        · subst main
          rw [first] at next
          cases next
          rw [Function.update_self]
          cases done with
          | refused invalid => cases invalid.symm.trans valid
          | stay handles => cases handles
          | @load _ protect' below names' valid' same =>
            cases valid'.symm.trans valid
            refine .inr ⟨⟨(protect.profiles, protect.users), ?_, out.out⟩,
              .inr ⟨_, List.mem_append_left _ List.mem_cons_self, .inl ⟨_, rfl⟩⟩⟩
            simp [Front.authenticator, Front.staff, Authenticator.rules, Authenticator.init]
        · rw [Function.update_of_ne (Ne.symm main)]
          exact .inl first
      · refine .inr ⟨barred.step keeps done, ?_⟩
        rcases rest' with inForce | ⟨due, member, waiting⟩
        · exact .inl (inForce.step h.reached.named fits keeps done)
        · rcases Machine.mem_before next more member with still | ⟨rfl, rfl⟩
          · exact .inr ⟨due, still, waiting⟩
          · rcases waiting.step there out h.reached.named fits done with inForce | ⟨o, called, again⟩
            · exact .inl inForce
            · refine .inr ⟨o, ?_, again⟩
              rw [Function.update_self]
              exact List.mem_append_left _ called

theorem shut_run {c c' : Config Front FrontOp} {acts : List (Act FrontOp)} (h : Shut names name user c)
    (later : Later names name user acts) (run : (front verifyPhash).run c acts = some c') : Shut names name user c' := by
  induction acts generalizing c with
  | nil =>
    cases run
    exact h
  | cons a rest ih =>
    obtain ⟨next, first, others⟩ := Option.bind_eq_some_iff.mp run
    have now : Shut names name user next := h.step (fun t intent same => later t intent (same ▸ List.mem_cons_self)) first
    exact ih now (fun t intent member => later t intent (List.mem_cons_of_mem _ member)) others

/-- What the thread that handles the login may have to do: it has found the gateway and an
authenticator that keeps the user out, or opens nothing. -/
def FrontOp.waits (names : List String) (name : String) (q : Credentials) (d : Front) : FrontOp → Prop
  | .login gateway q' _ => gateway = name ∧ q' = q
  | .loginCookie g q' _ => q' = q ∧ Holds names name d g
  | .loginAuth g q' _ => q' = q ∧ Holds names name d g
  | .loginProfile a g q' _ => q' = q ∧ Holds names name d g ∧ Barred names q.user d a
  | .check a profileName q' _ => q' = q ∧ Barred names q.user d a ∧ profileName ∈ names
  | .failed _ _ => True
  | .serve op => op.opens = false ∧ op.loads = false
  | _ => False

variable {q : Credentials}

theorem waits_mono {o : FrontOp} (named : Named d.daemon.roll) (fits : op.fits t) (keeps : op.keeps names name q.user)
    (step : Served t d op d' more) (h : o.waits names name q d) : o.waits names name q d' := by
  cases o with
  | login gateway q' preferred => exact h
  | loginCookie g q' preferred => exact ⟨h.1, h.2.step named fits keeps step⟩
  | loginAuth g q' preferred => exact ⟨h.1, h.2.step named fits keeps step⟩
  | loginProfile a g q' preferred => exact ⟨h.1, h.2.1.step named fits keeps step, h.2.2.mono step⟩
  | check a profileName q' grant => exact ⟨h.1, h.2.1.mono step, h.2.2⟩
  | failed a q' => trivial
  | serve op => exact h
  | _ => exact h.elim

theorem check_barred {a : Nat} {profileName : String} {x : Authenticator} (h : Barred names q.user d a) (member : profileName ∈ names)
    (found : d.authenticators[a]? = some x) : (x.check verifyPhash profileName q).1 ≠ .accepted := by
  intro accepted
  obtain ⟨y, there, out⟩ := h
  have same : d.staff[a]? = some x.rules := by simp [Front.staff, found]
  cases there.symm.trans same
  exact out profileName member (Authenticator.check_accepted accepted)

theorem waits_step (inForce : InForce names name d) (barred : Barred names q.user d d.authenticator) (h : op.waits names name q d)
    (none : ∀ g preferred, op = .loginCookie g q preferred → d.shows q = none) (step : attend verifyPhash t d op = some (d', more)) :
    ∀ o ∈ more, o.waits names name q d := by
  cases op with
  | login gateway q' preferred =>
    obtain ⟨rfl, rfl⟩ := h
    simp only [attend] at step
    split at step
    · cases step
      exact List.forall_mem_nil _
    · rename_i g found
      cases step
      exact List.forall_mem_singleton.mpr ⟨rfl, inForce g found⟩
  | loginCookie g q' preferred =>
    obtain ⟨rfl, holds⟩ := h
    simp only [attend, none g preferred rfl] at step
    split at step
    · cases step
      exact List.forall_mem_singleton.mpr ⟨rfl, holds⟩
    · cases step
  | loginAuth g q' preferred =>
    cases step
    exact List.forall_mem_singleton.mpr ⟨h.1, h.2, barred⟩
  | loginProfile a g q' preferred =>
    cases step
    exact List.forall_mem_singleton.mpr ⟨h.1, h.2.2, h.2.1.2⟩
  | check a profileName q' grant =>
    obtain ⟨rfl, out, member⟩ := h
    simp only [attend, Option.some.injEq, checked] at step
    split at step
    · cases step
      exact List.forall_mem_nil _
    · rename_i x found
      have refused : (x.check verifyPhash _ q').1 ≠ .accepted := check_barred out member found
      cases step
      split
      · rename_i accepted
        exact absurd accepted refused
      · exact List.forall_mem_nil _
      · exact List.forall_mem_singleton.mpr trivial
  | failed a q' =>
    cases step
    exact List.forall_mem_nil _
  | serve op =>
    obtain ⟨⟨below, calls⟩, done, same⟩ := Option.map_eq_some_iff.mp step
    cases same
    have calm := exec_calm h.1 h.2 done
    intro o member
    obtain ⟨next, called, rfl⟩ := mem_serve member
    exact ⟨calm.opens next called, calm.loads next called⟩
  | _ => exact h.elim

theorem waits_heap (h : op.waits names name q d) (step : attend verifyPhash t d op = some (d', more)) {r : Ref}
    (absent : d.daemon.heap r = none) : d'.daemon.heap r = none := by
  cases op with
  | serve op =>
    obtain ⟨⟨below, calls⟩, done, same⟩ := Option.map_eq_some_iff.mp step
    cases same
    exact (exec_calm h.1 h.2 done).heap r absent
  | login gateway q' preferred =>
    simp only [attend] at step
    split at step <;> cases step <;> exact absent
  | loginCookie g q' preferred =>
    simp only [attend] at step
    split at step
    · cases step
      exact absent
    · cases step
  | check a profileName q' grant =>
    simp only [attend, Option.some.injEq, checked] at step
    split at step <;> cases step <;> exact absent
  | loginAuth g q' preferred =>
    cases step
    exact absent
  | loginProfile a g q' preferred =>
    cases step
    exact absent
  | failed a q' =>
    cases step
    exact absent
  | _ => exact h.elim

def Looks (t : Nat) (q : Credentials) (c : Config Front FrontOp) : Prop :=
  ∃ g preferred rest, c.todo t = .loginCookie g q preferred :: rest

theorem waiting_step {c c' : Config Front FrontOp} {a : Act FrontOp} {t : Nat} (h : Shut names name q.user c)
    (waits : ∀ op ∈ c.todo t, op.waits names name q c.shared) (none : Looks t q c → c.shared.shows q = none)
    (only : ∀ job, a ≠ .start t job)
    (step : (front verifyPhash).step c a = some c') : ∀ op ∈ c'.todo t, op.waits names name q c'.shared := by
  intro o member
  cases a with
  | start t' job =>
    obtain ⟨-, -, rfl⟩ := Machine.step_start step
    rcases mem_started member with before | ⟨rfl, -⟩
    · exact waits o before
    · exact absurd rfl (only job)
  | run t' =>
    obtain ⟨op, rest, d, more, next, done, rfl⟩ := Machine.step_run step
    have done : attend verifyPhash t' c.shared op = some (d, more) := done
    have fits := h.reached.fits t' op (Machine.head_mem next)
    have keeps := h.keeps t' op (Machine.head_mem next)
    refine waits_mono h.reached.named fits keeps (attend_served done) ?_
    rcases Machine.mem_after next member with ⟨before, -⟩ | ⟨rfl, new⟩
    · exact waits o before
    · refine waits_step h.inForce h.barred (waits op (Machine.head_mem next)) (fun g preferred same => ?_) done o new
      exact none ⟨g, preferred, rest, same ▸ next⟩

end shut

/-! ### The law -/

section law

variable (verifyPhash : String → String → Bool)

/-- `load` has gone through with the intent, and the main thread has done nothing since. -/
def Installed (intent : RawAccess) (c : Config Front FrontOp) : Prop :=
  ∃ before loading c₀ c₁, (front verifyPhash).run opening before = some c₀ ∧
    (front verifyPhash).step c₀ (.start 0 (.load intent)) = some c₁ ∧ (front verifyPhash).run c₁ loading = some c ∧
    (∀ job, .start 0 job ∉ loading) ∧ c.todo 0 = []

/-- The next step of the thread creates a session of the user on the gateway. -/
def Creates (t : Nat) (name user : String) (c : Config Front FrontOp) : Prop :=
  ∃ c' r s, (front verifyPhash).step c (.run t) = some c' ∧ c.shared.daemon.heap r = none ∧
    c'.shared.daemon.heap r = some s ∧ s.user = user ∧ s.gateway = name

variable {verifyPhash} {names : List String} {name user : String}

theorem Installed.shut {intent : RawAccess} {protect : Access} {c : Config Front FrontOp} (h : Installed verifyPhash intent c)
    (valid : validateAccess intent = some protect) (there : protect.gateways.lookup name ≠ none)
    (out : protect.Keeps names name user) : Shut names name user c := by
  obtain ⟨before, loading, c₀, c₁, started, load, run, only, idle⟩ := h
  have reached : Reached c₀ := reached_run opening_reached started
  have first : Loading names name user intent protect c₁ := by
    refine ⟨reached.step load, fun t op member => ?_, ?_⟩
    · obtain ⟨-, -, rfl⟩ := Machine.step_start load
      rcases mem_started member with other | ⟨-, rfl⟩
      · by_cases main : t = 0
        · subst main
          rw [(Machine.step_start load).1] at other
          cases other
        · exact reached.quiet main op other
      · intro protect' valid'
        cases valid'.symm.trans valid
        exact out
    · obtain ⟨-, -, rfl⟩ := Machine.step_start load
      exact .inl (by simp)
  have loaded : Loading names name user intent protect c := by
    clear load started
    induction loading generalizing c₁ with
    | nil =>
      cases run
      exact first
    | cons a rest ih =>
      obtain ⟨next, step, others⟩ := Option.bind_eq_some_iff.mp run
      have stepped := first.step valid there out (fun job same => only job (same ▸ List.mem_cons_self)) step
      exact ih next others (fun job member => only job (List.mem_cons_of_mem _ member)) stepped
  rcases loaded.phase with busy | ⟨barred, inForce | ⟨op, member, -⟩⟩
  · rw [idle] at busy
    cases busy
  · exact ⟨loaded.reached, loaded.keeps, barred, inForce⟩
  · rw [idle] at member
    cases member

/-- Where the thread looks at the cookie, it is an unexpired one of the user, who was accepted
when it was issued. -/
def Shown (verifyPhash : String → String → Bool) (t : Nat) (q : Credentials) (c : Config Front FrontOp)
    (acts : List (Act FrontOp)) : Prop :=
  ∃ before c' ticket, before <+: acts ∧ (front verifyPhash).run c before = some c' ∧ Looks t q c' ∧
    c'.shared.shows q = some ticket ∧ Vouched c'.shared q.user

theorem shows_user {d : Front} {q : Credentials} {ticket : Ticket} (h : d.shows q = some ticket) :
    d.portalCookies.lookup q.cookie = some ticket ∧ ticket.user = q.user := by
  unfold Front.shows at h
  split at h
  · obtain ⟨found, fits⟩ := Option.filter_eq_some_iff.mp h
    exact ⟨found, (of_decide_eq_true fits).1⟩
  · cases h

theorem shown_here {q : Credentials} {t : Nat} {c : Config Front FrontOp} {ticket : Ticket} (acts : List (Act FrontOp))
    (h : Reached c) (looks : Looks t q c) (shows : c.shared.shows q = some ticket) : Shown verifyPhash t q c acts := by
  obtain ⟨found, same⟩ := shows_user shows
  exact ⟨[], c, ticket, List.nil_prefix, rfl, looks, shows, same ▸ h.cookies _ _ found⟩

theorem waiting_run {q : Credentials} {t : Nat} {c c' : Config Front FrontOp} {acts : List (Act FrontOp)}
    (h : Shut names name q.user c) (waits : ∀ op ∈ c.todo t, op.waits names name q c.shared) (later : Later names name q.user acts)
    (only : ∀ job, .start t job ∉ acts) (run : (front verifyPhash).run c acts = some c') :
    Shown verifyPhash t q c acts ∨ ∀ op ∈ c'.todo t, op.waits names name q c'.shared := by
  induction acts generalizing c with
  | nil =>
    cases run
    exact .inr waits
  | cons a rest ih =>
    by_cases shows : Looks t q c ∧ ∃ ticket, c.shared.shows q = some ticket
    · obtain ⟨looks, ticket, shows⟩ := shows
      exact .inl (shown_here _ h.reached looks shows)
    · have none : Looks t q c → c.shared.shows q = none := by
        intro looks
        by_contra some'
        exact shows ⟨looks, Option.ne_none_iff_exists'.mp some'⟩
      obtain ⟨next, first, others⟩ := Option.bind_eq_some_iff.mp run
      have now : Shut names name q.user next := h.step (fun t intent same => later t intent (same ▸ List.mem_cons_self)) first
      have still := waiting_step h waits none (fun job same => only job (same ▸ List.mem_cons_self)) first
      rcases ih now still (fun t intent member => later t intent (List.mem_cons_of_mem _ member))
        (fun job member => only job (List.mem_cons_of_mem _ member)) others with ⟨before, c'', ticket, early, reach, shown⟩ | refused
      · refine .inl ⟨a :: before, c'', ticket, List.cons_prefix_cons.mpr ⟨rfl, early⟩, ?_, shown⟩
        rw [Machine.run, first]
        exact reach
      · exact .inr refused

/-- After a reload that puts a user out of a gateway, and while later ones keep the user out, a
login there creates a session for the user only if it shows a portal cookie that was issued
to the user, who was accepted then, and that has not expired. -/
theorem revoked_needs_cookie {intent : RawAccess} {protect : Access} {c c₁ c₂ c₃ : Config Front FrontOp} {t : Nat} {q : Credentials}
    {preferred : Option UInt32} {acts serving : List (Act FrontOp)} (installed : Installed verifyPhash intent c)
    (valid : validateAccess intent = some protect) (there : protect.gateways.lookup name ≠ none)
    (out : protect.Keeps names name q.user) (later : Later names name q.user (acts ++ serving))
    (run : (front verifyPhash).run c acts = some c₁)
    (asks : (front verifyPhash).step c₁ (.start t (.login name q preferred)) = some c₂)
    (serves : (front verifyPhash).run c₂ serving = some c₃) (only : ∀ job, .start t job ∉ serving)
    (creates : Creates verifyPhash t name q.user c₃) : Shown verifyPhash t q c₂ serving := by
  have shut : Shut names name q.user c₁ :=
    shut_run (installed.shut valid there out) (fun t intent member => later t intent (List.mem_append_left _ member)) run
  have asked : Shut names name q.user c₂ := shut.step (by rintro t intent ⟨⟩) asks
  have waits : ∀ op ∈ c₂.todo t, op.waits names name q c₂.shared := by
    obtain ⟨-, -, rfl⟩ := Machine.step_start asks
    dsimp only
    rw [Function.update_self]
    exact List.forall_mem_singleton.mpr ⟨rfl, rfl⟩
  rcases waiting_run asked waits (fun t intent member => later t intent (List.mem_append_right _ member)) only serves with
    shown | waits
  · exact shown
  · obtain ⟨c', r, s, step, absent, present, -⟩ := creates
    obtain ⟨op, rest, d, more, next, done, rfl⟩ := Machine.step_run step
    have still := waits_heap (waits op (Machine.head_mem next)) done absent
    cases still.symm.trans present

end law

/-! A user gets a cookie from the portal and is then removed from the local users; the cookie
still opens a session. -/

def annHash : String := "pbkdf2-sha256$1000$AAECAwQFBgcICQoLDA0ODw==$aevghbexzC3BA5lXCTam+bgliJkC9icwuXWcCKZxj40="

def annCookie : String := "9b1d7c2e40f58a63d7e61f0c3b924e85a0c7d2f1864b3e597a1c08d4f6e2b35d"

def staffOf (users : Dict String String) : RawAccess where
  users := users
  profiles := (∅ : Dict String Profile).assign "staff" ⟨.locally, none⟩
  portals := (∅ : Dict String Portal).assign "main" ⟨"staff", 2592000⟩
  gateways := (∅ : Dict String RawGateway).assign "gw"
    ⟨"p1", .text "192.0.2.1", "tunnel.1", .text "10.0.0.254/24", none, [[.text "10.0.0.1", .text "10.0.0.9"]]⟩
  authProfile := (∅ : Dict String String).assign "gw" "staff"

def isAnn (phash password : String) : Bool := phash = annHash && password = "pw"

def annAsks (cookie password : String) (now : Int) : Credentials := ⟨"ann", cookie, password, "198.51.100.7", now, now, fun _ => none⟩

def annReceives : List (Act FrontOp) :=
  .start 0 (.load (staffOf ((∅ : Dict String String).assign "ann" annHash))) :: List.replicate 4 (.run 0) ++
  .start 1 (.portalConfig "main" (annAsks "" "pw" 1000) annCookie 1000) :: List.replicate 5 (.run 1)

theorem cookie_outlives : ∃ c c₁ c₂, Installed isAnn (staffOf ∅) c ∧
    (front isAnn).step c (.start 2 (.login "gw" (annAsks annCookie "" 2000) none)) = some c₁ ∧
    (front isAnn).run c₁ (List.replicate 3 (.run 2)) = some c₂ ∧ Creates isAnn 2 "gw" "ann" c₂ := by
  have history : ((front isAnn).run opening annReceives).bind (fun c₀ =>
      ((front isAnn).step c₀ (.start 0 (.load (staffOf ∅)))).bind fun c₁ =>
      ((front isAnn).run c₁ (List.replicate 5 (.run 0))).bind fun c =>
      ((front isAnn).step c (.start 2 (.login "gw" (annAsks annCookie "" 2000) none))).bind fun c₂ =>
      ((front isAnn).run c₂ (List.replicate 3 (.run 2))).bind fun c₃ =>
      ((front isAnn).step c₃ (.run 2)).bind fun c₄ =>
      (c₄.shared.daemon.heap ⟨0, 1⟩).map fun s =>
        ((c.todo 0).isEmpty, (c₃.shared.daemon.heap ⟨0, 1⟩).isNone, s.user, s.gateway)) = some (true, true, "ann", "gw") := by
    decide +kernel
  obtain ⟨c₀, before, history⟩ := Option.bind_eq_some_iff.mp history
  obtain ⟨c₁, load, history⟩ := Option.bind_eq_some_iff.mp history
  obtain ⟨c, loading, history⟩ := Option.bind_eq_some_iff.mp history
  obtain ⟨c₂, asks, history⟩ := Option.bind_eq_some_iff.mp history
  obtain ⟨c₃, serves, history⟩ := Option.bind_eq_some_iff.mp history
  obtain ⟨c₄, creates, history⟩ := Option.bind_eq_some_iff.mp history
  obtain ⟨s, present, facts⟩ := Option.map_eq_some_iff.mp history
  simp only [Prod.mk.injEq, List.isEmpty_iff, Option.isNone_iff_eq_none] at facts
  obtain ⟨idle, absent, user, gateway⟩ := facts
  refine ⟨c, c₂, c₃, ⟨annReceives, _, c₀, c₁, before, load, loading, by simp, idle⟩, asks, serves, c₄, ⟨0, 1⟩, s, creates, absent,
    present, user, gateway⟩

theorem ann_not_admitted : ¬Admits (staffOf ∅).profiles (staffOf ∅).users "staff" "ann" := by
  rintro ⟨profile, found, -, known⟩
  have same : profile = ⟨.locally, none⟩ := (Option.some.inj found).symm
  subst same
  exact known rfl rfl

theorem staff_installs : ∃ protect, validateAccess (staffOf ∅) = some protect ∧ protect.gateways.lookup "gw" ≠ none ∧
    ¬Admits protect.profiles protect.users (protect.profileOf "gw") "ann" := by
  have valid : ((validateAccess (staffOf ∅)).map fun protect => (protect.gateways.lookup "gw").isSome) = some true := by decide +kernel
  obtain ⟨protect, valid, there⟩ := Option.map_eq_some_iff.mp valid
  refine ⟨protect, valid, Option.isSome_iff_ne_none.mp there, ?_⟩
  obtain ⟨gateways, -, rfl⟩ := validateAccess_ok valid
  exact ann_not_admitted

theorem cookie_shown : ∃ c c₁, Installed isAnn (staffOf ∅) c ∧
    (front isAnn).step c (.start 2 (.login "gw" (annAsks annCookie "" 2000) none)) = some c₁ ∧
    Shown isAnn 2 (annAsks annCookie "" 2000) c₁ (List.replicate 3 (.run 2)) := by
  obtain ⟨c, c₁, c₂, installed, asks, serves, creates⟩ := cookie_outlives
  obtain ⟨protect, valid, there, out⟩ := staff_installs
  have keeps : protect.Keeps [protect.profileOf "gw"] "gw" "ann" :=
    ⟨List.forall_mem_singleton.mpr out, fun _ => List.mem_singleton.mpr rfl⟩
  have later : Later [protect.profileOf "gw"] "gw" "ann" ([] ++ List.replicate 3 (.run 2)) := by
    intro t intent member
    simp at member
  exact ⟨c, c₁, installed, asks, revoked_needs_cookie installed valid there keeps later rfl asks serves (by simp) creates⟩

theorem revoked_logs_in : ¬∀ (verifyPhash : String → String → Bool) (intent : RawAccess) (protect : Access) (name : String)
    (q : Credentials) (preferred : Option UInt32) (t : Nat) (acts serving : List (Act FrontOp)) (c c₁ c₂ c₃ : Config Front FrontOp),
    Installed verifyPhash intent c → validateAccess intent = some protect → protect.gateways.lookup name ≠ none →
    ¬Admits protect.profiles protect.users (protect.profileOf name) q.user →
    (∀ t intent, .start t (.load intent) ∉ acts ++ serving) → (front verifyPhash).run c acts = some c₁ →
    (front verifyPhash).step c₁ (.start t (.login name q preferred)) = some c₂ →
    (front verifyPhash).run c₂ serving = some c₃ → (∀ job, .start t job ∉ serving) →
    ¬Creates verifyPhash t name q.user c₃ := by
  intro all
  obtain ⟨c, c₁, c₂, installed, asks, serves, creates⟩ := cookie_outlives
  obtain ⟨protect, valid, there, out⟩ := staff_installs
  exact all isAnn (staffOf ∅) protect "gw" (annAsks annCookie "" 2000) none 2 [] (List.replicate 3 (.run 2)) c c c₁ c₂ installed
    valid there out (by simp) rfl asks serves (by simp) creates

end FfnNgfw.Protect
