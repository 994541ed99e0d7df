import FfnNgfw.Dhcp.Intent
import Mathlib.Data.List.Induction
import Mathlib.Data.String.Basic
import Mathlib.Order.Bounds.Basic

/-!
# The convergence assessment

What the management plane says of the DHCP servers and of the FFN Protect portals and gateways
it has committed, from the status the dataplane reports, and the state of the whole. The fields
of a status have their types; one that is left out is absent. The digest of the committed
Protect intent is given, and so are the subsystems other than these two.
-/

namespace FfnNgfw.Runtime

inductive State where
  | converged
  | unavailable
  | pending
  | drift
  | failed
  deriving DecidableEq

/-- `RANK` -/
def State.rank : State → Nat
  | .converged => 0
  | .unavailable => 1
  | .pending => 2
  | .drift => 3
  | .failed => 4

structure Subsystem where
  id : String
  plane : String
  state : State
  summary : String
  details : List String
  deriving DecidableEq

section dictionaries

variable {V W : Type}

def byKey (a b : String × V) : Bool := a.1 ≤ b.1

/-- `sorted(d.items())` -/
def sortedItems (d : Dict String V) : List (String × V) := d.items.mergeSort byKey

/-- `==`, whatever the order of the entries. -/
def sameEntries (same : V → W → Bool) (a : Dict String V) (b : Dict String W) : Bool :=
  a.items.length = b.items.length && a.items.all fun item => (b.lookup item.1).any (same item.2)

/-- `sorted(set(a) - set(b))` -/
def missingKeys (a : Dict String V) (b : Dict String W) : List String :=
  ((sortedItems a).filter fun item => (b.lookup item.1).isNone).map Prod.fst

theorem mem_sortedItems {d : Dict String V} {k : String} {v : V} : (k, v) ∈ sortedItems d ↔ d.lookup k = some v :=
  List.mem_mergeSort.trans Dict.mem_items

theorem sortedItems_sorted (d : Dict String V) : (sortedItems d).Pairwise fun a b => a.1 < b.1 := by
  have ordered : (sortedItems d).Pairwise fun a b => a.1 ≤ b.1 := by
    have transitive : ∀ a b c : String × V, byKey a b → byKey b c → byKey a c := by
      intro a b c
      simpa [byKey] using le_trans
    have total : ∀ a b : String × V, byKey a b || byKey b a := by
      intro a b
      simpa [byKey] using le_total a.1 b.1
    exact (List.pairwise_mergeSort transitive total d.items).imp fun h => of_decide_eq_true h
  have distinct : (sortedItems d).Pairwise fun a b => a.1 ≠ b.1 := by
    have perm := (List.mergeSort_perm d.items byKey).map Prod.fst
    exact List.pairwise_map.mp (perm.nodup_iff.mpr d.items_nodup)
  exact (ordered.and distinct).imp fun h => lt_of_le_of_ne h.1 h.2

end dictionaries

/-! ### The DHCP servers -/

structure LiveServer where
  state : Option String
  detail : Option String
  bound : Nat

/-- `dhcp status`: the applied intent and the view of the daemon. -/
structure DhcpStatus where
  revision : Option Int
  servers : Dict String Dhcp.Spec
  running : Option (Option Int × Dict String LiveServer)

/-- What came back from the dataplane; without a configuration only an error. -/
inductive Observed (S : Type) where
  | none
  | error (text : String)
  | status (status : S)

def Observed.problem {S : Type} (fallback : String) : Observed S → String
  | .error text => String.ofList (text.toList.take 200)
  | _ => fallback

def sameSpec (a b : Dhcp.Spec) : Bool :=
  { a with reserved := b.reserved } = b && sameEntries (fun x y => x = y) a.reserved b.reserved

def listed (title : String) (names : List String) : List String :=
  if names.isEmpty then [] else [title ++ ", ".intercalate names]

/-- Where two intents differ: not applied, stale, or other than committed. -/
def differences (expected applied : Dict String Dhcp.Spec) : List String :=
  let changed := (sortedItems expected).filter fun item => (applied.lookup item.1).any fun spec => !sameSpec item.2 spec
  listed "not applied: " (missingKeys expected applied) ++ listed "stale on the dataplane: " (missingKeys applied expected) ++
    listed "differ: " (changed.map Prod.fst)

abbrev Finding := State × String

/-- `state = ...; details.append(...)`, or nothing when all is well. -/
def record (acc : State × List String) : Option Finding → State × List String
  | some (state, text) => (state, acc.2 ++ [text])
  | none => acc

def liveText (live : Option String × Option String) : String :=
  live.1.getD "not started" ++ (match live.2 with
    | some detail => if detail = "" then "" else " (" ++ detail ++ ")"
    | none => "")

def serverFinding (live : Dict String LiveServer) (item : String × Dhcp.Spec) : Option Finding :=
  let state := (live.lookup item.1).bind LiveServer.state
  let detail := (live.lookup item.1).bind LiveServer.detail
  if state ≠ some "serving" then
    some (if state = some "error" then .failed else .pending, item.2.interface ++ ": " ++ liveText (state, detail))
  else none

def dhcpSubsystem (state : State) (summary : String) (details : List String) : Subsystem :=
  ⟨"dhcp-server", "dp", state, summary, details⟩

def dhcpServer (committed : Except String (Dict String Dhcp.Spec)) (status : Observed DhcpStatus) : Subsystem :=
  match committed with
  | .error text => dhcpSubsystem .failed "Committed DHCP configuration does not compile" [String.ofList (text.toList.take 200)]
  | .ok expected =>
    if expected.items.isEmpty then dhcpSubsystem .converged "No DHCP servers committed" []
    else
      match status with
      | .status status =>
        if !sameEntries sameSpec status.servers expected then
          dhcpSubsystem .drift (toString expected.items.length ++ " committed DHCP server(s) differ from the dataplane intent")
            (differences expected status.servers)
        else
          match status.running with
          | none => dhcpSubsystem .pending "DHCP intent applied; the dataplane daemon is not running" []
          | some (revision, live) =>
            if revision ≠ status.revision then dhcpSubsystem .pending "DHCP daemon has not reloaded the applied intent" []
            else
              let found := ((sortedItems expected).map (serverFinding live)).foldl record (.converged, [])
              if found.1 ≠ .converged then
                dhcpSubsystem found.1 (toString found.2.length ++ " of " ++ toString expected.items.length ++
                  " DHCP server(s) not serving")
                  found.2
              else
                dhcpSubsystem .converged (toString expected.items.length ++ " DHCP server(s) serving")
                  ((sortedItems expected).map fun item =>
                    item.2.interface ++ ": " ++ toString ((live.lookup item.1).map LiveServer.bound |>.getD 0) ++ " bound")
      | observed => dhcpSubsystem .unavailable "Dataplane DHCP state is not observable" [observed.problem "no dhcp status"]

/-! ### FFN Protect -/

structure Portal where
  address : String

structure Gateway where
  address : String
  tunnel : String

/-- The committed portals and gateways, and the digest of the intent they are part of. -/
structure ProtectIntent where
  portals : Dict String Portal
  gateways : Dict String Gateway
  digest : String

structure LiveGateway where
  state : Option String
  detail : Option String

structure LiveListener where
  address : Option String
  portal : Option String
  gateway : Option String

structure ProtectRunning where
  revision : Option Int
  listeners : List LiveListener
  gateways : Dict String LiveGateway
  sessions : Nat

structure ProtectStatus where
  revision : Option Int
  digest : Option String
  running : Option ProtectRunning

def portalListening (listeners : List LiveListener) (address name : String) : Bool :=
  listeners.any fun l => l.address = some address && l.portal = some name

def gatewayListening (listeners : List LiveListener) (address name : String) : Bool :=
  listeners.any fun l => l.address = some address && l.gateway = some name

def portalFinding (running : ProtectRunning) (item : String × Portal) : Option Finding :=
  if !portalListening running.listeners item.2.address item.1 then
    some (.pending, "portal " ++ item.1 ++ ": not listening on " ++ item.2.address)
  else none

def gatewayFinding (running : ProtectRunning) (item : String × Gateway) : Option Finding :=
  let state := (running.gateways.lookup item.1).bind LiveGateway.state
  let detail := (running.gateways.lookup item.1).bind LiveGateway.detail
  if state ≠ some "up" then
    some (if state = some "error" then .failed else .pending, "gateway " ++ item.1 ++ ": " ++ liveText (state, detail))
  else if !gatewayListening running.listeners item.2.address item.1 then
    some (.pending, "gateway " ++ item.1 ++ ": not listening on " ++ item.2.address)
  else none

def protectSubsystem (state : State) (summary : String) (details : List String) : Subsystem :=
  ⟨"protect-gateway", "dp", state, summary, details⟩

def protectFindings (expected : ProtectIntent) (running : ProtectRunning) : List (Option Finding) :=
  (sortedItems expected.portals).map (portalFinding running) ++ (sortedItems expected.gateways).map (gatewayFinding running)

def protectGateway (committed : Except String ProtectIntent) (status : Observed ProtectStatus) : Subsystem :=
  match committed with
  | .error text =>
    protectSubsystem .failed "Committed FFN Protect configuration does not compile" [String.ofList (text.toList.take 200)]
  | .ok expected =>
    if expected.portals.items.isEmpty ∧ expected.gateways.items.isEmpty then
      protectSubsystem .converged "No FFN Protect portals or gateways committed" []
    else
      match status with
      | .status status =>
        if status.digest ≠ some expected.digest then
          protectSubsystem .drift "Committed FFN Protect configuration differs from the dataplane intent"
            ["dataplane holds revision " ++ (match status.revision with
              | some revision => toString revision
              | none => "None")]
        else
          match status.running with
          | none => protectSubsystem .pending "FFN Protect intent applied; the dataplane daemon is not running" []
          | some running =>
            if running.revision ≠ status.revision then
              protectSubsystem .pending "FFN Protect daemon has not reloaded the applied intent" []
            else
              let found := (protectFindings expected running).foldl record (.converged, [])
              if found.1 ≠ .converged then
                protectSubsystem found.1 (toString found.2.length ++ " FFN Protect problem(s)") found.2
              else
                protectSubsystem .converged (toString expected.portals.items.length ++ " portal(s) and " ++
                    toString expected.gateways.items.length ++ " gateway(s) serving, " ++ toString running.sessions ++ " session(s)")
                  ((sortedItems expected.gateways).map fun item => "gateway " ++ item.1 ++ ": " ++
                    item.2.tunnel ++ " on " ++ item.2.address)
      | observed => protectSubsystem .unavailable "Dataplane FFN Protect state is not observable" [observed.problem "no protect status"]

def worst : State → List Subsystem → State
  | state, [] => state
  | state, s :: rest => worst (if state.rank < s.state.rank then s.state else state) rest

def overall : List Subsystem → State
  | [] => .unavailable
  | s :: rest => worst s.state rest

structure Report where
  overall : State
  subsystems : List Subsystem
  actions : List String

/-- A collector fails with a text, which is then all that is observed. -/
def collected {S : Type} : Except String (Observed S) → Observed S
  | .ok status => status
  | .error text => .error (String.ofList (text.toList.take 200))

/-- The subsystems in the order they are checked, the replay of the commit first; what comes `before` and
`after` the two is given. -/
def assess (replay : Subsystem) (before after : List Subsystem) (servers : Except String (Dict String Dhcp.Spec))
    (protect : Except String ProtectIntent)
    (dhcp : Option (Except String (Observed DhcpStatus))) (gateway : Option (Except String (Observed ProtectStatus))) : Report :=
  let subsystems := replay :: before ++ (dhcp.map fun status => dhcpServer servers (collected status)).toList ++
    (gateway.map fun status => protectGateway protect (collected status)).toList ++ after
  ⟨overall subsystems, subsystems, if subsystems.any fun s => s.state = .drift || s.state = .failed then ["reapply"] else []⟩

section findings

variable {V : Type} {f : String × V → Option Finding} {acc : State × List String}

theorem foldl_record_converged {found : List (Option Finding)} (worse : ∀ state text, some (state, text) ∈ found → state ≠ .converged) :
    (found.foldl record acc).1 = .converged ↔ acc.1 = .converged ∧ ∀ finding ∈ found, finding = none := by
  induction found generalizing acc with
  | nil => simp
  | cons finding rest ih =>
    have later : ∀ state text, some (state, text) ∈ rest → state ≠ .converged :=
      fun state text member => worse state text (List.mem_cons_of_mem _ member)
    rw [List.foldl_cons, ih later]
    cases finding with
    | none => simp [record]
    | some finding =>
      have bad := worse finding.1 finding.2 List.mem_cons_self
      simp [record, bad]

theorem foldl_record_failed {items : List (String × V)} (sorted : items.Pairwise fun a b => a.1 < b.1) (start : acc.1 ≠ .failed) :
    ((items.map f).foldl record acc).1 = .failed ↔
      ∃ x ∈ items, (f x).map Prod.fst = some .failed ∧ ∀ y ∈ items, x.1 < y.1 → f y = none := by
  induction items using List.reverseRecOn with
  | nil => simpa using start
  | append_singleton items last ih =>
    obtain ⟨before, -, under⟩ := List.pairwise_append.mp sorted
    have below : ∀ x ∈ items, x.1 < last.1 := fun x member => under x member last List.mem_cons_self
    rw [List.map_append, List.foldl_append, List.map_singleton, List.foldl_cons, List.foldl_nil]
    cases found : f last with
    | none =>
      refine (ih before).trans ?_
      constructor
      · intro ⟨x, member, failed, quiet⟩
        refine ⟨x, List.mem_append_left _ member, failed, fun y there after => ?_⟩
        rcases List.mem_append.mp there with there | there
        · exact quiet y there after
        · rw [List.mem_singleton.mp there, found]
      · intro ⟨x, member, failed, quiet⟩
        rcases List.mem_append.mp member with member | member
        · exact ⟨x, member, failed, fun y there => quiet y (List.mem_append_left _ there)⟩
        · rw [List.mem_singleton.mp member, found] at failed
          cases failed
    | some finding =>
      constructor
      · intro failed
        refine ⟨last, List.mem_append_right _ List.mem_cons_self, by rw [found]; exact congrArg some failed, fun y there after => ?_⟩
        rcases List.mem_append.mp there with there | there
        · exact absurd (below y there) after.not_gt
        · exact absurd (List.mem_singleton.mp there ▸ after) (lt_irrefl _)
      · intro ⟨x, member, failed, quiet⟩
        rcases List.mem_append.mp member with member | member
        · have silent := quiet last (List.mem_append_right _ List.mem_cons_self) (below x member)
          exact absurd (found.symm.trans silent) (by simp)
        · rw [List.mem_singleton.mp member, found] at failed
          exact Option.some.inj failed

variable {d : Dict String V}

theorem mem_of_sorted {key : String} : key ∈ d ↔ ∃ v, (key, v) ∈ sortedItems d := by
  rw [← AList.lookup_isSome, Option.isSome_iff_exists]
  exact exists_congr fun v => mem_sortedItems.symm

theorem items_ne_nil {key : String} (member : key ∈ d) : d.items ≠ [] := by
  intro none'
  obtain ⟨v, there⟩ := mem_of_sorted.mp member
  rw [mem_sortedItems, ← Dict.mem_items, none'] at there
  cases there

theorem foldl_record_sorted {bad well : String → Prop} (start : acc.1 ≠ .failed)
    (failed : ∀ x ∈ sortedItems d, (f x).map Prod.fst = some .failed ↔ bad x.1)
    (quiet : ∀ x ∈ sortedItems d, f x = none ↔ well x.1) :
    (((sortedItems d).map f).foldl record acc).1 = .failed ↔ ∃ key ∈ d, bad key ∧ ∀ later ∈ d, key < later → well later := by
  rw [foldl_record_failed (sortedItems_sorted d) start]
  constructor
  · intro ⟨x, member, here, after⟩
    refine ⟨x.1, mem_of_sorted.mpr ⟨x.2, member⟩, (failed x member).mp here, fun later there order => ?_⟩
    obtain ⟨v, there⟩ := mem_of_sorted.mp there
    exact (quiet _ there).mp (after _ there order)
  · intro ⟨key, member, here, after⟩
    obtain ⟨v, there⟩ := mem_of_sorted.mp member
    refine ⟨_, there, (failed _ there).mpr here, fun y later order => ?_⟩
    exact (quiet y later).mpr (after y.1 (mem_of_sorted.mpr ⟨y.2, later⟩) order)

end findings

/-! ### The DHCP servers -/

def serverState (status : Observed DhcpStatus) (device : String) : Option String :=
  match status with
  | .status ⟨_, _, some (_, live)⟩ => (live.lookup device).bind LiveServer.state
  | _ => none

/-- Of the committed servers, one in error makes a failure, and it is all well only when each one serves. -/
def ServersReported (committed : Except String (Dict String Dhcp.Spec)) (status : Observed DhcpStatus) : Prop :=
  ∀ expected, committed = .ok expected →
    ((∃ device ∈ expected, serverState status device = some "error") → (dhcpServer committed status).state = .failed) ∧
      ((dhcpServer committed status).state = .converged → ∀ device ∈ expected, serverState status device = some "serving")

def ServersLoaded (expected : Dict String Dhcp.Spec) (status : Observed DhcpStatus) : Prop :=
  ∃ revision servers live, status = .status ⟨revision, servers, some (revision, live)⟩ ∧ sameEntries sameSpec servers expected

variable {live : Dict String LiveServer}

theorem serverFinding_none {item : String × Dhcp.Spec} :
    serverFinding live item = none ↔ (live.lookup item.1).bind LiveServer.state = some "serving" := by
  simp [serverFinding]

theorem serverFinding_failed {item : String × Dhcp.Spec} :
    (serverFinding live item).map Prod.fst = some .failed ↔ (live.lookup item.1).bind LiveServer.state = some "error" := by
  unfold serverFinding
  generalize (live.lookup item.1).bind LiveServer.state = state
  by_cases serving : state = some "serving"
  · subst serving
    simp
  · by_cases failing : state = some "error" <;> simp [serving, failing]

theorem serverFinding_worse {items : List (String × Dhcp.Spec)} (state : State) (text : String)
    (found : some (state, text) ∈ items.map (serverFinding live)) : state ≠ .converged := by
  obtain ⟨item, -, finding⟩ := List.mem_map.mp found
  unfold serverFinding at finding
  dsimp only at finding
  split at finding
  · injection finding with finding
    injection finding with here
    rw [← here]
    split <;> decide
  · cases finding

theorem dhcpServer_loaded {expected servers : Dict String Dhcp.Spec} {revision : Option Int}
    (applied : sameEntries sameSpec servers expected) (some' : expected.items ≠ []) :
    (dhcpServer (.ok expected) (.status ⟨revision, servers, some (revision, live)⟩)).state =
      (((sortedItems expected).map (serverFinding live)).foldl record (.converged, [])).1 := by
  unfold dhcpServer
  simp only [List.isEmpty_iff, some', applied, Bool.not_true, Bool.false_eq_true, if_false, ne_eq, not_true]
  split
  · rfl
  · next well => exact (not_not.mp well).symm

theorem dhcpServer_unloaded {expected : Dict String Dhcp.Spec} {status : Observed DhcpStatus} (some' : expected.items ≠ [])
    (unloaded : ¬ ServersLoaded expected status) :
    (dhcpServer (.ok expected) status).state ≠ .failed ∧ (dhcpServer (.ok expected) status).state ≠ .converged := by
  unfold dhcpServer
  simp only [List.isEmpty_iff, some', if_false]
  cases status with
  | none => simp [dhcpSubsystem]
  | error text => simp [dhcpSubsystem]
  | status status =>
    obtain ⟨revision, servers, running⟩ := status
    dsimp only
    split
    · simp [dhcpSubsystem]
    next applied =>
    cases running with
    | none => simp [dhcpSubsystem]
    | some view =>
      obtain ⟨held, live⟩ := view
      dsimp only
      split
      · simp [dhcpSubsystem]
      next current =>
      obtain rfl : held = revision := not_not.mp current
      exact absurd ⟨held, servers, live, rfl, by simpa using applied⟩ unloaded

def LastFailed (expected : Dict String Dhcp.Spec) (status : Observed DhcpStatus) : Prop :=
  ∃ device ∈ expected, serverState status device = some "error" ∧
    ∀ later ∈ expected, device < later → serverState status later = some "serving"

/-- The servers are reported as they should be, unless one is in error before the daemon runs what is
committed, or one that is only late comes after it. -/
theorem serversReported_iff (committed : Except String (Dict String Dhcp.Spec)) (status : Observed DhcpStatus) :
    ServersReported committed status ↔ ∀ expected, committed = .ok expected →
      (∃ device ∈ expected, serverState status device = some "error") → ServersLoaded expected status ∧ LastFailed expected status := by
  refine forall_congr' fun expected => forall_congr' fun compiled => ?_
  subst compiled
  by_cases none' : expected.items = []
  · have nobody : ∀ device, device ∉ expected := fun device member => items_ne_nil member none'
    simp [nobody]
  by_cases loaded : ServersLoaded expected status
  · rw [and_iff_right loaded]
    obtain ⟨revision, servers, live, rfl, applied⟩ := loaded
    rw [dhcpServer_loaded applied none', foldl_record_converged serverFinding_worse]
    refine (and_iff_left ?_).trans (imp_congr_right fun _ => ?_)
    · intro well device member
      obtain ⟨spec, there⟩ := mem_of_sorted.mp member
      exact serverFinding_none.mp (well.2 _ (List.mem_map_of_mem there))
    · exact foldl_record_sorted (by decide) (fun _ _ => serverFinding_failed) fun _ _ => serverFinding_none
  · have ⟨notFailed, notWell⟩ := dhcpServer_unloaded none' loaded
    constructor
    · intro reported faulty
      exact absurd (reported.1 faulty) notFailed
    · intro never
      exact ⟨fun faulty => absurd (never faulty).1 loaded, fun well => absurd well notWell⟩

/-! ### FFN Protect -/

def gatewayState (status : Observed ProtectStatus) (name : String) : Option String :=
  match status with
  | .status ⟨_, _, some running⟩ => (running.gateways.lookup name).bind LiveGateway.state
  | _ => none

def GatewayServes (expected : ProtectIntent) (status : Observed ProtectStatus) (name : String) : Prop :=
  gatewayState status name = some "up" ∧ ∃ spec running revision digest, expected.gateways.lookup name = some spec ∧
    status = .status ⟨revision, digest, some running⟩ ∧ gatewayListening running.listeners spec.address name

def PortalServes (expected : ProtectIntent) (status : Observed ProtectStatus) (name : String) : Prop :=
  ∃ spec running revision digest, expected.portals.lookup name = some spec ∧
    status = .status ⟨revision, digest, some running⟩ ∧ portalListening running.listeners spec.address name

def ProtectReported (committed : Except String ProtectIntent) (status : Observed ProtectStatus) : Prop :=
  ∀ expected, committed = .ok expected →
    ((∃ name ∈ expected.gateways, gatewayState status name = some "error") → (protectGateway committed status).state = .failed) ∧
      ((protectGateway committed status).state = .converged →
        (∀ name ∈ expected.portals, PortalServes expected status name) ∧ ∀ name ∈ expected.gateways, GatewayServes expected status name)

def ProtectLoaded (expected : ProtectIntent) (status : Observed ProtectStatus) : Prop :=
  ∃ running, status = .status ⟨running.revision, some expected.digest, some running⟩

def LastGatewayFailed (expected : ProtectIntent) (status : Observed ProtectStatus) : Prop :=
  ∃ name ∈ expected.gateways, gatewayState status name = some "error" ∧
    ∀ later ∈ expected.gateways, name < later → GatewayServes expected status later

section protect

variable {expected : ProtectIntent} {running : ProtectRunning} {status : Observed ProtectStatus}

theorem portalFinding_none {item : String × Portal} :
    portalFinding running item = none ↔ portalListening running.listeners item.2.address item.1 := by
  simp [portalFinding]

variable {item : String × Gateway}

theorem gatewayFinding_none :
    gatewayFinding running item = none ↔ (running.gateways.lookup item.1).bind LiveGateway.state = some "up" ∧
      gatewayListening running.listeners item.2.address item.1 := by
  unfold gatewayFinding
  by_cases up : (running.gateways.lookup item.1).bind LiveGateway.state = some "up" <;> simp [up]

theorem gatewayFinding_failed :
    (gatewayFinding running item).map Prod.fst = some .failed ↔
      (running.gateways.lookup item.1).bind LiveGateway.state = some "error" := by
  unfold gatewayFinding
  generalize (running.gateways.lookup item.1).bind LiveGateway.state = state
  by_cases up : state = some "up"
  · subst up
    by_cases listening : gatewayListening running.listeners item.2.address item.1 <;> simp [listening]
  · by_cases failing : state = some "error" <;> simp [up, failing]

theorem protectFindings_worse (state : State) (text : String) (found : some (state, text) ∈ protectFindings expected running) :
    state ≠ .converged := by
  rcases List.mem_append.mp found with found | found
  · obtain ⟨item, -, finding⟩ := List.mem_map.mp found
    unfold portalFinding at finding
    split at finding
    · cases finding
      decide
    · cases finding
  · obtain ⟨item, -, finding⟩ := List.mem_map.mp found
    unfold gatewayFinding at finding
    dsimp only at finding
    split at finding
    · injection finding with finding
      injection finding with here
      rw [← here]
      split <;> decide
    · split at finding
      · cases finding
        decide
      · cases finding

theorem portalFindings_start :
    (((sortedItems expected.portals).map (portalFinding running)).foldl record (.converged, [])).1 ≠ .failed := by
  rw [ne_eq, foldl_record_failed (sortedItems_sorted _) (by decide)]
  intro ⟨x, _, failed, _⟩
  unfold portalFinding at failed
  split at failed <;> cases failed

theorem protectGateway_loaded (some' : ¬ (expected.portals.items = [] ∧ expected.gateways.items = [])) :
    (protectGateway (.ok expected) (.status ⟨running.revision, some expected.digest, some running⟩)).state =
      ((protectFindings expected running).foldl record (.converged, [])).1 := by
  unfold protectGateway
  simp only [List.isEmpty_iff, some', if_false, ne_eq, not_true]
  split
  · rfl
  · next well => exact (not_not.mp well).symm

theorem protectGateway_unloaded (some' : ¬ (expected.portals.items = [] ∧ expected.gateways.items = []))
    (unloaded : ¬ ProtectLoaded expected status) :
    (protectGateway (.ok expected) status).state ≠ .failed ∧ (protectGateway (.ok expected) status).state ≠ .converged := by
  unfold protectGateway
  simp only [List.isEmpty_iff, some', if_false]
  cases status with
  | none => simp [protectSubsystem]
  | error text => simp [protectSubsystem]
  | status status =>
    obtain ⟨revision, digest, running⟩ := status
    dsimp only
    split
    · simp [protectSubsystem]
    next applied =>
    cases running with
    | none => simp [protectSubsystem]
    | some running =>
      dsimp only
      split
      · simp [protectSubsystem]
      next current =>
      refine absurd ⟨running, ?_⟩ unloaded
      rw [not_not.mp current, not_not.mp applied]

theorem gatewayServes_loaded (member : item ∈ sortedItems expected.gateways) :
    gatewayFinding running item = none ↔
      GatewayServes expected (.status ⟨running.revision, some expected.digest, some running⟩) item.1 := by
  rw [gatewayFinding_none]
  refine and_congr_right fun _ => ?_
  constructor
  · intro listening
    exact ⟨item.2, running, _, _, mem_sortedItems.mp member, rfl, listening⟩
  · rintro ⟨spec, other, revision, digest, found, same, listening⟩
    cases same
    cases Option.some.inj (found.symm.trans (mem_sortedItems.mp member))
    exact listening

theorem protectReported_iff (committed : Except String ProtectIntent) (status : Observed ProtectStatus) :
    ProtectReported committed status ↔ ∀ expected, committed = .ok expected →
      (∃ name ∈ expected.gateways, gatewayState status name = some "error") →
        ProtectLoaded expected status ∧ LastGatewayFailed expected status := by
  refine forall_congr' fun expected => forall_congr' fun compiled => ?_
  subst compiled
  by_cases none' : expected.portals.items = [] ∧ expected.gateways.items = []
  · have nobody : ∀ name, name ∉ expected.portals ∧ name ∉ expected.gateways :=
      fun name => ⟨fun member => items_ne_nil member none'.1, fun member => items_ne_nil member none'.2⟩
    simp [nobody]
  by_cases loaded : ProtectLoaded expected status
  · rw [and_iff_right loaded]
    obtain ⟨running, rfl⟩ := loaded
    rw [protectGateway_loaded none', foldl_record_converged protectFindings_worse]
    refine (and_iff_left ?_).trans (imp_congr_right fun _ => ?_)
    · intro well
      constructor
      · intro name member
        obtain ⟨spec, there⟩ := mem_of_sorted.mp member
        have listening := portalFinding_none.mp (well.2 _ (List.mem_append_left _ (List.mem_map_of_mem there)))
        exact ⟨spec, running, _, _, mem_sortedItems.mp there, rfl, listening⟩
      · intro name member
        obtain ⟨spec, there⟩ := mem_of_sorted.mp member
        exact (gatewayServes_loaded there).mp (well.2 _ (List.mem_append_right _ (List.mem_map_of_mem there)))
    · rw [protectFindings, List.foldl_append]
      exact foldl_record_sorted portalFindings_start (fun _ _ => gatewayFinding_failed) fun _ => gatewayServes_loaded
  · have ⟨notFailed, notWell⟩ := protectGateway_unloaded none' loaded
    constructor
    · intro reported faulty
      exact absurd (reported.1 faulty) notFailed
    · intro never
      exact ⟨fun faulty => absurd (never faulty).1 loaded, fun well => absurd well notWell⟩

end protect

theorem worst_greatest (state : State) (rest : List Subsystem) :
    IsGreatest {rank | rank = state.rank ∨ ∃ s ∈ rest, rank = s.state.rank} (worst state rest).rank := by
  induction rest generalizing state with
  | nil => simp [worst, IsGreatest, upperBounds]
  | cons s rest ih =>
    obtain ⟨attained, bound⟩ := ih (if state.rank < s.state.rank then s.state else state)
    have least : state.rank ≤ (worst state (s :: rest)).rank ∧ s.state.rank ≤ (worst state (s :: rest)).rank := by
      have first := bound (.inl rfl)
      rw [worst]
      split at first
      · next above =>
        rw [if_pos above]
        omega
      · next below =>
        rw [if_neg below]
        omega
    refine ⟨?_, ?_⟩
    · rw [worst]
      rcases attained with here | ⟨s', member, here⟩
      · split at here
        · next above =>
          rw [if_pos above]
          exact .inr ⟨s, List.mem_cons_self, here⟩
        · next below =>
          rw [if_neg below]
          exact .inl here
      · exact .inr ⟨s', List.mem_cons_of_mem s member, here⟩
    · rintro rank (rfl | ⟨s', member, rfl⟩)
      · exact least.1
      · cases member with
        | head => exact least.2
        | tail _ member => exact bound (.inr ⟨s', member, rfl⟩)

theorem overall_greatest (s : Subsystem) (rest : List Subsystem) :
    IsGreatest {rank | ∃ s' ∈ s :: rest, rank = s'.state.rank} (overall (s :: rest)).rank := by
  have := worst_greatest s.state rest
  simpa [overall] using this

/-- The servers, the gateways and the whole are reported as they should be exactly when no server and no
gateway in error is seen too early or followed by one that is only late. -/
theorem worst_reported_iff (servers : Except String (Dict String Dhcp.Spec)) (protect : Except String ProtectIntent)
    (dhcp : Observed DhcpStatus) (gateway : Observed ProtectStatus) (replay : Subsystem) (before after : List Subsystem)
    (leases : Option (Except String (Observed DhcpStatus))) (tunnels : Option (Except String (Observed ProtectStatus))) :
    (ServersReported servers dhcp ∧ ProtectReported protect gateway ∧
        IsGreatest {rank | ∃ s ∈ (assess replay before after servers protect leases tunnels).subsystems, rank = s.state.rank}
          (assess replay before after servers protect leases tunnels).overall.rank) ↔
      (∀ expected, servers = .ok expected → (∃ device ∈ expected, serverState dhcp device = some "error") →
        ServersLoaded expected dhcp ∧ LastFailed expected dhcp) ∧
      (∀ expected, protect = .ok expected → (∃ name ∈ expected.gateways, gatewayState gateway name = some "error") →
        ProtectLoaded expected gateway ∧ LastGatewayFailed expected gateway) := by
  rw [← serversReported_iff, ← protectReported_iff]
  refine and_congr_right fun _ => and_iff_left ?_
  simp only [assess, List.cons_append]
  exact overall_greatest _ _

def officeSpec (interface : String) : Dhcp.Spec where
  interface := interface
  address := 0x0a000001
  prefixLen := 24
  pools := [(0x0a00000a, 0x0a0000ff)]
  reserved := ∅
  lease := some 3600
  probe := false
  options := ⟨none, none, [], [], [], none⟩

def officeServers : Dict String Dhcp.Spec :=
  ((∅ : Dict String Dhcp.Spec).insert "p5" (officeSpec "ethernet1/5")).insert "p6" (officeSpec "ethernet1/6")

/-- The first server could not bind its socket, the second has not been started yet. -/
def officeLive : Dict String LiveServer := (∅ : Dict String LiveServer).insert "p5" ⟨some "error", some "bind failed", 0⟩

def officeStatus : Observed DhcpStatus := .status ⟨some 2, officeServers, some (some 2, officeLive)⟩

theorem failure_overwritten : ¬ ServersReported (.ok officeServers) officeStatus := by
  rw [serversReported_iff]
  intro reported
  obtain ⟨-, device, -, failed, quiet⟩ := reported officeServers rfl ⟨"p5", by decide, by decide⟩
  have first : device = "p5" := by
    by_contra other
    have unknown : officeLive.lookup device = none := by rw [officeLive, AList.lookup_insert_ne other, AList.lookup_empty]
    rw [show serverState officeStatus device = (officeLive.lookup device).bind LiveServer.state from rfl, unknown] at failed
    cases failed
  subst first
  have serving := quiet "p6" (by decide) (by decide)
  exact absurd serving (by decide)

end FfnNgfw.Runtime
