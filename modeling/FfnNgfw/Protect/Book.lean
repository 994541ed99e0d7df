import FfnNgfw.Protect.Daemon

/-!
# The address book of the daemon

What the addresses depend on: which gateways are in force, what each gateway object has in
its pool and its table, and of each session its gateway's name, its address and whether it
has ended. `exec_change` says what one operation does to the book.
-/

namespace FfnNgfw.Protect

open Threads

structure Seat where
  gateway : String
  clientIp : UInt32
  ended : Bool

structure Ledger where
  name : String
  spec : Spec
  pool : Pool
  sessions : List Nat
  nextId : Nat

structure Book where
  gateways : Dict String Nat
  ledgers : List Ledger
  seats : Ref → Option Seat
  lock : Option Nat

def Session.seat (s : Session) : Seat := ⟨s.gateway, s.clientIp, s.Ended⟩

def GatewayState.ledger (o : GatewayState) : Ledger := ⟨o.name, o.spec, o.pool, o.sessions, o.nextId⟩

def Daemon.book (d : Daemon) : Book := ⟨d.gateways, d.objects.map (·.ledger), fun r => (d.heap r).map (·.seat), d.lock⟩

namespace Book

variable (b : Book)

def edit (g : Nat) (f : Ledger → Ledger) : Book := { b with ledgers := b.ledgers.modify g f }

def endSeat (r : Ref) : Book := { b with seats := Function.update b.seats r ((b.seats r).map fun s => { s with ended := true }) }

end Book

/-! ### Reading the book off the daemon -/

theorem map_modify {α β : Type} {read : α → β} {f : α → α} {f' : β → β} (same : ∀ a, read (f a) = f' (read a)) (xs : List α)
    (i : Nat) : (xs.modify i f).map read = (xs.map read).modify i f' := by
  apply List.ext_getElem?
  intro j
  rw [List.getElem?_map, List.getElem?_modify, List.getElem?_modify, List.getElem?_map]
  cases xs[j]? with
  | none => rfl
  | some a =>
    by_cases here : i = j
    · simp [here, same]
    · simp [here]

section book

variable {d : Daemon}

theorem book_ledger {g : Nat} {l : Ledger} (h : d.book.ledgers[g]? = some l) : ∃ o, d.objects[g]? = some o ∧ o.ledger = l := by
  simp only [Daemon.book, List.getElem?_map] at h
  exact Option.map_eq_some_iff.mp h

theorem ledger_book {g : Nat} {o : GatewayState} (h : d.objects[g]? = some o) : d.book.ledgers[g]? = some o.ledger := by
  simp [Daemon.book, h]

theorem seat_book {r : Ref} {s : Session} (h : d.heap r = some s) : d.book.seats r = some s.seat := by
  simp [Daemon.book, h]

theorem seat_none {r : Ref} (h : d.heap r = none) : d.book.seats r = none := by
  simp [Daemon.book, h]

theorem book_editGateway (g : Nat) {f : GatewayState → GatewayState} {f' : Ledger → Ledger}
    (same : ∀ o, (f o).ledger = f' o.ledger) : (d.editGateway g f).book = d.book.edit g f' := by
  simp [Daemon.book, Daemon.editGateway, Book.edit, map_modify same]

theorem book_editWorker (g : Nat) (f : Worker → Worker) : (editWorker d g f).book = d.book := by
  have same : ∀ o : GatewayState, GatewayState.ledger { o with worker := f o.worker } = id o.ledger := fun _ => rfl
  have unchanged : d.book.edit g id = d.book := by
    simp [Book.edit, List.modify_id]
  rw [editWorker, book_editGateway g same, unchanged]

theorem seats_editSession (r : Ref) {f : Session → Session} {f' : Seat → Seat} (same : ∀ s, (f s).seat = f' s.seat) :
    (d.editSession r f).book.seats = Function.update d.book.seats r ((d.book.seats r).map f') := by
  funext other
  by_cases here : other = r
  · subst here
    simp only [Daemon.book, Daemon.editSession, Function.update_self]
    cases d.heap other with
    | none => rfl
    | some s => simp [same]
  · simp [Daemon.book, Daemon.editSession, Function.update_of_ne here]

theorem book_editSession (r : Ref) {f : Session → Session} (same : ∀ s, (f s).seat = s.seat) :
    (d.editSession r f).book = d.book := by
  have kept : ∀ s, (f s).seat = id s.seat := same
  have seats := seats_editSession (d := d) r kept
  rw [Option.map_id_fun, id, Function.update_eq_self] at seats
  exact congrArg (fun seats => ({ d.book with seats := seats } : Book)) seats

end book

/-! ### What an operation does to the book -/

namespace Op

def loads : Op → Bool
  | .load _ => true
  | .stopGateways _ _ => true
  | .startGateways _ => true
  | _ => false

/-- The session whose address is about to be given up, and the gateway object it is given to. -/
def releases : Op → Option (Ref × Nat)
  | .dropCookie r (some g) => some (r, g)
  | .release r g => some (r, g)
  | _ => none

def call : Op → Bool
  | .endSession _ => true
  | .stopWorker _ => true
  | .stopGateways _ _ => true
  | .allocate _ _ _ _ => true
  | .closed _ _ => true
  | _ => false

/-- Operations that are neither part of a reload nor of the way from `endSession` to `release`. -/
def plain : Op → Bool
  | .load _ => false
  | .stopGateways _ _ => false
  | .startGateways _ => false
  | .endSessions _ => false
  | .mark _ _ => false
  | .dropCookie _ _ => false
  | .release _ _ => false
  | _ => true

end Op

/-- A plain operation other than `endSession` that leaves the book as it is. -/
structure Plain (op : Op) (more : List Op) : Prop where
  plain : op.plain = true
  noEnd : ∀ r, op ≠ .endSession r
  next : ∀ o ∈ more, o.plain = true
  below : ∀ o ∈ more.tail, o.call = true

namespace Ledger

def seat (l : Ledger) (clientIp : UInt32) : Seat := ⟨l.name, clientIp, false⟩

def allot (pool : Pool) (l : Ledger) : Ledger :=
  { l with pool := pool, sessions := l.sessions ++ [l.nextId], nextId := l.nextId + 1 }

def dismiss (id : Nat) (clientIp : UInt32) (l : Ledger) : Ledger :=
  { l with sessions := l.sessions.filter (· ≠ id), pool := l.pool.release clientIp }

def respec (spec : Spec) (l : Ledger) : Ledger := { l with spec := spec }

def fresh (name : String) (spec : Spec) : Ledger := ⟨name, spec, Pool.init spec, [], 1⟩

end Ledger

inductive Change (t : Nat) (b : Book) : Op → Book → List Op → Prop where
  | plain {op : Op} {more : List Op} : Plain op more → Change t b op b more
  | refused {intent : Dict String RawGateway} : Change t b (.load intent) b []
  | lock {intent : Dict String RawGateway} {protect : Dict String Spec} : validateIntent intent = .ok protect →
      b.lock = none ∨ b.lock = some t →
      Change t b (.load intent) { b with lock := some t } [.stopGateways (b.gateways.items.map Prod.fst) protect]
  | stopped {protect : Dict String Spec} : Change t b (.stopGateways [] protect) b [.startGateways protect.items]
  | kept {name : String} {rest : List String} {protect : Dict String Spec} :
      (∀ g l, b.gateways.lookup name = some g → b.ledgers[g]? = some l →
        ∃ spec, protect.lookup name = some spec ∧ l.spec.pools = spec.pools ∧ l.spec.tunnelAddress = spec.tunnelAddress) →
      Change t b (.stopGateways (name :: rest) protect) b [.stopGateways rest protect]
  | stop {name : String} {rest : List String} {protect : Dict String Spec} {g : Nat} : b.gateways.lookup name = some g →
      Change t b (.stopGateways (name :: rest) protect) { b with gateways := b.gateways.erase name }
        [.endSessions g, .stopGateways rest protect]
  | respec {name : String} {spec : Spec} {rest : List (String × Spec)} {g : Nat} : b.gateways.lookup name = some g →
      Change t b (.startGateways ((name, spec) :: rest)) (b.edit g (.respec spec)) [.startGateways rest]
  | start {name : String} {spec : Spec} {rest : List (String × Spec)} : b.gateways.lookup name = none →
      Change t b (.startGateways ((name, spec) :: rest))
        { b with gateways := b.gateways.assign name b.ledgers.length, ledgers := b.ledgers ++ [Ledger.fresh name spec] }
        [.startGateways rest]
  | unlock : Change t b (.startGateways []) { b with lock := none } []
  | snapshot {g : Nat} {l : Ledger} : b.ledgers[g]? = some l →
      Change t b (.endSessions g) b (endAll g l.sessions ++ [.stopWorker g])
  | noSnapshot {g : Nat} : b.ledgers[g]? = none → Change t b (.endSessions g) b []
  | ends {r : Ref} {s : Seat} : b.seats r = some s →
      Change t b (.endSession r) b [.mark r (b.gateways.lookup s.gateway)]
  | noSession {r : Ref} : b.seats r = none → Change t b (.endSession r) b []
  | marks {r : Ref} {gateway : Option Nat} {s : Seat} : b.seats r = some s → s.ended = false →
      Change t b (.mark r gateway) (b.endSeat r) [.dropCookie r gateway]
  | marked {r : Ref} {gateway : Option Nat} : (∀ s, b.seats r = some s → s.ended = true) → Change t b (.mark r gateway) b []
  | drops {r : Ref} {g : Nat} : Change t b (.dropCookie r (some g)) b [.release r g]
  | dropsOnly {r : Ref} : Change t b (.dropCookie r none) b []
  | releases {r : Ref} {g : Nat} {s : Seat} : b.seats r = some s →
      Change t b (.release r g) (b.edit g (.dismiss r.id s.clientIp)) [.cleanUp r g]
  | noRelease {r : Ref} {g : Nat} : b.seats r = none → Change t b (.release r g) b []
  | allocates {g : Nat} {user source : String} {preferred : Option UInt32} {l : Ledger} {clientIp : UInt32} {pool : Pool} :
      b.ledgers[g]? = some l → l.pool.allocate preferred = some (clientIp, pool) →
      Change t b (.allocate g user source preferred)
        { b.edit g (.allot pool) with seats := Function.update b.seats ⟨g, l.nextId⟩ (some (l.seat clientIp)) }
        [.addCookie ⟨g, l.nextId⟩]
  | result {r : Ref} {text : String} {b' : Book} : ((∀ s, b.seats r = some s → s.ended = false) → b' = b) →
      Change t b (.setResult r text) b' []

variable {ids : List Nat} {op : Op}

theorem mem_endAll {g : Nat} {o : Op} (h : o ∈ endAll g ids) : ∃ id ∈ ids, o = .endSession ⟨g, id⟩ := by
  obtain ⟨id, member, same⟩ := List.mem_map.mp h
  exact ⟨id, member, same.symm⟩

theorem Change.below {t : Nat} {b b' : Book} {more : List Op} (h : Change t b op b' more) :
    ∀ o ∈ more.tail, o.call = true := by
  cases h with
  | plain plain => exact plain.below
  | stop _ =>
    intro o member
    rw [List.mem_singleton.mp member]
    rfl
  | snapshot _ =>
    intro o member
    rcases List.mem_append.mp (List.mem_of_mem_tail member) with ended | last
    · obtain ⟨id, -, rfl⟩ := mem_endAll ended
      rfl
    · rw [List.mem_singleton.mp last]
      rfl
  | _ => exact List.forall_mem_nil _

/-! ### Each operation -/

theorem onSession_cases {d d' : Daemon} {r : Ref} {f : Session → Option (Daemon × List Op)} {more : List Op}
    (h : onSession d r f = some (d', more)) :
    (d.heap r = none ∧ d' = d ∧ more = []) ∨ ∃ s, d.heap r = some s ∧ f s = some (d', more) := by
  unfold onSession at h
  split at h
  · rename_i absent
    cases h
    exact .inl ⟨absent, rfl, rfl⟩
  · rename_i s present
    exact .inr ⟨s, present, h⟩

theorem onGateway_cases {d d' : Daemon} {g : Nat} {f : GatewayState → Daemon × List Op} {more : List Op}
    (h : onGateway d g f = some (d', more)) :
    (d.objects[g]? = none ∧ d' = d ∧ more = []) ∨ ∃ o, d.objects[g]? = some o ∧ f o = (d', more) := by
  unfold onGateway at h
  split at h
  · rename_i absent
    cases h
    exact .inl ⟨absent, rfl, rfl⟩
  · rename_i o present
    exact .inr ⟨o, present, Option.some.inj h⟩

theorem plain_nil (plain : op.plain = true) (noEnd : ∀ r, op ≠ .endSession r) : Plain op [] :=
  ⟨plain, noEnd, List.forall_mem_nil _, List.forall_mem_nil _⟩

theorem plain_single {op next : Op} (plain : op.plain = true) (noEnd : ∀ r, op ≠ .endSession r) (also : next.plain = true) :
    Plain op [next] :=
  ⟨plain, noEnd, fun _ member => List.mem_singleton.mp member ▸ also, List.forall_mem_nil _⟩

theorem plain_endAll {op last : Op} {g : Nat} (plain : op.plain = true) (noEnd : ∀ r, op ≠ .endSession r)
    (also : last.plain = true) (waits : last.call = true) : Plain op (endAll g ids ++ [last]) := by
  have each : ∀ o ∈ endAll g ids ++ [last], o.plain = true ∧ o.call = true := by
    intro o member
    rcases List.mem_append.mp member with ended | final
    · obtain ⟨id, _, rfl⟩ := mem_endAll ended
      exact ⟨rfl, rfl⟩
    · rw [List.mem_singleton.mp final]
      exact ⟨also, waits⟩
  exact ⟨plain, noEnd, fun o member => (each o member).1, fun o member => (each o (List.mem_of_mem_tail member)).2⟩

theorem plain_ends {g : Nat} (plain : op.plain = true) (noEnd : ∀ r, op ≠ .endSession r) :
    Plain op (endAll g ids) := by
  have each : ∀ o ∈ endAll g ids, o.plain = true ∧ o.call = true := by
    intro o member
    obtain ⟨id, _, rfl⟩ := mem_endAll member
    exact ⟨rfl, rfl⟩
  exact ⟨plain, noEnd, fun o member => (each o member).1, fun o member => (each o (List.mem_of_mem_tail member)).2⟩

section change

variable {t : Nat} {d d' : Daemon} {more : List Op}

theorem mayLock_book (h : d.mayLock t = true) : d.book.lock = none ∨ d.book.lock = some t := by
  simp only [Daemon.mayLock, Bool.or_eq_true, decide_eq_true_eq] at h
  exact h

theorem loadIntent_change {intent : Dict String RawGateway} (h : loadIntent t d intent = some (d', more)) :
    Change t d.book (.load intent) d'.book more := by
  unfold loadIntent at h
  split at h
  · cases h
    exact .refused
  · rename_i protect valid
    split at h
    · rename_i free
      cases h
      exact .lock valid (mayLock_book free)
    · cases h

theorem stopNext_change {names : List String} {protect : Dict String Spec} (h : stopNext d names protect = (d', more)) :
    Change t d.book (.stopGateways names protect) d'.book more := by
  unfold stopNext at h
  split at h
  · cases h
    exact .stopped
  · rename_i name rest
    split at h
    · rename_i absent
      cases h
      refine .kept fun g l found _ => ?_
      rw [show d.book.gateways.lookup name = none from absent] at found
      cases found
    · rename_i g found
      split at h
      · cases h
        exact .stop found
      · rename_i keeps
        cases h
        refine .kept fun g' l found' present => ?_
        cases found.symm.trans found'
        obtain ⟨o, object, rfl⟩ := book_ledger present
        cases spec : protect.lookup name with
        | none => simp [spec] at keeps
        | some spec' =>
          simp only [spec, object, Option.all_some, GatewayState.restartNeeded, Bool.not_eq_true, Bool.or_eq_false_iff,
            decide_eq_false_iff_not, not_not] at keeps
          exact ⟨spec', rfl, keeps.2, keeps.1.1.2⟩

theorem startNext_change {specs : List (String × Spec)} (h : startNext d specs = (d', more)) :
    Change t d.book (.startGateways specs) d'.book more := by
  unfold startNext at h
  split at h
  · cases h
    exact .unlock
  · rename_i name spec rest
    split at h
    · rename_i g found
      cases h
      have edited : (d.editGateway g fun o => { o with spec := spec }).book = d.book.edit g (.respec spec) :=
        book_editGateway g fun _ => rfl
      rw [edited]
      exact .respec found
    · rename_i absent
      cases h
      have started : (d.startGateway name spec).book = { d.book with
          gateways := d.book.gateways.assign name d.book.ledgers.length, ledgers := d.book.ledgers ++ [Ledger.fresh name spec] } := by
        simp [Daemon.book, Daemon.startGateway, GatewayState.init, GatewayState.ledger, Ledger.fresh]
      rw [started]
      exact .start absent

theorem allocateIn_change {g : Nat} {o : GatewayState} {user source : String} {preferred : Option UInt32}
    (present : d.objects[g]? = some o) (h : allocateIn d g o user source preferred = (d', more)) :
    Change t d.book (.allocate g user source preferred) d'.book more := by
  unfold allocateIn at h
  split at h
  · cases h
    exact .plain (plain_nil rfl nofun)
  · split at h
    · cases h
      exact .plain (plain_nil rfl nofun)
    · rename_i clientIp pool given
      cases h
      have edited : (d.editGateway g fun o =>
          { o with pool := pool, sessions := o.sessions ++ [o.nextId], nextId := o.nextId + 1 }).book =
          d.book.edit g (.allot pool) := book_editGateway g fun _ => rfl
      have seats : (fun r => (Function.update d.heap ⟨g, o.nextId⟩
          (some ⟨user, source, o.name, clientIp, none, false, none⟩) r).map Session.seat) =
          Function.update d.book.seats ⟨g, o.nextId⟩ (some (o.ledger.seat clientIp)) := by
        funext r
        by_cases here : r = ⟨g, o.nextId⟩
        · subst here
          simp [Session.seat, Session.Ended, Ledger.seat, GatewayState.ledger]
        · simp [Function.update_of_ne here, Daemon.book]
      have change : Change t d.book (.allocate g user source preferred) _ _ := .allocates (ledger_book present) given
      rw [← edited] at change
      simp only [GatewayState.ledger] at seats change
      rw [← seats] at change
      exact change

variable {r : Ref}

theorem mark_change {gateway : Option Nat} {s : Session} (present : d.heap r = some s) (h : (if !s.mayLock t then none
      else if s.Ended then some (d, [])
      else some (d.editSession r fun s => { s with tunnelResult := some .ended }, [.dropCookie r gateway])) = some (d', more)) :
    Change t d.book (.mark r gateway) d'.book more := by
  split at h
  · cases h
  · split at h
    · rename_i ended
      cases h
      refine .marked fun seat found => ?_
      rw [seat_book present] at found
      cases found
      exact decide_eq_true ended
    · rename_i live
      cases h
      have seats : (d.editSession r fun s => { s with tunnelResult := some .ended }).book.seats = (d.book.endSeat r).seats :=
        seats_editSession r fun _ => rfl
      have same : (d.editSession r fun s => { s with tunnelResult := some .ended }).book = d.book.endSeat r :=
        congrArg (fun seats => ({ d.book with seats := seats } : Book)) seats
      rw [same]
      exact .marks (seat_book present) (decide_eq_false live)

theorem setResult_change {text : String} :
    Change t d.book (.setResult r text) (d.editSession r fun s => { s with tunnelResult := some (.text text) }).book [] := by
  refine .result fun live => ?_
  have seats : (d.editSession r fun s => { s with tunnelResult := some (.text text) }).book.seats =
      Function.update d.book.seats r ((d.book.seats r).map fun s => { s with ended := false }) :=
    seats_editSession r fun _ => rfl
  have still : (d.book.seats r).map (fun s => { s with ended := false }) = d.book.seats r := by
    cases found : d.book.seats r with
    | none => rfl
    | some s =>
      have open' := live s found
      cases s
      cases open'
      rfl
  rw [still, Function.update_eq_self] at seats
  exact congrArg (fun seats => ({ d.book with seats := seats } : Book)) seats

theorem authorisedBy_plain {g : Nat} {name : String} {kind : Request} (s : Session) :
    Plain (.authorised g name r kind) (authorisedBy d g name r kind s) := by
  unfold authorisedBy
  split
  · split
    · exact plain_single rfl nofun rfl
    · exact plain_single rfl nofun rfl
    · exact ⟨rfl, nofun, by simp [Op.plain], by simp [Op.call]⟩
  · exact plain_nil rfl nofun

theorem registerIn_change {esp : Bool} {g : Nat} {s : Session} (h : registerIn t d esp r g s = some (d', more)) :
    Change t d.book (.register esp r g) d'.book more := by
  unfold registerIn at h
  split at h
  · cases h
    have same : (d.editSession r fun s => { s with lock := some t }).book = d.book := book_editSession r fun _ => rfl
    rw [same]
    apply Change.plain
    split
    · exact plain_single rfl nofun rfl
    · exact plain_single rfl nofun rfl
  · cases h

theorem whenClosed_plain {closing : Closing} (s : Session) : Plain (.closed r closing) (whenClosed r closing s) := by
  unfold whenClosed
  split
  · exact plain_nil rfl nofun
  · split
    · exact plain_single rfl nofun rfl
    · exact plain_single rfl nofun rfl

theorem exec_change {op : Op} (h : exec t d op = some (d', more)) : Change t d.book op d'.book more := by
  cases op with
  | load intent => exact loadIntent_change h
  | stopGateways names protect => exact stopNext_change (Option.some.inj h)
  | startGateways specs => exact startNext_change (Option.some.inj h)
  | endSessions g =>
    rcases onGateway_cases h with ⟨absent, rfl, rfl⟩ | ⟨o, present, done⟩
    · refine .noSnapshot ?_
      simp [Daemon.book, absent]
    · cases done
      exact .snapshot (ledger_book present)
  | stopWorker g =>
    cases h
    rw [book_editWorker]
    exact .plain (plain_nil rfl nofun)
  | tick name due =>
    simp only [exec] at h
    split at h
    · cases h
      exact .plain (plain_nil rfl nofun)
    · rcases onGateway_cases h with ⟨-, rfl, rfl⟩ | ⟨o, -, done⟩
      · exact .plain (plain_nil rfl nofun)
      · cases done
        exact .plain (plain_ends rfl nofun)
  | login name user source preferred | request name r kind =>
    simp only [exec] at h
    split at h
    · cases h
      exact .plain (plain_nil rfl nofun)
    · cases h
      exact .plain (plain_single rfl nofun rfl)
  | authorised g name r kind =>
    simp only [exec] at h
    split at h
    · rcases onSession_cases h with ⟨-, rfl, rfl⟩ | ⟨s, -, done⟩
      · exact .plain (plain_nil rfl nofun)
      · cases done
        exact .plain (authorisedBy_plain s)
    · cases h
  | newSession g user source preferred =>
    rcases onGateway_cases h with ⟨-, rfl, rfl⟩ | ⟨o, -, done⟩
    · exact .plain (plain_nil rfl nofun)
    · cases done
      exact .plain (plain_endAll rfl nofun rfl rfl)
  | allocate g user source preferred =>
    rcases onGateway_cases h with ⟨-, rfl, rfl⟩ | ⟨o, present, done⟩
    · exact .plain (plain_nil rfl nofun)
    · exact allocateIn_change present done
  | addCookie r =>
    simp only [exec] at h
    split at h
    · cases h
      exact .plain (plain_nil rfl nofun)
    · cases h
  | endSession r =>
    rcases onSession_cases h with ⟨absent, rfl, rfl⟩ | ⟨s, present, done⟩
    · exact .noSession (seat_none absent)
    · cases done
      exact .ends (seat_book present)
  | mark r gateway =>
    rcases onSession_cases h with ⟨absent, rfl, rfl⟩ | ⟨s, present, done⟩
    · refine .marked fun s found => ?_
      rw [seat_none absent] at found
      cases found
    · exact mark_change present done
  | dropCookie r gateway =>
    simp only [exec] at h
    split at h
    · cases h
      cases gateway with
      | none => exact .dropsOnly
      | some g => exact .drops
    · cases h
  | release r g =>
    rcases onSession_cases h with ⟨absent, rfl, rfl⟩ | ⟨s, present, done⟩
    · exact .noRelease (seat_none absent)
    · cases done
      have edited : (releaseIn d r g s).book = d.book.edit g (.dismiss r.id s.clientIp) := book_editGateway g fun _ => rfl
      rw [edited]
      exact .releases (seat_book present)
  | cleanUp r g =>
    rcases onSession_cases h with ⟨-, rfl, rfl⟩ | ⟨s, -, done⟩
    · exact .plain (plain_nil rfl nofun)
    · cases done
      apply Change.plain
      split
      · exact plain_single rfl nofun rfl
      · exact plain_nil rfl nofun
  | workerDel r g =>
    cases h
    rw [book_editWorker]
    exact .plain (plain_single rfl nofun rfl)
  | routeDel r g =>
    rcases onSession_cases h with ⟨-, rfl, rfl⟩ | ⟨s, -, done⟩
    · exact .plain (plain_nil rfl nofun)
    · cases done
      rw [book_editWorker]
      exact .plain (plain_nil rfl nofun)
  | closed r closing =>
    rcases onSession_cases h with ⟨-, rfl, rfl⟩ | ⟨s, -, done⟩
    · exact .plain (plain_nil rfl nofun)
    · cases done
      exact .plain (whenClosed_plain s)
  | setResult r text =>
    cases h
    exact setResult_change
  | register esp r g =>
    rcases onSession_cases h with ⟨-, rfl, rfl⟩ | ⟨s, -, done⟩
    · exact .plain (plain_nil rfl nofun)
    · exact registerIn_change done
  | againDel esp r g =>
    cases h
    rw [book_editWorker]
    cases esp with
    | true => exact .plain (plain_single rfl nofun rfl)
    | false => exact .plain (plain_single rfl nofun rfl)
  | againRoute r g | routeAdd r g =>
    rcases onSession_cases h with ⟨-, rfl, rfl⟩ | ⟨s, -, done⟩
    · exact .plain (plain_nil rfl nofun)
    · cases done
      rw [book_editWorker]
      exact .plain (plain_single rfl nofun rfl)
  | againClear r g =>
    cases h
    have same : (d.editSession r fun s => { s with registered := false }).book = d.book := book_editSession r fun _ => rfl
    rw [same]
    exact .plain (plain_single rfl nofun rfl)
  | workerAdd r g =>
    cases h
    rw [book_editWorker]
    exact .plain (plain_single rfl nofun rfl)
  | registered r =>
    cases h
    have same : (d.editSession r fun s => { s with registered := true, lock := none }).book = d.book :=
      book_editSession r fun _ => rfl
    rw [same]
    exact .plain (plain_nil rfl nofun)

end change

end FfnNgfw.Protect
