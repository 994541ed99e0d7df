import FfnNgfw.Portable.Ring
import FfnNgfw.Portable.FlowCache

/-!
# Outcomes of commands

The dataplane answers a PING, a SET_BANK and a GET_STATS with an event. It does not
look at the result of the push, so that an answer is lost when the event ring is full
at that moment, and only then.
-/

namespace FfnNgfw.Portable
open Mem

/-- The event that answers a command, taken from the ring in context `c`. -/
def outcome (c : DpCtx) (cmd : Cmd) (a0 : UInt64) : Option Desc :=
  match cmd with
  | .ping => some ⟨Evt.pong.code, a0, 0, 0⟩
  | .setBank =>
    let (c', rc) := dpActivateBank c a0.toUInt32
    if rc = .ok then some ⟨Evt.ready.code, a0, UInt64.ofNat c'.tables.policy.length, 0⟩
    else some ⟨Evt.error.code, UInt64.ofNat (-rc.code).toNat, a0, 0⟩
  | .getStats => some ⟨Evt.stats.code, c.statForward, c.statDrop, c.statCacheHit⟩
  | .nop | .setDefault | .flushFlows | .shutdown | .unknown _ => none

def Cmd.reports : Cmd → Bool
  | .ping | .setBank | .getStats => true
  | .nop | .setDefault | .flushFlows | .shutdown | .unknown _ => false

theorem outcome_isSome (c : DpCtx) (cmd : Cmd) (a0 : UInt64) : (outcome c cmd a0).isSome = cmd.reports := by
  cases cmd with
  | setBank =>
    unfold outcome
    dsimp only
    split
    · rfl
    · rfl
  | nop | ping | getStats | setDefault | flushFlows | shutdown | unknown _ => rfl

inductive Exchange where
  /-- the management plane enqueues a command -/
  | push (d : Desc) (flags : UInt16)
  /-- the management plane takes an event, if there is one -/
  | drain
  /-- one turn of the loop of `dp_service_commands` -/
  | serve
  /-- the management plane writes the policy banks -/
  | bank (content : Mem)
  | packet (p : Packet)

/-- The dataplane, the answers it owes for the commands it has dequeued, and the
events that the management plane has read. -/
structure Ledger where
  ctx : DpCtx
  outcomes : List Desc
  read : List Desc

def exchange (l : Ledger) : Exchange → Ledger
  | .push d flags =>
    { l with ctx := { l.ctx with region := l.ctx.region.map fun m => (pyPush m d flags).getD m } }
  | .drain =>
    match l.ctx.region.bind popEvent with
    | none => l
    | some (m, e) => { l with ctx := { l.ctx with region := some m }, read := l.read ++ [e.desc] }
  | .serve =>
    match popCommand l.ctx with
    | none => l
    | some (c, cmd, a0) =>
      { l with ctx := execCommand c cmd a0, outcomes := l.outcomes ++ (outcome c cmd a0).toList }
  | .bank content =>
    { l with ctx := { l.ctx with region := l.ctx.region.map fun m a => if offBank0 ≤ a then content a else m a } }
  | .packet p => { l with ctx := (dpProcess l.ctx p).1 }

def exchanges (l : Ledger) (xs : List Exchange) : Ledger := xs.foldl exchange l

theorem exchange_serve {l : Ledger} {c : DpCtx} {cmd : Cmd} {a0 : UInt64} (h : popCommand l.ctx = some (c, cmd, a0)) :
    exchange l .serve =
      { l with ctx := execCommand c cmd a0, outcomes := l.outcomes ++ (outcome c cmd a0).toList } := by
  rw [exchange, h]

def drainAll : Nat → Mem → List Desc
  | 0, _ => []
  | n + 1, m =>
    match popEvent m with
    | none => []
    | some (m, e) => e.desc :: drainAll n m

/-- The events that the management plane gets when it empties the ring. -/
def readable (c : DpCtx) : List Desc :=
  match c.region with
  | none => []
  | some m => drainAll ringDescs.toNat m

/-- The events read and the events still readable are the answers to the dequeued
commands, one for each and in their order. -/
def NoneLost (l : Ledger) : Prop := l.read ++ readable l.ctx = l.outcomes

def eventsOutstanding (c : DpCtx) : Nat :=
  match c.region with
  | none => 0
  | some m => (ringHead m offEvtRing - ringTail m offEvtRing).toNat

/-- A step that dequeues a command with an answer finds room for it. -/
def RoomFor (l : Ledger) : Exchange → Prop
  | .serve => ∀ c cmd a0, popCommand l.ctx = some (c, cmd, a0) → cmd.reports → eventsOutstanding l.ctx < 64
  | .push _ _ | .drain | .bank _ | .packet _ => True

def RoomAtEach : Ledger → List Exchange → Prop
  | _, [] => True
  | l, x :: xs => RoomFor l x ∧ RoomAtEach (exchange l x) xs

def EvtSame (m m' : Mem) : Prop := ∀ a, offEvtRing ≤ a → a < offEvtRing + ringSize → m' a = m a

theorem EvtSame.trans {m m' m'' : Mem} (h : EvtSame m m') (k : EvtSame m' m'') : EvtSame m m'' :=
  fun a low high => (k a low high).trans (h a low high)

theorem evtSame_header {m : Mem} {p : Nat} {v : UInt32} (below : p + 4 ≤ offEvtRing) : EvtSame m (stLe32 m p v) := by
  intro a low _
  exact write_outside _ _ _ (by rw [show ∀ v : UInt32, (le32 v).length = 4 from fun _ => rfl]; omega)

theorem evtSame_cmdRing {m m' : Mem} (frame : ∀ a, a < offCmdRing ∨ offCmdRing + ringSize ≤ a → m' a = m a) :
    EvtSame m m' := by
  intro a low _
  refine frame a (Or.inr ?_)
  have fits : offCmdRing + ringSize ≤ offEvtRing := by decide
  omega

theorem execCommand_region {c : DpCtx} {m : Mem} (region : c.region = some m) (cmd : Cmd) (a0 : UInt64) :
    ∃ m₀, EvtSame m m₀ ∧ (execCommand c cmd a0).region = some
      (match outcome c cmd a0 with
      | none => m₀
      | some d => (ringPush m₀ offEvtRing d).getD m₀) := by
  have same : EvtSame m m := fun _ _ _ => rfl
  cases cmd with
  | ping => exact ⟨m, same, by simp only [execCommand, pushEvt, region, outcome, Option.map_some]⟩
  | getStats => exact ⟨m, same, by simp only [execCommand, pushEvt, region, outcome, Option.map_some]⟩
  | setBank =>
    unfold execCommand setBank outcome
    dsimp only
    rcases activate_cases c a0.toUInt32 with
      ⟨_, kept, failed⟩ | ⟨_, _, cleared, failed⟩ | ⟨_, _, accepted, m', t, region', _, after⟩
    · rw [if_neg failed, if_neg failed]
      exact ⟨m, same, by simp only [pushEvt, kept, region, Option.map_some]⟩
    · rw [if_neg failed, if_neg failed]
      exact ⟨m, same, by simp only [pushEvt, cleared, region, Option.map_some]⟩
    · rw [if_pos accepted, if_pos accepted]
      rw [region, Option.some.injEq] at region'
      subst region'
      refine ⟨stLe32 (stLe32 m offActiveBank a0.toUInt32) offDpState DpState.ready.code, ?_, ?_⟩
      · exact (evtSame_header (by decide)).trans (evtSame_header (by decide))
      · simp only [pushEvt, dpSetState, after, Option.map_some]
  | nop | setDefault | flushFlows | shutdown | unknown _ => exact ⟨m, same, region⟩

theorem popCommand_evtSame {c c₁ : DpCtx} {m : Mem} {cmd : Cmd} {a0 : UInt64} (region : c.region = some m)
    (h : popCommand c = some (c₁, cmd, a0)) : ∃ m₁, c₁.region = some m₁ ∧ EvtSame m m₁ := by
  unfold popCommand at h
  rw [region] at h
  obtain ⟨⟨m₁, d⟩, popped, same⟩ := Option.map_eq_some_iff.mp h
  cases same
  rw [ringPop_eq] at popped
  obtain ⟨⟨m₂, e⟩, taken, same⟩ := Option.map_eq_some_iff.mp popped
  cases same
  exact ⟨m₁, rfl, evtSame_cmdRing fun a outside => pyRingPop_frame taken outside⟩

/-! ### The books -/

/-- The event ring holds `q`, and what was read and what is held are answers in the
order of their commands. -/
structure Books (l : Ledger) (m : Mem) (first : UInt32) (q : List Entry) : Prop where
  region : l.ctx.region = some m
  holds : RingHolds m offEvtRing first q
  order : (l.read ++ q.map Entry.desc).Sublist l.outcomes

def missing (l : Ledger) (q : List Entry) : Nat := l.outcomes.length - (l.read.length + q.length)

theorem books_length {l : Ledger} {m : Mem} {first : UInt32} {q : List Entry} (h : Books l m first q) :
    l.read.length + q.length ≤ l.outcomes.length := by
  have lengths := h.order.length_le
  rwa [List.length_append, List.length_map] at lengths

theorem drainAll_holds {n : Nat} {m : Mem} {first : UInt32} {q : List Entry} (h : RingHolds m offEvtRing first q)
    (enough : q.length ≤ n) : drainAll n m = q.map Entry.desc := by
  induction n generalizing m first q with
  | zero =>
    have empty : q = [] := List.length_eq_zero_iff.mp (by omega)
    rw [empty]
    rfl
  | succ n ih =>
    unfold drainAll popEvent
    cases q with
    | nil =>
      rw [pyRingPop_nil h]
      rfl
    | cons e rest =>
      obtain ⟨m', taken, after⟩ := pyRingPop_cons h
      rw [taken, List.map_cons, ← ih after (by rw [List.length_cons] at enough; omega)]

theorem noneLost_iff {l : Ledger} {m : Mem} {first : UInt32} {q : List Entry} (h : Books l m first q) :
    NoneLost l ↔ missing l q = 0 := by
  have lengths := books_length h
  have content : readable l.ctx = q.map Entry.desc := by
    rw [readable, h.region]
    exact drainAll_holds h.holds h.holds.room
  unfold NoneLost missing
  rw [content]
  constructor
  · intro same
    rw [← same, List.length_append, List.length_map]
    omega
  · intro none
    exact h.order.eq_of_length (by rw [List.length_append, List.length_map]; omega)

theorem outstanding_holds {l : Ledger} {m : Mem} {first : UInt32} {q : List Entry} (h : Books l m first q) :
    eventsOutstanding l.ctx = q.length := by
  have room := h.holds.room
  have small := first.toNat_lt
  rw [show ringDescs.toNat = 64 from rfl] at room
  rw [eventsOutstanding, h.region]
  dsimp only
  rw [h.holds.head, h.holds.tail, UInt32.toNat_sub, UInt32.toNat_add, UInt32.toNat_ofNat']
  omega

section steps

variable {l : Ledger} {m : Mem} {first : UInt32} {q : List Entry} (h : Books l m first q)
include h

theorem books_kept {c : DpCtx} {m' : Mem} (region : c.region = some m') (same : EvtSame m m') :
    Books { l with ctx := c } m' first q := ⟨region, ringHolds_congr h.holds same, h.order⟩

theorem books_drain : ∃ m' first' q', Books (exchange l .drain) m' first' q' ∧
    missing (exchange l .drain) q' = missing l q := by
  unfold exchange
  dsimp only
  rw [h.region, Option.bind_some]
  cases q with
  | nil =>
    unfold popEvent
    rw [pyRingPop_nil h.holds]
    exact ⟨m, first, [], h, rfl⟩
  | cons e rest =>
    obtain ⟨m', taken, after⟩ := pyRingPop_cons h.holds
    unfold popEvent
    rw [taken]
    refine ⟨m', first + 1, rest, ⟨rfl, after, ?_⟩, ?_⟩
    · have order := h.order
      rw [List.map_cons] at order
      dsimp only
      rw [List.append_assoc]
      exact order
    · unfold missing
      dsimp only
      rw [List.length_append, List.length_cons, List.length_nil, List.length_cons]
      omega

theorem books_serve : ∃ m' first' q', Books (exchange l .serve) m' first' q' ∧
    missing l q ≤ missing (exchange l .serve) q' ∧
      (missing (exchange l .serve) q' = missing l q ↔ RoomFor l .serve) := by
  have lengths := books_length h
  unfold exchange RoomFor
  dsimp only
  cases popped : popCommand l.ctx with
  | none =>
    exact ⟨m, first, q, h, Nat.le_refl _, fun _ => nofun, fun _ => rfl⟩
  | some out =>
    obtain ⟨c, cmd, a0⟩ := out
    obtain ⟨m₁, region₁, same₁⟩ := popCommand_evtSame h.region popped
    obtain ⟨m₀, same₀, after⟩ := execCommand_region region₁ cmd a0
    have holds := ringHolds_congr h.holds (same₁.trans same₀)
    have reports := outcome_isSome c cmd a0
    dsimp only
    cases answer : outcome c cmd a0 with
    | none =>
      rw [answer] at after reports
      refine ⟨m₀, first, q, ⟨after, holds, by simpa using h.order⟩, ?_⟩
      rw [Option.toList_none, List.append_nil]
      unfold missing
      refine ⟨Nat.le_refl _, fun _ c' cmd' a0' same needs => ?_, fun _ => rfl⟩
      cases same
      rw [← reports] at needs
      cases needs
    | some d =>
      rw [answer] at after reports
      dsimp only at after
      rw [ringPush_eq] at after
      have outstanding := outstanding_holds h
      have spec := pyRingPush_holds holds d 0
      have longer (q' : List Entry) : missing ⟨execCommand c cmd a0, l.outcomes ++ [d], l.read⟩ q' =
          l.outcomes.length + 1 - (l.read.length + q'.length) := by
        unfold missing
        rw [List.length_append, List.length_singleton]
      rw [show ringDescs.toNat = 64 from rfl] at spec
      split at spec
      · rename_i full
        rw [spec] at after
        refine ⟨m₀, first, q, ⟨after, holds, h.order.trans (List.sublist_append_left _ _)⟩, ?_⟩
        rw [Option.toList_some, longer]
        unfold missing
        refine ⟨by omega, fun same => absurd same (by omega), fun needs => ?_⟩
        have room := needs c cmd a0 rfl reports.symm
        omega
      · rename_i space
        obtain ⟨m', pushed, holds'⟩ := spec
        rw [pushed] at after
        refine ⟨m', first, _, ⟨after, holds', ?_⟩, ?_⟩
        · rw [Option.toList_some, List.map_append, ← List.append_assoc]
          exact h.order.append (List.Sublist.refl _)
        · have room := h.holds.room
          rw [show ringDescs.toNat = 64 from rfl] at room
          rw [Option.toList_some, longer, List.length_append, List.length_singleton]
          unfold missing
          refine ⟨by omega, fun _ _ _ _ _ _ => by omega, fun _ => by omega⟩

theorem books_exchange (x : Exchange) : ∃ m' first' q', Books (exchange l x) m' first' q' ∧
    missing l q ≤ missing (exchange l x) q' ∧ (missing (exchange l x) q' = missing l q ↔ RoomFor l x) := by
  have kept {c : DpCtx} {m' : Mem} (region : c.region = some m') (same : EvtSame m m') :=
    books_kept h region same
  cases x with
  | serve => exact books_serve h
  | drain =>
    obtain ⟨m', first', q', books, same⟩ := books_drain h
    exact ⟨m', first', q', books, by omega, fun _ => trivial, fun _ => same⟩
  | push d flags =>
    refine ⟨(pyPush m d flags).getD m, first, q, kept (by rw [h.region]; rfl) ?_, Nat.le_refl _, fun _ => trivial,
      fun _ => rfl⟩
    cases pushed : pyPush m d flags with
    | none => exact fun _ _ _ => rfl
    | some m' => exact evtSame_cmdRing fun a outside => pyRingPush_frame pushed outside
  | bank content =>
    refine ⟨fun a => if offBank0 ≤ a then content a else m a, first, q, kept (by rw [h.region]; rfl) fun a _ high => ?_,
      Nat.le_refl _, fun _ => trivial, fun _ => rfl⟩
    have below : offEvtRing + ringSize ≤ offBank0 := by decide
    rw [if_neg (by omega)]
  | packet p =>
    refine ⟨m, first, q, kept ?_ fun _ _ _ => rfl, Nat.le_refl _, fun _ => trivial, fun _ => rfl⟩
    have alone := process_region l.ctx l.ctx.region p
    have region := congrArg (fun out => out.1.region) alone
    exact region.trans h.region

end steps

theorem books_exchanges {l : Ledger} {m : Mem} {first : UInt32} {q : List Entry} (h : Books l m first q)
    (xs : List Exchange) : ∃ m' first' q', Books (exchanges l xs) m' first' q' ∧
      missing l q ≤ missing (exchanges l xs) q' ∧ (missing (exchanges l xs) q' = missing l q ↔ RoomAtEach l xs) := by
  induction xs generalizing l m first q with
  | nil => exact ⟨m, first, q, h, Nat.le_refl _, fun _ => trivial, fun _ => rfl⟩
  | cons x xs ih =>
    obtain ⟨m₁, first₁, q₁, books₁, more₁, exactly₁⟩ := books_exchange h x
    obtain ⟨m₂, first₂, q₂, books₂, more₂, exactly₂⟩ := ih books₁
    rw [show exchanges l (x :: xs) = exchanges (exchange l x) xs from rfl, RoomAtEach, ← exactly₁, ← exactly₂]
    exact ⟨m₂, first₂, q₂, books₂, by omega, fun same => by omega, fun same => by omega⟩

/-- No outcome is lost exactly when every command that has one is dequeued while fewer
than 64 events are outstanding. -/
theorem none_lost_iff (c : DpCtx) (m : Mem) (region : c.region = some m)
    (empty : ringHead m offEvtRing = ringTail m offEvtRing) (schedule : List Exchange) :
    NoneLost (exchanges ⟨c, [], []⟩ schedule) ↔ RoomAtEach ⟨c, [], []⟩ schedule := by
  have start : Books ⟨c, [], []⟩ m (ringTail m offEvtRing) [] := ⟨region, ringHolds_nil empty rfl, List.Sublist.refl _⟩
  obtain ⟨m', first', q', books, _, exactly⟩ := books_exchanges start schedule
  rw [noneLost_iff books]
  exact exactly

def pingDesc : Desc := ⟨1, 7, 0, 0⟩

def pingRounds (n : Nat) : List Exchange := (List.replicate n [.push pingDesc 0, .serve]).flatten

theorem ping_round {l : Ledger} {m : Mem} {first g : UInt32} {q : List Entry} (h : Books l m first q)
    (idle : RingHolds m offCmdRing g []) :
    let l' := exchange (exchange l (.push pingDesc 0)) .serve
    (∃ m' first' q' g', Books l' m' first' q' ∧ RingHolds m' offCmdRing g' []) ∧
      l'.outcomes.length = l.outcomes.length + 1 ∧ l'.read = l.read := by
  have enqueued := pyRingPush_holds idle pingDesc 0
  rw [if_neg (by decide)] at enqueued
  obtain ⟨m₁, pushed, waiting⟩ := enqueued
  obtain ⟨_, _, _, books₁, _⟩ := books_exchange h (.push pingDesc 0)
  have region₁ : (exchange l (.push pingDesc 0)).ctx.region = some m₁ := by
    unfold exchange pyPush
    dsimp only
    rw [h.region, Option.map_some, pushed, Option.getD_some]
  obtain ⟨m₂, taken, idle₂⟩ := pyRingPop_cons waiting
  have popped : popCommand (exchange l (.push pingDesc 0)).ctx =
      some ({ (exchange l (.push pingDesc 0)).ctx with region := some m₂ }, .ping, 7) := by
    unfold popCommand
    rw [region₁]
    dsimp only
    rw [ringPop_eq, taken]
    rfl
  obtain ⟨m₃, first₃, q₃, books₃, _⟩ := books_exchange books₁ .serve
  have served : exchange (exchange l (.push pingDesc 0)) .serve =
      ⟨pushEvt { (exchange l (.push pingDesc 0)).ctx with region := some m₂ } .pong 7 0 0,
        l.outcomes ++ [⟨Evt.pong.code, 7, 0, 0⟩], l.read⟩ := by
    rw [exchange_serve popped]
    rfl
  have region₃ : some ((ringPush m₂ offEvtRing ⟨Evt.pong.code, 7, 0, 0⟩).getD m₂) = some m₃ := by
    rw [← books₃.region, served]
    rfl
  rw [Option.some.injEq] at region₃
  refine ⟨⟨m₃, first₃, q₃, _, books₃, ringHolds_congr idle₂ fun a _ high => ?_⟩, ?_, ?_⟩
  · -- The answer is written into the other ring.
    have apart : offCmdRing + ringSize ≤ offEvtRing := by decide
    rw [← region₃, ringPush_eq]
    cases answered : pyRingPush m₂ offEvtRing ⟨Evt.pong.code, 7, 0, 0⟩ 0 with
    | none => rfl
    | some m' => exact pyRingPush_frame answered (Or.inl (by omega))
  · rw [served, List.length_append, List.length_singleton]
  · rw [served]

theorem ping_rounds {l : Ledger} {m : Mem} {first g : UInt32} {q : List Entry} (n : Nat) (h : Books l m first q)
    (idle : RingHolds m offCmdRing g []) :
    (∃ m' first' q', Books (exchanges l (pingRounds n)) m' first' q') ∧
      (exchanges l (pingRounds n)).outcomes.length = l.outcomes.length + n ∧
      (exchanges l (pingRounds n)).read = l.read := by
  induction n generalizing l m first g q with
  | zero => exact ⟨⟨m, first, q, h⟩, rfl, rfl⟩
  | succ n ih =>
    obtain ⟨⟨m', first', q', g', books, idle'⟩, owed, read⟩ := ping_round h idle
    obtain ⟨books', owed', read'⟩ := ih books idle'
    rw [show exchanges l (pingRounds (n + 1)) =
      exchanges (exchange (exchange l (.push pingDesc 0)) .serve) (pingRounds n) from rfl]
    exact ⟨books', by omega, read'.trans read⟩

def idleCtx : DpCtx := (attachedCtx 1 []).get rfl

/-- 65 PINGs with no event read in between: the answer to the last one is lost. -/
theorem pings_lost :
    ∃ m, idleCtx.region = some m ∧ ringHead m offEvtRing = ringTail m offEvtRing ∧
      ¬NoneLost (exchanges ⟨idleCtx, [], []⟩ (pingRounds 65)) := by
  refine ⟨_, rfl, by decide +kernel, fun kept => ?_⟩
  have evt : RingHolds (idleCtx.region.get rfl) offEvtRing 0 [] := ringHolds_nil (by decide +kernel) (by decide +kernel)
  have cmd : RingHolds (idleCtx.region.get rfl) offCmdRing 0 [] := ringHolds_nil (by decide +kernel) (by decide +kernel)
  have start : Books ⟨idleCtx, [], []⟩ (idleCtx.region.get rfl) 0 [] := ⟨rfl, evt, List.Sublist.refl _⟩
  obtain ⟨⟨m', first', q', books⟩, owed, read⟩ := ping_rounds 65 start cmd
  have none := (noneLost_iff books).mp kept
  have room := books.holds.room
  rw [show ringDescs.toNat = 64 from rfl] at room
  unfold missing at none
  rw [owed, read] at none
  dsimp only [List.length_nil] at none
  omega

theorem pings_none_lost_iff :
    ∃ m, idleCtx.region = some m ∧ ringHead m offEvtRing = ringTail m offEvtRing ∧
      (NoneLost (exchanges ⟨idleCtx, [], []⟩ (pingRounds 65)) ↔ RoomAtEach ⟨idleCtx, [], []⟩ (pingRounds 65)) := by
  have empty : ringHead (idleCtx.region.get rfl) offEvtRing = ringTail (idleCtx.region.get rfl) offEvtRing := by
    decide +kernel
  exact ⟨_, rfl, empty, none_lost_iff idleCtx _ rfl empty (pingRounds 65)⟩

end FfnNgfw.Portable
