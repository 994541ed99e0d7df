import FfnNgfw.Protect.Pools

/-!
# Who holds which address

A pool hands out each of its addresses once as long as its ranges are disjoint, and every
session gives its address back to the pool it came from as long as a session stays with the
gateway object that made it. Three things can break this: ranges that overlap or hold the
tunnel address, a login that is still at a gateway object which a reload has replaced, and a
handler that writes its result over the mark of a session that has just been ended.
-/

namespace FfnNgfw.Protect

open Threads

/-! ### The invariant -/

/-- A reload has stopped the gateway of this session and is going to end it. -/
def Covers (ops : List Op) (r : Ref) : Prop := ∃ o ∈ ops, o = .endSession r ∨ o = .mark r none ∨ o = .endSessions r.home

def LoadLast : List Op → Prop
  | [] => True
  | op :: rest => (op.loads = true → rest = []) ∧ LoadLast rest

def Agrees (l : Ledger) (spec : Spec) : Prop := l.spec.pools = spec.pools ∧ l.spec.tunnelAddress = spec.tunnelAddress

/-! What is known of a session or a gateway while an operation on it is pending. -/

def MarkFits (b : Book) (r : Ref) (gateway : Option Nat) : Prop := ∃ s, b.seats r = some s ∧
  (gateway = none → b.gateways.lookup s.gateway ≠ some r.home) ∧ (s.ended = false → ∀ g, gateway = some g → g = r.home)

def ReleaseFits (b : Book) (r : Ref) (g : Nat) : Prop := g = r.home ∧
  ∃ s l, b.seats r = some s ∧ s.ended = true ∧ b.ledgers[g]? = some l ∧ r.id ∈ l.sessions

def StopFits (b : Book) (t : Nat) (names : List String) (protect : Dict String Spec) : Prop := b.lock = some t ∧
  (∀ item ∈ protect.items, item.2.Clean) ∧
  ∀ name g l, b.gateways.lookup name = some g → b.ledgers[g]? = some l →
    name ∈ names ∨ ∃ spec, protect.lookup name = some spec ∧ Agrees l spec

def StartFits (b : Book) (t : Nat) (specs : List (String × Spec)) : Prop := b.lock = some t ∧
  (∀ item ∈ specs, item.2.Clean) ∧ (specs.map Prod.fst).Nodup ∧
  ∀ name spec g l, (name, spec) ∈ specs → b.gateways.lookup name = some g → b.ledgers[g]? = some l → Agrees l spec

structure Sound (b : Book) (todo : Nat → List Op) : Prop where
  inForce : ∀ name g, b.gateways.lookup name = some g → ∃ l, b.ledgers[g]? = some l ∧ l.name = name
  balanced : ∀ g l, b.ledgers[g]? = some l → Balanced b g l
  home : ∀ r s, b.seats r = some s → ∃ l, b.ledgers[r.home]? = some l ∧ l.name = s.gateway ∧ r.id < l.nextId
  live : ∀ r s, b.seats r = some s → s.ended = false → ∃ l, b.ledgers[r.home]? = some l ∧ r.id ∈ l.sessions ∧
    (b.gateways.lookup s.gateway = some r.home ∨
      (b.gateways.lookup s.gateway = none ∧ ∃ t, b.lock = some t ∧ Covers (todo t) r))
  held : ∀ g l id s, b.ledgers[g]? = some l → b.gateways.lookup l.name = some g → id ∈ l.sessions →
    b.seats ⟨g, id⟩ = some s → s.ended = true → ∃ t, ∃ o ∈ todo t, o.releases = some (⟨g, id⟩, g)
  marks : ∀ t r gateway, .mark r gateway ∈ todo t → MarkFits b r gateway
  releasing : ∀ t o r g, o ∈ todo t → o.releases = some (r, g) → ReleaseFits b r g
  alone : ∀ t t' o o' r g g', o ∈ todo t → o' ∈ todo t' → o.releases = some (r, g) → o'.releases = some (r, g') → t = t'
  stopping : ∀ t names protect, .stopGateways names protect ∈ todo t → StopFits b t names protect
  starting : ∀ t specs, .startGateways specs ∈ todo t → StartFits b t specs
  loadLast : ∀ t, LoadLast (todo t)

section fits

variable {b : Book} {t g : Nat} {f : Ledger → Ledger} (keeps : ∀ l, (f l).spec = l.spec)

include keeps

theorem spec_edit {g' : Nat} {l' : Ledger} (h : (b.edit g f).ledgers[g']? = some l') :
    ∃ l, b.ledgers[g']? = some l ∧ l'.spec = l.spec := by
  rcases of_edit h with ⟨rfl, l, ledger, rfl⟩ | ⟨-, ledger⟩
  · exact ⟨l, ledger, keeps l⟩
  · exact ⟨l', ledger, rfl⟩

theorem StopFits.edit {names : List String} {protect : Dict String Spec} (h : StopFits b t names protect) :
    StopFits (b.edit g f) t names protect := by
  obtain ⟨locked, clean, agrees⟩ := h
  refine ⟨locked, clean, fun name g' l' now ledger' => ?_⟩
  obtain ⟨l, ledger, same⟩ := spec_edit keeps ledger'
  rcases agrees name g' l now ledger with later | ⟨spec, found, pools, tunnel⟩
  · exact .inl later
  · exact .inr ⟨spec, found, same ▸ pools, same ▸ tunnel⟩

theorem StartFits.edit {items : List (String × Spec)} (h : StartFits b t items) : StartFits (b.edit g f) t items := by
  obtain ⟨locked, clean, distinct, agrees⟩ := h
  refine ⟨locked, clean, distinct, fun name spec g' l' item now ledger' => ?_⟩
  obtain ⟨l, ledger, same⟩ := spec_edit keeps ledger'
  rw [Agrees, same]
  exact agrees name spec g' l item now ledger

end fits

variable {o : Op} {c c' : Config Daemon Op}

theorem call_releases (h : o.call = true) : o.releases = none := by
  cases o <;> first | rfl | cases h

theorem plain_releases (h : o.plain = true) : o.releases = none := by
  cases o <;> first | rfl | cases h

theorem plain_loads (h : o.plain = true) : o.loads = false := by
  cases o <;> first | rfl | cases h

theorem loads_releases (h : o.loads = true) : o.releases = none := by
  cases o <;> first | rfl | cases h

theorem loadLast_append {more rest : List Op} (none : ∀ o ∈ more, o.loads = false) (h : LoadLast rest) :
    LoadLast (more ++ rest) := by
  induction more with
  | nil => exact h
  | cons first others ih =>
    refine ⟨fun loads => ?_, ih fun o member => none o (List.mem_cons_of_mem _ member)⟩
    rw [none first List.mem_cons_self] at loads
    cases loads

namespace Sound

variable {b b' : Book} {todo : Nat → List Op} {t : Nat} {op : Op} {rest more : List Op}

section step

variable (h : Sound b todo) (here : todo t = op :: rest) (below : ∀ o ∈ rest, o.call = true)

include h here

theorem rest_nil (loads : op.loads = true) : rest = [] := by
  have last := h.loadLast t
  rw [here] at last
  exact last.1 loads

theorem loadLast_step (last : LoadLast rest → LoadLast (more ++ rest)) :
    ∀ t', LoadLast (Function.update todo t (more ++ rest) t') := by
  intro t'
  by_cases same : t' = t
  · subst same
    rw [Function.update_self]
    have before := h.loadLast t'
    rw [here] at before
    exact last before.2
  · rw [Function.update_of_ne same]
    exact h.loadLast t'

variable {r : Ref} {s : Seat} {protect : Dict String Spec} {name : String}

theorem releases_elsewhere {g g' : Nat} {t' : Nat} {o : Op} (below : ∀ o ∈ rest, o.call = true)
    (releases : op.releases = some (r, g)) (member : o ∈ todo t') (also : o.releases = some (r, g')) : t' = t ∧ o = op := by
  have mine : op ∈ todo t := Machine.head_mem here
  have same := h.alone t' t o op r g' g member mine also releases
  subst same
  rw [here] at member
  rcases List.mem_cons.mp member with rfl | waiting
  · exact ⟨rfl, rfl⟩
  · rw [call_releases (below o waiting)] at also
    cases also

theorem alone_step (only : ∀ r g, ∀ o ∈ more, o.releases = some (r, g) →
      op.releases = some (r, g) ∨ ∀ t', ∀ o' ∈ todo t', ∀ g', o'.releases ≠ some (r, g')) :
    ∀ t₁ t₂ o₁ o₂ r g₁ g₂, o₁ ∈ Function.update todo t (more ++ rest) t₁ → o₂ ∈ Function.update todo t (more ++ rest) t₂ →
      o₁.releases = some (r, g₁) → o₂.releases = some (r, g₂) → t₁ = t₂ := by
  have mine : op ∈ todo t := Machine.head_mem here
  intro t₁ t₂ o₁ o₂ r g₁ g₂ in₁ in₂ rel₁ rel₂
  rcases Machine.mem_after here in₁ with ⟨old₁, -⟩ | ⟨rfl, new₁⟩
  · rcases Machine.mem_after here in₂ with ⟨old₂, -⟩ | ⟨rfl, new₂⟩
    · exact h.alone t₁ t₂ o₁ o₂ r g₁ g₂ old₁ old₂ rel₁ rel₂
    · rcases only r g₂ o₂ new₂ rel₂ with still | fresh
      · exact h.alone t₁ t₂ o₁ op r g₁ g₂ old₁ mine rel₁ still
      · exact absurd rel₁ (fresh t₁ o₁ old₁ g₁)
  · rcases Machine.mem_after here in₂ with ⟨old₂, -⟩ | ⟨rfl, new₂⟩
    · rcases only r g₁ o₁ new₁ rel₁ with still | fresh
      · exact h.alone t₁ t₂ op o₂ r g₁ g₂ mine old₂ still rel₂
      · exact absurd rel₂ (fresh t₂ o₂ old₂ g₂)
    · rfl

theorem move (last : LoadLast rest → LoadLast (more ++ rest))
    (covers : b.lock = some t → ∀ r s, b.seats r = some s → s.ended = false → b.gateways.lookup s.gateway = none →
      (op = .endSession r ∨ op = .mark r none ∨ op = .endSessions r.home) → Covers (more ++ rest) r)
    (keeps : ∀ p, op.releases = some p → ∃ o ∈ more, o.releases = some p)
    (only : ∀ p, ∀ o ∈ more, o.releases = some p → op.releases = some p)
    (marks : ∀ r gateway, .mark r gateway ∈ more → MarkFits b r gateway)
    (stopping : ∀ names protect, .stopGateways names protect ∈ more → StopFits b t names protect)
    (starting : ∀ specs, .startGateways specs ∈ more → StartFits b t specs) :
    Sound b (Function.update todo t (more ++ rest)) where
  inForce := h.inForce
  balanced := h.balanced
  home := h.home
  live := by
    intro r s found open'
    obtain ⟨l, ledger, member, inForce | ⟨stopped, t', locked, o, at', cover⟩⟩ := h.live r s found open'
    · exact ⟨l, ledger, member, .inl inForce⟩
    · refine ⟨l, ledger, member, .inr ⟨stopped, t', locked, ?_⟩⟩
      rcases Machine.mem_before here more at' with still | ⟨rfl, rfl⟩
      · exact ⟨o, still, cover⟩
      · rw [Function.update_self]
        exact covers locked r s found open' stopped cover
  held := by
    intro g l id s ledger inForce member found ended
    obtain ⟨t', o, at', releases⟩ := h.held g l id s ledger inForce member found ended
    rcases Machine.mem_before here more at' with still | ⟨rfl, rfl⟩
    · exact ⟨t', o, still, releases⟩
    · obtain ⟨next, new, also⟩ := keeps _ releases
      refine ⟨t', next, ?_, also⟩
      rw [Function.update_self]
      exact List.mem_append_left _ new
  marks := by
    intro t' r gateway member
    rcases Machine.mem_after here member with ⟨old, -⟩ | ⟨-, new⟩
    · exact h.marks t' r gateway old
    · exact marks r gateway new
  releasing := by
    intro t' o r g member releases
    rcases Machine.mem_after here member with ⟨old, -⟩ | ⟨-, new⟩
    · exact h.releasing t' o r g old releases
    · exact h.releasing t op r g (Machine.head_mem here) (only _ o new releases)
  alone := h.alone_step here fun r g o new releases => .inl (only _ o new releases)
  stopping := by
    intro t' names protect member
    rcases Machine.mem_after here member with ⟨old, -⟩ | ⟨rfl, new⟩
    · exact h.stopping t' names protect old
    · exact stopping names protect new
  starting := by
    intro t' specs member
    rcases Machine.mem_after here member with ⟨old, -⟩ | ⟨rfl, new⟩
    · exact h.starting t' specs old
    · exact starting specs new
  loadLast := h.loadLast_step here last

theorem plain_step (plain : Plain op more) : Sound b (Function.update todo t (more ++ rest)) := by
  refine h.move here ?_ ?_ ?_ ?_ ?_ ?_ ?_
  · exact loadLast_append fun o member => plain_loads (plain.next o member)
  · rintro - r s - - - (rfl | rfl | rfl)
    · exact absurd rfl (plain.noEnd r)
    · cases plain.plain
    · cases plain.plain
  · intro p releases
    rw [plain_releases plain.plain] at releases
    cases releases
  · intro p o member releases
    rw [plain_releases (plain.next o member)] at releases
    cases releases
  · intro r gateway member
    cases plain.next _ member
  · intro names protect member
    cases plain.next _ member
  · intro specs member
    cases plain.next _ member

theorem live_at_load (loads : op.loads = true) (locked : b.lock = none ∨ b.lock = some t)
    (found : b.seats r = some s) (open' : s.ended = false) :
    ∃ l, b.ledgers[r.home]? = some l ∧ r.id ∈ l.sessions ∧ b.gateways.lookup s.gateway = some r.home := by
  obtain ⟨l, ledger, member, inForce | ⟨-, t', holds, o, at', cover⟩⟩ := h.live r s found open'
  · exact ⟨l, ledger, member, inForce⟩
  · rw [holds] at locked
    obtain rfl : t' = t := by
      rcases locked with free | mine
      · cases free
      · exact Option.some.inj mine
    rw [here, h.rest_nil here loads, List.mem_singleton] at at'
    subst at'
    rcases cover with rfl | rfl | rfl <;> cases loads

/-- What a reload does while nothing waits below it: the threads' other operations stay, and no
release is under way in this thread. -/
theorem load_step {next : List Op} (loads : op.loads = true) (locked : b.lock = none ∨ b.lock = some t)
    (seats : b'.seats = b.seats)
    (inForce : ∀ name g, b'.gateways.lookup name = some g → ∃ l, b'.ledgers[g]? = some l ∧ l.name = name)
    (balanced : ∀ g l, b'.ledgers[g]? = some l → Balanced b' g l)
    (ledgers : ∀ (g : Nat) l, b.ledgers[g]? = some l → ∃ l', b'.ledgers[g]? = some l' ∧ l'.name = l.name ∧
      l'.sessions = l.sessions ∧ l'.nextId = l.nextId)
    (older : ∀ name g, b'.gateways.lookup name = some g → g < b.ledgers.length → b.gateways.lookup name = some g)
    (newer : ∀ (g : Nat) l, b'.ledgers[g]? = some l → b.ledgers.length ≤ g → l.sessions = [])
    (live : ∀ r s l, b.seats r = some s → b.ledgers[r.home]? = some l → b.gateways.lookup s.gateway = some r.home →
      b'.gateways.lookup s.gateway = some r.home ∨
        (b'.gateways.lookup s.gateway = none ∧ b'.lock = some t ∧ Covers next r))
    (plain : ∀ o ∈ next, o.releases = none ∧ ∀ r gateway, o ≠ .mark r gateway)
    (stopping : ∀ names protect, .stopGateways names protect ∈ next → StopFits b' t names protect)
    (starting : ∀ specs, .startGateways specs ∈ next → StartFits b' t specs) (last : LoadLast next) :
    Sound b' (Function.update todo t (next ++ rest)) := by
  obtain rfl := h.rest_nil here loads
  have elsewhere : ∀ t' o, o ∈ todo t' → (t' = t → o ∈ ([] : List Op)) → b.lock ≠ some t' := by
    intro t' o _ away holds
    rw [holds] at locked
    rcases locked with free | mine
    · cases free
    · cases away (Option.some.inj mine)
  have inside : ∀ r s, b.seats r = some s → r.home < b.ledgers.length := by
    intro r s found
    obtain ⟨l, ledger, -⟩ := h.home r s found
    exact (List.getElem?_eq_some_iff.mp ledger).1
  refine ⟨inForce, balanced, ?_, ?_, ?_, ?_, ?_, ?_, ?_, ?_, ?_⟩
  · intro r s found
    rw [seats] at found
    obtain ⟨l, ledger, name, small⟩ := h.home r s found
    obtain ⟨l', ledger', name', -, nextId⟩ := ledgers _ l ledger
    exact ⟨l', ledger', name'.trans name, nextId ▸ small⟩
  · intro r s found open'
    rw [seats] at found
    obtain ⟨l, ledger, member, was⟩ := h.live_at_load here loads locked found open'
    obtain ⟨l', ledger', -, sessions, -⟩ := ledgers _ l ledger
    refine ⟨l', ledger', sessions ▸ member, ?_⟩
    rcases live r s l found ledger was with still | ⟨stopped, mine, covers⟩
    · exact .inl still
    · refine .inr ⟨stopped, t, mine, ?_⟩
      rw [Function.update_self, List.append_nil]
      exact covers
  · intro g l' id s ledger' now member found ended
    rw [seats] at found
    by_cases old : g < b.ledgers.length
    · obtain ⟨l, ledger⟩ : ∃ l, b.ledgers[g]? = some l := ⟨_, List.getElem?_eq_getElem old⟩
      obtain ⟨l'', same, name, sessions, -⟩ := ledgers g l ledger
      cases ledger'.symm.trans same
      rw [name] at now
      obtain ⟨t', o, at', releases⟩ := h.held g l id s ledger (older _ g now old) (sessions ▸ member) found ended
      rcases Machine.mem_before here next at' with still | ⟨rfl, rfl⟩
      · exact ⟨t', o, still, releases⟩
      · rw [loads_releases loads] at releases
        cases releases
    · rw [newer g l' ledger' (Nat.le_of_not_lt old)] at member
      cases member
  · intro t' r gateway member
    rcases Machine.mem_after here member with ⟨old, -⟩ | ⟨-, new⟩
    · obtain ⟨s, found, lost, mine⟩ := h.marks t' r gateway old
      refine ⟨s, seats ▸ found, fun none now => ?_, mine⟩
      exact lost none (older _ _ now (inside r s found))
    · exact absurd rfl ((plain _ new).2 r gateway)
  · intro t' o r g member releases
    rcases Machine.mem_after here member with ⟨old, -⟩ | ⟨-, new⟩
    · obtain ⟨rfl, s, l, found, ended, ledger, held⟩ := h.releasing t' o r g old releases
      obtain ⟨l', ledger', -, sessions, -⟩ := ledgers _ l ledger
      exact ⟨rfl, s, l', seats ▸ found, ended, ledger', sessions ▸ held⟩
    · rw [(plain o new).1] at releases
      cases releases
  · refine h.alone_step here fun r g o new releases => ?_
    rw [(plain o new).1] at releases
    cases releases
  · intro t' names protect member
    rcases Machine.mem_after here member with ⟨old, away⟩ | ⟨rfl, new⟩
    · exact absurd (h.stopping t' names protect old).1 (elsewhere t' _ old away)
    · exact stopping names protect new
  · intro t' specs member
    rcases Machine.mem_after here member with ⟨old, away⟩ | ⟨rfl, new⟩
    · exact absurd (h.starting t' specs old).1 (elsewhere t' _ old away)
    · exact starting specs new
  · refine h.loadLast_step here fun _ => ?_
    rw [List.append_nil]
    exact last

theorem lock_step {intent : Dict String RawGateway} (load : op = .load intent)
    (free : b.lock = none ∨ b.lock = some t) (clean : ∀ item ∈ protect.items, item.2.Clean) :
    Sound { b with lock := some t }
      (Function.update todo t ([.stopGateways (b.gateways.items.map Prod.fst) protect] ++ rest)) := by
  subst load
  refine h.load_step here rfl free rfl h.inForce (fun g l ledger => (h.balanced g l ledger).congr fun _ _ => rfl)
    (fun g l ledger => ⟨l, ledger, rfl, rfl, rfl⟩) (fun _ _ now _ => now) ?_ (fun r s l _ _ now => .inl now) ?_ ?_ ?_ ?_
  · intro g l ledger beyond
    exact absurd (List.getElem?_eq_some_iff.mp ledger).1 (Nat.not_lt.mpr beyond)
  · intro o member
    rw [List.mem_singleton.mp member]
    exact ⟨rfl, nofun⟩
  · intro names protect' member
    cases List.mem_singleton.mp member
    exact ⟨rfl, clean, fun name g l now _ => .inl (List.mem_map.mpr ⟨(name, g), Dict.mem_items.mpr now, rfl⟩)⟩
  · intro specs member
    cases List.mem_singleton.mp member
  · exact ⟨fun _ => rfl, trivial⟩

theorem stop_step {names : List String} {g : Nat}
    (stop : op = .stopGateways (name :: names) protect) (found : b.gateways.lookup name = some g) :
    Sound { b with gateways := b.gateways.erase name }
      (Function.update todo t ([.endSessions g, .stopGateways names protect] ++ rest)) := by
  subst stop
  have pending : .stopGateways (name :: names) protect ∈ todo t := Machine.head_mem here
  obtain ⟨locked, clean, agrees⟩ := h.stopping t _ _ pending
  have erased : ∀ other g', (b.gateways.erase name).lookup other = some g' →
      other ≠ name ∧ b.gateways.lookup other = some g' := by
    intro other g' now
    by_cases same : other = name
    · subst same
      rw [AList.lookup_erase] at now
      cases now
    · rw [AList.lookup_erase_ne same] at now
      exact ⟨same, now⟩
  refine h.load_step here rfl (.inr locked) rfl (fun other g' now => h.inForce other g' (erased other g' now).2)
    (fun g l ledger => (h.balanced g l ledger).congr fun _ _ => rfl) (fun g l ledger => ⟨l, ledger, rfl, rfl, rfl⟩)
    (fun other g' now _ => (erased other g' now).2) ?_ ?_ ?_ ?_ ?_ ?_
  · intro g l ledger beyond
    exact absurd (List.getElem?_eq_some_iff.mp ledger).1 (Nat.not_lt.mpr beyond)
  · intro r s l _ _ now
    by_cases same : s.gateway = name
    · rw [same] at now ⊢
      cases found.symm.trans now
      exact .inr ⟨AList.lookup_erase _ _, locked, _, List.mem_cons_self, .inr (.inr rfl)⟩
    · exact .inl ((AList.lookup_erase_ne same).trans now)
  · intro o member
    rcases List.mem_cons.mp member with rfl | member
    · exact ⟨rfl, nofun⟩
    · rw [List.mem_singleton.mp member]
      exact ⟨rfl, nofun⟩
  · intro names' protect' member
    rcases List.mem_cons.mp member with same | member
    · cases same
    · cases List.mem_singleton.mp member
      refine ⟨locked, clean, fun other g' l now ledger => ?_⟩
      obtain ⟨different, was⟩ := erased other g' now
      rcases agrees other g' l was ledger with later | done
      · rcases List.mem_cons.mp later with same | later
        · exact absurd same different
        · exact .inl later
      · exact .inr done
  · intro specs member
    rcases List.mem_cons.mp member with same | member
    · cases same
    · cases List.mem_singleton.mp member
  · exact ⟨nofun, fun _ => rfl, trivial⟩

theorem respec_step {spec : Spec} {specs : List (String × Spec)} {g : Nat}
    (start : op = .startGateways ((name, spec) :: specs)) (found : b.gateways.lookup name = some g) :
    Sound (b.edit g (.respec spec)) (Function.update todo t ([.startGateways specs] ++ rest)) := by
  subst start
  have pending : .startGateways ((name, spec) :: specs) ∈ todo t := Machine.head_mem here
  obtain ⟨locked, clean, distinct, agrees⟩ := h.starting t _ pending
  refine h.load_step here rfl (.inr locked) rfl ?_ ?_ ?_ (fun _ _ now _ => now) ?_ (fun r s l _ _ now => .inl now) ?_ ?_ ?_ ?_
  · intro other g' now
    obtain ⟨l, ledger, named⟩ := h.inForce other g' now
    obtain ⟨l', ledger', same⟩ := edit_keeps (f := Ledger.respec spec) (g := g) Ledger.name (fun _ => rfl) ledger
    exact ⟨l', ledger', same.trans named⟩
  · intro g' l' ledger'
    rcases of_edit ledger' with ⟨rfl, l, ledger, rfl⟩ | ⟨-, ledger⟩
    · obtain ⟨pools, tunnel⟩ := agrees name spec g' l List.mem_cons_self found ledger
      exact ((h.balanced g' l ledger).respec pools tunnel).congr fun _ _ => rfl
    · exact (h.balanced g' l' ledger).congr fun _ _ => rfl
  · intro g' l ledger
    obtain ⟨l', ledger', same⟩ := edit_keeps (f := Ledger.respec spec) (g := g)
      (fun l => (l.name, l.sessions, l.nextId)) (fun _ => rfl) ledger
    simp only [Prod.mk.injEq] at same
    exact ⟨l', ledger', same⟩
  · intro g' l' ledger' beyond
    rcases of_edit ledger' with ⟨rfl, l, ledger, rfl⟩ | ⟨-, ledger⟩
    · exact absurd (List.getElem?_eq_some_iff.mp ledger).1 (Nat.not_lt.mpr beyond)
    · exact absurd (List.getElem?_eq_some_iff.mp ledger).1 (Nat.not_lt.mpr beyond)
  · intro o member
    rw [List.mem_singleton.mp member]
    exact ⟨rfl, nofun⟩
  · intro names protect member
    cases List.mem_singleton.mp member
  · intro specs' member
    cases List.mem_singleton.mp member
    refine ⟨locked, fun item later => clean item (List.mem_cons_of_mem _ later), (List.nodup_cons.mp distinct).2, ?_⟩
    intro other spec' g' l' later now ledger'
    rcases of_edit ledger' with ⟨rfl, l, ledger, rfl⟩ | ⟨-, ledger⟩
    · obtain ⟨l₁, ledger₁, name₁⟩ := h.inForce _ _ found
      obtain ⟨l₂, ledger₂, name₂⟩ := h.inForce _ _ now
      cases ledger₁.symm.trans ledger₂
      rw [name₁] at name₂
      subst name₂
      exact absurd (List.mem_map.mpr ⟨_, later, rfl⟩) (List.nodup_cons.mp distinct).1
    · exact agrees other spec' g' l' (List.mem_cons_of_mem _ later) now ledger
  · exact ⟨fun _ => rfl, trivial⟩

theorem start_step {spec : Spec} {specs : List (String × Spec)}
    (start : op = .startGateways ((name, spec) :: specs)) (absent : b.gateways.lookup name = none) :
    Sound { b with gateways := b.gateways.assign name b.ledgers.length, ledgers := b.ledgers ++ [Ledger.fresh name spec] }
      (Function.update todo t ([.startGateways specs] ++ rest)) := by
  subst start
  have pending : .startGateways ((name, spec) :: specs) ∈ todo t := Machine.head_mem here
  obtain ⟨locked, clean, distinct, agrees⟩ := h.starting t _ pending
  have appended : ∀ {g : Nat} {l : Ledger}, (b.ledgers ++ [Ledger.fresh name spec])[g]? = some l →
      b.ledgers[g]? = some l ∨ (g = b.ledgers.length ∧ l = Ledger.fresh name spec) := by
    intro g l ledger
    by_cases old : g < b.ledgers.length
    · rw [List.getElem?_append_left old] at ledger
      exact .inl ledger
    · rw [List.getElem?_append_right (Nat.le_of_not_lt old)] at ledger
      obtain ⟨zero, value⟩ := List.getElem?_eq_some_iff.mp ledger
      rw [List.length_singleton] at zero
      exact .inr ⟨by omega, by simpa using value.symm⟩
  have older : ∀ {g : Nat} {l : Ledger}, b.ledgers[g]? = some l → (b.ledgers ++ [Ledger.fresh name spec])[g]? = some l := by
    intro g l ledger
    rw [List.getElem?_append_left (List.getElem?_eq_some_iff.mp ledger).1]
    exact ledger
  refine h.load_step here rfl (.inr locked) rfl ?_ ?_ (fun g l ledger => ⟨l, older ledger, rfl, rfl, rfl⟩) ?_ ?_ ?_ ?_ ?_ ?_ ?_
  · intro other g now
    rw [Dict.lookup_assign] at now
    split at now
    · rename_i same
      cases now
      exact ⟨Ledger.fresh name spec, by simp, same.symm⟩
    · obtain ⟨l, ledger, named⟩ := h.inForce other g now
      exact ⟨l, older ledger, named⟩
  · intro g l ledger
    rcases appended ledger with old | ⟨rfl, rfl⟩
    · exact (h.balanced g l old).congr fun _ _ => rfl
    · exact Balanced.fresh (clean (name, spec) List.mem_cons_self)
  · intro other g now small
    rw [Dict.lookup_assign] at now
    split at now
    · cases now
      exact absurd small (Nat.lt_irrefl _)
    · exact now
  · intro g l ledger beyond
    rcases appended ledger with old | ⟨-, rfl⟩
    · exact absurd (List.getElem?_eq_some_iff.mp old).1 (Nat.not_lt.mpr beyond)
    · rfl
  · intro r s l _ _ now
    have different : s.gateway ≠ name := by
      intro same
      rw [same, absent] at now
      cases now
    exact .inl (by rw [Dict.lookup_assign, if_neg different, now])
  · intro o member
    rw [List.mem_singleton.mp member]
    exact ⟨rfl, nofun⟩
  · intro names protect member
    cases List.mem_singleton.mp member
  · intro specs' member
    cases List.mem_singleton.mp member
    refine ⟨locked, fun item later => clean item (List.mem_cons_of_mem _ later), (List.nodup_cons.mp distinct).2, ?_⟩
    intro other spec' g l later now ledger
    rw [Dict.lookup_assign] at now
    split at now
    · rename_i same
      subst same
      exact absurd (List.mem_map.mpr ⟨_, later, rfl⟩) (List.nodup_cons.mp distinct).1
    · obtain ⟨l', ledger', -⟩ := h.inForce other g now
      cases (older ledger').symm.trans ledger
      exact agrees other spec' g l (List.mem_cons_of_mem _ later) now ledger'
  · exact ⟨fun _ => rfl, trivial⟩

theorem unlock_step (start : op = .startGateways []) :
    Sound { b with lock := none } (Function.update todo t ([] ++ rest)) := by
  subst start
  have pending : .startGateways [] ∈ todo t := Machine.head_mem here
  refine h.load_step here rfl (.inr (h.starting t _ pending).1) rfl h.inForce
    (fun g l ledger => (h.balanced g l ledger).congr fun _ _ => rfl) (fun g l ledger => ⟨l, ledger, rfl, rfl, rfl⟩)
    (fun _ _ now _ => now) ?_ (fun r s l _ _ now => .inl now) (List.forall_mem_nil _) ?_ ?_ trivial
  · intro g l ledger beyond
    exact absurd (List.getElem?_eq_some_iff.mp ledger).1 (Nat.not_lt.mpr beyond)
  · intro names protect member
    cases member
  · intro specs member
    cases member

/-! The steps of a reload that leave the book alone. -/

theorem load_move {next : List Op} (loads : op.loads = true) (plain : ∀ o ∈ next, o.releases = none ∧ ∀ r gateway, o ≠ .mark r gateway)
    (stopping : ∀ names protect, .stopGateways names protect ∈ next → StopFits b t names protect)
    (starting : ∀ specs, .startGateways specs ∈ next → StartFits b t specs) (last : LoadLast next) :
    Sound b (Function.update todo t (next ++ rest)) := by
  obtain rfl := h.rest_nil here loads
  refine h.move here (fun _ => ?_) ?_ ?_ ?_ ?_ stopping starting
  · rw [List.append_nil]
    exact last
  · rintro - r s - - - (rfl | rfl | rfl) <;> cases loads
  · intro p releases
    rw [loads_releases loads] at releases
    cases releases
  · intro p o member releases
    rw [(plain o member).1] at releases
    cases releases
  · intro r gateway member
    exact absurd rfl ((plain _ member).2 r gateway)

theorem refused_step {intent : Dict String RawGateway} (load : op = .load intent) :
    Sound b (Function.update todo t ([] ++ rest)) := by
  subst load
  exact h.load_move here rfl (List.forall_mem_nil _) (fun _ _ member => nomatch member) (fun _ member => nomatch member) trivial

theorem stopped_step (stop : op = .stopGateways [] protect) :
    Sound b (Function.update todo t ([.startGateways protect.items] ++ rest)) := by
  subst stop
  have pending : .stopGateways [] protect ∈ todo t := Machine.head_mem here
  obtain ⟨locked, clean, agrees⟩ := h.stopping t _ _ pending
  refine h.load_move here rfl ?_ ?_ ?_ ⟨fun _ => rfl, trivial⟩
  · intro o member
    rw [List.mem_singleton.mp member]
    exact ⟨rfl, nofun⟩
  · intro names protect' member
    cases List.mem_singleton.mp member
  · intro specs member
    cases List.mem_singleton.mp member
    refine ⟨locked, clean, Dict.items_nodup protect, ?_⟩
    intro name spec g l item now ledger
    rcases agrees name g l now ledger with impossible | ⟨spec', found, agree⟩
    · cases impossible
    · cases (Dict.mem_items.mp item).symm.trans found
      exact agree

theorem kept_step {names : List String} (stop : op = .stopGateways (name :: names) protect)
    (keeps : ∀ g l, b.gateways.lookup name = some g → b.ledgers[g]? = some l → ∃ spec, protect.lookup name = some spec ∧ Agrees l spec) :
    Sound b (Function.update todo t ([.stopGateways names protect] ++ rest)) := by
  subst stop
  have pending : .stopGateways (name :: names) protect ∈ todo t := Machine.head_mem here
  obtain ⟨locked, clean, agrees⟩ := h.stopping t _ _ pending
  refine h.load_move here rfl ?_ ?_ ?_ ⟨fun _ => rfl, trivial⟩
  · intro o member
    rw [List.mem_singleton.mp member]
    exact ⟨rfl, nofun⟩
  · intro names' protect' member
    cases List.mem_singleton.mp member
    refine ⟨locked, clean, fun other g l now ledger => ?_⟩
    rcases agrees other g l now ledger with later | done
    · rcases List.mem_cons.mp later with rfl | later
      · exact .inr (keeps g l now ledger)
      · exact .inl later
    · exact .inr done
  · intro specs member
    cases List.mem_singleton.mp member

/-! The steps from `endSession` on. -/

theorem snapshot_step {g : Nat} {l : Ledger} (snapshot : op = .endSessions g) (ledger : b.ledgers[g]? = some l) :
    Sound b (Function.update todo t (endAll g l.sessions ++ [.stopWorker g] ++ rest)) := by
  subst snapshot
  have each : ∀ o ∈ endAll g l.sessions ++ [.stopWorker g], o.plain = true := by
    intro o member
    rcases List.mem_append.mp member with ended | last
    · obtain ⟨id, -, rfl⟩ := mem_endAll ended
      rfl
    · rw [List.mem_singleton.mp last]
      rfl
  refine h.move here (loadLast_append fun o member => plain_loads (each o member)) ?_ ?_ ?_ ?_ ?_ ?_
  · rintro - r s found open' - (same | same | same)
    · cases same
    · cases same
    · cases same
      obtain ⟨l', ledger', member, -⟩ := h.live r s found open'
      cases ledger.symm.trans ledger'
      refine ⟨.endSession r, ?_, .inl rfl⟩
      exact List.mem_append_left _ (List.mem_append_left _ (List.mem_map.mpr ⟨r.id, member, rfl⟩))
  · intro p releases
    cases releases
  · intro p o member releases
    rw [plain_releases (each o member)] at releases
    cases releases
  · intro r gateway member
    cases each _ member
  · intro names protect member
    cases each _ member
  · intro specs member
    cases each _ member

theorem drop_step (quiet : op.releases = none)
    (idle : ∀ r s, b.seats r = some s → s.ended = false → ¬(op = .endSession r ∨ op = .mark r none ∨ op = .endSessions r.home)) :
    Sound b (Function.update todo t ([] ++ rest)) := by
  refine h.move here id ?_ ?_ ?_ ?_ ?_ ?_
  · intro _ r s found open' _ cover
    exact absurd cover (idle r s found open')
  · intro p releases
    rw [quiet] at releases
    cases releases
  · intro p o member
    cases member
  · intro r gateway member
    cases member
  · intro names protect member
    cases member
  · intro specs member
    cases member

theorem ends_step (ends : op = .endSession r) (found : b.seats r = some s) :
    Sound b (Function.update todo t ([.mark r (b.gateways.lookup s.gateway)] ++ rest)) := by
  subst ends
  refine h.move here (loadLast_append ?_) ?_ ?_ ?_ ?_ ?_ ?_
  · intro o member
    rw [List.mem_singleton.mp member]
    rfl
  · rintro - r' s' found' - stopped (same | same | same)
    · cases same
      cases found.symm.trans found'
      exact ⟨_, List.mem_cons_self, .inr (.inl (by rw [stopped]))⟩
    · cases same
    · cases same
  · intro p releases
    cases releases
  · intro p o member releases
    rw [List.mem_singleton.mp member] at releases
    cases releases
  · intro r' gateway member
    cases List.mem_singleton.mp member
    refine ⟨s, found, fun none now => ?_, fun open' g now => ?_⟩
    · rw [none] at now
      cases now
    · obtain ⟨-, -, -, inForce | ⟨stopped, -⟩⟩ := h.live r s found open'
      · exact Option.some.inj (now.symm.trans inForce)
      · rw [stopped] at now
        cases now
  · intro names protect member
    cases List.mem_singleton.mp member
  · intro specs member
    cases List.mem_singleton.mp member

theorem drops_step {g : Nat} (drops : op = .dropCookie r (some g)) :
    Sound b (Function.update todo t ([.release r g] ++ rest)) := by
  subst drops
  refine h.move here (loadLast_append ?_) ?_ ?_ ?_ ?_ ?_ ?_
  · intro o member
    rw [List.mem_singleton.mp member]
    rfl
  · rintro - r' s' - - - (same | same | same) <;> cases same
  · intro p releases
    exact ⟨_, List.mem_cons_self, releases⟩
  · intro p o member releases
    rw [List.mem_singleton.mp member] at releases
    exact releases
  · intro r' gateway member
    cases List.mem_singleton.mp member
  · intro names protect member
    cases List.mem_singleton.mp member
  · intro specs member
    cases List.mem_singleton.mp member

theorem marks_step {gateway : Option Nat} (mark : op = .mark r gateway)
    (found : b.seats r = some s) (open' : s.ended = false) :
    Sound (b.endSeat r) (Function.update todo t ([.dropCookie r gateway] ++ rest)) := by
  subst mark
  have pending : .mark r gateway ∈ todo t := Machine.head_mem here
  obtain ⟨s₀, found₀, lost, mine⟩ := h.marks t r gateway pending
  cases found.symm.trans found₀
  have unmarked : ∀ t', ∀ o ∈ todo t', ∀ g, o.releases ≠ some (r, g) := by
    intro t' o member g releases
    obtain ⟨-, s', -, found', ended, -⟩ := h.releasing t' o r g member releases
    cases found.symm.trans found'
    rw [open'] at ended
    cases ended
  have next : ∀ o ∈ [Op.dropCookie r gateway], o = .dropCookie r gateway := fun o member => List.mem_singleton.mp member
  refine ⟨h.inForce, ?_, ?_, ?_, ?_, ?_, ?_, ?_, ?_, ?_, ?_⟩
  · intro g l ledger
    have before := h.balanced g l ledger
    have addresses : l.sessions.map ((b.endSeat r).address g) = l.sessions.map (b.address g) := by
      refine List.map_congr_left fun id member => ?_
      obtain ⟨s', seat⟩ := before.seated id member
      rw [Book.address, Book.address, endSeat_seat seat, seat]
      rfl
    refine ⟨before.clean, addresses ▸ before.shared, fun a => addresses ▸ before.used a, before.distinct, ?_⟩
    intro id member
    obtain ⟨s', seat⟩ := before.seated id member
    exact ⟨_, endSeat_seat seat⟩
  · intro r' s' found'
    obtain ⟨s₁, found₁, same, -⟩ := of_endSeat found'
    rw [same]
    exact h.home r' s₁ found₁
  · intro r' s' found' still
    obtain ⟨s₁, found₁, same, -, ended⟩ := of_endSeat found'
    rw [still, eq_comm, Bool.or_eq_false_iff, decide_eq_false_iff_not] at ended
    obtain ⟨l, ledger, member, inForce | ⟨stopped, t', locked, o, at', cover⟩⟩ := h.live r' s₁ found₁ ended.1
    · exact ⟨l, ledger, member, .inl (same ▸ inForce)⟩
    · refine ⟨l, ledger, member, .inr ⟨same ▸ stopped, t', locked, ?_⟩⟩
      rcases Machine.mem_before here [.dropCookie r gateway] at' with kept | ⟨-, rfl⟩
      · exact ⟨o, kept, cover⟩
      · rcases cover with cover | cover | cover
        · cases cover
        · cases cover
          exact absurd rfl ended.2
        · cases cover
  · intro g l id s' ledger inForce member found' ended
    obtain ⟨s₁, found₁, same, -, ended₁⟩ := of_endSeat found'
    by_cases this : (⟨g, id⟩ : Ref) = r
    · subst this
      cases found.symm.trans found₁
      obtain ⟨l', ledger', name, -⟩ := h.home _ s found
      cases ledger.symm.trans ledger'
      cases gateway with
      | none =>
        rw [name] at inForce
        exact absurd inForce (lost rfl)
      | some g' =>
        have home : g' = g := mine open' g' rfl
        subst home
        refine ⟨t, .dropCookie ⟨g', id⟩ (some g'), ?_, rfl⟩
        rw [Function.update_self]
        exact List.mem_append_left _ List.mem_cons_self
    · have before : s₁.ended = true := by
        simpa [this, ended] using ended₁.symm
      obtain ⟨t', o, at', releases⟩ := h.held g l id s₁ ledger inForce member found₁ before
      rcases Machine.mem_before here [.dropCookie r gateway] at' with kept | ⟨-, rfl⟩
      · exact ⟨t', o, kept, releases⟩
      · cases releases
  · intro t' r' gateway' member
    rcases Machine.mem_after here member with ⟨old, -⟩ | ⟨-, new⟩
    · obtain ⟨s₁, found₁, lost', mine'⟩ := h.marks t' r' gateway' old
      refine ⟨_, endSeat_seat found₁, lost', fun still => mine' ?_⟩
      exact (Bool.or_eq_false_iff.mp still).1
    · cases next _ new
  · intro t' o r' g member releases
    rcases Machine.mem_after here member with ⟨old, -⟩ | ⟨-, new⟩
    · obtain ⟨home, s₁, l, found₁, ended, ledger, held⟩ := h.releasing t' o r' g old releases
      exact ⟨home, _, l, endSeat_seat found₁, by simp [ended], ledger, held⟩
    · rw [next o new] at releases
      cases gateway with
      | none => cases releases
      | some g' =>
        cases releases
        obtain ⟨l, ledger, member, -⟩ := h.live r s found open'
        have home := mine open' g rfl
        exact ⟨home, _, l, endSeat_seat found, by simp, home ▸ ledger, member⟩
  · refine h.alone_step here fun r' g o new releases => ?_
    rw [next o new] at releases
    cases gateway with
    | none => cases releases
    | some g' =>
      cases releases
      exact .inr unmarked
  · intro t' names protect member
    rcases Machine.mem_after here member with ⟨old, -⟩ | ⟨-, new⟩
    · exact h.stopping t' names protect old
    · cases next _ new
  · intro t' specs member
    rcases Machine.mem_after here member with ⟨old, -⟩ | ⟨-, new⟩
    · exact h.starting t' specs old
    · cases next _ new
  · exact h.loadLast_step here (loadLast_append fun o new => by rw [next o new]; rfl)

theorem releases_step {g : Nat} (below : ∀ o ∈ rest, o.call = true) (release : op = .release r g)
    (found : b.seats r = some s) :
    Sound (b.edit g (.dismiss r.id s.clientIp)) (Function.update todo t ([.cleanUp r g] ++ rest)) := by
  subst release
  have pending : .release r g ∈ todo t := Machine.head_mem here
  obtain ⟨rfl, s₀, l₀, found₀, ended, ledger₀, held⟩ := h.releasing t _ r g pending rfl
  cases found.symm.trans found₀
  have next : ∀ o ∈ [Op.cleanUp r r.home], o = .cleanUp r r.home := fun o member => List.mem_singleton.mp member
  have kept : ∀ {g : Nat} {l : Ledger}, b.ledgers[g]? = some l →
      ∃ l', (b.edit r.home (.dismiss r.id s.clientIp)).ledgers[g]? = some l' ∧ (l'.name, l'.nextId) = (l.name, l.nextId) :=
    fun ledger => edit_keeps (fun l => (l.name, l.nextId)) (fun _ => rfl) ledger
  -- Another session of the table stays in it.
  have stays : ∀ {r' : Ref} {l : Ledger}, r' ≠ r → b.ledgers[r'.home]? = some l → r'.id ∈ l.sessions →
      ∃ l', (b.edit r.home (.dismiss r.id s.clientIp)).ledgers[r'.home]? = some l' ∧ r'.id ∈ l'.sessions := by
    intro r' l different ledger member
    by_cases same : r'.home = r.home
    · rw [same] at ledger ⊢
      refine ⟨_, edit_here ledger, List.mem_filter.mpr ⟨member, decide_eq_true fun id => different ?_⟩⟩
      cases r
      cases r'
      cases same
      cases id
      rfl
    · exact ⟨l, (edit_other same).trans ledger, member⟩
  refine ⟨?_, ?_, ?_, ?_, ?_, ?_, ?_, ?_, ?_, ?_, ?_⟩
  · intro name g now
    obtain ⟨l, ledger, named⟩ := h.inForce name g now
    obtain ⟨l', ledger', same⟩ := kept ledger
    exact ⟨l', ledger', (congrArg Prod.fst same).trans named⟩
  · intro g l' ledger'
    rcases of_edit ledger' with ⟨rfl, l, ledger, rfl⟩ | ⟨-, ledger⟩
    · cases ledger₀.symm.trans ledger
      exact ((h.balanced _ l₀ ledger₀).dismiss held found).congr fun _ _ => rfl
    · exact (h.balanced g l' ledger).congr fun _ _ => rfl
  · intro r' s' found'
    obtain ⟨l, ledger, name, small⟩ := h.home r' s' found'
    obtain ⟨l', ledger', same⟩ := kept ledger
    simp only [Prod.mk.injEq] at same
    exact ⟨l', ledger', same.1.trans name, same.2 ▸ small⟩
  · intro r' s' found' open'
    obtain ⟨l, ledger, member, force⟩ := h.live r' s' found' open'
    have different : r' ≠ r := by
      rintro rfl
      cases found.symm.trans found'
      rw [ended] at open'
      cases open'
    obtain ⟨l', ledger', member'⟩ := stays different ledger member
    refine ⟨l', ledger', member', ?_⟩
    rcases force with inForce | ⟨stopped, t', locked, o, at', cover⟩
    · exact .inl inForce
    · refine .inr ⟨stopped, t', locked, ?_⟩
      rcases Machine.mem_before here [.cleanUp r r.home] at' with still | ⟨-, rfl⟩
      · exact ⟨o, still, cover⟩
      · rcases cover with cover | cover | cover <;> cases cover
  · intro g l' id s' ledger' inForce member found' ended'
    obtain ⟨l, ledger, named, before, different⟩ : ∃ l, b.ledgers[g]? = some l ∧ l'.name = l.name ∧ id ∈ l.sessions ∧
        (⟨g, id⟩ : Ref) ≠ r := by
      rcases of_edit ledger' with ⟨rfl, l, ledger, rfl⟩ | ⟨elsewhere, ledger⟩
      · obtain ⟨before, other⟩ := List.mem_filter.mp member
        exact ⟨l, ledger, rfl, before, fun same => of_decide_eq_true other (congrArg Ref.id same)⟩
      · exact ⟨l', ledger, rfl, member, fun same => elsewhere (congrArg Ref.home same)⟩
    rw [named] at inForce
    obtain ⟨t', o, at', releases⟩ := h.held g l id s' ledger inForce before found' ended'
    rcases Machine.mem_before here [.cleanUp r r.home] at' with still | ⟨-, rfl⟩
    · exact ⟨t', o, still, releases⟩
    · cases releases
      exact absurd rfl different
  · intro t' r' gateway member
    rcases Machine.mem_after here member with ⟨old, -⟩ | ⟨-, new⟩
    · exact h.marks t' r' gateway old
    · cases next _ new
  · intro t' o r' g member releases
    rcases Machine.mem_after here member with ⟨old, still⟩ | ⟨-, new⟩
    · obtain ⟨rfl, s', l, found', ended', ledger, held'⟩ := h.releasing t' o r' g old releases
      have different : r' ≠ r := by
        rintro rfl
        obtain ⟨rfl, rfl⟩ := h.releases_elsewhere here below rfl old releases
        have waiting := call_releases (below _ (still rfl))
        cases waiting
      obtain ⟨l', ledger', member'⟩ := stays different ledger held'
      exact ⟨rfl, s', l', found', ended', ledger', member'⟩
    · rw [next o new] at releases
      cases releases
  · refine h.alone_step here fun r' g o new releases => ?_
    rw [next o new] at releases
    cases releases
  · intro t' names protect member
    rcases Machine.mem_after here member with ⟨old, -⟩ | ⟨-, new⟩
    · exact StopFits.edit (f := .dismiss r.id s.clientIp) (fun _ => rfl) (h.stopping t' names protect old)
    · cases next _ new
  · intro t' specs member
    rcases Machine.mem_after here member with ⟨old, -⟩ | ⟨-, new⟩
    · exact StartFits.edit (f := .dismiss r.id s.clientIp) (fun _ => rfl) (h.starting t' specs old)
    · cases next _ new
  · exact h.loadLast_step here (loadLast_append fun o new => by rw [next o new]; rfl)

theorem allocates_step {g : Nat} {user source : String} {preferred : Option UInt32} {l : Ledger} {clientIp : UInt32}
    {pool : Pool} (allocate : op = .allocate g user source preferred) (ledger : b.ledgers[g]? = some l)
    (given : l.pool.allocate preferred = some (clientIp, pool)) (inForce : b.gateways.lookup l.name = some g) :
    Sound { b.edit g (.allot pool) with seats := Function.update b.seats ⟨g, l.nextId⟩ (some (l.seat clientIp)) }
      (Function.update todo t ([.addCookie ⟨g, l.nextId⟩] ++ rest)) := by
  subst allocate
  have next : ∀ o ∈ [Op.addCookie ⟨g, l.nextId⟩], o = .addCookie ⟨g, l.nextId⟩ := fun o member => List.mem_singleton.mp member
  have unused : b.seats ⟨g, l.nextId⟩ = none := by
    cases before : b.seats ⟨g, l.nextId⟩ with
    | none => rfl
    | some s =>
      obtain ⟨l', ledger', -, small⟩ := h.home _ s before
      cases ledger.symm.trans ledger'
      exact absurd small (Nat.lt_irrefl _)
  have older : ∀ {r : Ref} {s : Seat}, b.seats r = some s →
      Function.update b.seats ⟨g, l.nextId⟩ (some (l.seat clientIp)) r = some s := by
    intro r s found
    have different : r ≠ ⟨g, l.nextId⟩ := by
      rintro rfl
      rw [unused] at found
      cases found
    rw [Function.update_of_ne different]
    exact found
  have cases' : ∀ {r : Ref} {s : Seat}, Function.update b.seats ⟨g, l.nextId⟩ (some (l.seat clientIp)) r = some s →
      b.seats r = some s ∨ (r = ⟨g, l.nextId⟩ ∧ s = l.seat clientIp) := by
    intro r s found
    by_cases same : r = ⟨g, l.nextId⟩
    · subst same
      rw [Function.update_self] at found
      exact .inr ⟨rfl, (Option.some.inj found).symm⟩
    · rw [Function.update_of_ne same] at found
      exact .inl found
  -- Whoever is in a table stays in it.
  have stays : ∀ {g' : Nat} {l₁ : Ledger}, b.ledgers[g']? = some l₁ → ∃ l', (b.edit g (.allot pool)).ledgers[g']? = some l' ∧
      l'.name = l₁.name ∧ l₁.nextId ≤ l'.nextId ∧ ∀ id ∈ l₁.sessions, id ∈ l'.sessions := by
    intro g' l₁ ledger₁
    by_cases same : g' = g
    · subst same
      exact ⟨_, edit_here ledger₁, rfl, Nat.le_succ _, fun id member => List.mem_append_left _ member⟩
    · exact ⟨l₁, (edit_other same).trans ledger₁, rfl, Nat.le_refl _, fun id member => member⟩
  refine ⟨?_, ?_, ?_, ?_, ?_, ?_, ?_, ?_, ?_, ?_, ?_⟩
  · intro name g' now
    obtain ⟨l₁, ledger₁, named⟩ := h.inForce name g' now
    obtain ⟨l', ledger', same, -⟩ := stays ledger₁
    exact ⟨l', ledger', same.trans named⟩
  · intro g' l' ledger'
    rcases of_edit ledger' with ⟨rfl, l₁, ledger₁, rfl⟩ | ⟨different, ledger₁⟩
    · cases ledger.symm.trans ledger₁
      refine (h.balanced _ l ledger).allot given unused (Function.update_self ..) fun id other => ?_
      refine Function.update_of_ne (fun same => other ?_) ..
      exact congrArg Ref.id same
    · refine (h.balanced g' l' ledger₁).congr fun id _ => Function.update_of_ne (fun same => different ?_) ..
      exact congrArg Ref.home same
  · intro r s found
    rcases cases' found with before | ⟨rfl, rfl⟩
    · obtain ⟨l₁, ledger₁, name, small⟩ := h.home r s before
      obtain ⟨l', ledger', same, later, -⟩ := stays ledger₁
      exact ⟨l', ledger', same.trans name, Nat.lt_of_lt_of_le small later⟩
    · exact ⟨_, edit_here ledger, rfl, Nat.lt_succ_self _⟩
  · intro r s found open'
    rcases cases' found with before | ⟨rfl, rfl⟩
    · obtain ⟨l₁, ledger₁, member, force⟩ := h.live r s before open'
      obtain ⟨l', ledger', -, -, sessions⟩ := stays ledger₁
      refine ⟨l', ledger', sessions _ member, ?_⟩
      rcases force with now | ⟨stopped, t', locked, o, at', cover⟩
      · exact .inl now
      · refine .inr ⟨stopped, t', locked, ?_⟩
        rcases Machine.mem_before here [.addCookie ⟨g, l.nextId⟩] at' with still | ⟨-, rfl⟩
        · exact ⟨o, still, cover⟩
        · rcases cover with cover | cover | cover <;> cases cover
    · exact ⟨_, edit_here ledger, List.mem_append_right _ List.mem_cons_self, .inl inForce⟩
  · intro g' l' id s ledger' now member found ended
    rcases cases' found with before | ⟨same, rfl⟩
    · obtain ⟨l₁, ledger₁, named, member₁⟩ : ∃ l₁, b.ledgers[g']? = some l₁ ∧ l'.name = l₁.name ∧ id ∈ l₁.sessions := by
        rcases of_edit ledger' with ⟨rfl, l₁, ledger₁, rfl⟩ | ⟨-, ledger₁⟩
        · rcases List.mem_append.mp member with old | new
          · exact ⟨l₁, ledger₁, rfl, old⟩
          · cases ledger.symm.trans ledger₁
            rw [List.mem_singleton.mp new, unused] at before
            cases before
        · exact ⟨l', ledger₁, rfl, member⟩
      rw [named] at now
      obtain ⟨t', o, at', releases⟩ := h.held g' l₁ id s ledger₁ now member₁ before ended
      rcases Machine.mem_before here [.addCookie ⟨g, l.nextId⟩] at' with still | ⟨-, rfl⟩
      · exact ⟨t', o, still, releases⟩
      · cases releases
    · cases ended
  · intro t' r gateway member
    rcases Machine.mem_after here member with ⟨old, -⟩ | ⟨-, new⟩
    · obtain ⟨s, found, fits⟩ := h.marks t' r gateway old
      exact ⟨s, older found, fits⟩
    · cases next _ new
  · intro t' o r g' member releases
    rcases Machine.mem_after here member with ⟨old, -⟩ | ⟨-, new⟩
    · obtain ⟨rfl, s, l₁, found, ended, ledger₁, held⟩ := h.releasing t' o r g' old releases
      obtain ⟨l', ledger', -, -, sessions⟩ := stays ledger₁
      exact ⟨rfl, s, l', older found, ended, ledger', sessions _ held⟩
    · rw [next o new] at releases
      cases releases
  · refine h.alone_step here fun r' g o new releases => ?_
    rw [next o new] at releases
    cases releases
  · intro t' names protect member
    rcases Machine.mem_after here member with ⟨old, -⟩ | ⟨-, new⟩
    · exact StopFits.edit (g := g) (f := .allot pool) (fun _ => rfl) (h.stopping t' names protect old)
    · cases next _ new
  · intro t' specs member
    rcases Machine.mem_after here member with ⟨old, -⟩ | ⟨-, new⟩
    · exact StartFits.edit (g := g) (f := .allot pool) (fun _ => rfl) (h.starting t' specs old)
    · cases next _ new
  · exact h.loadLast_step here (loadLast_append fun o new => by rw [next o new]; rfl)

end step

/-- The condition under which an operation keeps the addresses apart, on the book. -/
structure Allows (b : Book) (op : Op) : Prop where
  load : ∀ intent protect, op = .load intent → validateIntent intent = .ok protect → ∀ item ∈ protect.items, item.2.Clean
  allocate : ∀ g user source preferred l, op = .allocate g user source preferred → b.ledgers[g]? = some l →
    b.gateways.lookup l.name = some g
  setResult : ∀ r text s, op = .setResult r text → b.seats r = some s → s.ended = false

theorem step (h : Sound b todo) (here : todo t = op :: rest) (below : ∀ o ∈ rest, o.call = true)
    (allows : Allows b op) (change : Change t b op b' more) : Sound b' (Function.update todo t (more ++ rest)) := by
  cases change with
  | plain plain => exact h.plain_step here plain
  | refused => exact h.refused_step here rfl
  | lock valid free => exact h.lock_step here rfl free (allows.load _ _ rfl valid)
  | stopped => exact h.stopped_step here rfl
  | kept keeps => exact h.kept_step here rfl keeps
  | stop found => exact h.stop_step here rfl found
  | respec found => exact h.respec_step here rfl found
  | start absent => exact h.start_step here rfl absent
  | unlock => exact h.unlock_step here rfl
  | snapshot ledger => exact h.snapshot_step here rfl ledger
  | noSnapshot absent =>
    refine h.drop_step here rfl ?_
    rintro r s found open' (cover | cover | cover)
    · cases cover
    · cases cover
    · cases cover
      obtain ⟨l, ledger, -⟩ := h.live r s found open'
      rw [absent] at ledger
      cases ledger
  | ends found => exact h.ends_step here rfl found
  | noSession absent =>
    refine h.drop_step here rfl ?_
    rintro r s found - (cover | cover | cover)
    · cases cover
      rw [absent] at found
      cases found
    · cases cover
    · cases cover
  | marks found open' => exact h.marks_step here rfl found open'
  | marked ended =>
    refine h.drop_step here rfl ?_
    rintro r s found open' (cover | cover | cover)
    · cases cover
    · cases cover
      rw [ended s found] at open'
      cases open'
    · cases cover
  | drops => exact h.drops_step here rfl
  | dropsOnly =>
    refine h.drop_step here rfl ?_
    rintro r s - - (cover | cover | cover) <;> cases cover
  | releases found => exact h.releases_step here below rfl found
  | @noRelease r g absent =>
    have pending : .release r g ∈ todo t := Machine.head_mem here
    obtain ⟨-, s, -, found, -⟩ := h.releasing t _ r g pending rfl
    rw [absent] at found
    cases found
  | allocates ledger given => exact h.allocates_step here rfl ledger given (allows.allocate _ _ _ _ _ rfl ledger)
  | result same =>
    obtain rfl := same fun s found => allows.setResult _ _ s rfl found
    exact h.plain_step here (plain_nil rfl nofun)

end Sound

/-! ### Runs of the daemon -/

/-- The condition under which an operation keeps the addresses apart: a reload brings clean
gateways, a login allocates from the gateway object in force, and a handler does not write
its result over the mark of an ended session. -/
def Op.apart (d : Daemon) : Op → Bool
  | .load intent =>
    match validateIntent intent with
    | .error _ => true
    | .ok protect => protect.items.all fun item => item.2.Clean
  | .allocate g _ _ _ => (d.objects[g]?).all fun o => d.gateways.lookup o.name = some g
  | .setResult r _ => (d.heap r).all fun s => ¬s.Ended
  | _ => true

def stepsApart (c : Config Daemon Op) : Act Op → Bool
  | .start _ _ => true
  | .run t => (c.todo t).head?.all (·.apart c.shared)

theorem apart_allows {d : Daemon} {op : Op} (h : op.apart d = true) : Sound.Allows d.book op where
  load := by
    rintro intent protect rfl valid item member
    simp only [Op.apart, valid, List.all_eq_true, decide_eq_true_eq] at h
    exact h item member
  allocate := by
    rintro g user source preferred l rfl ledger
    obtain ⟨o, object, rfl⟩ := book_ledger ledger
    simp only [Op.apart, object, Option.all_some, decide_eq_true_eq] at h
    exact h
  setResult := by
    rintro r text s rfl found
    cases before : d.heap r with
    | none =>
      rw [seat_none before] at found
      cases found
    | some s' =>
      rw [seat_book before] at found
      cases found
      simp only [Op.apart, before, Option.all_some, decide_eq_true_eq] at h
      exact decide_eq_false h

structure Sorted (c : Config Daemon Op) : Prop where
  sound : Sound c.shared.book c.todo
  tails : ∀ t, ∀ o ∈ (c.todo t).tail, o.call = true

theorem start_sorted : Sorted start where
  sound := by
    refine ⟨?_, ?_, ?_, ?_, ?_, ?_, ?_, ?_, ?_, ?_, ?_⟩ <;> simp [start, Daemon.init, Daemon.book, LoadLast, AList.lookup_empty]
  tails := by simp [start]

theorem takes_plain {t : Nat} {job : Op} (h : takes t job = true) :
    job.releases = none ∧ (∀ r gateway, job ≠ .mark r gateway) ∧ (∀ names protect, job ≠ .stopGateways names protect) ∧
      ∀ specs, job ≠ .startGateways specs := by
  cases job <;> first | cases h | exact ⟨rfl, nofun, nofun, nofun⟩

theorem Sound.begin {b : Book} {todo : Nat → List Op} {t : Nat} {job : Op} (h : Sound b todo) (idle : todo t = [])
    (taken : takes t job = true) : Sound b (Function.update todo t [job]) := by
  obtain ⟨quiet, noMark, noStop, noStart⟩ := takes_plain taken
  have busy : ∀ {t' : Nat} {o : Op}, o ∈ Function.update todo t [job] t' → o ∈ todo t' ∨ o = job := by
    intro t' o member
    by_cases same : t' = t
    · subst same
      rw [Function.update_self] at member
      exact .inr (List.mem_singleton.mp member)
    · rw [Function.update_of_ne same] at member
      exact .inl member
  have kept : ∀ {t' : Nat} {o : Op}, o ∈ todo t' → o ∈ Function.update todo t [job] t' := by
    intro t' o member
    have different : t' ≠ t := by
      rintro rfl
      rw [idle] at member
      cases member
    rw [Function.update_of_ne different]
    exact member
  have releasing : ∀ {t' : Nat} {o : Op} {p : Ref × Nat}, o ∈ Function.update todo t [job] t' → o.releases = some p → o ∈ todo t' := by
    intro t' o p member releases
    rcases busy member with old | rfl
    · exact old
    · rw [quiet] at releases
      cases releases
  refine ⟨h.inForce, h.balanced, h.home, ?_, ?_, ?_, ?_, ?_, ?_, ?_, ?_⟩
  · intro r s found open'
    obtain ⟨l, ledger, member, inForce | ⟨stopped, t', locked, o, at', cover⟩⟩ := h.live r s found open'
    · exact ⟨l, ledger, member, .inl inForce⟩
    · exact ⟨l, ledger, member, .inr ⟨stopped, t', locked, o, kept at', cover⟩⟩
  · intro g l id s ledger inForce member found ended
    obtain ⟨t', o, at', releases⟩ := h.held g l id s ledger inForce member found ended
    exact ⟨t', o, kept at', releases⟩
  · intro t' r gateway member
    rcases busy member with old | same
    · exact h.marks t' r gateway old
    · exact absurd same.symm (noMark r gateway)
  · intro t' o r g member releases
    exact h.releasing t' o r g (releasing member releases) releases
  · intro t₁ t₂ o₁ o₂ r g₁ g₂ in₁ in₂ rel₁ rel₂
    exact h.alone t₁ t₂ o₁ o₂ r g₁ g₂ (releasing in₁ rel₁) (releasing in₂ rel₂) rel₁ rel₂
  · intro t' names protect member
    rcases busy member with old | same
    · exact h.stopping t' names protect old
    · exact absurd same.symm (noStop names protect)
  · intro t' specs member
    rcases busy member with old | same
    · exact h.starting t' specs old
    · exact absurd same.symm (noStart specs)
  · intro t'
    by_cases same : t' = t
    · subst same
      rw [Function.update_self]
      exact ⟨fun _ => rfl, trivial⟩
    · rw [Function.update_of_ne same]
      exact h.loadLast t'

theorem Sorted.step_allowed {a : Act Op} (h : Sorted c)
    (allows : ∀ t op rest, a = .run t → c.todo t = op :: rest → Sound.Allows c.shared.book op)
    (stepped : daemon.step c a = some c') : Sorted c' where
  sound := by
    cases a with
    | start t job =>
      obtain ⟨idle, taken, rfl⟩ := Machine.step_start stepped
      exact h.sound.begin idle taken
    | run t =>
      obtain ⟨op, rest, d', more, here, done, rfl⟩ := Machine.step_run stepped
      have below : ∀ o ∈ rest, o.call = true := by
        have tails := h.tails t
        rw [here] at tails
        exact tails
      exact h.sound.step here below (allows t op rest rfl here) (exec_change done)
  tails := Machine.step_tails (fun _ _ _ _ _ done => (exec_change done).below) h.tails stepped

theorem Sorted.step {a : Act Op} (h : Sorted c) (apart : stepsApart c a = true)
    (stepped : daemon.step c a = some c') : Sorted c' := by
  refine h.step_allowed ?_ stepped
  rintro t op rest rfl here
  simp only [stepsApart, here, List.head?_cons, Option.all_some] at apart
  exact apart_allows apart

theorem run_sorted {acts : List (Act Op)} (h : Sorted c) (along : daemon.Along (fun c a => stepsApart c a = true) c acts)
    (done : daemon.run c acts = some c') : Sorted c' :=
  Machine.run_invariant (fun _ _ _ sorted apart stepped => sorted.step apart stepped) h along done

/-! ### Exclusive addresses -/

def Daemon.Live (d : Daemon) (r : Ref) (s : Session) : Prop := d.heap r = some s ∧ ¬s.Ended

/-- The addresses of a gateway in force, while threads are anywhere on their way. A session is
in the table as long as it is live, and then until its end has given up its address. -/
structure Exclusive (c : Config Daemon Op) (name : String) (g : Nat) (o : GatewayState) : Prop where
  distinct : ∀ r s r' s', c.shared.Live r s → c.shared.Live r' s' → s.gateway = name → s'.gateway = name →
    s.clientIp = s'.clientIp → r = r'
  tunnel : ∀ r s, c.shared.Live r s → s.gateway = name → s.clientIp ≠ o.spec.tunnelAddress.1
  table : ∀ r s, c.shared.Live r s → s.gateway = name → r.home = g ∧ r.id ∈ o.sessions
  ending : ∀ id ∈ o.sessions, (∃ s, c.shared.Live ⟨g, id⟩ s ∧ s.gateway = name) ∨
    ∃ t, .dropCookie ⟨g, id⟩ (some g) ∈ c.todo t ∨ .release ⟨g, id⟩ g ∈ c.todo t
  shared : (o.pool.free ++ o.sessions.filterMap fun id => (c.shared.heap ⟨g, id⟩).map (·.clientIp)).Perm o.spec.configured
  distinctAddresses : o.spec.configured.Nodup

theorem releases_cases {r : Ref} {g : Nat} (h : o.releases = some (r, g)) : o = .dropCookie r (some g) ∨ o = .release r g := by
  unfold Op.releases at h
  split at h
  · cases h
    exact .inl rfl
  · cases h
    exact .inr rfl
  · cases h

theorem filterMap_address {d : Daemon} {g : Nat} {ids : List Nat} (seated : ∀ id ∈ ids, ∃ s, d.book.seats ⟨g, id⟩ = some s) :
    ids.filterMap (fun id => (d.heap ⟨g, id⟩).map (·.clientIp)) = ids.map (d.book.address g) := by
  rw [← List.filterMap_eq_map]
  refine List.filterMap_congr fun id member => ?_
  obtain ⟨s, found⟩ := seated id member
  obtain ⟨s', before, rfl⟩ := Option.map_eq_some_iff.mp found
  simp [Book.address, Daemon.book, before, Session.seat]

theorem Sorted.exclusive {name : String} {g : Nat} {o : GatewayState} (h : Sorted c)
    (inForce : c.shared.gateways.lookup name = some g) (object : c.shared.objects[g]? = some o) : Exclusive c name g o := by
  have ledger := ledger_book object
  have balanced := h.sound.balanced g _ ledger
  have named : o.name = name := by
    obtain ⟨l, ledger', named⟩ := h.sound.inForce name g inForce
    cases ledger.symm.trans ledger'
    exact named
  have table : ∀ r s, c.shared.Live r s → s.gateway = name → r.home = g ∧ r.id ∈ o.sessions := by
    rintro r s ⟨found, live⟩ gateway
    obtain ⟨l, ledger', member, now | ⟨stopped, -⟩⟩ := h.sound.live r _ (seat_book found) (decide_eq_false live)
    · rw [show s.seat.gateway = name from gateway] at now
      have home : r.home = g := Option.some.inj (now.symm.trans inForce)
      rw [home] at ledger'
      cases ledger.symm.trans ledger'
      exact ⟨home, member⟩
    · rw [show s.seat.gateway = name from gateway] at stopped
      cases inForce.symm.trans stopped
  have address : ∀ r s, c.shared.Live r s → s.gateway = name → c.shared.book.address g r.id = s.clientIp := by
    rintro r s ⟨found, live⟩ gateway
    obtain ⟨home, -⟩ := table r s ⟨found, live⟩ gateway
    rw [Book.address, ← home, seat_book found]
    rfl
  have addresses := balanced.nodup.of_append_right
  refine ⟨?_, ?_, table, ?_, ?_, configured_nodup balanced.clean⟩
  · intro r s r' s' live live' gateway gateway' same
    obtain ⟨home, member⟩ := table r s live gateway
    obtain ⟨home', member'⟩ := table r' s' live' gateway'
    rw [← address r s live gateway, ← address r' s' live' gateway'] at same
    have id := List.inj_on_of_nodup_map addresses member member' same
    cases r
    cases r'
    cases home
    cases home'
    cases id
    rfl
  · intro r s live gateway tunnel
    obtain ⟨-, member⟩ := table r s live gateway
    have configured : s.clientIp ∈ o.spec.configured := by
      refine balanced.shared.subset (List.mem_append_right _ ?_)
      rw [← address r s live gateway]
      exact List.mem_map_of_mem member
    rw [tunnel] at configured
    exact tunnel_not_configured balanced.clean configured
  · intro id member
    obtain ⟨seat, found⟩ := balanced.seated id member
    obtain ⟨s, before, rfl⟩ := Option.map_eq_some_iff.mp found
    by_cases ended : s.Ended
    · obtain ⟨t, op, at', releases⟩ := h.sound.held g _ id _ ledger (by rw [show o.ledger.name = name from named]; exact inForce)
        member found (decide_eq_true ended)
      rcases releases_cases releases with rfl | rfl
      · exact .inr ⟨t, .inl at'⟩
      · exact .inr ⟨t, .inr at'⟩
    · obtain ⟨l, ledger', name', -⟩ := h.sound.home _ _ found
      cases ledger.symm.trans ledger'
      exact .inl ⟨s, ⟨before, ended⟩, name'.symm.trans named⟩
  · have same : o.sessions.filterMap (fun id => (c.shared.heap ⟨g, id⟩).map (·.clientIp)) = o.sessions.map (c.shared.book.address g) :=
      filterMap_address balanced.seated
    rw [same]
    exact balanced.shared

/-- In every run whose steps keep the addresses apart, each gateway in force hands out each of
its addresses to at most one live session. -/
theorem addresses_exclusive {acts : List (Act Op)} {c : Config Daemon Op}
    (apart : daemon.Along (fun c a => stepsApart c a = true) start acts) (done : daemon.run start acts = some c)
    {name : String} {g : Nat}
    {o : GatewayState} (inForce : c.shared.gateways.lookup name = some g) (object : c.shared.objects[g]? = some o) :
    Exclusive c name g o :=
  (run_sorted start_sorted apart done).exclusive inForce object

/-! A day of a gateway: a login, a logout, a login that asks for an address, a reload that
brings other pools, and a login after it. -/

def oneGateway (pools : List (List Value)) : Dict String RawGateway :=
  (∅ : Dict String RawGateway).assign "gw" ⟨"p1", .text "192.0.2.1", "tunnel.1", .text "10.0.0.254/24", none, pools⟩

def carryOut (t : Nat) (job : Op) (steps : Nat) : List (Act Op) := .start t job :: List.replicate steps (.run t)

def dayOfGateway : List (Act Op) :=
  carryOut 0 (.load (oneGateway [[.text "10.0.0.1", .text "10.0.0.2"], [.text "10.0.0.3", .text "10.0.0.3"]])) 4 ++
  carryOut 1 (.login "gw" "ann" "198.51.100.7" none) 4 ++
  carryOut 2 (.request "gw" ⟨0, 1⟩ .logout) 7 ++
  carryOut 3 (.login "gw" "bob" "198.51.100.8" (some 0x0a000003)) 4 ++
  carryOut 0 (.load (oneGateway [[.text "10.0.0.1", .text "10.0.0.9"]])) 10 ++
  carryOut 4 (.login "gw" "ann" "198.51.100.7" none) 4

theorem dayOfGateway_exclusive : ∃ c o, daemon.run start dayOfGateway = some c ∧ c.shared.gateways.lookup "gw" = some 1 ∧
    c.shared.objects[1]? = some o ∧ o.sessions = [1] ∧ Exclusive c "gw" 1 o := by
  have ends : ((daemon.run start dayOfGateway).map fun c =>
      (c.shared.gateways.lookup "gw", (c.shared.objects[1]?).map (·.sessions))) = some (some 1, some [1]) := by decide +kernel
  obtain ⟨c, done, facts⟩ := Option.map_eq_some_iff.mp ends
  obtain ⟨inForce, table⟩ := Prod.mk.inj facts
  obtain ⟨o, object, sessions⟩ := Option.map_eq_some_iff.mp table
  exact ⟨c, o, done, inForce, object, sessions, addresses_exclusive (by decide +kernel) done inForce object⟩

/-! Ranges that overlap hand one address to two clients. -/

def overlapping : List (Act Op) :=
  carryOut 0 (.load (oneGateway [[.text "10.0.0.1", .text "10.0.0.2"], [.text "10.0.0.2", .text "10.0.0.3"]])) 4 ++
  carryOut 1 (.login "gw" "ann" "198.51.100.7" none) 4 ++
  carryOut 2 (.login "gw" "bob" "198.51.100.8" none) 4 ++
  carryOut 3 (.login "gw" "eve" "198.51.100.9" none) 4

theorem overlapping_shares : ¬∀ (acts : List (Act Op)) (c : Config Daemon Op) (name : String) (g : Nat) (o : GatewayState),
    daemon.run start acts = some c → c.shared.gateways.lookup name = some g → c.shared.objects[g]? = some o →
    Exclusive c name g o := by
  intro all
  obtain ⟨c, done⟩ : ∃ c, daemon.run start overlapping = some c := Option.isSome_iff_exists.mp (by decide +kernel)
  have gateway : ((daemon.run start overlapping).map fun c => (c.shared.gateways.lookup "gw", (c.shared.objects[0]?).isSome)) =
      some (some 0, true) := by decide +kernel
  have second : ((daemon.run start overlapping).bind fun c => (c.shared.heap ⟨0, 2⟩).map fun s => (s.gateway,
      s.clientIp, decide s.Ended)) =
      some ("gw", 0x0a000002, false) := by decide +kernel
  have third : ((daemon.run start overlapping).bind fun c => (c.shared.heap ⟨0, 3⟩).map fun s => (s.gateway,
      s.clientIp, decide s.Ended)) =
      some ("gw", 0x0a000002, false) := by decide +kernel
  rw [done] at gateway second third
  obtain ⟨inForce, present⟩ := Prod.mk.inj (Option.some.inj gateway)
  obtain ⟨o, object⟩ := Option.isSome_iff_exists.mp present
  obtain ⟨s₂, found₂, facts₂⟩ := Option.map_eq_some_iff.mp second
  obtain ⟨s₃, found₃, facts₃⟩ := Option.map_eq_some_iff.mp third
  simp only [Prod.mk.injEq] at facts₂ facts₃
  have live₂ : c.shared.Live ⟨0, 2⟩ s₂ := ⟨found₂, of_decide_eq_false facts₂.2.2⟩
  have live₃ : c.shared.Live ⟨0, 3⟩ s₃ := ⟨found₃, of_decide_eq_false facts₃.2.2⟩
  have same := (all overlapping c "gw" 0 o done inForce object).distinct _ s₂ _ s₃ live₂ live₃ facts₂.1 facts₃.1
    (facts₂.2.1.trans facts₃.2.1.symm)
  cases same

end FfnNgfw.Protect
