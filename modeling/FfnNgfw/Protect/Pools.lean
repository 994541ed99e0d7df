import FfnNgfw.Protect.Book

/-!
# Pools and what is taken from them

A pool and the table of its gateway share out the configured addresses: each is free or with
one session of the table. Allocation and release keep this when the ranges are disjoint.
-/

namespace FfnNgfw.Protect

/-- The ranges have no address in common, and the tunnel address is in none of them. -/
def Spec.Clean (spec : Spec) : Prop :=
  spec.pools.Pairwise (fun p q => p.2 < q.1 ∨ q.2 < p.1) ∧
    ∀ p ∈ spec.pools, ¬(p.1 ≤ spec.tunnelAddress.1 ∧ spec.tunnelAddress.1 ≤ p.2)

instance (spec : Spec) : Decidable spec.Clean :=
  have : Decidable (∀ p ∈ spec.pools, ¬(p.1 ≤ spec.tunnelAddress.1 ∧ spec.tunnelAddress.1 ≤ p.2)) := List.decidableBAll _ _
  inferInstanceAs (Decidable (_ ∧ _))

theorem mem_rangeAddresses {p : UInt32 × UInt32} {a : UInt32} : a ∈ rangeAddresses p ↔ p.1 ≤ a ∧ a ≤ p.2 := by
  simp only [rangeAddresses, List.mem_map, List.mem_range'_1, UInt32.le_iff_toNat_le]
  constructor
  · rintro ⟨n, inside, rfl⟩
    have small := p.2.toNat_lt
    have value : (UInt32.ofNat n).toNat = n := UInt32.toNat_ofNat_of_lt' (show n < 2 ^ 32 by omega)
    omega
  · intro inside
    exact ⟨a.toNat, by omega, UInt32.ofNat_toNat⟩

theorem rangeAddresses_nodup (p : UInt32 × UInt32) : (rangeAddresses p).Nodup := by
  refine List.Nodup.map_on ?_ List.nodup_range'
  intro m inM n inN same
  have small := p.2.toNat_lt
  rw [List.mem_range'_1] at inM inN
  have value := congrArg UInt32.toNat same
  rw [UInt32.toNat_ofNat_of_lt' (show m < 2 ^ 32 by omega), UInt32.toNat_ofNat_of_lt' (show n < 2 ^ 32 by omega)] at value
  exact value

theorem configured_nodup {spec : Spec} (clean : spec.Clean) : spec.configured.Nodup := by
  rw [Spec.configured, List.nodup_flatMap]
  refine ⟨fun p _ => rangeAddresses_nodup p, clean.1.imp ?_⟩
  intro p q apart a inP inQ
  rw [mem_rangeAddresses] at inP inQ
  simp only [UInt32.le_iff_toNat_le, UInt32.lt_iff_toNat_lt] at apart inP inQ
  omega

theorem tunnel_not_configured {spec : Spec} (clean : spec.Clean) : spec.tunnelAddress.1 ∉ spec.configured := by
  intro member
  obtain ⟨p, range, inside⟩ := List.mem_flatMap.mp member
  exact clean.2 p range (mem_rangeAddresses.mp inside)

/-! ### Pools -/

def Book.address (b : Book) (g id : Nat) : UInt32 := ((b.seats ⟨g, id⟩).map Seat.clientIp).getD 0

/-- The pool and the table of a gateway object share out the configured addresses. -/
structure Balanced (b : Book) (g : Nat) (l : Ledger) : Prop where
  clean : l.spec.Clean
  shared : (l.pool.free ++ l.sessions.map (b.address g)).Perm l.spec.configured
  used : ∀ a, a ∈ l.pool.used ↔ a ∈ l.sessions.map (b.address g)
  distinct : l.sessions.Nodup
  seated : ∀ id ∈ l.sessions, ∃ s, b.seats ⟨g, id⟩ = some s

theorem allocate_some {p p' : Pool} {preferred : Option UInt32} {a : UInt32} (h : p.allocate preferred = some (a, p')) :
    p.free.Perm (a :: p'.free) ∧ p'.used = p.used.insert a := by
  unfold Pool.allocate at h
  split at h
  · rename_i wanted found
    cases h
    obtain ⟨-, free⟩ := Option.filter_eq_some_iff.mp found
    exact ⟨List.perm_cons_erase (of_decide_eq_true free), rfl⟩
  · cases h
  · rename_i first rest _ head
    cases h
    rw [head]
    exact ⟨List.Perm.refl _, rfl⟩

namespace Balanced

variable {b b' : Book} {g : Nat} {l : Ledger}

theorem nodup (h : Balanced b g l) : (l.pool.free ++ l.sessions.map (b.address g)).Nodup :=
  h.shared.nodup_iff.mpr (configured_nodup h.clean)

theorem congr (h : Balanced b g l) (same : ∀ id ∈ l.sessions, b'.seats ⟨g, id⟩ = b.seats ⟨g, id⟩) : Balanced b' g l := by
  have addresses : l.sessions.map (b'.address g) = l.sessions.map (b.address g) :=
    List.map_congr_left fun id member => by rw [Book.address, Book.address, same id member]
  refine ⟨h.clean, addresses ▸ h.shared, fun a => addresses ▸ h.used a, h.distinct, ?_⟩
  intro id member
  rw [same id member]
  exact h.seated id member

theorem respec {spec : Spec} (h : Balanced b g l) (pools : l.spec.pools = spec.pools)
    (tunnel : l.spec.tunnelAddress = spec.tunnelAddress) : Balanced b g (l.respec spec) where
  clean := by
    have clean := h.clean
    rw [Spec.Clean, pools, tunnel] at clean
    exact clean
  shared := by
    have shared := h.shared
    rw [Spec.configured, pools] at shared
    exact shared
  used := h.used
  distinct := h.distinct
  seated := h.seated

theorem fresh {name : String} {spec : Spec} (clean : spec.Clean) : Balanced b g (Ledger.fresh name spec) where
  clean := clean
  shared := by simp [Ledger.fresh, Pool.init]
  used := by simp [Ledger.fresh, Pool.init]
  distinct := List.nodup_nil
  seated := List.forall_mem_nil _

theorem dismiss {id : Nat} {s : Seat} (h : Balanced b g l) (member : id ∈ l.sessions) (seat : b.seats ⟨g, id⟩ = some s) :
    Balanced b g (l.dismiss id s.clientIp) := by
  have address : b.address g id = s.clientIp := by
    rw [Book.address, seat]
    rfl
  have held : s.clientIp ∈ l.pool.used := (h.used _).mpr (address ▸ List.mem_map_of_mem member)
  have filtered : l.sessions.filter (· ≠ id) = l.sessions.erase id := by
    rw [h.distinct.erase_eq_filter]
    exact List.filter_congr fun other _ => by by_cases same : other = id <;> simp [same]
  have split : (l.sessions.map (b.address g)).Perm (s.clientIp :: (l.sessions.erase id).map (b.address g)) := by
    rw [← address]
    exact (List.perm_cons_erase member).map _
  have distinct : (s.clientIp :: (l.sessions.erase id).map (b.address g)).Nodup :=
    split.nodup_iff.mp h.nodup.of_append_right
  refine ⟨h.clean, ?_, ?_, h.distinct.filter _, fun other kept => h.seated other (List.mem_filter.mp kept).1⟩
  · simp only [Ledger.dismiss, Pool.release, if_pos held, filtered]
    rw [List.append_assoc]
    exact (split.symm.append_left _).trans h.shared
  · intro a
    simp only [Ledger.dismiss, Pool.release, if_pos held, filtered, List.mem_filter, decide_eq_true_eq]
    rw [h.used, split.mem_iff, List.mem_cons]
    constructor
    · rintro ⟨rfl | other, different⟩
      · exact absurd rfl different
      · exact other
    · intro other
      refine ⟨.inr other, ?_⟩
      rintro rfl
      exact (List.nodup_cons.mp distinct).1 other

theorem allot {preferred : Option UInt32} {clientIp : UInt32} {pool : Pool} (h : Balanced b g l)
    (given : l.pool.allocate preferred = some (clientIp, pool)) (unused : b.seats ⟨g, l.nextId⟩ = none)
    (taken : b'.seats ⟨g, l.nextId⟩ = some (l.seat clientIp))
    (same : ∀ id, id ≠ l.nextId → b'.seats ⟨g, id⟩ = b.seats ⟨g, id⟩) : Balanced b' g (l.allot pool) := by
  obtain ⟨free, used⟩ := allocate_some given
  have absent : l.nextId ∉ l.sessions := by
    intro member
    obtain ⟨s, found⟩ := h.seated _ member
    rw [unused] at found
    cases found
  have others : Balanced b' g l := h.congr fun id member => same id fun here => absent (here ▸ member)
  have address : b'.address g l.nextId = clientIp := by
    rw [Book.address, taken]
    rfl
  refine ⟨h.clean, ?_, ?_, ?_, ?_⟩
  · simp only [Ledger.allot, List.map_append, List.map_cons, List.map_nil, address]
    refine List.Perm.trans ?_ others.shared
    rw [← List.append_assoc]
    refine (List.perm_append_singleton _ _).trans ?_
    exact (free.symm.append_right _)
  · intro a
    simp only [Ledger.allot, used, List.mem_insert_iff, List.map_append, List.map_cons, List.map_nil, address,
      List.mem_append, List.mem_singleton, others.used a]
    exact or_comm
  · simp only [Ledger.allot]
    exact List.nodup_append.mpr ⟨h.distinct, List.nodup_singleton _, fun id member other single => by
      rw [List.mem_singleton.mp single]
      exact fun here => absent (here ▸ member)⟩
  · intro id member
    rcases List.mem_append.mp member with old | new
    · exact others.seated id old
    · rw [List.mem_singleton.mp new]
      exact ⟨_, taken⟩

end Balanced

section edit

variable {b : Book} {g g' : Nat} {f : Ledger → Ledger} {l l' : Ledger}

theorem edit_here (h : b.ledgers[g]? = some l) : (b.edit g f).ledgers[g]? = some (f l) := by
  simp [Book.edit, h]

theorem edit_other (different : g' ≠ g) : (b.edit g f).ledgers[g']? = b.ledgers[g']? := by
  simp [Book.edit, Ne.symm different]

theorem of_edit (h : (b.edit g f).ledgers[g']? = some l') :
    (g' = g ∧ ∃ l, b.ledgers[g]? = some l ∧ l' = f l) ∨ (g' ≠ g ∧ b.ledgers[g']? = some l') := by
  by_cases same : g' = g
  · subst same
    simp only [Book.edit, List.getElem?_modify, if_true, Option.map_eq_map] at h
    obtain ⟨l, ledger, rfl⟩ := Option.map_eq_some_iff.mp h
    exact .inl ⟨rfl, l, ledger, rfl⟩
  · rw [edit_other same] at h
    exact .inr ⟨same, h⟩

theorem edit_keeps {α : Type} (read : Ledger → α) (keeps : ∀ l, read (f l) = read l) (h : b.ledgers[g']? = some l) :
    ∃ l', (b.edit g f).ledgers[g']? = some l' ∧ read l' = read l := by
  by_cases same : g' = g
  · subst same
    exact ⟨f l, edit_here h, keeps l⟩
  · exact ⟨l, (edit_other same).trans h, rfl⟩

end edit

section mark

variable {b : Book} {r r' : Ref} {s s' : Seat}

theorem endSeat_seat (found : b.seats r' = some s) :
    (b.endSeat r).seats r' = some { s with ended := s.ended || r' = r } := by
  by_cases same : r' = r
  · subst same
    simp [Book.endSeat, found]
  · simp [Book.endSeat, found, same]

theorem of_endSeat (found : (b.endSeat r).seats r' = some s') :
    ∃ s, b.seats r' = some s ∧ s'.gateway = s.gateway ∧ s'.clientIp = s.clientIp ∧ s'.ended = (s.ended || r' = r) := by
  cases before : b.seats r' with
  | none =>
    by_cases same : r' = r
    · subst same
      simp [Book.endSeat, before] at found
    · simp [Book.endSeat, Function.update_of_ne same, before] at found
  | some s =>
    rw [endSeat_seat before] at found
    cases found
    exact ⟨s, rfl, rfl, rfl, rfl⟩

end mark

end FfnNgfw.Protect
