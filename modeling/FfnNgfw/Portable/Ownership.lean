import FfnNgfw.Portable.Octeon

/-!
# Buffer ownership on Octeon

Every work entry that the backend receives is an obligation: its packet data and its WQE
go back to their pools once. Whatever a packet turns out to be, one turn of the poll
loop discharges one obligation, and the turns of a poll discharge those of its burst.
-/

namespace FfnNgfw.Portable

/-! ### Releases -/

structure Seam where
  gen : OctGen
  received : List Work
  calls : List HwCall
  inflight : Nat → OctWqe
  nInflight : Nat
  wqeFreed : UInt64
  doubleDispose : UInt64

def OctCtx.seam (c : OctCtx) : Seam :=
  ⟨c.gen, c.received, c.calls, c.inflight, c.nInflight, c.statWqeFreed, c.bugDoubleDispose⟩

def HwCall.hw : HwCall → Nat
  | .dataFree k | .wqeFree k | .handed k => k

namespace Seam

/-- How often the data of receipt `k` has left the backend's hands. -/
def dataReleases (s : Seam) (k : Nat) : Nat := s.calls.count (.dataFree k) + s.calls.count (.handed k)

/-- Whether the WQE of receipt `k` lies in its first packet buffer. -/
def wqeInside (s : Seam) (k : Nat) : Bool :=
  s.gen == .three && (s.received[k]?.map fun w => !ffnPkiPtrOutside w.pkiPtr).getD false

/-- How often the WQE of receipt `k` has been released: by itself, or with the data that
it lies in. -/
def wqeReleases (s : Seam) (k : Nat) : Nat :=
  s.calls.count (.wqeFree k) + if s.wqeInside k then s.dataReleases k else 0

structure Settled (s : Seam) (k : Nat) : Prop where
  data : s.dataReleases k = 1
  wqe : s.wqeReleases k = 1
  together : s.wqeInside k → s.calls.count (.wqeFree k) = 0

def Untouched (s : Seam) (k : Nat) : Prop := ∀ call ∈ s.calls, call.hw ≠ k

def heldSlots (s : Seam) : List Nat := (List.range s.nInflight).filter fun i => (s.inflight i).disp == .held

/-- No receipt is released twice, and one that is not released is held in a slot. -/
structure Owned (s : Seam) : Prop where
  undisputed : s.doubleDispose = 0
  accounted : ∀ k < s.received.length, s.Settled k ∨ s.Untouched k ∧ ∃ i ∈ s.heldSlots, (s.inflight i).hw = k
  freed : s.wqeFreed + UInt64.ofNat s.heldSlots.length = UInt64.ofNat s.received.length

structure Clear (s : Seam) : Prop where
  undisputed : s.doubleDispose = 0
  empty : s.heldSlots = []
  settled : ∀ k < s.received.length, s.Settled k
  freed : s.wqeFreed = UInt64.ofNat s.received.length

end Seam

/-! ### One disposal -/

/-- The call that `wqe_free` makes of the SDK, if it makes one. -/
def wqeCalls (gen : OctGen) (w : OctWqe) : List HwCall :=
  if gen == .three && !w.wqeSeparate then [] else [.wqeFree w.hw]

/-- What disposing of the entry in slot `i` does, by whatever way. -/
def Released (s s' : Seam) (i : Nat) : Prop :=
  ∃ d ≠ OctDisp.held, ∃ call, (call = .dataFree (s.inflight i).hw ∨ call = .handed (s.inflight i).hw) ∧
    s' = { s with
      calls := s.calls ++ call :: wqeCalls s.gen (s.inflight i)
      inflight := Function.update s.inflight i { s.inflight i with disp := d }
      wqeFreed := s.wqeFreed + 1 }

theorem wqeFree_seam (c : OctCtx) (w : OctWqe) :
    (c.wqeFree w).seam = { c.seam with calls := c.calls ++ wqeCalls c.gen w } := by
  unfold OctCtx.wqeFree wqeCalls
  cases gen : c.gen with
  | two => simp [OctCtx.seam, gen]
  | three => cases w.wqeSeparate <;> simp [OctCtx.seam, gen]

variable {c : OctCtx} {i : Nat} {s s' : Seam} {p : DpPkt} {pending : List Nat}

theorem disposeFree_released (same : c.seam = s)
    (held : (c.inflight i).disp = .held) : Released s (octDisposeFree c i).seam i := by
  subst same
  refine ⟨.freed, by decide, .dataFree (c.inflight i).hw, Or.inl rfl, ?_⟩
  unfold octDisposeFree
  rw [if_neg (by simp [held])]
  have freed := wqeFree_seam { c.dataFree (c.inflight i) with statDataFreed := c.statDataFreed + 1 } (c.inflight i)
  simp only [OctCtx.seam, OctCtx.dataFree, Seam.mk.injEq] at freed
  obtain ⟨gen, received, calls, inflight, nInflight, wqeFreed, double⟩ := freed
  simp [OctCtx.seam, OctCtx.setDisp, OctCtx.dataFree, gen, received, calls, inflight, nInflight, wqeFreed, double]

theorem sent_released (held : (c.inflight i).disp = .held) :
    Released c.seam (octDisposeSent { c with calls := c.calls ++ [.handed (c.inflight i).hw] } i).seam i := by
  refine ⟨.sent, by decide, .handed (c.inflight i).hw, Or.inr rfl, ?_⟩
  unfold octDisposeSent
  rw [if_neg (by simp [held])]
  have freed := wqeFree_seam { c with calls := c.calls ++ [.handed (c.inflight i).hw] } (c.inflight i)
  simp only [OctCtx.seam, Seam.mk.injEq] at freed
  obtain ⟨gen, received, calls, inflight, nInflight, wqeFreed, double⟩ := freed
  simp [OctCtx.seam, OctCtx.setDisp, gen, received, calls, inflight, nInflight, wqeFreed, double]

theorem Released.not_held (h : Released s s' i) : (s'.inflight i).disp ≠ .held := by
  obtain ⟨d, other, _, _, rfl⟩ := h
  simpa using other

theorem pktSend_cases (c : OctCtx) (w : OctWqe) (xmit : Int) :
    c.pktSend w xmit = ({ c with calls := c.calls ++ [.handed w.hw] }, 0) ∨ ∃ rc ≠ 0, c.pktSend w xmit = (c, rc) := by
  have decided (rc : Int) : (if rc = 0 then { c with calls := c.calls ++ [.handed w.hw] } else c, rc) =
      ({ c with calls := c.calls ++ [.handed w.hw] }, 0) ∨
      ∃ other ≠ 0, (if rc = 0 then { c with calls := c.calls ++ [.handed w.hw] } else c, rc) = (c, other) := by
    by_cases sent : rc = 0
    · exact Or.inl (by simp [sent])
    · exact Or.inr ⟨rc, sent, by simp [sent]⟩
  unfold OctCtx.pktSend
  exact decided _

theorem txOne_released (xmit : Nat → UInt16 → Int) (cookie : p.cookie = some i)
    (held : (c.inflight i).disp = .held) : Released c.seam (txOne xmit c p).1.seam i := by
  unfold txOne
  simp only [cookie, held, ne_eq, not_true_eq_false, if_false]
  cases egressOf c (c.inflight i) p.egress with
  | none => exact disposeFree_released rfl held
  | some out =>
    dsimp only
    split
    · exact disposeFree_released rfl held
    · rcases pktSend_cases c (c.inflight i) (xmit (c.inflight i).hw out) with sent | ⟨rc, failed, same⟩
      · rw [sent]
        exact sent_released held
      · rw [same]
        simp only [failed, if_false]
        exact disposeFree_released rfl held

theorem freePkt_done (cookie : p.cookie = some i) (done : (c.inflight i).disp ≠ .held) : octIoFreePkt c p = c := by
  simp only [octIoFreePkt, cookie, done, if_false]

theorem freePkt_held (cookie : p.cookie = some i)
    (held : (c.inflight i).disp = .held) : Released c.seam (octIoFreePkt c p).seam i := by
  simp only [octIoFreePkt, cookie, held, if_true]
  exact disposeFree_released rfl held

theorem pollPkt_released (xmit : Nat → UInt16 → Int) (s : DpCtx × OctCtx)
    (cookie : p.cookie = some i) (held : (s.2.inflight i).disp = .held) :
    Released s.2.seam (pollPkt xmit s p).2.seam i := by
  -- the callback that the decision asks for disposes of the entry, and `free_pkt` then finds it done
  have after {c : OctCtx} {q : DpPkt} (same : q.cookie = some i) (released : Released s.2.seam c.seam i) :
      Released s.2.seam (octIoFreePkt c q).seam i := by
    rw [freePkt_done same released.not_held]
    exact released
  unfold pollPkt
  dsimp only
  split
  · exact after cookie (txOne_released xmit (p := { p with decision := _, egress := _ }) cookie held)
  split
  · apply after cookie
    simp only [octIoToLocal, OctCtx.disposeCookie, cookie]
    exact disposeFree_released rfl held
  split
  · apply after cookie
    simp only [octIoToOffload, OctCtx.disposeCookie, cookie]
    exact disposeFree_released rfl held
  · exact freePkt_held cookie held

theorem count_other {calls : List HwCall} {k : Nat} (others : ∀ call ∈ calls, call.hw ≠ k) {call : HwCall}
    (same : call.hw = k) : calls.count call = 0 :=
  List.count_eq_zero.mpr fun member => others call member same

theorem Seam.Settled.kept {k : Nat} {ws : List Work} {more : List HwCall} (h : s.Settled k)
    (known : k < s.received.length) (gen : s'.gen = s.gen) (received : s'.received = s.received ++ ws)
    (calls : s'.calls = s.calls ++ more) (others : ∀ call ∈ more, call.hw ≠ k) : s'.Settled k := by
  have inside : s'.wqeInside k = s.wqeInside k := by
    simp only [Seam.wqeInside, gen, received, List.getElem?_append_left known]
  have count (call : HwCall) (same : call.hw = k) : s'.calls.count call = s.calls.count call := by
    rw [calls, List.count_append, count_other others same, Nat.add_zero]
  have data : s'.dataReleases k = s.dataReleases k := by
    simp only [Seam.dataReleases, count (.dataFree k) rfl, count (.handed k) rfl]
  refine ⟨data.trans h.data, ?_, ?_⟩
  · rw [← h.wqe]
    simp only [Seam.wqeReleases, inside, data, count (.wqeFree k) rfl]
  · rw [inside, count (.wqeFree k) rfl]
    exact h.together

/-- The entry in slot `i` is still to be disposed of. -/
structure Owing (s : Seam) (i : Nat) : Prop where
  held : (s.inflight i).disp = .held
  receipt : ∃ w, s.received[(s.inflight i).hw]? = some w ∧
    (s.gen = .three → (s.inflight i).wqeSeparate = ffnPkiPtrOutside w.pkiPtr)
  untouched : s.Untouched (s.inflight i).hw

/-- All that is owed is in the slots `pending`. -/
structure Custody (s : Seam) (pending : List Nat) : Prop where
  distinct : pending.Nodup
  apart : ∀ i ∈ pending, ∀ j ∈ pending, (s.inflight i).hw = (s.inflight j).hw → i = j
  owing : ∀ i ∈ pending, Owing s i
  settled : ∀ k < s.received.length, (∀ i ∈ pending, (s.inflight i).hw ≠ k) → s.Settled k
  fresh : ∀ k, s.received.length ≤ k → s.Untouched k
  undisputed : s.doubleDispose = 0
  freed : s.wqeFreed + UInt64.ofNat pending.length = UInt64.ofNat s.received.length

theorem Custody.perm {pending other : List Nat} (h : Custody s pending) (same : pending.Perm other) :
    Custody s other where
  distinct := same.nodup h.distinct
  apart i hi j hj := h.apart i (same.mem_iff.mpr hi) j (same.mem_iff.mpr hj)
  owing i hi := h.owing i (same.mem_iff.mpr hi)
  settled k known none := h.settled k known fun i hi => none i (same.mem_iff.mp hi)
  fresh := h.fresh
  undisputed := h.undisputed
  freed := same.length_eq ▸ h.freed

theorem Owing.settled (owing : Owing s i) (h : Released s s' i) :
    s'.Settled (s.inflight i).hw := by
  obtain ⟨d, _, call, which, same⟩ := h
  have gen : s'.gen = s.gen := by rw [same]
  have received : s'.received = s.received := by rw [same]
  have calls : s'.calls = s.calls ++ call :: wqeCalls s.gen (s.inflight i) := by rw [same]
  obtain ⟨w, found, layout⟩ := owing.receipt
  have none {c : HwCall} (same : c.hw = (s.inflight i).hw) : s.calls.count c = 0 := count_other owing.untouched same
  have inside : s'.wqeInside (s.inflight i).hw = (s.gen == .three && !(s.inflight i).wqeSeparate) := by
    simp only [Seam.wqeInside, gen, received, found, Option.map_some, Option.getD_some]
    cases three : s.gen with
    | two => rfl
    | three => rw [layout three]
  have data : s'.dataReleases (s.inflight i).hw = 1 := by
    simp only [Seam.dataReleases, calls, List.count_append, none (c := .dataFree _) rfl, none (c := .handed _) rfl]
    unfold wqeCalls
    rcases which with rfl | rfl <;> split <;> simp
  have wqe : s'.calls.count (.wqeFree (s.inflight i).hw) =
      if s.gen == .three && !(s.inflight i).wqeSeparate then 0 else 1 := by
    simp only [calls, List.count_append, none (c := .wqeFree _) rfl]
    unfold wqeCalls
    rcases which with rfl | rfl <;> split <;> simp
  refine ⟨data, ?_, ?_⟩
  · rw [Seam.wqeReleases, inside, wqe, data]
    split <;> rfl
  · rw [inside, wqe]
    intro h
    rw [if_pos h]

theorem wqeCalls_hw {gen : OctGen} {w : OctWqe} {call : HwCall} (h : call ∈ wqeCalls gen w) : call.hw = w.hw := by
  unfold wqeCalls at h
  split at h
  · cases h
  · cases List.mem_singleton.mp h
    rfl

theorem Custody.released (books : Custody s (i :: pending)) (h : Released s s' i) : Custody s' pending := by
  obtain ⟨absent, distinct⟩ := List.nodup_cons.mp books.distinct
  have settledHere := (books.owing i List.mem_cons_self).settled h
  obtain ⟨d, _, call, which, rfl⟩ := h
  have calledHere : ∀ x ∈ call :: wqeCalls s.gen (s.inflight i), x.hw = (s.inflight i).hw := by
    intro x member
    rcases List.mem_cons.mp member with rfl | member
    · rcases which with rfl | rfl <;> rfl
    · exact wqeCalls_hw member
  have others {j : Nat} (member : j ∈ pending) : j ≠ i := fun same => absent (same ▸ member)
  have kept {j : Nat} (member : j ∈ pending) :
      Function.update s.inflight i { s.inflight i with disp := d } j = s.inflight j :=
    Function.update_of_ne (others member) _ _
  have untouched {k : Nat} (before : s.Untouched k) (other : k ≠ (s.inflight i).hw) :
      ∀ x ∈ s.calls ++ call :: wqeCalls s.gen (s.inflight i), x.hw ≠ k := by
    intro x member
    rcases List.mem_append.mp member with member | member
    · exact before x member
    · exact fun same => other (same.symm.trans (calledHere x member))
  refine ⟨distinct, ?_, ?_, ?_, ?_, books.undisputed, ?_⟩
  · intro j hj l hl same
    simp only [kept hj, kept hl] at same
    exact books.apart j (List.mem_cons_of_mem _ hj) l (List.mem_cons_of_mem _ hl) same
  · intro j hj
    obtain ⟨held, receipt, before⟩ := books.owing j (List.mem_cons_of_mem _ hj)
    refine ⟨?_, ?_, ?_⟩
    · simpa only [kept hj] using held
    · simpa only [kept hj] using receipt
    · simp only [kept hj]
      refine untouched before fun same => others hj ?_
      exact books.apart j (List.mem_cons_of_mem _ hj) i List.mem_cons_self same
  · intro k known none
    by_cases here : (s.inflight i).hw = k
    · exact here ▸ settledHere
    · have before : s.Settled k := by
        refine books.settled k known fun j hj => ?_
        rcases List.mem_cons.mp hj with rfl | hj
        · exact here
        · simpa only [kept hj] using none j hj
      refine before.kept known rfl (List.append_nil _).symm rfl ?_
      exact fun x member same => here ((calledHere x member).symm.trans same)
  · intro k beyond
    refine untouched (books.fresh k beyond) fun same => ?_
    obtain ⟨w, found, _⟩ := (books.owing i List.mem_cons_self).receipt
    obtain ⟨known, _⟩ := List.getElem?_eq_some_iff.mp found
    exact absurd (same ▸ known) (Nat.not_lt.mpr beyond)
  · rw [← books.freed, List.length_cons, UInt64.ofNat_add]
    rw [UInt64.add_assoc, UInt64.add_comm 1]
    rfl

/-- What `work_get` leaves in slot `i`, by either hardware layer. -/
def Receives (s s' : Seam) (i : Nat) (w : Work) : Prop :=
  ∃ e : OctWqe, e.hw = s.received.length ∧ e.disp = .held ∧ (s.gen = .three → e.wqeSeparate = ffnPkiPtrOutside w.pkiPtr) ∧
    s' = { s with received := s.received ++ [w], inflight := Function.update s.inflight i e }

theorem workGet_receives (c : OctCtx) (i : Nat) (w : Work) : Receives c.seam (c.workGet i w).seam i w := by
  unfold OctCtx.workGet
  cases gen : c.gen with
  | two => exact ⟨_, rfl, rfl, fun three => absurd (gen.symm.trans three) (by decide), rfl⟩
  | three =>
    unfold cvmx3HwWorkGet
    dsimp only
    split
    · exact ⟨_, rfl, rfl, fun _ => rfl, rfl⟩
    · exact ⟨_, rfl, rfl, fun _ => rfl, rfl⟩

theorem Custody.receives {w : Work} (books : Custody s pending)
    (free : i ∉ pending) (h : Receives s s' i w) : Custody s' (i :: pending) := by
  obtain ⟨e, number, held, layout, rfl⟩ := h
  have here : Function.update s.inflight i e i = e := Function.update_self _ _ _
  have kept {j : Nat} (member : j ∈ pending) : Function.update s.inflight i e j = s.inflight j := by
    have other : j ≠ i := fun same => free (same ▸ member)
    exact Function.update_of_ne other _ _
  -- the receipts before this one have smaller numbers
  have earlier {j : Nat} (member : j ∈ pending) : (s.inflight j).hw < s.received.length := by
    obtain ⟨_, found, _⟩ := (books.owing j member).receipt
    exact (List.getElem?_eq_some_iff.mp found).1
  refine ⟨List.nodup_cons.mpr ⟨free, books.distinct⟩, ?_, ?_, ?_, ?_, books.undisputed, ?_⟩
  · intro j hj l hl same
    dsimp only at same
    rcases List.mem_cons.mp hj with atJ | hj <;> rcases List.mem_cons.mp hl with atL | hl
    · rw [atJ, atL]
    · rw [atJ, here, kept hl, number] at same
      exact absurd same (Nat.ne_of_gt (earlier hl))
    · rw [atL, here, kept hj, number] at same
      exact absurd same (Nat.ne_of_lt (earlier hj))
    · rw [kept hj, kept hl] at same
      exact books.apart j hj l hl same
  · intro j hj
    rcases List.mem_cons.mp hj with rfl | hj
    · refine ⟨?_, ⟨w, ?_, ?_⟩, ?_⟩
      · simpa only [here] using held
      · simp [number]
      · simpa only [here] using layout
      · simp only [here, number]
        exact books.fresh _ (Nat.le_refl _)
    · obtain ⟨held, ⟨v, found, layout⟩, before⟩ := books.owing j hj
      refine ⟨?_, ⟨v, ?_, ?_⟩, ?_⟩
      · simpa only [kept hj] using held
      · simpa only [kept hj, List.getElem?_append_left (earlier hj)] using found
      · simpa only [kept hj] using layout
      · simp only [kept hj]
        exact before
  · intro k known none
    have other : k ≠ s.received.length := by
      have := none i List.mem_cons_self
      simp only [here, number] at this
      exact Ne.symm this
    have old : k < s.received.length := by
      simp only [List.length_append, List.length_singleton] at known
      omega
    have before : s.Settled k := by
      refine books.settled k old fun j hj => ?_
      simpa only [kept hj] using none j (List.mem_cons_of_mem _ hj)
    exact before.kept old rfl rfl (List.append_nil _).symm nofun
  · intro k beyond
    simp only [List.length_append, List.length_singleton] at beyond
    exact books.fresh k (by omega)
  · rw [List.length_append, List.length_cons, List.length_singleton, UInt64.ofNat_add, UInt64.ofNat_add, ← books.freed,
      UInt64.add_assoc]

/-- The packets of a burst carry the slots they are held in, in order. -/
def Carries (burst : List DpPkt) (pending : List Nat) : Prop := burst.map DpPkt.cookie = pending.map some

theorem rxAccept_cookie (h : rxAccept c i = some p) : p.cookie = some i := by
  unfold rxAccept at h
  dsimp only at h
  split at h
  · cases h
  · split at h
    · cases h
    · cases h
      rfl

theorem rxLoop_custody (max : Nat) (works : List Work) (burst : List DpPkt)
    (books : Custody c.seam (List.range burst.length)) (carries : Carries burst (List.range burst.length)) :
    let r := rxLoop max c burst works
    Custody r.1.seam (List.range r.2.length) ∧ Carries r.2 (List.range r.2.length) := by
  induction works generalizing c burst with
  | nil => exact ⟨books, carries⟩
  | cons w ws ih =>
    unfold rxLoop
    split
    · have taken : Custody (c.workGet burst.length w).seam (burst.length :: List.range burst.length) :=
        books.receives List.not_mem_range_self (workGet_receives c burst.length w)
      dsimp only
      split
      · have held := (taken.owing _ List.mem_cons_self).held
        exact ih _ (taken.released (disposeFree_released rfl held)) carries
      · next p accepted =>
        refine ih _ ?_ ?_
        · rw [List.length_append, List.length_singleton, List.range_succ]
          exact taken.perm (List.perm_append_singleton _ _).symm
        · rw [Carries, List.length_append, List.length_singleton, List.range_succ, List.map_append, List.map_append,
            carries, List.map_singleton, List.map_singleton, rxAccept_cookie accepted]
    · exact ⟨books, carries⟩

/-! ### Polls -/

/-- The slots of the burst that are held are those still to be disposed of. -/
def OnHand (s : Seam) (pending : List Nat) : Prop :=
  ∀ i, i ∈ s.heldSlots ↔ i ∈ pending

theorem mem_heldSlots : i ∈ s.heldSlots ↔ i < s.nInflight ∧ (s.inflight i).disp = .held := by
  simp [Seam.heldSlots]

theorem OnHand.released (absent : i ∉ pending)
    (h : OnHand s (i :: pending)) (r : Released s s' i) : OnHand s' pending := by
  have gone := r.not_held
  obtain ⟨d, _, _, _, rfl⟩ := r
  intro j
  have before := h j
  rw [mem_heldSlots] at before ⊢
  by_cases same : j = i
  · subst same
    exact ⟨fun held => absurd held.2 gone, fun member => absurd member absent⟩
  · simpa [Function.update_of_ne same, same] using before

theorem Custody.counted (books : Custody s pending) (n : Nat) :
    Custody { s with nInflight := n } pending where
  distinct := books.distinct
  apart := books.apart
  owing i member := by
    obtain ⟨held, receipt, untouched⟩ := books.owing i member
    exact ⟨held, receipt, untouched⟩
  settled k known none := (books.settled k known none).kept known rfl (List.append_nil _).symm
    (List.append_nil _).symm nofun
  fresh := books.fresh
  undisputed := books.undisputed
  freed := books.freed

theorem rx_custody (max : Nat) (works : List Work) (books : Custody c.seam []) :
    let r := octIoRx c max works
    Custody r.1.seam (List.range r.2.length) ∧ OnHand r.1.seam (List.range r.2.length) ∧
      Carries r.2 (List.range r.2.length) := by
  obtain ⟨taken, carries⟩ := rxLoop_custody (min max dpBurst) works (c := { c with nInflight := 0 }) []
    (books.counted 0) rfl
  refine ⟨taken.counted _, ?_, carries⟩
  · intro i
    rw [mem_heldSlots, List.mem_range]
    exact ⟨fun held => held.1, fun short => ⟨short, (taken.owing i (List.mem_range.mpr short)).held⟩⟩

theorem turns_custody (xmit : Nat → UInt16 → Int) (burst : List DpPkt) (n : Nat) {s : DpCtx × OctCtx}
    (books : Custody s.2.seam pending) (onHand : OnHand s.2.seam pending) (carries : Carries burst pending) :
    let r := (burst.take n).foldl (pollPkt xmit) s
    Custody r.2.seam (pending.drop n) ∧ OnHand r.2.seam (pending.drop n) := by
  induction burst generalizing n s pending with
  | nil =>
    cases pending with
    | nil => simpa using ⟨books, onHand⟩
    | cons i pending => cases carries
  | cons p burst ih =>
    cases n with
    | zero => exact ⟨books, onHand⟩
    | succ n =>
      cases pending with
      | nil => cases carries
      | cons i pending =>
        obtain ⟨cookie, rest⟩ := List.cons.inj carries
        have released := pollPkt_released xmit s cookie (books.owing i List.mem_cons_self).held
        have absent := (List.nodup_cons.mp books.distinct).1
        exact ih n (books.released released) (onHand.released absent released) rest

theorem Custody.owned (books : Custody s pending) (onHand : OnHand s pending) : s.Owned := by
  have same : s.heldSlots.Perm pending :=
    (List.perm_ext_iff_of_nodup (List.nodup_range.filter _) books.distinct).mpr onHand
  refine ⟨books.undisputed, ?_, ?_⟩
  · intro k known
    by_cases owed : ∃ i ∈ pending, (s.inflight i).hw = k
    · obtain ⟨i, member, rfl⟩ := owed
      exact Or.inr ⟨(books.owing i member).untouched, i, (onHand i).mpr member, rfl⟩
    · exact Or.inl (books.settled k known fun i member same => owed ⟨i, member, same⟩)
  · rw [same.length_eq]
    exact books.freed

theorem Custody.clear (books : Custody s []) (onHand : OnHand s []) : s.Clear where
  undisputed := books.undisputed
  empty := List.eq_nil_iff_forall_not_mem.mpr fun i member => List.not_mem_nil ((onHand i).mp member)
  settled k known := books.settled k known nofun
  freed := by simpa using books.freed

theorem pollPart_custody {s : DpCtx × OctCtx} (x : Poll) (n : Nat) (books : Custody s.2.seam []) :
    ∃ pending, Custody (pollPart s x n).2.seam pending ∧ OnHand (pollPart s x n).2.seam pending := by
  obtain ⟨taken, onHand, carries⟩ := rx_custody dpBurst x.works books
  exact ⟨_, turns_custody x.xmit _ n taken onHand carries⟩

theorem pollOct_custody {s : DpCtx × OctCtx} (x : Poll) (books : Custody s.2.seam []) :
    Custody (pollOct s x).2.seam [] ∧ OnHand (pollOct s x).2.seam [] := by
  obtain ⟨taken, onHand, carries⟩ := rx_custody dpBurst x.works books
  have turns := turns_custody x.xmit _ (octIoRx s.2 dpBurst x.works).2.length
    (s := (dpHeartbeat (dpServiceCommands (x.between s.1)).1, _)) taken onHand carries
  rwa [List.take_length, List.drop_eq_nil_of_le (Nat.le_of_eq (List.length_range))] at turns

theorem addPorts_seam (ports : List OctPort) (c : OctCtx) : (octAddPorts c ports).seam = c.seam := by
  induction ports generalizing c with
  | nil => rfl
  | cons p ports ih =>
    refine (ih _).trans ?_
    dsimp only [octAddPort]
    split <;> rfl

theorem init_custody (gen : OctGen) (ports : List OctPort) :
    Custody (octAddPorts (octCtxInit gen) ports).seam [] ∧ OnHand (octAddPorts (octCtxInit gen) ports).seam [] := by
  rw [addPorts_seam]
  refine ⟨⟨List.nodup_nil, nofun, nofun, nofun, nofun, rfl, rfl⟩, fun i => ?_⟩
  simp [Seam.heldSlots, OctCtx.seam, octCtxInit]

theorem polls_custody (xs : List Poll) {s : DpCtx × OctCtx} (books : Custody s.2.seam []) (onHand : OnHand s.2.seam []) :
    Custody (pollsOct s xs).2.seam [] ∧ OnHand (pollsOct s xs).2.seam [] := by
  induction xs generalizing s with
  | nil => exact ⟨books, onHand⟩
  | cons x xs ih =>
    obtain ⟨books, onHand⟩ := pollOct_custody x books
    exact ih books onHand

/-- Between two polls every work entry received so far has been released once, and
within a poll the entries that are not released are the ones still held. -/
theorem entries_released_once (gen : OctGen) (ports : List OctPort) (dp : DpCtx) (polls : List Poll) :
    let s := pollsOct (dp, octAddPorts (octCtxInit gen) ports) polls
    s.2.seam.Clear ∧ ∀ (next : Poll) (n : Nat), (pollPart s next n).2.seam.Owned := by
  obtain ⟨books, onHand⟩ := init_custody gen ports
  obtain ⟨books, onHand⟩ := polls_custody polls (s := (dp, _)) books onHand
  refine ⟨books.clear onHand, fun next n => ?_⟩
  obtain ⟨pending, books, onHand⟩ := pollPart_custody next n books
  exact books.owned onHand

theorem rxLoop_length (max : Nat) (works : List Work) {burst : List DpPkt} (room : burst.length ≤ max) :
    (rxLoop max c burst works).2.length ≤ max := by
  induction works generalizing c burst with
  | nil => exact room
  | cons w ws ih =>
    unfold rxLoop
    split
    · dsimp only
      split
      · exact ih room
      · apply ih
        rw [List.length_append, List.length_singleton]
        omega
    · exact room

theorem pollPkt_frame (xmit : Nat → UInt16 → Int) (s : DpCtx × OctCtx) (p : DpPkt) :
    ∃ taken, (pollPkt xmit s p).1 = pollFrame s.1 (p.packet, taken) := by
  unfold pollPkt pollFrame
  dsimp only
  split
  · split
    · exact ⟨true, rfl⟩
    · exact ⟨false, rfl⟩
  · refine ⟨false, ?_⟩
    split
    · rfl
    split <;> rfl

theorem turns_frames (xmit : Nat → UInt16 → Int) (burst : List DpPkt) (s : DpCtx × OctCtx) :
    ∃ frames : List (Packet × Bool), frames.length = burst.length ∧ (burst.foldl (pollPkt xmit) s).1 = frames.foldl pollFrame s.1 := by
  induction burst generalizing s with
  | nil => exact ⟨[], rfl, rfl⟩
  | cons p burst ih =>
    obtain ⟨taken, frame⟩ := pollPkt_frame xmit s p
    obtain ⟨frames, length, rest⟩ := ih (pollPkt xmit s p)
    refine ⟨(p.packet, taken) :: frames, congrArg (· + 1) length, ?_⟩
    rw [List.foldl_cons, List.foldl_cons, rest, frame]

/-- Over this backend `dp_poll_once` is a poll of the dataplane, so what holds of every
run of polls holds on Octeon. -/
theorem pollOct_refines (s : DpCtx × OctCtx) (x : Poll) :
    ∃ rx : Burst, (pollOct s x).1 = dpPollOnce (x.between s.1) (some rx) := by
  obtain ⟨frames, length, same⟩ := turns_frames x.xmit (octIoRx s.2 dpBurst x.works).2
    (dpHeartbeat (dpServiceCommands (x.between s.1)).1, (octIoRx s.2 dpBurst x.works).1)
  refine ⟨⟨frames, length ▸ ?_⟩, same⟩
  exact Nat.le_trans (rxLoop_length (min dpBurst dpBurst) x.works (by decide)) (Nat.min_le_left _ _)

end FfnNgfw.Portable
