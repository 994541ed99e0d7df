import FfnNgfw.Dhcp.Exclusive

/-!
# Offers are honoured

Two rules say which address a client may have. `allocate` offers what a row of the lease file
gives the client, and `offeredTo` grants a row that is not reserved: neither asks whether the
address still lies in a pool, and only the second whether it is reserved for another client.
They agree where the rows that decide an answer are rows of the current configuration.
-/

namespace FfnNgfw.Dhcp

variable {Time : Type}

/-- The client's own reservation, or an address of a pool that is reserved for nobody else. -/
def Spec.Admits (spec : Spec) (mac : String) (x : UInt32) : Prop :=
  spec.reserved.lookup mac = some x ∨ (spec.inPool x ∧ ∀ other, spec.reserved.lookup other = some x → other = mac)

def Message.takes (m : Message) (row : Row Time) : Prop :=
  row.key = some m.key ∧ (row.state = .bound ∨ (m.options.lookup 54 ≠ none ∧ row.state = .offered))

/-- The row that decides the answer is for an address of a pool, and what is offered from a
row is not reserved. -/
def Current (spec : Spec) (rows : Leases Time) (m : Message) : Prop :=
  match m.type with
  | .discover => spec.reserved.lookup m.mac = none → ∀ ip row, rows.heldBy m.key = some (ip, row) →
      spec.inPool ip ∧ ip ∉ spec.reservedIps
  | .request => ∀ ip row, m.asks spec = some ip → (m.options.lookup 54 = none → spec.inNetwork ip) → ip ∉ spec.reservedIps →
      rows.lookup ip = some row → m.takes row → spec.inPool ip
  | .decline | .release | .inform => True

namespace Spec

variable {spec : Spec} {x : UInt32} {mac : String}

theorem mem_reservedIps : x ∈ spec.reservedIps ↔ ∃ mac, spec.reserved.lookup mac = some x := by
  unfold reservedIps
  rw [List.mem_map]
  constructor
  · rintro ⟨⟨mac, ip⟩, member, rfl⟩
    exact ⟨mac, Dict.mem_items.mp member⟩
  · rintro ⟨mac, reserved⟩
    exact ⟨(mac, x), Dict.mem_items.mpr reserved, rfl⟩

theorem admits_iff (other : spec.reserved.lookup mac ≠ some x) : spec.Admits mac x ↔ spec.inPool x ∧ x ∉ spec.reservedIps := by
  unfold Admits
  rw [or_iff_right other, mem_reservedIps, not_exists]
  refine and_congr_right fun _ => forall_congr' fun holder => ?_
  constructor
  · intro only reserved
    rw [only reserved] at reserved
    exact other reserved
  · intro nobody reserved
    exact (nobody reserved).elim

theorem candidates_free (member : x ∈ spec.candidates) : spec.inPool x ∧ x ∉ spec.reservedIps := by
  unfold candidates at member
  obtain ⟨member, free⟩ := List.mem_filter.mp member
  obtain ⟨pool, there, member⟩ := List.mem_flatMap.mp member
  obtain ⟨value, range, rfl⟩ := List.mem_map.mp member
  obtain ⟨low, high⟩ := List.mem_range'_1.mp range
  have word : value < 2 ^ 32 := by
    have last := pool.2.toNat_lt
    omega
  have back : (UInt32.ofNat value).toNat = value := UInt32.toNat_ofNat_of_lt' word
  refine ⟨?_, of_decide_eq_true free⟩
  unfold inPool
  refine List.any_eq_true.mpr ⟨pool, there, ?_⟩
  rw [Bool.and_eq_true, decide_eq_true_eq, decide_eq_true_eq, UInt32.le_iff_toNat_le, UInt32.le_iff_toNat_le, back]
  omega

end Spec

/-! ### One message -/

section steps

variable [Add Time] [NatCast Time] {spec : Spec} {probe : UInt32 → Bool} {rows : Leases Time} {now : Time} {m : Message} {x : UInt32}

theorem firstFree_mem {key : String} {ips : List UInt32} (found : (firstFree spec probe key now ips rows).1 = some x) : x ∈ ips := by
  induction ips generalizing rows with
  | nil => cases found
  | cons ip rest ih =>
    unfold firstFree at found
    split at found
    · exact List.mem_cons_of_mem ip (ih found)
    · split at found
      · exact List.mem_cons_of_mem ip (ih found)
      · cases found
        exact List.mem_cons_self

theorem allocate_cases (allocated : (allocate spec probe rows m.key m.mac m.requested now).1 = some x) :
    spec.reserved.lookup m.mac = some x ∨
    (spec.reserved.lookup m.mac = none ∧ ∃ row, rows.heldBy m.key = some (x, row)) ∨
    (spec.reserved.lookup m.mac = none ∧ rows.heldBy m.key = none ∧ spec.inPool x ∧ x ∉ spec.reservedIps) := by
  unfold allocate at allocated
  cases reserved : spec.reserved.lookup m.mac with
  | some ip =>
    rw [reserved] at allocated
    exact .inl allocated
  | none =>
    rw [reserved] at allocated
    cases held : rows.heldBy m.key with
    | some item =>
      rw [held] at allocated
      cases allocated
      exact .inr (.inl ⟨rfl, item.2, rfl⟩)
    | none =>
      rw [held] at allocated
      refine .inr (.inr ⟨rfl, rfl, ?_⟩)
      obtain wanted | candidate := List.mem_append.mp (firstFree_mem allocated)
      · obtain ⟨-, free⟩ := Option.filter_eq_some_iff.mp (Option.mem_toList.mp wanted)
        simpa using free
      · exact Spec.candidates_free candidate

theorem allocate_held {row : Row Time} (probe : UInt32 → Bool) (now : Time) (free : spec.reserved.lookup m.mac = none)
    (held : rows.heldBy m.key = some (x, row)) : (allocate spec probe rows m.key m.mac m.requested now).1 = some x := by
  unfold allocate
  rw [free, held]

theorem discover_offers {r : Reply} (sent : r ∈ (handleDiscover spec probe rows now m).1) :
    r.kind = .offer ∧ ∃ ip, r.yiaddr = some ip ∧ (allocate spec probe rows m.key m.mac m.requested now).1 = some ip ∧
      (handleDiscover spec probe rows now m).2.lookup ip = some (bindRow spec m.key m.mac now .offered) := by
  unfold handleDiscover at sent ⊢
  rcases found : allocate spec probe rows m.key m.mac m.requested now with ⟨_ | ip, left⟩
  · rw [found] at sent
    cases sent
  · rw [found] at sent
    obtain rfl := List.mem_singleton.mp sent
    refine ⟨rfl, ip, rfl, rfl, ?_⟩
    dsimp only
    rw [bind, Dict.lookup_assign, if_pos rfl]

theorem discover_grants (allocated : (allocate spec probe rows m.key m.mac m.requested now).1 = some x) :
    ∃ r ∈ (handleDiscover spec probe rows now m).1, r.Grants x := by
  unfold handleDiscover
  rcases found : allocate spec probe rows m.key m.mac m.requested now with ⟨_ | ip, left⟩
  · rw [found] at allocated
    cases allocated
  · rw [found] at allocated
    cases allocated
    exact ⟨_, List.mem_singleton_self _, .inl rfl, rfl⟩

omit [Add Time] [NatCast Time] in
theorem offeredTo_iff {key mac : String} {boundOnly : Bool} :
    offeredTo spec rows x key mac boundOnly = true ↔ spec.reserved.lookup mac = some x ∨
      (spec.reserved.lookup mac ≠ some x ∧ x ∉ spec.reservedIps ∧ ∃ row, rows.lookup x = some row ∧ row.key = some key ∧
        (row.state = .bound ∨ (boundOnly = false ∧ row.state = .offered))) := by
  unfold offeredTo
  by_cases mine : spec.reserved.lookup mac = some x
  · simp [mine]
  · by_cases reserved : x ∈ spec.reservedIps
    · simp [mine, reserved]
    · cases rows.lookup x with
      | none => simp [mine, reserved]
      | some row => simp [mine, reserved]

theorem request_grants_iff : (∃ r ∈ (handleRequest spec rows now m).1, r.Grants x) ↔
    m.asks spec = some x ∧ (m.options.lookup 54 = none → spec.inNetwork x) ∧
      offeredTo spec rows x m.key m.mac (m.options.lookup 54).isNone = true := by
  have acked (target : UInt32) : (∃ r ∈ (acknowledge spec rows now m target).1, r.Grants x) ↔ target = x := by
    simp [acknowledge, Reply.Grants, reply_kind, reply_yiaddr]
  have refused (reason : String) : ¬∃ r ∈ nak m reason, r.Grants x := by
    rintro ⟨_, member, grants⟩
    exact nak_grants member grants
  unfold handleRequest Message.asks
  cases server : m.options.lookup 54 with
  | some id =>
    by_cases ours : id = packed spec.address
    · cases requested : m.requested with
      | none => simp [ours, refused]
      | some target =>
        by_cases offered : offeredTo spec rows target m.key m.mac false = true
        · simp only [ours, ne_eq, not_true_eq_false, if_false, if_true, offered, acked, Option.some.injEq, reduceCtorEq,
            false_imp_iff, true_and, Option.isNone_some]
          constructor
          · rintro rfl
            exact ⟨rfl, offered⟩
          · exact fun both => both.1
        · simp only [ours, ne_eq, not_true_eq_false, if_false, if_true, offered, Bool.false_eq_true, refused, Option.some.injEq,
            reduceCtorEq, false_imp_iff, true_and, Option.isNone_some, false_iff, not_and]
          rintro rfl
          exact offered
    · cases held : rows.heldBy m.key <;> simp [ours]
  | none =>
    cases requested : m.requested with
    | some target =>
      by_cases inside : spec.inNetwork target = true
      · by_cases offered : offeredTo spec rows target m.key m.mac true = true
        · simp only [inside, offered, Bool.not_true, Bool.false_eq_true, if_false, if_true, acked, Option.some_or, Option.some.injEq,
            true_imp_iff, Option.isNone_none]
          constructor
          · rintro rfl
            exact ⟨rfl, inside, offered⟩
          · exact fun all => all.1
        · simp only [inside, offered, Bool.not_true, Bool.false_eq_true, if_false, refused, Option.some_or, Option.some.injEq,
            true_imp_iff, Option.isNone_none, false_iff, not_and]
          rintro rfl _
          exact offered
      · simp only [inside, Bool.not_false, if_true, refused, Option.some_or, Option.some.injEq, true_imp_iff, false_iff, not_and]
        rintro rfl within
        exact absurd within inside
    | none =>
      cases client : m.client with
      | some target =>
        by_cases granted : spec.inNetwork target = true ∧ offeredTo spec rows target m.key m.mac true = true
        · simp only [granted, and_self, if_true, acked, Option.none_or, Option.some.injEq, true_imp_iff, Option.isNone_none]
          constructor
          · rintro rfl
            exact ⟨rfl, granted⟩
          · exact fun all => all.1
        · simp only [if_neg granted, refused, Option.none_or, Option.some.injEq, true_imp_iff, Option.isNone_none, false_iff, not_and]
          rintro rfl inside offered
          exact granted ⟨inside, offered⟩
      | none => simp

theorem handled_admits_iff (probe : UInt32 → Bool) (now : Time) :
    (∀ r ∈ (handleMessage spec probe rows now m).1, ∀ x, r.Grants x → spec.Admits m.mac x) ↔ Current spec rows m := by
  unfold handleMessage Current
  cases type : m.type with
  | discover =>
    dsimp only
    constructor
    · intro admitted free ip row held
      obtain ⟨r, sent, grants⟩ := discover_grants (allocate_held probe now free held)
      refine (Spec.admits_iff ?_).mp (admitted r sent ip grants)
      rw [free]
      rintro ⟨⟩
    · intro current r sent x grants
      obtain ⟨-, ip, address, allocated, -⟩ := discover_offers sent
      obtain rfl : ip = x := Option.some.inj (address.symm.trans grants.2)
      obtain reserved | ⟨free, row, held⟩ | ⟨free, -, inside⟩ := allocate_cases allocated
      · exact .inl reserved
      · exact (Spec.admits_iff (by simp [free])).mpr (current free ip row held)
      · exact (Spec.admits_iff (by simp [free])).mpr inside
  | request =>
    dsimp only
    have decided : (∀ r ∈ (handleRequest spec rows now m).1, ∀ x, r.Grants x → spec.Admits m.mac x) ↔
        ∀ x, (∃ r ∈ (handleRequest spec rows now m).1, r.Grants x) → spec.Admits m.mac x :=
      ⟨fun admitted x ⟨r, sent, grants⟩ => admitted r sent x grants, fun admitted r sent x grants => admitted x ⟨r, sent, grants⟩⟩
    rw [decided]
    refine forall_congr' fun ip => ?_
    rw [request_grants_iff, offeredTo_iff]
    constructor
    · rintro admitted row asked inside free there ⟨own, live⟩
      by_cases mine : spec.reserved.lookup m.mac = some ip
      · exact absurd (Spec.mem_reservedIps.mpr ⟨m.mac, mine⟩) free
      · refine ((Spec.admits_iff mine).mp (admitted ⟨asked, inside, .inr ⟨mine, free, row, there, own, ?_⟩⟩)).1
        exact live.imp_right fun offer => ⟨Option.isNone_eq_false_iff.mpr (Option.isSome_iff_ne_none.mpr offer.1), offer.2⟩
    · rintro current ⟨asked, inside, mine | ⟨mine, free, row, there, own, live⟩⟩
      · exact .inl mine
      · refine (Spec.admits_iff mine).mpr ⟨current row asked inside free there ⟨own, ?_⟩, free⟩
        exact live.imp_right fun offer => ⟨Option.isSome_iff_ne_none.mp (Option.isNone_eq_false_iff.mp offer.1), offer.2⟩
  | decline =>
    simp only [iff_true]
    intro r sent
    unfold handleDecline at sent
    split at sent <;> cases sent
  | release =>
    simp only [iff_true]
    intro r sent
    unfold handleRelease at sent
    split at sent <;> cases sent
  | inform =>
    simp only [iff_true]
    intro r sent x grants
    unfold handleInform at sent
    split at sent
    · cases sent
    · obtain rfl := List.mem_singleton.mp sent
      cases grants.2

theorem request_acked (admitted : spec.Admits m.mac x) (there : rows.lookup x = some (bindRow spec m.key m.mac now .offered))
    (server : m.options.lookup 54 = some (packed spec.address)) (asked : m.requested = some x) (later : Time) :
    ∃ r ∈ (handleRequest spec rows later m).1, r.kind = .ack ∧ r.yiaddr = some x := by
  have offered : offeredTo spec rows x m.key m.mac false = true := by
    refine offeredTo_iff.mpr ?_
    by_cases mine : spec.reserved.lookup m.mac = some x
    · exact .inl mine
    · exact .inr ⟨mine, ((Spec.admits_iff mine).mp admitted).2, _, there, rfl, .inr ⟨rfl, rfl⟩⟩
  have answer : handleRequest spec rows later m = acknowledge spec rows later m x := by
    unfold handleRequest
    simp [server, asked, offered]
  rw [answer]
  exact ⟨_, List.mem_singleton_self _, rfl, rfl⟩

end steps

section runs

variable [Add Time] [NatCast Time] [LinearOrder Time]

/-- The REQUEST of a client that takes the offer of an address from this server. -/
structure Selects (spec : Spec) (client m : Message) (x : UInt32) : Prop where
  direct : ¬m.relayed
  type : m.type = .request
  key : m.key = client.key
  mac : m.mac = client.mac
  server : m.options.lookup 54 = some (packed spec.address)
  requested : m.requested = some x

/-- Every address that is offered or acknowledged is one that the configuration lets the client
have, and a client that takes an offer in time, with no message in between, is acknowledged. -/
def OffersHonoured (spec : Spec) (rows : Leases Time) (steps : List (Step Time)) : Prop :=
  ∀ (before : List (Step Time)) (s : Step Time) (after : List (Step Time)), steps = before ++ s :: after →
    ∀ m, parse s.frame = some m → ∀ r ∈ (handle spec s.probe (run spec rows before) s.now s.frame).1, ∀ x, r.Grants x →
      spec.Admits m.mac x ∧
      ∀ (quiet : List (Step Time)) (next : Step Time) (rest : List (Step Time)), after = quiet ++ next :: rest →
        r.kind = .offer → (∀ q ∈ quiet, parse q.frame = none) → ∀ taken, parse next.frame = some taken → Selects spec m taken x →
        next.now < s.now + (offerSeconds : Nat) →
        ∃ r ∈ (handle spec next.probe (run spec rows (before ++ s :: quiet)) next.now next.frame).1, r.kind = .ack ∧ r.yiaddr = some x

/-- At every message of the run the row that decides the answer is current. -/
def CurrentRun (spec : Spec) (rows : Leases Time) (steps : List (Step Time)) : Prop :=
  ∀ (before : List (Step Time)) (s : Step Time) (after : List (Step Time)), steps = before ++ s :: after →
    ∀ m, parse s.frame = some m → ¬m.relayed → Current spec ((run spec rows before).expire s.now) m

variable {spec : Spec} {rows : Leases Time}

theorem run_quiet {quiet : List (Step Time)} (silent : ∀ q ∈ quiet, parse q.frame = none) (rows : Leases Time) :
    run spec rows quiet = rows := by
  induction quiet generalizing rows with
  | nil => rfl
  | cons q rest ih =>
    have same : stepRows spec rows q = rows := by
      unfold stepRows handle
      rw [silent q List.mem_cons_self]
    calc run spec rows (q :: rest)
      _ = run spec (stepRows spec rows q) rest := rfl
      _ = rows := by rw [same, ih fun q member => silent q (List.mem_cons_of_mem _ member)]

theorem handle_direct {m : Message} {s : Step Time} (parsed : parse s.frame = some m) (direct : ¬m.relayed) :
    handle spec s.probe rows s.now s.frame = handleMessage spec s.probe (rows.expire s.now) s.now m := by
  unfold handle
  rw [parsed]
  exact if_neg direct

theorem handle_relayed {m : Message} {s : Step Time} (parsed : parse s.frame = some m) (relayed : m.relayed) :
    (handle spec s.probe rows s.now s.frame).1 = [] := by
  unfold handle
  rw [parsed]
  exact congrArg Prod.fst (if_pos relayed)

theorem offer_row {m : Message} {s : Step Time} (parsed : parse s.frame = some m) {r : Reply} {x : UInt32}
    (sent : r ∈ (handle spec s.probe rows s.now s.frame).1) (offer : r.kind = .offer) (address : r.yiaddr = some x) :
    (stepRows spec rows s).lookup x = some (bindRow spec m.key m.mac s.now .offered) := by
  by_cases relayed : m.relayed
  · rw [handle_relayed parsed relayed] at sent
    cases sent
  · unfold stepRows
    rw [handle_direct parsed relayed] at sent ⊢
    unfold handleMessage at sent ⊢
    cases type : m.type with
    | discover =>
      simp only [type] at sent ⊢
      obtain ⟨-, ip, same, -, row⟩ := discover_offers sent
      cases Option.some.inj (same.symm.trans address)
      exact row
    | request =>
      simp only [type] at sent
      obtain ⟨target, -, -, -, -, acked⟩ | ⟨nothing, -⟩ := request_cases spec (rows.expire s.now) s.now m
      · rw [acked, acknowledge, List.mem_singleton] at sent
        rw [sent, reply_kind] at offer
        cases offer
      · exact absurd ⟨.inl offer, address⟩ (nothing r sent x)
    | decline =>
      simp only [type, handleDecline] at sent
      split at sent <;> cases sent
    | release =>
      simp only [type, handleRelease] at sent
      split at sent <;> cases sent
    | inform =>
      simp only [type, handleInform] at sent
      split at sent
      · cases sent
      · rw [List.mem_singleton] at sent
        rw [sent, reply_kind] at offer
        cases offer

/-- Offers are honoured, and stay inside the configuration, exactly where no row of another
configuration decides an answer. -/
theorem offers_honoured_iff (spec : Spec) (rows : Leases Time) (steps : List (Step Time)) :
    OffersHonoured spec rows steps ↔ CurrentRun spec rows steps := by
  constructor
  · intro honoured before s after split m parsed direct
    refine (handled_admits_iff s.probe s.now).mp fun r sent x grants => ?_
    have same : r ∈ (handle spec s.probe (run spec rows before) s.now s.frame).1 := by
      rw [handle_direct parsed direct]
      exact sent
    exact (honoured before s after split m parsed r same x grants).1
  · intro current before s after split m parsed r sent x grants
    have admitted : spec.Admits m.mac x := by
      by_cases relayed : m.relayed
      · rw [handle_relayed parsed relayed] at sent
        cases sent
      · rw [handle_direct parsed relayed] at sent
        exact (handled_admits_iff s.probe s.now).mpr (current before s after split m parsed relayed) r sent x grants
    refine ⟨admitted, ?_⟩
    intro quiet next rest _ offer silent taken parsedNext selects early
    have left : run spec rows (before ++ s :: quiet) = stepRows spec (run spec rows before) s :=
      calc run spec rows (before ++ s :: quiet)
        _ = run spec (stepRows spec (run spec rows before) s) quiet := by simp [run]
        _ = stepRows spec (run spec rows before) s := run_quiet silent _
    have row := offer_row parsed sent offer grants.2
    have live : ∀ t, (bindRow spec m.key m.mac s.now .offered).expires = some t → next.now < t := by
      rintro t ⟨⟩
      exact early
    have kept := expire_lookup row live
    rw [left, handle_direct parsedNext selects.direct]
    unfold handleMessage
    rw [selects.type]
    rw [← selects.key, ← selects.mac] at kept
    rw [← selects.mac] at admitted
    exact request_acked admitted kept selects.server selects.requested next.now

end runs

/-- The address that a client holds is now reserved for another one. -/
def reservingRaw : RawSpec := { sampleRaw with reserved := [("02:00:00:00:00:02", "10.0.0.10")] }

def reservingSpec : Spec := { sampleSpec with reserved := (∅ : Dict String UInt32).insert "02:00:00:00:00:02" sampleAddress }

def leasedRows : Leases Nat :=
  (∅ : Leases Nat).insert sampleAddress ⟨.bound, some "mac:02:00:00:00:00:01", some "02:00:00:00:00:01", 0, some 3600⟩

theorem reserved_offered : (validateServer "p5" reservingRaw).toOption = some reservingSpec ∧
    ¬OffersHonoured reservingSpec leasedRows [sampleDiscover, sampleRequest] ∧
    ((handle reservingSpec sampleRequest.probe (run reservingSpec leasedRows [sampleDiscover]) sampleRequest.now
      sampleRequest.frame).1.map Reply.kind) = [.nak] := by
  refine ⟨by decide +kernel, ?_, by decide +kernel⟩
  intro honoured
  obtain ⟨m, parsed⟩ : ∃ m, parse sampleDiscover.frame = some m := Option.isSome_iff_exists.mp (by decide +kernel)
  have mac : (parse sampleDiscover.frame).map Message.mac = some "02:00:00:00:00:01" := by decide +kernel
  rw [parsed, Option.map_some, Option.some.injEq] at mac
  obtain ⟨r, sent, kind, address⟩ : ∃ r ∈ (handle reservingSpec sampleDiscover.probe leasedRows sampleDiscover.now
      sampleDiscover.frame).1, r.kind = .offer ∧ r.yiaddr = some sampleAddress := by decide +kernel
  have admitted := (honoured [] sampleDiscover [sampleRequest] rfl m parsed r sent sampleAddress ⟨.inl kind, address⟩).1
  rw [mac] at admitted
  obtain ⟨-, nobody⟩ := (Spec.admits_iff (by decide +kernel)).mp admitted
  exact nobody (by decide +kernel)

end FfnNgfw.Dhcp
