import FfnNgfw.Dhcp.Server

/-!
# Leases are exclusive and kept

A bound row keeps its address for its client as long as no message runs into one of the
places where the server writes over it: a DISCOVER that is answered with an address that is
bound, a reservation taken by a second client identifier, a DECLINE of somebody else's
address, and the renewal of a reserved address from another hardware address.
-/

namespace FfnNgfw.Dhcp

variable {Time : Type}

theorem lookup_foldl_erase {x : UInt32} (items : List (UInt32 × Row Time)) (rows : Leases Time) (outside : x ∉ items.map Prod.fst) :
    (items.foldl (fun rows item => AList.erase item.1 rows) rows).lookup x = rows.lookup x := by
  induction items generalizing rows with
  | nil => rfl
  | cons item rest ih =>
    rw [List.map_cons, List.mem_cons, not_or] at outside
    rw [List.foldl_cons, ih _ outside.2, AList.lookup_erase_ne outside.1]

theorem expire_lookup [LinearOrder Time] {rows : Leases Time} {x : UInt32} {row : Row Time} {now : Time}
    (there : rows.lookup x = some row) (live : ∀ t, row.expires = some t → now < t) : (rows.expire now).lookup x = some row := by
  unfold Leases.expire
  rw [lookup_foldl_erase, there]
  intro inside
  obtain ⟨⟨ip, stale⟩, member, rfl⟩ := List.mem_map.mp inside
  obtain ⟨member, expired⟩ := List.mem_filter.mp member
  have same : some row = some stale := there.symm.trans (Dict.mem_items.mp member)
  cases same
  cases expires : row.expires with
  | none => simp [expires] at expired
  | some t => exact absurd (live t expires) (not_lt_of_ge (by simpa [expires] using expired))

theorem heldBy_sound {rows : Leases Time} {key : String} {ip : UInt32} {row : Row Time} (held : rows.heldBy key = some (ip, row)) :
    rows.lookup ip = some row ∧ row.key = some key := by
  unfold Leases.heldBy at held
  have found := List.find?_some held
  exact ⟨Dict.mem_items.mp (List.mem_of_find?_eq_some held), (of_decide_eq_true found).1⟩

theorem heldBy_isSome {rows : Leases Time} {key : String} {ip : UInt32} {row : Row Time} (there : rows.lookup ip = some row)
    (own : row.key = some key) (bound : row.state = .bound) : (rows.heldBy key).isSome := by
  unfold Leases.heldBy
  rw [List.find?_isSome]
  exact ⟨(ip, row), Dict.mem_items.mpr there, by simp [own, bound]⟩

theorem release_other {rows : Leases Time} {ip x : UInt32} (key : String) (other : x ≠ ip) :
    (release rows ip key).lookup x = rows.lookup x := by
  unfold release
  split
  · split
    · exact AList.lookup_erase_ne other
    · rfl
  · rfl

theorem release_foreign {rows : Leases Time} {ip : UInt32} {row : Row Time} {key : String} (there : rows.lookup ip = some row)
    (foreign : row.key ≠ some key) : release rows ip key = rows := by
  unfold release
  rw [there]
  exact if_neg foreign

namespace Message

def asks (m : Message) (spec : Spec) : Option UInt32 :=
  match m.options.lookup 54 with
  | some server => if server = packed spec.address then m.requested else none
  | none => m.requested.or m.client

def renews (m : Message) : Option UInt32 :=
  match m.options.lookup 54, m.requested with
  | none, none => m.client
  | _, _ => none

/-- The client `key` releases, declines or requests the address again. -/
def Returns (m : Message) (key : String) (x : UInt32) : Prop :=
  m.key = key ∧ match m.type with
    | .release => m.client = some x
    | .decline => m.requested = some x
    | .request => m.requested = some x ∨ m.client = some x
    | _ => False

end Message

/-- A DISCOVER is not answered with an address that is bound, a reservation that is bound is
asked for by its own client only, a renewal of a lease is for an address of the network that
is not reserved for another hardware address, and a DECLINE is not of somebody else's lease. -/
def Regular (spec : Spec) (rows : Leases Time) (m : Message) : Prop :=
  match m.type with
  | .discover => ∀ ip row, (spec.reserved.lookup m.mac).or ((rows.heldBy m.key).map Prod.fst) = some ip →
      rows.lookup ip = some row → row.state ≠ .bound
  | .request => ∀ ip row, rows.lookup ip = some row → row.state = .bound →
      (m.asks spec = some ip → spec.reserved.lookup m.mac = some ip → row.key = some m.key) ∧
      (m.renews = some ip → row.key = some m.key →
        spec.inNetwork ip ∧ (ip ∈ spec.reservedIps → spec.reserved.lookup m.mac = some ip))
  | .decline => ∀ ip row, m.requested = some ip → spec.inPool ip → rows.lookup ip = some row → row.state = .bound →
      row.key = some m.key
  | .release | .inform => True

def Reply.Grants (r : Reply) (x : UInt32) : Prop := (r.kind = .offer ∨ r.kind = .ack) ∧ r.yiaddr = some x

theorem reply_kind (kind : ReplyKind) (m : Message) (yiaddr : Option UInt32) (options : List SentOption) :
    (reply kind m yiaddr options).kind = kind := rfl

theorem reply_yiaddr (kind : ReplyKind) (m : Message) (yiaddr : Option UInt32) (options : List SentOption) :
    (reply kind m yiaddr options).yiaddr = yiaddr := rfl

theorem nak_grants {m : Message} {reason : String} {r : Reply} {x : UInt32} (member : r ∈ nak m reason) : ¬r.Grants x := by
  rintro ⟨kind, -⟩
  rw [nak, List.mem_singleton] at member
  rw [member, reply_kind] at kind
  simp at kind

section steps

variable [Add Time] [NatCast Time] {spec : Spec} {probe : UInt32 → Bool} {rows : Leases Time} {now : Time} {m : Message}
  {x : UInt32} {row : Row Time} {holder : String}

theorem firstFree_skips {key : String} (there : rows.lookup x = some row) (foreign : row.key ≠ some key) (ips : List UInt32) :
    (firstFree spec probe key now ips rows).1 ≠ some x ∧ (firstFree spec probe key now ips rows).2.lookup x = some row := by
  induction ips generalizing rows with
  | nil => exact ⟨by simp [firstFree], there⟩
  | cons ip rest ih =>
    unfold firstFree
    by_cases here : ip = x
    · subst here
      rw [if_pos (by simp [there, foreign])]
      exact ih there
    · split
      · exact ih there
      · split
        · refine ih ?_
          rw [Dict.lookup_assign, if_neg (Ne.symm here)]
          exact there
        · exact ⟨by simpa using here, there⟩

theorem discover_other (there : rows.lookup x = some row) (bound : row.state = .bound)
    (regular : ∀ ip row, (spec.reserved.lookup m.mac).or ((rows.heldBy m.key).map Prod.fst) = some ip →
      rows.lookup ip = some row → row.state ≠ .bound) :
    (allocate spec probe rows m.key m.mac m.requested now).1 ≠ some x ∧
      (allocate spec probe rows m.key m.mac m.requested now).2.lookup x = some row := by
  unfold allocate
  cases reserved : spec.reserved.lookup m.mac with
  | some ip =>
    refine ⟨?_, there⟩
    rintro ⟨⟩
    exact regular x row (by simp [reserved]) there bound
  | none =>
    cases held : rows.heldBy m.key with
    | some item =>
      refine ⟨?_, there⟩
      rintro ⟨⟩
      exact regular item.1 row (by simp [reserved, held]) there bound
    | none =>
      refine firstFree_skips there ?_ _
      intro same
      have some' := heldBy_isSome there same bound
      rw [held] at some'
      cases some'

omit [Add Time] [NatCast Time] in
theorem offeredTo_key {mac key : String} {boundOnly : Bool} (there : rows.lookup x = some row)
    (reservation : spec.reserved.lookup mac = some x → row.key = some key)
    (offered : offeredTo spec rows x key mac boundOnly = true) : row.key = some key := by
  unfold offeredTo at offered
  split at offered
  · rename_i mine
    exact reservation mine
  · split at offered
    · cases offered
    · rw [there] at offered
      simp only [Bool.and_eq_true, decide_eq_true_eq] at offered
      exact offered.1

/-- A REQUEST is answered with an ACK of the address it asks for, or grants nothing and at
most gives an offer back. -/
theorem request_cases (spec : Spec) (rows : Leases Time) (now : Time) (m : Message) :
    (∃ target boundOnly, m.asks spec = some target ∧ (m.requested = some target ∨ m.client = some target) ∧
      offeredTo spec rows target m.key m.mac boundOnly = true ∧ handleRequest spec rows now m = acknowledge spec rows now m target) ∨
    ((∀ r ∈ (handleRequest spec rows now m).1, ∀ x, ¬r.Grants x) ∧
      ((handleRequest spec rows now m).2 = rows ∨ ∃ ip row, rows.heldBy m.key = some (ip, row) ∧ row.state = .offered ∧
        (handleRequest spec rows now m).2 = release rows ip m.key)) := by
  unfold handleRequest Message.asks
  cases server : m.options.lookup 54 with
  | some id =>
    by_cases ours : id = packed spec.address
    · simp only [ours, ne_eq, not_true_eq_false, if_false, if_true]
      cases requested : m.requested with
      | none => exact .inr ⟨fun r member x => nak_grants member, .inl rfl⟩
      | some target =>
        dsimp only
        split
        · rename_i offered
          exact .inl ⟨target, false, rfl, .inl rfl, offered, rfl⟩
        · exact .inr ⟨fun r member x => nak_grants member, .inl rfl⟩
    · simp only [ours, ne_eq, not_false_eq_true, if_true]
      refine .inr ?_
      cases held : rows.heldBy m.key with
      | none => exact ⟨by simp, .inl rfl⟩
      | some item =>
        refine ⟨by simp, ?_⟩
        dsimp only
        split
        · rename_i offered
          exact .inr ⟨item.1, item.2, rfl, offered, rfl⟩
        · exact .inl rfl
  | none =>
    cases requested : m.requested with
    | some target =>
      dsimp only
      split
      · exact .inr ⟨fun r member x => nak_grants member, .inl rfl⟩
      · split
        · rename_i offered
          exact .inl ⟨target, true, rfl, .inl rfl, offered, rfl⟩
        · exact .inr ⟨fun r member x => nak_grants member, .inl rfl⟩
    | none =>
      cases client : m.client with
      | some target =>
        dsimp only
        split
        · rename_i offered
          exact .inl ⟨target, true, rfl, .inr rfl, offered.2, rfl⟩
        · exact .inr ⟨fun r member x => nak_grants member, .inl rfl⟩
      | none => exact .inr ⟨by simp, .inl rfl⟩

theorem bind_other {ip : UInt32} {key mac : String} {state : LeaseState} (other : x ≠ ip) :
    (bind spec rows ip key mac now state).lookup x = rows.lookup x := by
  unfold bind
  rw [Dict.lookup_assign, if_neg other]

theorem handled_exclusive (there : rows.lookup x = some row) (bound : row.state = .bound) (own : row.key = some holder)
    (regular : Regular spec rows m) {r : Reply} (sent : r ∈ (handleMessage spec probe rows now m).1) (grants : r.Grants x) :
    m.key = holder := by
  unfold handleMessage at sent
  unfold Regular at regular
  cases type : m.type with
  | discover =>
    simp only [type] at sent regular
    unfold handleDiscover at sent
    rcases found : allocate spec probe rows m.key m.mac m.requested now with ⟨_ | ip, left⟩
    · simp [found] at sent
    · rw [found, List.mem_singleton] at sent
      have same : some ip = some x := by
        rw [← grants.2, sent]
        rfl
      exact absurd (congrArg Prod.fst found |>.trans same) (discover_other there bound regular).1
  | request =>
    simp only [type] at sent regular
    obtain ⟨target, boundOnly, asked, -, offered, acked⟩ | ⟨nothing, -⟩ := request_cases spec rows now m
    · rw [acked, acknowledge, List.mem_singleton] at sent
      have same : some target = some x := by
        rw [← grants.2, sent]
        rfl
      rw [Option.some.inj same] at asked offered
      have mine := offeredTo_key there ((regular x row there bound).1 asked) offered
      exact Option.some.inj (mine.symm.trans own)
    · exact absurd grants (nothing r sent x)
  | decline =>
    simp only [type, handleDecline] at sent
    split at sent <;> cases sent
  | release =>
    simp only [type, handleRelease] at sent
    split at sent <;> cases sent
  | inform =>
    simp only [type, handleInform] at sent
    split at sent
    · cases sent
    · rw [List.mem_singleton] at sent
      have nothing : (none : Option UInt32) = some x := by
        rw [← grants.2, sent]
        rfl
      cases nothing

theorem handled_keeps (there : rows.lookup x = some row) (bound : row.state = .bound) (own : row.key = some holder)
    (regular : Regular spec rows m) (stays : ¬m.Returns holder x) :
    (handleMessage spec probe rows now m).2.lookup x = some row := by
  unfold handleMessage
  unfold Regular at regular
  unfold Message.Returns at stays
  cases type : m.type with
  | discover =>
    simp only [type] at regular ⊢
    obtain ⟨other, kept⟩ := discover_other (m := m) there bound regular
    unfold handleDiscover
    rcases found : allocate spec probe rows m.key m.mac m.requested now with ⟨_ | ip, left⟩
    · rw [found] at kept
      exact kept
    · rw [found] at other kept
      exact (bind_other fun same => other (congrArg some same.symm)).trans kept
  | request =>
    simp only [type] at regular stays ⊢
    obtain ⟨target, boundOnly, asked, named, offered, acked⟩ | ⟨-, same | ⟨ip, held, found, state, released⟩⟩ :=
      request_cases spec rows now m
    · rw [acked]
      refine (bind_other ?_).trans there
      rintro rfl
      have mine := offeredTo_key there ((regular x row there bound).1 asked) offered
      exact stays ⟨Option.some.inj (mine.symm.trans own), named⟩
    · rw [same]
      exact there
    · rw [released]
      refine (release_other m.key ?_).trans there
      rintro rfl
      have same := there.symm.trans (heldBy_sound found).1
      cases same
      rw [bound] at state
      cases state
  | decline =>
    simp only [type, handleDecline] at regular stays ⊢
    split
    · rename_i ip requested
      split
      · rename_i inside
        rw [Dict.lookup_assign, if_neg, there]
        rintro rfl
        have mine := regular x row requested inside there bound
        exact stays ⟨Option.some.inj (mine.symm.trans own), requested⟩
      · exact there
    · exact there
  | release =>
    simp only [type, handleRelease] at stays ⊢
    split
    · rename_i ip client
      by_cases here : x = ip
      · subst here
        rw [release_foreign there]
        · exact there
        · intro mine
          exact stays ⟨Option.some.inj (mine.symm.trans own), client⟩
      · exact (release_other m.key here).trans there
    · exact there
  | inform =>
    simp only [handleInform]
    split <;> exact there

theorem handled_renews (there : rows.lookup x = some row) (bound : row.state = .bound) (own : row.key = some m.key)
    (regular : Regular spec rows m) (type : m.type = .request) (renews : m.renews = some x) :
    ∃ r ∈ (handleMessage spec probe rows now m).1, r.kind = .ack ∧ r.yiaddr = some x := by
  unfold Regular at regular
  simp only [type] at regular
  obtain ⟨inside, reservation⟩ := (regular x row there bound).2 renews own
  have offered : offeredTo spec rows x m.key m.mac true = true := by
    unfold offeredTo
    by_cases mine : spec.reserved.lookup m.mac = some x
    · rw [if_pos mine]
    · rw [if_neg mine, if_neg fun reserved => mine (reservation reserved), there]
      simp [own, bound]
  unfold Message.renews at renews
  have answer : handleMessage spec probe rows now m = acknowledge spec rows now m x := by
    unfold handleMessage handleRequest
    simp only [type]
    split at renews
    · rename_i server requested
      simp [server, requested, renews, inside, offered]
    · cases renews
  rw [answer]
  exact ⟨_, List.mem_singleton_self _, rfl, rfl⟩

end steps

/-! ### Runs -/

/-- A received frame, with the time and what answers a probe then. -/
structure Step (Time : Type) where
  now : Time
  frame : List UInt8
  probe : UInt32 → Bool

section runs

variable [Add Time] [NatCast Time] [LinearOrder Time]

def stepRows (spec : Spec) (rows : Leases Time) (s : Step Time) : Leases Time := (handle spec s.probe rows s.now s.frame).2

def run (spec : Spec) (rows : Leases Time) (steps : List (Step Time)) : Leases Time := steps.foldl (stepRows spec) rows

def RegularStep (spec : Spec) (rows : Leases Time) (s : Step Time) : Prop :=
  ∀ m, parse s.frame = some m → ¬m.relayed → Regular spec (rows.expire s.now) m

def RegularRun (spec : Spec) : Leases Time → List (Step Time) → Prop
  | _, [] => True
  | rows, s :: rest => RegularStep spec rows s ∧ RegularRun spec (stepRows spec rows s) rest

/-- After an ACK of an address to a client, before the lease runs out and as long as the client
has not returned it, nobody else is granted the address and the client can renew it. -/
def LeasesKept (spec : Spec) (rows : Leases Time) (steps : List (Step Time)) : Prop :=
  ∀ (before : List (Step Time)) (ack : Step Time) (between : List (Step Time)) (last : Step Time) (after : List (Step Time)),
    steps = before ++ ack :: (between ++ last :: after) →
    ∀ m x, parse ack.frame = some m →
    (∃ r ∈ (handle spec ack.probe (run spec rows before) ack.now ack.frame).1, r.kind = .ack ∧ r.yiaddr = some x) →
    (∀ s ∈ between, ∀ other, parse s.frame = some other → ¬other.Returns m.key x) →
    (∀ seconds : Nat, spec.lease = some seconds → last.now < ack.now + (seconds : Time)) →
    ∀ other, parse last.frame = some other →
      let replies := (handle spec last.probe (run spec rows (before ++ ack :: between)) last.now last.frame).1
      (∀ r ∈ replies, r.Grants x → other.key = m.key) ∧
      (other.key = m.key → ¬other.relayed → other.type = .request → other.renews = some x →
        ∃ r ∈ replies, r.kind = .ack ∧ r.yiaddr = some x)

variable {spec : Spec} {rows : Leases Time} {x : UInt32} {row : Row Time} {holder : String}

theorem acked_row {s : Step Time} {m : Message} (parsed : parse s.frame = some m) {r : Reply}
    (sent : r ∈ (handle spec s.probe rows s.now s.frame).1) (ack : r.kind = .ack) (address : r.yiaddr = some x) :
    (stepRows spec rows s).lookup x = some (bindRow spec m.key m.mac s.now .bound) := by
  unfold stepRows handle at *
  simp only [parsed] at sent ⊢
  split at sent
  · cases sent
  · rename_i direct
    rw [if_neg direct]
    unfold handleMessage at *
    cases type : m.type with
    | discover =>
      simp only [type, handleDiscover] at sent
      split at sent
      · cases sent
      · rw [List.mem_singleton] at sent
        rw [sent, reply_kind] at ack
        cases ack
    | request =>
      simp only [type] at sent ⊢
      obtain ⟨target, -, -, -, -, acked⟩ | ⟨nothing, -⟩ := request_cases spec (rows.expire s.now) s.now m
      · rw [acked, acknowledge, List.mem_singleton] at sent
        rw [sent, reply_yiaddr] at address
        rw [acked, acknowledge, bind, Dict.lookup_assign, if_pos (Option.some.inj address).symm]
      · exact absurd ⟨.inr ack, address⟩ (nothing r sent x)
    | decline =>
      simp only [type, handleDecline] at sent
      split at sent <;> cases sent
    | release =>
      simp only [type, handleRelease] at sent
      split at sent <;> cases sent
    | inform =>
      simp only [type, handleInform] at sent
      split at sent
      · cases sent
      · rw [List.mem_singleton] at sent
        rw [sent, reply_yiaddr] at address
        cases address

theorem step_keeps {s : Step Time} (there : rows.lookup x = some row) (bound : row.state = .bound) (own : row.key = some holder)
    (live : ∀ t, row.expires = some t → s.now < t) (regular : RegularStep spec rows s)
    (stays : ∀ m, parse s.frame = some m → ¬m.Returns holder x) : (stepRows spec rows s).lookup x = some row := by
  unfold stepRows handle
  cases parsed : parse s.frame with
  | none => exact there
  | some m =>
    have fresh := expire_lookup there live
    dsimp only
    split
    · exact fresh
    · rename_i direct
      exact handled_keeps fresh bound own (regular m parsed direct) (stays m parsed)

theorem run_keeps {steps : List (Step Time)} (there : rows.lookup x = some row) (bound : row.state = .bound)
    (own : row.key = some holder) (live : ∀ s ∈ steps, ∀ t, row.expires = some t → s.now < t) (regular : RegularRun spec rows steps)
    (stays : ∀ s ∈ steps, ∀ m, parse s.frame = some m → ¬m.Returns holder x) : (run spec rows steps).lookup x = some row := by
  induction steps generalizing rows with
  | nil => exact there
  | cons s rest ih =>
    obtain ⟨first, regular⟩ := regular
    have kept := step_keeps there bound own (live s List.mem_cons_self) first (stays s List.mem_cons_self)
    exact ih kept (fun s' member => live s' (List.mem_cons_of_mem s member)) regular
      (fun s' member => stays s' (List.mem_cons_of_mem s member))

theorem regularRun_append {first second : List (Step Time)} (regular : RegularRun spec rows (first ++ second)) :
    RegularRun spec rows first ∧ RegularRun spec (run spec rows first) second := by
  induction first generalizing rows with
  | nil => exact ⟨trivial, regular⟩
  | cons s rest ih =>
    obtain ⟨now, later⟩ := regular
    obtain ⟨front, back⟩ := ih later
    exact ⟨⟨now, front⟩, back⟩

/-- In every run whose steps are regular, leases are exclusive and kept. -/
theorem leases_kept (spec : Spec) (rows : Leases Time) (steps : List (Step Time)) (clock : steps.Pairwise fun s s' => s.now ≤ s'.now)
    (regular : RegularRun spec rows steps) : LeasesKept spec rows steps := by
  rintro before ack between last after rfl m x parsed ⟨r, sent, kind, address⟩ stays lease other parsedLast replies
  obtain ⟨-, regular⟩ := regularRun_append regular
  obtain ⟨-, regular⟩ := regular
  obtain ⟨regularBetween, regularLast, -⟩ := regularRun_append regular
  have bound := acked_row parsed sent kind address
  have live : ∀ s : Step Time, s.now ≤ last.now → ∀ t, (bindRow spec m.key m.mac ack.now .bound).expires = some t → s.now < t := by
    intro s early t expires
    obtain ⟨seconds, term, rfl⟩ := Option.map_eq_some_iff.mp (show spec.lease.map _ = some t from expires)
    exact lt_of_le_of_lt early (lease seconds term)
  have ordered : ∀ s ∈ between, s.now ≤ last.now := by
    intro s member
    obtain ⟨-, tail, -⟩ := List.pairwise_append.mp clock
    obtain ⟨-, tail⟩ := List.pairwise_cons.mp tail
    exact (List.pairwise_append.mp tail).2.2 s member last List.mem_cons_self
  have kept := run_keeps bound rfl rfl (fun s member => live s (ordered s member)) regularBetween stays
  have whole : run spec rows (before ++ ack :: between) = run spec (stepRows spec (run spec rows before) ack) between := by
    simp [run]
  have fresh := expire_lookup kept (live last le_rfl)
  dsimp only [replies]
  rw [whole]
  unfold handle
  simp only [parsedLast]
  split
  · rename_i relayed
    exact ⟨fun r none' => by simp at none', fun _ direct => absurd relayed direct⟩
  · rename_i direct
    have regular := regularLast other parsedLast direct
    refine ⟨fun r sent grants => handled_exclusive fresh rfl rfl regular sent grants, ?_⟩
    intro same _ type renews
    exact handled_renews fresh rfl (congrArg some same.symm) regular type renews

end runs

/-! ### A run -/

def sampleRaw : RawSpec where
  interface := "ethernet1/5"
  address := "10.0.0.1/24"
  pools := [["10.0.0.10", "10.0.0.11"]]
  reserved := []
  lease := some 3600
  probe := false
  options := ⟨"", "", [], [], [], ""⟩

def sampleSpec : Spec where
  interface := "ethernet1/5"
  address := 0x0a000001
  prefixLen := 24
  pools := [(0x0a00000a, 0x0a00000b)]
  reserved := ∅
  lease := some 3600
  probe := false
  options := ⟨none, none, [], [], [], none⟩

/-- A frame of the client with the hardware address 02:00:00:00:00:`client`. -/
def sampleFrame (type client : UInt8) (ciaddr options : List UInt8) : List UInt8 :=
  let chaddr : List UInt8 := [2, 0, 0, 0, 0, client]
  let data : List UInt8 := [1, 1, 6, 0] ++ List.replicate 8 0 ++ ciaddr ++ List.replicate 12 0 ++ chaddr ++
    List.replicate 202 0 ++ magic ++
    option 53 [type] ++ options ++ [255]
  let udp : List UInt8 := ByteOrder.big.toBytes 2 68 ++ ByteOrder.big.toBytes 2 67 ++
    ByteOrder.big.toBytes 2 (data.length + 8) ++ [0, 0] ++ data
  let ip : List UInt8 := [0x45, 0] ++ ByteOrder.big.toBytes 2 (udp.length + 20) ++ [0, 0, 0, 0, 64, 17, 0, 0] ++ List.replicate 4 0 ++
    List.replicate 4 0xff
  List.replicate 6 0xff ++ chaddr ++ [8, 0] ++ ip ++ udp

def sampleAddress : UInt32 := 0x0a00000a

def sampleStep (now : Nat) (frame : List UInt8) : Step Nat := ⟨now, frame, fun _ => false⟩

def sampleDiscover : Step Nat := sampleStep 0 (sampleFrame 1 1 [0, 0, 0, 0] [])

def sampleRequest : Step Nat :=
  sampleStep 1 (sampleFrame 3 1 [0, 0, 0, 0] (option 54 (packed 0x0a000001) ++ option 50 (packed sampleAddress)))

def sampleDecline : Step Nat := sampleStep 2 (sampleFrame 4 2 [0, 0, 0, 0] (option 50 (packed sampleAddress)))

def sampleRenewal : Step Nat := sampleStep 3 (sampleFrame 3 1 (packed sampleAddress) [])

theorem foreign_decline_ends_lease :
    (validateServer "p5" sampleRaw).toOption = some sampleSpec ∧
    [sampleDiscover, sampleRequest, sampleDecline, sampleRenewal].Pairwise (fun s s' => s.now ≤ s'.now) ∧
    ¬LeasesKept sampleSpec ∅ [sampleDiscover, sampleRequest, sampleDecline, sampleRenewal] := by
  refine ⟨by decide +kernel, by decide +kernel, ?_⟩
  intro kept
  obtain ⟨m, parsed⟩ : ∃ m, parse sampleRequest.frame = some m := Option.isSome_iff_exists.mp (by decide +kernel)
  obtain ⟨other, parsedLast⟩ : ∃ m, parse sampleRenewal.frame = some m := Option.isSome_iff_exists.mp (by decide +kernel)
  have key : (parse sampleRequest.frame).map Message.key = some "mac:02:00:00:00:00:01" := by decide +kernel
  have last : (parse sampleRenewal.frame).map (fun m => (m.key, m.type, m.renews, decide m.relayed)) =
      some ("mac:02:00:00:00:00:01", .request, some sampleAddress, false) := by decide +kernel
  rw [parsed, Option.map_some, Option.some.injEq] at key
  rw [parsedLast, Option.map_some, Option.some.injEq] at last
  obtain ⟨lastKey, lastType, renews, direct⟩ : _ ∧ _ ∧ _ ∧ _ := by simpa using last
  have promise := kept [sampleDiscover] sampleRequest [sampleDecline] sampleRenewal [] rfl m sampleAddress parsed
    (by decide +kernel) ?_ ?_ other parsedLast
  · obtain ⟨r, sent, kind, -⟩ := promise.2 (lastKey.trans key.symm) (by simpa using direct) lastType renews
    have refused : ∀ r ∈ (handle sampleSpec sampleRenewal.probe (run sampleSpec ∅ [sampleDiscover, sampleRequest, sampleDecline])
        sampleRenewal.now sampleRenewal.frame).1, r.kind = .nak := by decide +kernel
    rw [refused r sent] at kind
    cases kind
  · intro s member declined parsedDecline returns
    have foreign : (parse sampleDecline.frame).map Message.key = some "mac:02:00:00:00:00:02" := by decide +kernel
    rw [List.mem_singleton.mp member] at parsedDecline
    rw [parsedDecline, Option.map_some, Option.some.injEq, returns.1, key] at foreign
    simp at foreign
  · intro seconds lease
    cases lease
    decide

/-- Without the foreign DECLINE the lease is renewed. -/
theorem leases_kept_sample : LeasesKept sampleSpec ∅ [sampleDiscover, sampleRequest, sampleRenewal] := by
  refine leases_kept sampleSpec ∅ _ (by decide +kernel) ⟨?_, ?_, ?_, trivial⟩
  · intro m parsed _
    have type : (parse sampleDiscover.frame).map Message.type = some .discover := by decide +kernel
    rw [parsed, Option.map_some, Option.some.injEq] at type
    simp only [Regular, type]
    intro ip row _ there
    cases there
  · intro m parsed _
    have type : (parse sampleRequest.frame).map Message.type = some .request := by decide +kernel
    rw [parsed, Option.map_some, Option.some.injEq] at type
    have offered : ∀ item ∈ ((stepRows sampleSpec ∅ sampleDiscover).expire sampleRequest.now).items, item.2.state ≠ .bound := by
      decide +kernel
    simp only [Regular, type]
    exact fun ip row there bound => absurd bound (offered (ip, row) (Dict.mem_items.mpr there))
  · intro m parsed _
    have facts : (parse sampleRenewal.frame).map (fun m => (m.type, m.renews)) = some (.request, some sampleAddress) := by
      decide +kernel
    rw [parsed, Option.map_some, Option.some.injEq, Prod.mk.injEq] at facts
    simp only [Regular, facts.1, facts.2]
    intro ip row there bound
    refine ⟨fun _ reserved => (by cases reserved), ?_⟩
    rintro ⟨⟩ -
    exact ⟨by decide, fun reserved => by cases reserved⟩

end FfnNgfw.Dhcp
