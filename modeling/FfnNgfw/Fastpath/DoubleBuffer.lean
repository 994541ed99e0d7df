import FfnNgfw.Dpmem.Rejected
import FfnNgfw.Fastpath.Classify
import FfnNgfw.Fastpath.Refresh

/-!
# The double-buffer protocol

The steps of the writer (clone, patch, publish) and of the data plane (refresh,
classify) in any order. The data plane compares bank numbers only, so it misses an
update when the writer has published twice since the last refresh, and the second
of these updates is written into the bank that the workers read. When every update
waits for the data plane to follow the one before, the workers read bytes that
nobody writes, and a refresh always leaves them with the tables of the active bank.
-/

namespace FfnNgfw.Fastpath
open Mem Dpmem Portable

section scans

variable {m m' : Mem} {base size : Nat}

theorem fpHdrAt_congr {p : Nat} (same : ∀ i < fpHdrSize, m' (p + i) = m (p + i)) : fpHdrAt m' p = fpHdrAt m p := by
  unfold fpHdrSize at same
  have magic : m'.bytes p 4 = m.bytes p 4 := bytes_congr fun i inside => same i (by omega)
  have version : ldLe16 m' (p + 4) = ldLe16 m (p + 4) := ldLe16_congr fun i inside => by
    rw [Nat.add_assoc]
    exact same (4 + i) (by omega)
  have tableType : ldLe16 m' (p + 6) = ldLe16 m (p + 6) := ldLe16_congr fun i inside => by
    rw [Nat.add_assoc]
    exact same (6 + i) (by omega)
  have entryCount : ldLe32 m' (p + 8) = ldLe32 m (p + 8) := ldLe32_congr fun i inside => by
    rw [Nat.add_assoc]
    exact same (8 + i) (by omega)
  have recordSize : ldLe32 m' (p + 24) = ldLe32 m (p + 24) := ldLe32_congr fun i inside => by
    rw [Nat.add_assoc]
    exact same (24 + i) (by omega)
  unfold fpHdrAt
  rw [magic, version, tableType, entryCount, recordSize]

theorem bankNext_congr {off : Nat} (small : size < 2 ^ 63) (inside : off ≤ size)
    (same : ∀ o < size, m' (base + o) = m (base + o)) : bankNext m' base size off = bankNext m base size off := by
  unfold bankNext
  by_cases header : (off + fpHdrSize) % 2 ^ 64 ≤ size
  · have read : fpHdrAt m' (base + off) = fpHdrAt m (base + off) := fpHdrAt_congr fun i byte => by
      unfold fpHdrSize at header byte
      rw [Nat.add_assoc]
      exact same _ (by omega)
    rw [read]
  · rw [if_neg header, if_neg header]

theorem bankFindFrom_congr {off fuel : Nat} {magic : List UInt8} (small : size < 2 ^ 63) (inside : off ≤ size)
    (same : ∀ o < size, m' (base + o) = m (base + o)) :
    bankFindFrom m' base size magic fuel off = bankFindFrom m base size magic fuel off := by
  induction fuel generalizing off with
  | zero => rfl
  | succ fuel ih =>
    unfold bankFindFrom
    rw [bankNext_congr small inside same]
    cases next : bankNext m base size off with
    | none => rfl
    | some out =>
      obtain ⟨h, off'⟩ := out
      obtain ⟨_, _, _, inside'⟩ := bankNext_some next
      dsimp only
      rw [ih inside']

theorem bankFindFrom_inside {off fuel : Nat} {magic : List UInt8} {f : Found} (small : size < 2 ^ 63)
    (inside : off ≤ size) (found : bankFindFrom m base size magic fuel off = some (some f))
    (rows : f.tableType ≠ fpTStrings) (short : f.recordSize ≤ 32) :
    base ≤ f.ptr ∧ f.ptr + f.count.toNat * f.recordSize.toNat ≤ base + size := by
  induction fuel generalizing off with
  | zero => cases found
  | succ fuel ih =>
    unfold bankFindFrom at found
    cases next : bankNext m base size off with
    | none =>
      rw [next] at found
      cases found
    | some out =>
      obtain ⟨h, off'⟩ := out
      obtain ⟨header, _, after, inside'⟩ := bankNext_some next
      rw [next] at found
      dsimp only at found
      split at found
      · cases found
        dsimp only at rows short ⊢
        rw [FpHdr.payload, if_neg rows] at after
        -- 32-byte rows are too few bytes to wrap around.
        have count := h.entryCount.toNat_lt
        have width : h.recordSize.toNat ≤ 32 := UInt32.le_iff_toNat_le.mp short
        have bytes : h.entryCount.toNat * h.recordSize.toNat ≤ 2 ^ 32 * 32 := Nat.mul_le_mul (by omega) width
        unfold fpHdrSize at header after ⊢
        omega
      · exact ih inside' found

end scans

/-- Where the writer is in `ffn_mpdp_apply`. -/
inductive Phase where
  | idle
  | cloned (stage : Mem → Bank → Staged)
  | patched (rc : MpdpRc)

structure Sys (Db : Type) where
  hdr : Hdr
  phase : Phase
  dp : Dataplane Db

inductive Event where
  /-- the writer takes up a frame and clones the active bank when it is staged -/
  | clone (f : Frame)
  | patch
  | publish
  | refresh
  /-- a worker looks up a packet; it only reads -/
  | classify (vsys : UInt8) (sip dip : UInt32) (sp dp : UInt16) (proto : UInt8)

variable {Db : Type} (hs : Option (List UInt8 → Option Db))

def Sys.step (s : Sys Db) : Event → Option (Sys Db)
  | .clone f =>
    match s.phase, f.stage? with
    | .idle, some stage => some { s with hdr := s.hdr.cloned, phase := .cloned stage }
    | .idle, none => some { s with hdr := (ffnMpdpApply f s.hdr).1 }
    | _, _ => none
  | .patch =>
    match s.phase with
    | .cloned stage =>
      let out := stage s.hdr.mem (s.hdr.bank s.hdr.inactive)
      some { s with hdr := s.hdr.patched out, phase := .patched out.rc }
    | _ => none
  | .publish =>
    match s.phase with
    | .patched rc =>
      some { s with hdr := if rc = .ok then s.hdr.publish s.hdr.inactive else s.hdr, phase := .idle }
    | _ => none
  | .refresh => (dpmemRefresh hs s.hdr s.dp).map fun dp => { s with dp := dp }
  | .classify .. => some s

def Sys.run (s : Sys Db) : List Event → Option (Sys Db)
  | [] => some s
  | e :: events => (s.step hs e).bind fun s' => s'.run events

/-- The bytes that a worker reads through the tables: `policy` in `classify`, `patmeta`
in `on_match`. -/
def FpTables.Reads (t : FpTables) (a : Nat) : Prop :=
  (t.policy ≤ a ∧ a < t.policy + t.policyN.toNat * 32) ∨ (t.patmeta ≤ a ∧ a < t.patmeta + t.patmetaN.toNat * 30)

def Intact (s s' : Sys Db) : Prop := ∀ a, s.dp.activeTables.Reads a → s'.hdr.mem a = s.hdr.mem a

def Current (s : Sys Db) : Prop := bankTables s.hdr = some s.dp.activeTables

def StepSafe (s : Sys Db) (e : Event) (s' : Sys Db) : Prop :=
  match e with
  | .refresh => Current s'
  | _ => Intact s s'

def SafeRun (s : Sys Db) : List Event → Prop
  | [] => True
  | e :: events => ∀ s', s.step hs e = some s' → StepSafe s e s' ∧ SafeRun s' events

/-! ### Runs in which the data plane follows -/

/-- The rows of a table have `size` bytes, which `load_tables_from_files` checks and
`dpmem_refresh` does not. -/
def recordsFit (found : Option (Option Found)) (size : UInt32) : Bool :=
  found.join.all fun f => f.recordSize == size && f.tableType != fpTStrings

/-- No update starts before the data plane has loaded the bank of the last one, and
the tables it loads have rows of the right size. -/
def follows (s : Sys Db) : Event → Bool
  | .clone f => f.stage?.isNone || s.dp.lastBank == s.hdr.activeBank || decide (1 < s.dp.lastBank)
  | .refresh =>
    s.hdr.activeBank == s.dp.lastBank ||
      (recordsFit (activeFind s.hdr fpMagicPolicy) 32 && recordsFit (activeFind s.hdr fpMagicPatmeta) 30)
  | _ => true

def followsAlong (s : Sys Db) : List Event → Bool
  | [] => true
  | e :: events => follows s e && (s.step hs e).all fun s' => followsAlong s' events

/-- An idle writer, and a data plane that has attached to the region with tables from
elsewhere. -/
structure Start (s : Sys Db) : Prop where
  wf : s.hdr.Wf
  idle : s.phase = .idle
  attached : s.dp.attached = true
  never : s.dp.lastBank = 0xFFFFFFFF
  boot : ∀ a, s.dp.activeTables.Reads a → a < s.hdr.addr ∨ s.hdr.arena true + s.hdr.bankSize ≤ a

inductive ViewPlaced (s : Sys Db) : Prop where
  /-- nowhere near the region, before the first refresh -/
  | boot (never : 1 < s.dp.lastBank)
      (outside : ∀ a, s.dp.activeTables.Reads a → a < s.hdr.addr ∨ s.hdr.arena true + s.hdr.bankSize ≤ a)
  /-- into the bank that was loaded last; if that is still active, the view is current -/
  | loaded (i : Bool) (bank : s.dp.lastBank = bankNum i)
      (inside : ∀ a, s.dp.activeTables.Reads a → s.hdr.arena i ≤ a ∧ a < s.hdr.arena i + s.hdr.bankSize)
      (current : s.hdr.active = i → Current s)

structure Inv (s : Sys Db) : Prop where
  wf : s.hdr.Wf
  attached : s.dp.attached = true
  busy : s.phase ≠ .idle → s.dp.lastBank = s.hdr.activeBank ∨ 1 < s.dp.lastBank
  clone : ∀ stage, s.phase = .cloned stage → Appends stage ∧
    (s.hdr.bank s.hdr.inactive).base = s.hdr.arena s.hdr.inactive ∧
    (s.hdr.bank s.hdr.inactive).size = s.hdr.bankSize
  view : ViewPlaced s

theorem start_inv {s : Sys Db} (start : Start s) : Inv s := by
  refine ⟨start.wf, start.attached, fun busy => absurd start.idle busy, fun stage cloned => ?_, ?_⟩
  · rw [start.idle] at cloned
    cases cloned
  · refine .boot ?_ start.boot
    rw [start.never]
    decide

/-- What the writer does before it publishes: it writes the inactive arena only. -/
structure Writes (d d' : Hdr) : Prop where
  addr : d'.addr = d.addr
  bankOff : d'.bankOff = d.bankOff
  bankSize : d'.bankSize = d.bankSize
  activeBank : d'.activeBank = d.activeBank
  mem : ∀ a, a < d.arena d.inactive ∨ d.arena d.inactive + d.bankSize ≤ a → d'.mem a = d.mem a

section writes

variable {d d' : Hdr} (writes : Writes d d')
include writes

theorem Writes.arena (i : Bool) : d'.arena i = d.arena i := by
  unfold Hdr.arena
  rw [writes.addr, writes.bankOff]

theorem Writes.active : d'.active = d.active := by
  unfold Hdr.active
  rw [writes.activeBank]

theorem Writes.bankTables (wf : d.Wf) : bankTables d' = bankTables d := by
  have apart := wf.apart d.active
  have find (magic : List UInt8) : activeFind d' magic = activeFind d magic := by
    unfold activeFind bankFind
    rw [writes.active, writes.arena, writes.bankSize]
    refine bankFindFrom_congr wf.bankSize_lt (Nat.zero_le _) fun o inside => writes.mem _ ?_
    unfold Hdr.inactive
    omega
  unfold Fastpath.bankTables
  rw [find, find, find, find]

end writes

/-! ### One step -/

theorem bankNum_le_one : ∀ i, bankNum i ≤ 1 := by decide

theorem bankNum_inj {i j : Bool} (h : bankNum i = bankNum j) : i = j := by
  rw [← bankIx_bankNum i, h, bankIx_bankNum]

section steps

variable {s : Sys Db}

theorem followed_active {d : Hdr} (wf : d.Wf) {last : UInt32} {i : Bool} (follow : last = d.activeBank ∨ 1 < last)
    (bank : last = bankNum i) : i = d.active := by
  rcases follow with same | never
  · rw [bank, wf.numbered] at same
    exact bankNum_inj same
  · rw [bank] at never
    exact absurd (bankNum_le_one i) (UInt32.not_le.mpr never)

theorem view_apart (inv : Inv s) (follow : s.dp.lastBank = s.hdr.activeBank ∨ 1 < s.dp.lastBank) {a : Nat}
    (reads : s.dp.activeTables.Reads a) :
    a < s.hdr.arena s.hdr.inactive ∨ s.hdr.arena s.hdr.inactive + s.hdr.bankSize ≤ a := by
  have order := inv.wf.order
  cases inv.view with
  | boot never outside =>
    have there := outside a reads
    unfold Hdr.arena at there ⊢
    cases s.hdr.inactive with
    | false => omega
    | true => omega
  | loaded i bank inside current =>
    have live := followed_active inv.wf follow bank
    have here := inside a reads
    have apart := inv.wf.apart s.hdr.active
    rw [live] at here
    unfold Hdr.inactive
    omega

theorem writes_view (inv : Inv s) {d' : Hdr} (writes : Writes s.hdr d') (phase : Phase) :
    ViewPlaced { s with hdr := d', phase := phase } := by
  cases inv.view with
  | boot never outside =>
    refine .boot never fun a reads => ?_
    dsimp only
    rw [writes.addr, writes.arena, writes.bankSize]
    exact outside a reads
  | loaded i bank inside current =>
    refine .loaded i bank (fun a reads => ?_) fun live => ?_
    · dsimp only
      rw [writes.arena, writes.bankSize]
      exact inside a reads
    · unfold Current
      dsimp only at live ⊢
      rw [writes.active] at live
      rw [writes.bankTables inv.wf]
      exact current live

theorem writes_refl (d : Hdr) : Writes d d := ⟨rfl, rfl, rfl, rfl, fun _ _ => rfl⟩

theorem apply_writes {f : Frame} (unstaged : f.stage? = none) (d : Hdr) :
    Writes d (ffnMpdpApply f d).1 ∧ (ffnMpdpApply f d).1.mem = d.mem := by
  rcases apply_unstaged unstaged d with ⟨sv, run⟩ | ⟨same, _⟩
  · rw [run]
    exact ⟨⟨rfl, rfl, rfl, rfl, fun _ _ => rfl⟩, rfl⟩
  · rw [same]
    exact ⟨writes_refl d, rfl⟩

theorem clone_writes {d : Hdr} (wf : d.Wf) : Writes d d.cloned :=
  ⟨rfl, rfl, rfl, rfl, fun _ outside => cloned_mem_frame wf outside⟩

theorem bound_arena_wf {d : Hdr} (wf : d.Wf) {i : Bool} (base : (d.bank i).base = d.arena i)
    (size : (d.bank i).size = d.bankSize) : (d.bank i).toArena.Wf :=
  ⟨size ▸ wf.used i, size ▸ wf.bankSize_lt, base ▸ size ▸ wf.arena_mapped i⟩

theorem patch_writes {d : Hdr} (wf : d.Wf) {stage : Mem → Bank → Staged} (appends : Appends stage)
    (base : (d.bank d.inactive).base = d.arena d.inactive) (size : (d.bank d.inactive).size = d.bankSize) :
    Writes d (d.patched (stage d.mem (d.bank d.inactive))) ∧ (d.patched (stage d.mem (d.bank d.inactive))).Wf := by
  obtain ⟨_, sameSize, _, fits, frame⟩ := appends d.mem (d.bank d.inactive) (bound_arena_wf wf base size)
  rw [sameSize, size] at fits
  rw [base, size] at frame
  have kept := setBank_wf (i := d.inactive) wf fits
  refine ⟨⟨rfl, rfl, rfl, rfl, fun a outside => frame a ?_⟩, kept.placed, kept.order, kept.mapped, kept.used, kept.numbered⟩
  rcases outside with left | right
  · exact Or.inl (by omega)
  · exact Or.inr right

variable {s' : Sys Db}

theorem clone_safe (inv : Inv s) {f : Frame} (allowed : follows s (.clone f) = true)
    (step : s.step hs (.clone f) = some s') : Intact s s' ∧ Inv s' := by
  unfold Sys.step at step
  dsimp only at step
  cases phase : s.phase with
  | idle =>
    cases staged : f.stage? with
    | some stage =>
      rw [phase, staged] at step
      cases step
      have follow : s.dp.lastBank = s.hdr.activeBank ∨ 1 < s.dp.lastBank := by
        simpa [follows, staged] using allowed
      have writes := clone_writes inv.wf
      refine ⟨fun a reads => writes.mem a (view_apart inv follow reads), cloned_wf inv.wf, inv.attached,
        fun _ => follow, fun stage' same => ?_, writes_view inv writes _⟩
      cases same
      refine ⟨(apply_staged staged).1, ?_, ?_⟩
      · exact congrArg (fun b => b.base) (cloned_bank_inactive s.hdr)
      · exact congrArg (fun b => b.size) (cloned_bank_inactive s.hdr)
    | none =>
      rw [phase, staged] at step
      cases step
      obtain ⟨writes, mem⟩ := apply_writes staged s.hdr
      exact ⟨fun a _ => congrFun mem a, apply_wf f inv.wf, inv.attached, fun busy => absurd rfl busy,
        fun _ same => Phase.noConfusion same, writes_view inv writes _⟩
  | cloned stage =>
    rw [phase] at step
    cases step
  | patched rc =>
    rw [phase] at step
    cases step

theorem patch_safe (inv : Inv s) (step : s.step hs .patch = some s') : Intact s s' ∧ Inv s' := by
  unfold Sys.step at step
  dsimp only at step
  cases phase : s.phase with
  | idle =>
    rw [phase] at step
    cases step
  | cloned stage =>
    rw [phase] at step
    cases step
    obtain ⟨appends, base, size⟩ := inv.clone stage phase
    have follow := inv.busy (by rw [phase]; exact Phase.noConfusion)
    obtain ⟨writes, wf⟩ := patch_writes inv.wf appends base size
    refine ⟨fun a reads => writes.mem a (view_apart inv follow reads), wf, inv.attached, fun _ => follow,
      fun stage' same => ?_, writes_view inv writes _⟩
    cases same
  | patched rc =>
    rw [phase] at step
    cases step

theorem publish_safe (inv : Inv s) (step : s.step hs .publish = some s') : Intact s s' ∧ Inv s' := by
  unfold Sys.step at step
  dsimp only at step
  cases phase : s.phase with
  | idle =>
    rw [phase] at step
    cases step
  | cloned stage =>
    rw [phase] at step
    cases step
  | patched rc =>
    rw [phase] at step
    cases step
    have follow := inv.busy (by rw [phase]; exact Phase.noConfusion)
    by_cases ok : rc = .ok
    · rw [if_pos ok]
      refine ⟨fun _ _ => rfl, publish_wf inv.wf _, inv.attached, fun busy => absurd rfl busy,
        fun _ same => Phase.noConfusion same, ?_⟩
      cases inv.view with
      | boot never outside => exact .boot never outside
      | loaded i bank inside current =>
        refine .loaded i bank inside fun live => ?_
        -- The bank that was loaded is the one the writer has just left.
        have left := followed_active inv.wf follow bank
        have now : (s.hdr.publish s.hdr.inactive).active = s.hdr.inactive := bankIx_bankNum _
        exact absurd (now.symm.trans (live.trans left)) (inactive_ne_active s.hdr)
    · rw [if_neg ok]
      exact ⟨fun _ _ => rfl, inv.wf, inv.attached, fun busy => absurd rfl busy, fun _ same => Phase.noConfusion same,
        writes_view inv (writes_refl s.hdr) _⟩

theorem found_inside {d : Hdr} (wf : d.Wf) {magic : List UInt8} {found : Option Found} {size : UInt32}
    (small : size ≤ 32) (scan : activeFind d magic = some found) (fit : recordsFit (activeFind d magic) size = true)
    {a : Nat} (reads : foundPtr found ≤ a ∧ a < foundPtr found + (foundCount found).toNat * size.toNat) :
    d.arena d.active ≤ a ∧ a < d.arena d.active + d.bankSize := by
  cases found with
  | none =>
    have none : a < 0 + 0 * size.toNat := reads.2
    omega
  | some f =>
    rw [scan] at fit
    simp only [recordsFit, Option.join_some, Option.all_some, Bool.and_eq_true, beq_iff_eq, bne_iff_ne] at fit
    have inside := bankFindFrom_inside wf.bankSize_lt (Nat.zero_le _) scan fit.2 (fit.1 ▸ small)
    rw [fit.1] at inside
    have here : f.ptr ≤ a ∧ a < f.ptr + f.count.toNat * size.toNat := reads
    omega

theorem bankTables_inside {d : Hdr} (wf : d.Wf) {t : FpTables} (scanned : bankTables d = some t)
    (policyFit : recordsFit (activeFind d fpMagicPolicy) 32 = true)
    (patmetaFit : recordsFit (activeFind d fpMagicPatmeta) 30 = true) {a : Nat} (reads : t.Reads a) :
    d.arena d.active ≤ a ∧ a < d.arena d.active + d.bankSize := by
  obtain ⟨policy, foundPolicy, scanned⟩ := Option.bind_eq_some_iff.mp scanned
  obtain ⟨patmeta, foundPatmeta, scanned⟩ := Option.bind_eq_some_iff.mp scanned
  obtain ⟨avhash, _, scanned⟩ := Option.bind_eq_some_iff.mp scanned
  obtain ⟨strings, _, scanned⟩ := Option.bind_eq_some_iff.mp scanned
  cases scanned
  rcases reads with policyRow | patmetaRow
  · exact found_inside wf (by decide) foundPolicy policyFit policyRow
  · exact found_inside wf (by decide) foundPatmeta patmetaFit patmetaRow

theorem refresh_safe (inv : Inv s) (allowed : follows s .refresh = true)
    (step : s.step hs .refresh = some s') : Current s' ∧ Inv s' := by
  obtain ⟨dp, done, same⟩ := Option.map_eq_some_iff.mp step
  subst same
  have valid : s.hdr.activeBank ≤ 1 := by
    rw [inv.wf.numbered]
    exact bankNum_le_one _
  by_cases due : RefreshDue s.hdr s.dp
  · obtain ⟨view, last, attached⟩ := dpmemRefresh_due due done
    refine ⟨view, inv.wf, attached, fun _ => Or.inl last, inv.clone, ?_⟩
    simp only [follows, Bool.or_eq_true, Bool.and_eq_true, beq_iff_eq] at allowed
    obtain ⟨policyFit, patmetaFit⟩ := allowed.resolve_left due.2.1
    exact .loaded s.hdr.active (last.trans inv.wf.numbered)
      (fun a reads => bankTables_inside inv.wf view policyFit patmetaFit reads) fun _ => view
  · rw [dpmemRefresh_idle due, Option.some.injEq] at done
    subst done
    refine ⟨?_, inv⟩
    have loaded : s.hdr.activeBank = s.dp.lastBank := by
      by_contra new
      exact due ⟨inv.attached, new, valid⟩
    cases inv.view with
    | boot never outside =>
      rw [← loaded] at never
      exact absurd valid (UInt32.not_le.mpr never)
    | loaded i bank inside current =>
      exact current (followed_active inv.wf (Or.inl loaded.symm) bank).symm

theorem step_safe (inv : Inv s) {e : Event} (allowed : follows s e = true)
    (step : s.step hs e = some s') : StepSafe s e s' ∧ Inv s' := by
  cases e with
  | clone f => exact clone_safe hs inv allowed step
  | patch => exact patch_safe hs inv step
  | publish => exact publish_safe hs inv step
  | refresh => exact refresh_safe hs inv allowed step
  | classify vsys sip dip sp dp proto =>
    cases step
    exact ⟨fun _ _ => rfl, inv⟩

end steps

/-! ### Runs -/

theorem safeRun_of_inv {s : Sys Db} (inv : Inv s) (events : List Event) (allowed : followsAlong hs s events = true) :
    SafeRun hs s events := by
  induction events generalizing s with
  | nil => trivial
  | cons e events ih =>
    rw [followsAlong, Bool.and_eq_true] at allowed
    intro s' step
    obtain ⟨safe, inv'⟩ := step_safe hs inv allowed.1 step
    have rest := allowed.2
    rw [step, Option.all_some] at rest
    exact ⟨safe, ih inv' rest⟩

/-- The protocol is safe in every run in which the data plane follows the writer. -/
theorem double_buffer_safe (s : Sys Db) (start : Start s) (events : List Event)
    (allowed : followsAlong hs s events = true) : SafeRun hs s events :=
  safeRun_of_inv hs (start_inv start) events allowed

theorem safeRun_current {s s' : Sys Db} {events : List Event} (safe : SafeRun hs s (events ++ [.refresh]))
    (run : s.run hs (events ++ [.refresh]) = some s') : Current s' := by
  induction events generalizing s with
  | nil =>
    obtain ⟨s₁, step, last⟩ := Option.bind_eq_some_iff.mp run
    cases last
    exact (safe s' step).1
  | cons e events ih =>
    obtain ⟨s₁, step, rest⟩ := Option.bind_eq_some_iff.mp run
    exact ih (safe s₁ step).2 rest

def policyBlob : WireVec where
  addr := 1
  bytes := fpMagicPolicy ++ le16 1 ++ le16 0x40 ++ le32 1 ++ List.replicate 12 0 ++ le32 32 ++ List.replicate 40 0
  present := one_present
  short := by decide

def blobUpdate : Frame := .message .mp2dp (some (.mlModelUpdate ⟨1, 0, some policyBlob, none, 0⟩))

def emptyUpdate : Frame := .message .mp2dp (some (.mlModelUpdate ⟨2, 0, none, none, 0⟩))

def bootSys : Sys Unit := ⟨smallRegion.val, .idle, booted filePolicy⟩

theorem bootSys_start : Start bootSys := by
  refine ⟨smallRegion.property, rfl, rfl, rfl, fun a reads => Or.inr ?_⟩
  have bound : smallRegion.val.arena true + smallRegion.val.bankSize ≤ 0x10000 := by decide
  rcases reads with policyRow | patmetaRow
  · exact Nat.le_trans bound policyRow.1
  · exact absurd patmetaRow.2 (Nat.not_lt_zero a)

/-- Two updates between two refreshes: the active bank has the same number again. -/
def twoUpdates : List Event :=
  [.refresh, .clone blobUpdate, .patch, .publish, .clone emptyUpdate, .patch, .publish]

theorem twoUpdates_not_safe : Start bootSys ∧ ¬SafeRun none bootSys (twoUpdates ++ [.refresh]) := by
  refine ⟨bootSys_start, fun safe => ?_⟩
  have missed : (bootSys.run none (twoUpdates ++ [.refresh])).any
      (fun s => decide (bankTables s.hdr ≠ some s.dp.activeTables)) = true := by decide +kernel
  obtain ⟨s, run, differs⟩ := (Option.any_eq_true _ _).mp missed
  exact of_decide_eq_true differs (safeRun_current none safe run)

def followedUpdates : List Event :=
  [.refresh, .clone blobUpdate, .patch, .publish, .refresh, .clone emptyUpdate, .patch, .publish, .refresh]

theorem followedUpdates_safe :
    followsAlong none bootSys followedUpdates = true ∧ SafeRun none bootSys followedUpdates := by
  have allowed : followsAlong none bootSys followedUpdates = true := by decide +kernel
  exact ⟨allowed, double_buffer_safe none bootSys bootSys_start followedUpdates allowed⟩

end FfnNgfw.Fastpath
