import FfnNgfw.Detect.Content

/-!
# Reassembly

A flow keeps the last `max_buffer` bytes of each direction, and every `feed` inspects the
buffer that its segment has gone into.
-/

namespace FfnNgfw.Detect

structure Flow where
  maxBuffer : Int := 2 ^ 20
  c2s : List UInt8 := []
  s2c : List UInt8 := []

/-- `del buf[:len(buf) - max_buffer]` where the buffer is longer than that. -/
def keepTail (maxBuffer : Int) (buf : List UInt8) : List UInt8 :=
  if buf.length > maxBuffer then buf.drop (buf.length - maxBuffer).toNat else buf

namespace Flow

def buffer (f : Flow) (direction : String) : List UInt8 := if direction = "c2s" then f.c2s else f.s2c

/-- The flow and the buffer that `Flow.append` returns. -/
def append (f : Flow) (direction : String) (data : List UInt8) : Flow × List UInt8 :=
  let buf := keepTail f.maxBuffer (f.buffer direction ++ data)
  (if direction = "c2s" then { f with c2s := buf } else { f with s2c := buf }, buf)

end Flow

abbrev Segment := String × List UInt8

namespace PayloadDetector

def feed (d : PayloadDetector) (f : Flow) (s : Segment) : Flow × List (Int × Int) :=
  let (f, buf) := f.append s.1 s.2
  (f, d.inspect buf)

/-- One segment after the other: the flow, and what each call reports. -/
def feeds (d : PayloadDetector) (f : Flow) : List Segment → Flow × List (Segment × List (Int × Int))
  | [] => (f, [])
  | s :: rest =>
    let (f, found) := d.feed f s
    let (f, later) := d.feeds f rest
    (f, (s, found) :: later)

end PayloadDetector

/-! ### What a buffer holds -/

def sameBuffer (a b : String) : Bool := (a == "c2s") == (b == "c2s")

def stream (direction : String) (segments : List Segment) : List UInt8 :=
  (segments.filter fun s => sameBuffer direction s.1).flatMap Prod.snd

theorem keepTail_suffix (maxBuffer : Int) (buf : List UInt8) : keepTail maxBuffer buf <:+ buf := by
  unfold keepTail
  split
  · exact List.drop_suffix _ _
  · exact List.suffix_rfl

theorem keepTail_drop (maxBuffer : Int) (buf : List UInt8) : keepTail maxBuffer buf = buf.drop (buf.length - maxBuffer).toNat := by
  unfold keepTail
  split
  · rfl
  · have none' : ((buf.length : Int) - maxBuffer).toNat = 0 := by omega
    rw [none', List.drop_zero]

theorem keepTail_append (maxBuffer : Int) (seen data : List UInt8) :
    keepTail maxBuffer (keepTail maxBuffer seen ++ data) = keepTail maxBuffer (seen ++ data) := by
  by_cases negative : maxBuffer < 0
  · have all : ∀ buf : List UInt8, keepTail maxBuffer buf = [] := by
      intro buf
      rw [keepTail_drop]
      exact List.drop_eq_nil_of_le (by omega)
    rw [all, all]
  · rw [keepTail_drop, keepTail_drop, keepTail_drop, List.length_append, List.length_append, List.length_drop]
    by_cases long : (seen.length : Int) - maxBuffer ≤ 0
    · have none' : ((seen.length : Int) - maxBuffer).toNat = 0 := by omega
      rw [none', List.drop_zero, Nat.sub_zero]
    · have dropped : seen.drop ((seen.length : Int) - maxBuffer).toNat ++ data =
          (seen ++ data).drop ((seen.length : Int) - maxBuffer).toNat := by
        rw [List.drop_append_of_le_length (by omega)]
      rw [dropped, List.drop_drop]
      congr 1
      omega

theorem Flow.append_buffer (f : Flow) (direction other : String) (data : List UInt8) :
    (f.append direction data).1.buffer other =
      if sameBuffer other direction then keepTail f.maxBuffer (f.buffer other ++ data) else f.buffer other := by
  unfold append buffer sameBuffer
  by_cases here : direction = "c2s" <;> by_cases there : other = "c2s" <;> simp [here, there]

theorem Flow.append_maxBuffer (f : Flow) (direction : String) (data : List UInt8) :
    (f.append direction data).1.maxBuffer = f.maxBuffer := by
  unfold append
  dsimp only
  split <;> rfl

/-- The buffer of every direction is the end of what has come in it. -/
structure Holds (maxBuffer : Int) (segments : List Segment) (f : Flow) : Prop where
  limit : f.maxBuffer = maxBuffer
  buffer : ∀ direction, f.buffer direction = keepTail maxBuffer (stream direction segments)

theorem Holds.start (maxBuffer : Int) : Holds maxBuffer [] { maxBuffer := maxBuffer } := by
  refine ⟨rfl, ?_⟩
  intro direction
  have empty : keepTail maxBuffer [] = [] := List.suffix_nil.mp (keepTail_suffix maxBuffer [])
  unfold Flow.buffer stream
  simp [empty]

theorem stream_append (direction : String) (front back : List Segment) :
    stream direction (front ++ back) = stream direction front ++ stream direction back := by
  unfold stream
  rw [List.filter_append, List.flatMap_append]

theorem stream_snoc (direction : String) (segments : List Segment) (s : Segment) :
    stream direction (segments ++ [s]) = stream direction segments ++ if sameBuffer direction s.1 then s.2 else [] := by
  rw [stream_append]
  unfold stream
  congr 1
  split
  · rename_i same
    simp [same]
  · rename_i other
    simp [other]

variable {maxBuffer : Int} {segments : List Segment}

theorem Holds.append {f : Flow} (holds : Holds maxBuffer segments f) (s : Segment) :
    Holds maxBuffer (segments ++ [s]) (f.append s.1 s.2).1 := by
  refine ⟨?_, ?_⟩
  · rw [Flow.append_maxBuffer, holds.limit]
  · intro direction
    rw [Flow.append_buffer, stream_snoc, holds.buffer, holds.limit]
    split
    · exact keepTail_append maxBuffer _ _
    · rw [List.append_nil]

theorem sameBuffer_refl (direction : String) : sameBuffer direction direction = true := beq_self_eq_true _

theorem Holds.feed {f : Flow} (holds : Holds maxBuffer segments f) (d : PayloadDetector)
    (s : Segment) : (d.feed f s).2 = d.inspect (keepTail maxBuffer (stream s.1 (segments ++ [s]))) := by
  have buffer := (holds.append s).buffer s.1
  rw [Flow.append_buffer, if_pos (sameBuffer_refl s.1)] at buffer
  rw [← buffer]
  rfl

theorem Holds.feeds (d : PayloadDetector) {f : Flow} (holds : Holds maxBuffer segments f)
    (rest : List Segment) {s : Segment} {found : List (Int × Int)} : (s, found) ∈ (d.feeds f rest).2 ↔
      ∃ front back, rest = front ++ s :: back ∧ found = d.inspect (keepTail maxBuffer (stream s.1 (segments ++ front ++ [s]))) := by
  induction rest generalizing segments f with
  | nil => simp [PayloadDetector.feeds]
  | cons t rest ih =>
    have next : Holds maxBuffer (segments ++ [t]) (d.feed f t).1 := holds.append t
    have parts : (d.feeds f (t :: rest)).2 = (t, (d.feed f t).2) :: (d.feeds (d.feed f t).1 rest).2 := rfl
    rw [parts, List.mem_cons, ih next]
    constructor
    · intro either
      rcases either with here | ⟨front, back, rfl, found⟩
      · obtain ⟨rfl, rfl⟩ := Prod.mk.inj here
        exact ⟨[], rest, rfl, by rw [List.append_nil, holds.feed]⟩
      · exact ⟨t :: front, back, rfl, by rw [found, List.append_assoc segments [t], List.singleton_append]⟩
    · intro split
      obtain ⟨front, back, whole, rfl⟩ := split
      cases front with
      | nil =>
        obtain ⟨rfl, rfl⟩ := List.cons.inj whole
        left
        rw [List.append_nil, holds.feed]
      | cons u front =>
        obtain ⟨rfl, rfl⟩ := List.cons.inj whole
        right
        exact ⟨front, back, rfl, by rw [List.append_assoc segments [t], List.singleton_append]⟩

def ContentSignature.OccursIn (s : ContentSignature) (data : List UInt8) : Prop := ∃ at', s.Occurs data at'

theorem fold_append (s : ContentSignature) (a b : List UInt8) : s.fold (a ++ b) = s.fold a ++ s.fold b := by
  unfold ContentSignature.fold lower
  split
  · exact List.map_append
  · rfl

theorem occursIn_iff (s : ContentSignature) (data : List UInt8) : s.OccursIn data ↔ s.fold s.pattern <:+: s.fold data := by
  unfold ContentSignature.OccursIn ContentSignature.Occurs
  rw [List.infix_iff_prefix_suffix]
  constructor
  · intro occurs
    obtain ⟨at', here⟩ := occurs
    exact ⟨_, here, List.drop_suffix at' _⟩
  · intro inside
    obtain ⟨t, here, suffix⟩ := inside
    exact ⟨(s.fold data).length - t.length, by rwa [← List.suffix_iff_eq_drop.mp suffix]⟩

theorem occursIn_mono (s : ContentSignature) {part whole : List UInt8} (inside : part <:+: whole) (occurs : s.OccursIn part) :
    s.OccursIn whole := by
  rw [occursIn_iff] at occurs ⊢
  obtain ⟨front, back, rfl⟩ := inside
  rw [fold_append, fold_append]
  exact occurs.trans (List.infix_append _ _ _)

theorem occursIn_append (s : ContentSignature) {seen data : List UInt8}
    (fits : (s.pattern.length : Int) + data.length ≤ maxBuffer + 1) (occurs : s.OccursIn (seen ++ data)) :
    s.OccursIn seen ∨ s.OccursIn (keepTail maxBuffer (seen ++ data)) := by
  obtain ⟨at', rest, whole⟩ := occurs
  have length := congrArg List.length whole
  rw [List.length_append, List.length_drop, fold_length, fold_length, List.length_append] at length
  by_cases early : at' + s.pattern.length ≤ seen.length
  · left
    refine ⟨at', ?_⟩
    rw [ContentSignature.Occurs]
    have here : s.fold s.pattern <+: (s.fold seen ++ s.fold data).drop at' := by
      rw [← fold_append]
      exact ⟨rest, whole⟩
    rw [List.drop_append_of_le_length (by rw [fold_length]; omega)] at here
    refine List.prefix_of_prefix_length_le here (List.prefix_append _ _) ?_
    rw [List.length_drop, fold_length, fold_length]
    omega
  · right
    have place : ∀ k, (s.fold (seen ++ data)).drop k = s.fold ((seen ++ data).drop k) := by
      intro k
      unfold ContentSignature.fold lower
      split
      · exact (List.map_drop).symm
      · rfl
    rw [keepTail_drop, List.length_append]
    refine ⟨at' - (((seen.length + data.length : Nat) : Int) - maxBuffer).toNat, ?_⟩
    rw [ContentSignature.Occurs, ← place, List.drop_drop]
    refine ⟨rest, ?_⟩
    rw [whole]
    congr 1
    omega

variable {d : PayloadDetector} {s : ContentSignature}

theorem inWindow_bounds {at' n : Int} : s.inWindow at' n = true ↔ (s.regionWindow n).1 ≤ at' ∧ at' < (s.regionWindow n).2 := by
  unfold ContentSignature.inWindow
  rw [Bool.and_eq_true, decide_eq_true_eq, decide_eq_true_eq]

theorem inspect_nonneg {payload : List UInt8} {x : Int × Int} (reported : x ∈ d.inspect payload) : 0 ≤ x.2 := by
  have each : ∀ (ac : Option (Automaton UInt8 Int)) (data : List UInt8), x ∈ d.scan ac data → 0 ≤ x.2 := by
    intro ac data found
    cases ac with
    | none => cases found
    | some ac =>
      obtain ⟨hit, -, taken⟩ := List.mem_filterMap.mp found
      unfold PayloadDetector.report at taken
      cases known : d.sigs.lookup hit.2 with
      | none =>
        rw [known] at taken
        cases taken
      | some s =>
        simp only [known, Option.ite_none_right_eq_some, Option.some.injEq] at taken
        obtain ⟨inside, rfl⟩ := taken
        exact (max_le_iff.mp (inWindow_bounds.mp inside).1).1
  unfold PayloadDetector.inspect at reported
  split at reported
  · cases reported
  · rcases List.mem_append.mp reported with left | right
    · exact each _ _ left
    · exact each _ _ right

theorem inspect_occursIn (installed : d.sigs.lookup s.sid = some s) (enabled : s.enabled = true) (literal : s.isPcre = false)
    (nonempty : s.pattern ≠ []) (offset : s.offset ≤ 0) (depth : s.depth ≤ 0) (payload : List UInt8) :
    s.sid ∈ (d.inspect payload).map Prod.fst ↔ s.OccursIn payload := by
  have exact' : ∀ at' : Nat, (s.sid, (at' : Int)) ∈ d.inspect payload ↔ s.Occurs payload at' ∧ s.inWindow at' payload.length = true :=
    fun _ => mem_inspect installed enabled literal nonempty
  rw [List.mem_map]
  constructor
  · intro reported
    obtain ⟨⟨sid, x⟩, member, rfl⟩ := reported
    obtain ⟨at', rfl⟩ := Int.eq_ofNat_of_zero_le (inspect_nonneg member)
    exact ⟨at', ((exact' at').mp member).1⟩
  · intro occurs
    obtain ⟨at', here⟩ := occurs
    have inside : s.inWindow at' payload.length = true := by
      obtain ⟨rest, whole⟩ := here
      have length := congrArg List.length whole
      rw [List.length_append, List.length_drop, fold_length, fold_length] at length
      have positive := List.length_pos_of_ne_nil nonempty
      rw [inWindow_bounds, ContentSignature.regionWindow, if_neg (by omega), if_neg (by omega)]
      omega
    exact ⟨(s.sid, at'), (exact' at').mpr ⟨here, inside⟩, rfl⟩

/-- However a stream is cut into segments, a signature that fits into the buffer beside a
segment is reported exactly when it occurs in the stream. -/
theorem segmentation_independent (installed : d.sigs.lookup s.sid = some s) (enabled : s.enabled = true) (literal : s.isPcre = false)
    (nonempty : s.pattern ≠ []) (offset : s.offset ≤ 0) (depth : s.depth ≤ 0) {maxBuffer : Int} {longest : Nat}
    (fits : (s.pattern.length : Int) + longest ≤ maxBuffer + 1) (direction : String) (segments : List Segment)
    (short : ∀ t ∈ segments, sameBuffer direction t.1 = true → t.2.length ≤ longest) :
    (∃ call ∈ (d.feeds { maxBuffer := maxBuffer } segments).2, sameBuffer direction call.1.1 = true ∧ s.sid ∈ call.2.map Prod.fst) ↔
      s.OccursIn (stream direction segments) := by
  have report := inspect_occursIn installed enabled literal nonempty offset depth
  have calls : ∀ {t : Segment} {found : List (Int × Int)}, (t, found) ∈ (d.feeds { maxBuffer := maxBuffer } segments).2 ↔ _ :=
    (Holds.start maxBuffer).feeds d segments
  have same : ∀ {t : Segment}, sameBuffer direction t.1 = true → ∀ l, stream t.1 l = stream direction l := by
    intro t here l
    unfold stream sameBuffer at *
    rw [eq_of_beq here]
  constructor
  · intro reported
    obtain ⟨⟨t, found⟩, member, here, sid⟩ := reported
    obtain ⟨front, back, rfl, rfl⟩ := calls.mp member
    have occurs := occursIn_mono s (keepTail_suffix _ _).isInfix ((report _).mp sid)
    rw [List.nil_append, same here] at occurs
    rw [List.append_cons front t back, stream_append]
    exact occursIn_mono s (List.prefix_append _ _).isInfix occurs
  · -- by induction on the prefixes of the run: an occurrence is already in the shorter one or in the buffer
    intro occurs
    have reached : ∀ done, done <+: segments → s.OccursIn (stream direction done) →
        ∃ front t back, segments = front ++ t :: back ∧ sameBuffer direction t.1 = true ∧
          s.OccursIn (keepTail maxBuffer (stream direction (front ++ [t]))) := by
      intro done
      induction done using List.reverseRecOn with
      | nil =>
        intro _ empty
        obtain ⟨front, back, whole⟩ := (occursIn_iff s _).mp empty
        have length := congrArg List.length whole
        have positive := List.length_pos_of_ne_nil nonempty
        rw [List.length_append, List.length_append, fold_length, fold_length] at length
        simp only [stream, List.filter_nil, List.flatMap_nil, List.length_nil] at length
        omega
      | append_singleton done t ih =>
        intro inside occurs
        obtain ⟨back, whole⟩ := inside
        have before : done <+: segments := ⟨t :: back, by rw [← whole, List.append_assoc, List.singleton_append]⟩
        by_cases here : sameBuffer direction t.1 = true
        · have member : t ∈ segments := by
            rw [← whole]
            simp
          have room : (s.pattern.length : Int) + t.2.length ≤ maxBuffer + 1 := by
            have small := short t member here
            omega
          have parts := stream_snoc direction done t
          rw [if_pos here] at parts
          rw [parts] at occurs
          rcases occursIn_append s room occurs with earlier | kept
          · exact ih before earlier
          · exact ⟨done, t, back, by rw [← whole, List.append_assoc, List.singleton_append], here, by rwa [parts]⟩
        · rw [stream_snoc, if_neg here, List.append_nil] at occurs
          exact ih before occurs
    obtain ⟨front, t, back, whole, here, kept⟩ := reached segments List.prefix_rfl occurs
    refine ⟨(t, _), calls.mpr ⟨front, back, whole, rfl⟩, here, (report _).mpr ?_⟩
    rwa [List.nil_append, same here]

def PayloadDetector.single (s : ContentSignature) : PayloadDetector where
  sigs := Dict.assign ∅ s.sid s
  keyed := by
    intro sid s' found
    rw [Dict.lookup_assign] at found
    split at found
    · rename_i same
      obtain rfl := Option.some.inj found
      exact same.symm
    · simp at found

def straddling : ContentSignature := { sid := 7, pattern := [0x41, 0x42] }

/-- `AB` over two segments, with a segment of the other direction between them. -/
def straddledSegments : List Segment := [("c2s", [0x58, 0x59, 0x41]), ("s2c", [0x42]), ("c2s", [0x42, 0x43])]

theorem straddling_reported : ∃ call ∈ ((PayloadDetector.single straddling).feeds { maxBuffer := 4 } straddledSegments).2,
    sameBuffer "c2s" call.1.1 = true ∧ straddling.sid ∈ call.2.map Prod.fst := by
  have whole : straddling.OccursIn (stream "c2s" straddledSegments) := ⟨2, by decide⟩
  have fits : (straddling.pattern.length : Int) + (3 : Nat) ≤ 4 + 1 := by decide
  refine (segmentation_independent (d := .single straddling) (by decide) rfl rfl (by decide) (by decide) (by decide) fits
    "c2s" straddledSegments ?_).mpr whole
  decide

end FfnNgfw.Detect
