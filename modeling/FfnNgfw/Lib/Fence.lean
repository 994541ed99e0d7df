import FfnNgfw.Lib.Threads

/-!
# A file behind a revision

Writers read the file, compare its revision with the one their request names, write what they have
made of the request to a temporary file, and rename that to the file, each in steps of its own.
Nothing keeps another writer out between the steps. A temporary file is opened by its name; it is
written, whatever has become of the name, and it may be the file itself by then.
-/

namespace FfnNgfw

/-- How a value is written, write by write, and what is read of a file after some writes since it was empty. -/
structure Codec (Stored Piece : Type) where
  pieces : Stored → List Piece
  parse : List Piece → Option Stored
  whole : ∀ v, parse (pieces v) = some v

/-- What the writers of a file do; what they write carries on from the revision they compared. -/
structure Fence (Stored Piece Intent Request : Type) extends Codec Stored Piece where
  read : Option Stored → Intent
  revision : Intent → Int
  named : Request → Option Int
  admits : Request → Bool
  prepare : Intent → Request → Except String Stored
  compared : ∀ seen request next, prepare seen request = .ok next → named request = some (revision seen)
  counted : ∀ seen request next, prepare seen request = .ok next → revision (read (some next)) = revision seen + 1
  /-- the name of a writer's temporary file -/
  temporary : Nat → Nat

namespace Fence

open Threads (Config Act Machine)

variable {Stored Piece Intent Request : Type}

inductive Op (Stored Piece Intent Request : Type) where
  | read (request : Request)
  | compare (seen : Intent) (request : Request)
  | openTemp (request : Request) (next : Stored)
  | write (inode : Nat) (request : Request) (next : Stored) (left : List Piece)
  | replace (request : Request) (next : Stored)

/-- The file and the temporary files by their names, what was written to each since it was empty, and the requests of the writers
that got past their replacement, the newest first. -/
structure Disk (Piece Request : Type) where
  file : Option Nat
  temps : Nat → Option Nat
  contents : Nat → List Piece
  inodes : Nat
  written : List Request

variable (F : Fence Stored Piece Intent Request)

def opened (name : Nat) (s : Disk Piece Request) : Nat × Disk Piece Request :=
  match s.temps name with
  | some i => (i, { s with contents := Function.update s.contents i [] })
  | none =>
    (s.inodes, { s with temps := Function.update s.temps name (some s.inodes),
                         contents := Function.update s.contents s.inodes [], inodes := s.inodes + 1 })

def seen (s : Disk Piece Request) : Intent := F.read (s.file.bind fun i => F.parse (s.contents i))

def current (s : Disk Piece Request) : Int := F.revision (F.seen s)

/-- A writer takes up a request; where it raises it has nothing left to do. -/
def machine : Machine (Disk Piece Request) (Op Stored Piece Intent Request) where
  takes _ op :=
    match op with
    | .read _ => true
    | _ => false
  exec t op s :=
    match op with
    | .read request => some (s, if F.admits request then [.compare (F.seen s) request] else [])
    | .compare seen request =>
      match F.prepare seen request with
      | .ok next => some (s, [.openTemp request next])
      | .error _ => some (s, [])
    | .openTemp request next =>
      let at' := opened (F.temporary t) s
      some (at'.2, [.write at'.1 request next (F.pieces next)])
    | .write i request next (p :: left) =>
      some ({ s with contents := Function.update s.contents i (s.contents i ++ [p]) }, [.write i request next left])
    | .write _ request next [] => some (s, [.replace request next])
    | .replace request _ =>
      match s.temps (F.temporary t) with
      | some i => some ({ s with file := some i, temps := Function.update s.temps (F.temporary t) none,
                                  written := request :: s.written }, [])
      | none => some (s, [])

def carriedOut (c : Config (Disk Piece Request) (Op Stored Piece Intent Request)) : Act (Op Stored Piece Intent Request) →
    Option (Op Stored Piece Intent Request)
  | .start _ _ => none
  | .run t => (c.todo t).head?

def held (s : Disk Piece Request) : Option (List Piece) := s.file.map s.contents

/-- A writer that renames its temporary file finds there what it has written, and the file at the revision that its request names; one
that writes does not write to what has become the file. -/
def Meets (c : Config (Disk Piece Request) (Op Stored Piece Intent Request)) : Act (Op Stored Piece Intent Request) → Prop
  | .start _ _ => True
  | .run t =>
    match (c.todo t).head? with
    | some (.replace request next) =>
      ∀ i, c.shared.temps (F.temporary t) = some i → F.named request = some (F.current c.shared) ∧ c.shared.contents i = F.pieces next
    | some (.write i _ _ (_ :: _)) => c.shared.file ≠ some i
    | _ => True

/-- What a writer puts in the place of something that was written was not made from the revision before it. -/
def Builds (c : Config (Disk Piece Request) (Op Stored Piece Intent Request)) (a : Act (Op Stored Piece Intent Request)) : Prop :=
  ∀ c' request, F.machine.step c a = some c' → c'.shared.written = request :: c.shared.written → c.shared.written ≠ [] →
    F.named request ≠ some (F.current c.shared - 1)

/-- A writer that does not get past its replacement leaves the file as it is. -/
def Spares (c : Config (Disk Piece Request) (Op Stored Piece Intent Request)) (a : Act (Op Stored Piece Intent Request)) : Prop :=
  ∀ c', F.machine.step c a = some c' → c'.shared.written = c.shared.written → held c'.shared = held c.shared

/-- A writer that gets past its replacement leaves in the file what it has made of its request. -/
def Holds (c : Config (Disk Piece Request) (Op Stored Piece Intent Request)) (a : Act (Op Stored Piece Intent Request)) : Prop :=
  ∀ c' request next, F.machine.step c a = some c' → carriedOut c a = some (.replace request next) →
    c'.shared.written = request :: c.shared.written → held c'.shared = some (F.pieces next)

structure Sound (s : Disk Piece Request) : Prop where
  file : ∀ i, s.file = some i → i < s.inodes
  temps : ∀ name i, s.temps name = some i → i < s.inodes ∧ s.file ≠ some i
  apart : ∀ name name' i, s.temps name = some i → s.temps name' = some i → name = name'

structure Fresh (c : Config (Disk Piece Request) (Op Stored Piece Intent Request)) : Prop where
  quiet : Machine.Quiet c
  written : c.shared.written = []
  sound : Sound c.shared

section steps

variable {F}
variable {c c' : Config (Disk Piece Request) (Op Stored Piece Intent Request)} {a : Act (Op Stored Piece Intent Request)}
variable {s s' : Disk Piece Request}

theorem seen_eq (s : Disk Piece Request) : F.seen s = F.read ((held s).bind F.parse) := by
  rw [seen, held]
  cases s.file <;> rfl

theorem current_congr (same : held s' = held s) : F.current s' = F.current s := by rw [current, current, seen_eq, seen_eq, same]

theorem held_opened (sound : Sound s) (name : Nat) : held (opened name s).2 = held s := by
  unfold opened held
  cases here : s.file with
  | none => split <;> rfl
  | some i =>
    split
    · rename_i j found
      have other : i ≠ j := by
        rintro rfl
        exact (sound.temps name i found).2 here
      exact congrArg some (Function.update_of_ne other _ _)
    · have other : i ≠ s.inodes := Nat.ne_of_lt (sound.file i here)
      exact congrArg some (Function.update_of_ne other _ _)

theorem Sound.opened (sound : Sound s) (name : Nat) : Sound (opened name s).2 := by
  unfold Fence.opened
  split
  · exact ⟨sound.file, sound.temps, sound.apart⟩
  · rename_i none'
    have old : ∀ n i, Function.update s.temps name (some s.inodes) n = some i → (n = name ∧ i = s.inodes) ∨
        (n ≠ name ∧ s.temps n = some i) := by
      intro n i found
      by_cases same : n = name
      · subst same
        rw [Function.update_self] at found
        exact .inl ⟨rfl, (Option.some.inj found).symm⟩
      · rw [Function.update_of_ne same] at found
        exact .inr ⟨same, found⟩
    refine ⟨fun i here => Nat.lt_succ_of_lt (sound.file i here), fun n i found => ?_, fun n n' i found found' => ?_⟩
    · rcases old n i found with ⟨-, same⟩ | ⟨-, before⟩
      · subst same
        exact ⟨Nat.lt_succ_self _, fun here => Nat.lt_irrefl _ (sound.file _ here)⟩
      · exact ⟨Nat.lt_succ_of_lt (sound.temps n i before).1, (sound.temps n i before).2⟩
    · have new : ∀ {n}, s.temps n = some i → i ≠ s.inodes := fun before => Nat.ne_of_lt (sound.temps _ i before).1
      rcases old n i found with ⟨here, same⟩ | ⟨-, before⟩
      · rcases old n' i found' with ⟨here', -⟩ | ⟨-, before'⟩
        · exact here.trans here'.symm
        · exact absurd same (new before')
      · rcases old n' i found' with ⟨-, same⟩ | ⟨-, before'⟩
        · exact absurd same (new before)
        · exact sound.apart n n' i before before'

theorem Sound.renamed (sound : Sound s) {name i : Nat} (found : s.temps name = some i) (written : List Request) :
    Sound { s with file := some i, temps := Function.update s.temps name none, written := written } := by
  have old : ∀ n j, Function.update s.temps name none n = some j → n ≠ name ∧ s.temps n = some j := by
    intro n j there
    by_cases same : n = name
    · subst same
      rw [Function.update_self] at there
      cases there
    · rw [Function.update_of_ne same] at there
      exact ⟨same, there⟩
  refine ⟨fun j here => Option.some.inj here ▸ (sound.temps name i found).1, fun n j there => ?_, fun n n' j there there' => ?_⟩
  · obtain ⟨other, before⟩ := old n j there
    exact ⟨(sound.temps n j before).1, fun here => other (sound.apart n name j before (Option.some.inj here ▸ found))⟩
  · exact sound.apart n n' j (old n j there).2 (old n' j there').2

inductive Does (F : Fence Stored Piece Intent Request) (t : Nat) (s : Disk Piece Request) :
    Op Stored Piece Intent Request → Disk Piece Request → List (Op Stored Piece Intent Request) → Prop where
  | reads {request more} (called : more = [] ∨ more = [.compare (F.seen s) request]) : Does F t s (.read request) s more
  | raises {seen request} : Does F t s (.compare seen request) s []
  | prepares {seen request next} (prepared : F.prepare seen request = .ok next) :
      Does F t s (.compare seen request) s [.openTemp request next]
  | opens {request next} :
    Does F t s (.openTemp request next) (opened (F.temporary t) s).2 [.write (opened (F.temporary t) s).1 request next (F.pieces next)]
  | writes {i request next p left} : Does F t s (.write i request next (p :: left))
      { s with contents := Function.update s.contents i (s.contents i ++ [p]) } [.write i request next left]
  | closes {i request next} : Does F t s (.write i request next []) s [.replace request next]
  | renames {i request next} (found : s.temps (F.temporary t) = some i) : Does F t s (.replace request next)
      { s with file := some i, temps := Function.update s.temps (F.temporary t) none, written := request :: s.written } []
  | misses {request next} (missing : s.temps (F.temporary t) = none) : Does F t s (.replace request next) s []

variable {more : List (Op Stored Piece Intent Request)} {op : Op Stored Piece Intent Request}
variable {acts : List (Act (Op Stored Piece Intent Request))}

theorem exec_does {t : Nat} (h : F.machine.exec t op s = some (s', more)) : Does F t s op s' more := by
  cases op with
  | read request =>
    obtain ⟨rfl, rfl⟩ := Prod.mk.inj (Option.some.inj h)
    refine .reads ?_
    split
    · exact .inr rfl
    · exact .inl rfl
  | compare seen request =>
    dsimp only [machine] at h
    split at h
    · rename_i next prepared
      obtain ⟨rfl, rfl⟩ := Prod.mk.inj (Option.some.inj h)
      exact .prepares prepared
    · obtain ⟨rfl, rfl⟩ := Prod.mk.inj (Option.some.inj h)
      exact .raises
  | openTemp request next =>
    obtain ⟨rfl, rfl⟩ := Prod.mk.inj (Option.some.inj h)
    exact .opens
  | write i request next left =>
    cases left with
    | nil =>
      obtain ⟨rfl, rfl⟩ := Prod.mk.inj (Option.some.inj h)
      exact .closes
    | cons p left =>
      obtain ⟨rfl, rfl⟩ := Prod.mk.inj (Option.some.inj h)
      exact .writes
  | replace request next =>
    dsimp only [machine] at h
    split at h
    · rename_i i found
      obtain ⟨rfl, rfl⟩ := Prod.mk.inj (Option.some.inj h)
      exact .renames found
    · rename_i missing
      obtain ⟨rfl, rfl⟩ := Prod.mk.inj (Option.some.inj h)
      exact .misses missing

theorem Sound.does {t : Nat} (sound : Sound s) (does : Does F t s op s' more) : Sound s' := by
  cases does with
  | opens => exact sound.opened _
  | writes => exact ⟨sound.file, sound.temps, sound.apart⟩
  | renames found => exact sound.renamed found _
  | reads | raises | prepares | closes | misses => exact sound

theorem step_sound (sound : Sound c.shared) (h : F.machine.step c a = some c') : Sound c'.shared := by
  cases a with
  | start t job =>
    obtain ⟨-, -, rfl⟩ := Machine.step_start h
    exact sound
  | run t =>
    obtain ⟨op, rest, s, more, here, done, rfl⟩ := Machine.step_run h
    exact sound.does (exec_does done)

theorem step_shared (sound : Sound c.shared) (h : F.machine.step c a = some c') :
    (∃ t request next i, a = .run t ∧ carriedOut c a = some (.replace request next) ∧ c.shared.temps (F.temporary t) = some i ∧
        c'.shared.written = request :: c.shared.written ∧ held c'.shared = some (c.shared.contents i)) ∨
      (c'.shared.written = c.shared.written ∧ (held c'.shared = held c.shared ∨
        ∃ t i request next p left, a = .run t ∧ (c.todo t).head? = some (.write i request next (p :: left)) ∧ c.shared.file = some i ∧
          held c'.shared = some (c.shared.contents i ++ [p]))) := by
  cases a with
  | start t job =>
    obtain ⟨-, -, rfl⟩ := Machine.step_start h
    exact .inr ⟨rfl, .inl rfl⟩
  | run t =>
    obtain ⟨op, rest, s, more, here, done, rfl⟩ := Machine.step_run h
    have carried : (c.todo t).head? = some op := by rw [here, List.head?_cons]
    cases exec_does done with
    | renames found => exact .inl ⟨t, _, _, _, rfl, carried, found, rfl, rfl⟩
    | opens =>
      refine .inr ⟨?_, .inl (held_opened sound _)⟩
      unfold opened
      split <;> rfl
    | writes =>
      rename_i i request next p left
      refine .inr ⟨rfl, ?_⟩
      by_cases file : c.shared.file = some i
      · refine .inr ⟨t, i, request, next, p, left, rfl, carried, file, ?_⟩
        show c.shared.file.map _ = _
        rw [file]
        exact congrArg some (Function.update_self ..)
      · left
        show c.shared.file.map _ = c.shared.file.map _
        cases other : c.shared.file with
        | none => rfl
        | some j =>
          have apart : j ≠ i := by
            rintro rfl
            exact file other
          exact congrArg some (Function.update_of_ne apart _ _)
    | reads | raises | prepares | closes | misses => exact .inr ⟨rfl, .inl rfl⟩

/-- Where the condition holds, a step gets past its replacement with its own, or leaves the file as it is. -/
theorem step_meets (sound : Sound c.shared) (meets : Meets F c a) (h : F.machine.step c a = some c') :
    (∃ request next, carriedOut c a = some (.replace request next) ∧ c'.shared.written = request :: c.shared.written ∧
        F.named request = some (F.current c.shared) ∧ held c'.shared = some (F.pieces next)) ∨
      (c'.shared.written = c.shared.written ∧ held c'.shared = held c.shared) := by
  rcases step_shared sound h with ⟨t, request, next, i, rfl, carried, found, written, now⟩ | ⟨written, same | wrote⟩
  · have head : (c.todo t).head? = some (.replace request next) := carried
    rw [Meets, head] at meets
    obtain ⟨named, own⟩ := meets i found
    exact .inl ⟨request, next, carried, written, named, by rw [now, own]⟩
  · exact .inr ⟨written, same⟩
  · obtain ⟨t, i, request, next, p, left, rfl, head, file, -⟩ := wrote
    rw [Meets, head] at meets
    exact absurd file meets

/-- What was made of a request carries on from the revision it names, and that is still there, or was written on. -/
def Made (s : Disk Piece Request) (request : Request) (next : Stored) : Prop :=
  ∃ v, F.named request = some v ∧ F.revision (F.read (some next)) = v + 1 ∧ (v = F.current s ∨ some v ∈ s.written.map F.named)

def Standing (s : Disk Piece Request) : Op Stored Piece Intent Request → Prop
  | .read _ => True
  | .compare seen _ => F.revision seen = F.current s ∨ some (F.revision seen) ∈ s.written.map F.named
  | .openTemp request next => Made (F := F) s request next
  | .write _ request next _ => Made (F := F) s request next
  | .replace request next => Made (F := F) s request next

theorem Standing.mono (standing : Standing (F := F) s op)
    (kept : ∀ v, v = F.current s ∨ some v ∈ s.written.map F.named → v = F.current s' ∨ some v ∈ s'.written.map F.named) :
    Standing (F := F) s' op := by
  cases op with
  | read _ => trivial
  | compare seen _ => exact kept _ standing
  | openTemp | write | replace =>
    obtain ⟨v, names, counts, now⟩ := standing
    exact ⟨v, names, counts, kept v now⟩

def Settled (c : Config (Disk Piece Request) (Op Stored Piece Intent Request)) : Prop := ∀ t, ∀ op ∈ c.todo t,
    Standing (F := F) c.shared op

theorem Does.standing {t : Nat} (does : Does F t s op s' more)
    (stands : Standing (F := F) s op) : ∀ o ∈ more, Standing (F := F) s o := by
  intro o member
  cases does with
  | reads called =>
    rcases called with rfl | rfl
    · cases member
    · obtain rfl := List.mem_singleton.mp member
      exact .inl rfl
  | prepares prepared =>
    obtain rfl := List.mem_singleton.mp member
    exact ⟨_, F.compared _ _ _ prepared, F.counted _ _ _ prepared, stands⟩
  | opens | writes | closes =>
    obtain rfl := List.mem_singleton.mp member
    exact stands
  | raises | renames | misses => cases member

theorem step_settled (sound : Sound c.shared) (settled : Settled (F := F) c) (meets : Meets F c a) (h : F.machine.step c a = some c') :
    Settled (F := F) c' := by
  have kept : ∀ v, v = F.current c.shared ∨ some v ∈ c.shared.written.map F.named → v = F.current c'.shared ∨
      some v ∈ c'.shared.written.map F.named := by
    intro v now
    rcases step_meets sound meets h with ⟨request, next, -, written, named, -⟩ | ⟨written, same⟩
    · right
      rw [written, List.map_cons, named, List.mem_cons]
      exact now.imp_left (congrArg some)
    · rw [current_congr same, written]
      exact now
  intro t' op member
  cases a with
  | start t job =>
    obtain ⟨-, taken, rfl⟩ := Machine.step_start h
    by_cases same : t' = t
    · subst same
      dsimp only at member
      rw [Function.update_self] at member
      obtain rfl := List.mem_singleton.mp member
      cases op with
      | read _ => trivial
      | compare | openTemp | write | replace => cases taken
    · dsimp only at member
      rw [Function.update_of_ne same] at member
      exact (settled t' op member).mono kept
  | run t =>
    obtain ⟨first, rest, s, more, here, done, rfl⟩ := Machine.step_run h
    have stands := settled t first (Machine.head_mem here)
    rcases Machine.mem_after here member with ⟨old, -⟩ | ⟨-, new⟩
    · exact (settled t' op old).mono kept
    · exact ((exec_does done).standing stands op new).mono kept

theorem Fresh.settled (fresh : Fresh c) : Settled (F := F) c := by
  intro t op member
  rw [fresh.quiet t] at member
  cases member

/-! ### Runs -/

/-- The writes form a chain: no two requests that got past their replacement name one revision, none was made from the revision before
the one it replaces, each leaves in the file what was made of it, and nothing else changes the file. -/
def Chained (F : Fence Stored Piece Intent Request) (c c' : Config (Disk Piece Request) (Op Stored Piece Intent Request))
    (acts : List (Act (Op Stored Piece Intent Request))) : Prop :=
  (c'.shared.written.map F.named).Nodup ∧ F.machine.Along (Builds F) c acts ∧ F.machine.Along (Spares F) c acts ∧
    F.machine.Along (Holds F) c acts

theorem run_written (sound : Sound c.shared) (h : F.machine.run c acts = some c') :
    c.shared.written.Sublist c'.shared.written := by
  induction acts generalizing c with
  | nil =>
    cases h
    exact List.Sublist.refl _
  | cons a rest ih =>
    obtain ⟨next, first, later⟩ := Option.bind_eq_some_iff.mp h
    apply List.Sublist.trans _ (ih (step_sound sound first) later)
    rcases step_shared sound first with ⟨t, request, content, i, -, -, -, written, -⟩ | ⟨written, -⟩
    · rw [written]
      exact List.sublist_cons_self _ _
    · exact written ▸ List.Sublist.refl _

theorem meets_of_chained (sound : Sound c.shared) (settled : Settled (F := F) c) (h : F.machine.step c a = some c')
    (spares : Spares F c a)
    (holds : Holds F c a) (distinct : (c'.shared.written.map F.named).Nodup) : Meets F c a := by
  rcases step_shared sound h with ⟨t, request, next, i, rfl, carried, found, written, now⟩ | ⟨written, rest⟩
  · have head : (c.todo t).head? = some (.replace request next) := carried
    rw [Meets, head]
    intro j there
    obtain rfl := Option.some.inj (found.symm.trans there)
    have own : c.shared.contents i = F.pieces next := Option.some.inj (now.symm.trans (holds c' request next h carried written))
    obtain ⟨v, named, -, before⟩ := settled t _ (List.mem_of_mem_head? head)
    refine ⟨?_, own⟩
    rcases before with rfl | before
    · exact named
    · rw [written, List.map_cons, named] at distinct
      exact absurd before (List.nodup_cons.mp distinct).1
  · cases a with
    | start => trivial
    | run t =>
      rw [Meets]
      split
      · rename_i request next head
        obtain ⟨op, rest, s, more, here, done, rfl⟩ := Machine.step_run h
        obtain rfl : op = .replace request next := by
          rw [here, List.head?_cons] at head
          exact Option.some.inj head
        intro i found
        cases exec_does done with
        | renames => exact absurd (congrArg List.length written) (by simp)
        | misses missing => cases missing.symm.trans found
      · rename_i i request next p left head
        intro file
        rcases rest with same | ⟨t', i', request', next', p', left', acted, head', file', now⟩
        · obtain ⟨op, rest, s, more, here, done, rfl⟩ := Machine.step_run h
          obtain rfl : op = .write i request next (p :: left) := by
            rw [here, List.head?_cons] at head
            exact Option.some.inj head
          cases exec_does done with
          | writes =>
            have longer : (c.shared.file.map (Function.update c.shared.contents i (c.shared.contents i ++ [p]))) =
                c.shared.file.map c.shared.contents := same
            rw [file, Option.map_some, Option.map_some, Function.update_self] at longer
            exact absurd (congrArg List.length (Option.some.inj longer)) (by simp)
        · have longer := spares c' h written
          rw [now, held, file', Option.map_some] at longer
          exact absurd (congrArg List.length (Option.some.inj longer)) (by simp)
      · trivial

theorem run_meets (sound : Sound c.shared) (settled : Settled (F := F) c)
    (h : F.machine.run c acts = some c') (chained : Chained F c c' acts) : F.machine.Along (Meets F) c acts := by
  induction acts generalizing c with
  | nil => trivial
  | cons a rest ih =>
    obtain ⟨next, first, later⟩ := Option.bind_eq_some_iff.mp h
    obtain ⟨distinct, ⟨-, builds⟩, ⟨spares, spared⟩, holds, held⟩ := chained
    rw [first] at builds spared held
    have sound' := step_sound sound first
    have meets := meets_of_chained sound settled first spares holds (distinct.sublist ((run_written sound' later).map F.named))
    refine ⟨meets, ?_⟩
    rw [first]
    exact ih sound' (step_settled sound settled meets first) later ⟨distinct, builds, spared, held⟩

structure Counted (c : Config (Disk Piece Request) (Op Stored Piece Intent Request)) : Prop where
  sound : Sound c.shared
  settled : Settled (F := F) c
  distinct : (c.shared.written.map F.named).Nodup
  behind : ∀ v, some v ∈ c.shared.written.map F.named → v < F.current c.shared

theorem step_counted (counted : Counted (F := F) c) (meets : Meets F c a) (h : F.machine.step c a = some c') : Counted (F := F) c' := by
  have sound := step_sound counted.sound h
  have settled := step_settled counted.sound counted.settled meets h
  rcases step_meets counted.sound meets h with ⟨request, next, carried, written, named, now⟩ | ⟨written, same⟩
  · cases a with
    | start => cases carried
    | run t =>
      obtain ⟨v, named', counts, -⟩ := counted.settled t _ (List.mem_of_mem_head? carried)
      obtain rfl : v = F.current c.shared := Option.some.inj (named'.symm.trans named)
      have revision : F.current c'.shared = F.current c.shared + 1 := by
        rw [current, seen_eq, now, Option.bind_some, F.whole]
        exact counts
      refine ⟨sound, settled, ?_, ?_⟩
      · rw [written, List.map_cons, named]
        exact List.nodup_cons.mpr ⟨fun before => Int.lt_irrefl _ (counted.behind _ before), counted.distinct⟩
      · intro w member
        rw [written, List.map_cons, named] at member
        rcases List.mem_cons.mp member with equal | before
        · have equal := Option.some.inj equal
          omega
        · have := counted.behind w before
          omega
  · refine ⟨sound, settled, written ▸ counted.distinct, ?_⟩
    rw [current_congr same, written]
    exact counted.behind

theorem step_chained (sound : Sound c.shared) (meets : Meets F c a) : Builds F c a ∧ Spares F c a ∧ Holds F c a := by
  have longer : ∀ {request : Request} {l : List Request}, l ≠ request :: l := fun same => absurd (congrArg List.length same) (by simp)
  refine ⟨fun c' request h passed _ => ?_, fun c' h written => ?_, fun c' request next h carried passed => ?_⟩
  · rcases step_meets sound meets h with ⟨request', next, -, written, named, -⟩ | ⟨written, -⟩
    · obtain ⟨rfl, -⟩ := List.cons.inj (passed.symm.trans written)
      intro before
      have := Option.some.inj (named.symm.trans before)
      omega
    · exact absurd (written.symm.trans passed) longer
  · rcases step_meets sound meets h with ⟨request', next, -, passed, -, -⟩ | ⟨-, same⟩
    · exact absurd (written.symm.trans passed) longer
    · exact same
  · rcases step_meets sound meets h with ⟨request', next', carried', -, -, now⟩ | ⟨written, -⟩
    · obtain ⟨-, rfl⟩ := Op.replace.inj (Option.some.inj (carried.symm.trans carried'))
      exact now
    · exact absurd (written.symm.trans passed) longer

theorem run_chained (sound : Sound c.shared) (meets : F.machine.Along (Meets F) c acts) :
    F.machine.Along (Builds F) c acts ∧ F.machine.Along (Spares F) c acts ∧ F.machine.Along (Holds F) c acts := by
  induction acts generalizing c with
  | nil => exact ⟨trivial, trivial, trivial⟩
  | cons a rest ih =>
    obtain ⟨here, later⟩ := meets
    obtain ⟨builds, spares, holds⟩ := step_chained sound here
    simp only [Machine.Along]
    cases first : F.machine.step c a with
    | none => exact ⟨⟨builds, trivial⟩, ⟨spares, trivial⟩, holds, trivial⟩
    | some next =>
      rw [first] at later
      obtain ⟨builds', spares', holds'⟩ := ih (step_sound sound first) later
      exact ⟨⟨builds, builds'⟩, ⟨spares, spares'⟩, holds, holds'⟩

theorem chained_iff (fresh : Fresh c) (h : F.machine.run c acts = some c') :
    Chained F c c' acts ↔ F.machine.Along (Meets F) c acts := by
  constructor
  · exact run_meets fresh.sound fresh.settled h
  · intro meets
    have start : Counted (F := F) c := by
      refine ⟨fresh.sound, fresh.settled, ?_, ?_⟩
      · rw [fresh.written, List.map_nil]
        exact List.nodup_nil
      · rw [fresh.written]
        intro v no
        cases no
    have counted := Machine.run_invariant (fun _ _ _ inv met step => step_counted inv met step) start meets h
    exact ⟨counted.distinct, run_chained fresh.sound meets⟩

end steps

end Fence

end FfnNgfw
