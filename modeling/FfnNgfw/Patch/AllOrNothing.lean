import FfnNgfw.Patch.Manager

/-!
# All or nothing

An installation moves through stages: nothing done, prepared, committed, restoring,
restored. In each of them the backup and the journal hold what it takes to go back, so
wherever a step is the last one, a recovery that gets through ends in a stage that is
whole.
-/

namespace FfnNgfw.Patch
open Proc

section

variable {α : Type} {w : World} {broken : World → Prop}

theorem service_ends {verb : Verb} {unit : Service} {post : Unit → World → Prop} (stopped : broken w) (h : post () w) :
    Ends (service verb unit) post broken w := ends_ask stopped h

theorem services_ends (inv : World → Prop) (verb : Verb) (units : List Service) (stopped : ∀ t, inv t → broken t)
    (h : inv w) : Ends (each (service verb) units) (fun _ => inv) broken w :=
  ends_each (fun _ => inv) (fun _ _ t here => service_ends (stopped t here) here) h

theorem restart_ends (inv : World → Prop) (units : List Service) (stopped : ∀ t, inv t → broken t) (h : inv w) :
    Ends (restart units) (fun _ => inv) broken w := by
  refine ends_bind ((services_ends inv .start units stopped h).weaken (fun _ t here => ?_) fun _ h => h)
  exact ends_each (fun _ => inv) (fun _ _ u => services_ends inv .isActive units stopped) here

end

section

variable {P : Platform}

/-- What `preflight` has found when it passes. -/
structure Checked (P : Platform) (w : World) (archive : Bytes) (release : Release) (package : Package) : Prop where
  unpacked : unpack P archive = .ok package
  other : w.state.installed.map (·.release.sha256) ≠ some release.sha256
  baseline : ∀ e ∈ package.files, (w.files e.path).map (fun f => P.digest f.bytes) = e.before

theorem preflight_ends {archive : Bytes} {release : Release} (w : World) :
    Ends (preflight P archive release) (fun package t => t = w ∧ Checked P w archive release package) (· = w) w := by
  refine ends_bind (ends_require rfl fun _ => ?_)
  cases unpacked : unpack P archive with
  | error why => exact ends_throw rfl
  | ok package =>
    refine ends_bind (ends_require rfl fun _ => ends_bind (ends_ask rfl ?_))
    refine ends_bind (ends_require rfl fun other => ends_bind (ends_require rfl fun _ => ?_))
    refine ends_bind ((ends_each (fun _ t => t = w) (fun r _ t here => ends_require here fun _ => here) rfl).weaken ?_
      fun _ h => h)
    rintro ⟨⟩ t rfl
    -- the files that are left to look at are the ones not known to be as the package expects
    refine ends_bind ((ends_each (fun rest u => u = t ∧ ∀ e ∈ package.files, e ∉ rest →
      (t.files e.path).map (fun f => P.digest f.bytes) = e.before) ?_ ⟨rfl, fun e member left => absurd member left⟩).weaken
      ?_ fun _ h => h)
    · rintro e rest u ⟨rfl, found⟩
      refine ends_bind (ends_ask rfl (ends_require rfl fun same => ⟨rfl, fun x member left => ?_⟩))
      by_cases here : x = e
      · subst here
        exact of_decide_eq_true same
      · exact found x member fun inside => (List.mem_cons.mp inside).elim here left
    · rintro ⟨⟩ u ⟨rfl, found⟩
      refine ends_bind (ends_ask rfl (ends_bind (ends_ask rfl (ends_pure ⟨rfl, unpacked, ?_, ?_⟩))))
      · exact of_decide_eq_true other
      · exact fun e member => found e member List.not_mem_nil

end

/-! ### Stages -/

/-- A file as far as it counts: its bytes and its permission bits. -/
def File.view (f : File) : Bytes × Nat := (f.bytes, f.mode % 0o1000)

def World.view (w : World) : (String → Option (Bytes × Nat)) × Option Installed :=
  (fun p => (w.files p).map File.view, w.state.installed)

/-- The files of `w` with those of the package in their place. -/
def Package.over (package : Package) (files : String → Option File) (p : String) : Option File :=
  match package.files.find? (·.path = p) with
  | some e => e.after.map fun content => ⟨content.2, e.mode⟩
  | none => files p

section

-- The installation that the stages are about starts from `w₀`.
variable (P : Platform) (w₀ : World) (o : Order) (package : Package)

def journalEntry (e : PatchEntry) : JournalEntry :=
  ⟨e.path, e.before, e.after.map Prod.fst, e.mode, (w₀.files e.path).map fun f => f.mode % 0o1000⟩

def ourJournal (phase : Phase) : Journal :=
  ⟨phase, o.backup, package.files.map (journalEntry w₀), services.filter o.active, w₀.state.installed, o.release⟩

def BackedUp (w : World) : Prop :=
  ∀ e ∈ package.files, ∀ f, w₀.files e.path = some f → w.backups o.backup e.path = some f.bytes

def OthersKept (w : World) : Prop := ∀ p ∉ package.files.map PatchEntry.path, w.files p = w₀.files p

structure Undoable (w : World) (phase : Phase) : Prop where
  journal : w.journal = some (ourJournal w₀ o package phase)
  backedUp : BackedUp w₀ o package w
  others : OthersKept w₀ package w

structure NothingDone (w : World) : Prop where
  files : w.files = w₀.files
  installed : w.state.installed = w₀.state.installed
  journal : w.journal = w₀.journal
  phases : w.phases = []

structure Committed (w : World) : Prop extends Undoable w₀ o package w .committed where
  files : w.files = package.over w₀.files
  installed : w.state.installed = some ⟨o.release, o.time⟩
  phases : .committed ∈ w.phases ∧ .restoring ∉ w.phases

structure Restored (w : World) : Prop where
  view : w.view = w₀.view
  journal : w.journal = none
  phases : .restoring ∈ w.phases

def Whole (w : World) : Prop := NothingDone w₀ w ∨ Committed w₀ o package w ∨ Restored w₀ w

def Stage (w : World) : Prop :=
  Whole w₀ o package w ∨ Undoable w₀ o package w .prepared ∨
    Undoable w₀ o package w .restoring ∧ .restoring ∈ w.phases

end

section

variable {P : Platform} {w₀ : World} {o : Order} {package : Package}

variable {phase : Phase} {e : PatchEntry} {rest : List PatchEntry}

theorem Undoable.put {w : World} (h : Undoable w₀ o package w phase) {path : String}
    (target : path ∈ package.files.map PatchEntry.path) (file : Option File) :
    Undoable w₀ o package (w.put path file) phase where
  journal := h.journal
  backedUp := h.backedUp
  others p outside := by
    have different : p ≠ path := fun same => outside (same ▸ target)
    exact (Function.update_of_ne different _ _).trans (h.others p outside)

theorem Undoable.journaled {w : World} (h : Undoable w₀ o package w phase) (next : Phase) :
    Undoable w₀ o package (w.journaled (ourJournal w₀ o package next)) next :=
  ⟨rfl, h.backedUp, h.others⟩

/-! ### Restoring -/

def Original (w₀ : World) (contents : Dict String Bytes) : Prop :=
  ∀ p c, contents.lookup p = some c → ∃ f, w₀.files p = some f ∧ c = f.bytes

def Covers (contents : Dict String Bytes) (es : List PatchEntry) : Prop :=
  ∀ e ∈ es, e.before.isSome → (contents.lookup e.path).isSome

theorem readBackup_ends {w : World} (checkCurrent : Bool) (backedUp : BackedUp w₀ o package w)
    (baseline : ∀ e ∈ package.files, (w₀.files e.path).map (fun f => P.digest f.bytes) = e.before)
    {es : List PatchEntry} (done : List PatchEntry) (inside : ∀ e ∈ es, e ∈ package.files) {contents : Dict String Bytes}
    (original : Original w₀ contents) (covers : Covers contents done) :
    Ends (readBackup P checkCurrent o.backup (es.map (journalEntry w₀)) contents)
      (fun out t => t = w ∧ Original w₀ out ∧ Covers out (done ++ es)) (· = w) w := by
  induction es generalizing done contents with
  | nil =>
    refine ends_pure ⟨rfl, original, ?_⟩
    rwa [List.append_nil]
  | cons e es ih =>
    have here := inside e List.mem_cons_self
    have rest {contents : Dict String Bytes} (original : Original w₀ contents) (covers : Covers contents (done ++ [e])) :=
      ih (done ++ [e]) (fun x member => inside x (List.mem_cons_of_mem _ member)) original covers
    simp only [List.append_assoc, List.singleton_append] at rest
    refine ends_bind (ends_ask rfl (ends_bind (ends_require rfl fun _ => ?_)))
    have known := baseline e here
    cases before : e.before with
    | none =>
      simp only [journalEntry, before]
      refine rest original fun x member had => ?_
      rcases List.mem_append.mp member with member | member
      · exact covers x member had
      · rw [List.mem_singleton.mp member, before] at had
        cases had
    | some hash =>
      simp only [journalEntry, before]
      obtain ⟨f, there, _⟩ := Option.map_eq_some_iff.mp (known.trans before)
      refine ends_bind (ends_ask rfl ?_)
      rw [backedUp e here f there]
      refine ends_bind (ends_require rfl fun _ => rest ?_ ?_)
      · intro p c found
        rw [Dict.lookup_assign] at found
        split at found
        · next same =>
          cases found
          exact ⟨f, same ▸ there, rfl⟩
        · exact original p c found
      · intro x member had
        rw [Dict.lookup_assign]
        split
        · rfl
        · next different =>
          rcases List.mem_append.mp member with member | member
          · exact covers x member had
          · exact absurd (congrArg PatchEntry.path (List.mem_singleton.mp member)) different

/-- How far the loop of `restore` is: the files that are not left are as they were. -/
structure Returning (w₀ : World) (o : Order) (package : Package) (rest : List PatchEntry) (w : World) : Prop where
  undoable : Undoable w₀ o package w .restoring
  phases : .restoring ∈ w.phases
  inside : ∀ e ∈ rest, e ∈ package.files
  back : ∀ p ∉ rest.map PatchEntry.path, (w.files p).map File.view = (w₀.files p).map File.view

theorem Returning.put {w : World} (h : Returning w₀ o package (e :: rest) w) {file : Option File}
    (same : file.map File.view = (w₀.files e.path).map File.view) : Returning w₀ o package rest (w.put e.path file) where
  undoable := h.undoable.put (List.mem_map_of_mem (h.inside e List.mem_cons_self)) file
  phases := h.phases
  inside x member := h.inside x (List.mem_cons_of_mem _ member)
  back p left := by
    by_cases here : p = e.path
    · subst here
      simpa [World.put] using same
    · have kept : (w.put e.path file).files p = w.files p := Function.update_of_ne here _ _
      rw [kept]
      exact h.back p fun member => (List.mem_cons.mp member).elim here left

theorem Returning.stage {w : World} (h : Returning w₀ o package rest w) :
    Stage w₀ o package w := Or.inr (Or.inr ⟨h.undoable, h.phases⟩)

theorem removeTarget_ends {w : World} {path : String} {post : Unit → World → Prop} {broken : World → Prop}
    (stopped : broken w) (there : broken (w.put path none)) (removed : post () (w.put path none)) :
    Ends (removeTarget path) post broken w := by
  refine ends_bind (ends_ask stopped ?_)
  cases target : w.files path with
  | some f => exact ends_write stopped there removed
  | none =>
    have same : w.put path none = w := by
      unfold World.put
      rw [← target, Function.update_eq_self]
    rw [same] at removed
    exact ends_pure removed

theorem putBack_ends {w : World} {contents : Dict String Bytes}
    (baseline : ∀ e ∈ package.files, (w₀.files e.path).map (fun f => P.digest f.bytes) = e.before)
    (original : Original w₀ contents) (covers : Covers contents package.files)
    (h : Returning w₀ o package (e :: rest) w) :
    Ends (putBack contents (journalEntry w₀ e)) (fun _ => Returning w₀ o package rest) (Stage w₀ o package) w := by
  have here := h.inside e List.mem_cons_self
  have known := baseline e here
  unfold putBack
  cases before : e.before with
  | none =>
    have absent : w₀.files e.path = none := Option.map_eq_none_iff.mp (known.trans before)
    have gone : Returning w₀ o package rest (w.put e.path none) := h.put (by rw [absent])
    simp only [journalEntry, before]
    exact removeTarget_ends h.stage gone.stage gone
  | some hash =>
    simp only [journalEntry, before]
    obtain ⟨c, found⟩ := Option.isSome_iff_exists.mp (covers e here (before ▸ rfl))
    obtain ⟨f, there, rfl⟩ := original e.path c found
    have back : Returning w₀ o package rest (w.put e.path (some ⟨f.bytes, f.mode % 0o1000⟩)) := by
      refine h.put ?_
      simp [there, File.view]
    simp only [found, there, Option.map_some, Option.getD_some]
    exact ends_write h.stage back.stage back

theorem restore_ends {w : World} (checkCurrent : Bool) (h : Undoable w₀ o package w phase)
    (baseline : ∀ e ∈ package.files, (w₀.files e.path).map (fun f => P.digest f.bytes) = e.before)
    (stage : Stage w₀ o package w) :
    Ends (restore P checkCurrent) (fun _ => Restored w₀) (Stage w₀ o package) w := by
  refine ends_bind (ends_ask stage ?_)
  rw [h.journal]
  refine ends_bind (ends_require stage fun _ => ?_)
  have read : Ends (readBackup P checkCurrent o.backup (package.files.map (journalEntry w₀)) ∅)
      (fun out t => t = w ∧ Original w₀ out ∧ Covers out package.files) (· = w) w :=
    readBackup_ends checkCurrent h.backedUp baseline [] (fun _ member => member)
      (fun _ _ found => by cases found) nofun
  refine ends_bind (read.weaken ?_ fun t same => same ▸ stage)
  rintro contents t ⟨rfl, original, covers⟩
  have marked : Returning w₀ o package package.files (t.journaled (ourJournal w₀ o package .restoring)) :=
    ⟨h.journaled .restoring, List.mem_append_right _ List.mem_cons_self, fun _ member => member,
      fun p outside => congrArg _ (h.others p outside)⟩
  refine ends_bind (ends_write stage marked.stage ?_)
  refine ends_bind ((services_ends (Returning w₀ o package package.files) .stop _ (fun _ => Returning.stage) marked).weaken
    (fun _ u stopped => ?_) fun _ h => h)
  have loop : Ends (each (putBack contents) (package.files.map (journalEntry w₀)))
      (fun _ => Returning w₀ o package []) (Stage w₀ o package) u := by
    refine (ends_each (fun rest v => ∃ es, rest = es.map (journalEntry w₀) ∧ Returning w₀ o package es v) ?_
      ⟨_, rfl, stopped⟩).weaken ?_ fun _ h => h
    · rintro _ _ v ⟨_ | ⟨e, es⟩, split, here⟩
      · cases split
      · cases split
        exact (putBack_ends baseline original covers here).weaken (fun _ x after => ⟨es, rfl, after⟩) fun _ h => h
    · rintro ⟨⟩ v ⟨_ | ⟨e, es⟩, split, here⟩
      · exact here
      · cases split
  refine ends_bind (loop.weaken (fun _ v back => ?_) fun _ h => h)
  refine ends_bind ((restart_ends (Returning w₀ o package []) _ (fun _ => Returning.stage) back).weaken (fun _ x back =>
    ?_) fun _ h => h)
  have recorded : Returning w₀ o package [] (x.record w₀.state.installed) :=
    ⟨⟨back.undoable.journal, back.undoable.backedUp, back.undoable.others⟩, back.phases, back.inside, back.back⟩
  have restored : Restored w₀ (x.record w₀.state.installed).unjournaled := by
    refine ⟨Prod.ext (funext fun p => back.back p List.not_mem_nil) rfl, rfl, back.phases⟩
  refine ends_bind (ends_write back.stage recorded.stage ?_)
  exact ends_write recorded.stage (Or.inl (Or.inr (Or.inr restored))) restored

/-! ### Installing -/

theorem NothingDone.stage {w : World} (h : NothingDone w₀ w) : Stage w₀ o package w := Or.inl (Or.inl h)

theorem Committed.stage {w : World} (h : Committed w₀ o package w) : Stage w₀ o package w := Or.inl (Or.inr (Or.inl h))

theorem over_of_mem (distinct : (package.files.map PatchEntry.path).Nodup) (member : e ∈ package.files)
    (files : String → Option File) :
    package.over files e.path = e.after.map fun content => ⟨content.2, e.mode⟩ := by
  have found : package.files.find? (·.path = e.path) = some e := by
    obtain ⟨x, hit⟩ := Option.isSome_iff_exists.mp
      (List.find?_isSome (p := fun x => decide (x.path = e.path)).mpr ⟨e, member, decide_eq_true rfl⟩)
    have same : x.path = e.path := by simpa using List.find?_some hit
    rw [hit, List.inj_on_of_nodup_map distinct (List.mem_of_find?_eq_some hit) member same]
  unfold Package.over
  rw [found]

theorem over_of_not_mem {p : String} (outside : p ∉ package.files.map PatchEntry.path) (files : String → Option File) :
    package.over files p = files p := by
  have none : package.files.find? (·.path = p) = none := by
    rw [List.find?_eq_none]
    intro e member same
    exact outside (of_decide_eq_true same ▸ List.mem_map_of_mem member)
  unfold Package.over
  rw [none]

theorem backUps_ends {w : World} (start : NothingDone w₀ w) (items : List PatchEntry) :
    Ends (collect (backUp P o.backup) items) (fun entries t => NothingDone w₀ t ∧ entries = items.map (journalEntry w₀) ∧
      ∀ e ∈ items, ∀ f, w₀.files e.path = some f → t.backups o.backup e.path = some f.bytes) (Stage w₀ o package) w := by
  refine (ends_collect (fun before entries t => NothingDone w₀ t ∧ entries = before.map (journalEntry w₀) ∧
    ∀ e ∈ before, ∀ f, w₀.files e.path = some f → t.backups o.backup e.path = some f.bytes) ?_
    [] [] ⟨start, rfl, nofun⟩).weaken (fun _ _ h => h) fun _ h => h
  rintro e before _ t ⟨nothing, rfl, backed⟩
  refine ends_bind (ends_ask nothing.stage ?_)
  rw [nothing.files]
  cases there : w₀.files e.path with
  | none =>
    refine ends_pure ⟨nothing, by simp [journalEntry, there], fun x member f found => ?_⟩
    rcases List.mem_append.mp member with member | member
    · exact backed x member f found
    · rw [List.mem_singleton.mp member, there] at found
      cases found
  | some original =>
    have kept : NothingDone w₀ (t.keep o.backup e.path original.bytes) :=
      ⟨nothing.files, nothing.installed, nothing.journal, nothing.phases⟩
    refine ends_bind (ends_require nothing.stage fun _ => ends_bind (ends_write nothing.stage kept.stage ?_))
    refine ends_pure ⟨kept, by simp [journalEntry, there], fun x member f found => ?_⟩
    simp only [World.keep, Function.update_self]
    by_cases here : x.path = e.path
    · rw [here, Function.update_self]
      rw [here, there] at found
      cases found
      rfl
    · rw [Function.update_of_ne here]
      rcases List.mem_append.mp member with member | member
      · exact backed x member f found
      · exact absurd (congrArg PatchEntry.path (List.mem_singleton.mp member)) here

/-- How far the loop of `install` is: the files that are not left are the package's. -/
structure Applying (w₀ : World) (o : Order) (package : Package) (rest : List PatchEntry) (w : World) : Prop where
  undoable : Undoable w₀ o package w .prepared
  phases : w.phases = [.prepared]
  inside : ∀ e ∈ rest, e ∈ package.files
  applied : ∀ p ∉ rest.map PatchEntry.path, w.files p = package.over w₀.files p

theorem Applying.put {w : World}
    (distinct : (package.files.map PatchEntry.path).Nodup) (h : Applying w₀ o package (e :: rest) w) :
    Applying w₀ o package rest (w.put e.path (e.after.map fun content => ⟨content.2, e.mode⟩)) where
  undoable := h.undoable.put (List.mem_map_of_mem (h.inside e List.mem_cons_self)) _
  phases := h.phases
  inside x member := h.inside x (List.mem_cons_of_mem _ member)
  applied p left := by
    by_cases here : p = e.path
    · subst here
      rw [over_of_mem distinct (h.inside e List.mem_cons_self)]
      exact Function.update_self _ _ _
    · refine (Function.update_of_ne here _ _).trans (h.applied p fun member => ?_)
      exact (List.mem_cons.mp member).elim here left

/-- Where the body of the `try` may be stopped. -/
def Underway (w₀ : World) (o : Order) (package : Package) (w : World) : Prop :=
  Undoable w₀ o package w .prepared ∨ Committed w₀ o package w

theorem Applying.underway {w : World} (h : Applying w₀ o package rest w) :
    Underway w₀ o package w := Or.inl h.undoable

theorem putFile_ends {w : World}
    (distinct : (package.files.map PatchEntry.path).Nodup) (h : Applying w₀ o package (e :: rest) w) :
    Ends (putFile e) (fun _ => Applying w₀ o package rest) (Underway w₀ o package) w := by
  have next := h.put distinct
  unfold putFile
  cases after : e.after with
  | none =>
    rw [after] at next
    exact removeTarget_ends h.underway next.underway next
  | some content =>
    rw [after] at next
    exact ends_write h.underway next.underway next

theorem Underway.stage {w : World} (h : Underway w₀ o package w) : Stage w₀ o package w := by
  rcases h with prepared | committed
  · exact Or.inr (Or.inl prepared)
  · exact committed.stage

theorem apply_ends {w : World} (distinct : (package.files.map PatchEntry.path).Nodup)
    (start : Applying w₀ o package package.files w) :
    Ends (do
        each (service .stop) (services.filter o.active).reverse
        each putFile package.files
        restart (services.filter o.active)
        write fun w => w.record (some ⟨o.release, o.time⟩)
        write fun w => w.journaled { ourJournal w₀ o package .prepared with phase := .committed })
      (fun _ => Committed w₀ o package) (Underway w₀ o package) w := by
  refine ends_bind ((services_ends (Applying w₀ o package package.files) .stop _ (fun _ => Applying.underway) start).weaken
    (fun _ t here => ?_) fun _ h => h)
  refine ends_bind ((ends_each (Applying w₀ o package) (fun _ _ _ => putFile_ends distinct) here).weaken
    (fun _ u done => ?_) fun _ h => h)
  refine ends_bind ((restart_ends (Applying w₀ o package []) _ (fun _ => Applying.underway) done).weaken (fun _ v done =>
    ?_) fun _ h => h)
  have recorded : Applying w₀ o package [] (v.record (some ⟨o.release, o.time⟩)) :=
    ⟨⟨done.undoable.journal, done.undoable.backedUp, done.undoable.others⟩, done.phases, done.inside, done.applied⟩
  refine ends_bind (ends_write done.underway recorded.underway ?_)
  have committed : Committed w₀ o package
      ((v.record (some ⟨o.release, o.time⟩)).journaled (ourJournal w₀ o package .committed)) := by
    refine ⟨recorded.undoable.journaled .committed, funext fun p => done.applied p List.not_mem_nil, rfl, ?_⟩
    simp [World.journaled, World.record, done.phases, ourJournal]
  exact ends_write recorded.underway (Or.inr committed) committed

theorem install_ends (checked : Checked P w₀ o.archive o.release package) (fresh : w₀.phases = []) (expected : String) :
    Ends (install P o expected) (fun _ => Committed w₀ o package) (Stage w₀ o package) w₀ := by
  have nothing : NothingDone w₀ w₀ := ⟨rfl, rfl, rfl, fresh⟩
  refine ends_bind (ends_require nothing.stage fun _ => ?_)
  refine ends_bind ((preflight_ends w₀).weaken ?_ fun t same => same ▸ nothing.stage)
  rintro found t ⟨rfl, again⟩
  cases again.unpacked.symm.trans checked.unpacked
  refine ends_bind (ends_ask nothing.stage (ends_bind (ends_require nothing.stage fun _ => ?_)))
  refine ends_bind (ends_ask nothing.stage (ends_bind (ends_require nothing.stage fun _ => ?_)))
  refine ends_bind ((backUps_ends nothing package.files).weaken ?_ fun _ h => h)
  rintro _ w ⟨nothing, rfl, backed⟩
  refine ends_bind (ends_ask nothing.stage ?_)
  rw [nothing.installed]
  have prepared : Applying t o package package.files (w.journaled (ourJournal t o package .prepared)) := by
    refine ⟨⟨rfl, backed, fun p _ => congrFun nothing.files p⟩, ?_, fun _ member => member, fun p outside => ?_⟩
    · simp [World.journaled, nothing.phases, ourJournal]
    · rw [over_of_not_mem outside]
      exact congrFun nothing.files p
  refine ends_bind (ends_write nothing.stage prepared.underway.stage ?_)
  refine ends_handle (apply_ends (unpack_distinct checked.unpacked) prepared) (fun _ => Underway.stage) fun u underway => ?_
  have undoable : ∃ phase, Undoable t o package u phase :=
    underway.elim (fun h => ⟨_, h⟩) fun h => ⟨_, h.toUndoable⟩
  obtain ⟨phase, undoable⟩ := undoable
  refine ends_bind ((restore_ends false undoable checked.baseline underway.stage).weaken (fun _ v restored => ?_) fun _ h => h)
  exact ends_throw (Or.inl (Or.inr (Or.inr restored)))

theorem Restored.stage {w : World} (h : Restored w₀ w) : Stage w₀ o package w := Or.inl (Or.inr (Or.inr h))

theorem Restored.installed {w : World} (h : Restored w₀ w) : w.state.installed = w₀.state.installed :=
  congrArg Prod.snd h.view

theorem Whole.settled {w : World} (h : Whole w₀ o package w) (settled : w₀.interrupted = false) : w.interrupted = false := by
  unfold World.interrupted World.phase at settled ⊢
  rcases h with nothing | committed | restored
  · rwa [nothing.journal]
  · rw [committed.journal]
    rfl
  · rw [restored.journal]
    rfl

theorem Undoable.interrupted {w : World} (h : Undoable w₀ o package w phase) (open_ : phase ≠ .committed) :
    w.interrupted = true := by
  unfold World.interrupted World.phase
  rw [h.journal]
  simpa [ourJournal] using open_

theorem recover_ends {w : World} (checked : Checked P w₀ o.archive o.release package) (settled : w₀.interrupted = false)
    (stage : Stage w₀ o package w) : Ends (recover P) (fun _ => Whole w₀ o package) (Stage w₀ o package) w := by
  refine ends_bind (ends_ask stage ?_)
  have back {phase : Phase} (undoable : Undoable w₀ o package w phase) (open_ : phase ≠ .committed) :
      Ends (if w.interrupted then restore P false else pure ()) (fun _ => Whole w₀ o package) (Stage w₀ o package) w := by
    rw [undoable.interrupted open_, if_pos rfl]
    exact (restore_ends false undoable checked.baseline stage).weaken (fun _ _ h => Or.inr (Or.inr h)) fun _ h => h
  rcases stage with whole | prepared | ⟨restoring, _⟩
  · rw [whole.settled settled]
    exact ends_pure whole
  · exact back prepared (by decide)
  · exact back restoring (by decide)

theorem rollback_ends {w : World} (checked : Checked P w₀ o.archive o.release package) (stage : Stage w₀ o package w) :
    Ends (rollback P o.release.sha256) (fun _ => Restored w₀) (Stage w₀ o package) w := by
  refine ends_bind (ends_ask stage (ends_bind (ends_require stage fun ours => ?_)))
  -- as long as the release is not recorded there is nothing to roll back
  have recorded (same : w.state.installed = w₀.state.installed) : False :=
    checked.other (same ▸ of_decide_eq_true ours)
  have undoable : ∃ phase, Undoable w₀ o package w phase := by
    rcases stage with (nothing | committed | restored) | prepared | ⟨restoring, _⟩
    · exact (recorded nothing.installed).elim
    · exact ⟨_, committed.toUndoable⟩
    · exact (recorded restored.installed).elim
    · exact ⟨_, prepared⟩
    · exact ⟨_, restoring⟩
  obtain ⟨phase, undoable⟩ := undoable
  exact restore_ends true undoable checked.baseline stage

theorem attempts_stage (checked : Checked P w₀ o.archive o.release package) (settled : w₀.interrupted = false)
    (xs : List Attempt) {w : World} (stage : Stage w₀ o package w) :
    Stage w₀ o package (attempts P o.release.sha256 w xs) := by
  induction xs generalizing w with
  | nil => exact stage
  | cons x xs ih =>
    refine ih ?_
    cases x with
    | rollback faults => exact (rollback_ends checked stage).stops (fun _ _ => Restored.stage) faults
    | recover faults => exact (recover_ends checked settled stage).stops (fun _ _ => Or.inl) faults

/-! ### Recovery is possible -/

theorem services_complete {w : World} (verb : Verb) (units : List Service) (inv : World → Prop) (h : inv w) :
    Completes (each (service verb) units) (fun _ => inv) w :=
  completes_each (fun _ => inv) (fun _ _ _ here => completes_ask here) h

theorem restart_completes {w : World} (units : List Service) (inv : World → Prop) (h : inv w) :
    Completes (restart units) (fun _ => inv) w := by
  refine completes_bind ((services_complete .start units inv h).weaken fun _ t here => ?_)
  exact completes_each (fun _ => inv) (fun _ _ _ => services_complete .isActive units inv) here

theorem readBackup_completes {w : World} (backedUp : BackedUp w₀ o package w)
    (baseline : ∀ e ∈ package.files, (w₀.files e.path).map (fun f => P.digest f.bytes) = e.before)
    {es : List PatchEntry} (inside : ∀ e ∈ es, e ∈ package.files) (contents : Dict String Bytes) :
    Completes (readBackup P false o.backup (es.map (journalEntry w₀)) contents) (fun _ t => t = w) w := by
  induction es generalizing contents with
  | nil => exact completes_pure rfl
  | cons e es ih =>
    have rest := ih fun x member => inside x (List.mem_cons_of_mem _ member)
    refine completes_bind (completes_ask (completes_bind (completes_require rfl ?_)))
    have known := baseline e (inside e List.mem_cons_self)
    cases before : e.before with
    | none =>
      simp only [journalEntry, before]
      exact rest contents
    | some hash =>
      simp only [journalEntry, before]
      obtain ⟨f, there, hashed⟩ := Option.map_eq_some_iff.mp (known.trans before)
      refine completes_bind (completes_ask ?_)
      rw [backedUp e (inside e List.mem_cons_self) f there]
      exact completes_bind (completes_require (decide_eq_true hashed) (rest _))

theorem removeTarget_completes {w : World} (path : String) : Completes (removeTarget path) (fun _ _ => True) w := by
  refine completes_bind (completes_ask ?_)
  split
  · exact completes_write trivial
  · exact completes_pure trivial

theorem restore_completes {w : World} (h : Undoable w₀ o package w phase)
    (baseline : ∀ e ∈ package.files, (w₀.files e.path).map (fun f => P.digest f.bytes) = e.before) :
    Completes (restore P false) (fun _ _ => True) w := by
  refine completes_bind (completes_ask ?_)
  rw [h.journal]
  refine completes_bind (completes_require rfl ?_)
  have read : Ends (readBackup P false o.backup (package.files.map (journalEntry w₀)) ∅)
      (fun out t => t = w ∧ Original w₀ out ∧ Covers out package.files) (· = w) w :=
    readBackup_ends false h.backedUp baseline [] (fun _ member => member) (fun _ _ found => by cases found) nofun
  obtain ⟨contents, t, run, rfl⟩ := readBackup_completes h.backedUp baseline (fun _ member => member) ∅
  refine completes_bind ⟨contents, t, run, ?_⟩
  have found := read []
  rw [run] at found
  obtain ⟨_, _, covers⟩ := found
  refine completes_bind (completes_write ?_)
  refine completes_bind ((services_complete .stop _ (fun _ => True) trivial).weaken fun _ u _ => ?_)
  have loop : Completes (each (putBack contents) (package.files.map (journalEntry w₀))) (fun _ _ => True) u := by
    refine (completes_each (fun rest _ => ∀ x ∈ rest, x ∈ package.files.map (journalEntry w₀)) ?_ fun _ h => h).weaken
      fun _ _ _ => trivial
    intro x rest v inside
    have later : ∀ y ∈ rest, y ∈ package.files.map (journalEntry w₀) := fun y member =>
      inside y (List.mem_cons_of_mem _ member)
    obtain ⟨e, member, rfl⟩ := List.mem_map.mp (inside x List.mem_cons_self)
    unfold putBack
    cases before : e.before with
    | none =>
      simp only [journalEntry, before]
      exact (removeTarget_completes e.path).weaken fun _ _ _ => later
    | some hash =>
      obtain ⟨c, found⟩ := Option.isSome_iff_exists.mp (covers e member (before ▸ rfl))
      simp only [journalEntry, before, found]
      exact completes_write later
  refine completes_bind (loop.weaken fun _ v _ => ?_)
  refine completes_bind ((restart_completes _ (fun _ => True) trivial).weaken fun _ v _ => ?_)
  exact completes_bind (completes_write (completes_write trivial))

theorem recover_completes {w : World} (checked : Checked P w₀ o.archive o.release package)
    (stage : Stage w₀ o package w) (settled : w₀.interrupted = false) :
    Completes (recover P) (fun _ _ => True) w := by
  refine completes_bind (completes_ask ?_)
  rcases stage with whole | prepared | ⟨restoring, _⟩
  · rw [whole.settled settled]
    exact completes_pure trivial
  · rw [prepared.interrupted (by decide), if_pos rfl]
    exact restore_completes prepared checked.baseline
  · rw [restoring.interrupted (by decide), if_pos rfl]
    exact restore_completes restoring checked.baseline

def Package.view (package : Package) (o : Order) (w : World) : (String → Option (Bytes × Nat)) × Option Installed :=
  (fun p => (package.over w.files p).map File.view, some ⟨o.release, o.time⟩)

theorem Whole.view {w : World} (h : Whole w₀ o package w) : w.view =
    if .committed ∈ w.phases ∧ .restoring ∉ w.phases then package.view o w₀ else w₀.view := by
  rcases h with nothing | committed | restored
  · rw [if_neg (by simp [nothing.phases])]
    unfold World.view
    rw [nothing.files, nothing.installed]
  · rw [if_pos committed.phases]
    unfold World.view Package.view
    rw [committed.files, committed.installed]
  · rw [if_neg fun h => h.2 restored.phases]
    exact restored.view

end

/-- Wherever an installation of an accepted package is cut off, and however often the
recoveries and rollbacks after it are cut off too, a recovery that nothing stops gets through, and one that gets
through leaves all of the package or nothing of it; an installation and its rollback leave nothing. -/
theorem install_all_or_nothing (P : Platform) (w : World) (o : Order) (package : Package)
    (accepted : (preflight P o.archive o.release [] w).1 = .done package) (settled : w.interrupted = false)
    (fresh : w.phases = []) (expected : String) (faults : List Fault) (later : List Attempt) :
    let w₁ := install P o expected faults w
    let w₂ := attempts P o.release.sha256 w₁.2.2 later
    (∀ again, (recover P again w₂).1 = .done () → (recover P again w₂).2.2.view =
      if .committed ∈ (recover P again w₂).2.2.phases ∧ .restoring ∉ (recover P again w₂).2.2.phases
      then package.view o w else w.view) ∧
    (recover P [] w₂).1 = .done () ∧
    (w₁.1 = .done () → w₁.2.2.view = package.view o w ∧ ∀ undo, (rollback P o.release.sha256 undo w₁.2.2).1 = .done () →
      (rollback P o.release.sha256 undo w₁.2.2).2.2.view = w.view) := by
  have checked : Checked P w o.archive o.release package := ((preflight_ends w).of_done accepted).2
  have installed := install_ends checked fresh expected
  have first : Stage w o package (install P o expected faults w).2.2 := installed.stops (fun _ _ => Committed.stage) faults
  have stage := attempts_stage checked settled later first
  refine ⟨fun again done => ?_, ?_, fun done => ?_⟩
  · exact ((recover_ends checked settled stage).of_done done).view
  · obtain ⟨⟨⟩, t, run, _⟩ := recover_completes checked stage settled
    rw [run]
  · have committed : Committed w o package _ := installed.of_done done
    refine ⟨?_, fun undo undone => ?_⟩
    · rw [Whole.view (Or.inr (Or.inl committed)), if_pos committed.phases]
    · exact ((rollback_ends checked first).of_done undone).view

/-! ### One package -/

def oldText : Bytes := [120, 32, 61, 32, 49, 10]
def newText : Bytes := [120, 32, 61, 32, 50, 10]

/-- A package that replaces `a.py`, and the manifest in it. -/
def sampleArchive : Bytes :=
  [31, 139, 8, 0, 0, 0, 0, 0, 2, 255, 237, 211, 207, 74, 3, 49, 16, 6, 240, 61, 251, 20, 75, 206, 165, 102, 146,
   73, 182, 41, 248, 36, 226, 97, 146, 77, 216, 138, 253, 195, 238, 42, 74, 233, 187, 27, 43, 120, 232, 205,
   131, 21, 241, 251, 93, 146, 124, 129, 153, 195, 48, 7, 153, 211, 176, 124, 156, 246, 187, 230, 199, 232, 202,
   51, 159, 207, 234, 242, 212, 150, 236, 215, 253, 51, 239, 58, 203, 77, 171, 155, 43, 120, 158, 102, 25, 107,
   203, 230, 127, 58, 170, 41, 13, 121, 43, 106, 77, 11, 245, 146, 199, 105, 179, 223, 169, 181, 50, 106, 161,
   202, 230, 41, 79, 106, 125, 127, 84, 7, 153, 135, 26, 202, 242, 240, 86, 243, 152, 203, 126, 204, 245, 29,
   178, 241, 177, 88, 31, 2, 81, 98, 151, 12, 219, 228, 87, 76, 220, 69, 99, 75, 10, 153, 250, 84, 82, 49, 174,
   235, 77, 8, 66, 201, 91, 163, 201, 139, 47, 169, 183, 182, 112, 173, 37, 101, 206, 99, 45, 197, 70, 187, 196,
   43, 29, 36, 82, 212, 43, 93, 122, 107, 98, 45, 30, 60, 235, 236, 74, 22, 241, 61, 69, 31, 106, 82, 164, 246,
   8, 142, 37, 118, 164, 201, 117, 57, 17, 147, 58, 61, 156, 26, 248, 190, 243, 144, 111, 63, 38, 251, 123, 251,
   95, 127, 47, 247, 223, 91, 135, 253, 191, 134, 215, 246, 174, 53, 55, 216, 3, 0, 0, 0, 0, 0, 0, 0, 0, 0, 0,
   0, 0, 0, 0, 0, 128, 191, 234, 29, 201, 108, 145, 21, 0, 40, 0, 0]

def sampleManifest : Bytes :=
  [123, 34, 115, 99, 104, 101, 109, 97, 34, 58, 49, 44, 34, 118, 101, 114, 115, 105, 111, 110, 34, 58, 34, 50,
   34, 44, 34, 102, 105, 108, 101, 115, 34, 58, 91, 123, 34, 112, 97, 116, 104, 34, 58, 34, 97, 46, 112, 121,
   34, 44, 34, 98, 101, 102, 111, 114, 101, 34, 58, 34, 57, 101, 50, 54, 98, 102, 51, 54, 57, 57, 49, 49, 99,
   52, 53, 99, 50, 52, 51, 99, 54, 56, 52, 49, 52, 55, 98, 50, 51, 102, 99, 57, 101, 49, 100, 99, 102, 99, 102,
   50, 53, 55, 100, 50, 57, 57, 97, 49, 99, 54, 51, 50, 48, 49, 54, 97, 54, 102, 99, 100, 51, 51, 102, 52, 34,
   44, 34, 97, 102, 116, 101, 114, 34, 58, 34, 52, 50, 48, 53, 99, 52, 56, 48, 57, 97, 98, 49, 98, 48, 56, 48,
   102, 100, 51, 50, 98, 54, 98, 102, 57, 54, 52, 48, 101, 53, 102, 101, 97, 97, 54, 100, 49, 98, 54, 57, 98,
   102, 57, 102, 97, 54, 56, 52, 57, 53, 52, 97, 98, 55, 49, 48, 49, 53, 55, 101, 99, 49, 52, 49, 34, 125, 93,
   125]

def oldHash : String := "9e26bf369911c45c243c684147b23fc9e1dcfcf257d299a1c632016a6fcd33f4"
def newHash : String := "4205c4809ab1b080fd32b6bf9640e5feaa6d1b69bf9fa684954ab710157ec141"
def archiveHash : String := "61e2f9b8cf927536c1749fd1e5494b2d38aff0558aa5338c916a6d03320941e3"

def samplePlatform : Platform where
  digest data := if data = oldText then oldHash else if data = newText then newHash else archiveHash
  members data :=
    if data = sampleArchive then some [⟨"patch.json", true, 203, sampleManifest⟩, ⟨"files/a.py", true, 6, newText⟩]
    else none
  manifest data :=
    if data = sampleManifest then some ⟨some 1, some "2", [⟨"a.py", some oldHash, some newHash, none⟩], []⟩ else none
  compiles _ _ := true
  found _ := none

def sampleWorld : World where
  files p := if p = "a.py" then some ⟨oldText, 0o755⟩ else none
  state := ⟨none, none⟩
  journal := none
  backups _ _ := none
  phases := []

def sampleOrder : Order :=
  ⟨⟨"patch-2.tgz", archiveHash, 284, "2", 1700000000⟩, sampleArchive, 1700000100, "b1", fun _ => true⟩

def samplePackage : Package := ⟨some "2", [], [⟨"a.py", some oldHash, some (newHash, newText), 0o644⟩]⟩

def sampleFaults : List Fault := List.replicate 13 .none ++ [.crash true]

def sampleLater : List Attempt := [.recover [.crash false]]

theorem sample_all_or_nothing :
    ((preflight samplePlatform sampleOrder.archive sampleOrder.release [] sampleWorld).1 = .done samplePackage ∧
      sampleWorld.interrupted = false ∧ sampleWorld.phases = []) ∧
    let w₁ := install samplePlatform sampleOrder archiveHash sampleFaults sampleWorld
    let w₂ := attempts samplePlatform sampleOrder.release.sha256 w₁.2.2 sampleLater
    ((w₁.2.2.files "a.py").map File.bytes = some newText ∧ w₁.2.2.phases = [.prepared]) ∧
    (recover samplePlatform [] w₂).1 = .done () ∧
    (recover samplePlatform [] w₂).2.2.view =
      if .committed ∈ (recover samplePlatform [] w₂).2.2.phases ∧ .restoring ∉ (recover samplePlatform [] w₂).2.2.phases
      then samplePackage.view sampleOrder sampleWorld else sampleWorld.view := by
  have accepted : (preflight samplePlatform sampleOrder.archive sampleOrder.release [] sampleWorld).1 = .done samplePackage := by
    decide +kernel
  obtain ⟨whole, possible, _⟩ := install_all_or_nothing samplePlatform sampleWorld sampleOrder samplePackage accepted
    rfl rfl archiveHash sampleFaults sampleLater
  refine ⟨⟨accepted, rfl, rfl⟩, ?_, possible, whole [] possible⟩
  decide +kernel

end FfnNgfw.Patch
