import FfnNgfw.Lib.Crash
import FfnNgfw.Patch.Package

/-!
# Installing and restoring patches

`install`, `restore` and the worker's actions of `PatchManager`. The live files, the
backup, the state file and the journal are written one at a time, and each write, read or
call of a service may raise or be the last thing the process does. A path that is not
confined, a directory in the way and a full disk are among the reasons to raise.
-/

namespace FfnNgfw.Patch
open Proc

/-! ### What is on disk -/

structure File where
  bytes : Bytes
  mode : Nat
  deriving DecidableEq

structure Release where
  file : String
  sha256 : String
  size : Int
  version : String
  published : Int
  deriving DecidableEq

structure Installed where
  release : Release
  time : Int
  deriving DecidableEq

/-- `state.json` -/
structure StateFile where
  installed : Option Installed
  staged : Option Release
  deriving DecidableEq

inductive Phase where
  | prepared | committed | restoring
  deriving DecidableEq

inductive Service where
  | controld | configd | manager
  deriving DecidableEq

def services : List Service := [.controld, .configd, .manager]

structure JournalEntry where
  path : String
  before : Option String
  after : Option String
  mode : Nat
  oldMode : Option Nat
  deriving DecidableEq

structure Journal where
  phase : Phase
  backup : String
  files : List JournalEntry
  services : List Service
  previous : Option Installed
  release : Release
  deriving DecidableEq

/-- `phases` is the history of what the journal was saved as. -/
structure World where
  files : String → Option File
  state : StateFile
  journal : Option Journal
  backups : String → String → Option Bytes
  phases : List Phase

def World.phase (w : World) : Option Phase := w.journal.map Journal.phase

/-- A journal that is neither absent nor committed has to be recovered first. -/
def World.interrupted (w : World) : Bool := !(w.phase = none ∨ w.phase = some .committed)

def World.put (w : World) (path : String) (file : Option File) : World :=
  { w with files := Function.update w.files path file }

def World.keep (w : World) (backup path : String) (bytes : Bytes) : World :=
  { w with backups := Function.update w.backups backup (Function.update (w.backups backup) path (some bytes)) }

def World.record (w : World) (installed : Option Installed) : World :=
  { w with state := { w.state with installed := installed, staged := none } }

def World.journaled (w : World) (j : Journal) : World := { w with journal := some j, phases := w.phases ++ [j.phase] }

def World.unjournaled (w : World) : World := { w with journal := none }

/-! ### Installing -/

section

variable (P : Platform)

def preflight (archive : Bytes) (release : Release) : Proc World Package := do
  require ((archive.length : Int) = release.size && P.digest archive = release.sha256)
    "Downloaded package size or SHA-256 does not match signed release"
  match unpack P archive with
  | .error why => throw why
  | .ok package =>
    require (package.version = some release.version) "Package version differs from signed release"
    let installed ← ask fun w => w.state.installed
    require (installed.map (·.release.sha256) ≠ some release.sha256) "This patch is already installed"
    require ((installed.map (·.release.published)).getD 0 < release.published)
      "Release is not newer; use rollback to restore previous code"
    each (fun r => require (P.found r.1 = some r.2) s!"Required dependency missing or incompatible: {r.1}=={r.2}")
      package.requires
    each (fun e => do
        let before ← ask fun w => (w.files e.path).map fun f => P.digest f.bytes
        require (before = e.before) s!"Installed file differs from patch baseline: {e.path}")
      package.files
    -- the free space of the state directory and of the installation
    ask fun _ => ()
    ask fun _ => ()
    return package

/-- The entry of the journal for one file of the package, once its backup is there. -/
def backUp (backup : String) (item : PatchEntry) : Proc World JournalEntry := do
  let entry : JournalEntry := ⟨item.path, item.before, item.after.map Prod.fst, item.mode, none⟩
  let target ← ask fun w => w.files item.path
  match target with
  | none => return entry
  | some original =>
    require (some (P.digest original.bytes) = item.before) s!"File changed while preparing backup: {item.path}"
    write fun w => w.keep backup item.path original.bytes
    return { entry with oldMode := some (original.mode % 0o1000) }

inductive Verb where
  | isActive | stop | start

/-- A call of `systemctl`; where the unit does not do as told, it raises. -/
def service (_verb : Verb) (_unit : Service) : Proc World Unit := ask fun _ => ()

/-- The services are started, and have to stay active for five looks at them. -/
def restart (units : List Service) : Proc World Unit := do
  each (service .start) units
  each (fun _ => each (service .isActive) units) (List.range 5)

def removeTarget (path : String) : Proc World Unit := do
  let there ← ask fun w => (w.files path).isSome
  if there then write fun w => w.put path none

def putFile (item : PatchEntry) : Proc World Unit :=
  match item.after with
  | some (_, content) => write fun w => w.put item.path (some ⟨content, item.mode⟩)
  | none => removeTarget item.path

/-- The contents of the backup, each checked against the hash of what it stands for. -/
def readBackup (checkCurrent : Bool) (backup : String) :
    List JournalEntry → Dict String Bytes → Proc World (Dict String Bytes)
  | [], contents => return contents
  | entry :: rest, contents => do
    let current ← ask fun w => (w.files entry.path).map fun f => P.digest f.bytes
    require (!checkCurrent || current = entry.after) s!"Local changes prevent rollback: {entry.path}"
    match entry.before with
    | none => readBackup checkCurrent backup rest contents
    | some hash =>
      let content ← ask fun w => w.backups backup entry.path
      match content with
      | none => throw "FileNotFoundError"
      | some content =>
        require (P.digest content = hash) "Rollback backup is damaged"
        readBackup checkCurrent backup rest (contents.assign entry.path content)

def putBack (contents : Dict String Bytes) (entry : JournalEntry) : Proc World Unit :=
  match entry.before with
  | some _ =>
    match contents.lookup entry.path with
    | some content => write fun w => w.put entry.path (some ⟨content, entry.oldMode.getD 0o644⟩)
    | none => throw "KeyError"
  | none => removeTarget entry.path

def restore (checkCurrent : Bool) : Proc World Unit := do
  let journal ← ask fun w => w.journal
  match journal with
  | none => throw "No rollback journal exists"
  | some j =>
    require (!(checkCurrent && j.phase ≠ .committed)) "Use recovery for an interrupted operation"
    let contents ← readBackup P checkCurrent j.backup j.files ∅
    write fun w => w.journaled { j with phase := .restoring }
    each (service .stop) j.services.reverse
    each (putBack contents) j.files
    restart j.services
    write fun w => w.record j.previous
    write fun w => w.unjournaled

/-- What an installation is given besides the package: the release that was verified, the
clock, the name of the backup and the services that are active. -/
structure Order where
  release : Release
  archive : Bytes
  time : Int
  backup : String
  active : Service → Bool

def install (o : Order) (expected : String) : Proc World Unit := do
  require (expected = o.release.sha256) "Staged patch changed; review it again"
  let package ← preflight P o.archive o.release
  let interrupted ← ask World.interrupted
  require (!interrupted) "Recover the interrupted operation first"
  let units ← ask fun _ => services.filter o.active
  require (.manager ∈ units) "The management service must be active before installation"
  let entries ← collect (backUp P o.backup) package.files
  let previous ← ask fun w => w.state.installed
  let journal : Journal := ⟨.prepared, o.backup, entries, units, previous, o.release⟩
  write fun w => w.journaled journal
  handle (do
      each (service .stop) units.reverse
      each putFile package.files
      restart units
      write fun w => w.record (some ⟨o.release, o.time⟩)
      write fun w => w.journaled { journal with phase := .committed })
    (do
      restore P false
      throw "Installation failed; previous files and services restored")

def rollback (expected : String) : Proc World Unit := do
  let installed ← ask fun w => w.state.installed
  require (installed.map (·.release.sha256) = some expected) "Installed patch changed; review rollback again"
  restore P true

def recover : Proc World Unit := do
  let interrupted ← ask World.interrupted
  if interrupted then restore P false

/-- A further action on an installation: a rollback of the release, or a recovery. -/
inductive Attempt where
  | rollback (faults : List Fault)
  | recover (faults : List Fault)

def attempt (sha256 : String) (w : World) : Attempt → World
  | .rollback faults => (rollback P sha256 faults w).2.2
  | .recover faults => (recover P faults w).2.2

def attempts (sha256 : String) (w : World) (xs : List Attempt) : World := xs.foldl (attempt P sha256) w

end

end FfnNgfw.Patch
