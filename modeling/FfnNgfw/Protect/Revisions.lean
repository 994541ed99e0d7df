import FfnNgfw.Lib.Fence
import FfnNgfw.Protect.Intent
import Mathlib.Data.List.Sort

/-!
# Applying intents

Two daemons take their intent from a file that `apply` writes. Each apply is a process of its own:
it reads the file, compares the revision, writes what it has validated to a temporary file, and
renames that. All applies of the DHCP server write to one temporary file; those of the gateway
have the number of the process in its name.
-/

namespace FfnNgfw

/-- What stands under `configuration` in a request. -/
inductive ConfigurationLabel where
  | missing
  | text (s : String)
  | other
deriving DecidableEq

/-! ### DHCP -/

namespace Dhcp

/-- A request that is an object; a revision that is no integer and servers that are no object are `none`. -/
structure ApplyRequest where
  keys : List String
  revision : Option Int
  servers : Option (Dict String RawSpec)
  configuration : ConfigurationLabel
  clock : Nat

structure Intent where
  revision : Int
  configuration : Option String
  servers : List (String × Spec)
  appliedAt : Option Nat
deriving DecidableEq

structure Document where
  schema : Option Int
  revision : Option Int
  configuration : Option String
  servers : List (String × Spec)
  appliedAt : Option Nat
deriving DecidableEq

def readIntent (file : Option Document) : Intent :=
  match file with
  | some ⟨some 1, some revision, configuration, servers, appliedAt⟩ => ⟨revision, configuration, servers, appliedAt⟩
  | _ => ⟨0, none, [], none⟩

def isDigest (s : String) : Bool := s.length = 64 && s.toList.all fun c => c.isDigit || ('a' ≤ c && c ≤ 'f')

/-- `MAX_SERVERS` -/
def maxServers : Nat := 64

def validateIntent (request : ApplyRequest) : Except String (Option String × List (String × Spec)) := do
  let some given := request.servers | throw "intent needs a servers object"
  if maxServers < given.items.length then throw ("at most " ++ toString maxServers ++ " DHCP servers")
  let configuration ←
    match request.configuration with
    | .missing => pure none
    | .text s => if isDigest s then pure (some s) else throw "configuration must be a SHA-256 digest"
    | .other => throw "configuration must be a SHA-256 digest"
  let servers ← (given.items.insertionSort fun a b => a.1 ≤ b.1).mapM fun item => return (item.1, ← validateServer item.1 item.2)
  return (configuration, servers)

def admits (request : ApplyRequest) : Bool := request.keys.all fun key => key ∈ ["revision", "servers", "configuration"]

def prepare (current : Intent) (request : ApplyRequest) : Except String Document := do
  if request.revision ≠ some current.revision then throw "revision conflict; refresh status"
  let intent ← validateIntent request
  return ⟨some 1, some (current.revision + 1), intent.1, intent.2, some request.clock⟩

end Dhcp

namespace Protect

structure ApplyRequest where
  keys : List String
  revision : Option Int
  protect : Option (Dict String RawGateway)
  configuration : ConfigurationLabel
  clock : Nat

structure Intent where
  revision : Int
  configuration : ConfigurationLabel
  protect : Dict String Spec
  appliedAt : Option Nat
deriving DecidableEq

structure Document where
  revision : Option Int
  configuration : ConfigurationLabel
  protect : Dict String Spec
  appliedAt : Option Nat
deriving DecidableEq

def readIntent (file : Option Document) : Intent :=
  match file with
  | some ⟨some revision, configuration, protect, appliedAt⟩ => ⟨revision, configuration, protect, appliedAt⟩
  | _ => ⟨0, .missing, ∅, none⟩

def admits (request : ApplyRequest) : Bool := request.keys.all fun key => key ∈ ["revision", "protect", "configuration"]

def prepare (current : Intent) (request : ApplyRequest) : Except String Document := do
  if request.revision ≠ some current.revision then throw "revision conflict; refresh status"
  let some given := request.protect | throw "intent must carry a protect object"
  let protect ← validateIntent given
  return ⟨some (current.revision + 1), request.configuration, protect, some request.clock⟩

end Protect

/-! ### The two fences -/

namespace Revisions

section fences

theorem dhcp_prepare_ok {current : Dhcp.Intent} {request : Dhcp.ApplyRequest} {next : Dhcp.Document}
    (h : Dhcp.prepare current request = .ok next) :
    request.revision = some current.revision ∧ (Dhcp.readIntent (some next)).revision = current.revision + 1 := by
  unfold Dhcp.prepare at h
  dsimp only at h
  split at h
  · cases h
  · rename_i same
    obtain ⟨intent, -, h⟩ := bind_ok h
    cases h
    exact ⟨Decidable.not_not.mp same, rfl⟩

theorem protect_prepare_ok {current : Protect.Intent} {request : Protect.ApplyRequest} {next : Protect.Document}
    (h : Protect.prepare current request = .ok next) :
    request.revision = some current.revision ∧ (Protect.readIntent (some next)).revision = current.revision + 1 := by
  unfold Protect.prepare at h
  dsimp only at h
  split at h
  · cases h
  · rename_i same
    split at h
    · obtain ⟨protect, -, h⟩ := bind_ok h
      cases h
      exact ⟨Decidable.not_not.mp same, rfl⟩
    · cases h

variable {Piece : Type}

def dhcpFence (json : Codec Dhcp.Document Piece) : Fence Dhcp.Document Piece Dhcp.Intent Dhcp.ApplyRequest where
  toCodec := json
  read := Dhcp.readIntent
  revision := Dhcp.Intent.revision
  named := Dhcp.ApplyRequest.revision
  admits := Dhcp.admits
  prepare := Dhcp.prepare
  compared _ _ _ h := (dhcp_prepare_ok h).1
  counted _ _ _ h := (dhcp_prepare_ok h).2
  temporary _ := 0

def protectFence (json : Codec Protect.Document Piece) : Fence Protect.Document Piece Protect.Intent Protect.ApplyRequest where
  toCodec := json
  read := Protect.readIntent
  revision := Protect.Intent.revision
  named := Protect.ApplyRequest.revision
  admits := Protect.admits
  prepare := Protect.prepare
  compared _ _ _ h := (protect_prepare_ok h).1
  counted _ _ _ h := (protect_prepare_ok h).2
  temporary process := process

end fences

section runs

def oneWrite (Stored : Type) : Codec Stored Stored where
  pieces v := [v]
  parse
    | [v] => some v
    | _ => none
  whole _ := rfl

def emptyDhcp (revision : Int) : Dhcp.ApplyRequest := ⟨["revision", "servers"], some revision, some ∅, .missing, 0⟩

def emptyProtect (revision : Int) : Protect.ApplyRequest := ⟨["revision", "protect"], some revision, some ∅, .missing, 0⟩

/-- Two applies, one after the other, and a third that reads the file after both. -/
def oneByOne {Stored Piece Intent Request : Type} (request : Int → Request) :
    List (Threads.Act (Fence.Op Stored Piece Intent Request)) :=
  [.start 0 (.read (request 0)), .run 0, .run 0, .run 0, .run 0, .run 0, .run 0, .start 1 (.read (request 1)),
    .start 2 (.read (request 1)), .run 1,
    .run 1, .run 1, .run 1, .run 1, .run 1, .run 2, .run 2]

def inTurn {Stored Piece Intent Request : Type} (request : Int → Request) : List (Threads.Act (Fence.Op Stored Piece Intent Request)) :=
  [.start 0 (.read (request 0)), .start 1 (.read (request 0)), .run 0, .run 1, .run 0, .run 1, .run 0,
    .run 0, .run 0, .run 0, .run 1, .run 1,
    .run 1, .run 1]

def nothingWritten {Stored Piece Intent Request : Type} : Threads.Config (Fence.Disk Piece Request)
    (Fence.Op Stored Piece Intent Request) :=
  ⟨⟨none, fun _ => none, fun _ => [], 0, []⟩, fun _ => []⟩

theorem nothingWritten_fresh {Stored Piece Intent Request : Type} : Fence.Fresh (@nothingWritten Stored Piece Intent Request) :=
  ⟨fun _ => rfl, rfl, fun _ no => (nomatch no), fun _ _ no => (nomatch no), fun _ _ _ no => (nomatch no)⟩

theorem dhcp_oneByOne : (dhcpFence (oneWrite _)).machine.Along (dhcpFence (oneWrite _)).Meets nothingWritten (oneByOne emptyDhcp) := by
  refine ⟨trivial, trivial, trivial, trivial, fun no => (nomatch no), trivial, fun i found => ?_, trivial,
    trivial, trivial, trivial, trivial, fun no => (nomatch no), trivial,
    fun i found => ?_, trivial, trivial, trivial⟩
  · cases found
    exact ⟨rfl, rfl⟩
  · cases found
    exact ⟨rfl, rfl⟩

theorem protect_oneByOne :
    (protectFence (oneWrite _)).machine.Along (protectFence (oneWrite _)).Meets nothingWritten (oneByOne emptyProtect) := by
  refine ⟨trivial, trivial, trivial, trivial, fun no => (nomatch no), trivial, fun i found => ?_, trivial,
    trivial, trivial, trivial, trivial, fun no => (nomatch no), trivial,
    fun i found => ?_, trivial, trivial, trivial⟩
  · cases found
    exact ⟨rfl, rfl⟩
  · cases found
    exact ⟨rfl, rfl⟩

end runs

end Revisions

end FfnNgfw
