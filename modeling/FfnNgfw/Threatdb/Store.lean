import FfnNgfw.Lib.Bytes
import FfnNgfw.Lib.Dict
import FfnNgfw.Lib.Fallible
import FfnNgfw.Threatdb.Text

/-!
# The threat-intelligence store

The `samples` and `iocs` tables of `ThreatDB` as far as they are exported, and the ways
into them: `record_sample`, `record_ioc` and `ingest_feed`. A call that raises stores
nothing.
-/

namespace FfnNgfw.Threatdb

inductive Verdict where
  | unknown | benign | grayware | phishing | malware
  deriving DecidableEq

def Verdict.name : Verdict → Text
  | .unknown => "unknown".toList
  | .benign => "benign".toList
  | .grayware => "grayware".toList
  | .phishing => "phishing".toList
  | .malware => "malware".toList

def verdicts : List Verdict := [.unknown, .benign, .grayware, .phishing, .malware]

/-- The verdicts that `is_malicious_hash` and the export of samples go by. -/
def Verdict.malicious (v : Verdict) : Bool := v = .malware || v = .phishing

inductive IocType where
  | domain | dns | ip | url | tlsfp
  deriving DecidableEq

def IocType.name : IocType → Text
  | .domain => "domain".toList
  | .dns => "dns".toList
  | .ip => "ip".toList
  | .url => "url".toList
  | .tlsfp => "tlsfp".toList

def iocTypes : List IocType := [.domain, .dns, .ip, .url, .tlsfp]

def IocType.featureKind : IocType → UInt8
  | .url => 1
  | .domain | .dns => 2
  | .tlsfp => 3
  | .ip => 4

/-- The functions of the platform: those that need the Unicode database, and the
checksums. -/
structure Platform where
  lower : Text → Text
  decimal : Char → Option Nat
  crc32 : List UInt8 → Nat
  md5 : List UInt8 → List UInt8

def utf8 (s : Text) : List UInt8 := (String.ofList s).toUTF8.data.toList

structure Sample where
  verdict : Verdict
  threatName : Option Text
  deriving DecidableEq

structure Ioc where
  verdict : Verdict
  threatName : Option Text
  featHash : Nat
  deriving DecidableEq

structure Db where
  samples : Dict Text Sample
  iocs : Dict (IocType × Text) Ioc

def Db.empty : Db := ⟨∅, ∅⟩

section

variable (P : Platform)

def featureHash (t : IocType) (value : Text) : Nat := P.crc32 (t.featureKind :: utf8 value) % 2 ^ 32

def recordSample (db : Db) (sha256 verdict : Text) (threatName : Option Text) : Except String Db :=
  let sha256 := strip (P.lower sha256)
  if sha256.length ≠ 64 then throw "sha256 must be 64 hex chars"
  else
    match verdicts.find? (·.name = verdict) with
    | none => throw "bad verdict"
    | some verdict =>
      let old := (db.samples.lookup sha256).bind Sample.threatName
      return { db with samples := db.samples.assign sha256 ⟨verdict, threatName.or old⟩ }

def recordIoc (db : Db) (iocType value verdict : Text) (threatName : Option Text) : Except String Db :=
  match iocTypes.find? (·.name = iocType) with
  | none => throw "unknown ioc_type"
  | some t =>
    match verdicts.find? (·.name = verdict) with
    | none => throw "bad verdict"
    | some verdict =>
      let value := strip value
      let old := (db.iocs.lookup (t, value)).bind Ioc.threatName
      return { db with iocs := db.iocs.assign (t, value) ⟨verdict, threatName.or old, featureHash P t value⟩ }

/-! ### Feeds -/

def urlLine (line : Text) : Text × Text :=
  if '\t' ∈ line then
    match line.splitOn '\t' with
    | url :: cat :: _ => (url, strip cat)
    | _ => (line, "malware".toList)
  else
    match (line.dropWhile (!Policy.isSpace ·)) with
    | [] => (line, "malware".toList)
    | rest => (line.takeWhile (!Policy.isSpace ·), strip rest)

def isLowerHex (c : Char) : Bool := c ∈ "0123456789abcdef".toList

def spywareLine (db : Db) (line : Text) : Except String (Db × Bool) :=
  match fields line with
  | t :: v :: rest =>
    let t := P.lower t
    let threat := rest.head?
    if t = "domain".toList ∨ t = "dns".toList then do
      return (← recordIoc P db "domain".toList v "malware".toList threat, true)
    else if t = "ip".toList then do
      return (← recordIoc P db "ip".toList v "malware".toList threat, true)
    else if t = "hash".toList ∨ t = "sha256".toList then do
      return (← recordSample P db v "malware".toList threat, true)
    else return (db, false)
  | _ => return (db, false)

def ingestLine (db : Db) (kind line : Text) : Except String (Db × Bool) :=
  if kind = "malware_hashes".toList then
    let h := P.lower (firstField line)
    if h.length ≠ 64 ∨ h.any (!isLowerHex ·) then return (db, false)
    else do return (← recordSample P db h "malware".toList none, true)
  else if kind = "dns_blocklist".toList ∨ kind = "dns".toList then do
    return (← recordIoc P db "domain".toList (firstField line) "malware".toList none, true)
  else if kind = "blocklist".toList then do
    return (← recordIoc P db "ip".toList (firstField line) "malware".toList none, true)
  else if kind = "url".toList then do
    let (url, cat) := urlLine line
    let verdict := if isInfix "phish".toList (P.lower cat) then "phishing".toList else "malware".toList
    return (← recordIoc P db "url".toList url verdict none, true)
  else if kind = "tls_fingerprints".toList then do
    return (← recordIoc P db "tlsfp".toList (firstField line) "malware".toList none, true)
  else if kind = "spyware_iocs".toList then spywareLine P db line
  else throw "unknown feed kind"

def feedLine (kind : Text) (s : Db × Nat) (raw : Text) : Db × Nat :=
  let line := strip raw
  if line = [] || isComment line then s
  else
    match ingestLine P s.1 kind line with
    | .ok (db, true) => (db, s.2 + 1)
    | .ok (db, false) => (db, s.2)
    | .error _ => s

def ingestFeed (db : Db) (kind : Text) (lines : List Text) : Db × Nat := lines.foldl (feedLine P kind) (db, 0)

inductive Call where
  | recordSample (sha256 verdict : Text) (threatName : Option Text)
  | recordIoc (iocType value verdict : Text) (threatName : Option Text)
  | ingestFeed (kind : Text) (lines : List Text)

def call (db : Db) : Call → Db
  | .recordSample sha256 verdict threatName =>
    match recordSample P db sha256 verdict threatName with
    | .ok db => db
    | .error _ => db
  | .recordIoc iocType value verdict threatName =>
    match recordIoc P db iocType value verdict threatName with
    | .ok db => db
    | .error _ => db
  | .ingestFeed kind lines => (ingestFeed P db kind lines).1

def calls (cs : List Call) : Db := cs.foldl (call P) .empty

end

/-! ### What is stored -/

structure Stored (db : Db) : Prop where
  samples : ∀ sha s, db.samples.lookup sha = some s → sha.length = 64 ∧ strip sha = sha
  iocs : ∀ k i, db.iocs.lookup k = some i → strip k.2 = k.2

section

variable {P : Platform} {db db' : Db}

theorem recordSample_stored {sha256 verdict : Text} {threatName : Option Text} (h : Stored db)
    (ok : recordSample P db sha256 verdict threatName = .ok db') : Stored db' := by
  unfold recordSample at ok
  dsimp only at ok
  split at ok
  · cases ok
  · next long =>
    split at ok
    · cases ok
    · cases ok
      refine ⟨fun sha s found => ?_, h.iocs⟩
      rw [Dict.lookup_assign] at found
      split at found
      · next same => exact same ▸ ⟨not_not.mp long, strip_strip _⟩
      · exact h.samples sha s found

theorem recordIoc_stored {iocType value verdict : Text} {threatName : Option Text} (h : Stored db)
    (ok : recordIoc P db iocType value verdict threatName = .ok db') : Stored db' := by
  unfold recordIoc at ok
  split at ok
  · cases ok
  · split at ok
    · cases ok
    · cases ok
      refine ⟨h.samples, fun k i found => ?_⟩
      rw [Dict.lookup_assign] at found
      split at found
      · next same =>
        rw [same]
        exact strip_strip _
      · exact h.iocs k i found

theorem recorded_ok {x : Except String Db} {counted : Bool} (ok : (do return (← x, true)) = Except.ok (db', counted)) :
    x = .ok db' := by
  obtain ⟨_, found, same⟩ := bind_ok ok
  cases same
  exact found

theorem spywareLine_stored {line : Text} {counted : Bool} (h : Stored db)
    (ok : spywareLine P db line = .ok (db', counted)) : Stored db' := by
  unfold spywareLine at ok
  split at ok
  · dsimp only at ok
    split at ok
    · exact recordIoc_stored h (recorded_ok ok)
    split at ok
    · exact recordIoc_stored h (recorded_ok ok)
    split at ok
    · exact recordSample_stored h (recorded_ok ok)
    · cases ok
      exact h
  · cases ok
    exact h

theorem ingestLine_stored {kind line : Text} {counted : Bool} (h : Stored db)
    (ok : ingestLine P db kind line = .ok (db', counted)) : Stored db' := by
  unfold ingestLine at ok
  split at ok
  · dsimp only at ok
    split at ok
    · cases ok
      exact h
    · exact recordSample_stored h (recorded_ok ok)
  split at ok
  · exact recordIoc_stored h (recorded_ok ok)
  split at ok
  · exact recordIoc_stored h (recorded_ok ok)
  split at ok
  · exact recordIoc_stored h (recorded_ok ok)
  split at ok
  · exact recordIoc_stored h (recorded_ok ok)
  split at ok
  · exact spywareLine_stored h ok
  · cases ok

theorem feedLine_stored {kind raw : Text} {s : Db × Nat} (h : Stored s.1) : Stored (feedLine P kind s raw).1 := by
  unfold feedLine
  dsimp only
  split
  · exact h
  · split
    · next ok => exact ingestLine_stored h ok
    · next ok => exact ingestLine_stored h ok
    · exact h

theorem ingestFeed_stored (kind : Text) (lines : List Text) (h : Stored db) : Stored (ingestFeed P db kind lines).1 := by
  have fold : ∀ (lines : List Text) (s : Db × Nat), Stored s.1 → Stored (lines.foldl (feedLine P kind) s).1 := by
    intro lines
    induction lines with
    | nil => exact fun _ h => h
    | cons raw lines ih => exact fun s h => ih _ (feedLine_stored h)
  exact fold lines (db, 0) h

theorem call_stored (h : Stored db) (c : Call) : Stored (call P db c) := by
  cases c with
  | recordSample sha256 verdict threatName =>
    dsimp only [call]
    split
    · next ok => exact recordSample_stored h ok
    · exact h
  | recordIoc iocType value verdict threatName =>
    dsimp only [call]
    split
    · next ok => exact recordIoc_stored h ok
    · exact h
  | ingestFeed kind lines => exact ingestFeed_stored kind lines h

theorem calls_stored (P : Platform) (cs : List Call) : Stored (calls P cs) := by
  have fold : ∀ (cs : List Call) (db : Db), Stored db → Stored (cs.foldl (call P) db) := by
    intro cs
    induction cs with
    | nil => exact fun _ h => h
    | cons c cs ih => exact fun db h => ih _ (call_stored h c)
  exact fold cs .empty ⟨nofun, nofun⟩

end

end FfnNgfw.Threatdb
