import FfnNgfw.Lib.Reader
import FfnNgfw.Threatdb.Text

/-!
# The management-plane wire format

Frames between the management and the data plane. A table is a dictionary in the source; a field
that is not there is `none` here, and the readers give dictionaries with every field. An encoder
gives what it writes.
-/

namespace FfnNgfw.Mpdp
open Threatdb (Text strip)

abbrev Bytes := List UInt8

inductive Error where
  | badValue (what : String) (value : Int)
  | badName (what : String) (name : Text)
  | underrun (need off size : Nat)
  | badMagic (magic : Bytes)
  | unknownTag (tag : Int)
  | unicode
  deriving DecidableEq

inductive EnumArg where
  | value (v : Int)
  | name (s : Text)
  deriving DecidableEq

structure EnumClass where
  what : String
  names : List (Int × Text)

def dirs : EnumClass := ⟨"dir", [(0, "MP2DP".toList), (1, "DP2MP".toList)]⟩

def verdicts : EnumClass := ⟨"verdict", [(0, "BENIGN".toList), (1, "GRAYWARE".toList), (2, "MALWARE".toList)]⟩

def mlKinds : EnumClass := ⟨"kind", [(0, "XGBOOST".toList), (1, "NGRAM".toList)]⟩

/-! ### Tables -/

structure Signature where
  sid : Option Int := none
  name : Option String := none
  sigType : Option String := none
  hashType : Option String := none
  digest : Option Bytes := none
  hexPattern : Option String := none
  severity : Option Int := none
  verdict : Option EnumArg := none
  family : Option String := none

structure Ioc where
  kind : Option String := none
  value : Option String := none
  verdict : Option EnumArg := none

structure PolicyRow where
  vsys : Option Int := none
  proto : Option Int := none
  srcIp : Option String := none
  srcPort : Option Int := none
  dstIp : Option String := none
  dstPort : Option Int := none
  action : Option Int := none
  name : Option String := none

structure FlowKey where
  vsys : Option Int := none
  proto : Option Int := none
  srcIp : Option Int := none
  srcPort : Option Int := none
  dstIp : Option Int := none
  dstPort : Option Int := none

structure ThreatIntelUpdate where
  seq : Option Int := none
  adds : Option (List Signature) := none
  removes : Option (List Int) := none
  iocs : Option (List Ioc) := none

structure MlModelUpdate where
  version : Option Int := none
  kind : Option EnumArg := none
  treeBlob : Option Bytes := none
  ngramParams : Option Bytes := none
  featuresVersion : Option Int := none

structure SignatureVerdict where
  sid : Option Int := none
  sha256 : Option Bytes := none
  verdict : Option EnumArg := none
  ts : Option Int := none

structure PolicyUpdate where
  vsys : Option Int := none
  rows : Option (List PolicyRow) := none

structure EngineTelemetry where
  engine : Option String := none
  packets : Option Int := none
  matched : Option Int := none
  drops : Option Int := none
  mode : Option String := none

structure FlowEvent where
  vsys : Option Int := none
  key : Option FlowKey := none
  verdict : Option EnumArg := none
  bytes : Option Int := none

inductive Body where
  | threatIntelUpdate (m : ThreatIntelUpdate)
  | mlModelUpdate (m : MlModelUpdate)
  | signatureVerdict (m : SignatureVerdict)
  | policyUpdate (m : PolicyUpdate)
  | engineTelemetry (m : EngineTelemetry)
  | flowEvent (m : FlowEvent)

def Body.tag : Body → Int
  | .threatIntelUpdate _ => 1
  | .mlModelUpdate _ => 2
  | .signatureVerdict _ => 3
  | .policyUpdate _ => 4
  | .engineTelemetry _ => 5
  | .flowEvent _ => 6

/-- The names of `MpDpBodyTag`. -/
def Body.name : Body → String
  | .threatIntelUpdate _ => "ThreatIntelUpdate"
  | .mlModelUpdate _ => "MlModelUpdate"
  | .signatureVerdict _ => "SignatureVerdict"
  | .policyUpdate _ => "PolicyUpdate"
  | .engineTelemetry _ => "EngineTelemetry"
  | .flowEvent _ => "FlowEvent"

/-! ### Writing -/

/-- `_W.u8` to `_W.u64`: the value is cut to the width. -/
def word (size : Nat) (v : Int) : Bytes := ByteOrder.little.toBytes size (v % 256 ^ size).toNat

def u8 (v : Int) : Bytes := word 1 v
def u16 (v : Int) : Bytes := word 2 v
def u32 (v : Int) : Bytes := word 4 v
def u64 (v : Int) : Bytes := word 8 v

def blob (data : Bytes) : Bytes := u32 data.length ++ data

def utf8 (text : String) : Bytes := text.toByteArray.data.toList

/-- `_W.s` -/
def str (text : String) : Bytes := blob (utf8 text)

section

-- `str.upper` of the Unicode database.
variable (upper : Text → Text)

/-- `_enum_val` -/
def enumVal (cls : EnumClass) : EnumArg → Except Error Int
  | .value v => if v ∈ cls.names.map Prod.fst then .ok v else .error (.badValue cls.what v)
  | .name s =>
    match cls.names.find? (·.2 = upper (strip s)) with
    | some (v, _) => .ok v
    | none => .error (.badName cls.what s)

def enumField (cls : EnumClass) (arg : Option EnumArg) : Except Error Bytes := (enumVal upper cls (arg.getD (.value 0))).map u8

def encSignature (sig : Signature) : Except Error Bytes := do
  let verdict ← enumField upper verdicts sig.verdict
  return [u32 (sig.sid.getD 0), str (sig.name.getD ""), str (sig.sigType.getD ""), str (sig.hashType.getD ""), blob (sig.digest.getD []),
    str (sig.hexPattern.getD ""), u8 (sig.severity.getD 0), verdict, str (sig.family.getD "")].flatten

def encIoc (ioc : Ioc) : Except Error Bytes := do
  let verdict ← enumField upper verdicts ioc.verdict
  return [str (ioc.kind.getD ""), str (ioc.value.getD ""), verdict].flatten

def encPolicyRow (row : PolicyRow) : Bytes :=
  [u8 (row.vsys.getD 0), u8 (row.proto.getD 0), str (row.srcIp.getD "any"), u16 (row.srcPort.getD 0), str (row.dstIp.getD "any"),
    u16 (row.dstPort.getD 0), u8 (row.action.getD 0), str (row.name.getD "")].flatten

def encFlowKey (key : FlowKey) : Bytes :=
  [u8 (key.vsys.getD 0), u8 (key.proto.getD 0), u32 (key.srcIp.getD 0), u16 (key.srcPort.getD 0), u32 (key.dstIp.getD 0),
    u16 (key.dstPort.getD 0)].flatten

def encVec {α : Type} (enc : α → Except Error Bytes) (items : Option (List α)) : Except Error Bytes := do
  let parts ← (items.getD []).mapM enc
  return [u32 (items.getD []).length, parts.flatten].flatten

def encThreatIntel (m : ThreatIntelUpdate) : Except Error Bytes := do
  let adds ← encVec (encSignature upper) m.adds
  let iocs ← encVec (encIoc upper) m.iocs
  return [u32 (m.seq.getD 0), adds, u32 (m.removes.getD []).length, (m.removes.getD []).flatMap u32, iocs].flatten

def encMlModel (m : MlModelUpdate) : Except Error Bytes := do
  let kind ← enumField upper mlKinds m.kind
  return [u32 (m.version.getD 0), kind, blob (m.treeBlob.getD []), blob (m.ngramParams.getD []), u32 (m.featuresVersion.getD 0)].flatten

def encSigVerdict (m : SignatureVerdict) : Except Error Bytes := do
  let verdict ← enumField upper verdicts m.verdict
  return [u32 (m.sid.getD 0), blob (m.sha256.getD []), verdict, u64 (m.ts.getD 0)].flatten

def encPolicyUpdate (m : PolicyUpdate) : Except Error Bytes := do
  let rows ← encVec (fun row => .ok (encPolicyRow row)) m.rows
  return [u32 (m.vsys.getD 0), rows].flatten

def encEngineTelemetry (m : EngineTelemetry) : Bytes :=
  [str (m.engine.getD ""), u64 (m.packets.getD 0), u64 (m.matched.getD 0), u64 (m.drops.getD 0), str (m.mode.getD "")].flatten

def encFlowEvent (m : FlowEvent) : Except Error Bytes := do
  let verdict ← enumField upper verdicts m.verdict
  return [u32 (m.vsys.getD 0), encFlowKey (m.key.getD {}), verdict, u64 (m.bytes.getD 0)].flatten

/-- The encoder of `_BODY_CODECS`. -/
def encBody : Body → Except Error Bytes
  | .threatIntelUpdate m => encThreatIntel upper m
  | .mlModelUpdate m => encMlModel upper m
  | .signatureVerdict m => encSigVerdict upper m
  | .policyUpdate m => encPolicyUpdate m
  | .engineTelemetry m => .ok (encEngineTelemetry m)
  | .flowEvent m => encFlowEvent upper m

def magic : Bytes := [0x46, 0x4D, 0x44, 0x50]

def buildMessage (body : Body) (direction : EnumArg) (ver : Int) : Except Error Bytes := do
  let raw ← encBody upper body
  let dir ← enumVal upper dirs direction
  return [magic, u32 ver, u8 dir, u8 body.tag, u32 raw.length, raw].flatten

end

/-! ### Reading -/

abbrev R := Reader Error

def take (size : Nat) : R Bytes := Reader.take .underrun size

def wordR (size : Nat) : R Int := (fun raw => (ByteOrder.little.fromBytes raw : Int)) <$> take size

def u8R : R Int := wordR 1
def u16R : R Int := wordR 2
def u32R : R Int := wordR 4
def u64R : R Int := wordR 8

def blobR : R Bytes := do
  let size ← u32R
  take size.toNat

/-- `_R.s` -/
def strR : R String := do
  let raw ← blobR
  match String.fromUTF8? ⟨raw.toArray⟩ with
  | some text => pure text
  | none => throw .unicode

def decSignature : R Signature := do
  let sid ← u32R
  let name ← strR
  let sigType ← strR
  let hashType ← strR
  let digest ← blobR
  let hexPattern ← strR
  let severity ← u8R
  let verdict ← u8R
  let family ← strR
  return ⟨some sid, some name, some sigType, some hashType, some digest, some hexPattern, some severity,
    some (.value verdict), some family⟩

def decIoc : R Ioc := do
  let kind ← strR
  let value ← strR
  let verdict ← u8R
  return ⟨some kind, some value, some (.value verdict)⟩

def decPolicyRow : R PolicyRow := do
  let vsys ← u8R
  let proto ← u8R
  let srcIp ← strR
  let srcPort ← u16R
  let dstIp ← strR
  let dstPort ← u16R
  let action ← u8R
  let name ← strR
  return ⟨some vsys, some proto, some srcIp, some srcPort, some dstIp, some dstPort, some action, some name⟩

def decFlowKey : R FlowKey := do
  let vsys ← u8R
  let proto ← u8R
  let srcIp ← u32R
  let srcPort ← u16R
  let dstIp ← u32R
  let dstPort ← u16R
  return ⟨some vsys, some proto, some srcIp, some srcPort, some dstIp, some dstPort⟩

def decVec {α : Type} (dec : R α) : R (List α) := do
  let n ← u32R
  dec.times n.toNat

def decThreatIntel : R ThreatIntelUpdate := do
  let seq ← u32R
  let adds ← decVec decSignature
  let n ← u32R
  let removes ← u32R.times n.toNat
  let iocs ← decVec decIoc
  return ⟨some seq, some adds, some removes, some iocs⟩

def decMlModel : R MlModelUpdate := do
  let version ← u32R
  let kind ← u8R
  let treeBlob ← blobR
  let ngramParams ← blobR
  let featuresVersion ← u32R
  return ⟨some version, some (.value kind), some treeBlob, some ngramParams, some featuresVersion⟩

def decSigVerdict : R SignatureVerdict := do
  let sid ← u32R
  let sha256 ← blobR
  let verdict ← u8R
  let ts ← u64R
  return ⟨some sid, some sha256, some (.value verdict), some ts⟩

def decPolicyUpdate : R PolicyUpdate := do
  let vsys ← u32R
  let rows ← decVec decPolicyRow
  return ⟨some vsys, some rows⟩

def decEngineTelemetry : R EngineTelemetry := do
  let engine ← strR
  let packets ← u64R
  let matched ← u64R
  let drops ← u64R
  let mode ← strR
  return ⟨some engine, some packets, some matched, some drops, some mode⟩

def decFlowEvent : R FlowEvent := do
  let vsys ← u32R
  let key ← decFlowKey
  let verdict ← u8R
  let bytes ← u64R
  return ⟨some vsys, some key, some (.value verdict), some bytes⟩

/-- The decoder of `_BODY_CODECS`. -/
def decBody (tag : Int) : Option (R Body) :=
  if tag = 1 then some (.threatIntelUpdate <$> decThreatIntel)
  else if tag = 2 then some (.mlModelUpdate <$> decMlModel)
  else if tag = 3 then some (.signatureVerdict <$> decSigVerdict)
  else if tag = 4 then some (.policyUpdate <$> decPolicyUpdate)
  else if tag = 5 then some (.engineTelemetry <$> decEngineTelemetry)
  else if tag = 6 then some (.flowEvent <$> decFlowEvent)
  else none

structure Message where
  ver : Int
  dir : Int
  dirName : Text
  bodyType : Option String
  bodyTag : Int
  body : Option Body

def dirName (dir : Int) : Text := ((dirs.names.find? (·.1 = dir)).map Prod.snd).getD "?".toList

/-- What is before the body: the version, the direction, the tag and the size of the body. -/
def headerR : R (Int × Int × Int × Int) := do
  let start ← take 4
  if start ≠ magic then throw (.badMagic start)
  let ver ← u32R
  let direction ← u8R
  let tag ← u8R
  let size ← u32R
  return (ver, direction, tag, size)

/-- `parse` from where the bytes of the body are taken. -/
def decode (ver direction tag : Int) (raw : Bytes) : Except Error Message :=
  if tag = 0 then .ok ⟨ver, direction, dirName direction, none, 0, none⟩
  else
    match decBody tag with
    | none => .error (.unknownTag tag)
    | some dec => (dec ⟨raw, 0⟩).map fun (body, _) => ⟨ver, direction, dirName direction, some body.name, tag, some body⟩

def parse (buf : Bytes) : Except Error Message := do
  let ((ver, direction, tag, size), c) ← headerR ⟨buf, 0⟩
  let (raw, _) ← take size.toNat c
  decode ver direction tag raw

end FfnNgfw.Mpdp
