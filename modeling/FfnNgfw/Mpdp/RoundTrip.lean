import FfnNgfw.Mpdp.Wire
import FfnNgfw.Lib.Fallible

/-!
# Frames are read back

Length fields have 32 bits and a longer length is cut, so a frame is read back exactly if its body
takes less than 4 GiB: every vector and blob in it is then shorter as well.
-/

namespace FfnNgfw.Mpdp
open Threatdb (Text)
open Reader (Reads)

def limit : Nat := 2 ^ 32

theorem word_length (size : Nat) (v : Int) : (word size v).length = size := ByteOrder.toBytes_length _ _ _

def Fits (size : Nat) (v : Option Int) : Prop := ∀ n ∈ v, 0 ≤ n ∧ n < 256 ^ size

theorem reads_word {size : Nat} {v : Int} (low : 0 ≤ v) (high : v < 256 ^ size) : Reads limit (wordR size) (word size v) v := by
  have same : ((ByteOrder.little.fromBytes (word size v) : Nat) : Int) = v := by
    unfold word
    rw [Int.emod_eq_of_lt low high, ByteOrder.fromBytes_toBytes]
    · exact Int.toNat_of_nonneg low
    · zify
      rw [Int.toNat_of_nonneg low]
      exact high
  have read := (@Reader.reads_take _ limit Error.underrun (word size v)).map (g := fun raw => (ByteOrder.little.fromBytes raw : Int))
  rw [word_length, same] at read
  exact read

theorem reads_field {size : Nat} {v : Option Int} (fits : Fits size v) : Reads limit (wordR size) (word size (v.getD 0)) (v.getD 0) := by
  cases v with
  | none => exact reads_word (Int.le_refl 0) (by positivity)
  | some n => exact reads_word (fits n rfl).1 (fits n rfl).2

theorem reads_length {α : Type} {n : Nat} {f : Int → R α} {more : Bytes} {a : α} (bound : n ≤ more.length)
    (second : Reads limit (f n) more a) :
    Reads limit (u32R >>= f) (u32 n ++ more) a := by
  intro fits
  rw [List.length_append] at fits
  have small : n < 2 ^ 32 := by
    have := fits
    unfold limit at this
    omega
  have first : Reads limit u32R (u32 n) n := reads_word (Int.natCast_nonneg n) (by norm_num; exact_mod_cast small)
  exact first.bind second (by rw [List.length_append]; exact fits)

theorem reads_blob (data : Bytes) : Reads limit blobR (blob data) data :=
  reads_length (Nat.le_refl _) (Reader.reads_take data)

theorem fromUTF8_utf8 (text : String) : String.fromUTF8? ⟨(utf8 text).toArray⟩ = some text := by
  have same : (⟨(utf8 text).toArray⟩ : ByteArray) = text.toByteArray := by simp [utf8]
  rw [same, String.fromUTF8?, dif_pos text.isValidUTF8]
  rfl

theorem reads_str (text : String) : Reads limit strR (str text) text := by
  rw [← List.append_nil (str text)]
  refine (reads_blob (utf8 text)).bind ?_
  rw [fromUTF8_utf8]
  exact .pure text

/-! ### Sizes -/

def strSize (text : Option String) (default : String) : Nat := 4 + (text.getD default).utf8ByteSize

def blobSize (data : Option Bytes) : Nat := 4 + (data.getD []).length

def vecSize {α : Type} (size : α → Nat) (items : Option (List α)) : Nat := 4 + ((items.getD []).map size).sum

theorem blob_length (data : Option Bytes) : (blob (data.getD [])).length = blobSize data := by
  rw [blob, List.length_append, u32, word_length, blobSize]

theorem str_length (text : Option String) (default : String) : (str (text.getD default)).length = strSize text default := by
  rw [str, blob, List.length_append, u32, word_length, strSize]
  rfl

def Signature.size (sig : Signature) : Nat :=
  4 + strSize sig.name "" + strSize sig.sigType "" + strSize sig.hashType "" + blobSize sig.digest + strSize sig.hexPattern "" + 1 + 1 +
    strSize sig.family ""

def Ioc.size (ioc : Ioc) : Nat := strSize ioc.kind "" + strSize ioc.value "" + 1

def PolicyRow.size (row : PolicyRow) : Nat := 1 + 1 + strSize row.srcIp "any" + 2 + strSize row.dstIp "any" + 2 + 1 + strSize row.name ""

def ThreatIntelUpdate.size (m : ThreatIntelUpdate) : Nat :=
  4 + vecSize Signature.size m.adds + vecSize (fun _ => 4) m.removes + vecSize Ioc.size m.iocs

def Body.size : Body → Nat
  | .threatIntelUpdate m => m.size
  | .mlModelUpdate m => 4 + 1 + blobSize m.treeBlob + blobSize m.ngramParams + 4
  | .signatureVerdict m => 4 + blobSize m.sha256 + 1 + 8
  | .policyUpdate m => 4 + vecSize PolicyRow.size m.rows
  | .engineTelemetry m => strSize m.engine "" + 8 + 8 + 8 + strSize m.mode ""
  | .flowEvent _ => 4 + 14 + 1 + 8

/-! ### Bodies with all their fields -/

section

variable (upper : Text → Text)

def ValidEnum (cls : EnumClass) (arg : Option EnumArg) : Prop := ∃ v, enumVal upper cls (arg.getD (.value 0)) = .ok v

def enumOf (cls : EnumClass) (arg : Option EnumArg) : Int := ((enumVal upper cls (arg.getD (.value 0))).toOption).getD 0

def filledEnum (cls : EnumClass) (arg : Option EnumArg) : Option EnumArg := some (.value (enumOf upper cls arg))

def Signature.filled (sig : Signature) : Signature :=
  ⟨some (sig.sid.getD 0), some (sig.name.getD ""), some (sig.sigType.getD ""), some (sig.hashType.getD ""), some (sig.digest.getD []),
    some (sig.hexPattern.getD ""), some (sig.severity.getD 0), filledEnum upper verdicts sig.verdict, some (sig.family.getD "")⟩

def Ioc.filled (ioc : Ioc) : Ioc := ⟨some (ioc.kind.getD ""), some (ioc.value.getD ""), filledEnum upper verdicts ioc.verdict⟩

def PolicyRow.filled (row : PolicyRow) : PolicyRow :=
  ⟨some (row.vsys.getD 0), some (row.proto.getD 0), some (row.srcIp.getD "any"), some (row.srcPort.getD 0), some (row.dstIp.getD "any"),
    some (row.dstPort.getD 0), some (row.action.getD 0), some (row.name.getD "")⟩

def FlowKey.filled (key : FlowKey) : FlowKey :=
  ⟨some (key.vsys.getD 0), some (key.proto.getD 0), some (key.srcIp.getD 0), some (key.srcPort.getD 0), some (key.dstIp.getD 0),
    some (key.dstPort.getD 0)⟩

/-- A missing field has its default, and an enumeration its value. -/
def Body.filled : Body → Body
  | .threatIntelUpdate m => .threatIntelUpdate
    ⟨some (m.seq.getD 0), some ((m.adds.getD []).map (Signature.filled upper)), some (m.removes.getD []),
      some ((m.iocs.getD []).map (Ioc.filled upper))⟩
  | .mlModelUpdate m => .mlModelUpdate
    ⟨some (m.version.getD 0), filledEnum upper mlKinds m.kind, some (m.treeBlob.getD []), some (m.ngramParams.getD []),
      some (m.featuresVersion.getD 0)⟩
  | .signatureVerdict m => .signatureVerdict
    ⟨some (m.sid.getD 0), some (m.sha256.getD []), filledEnum upper verdicts m.verdict, some (m.ts.getD 0)⟩
  | .policyUpdate m => .policyUpdate ⟨some (m.vsys.getD 0), some ((m.rows.getD []).map PolicyRow.filled)⟩
  | .engineTelemetry m => .engineTelemetry
    ⟨some (m.engine.getD ""), some (m.packets.getD 0), some (m.matched.getD 0), some (m.drops.getD 0), some (m.mode.getD "")⟩
  | .flowEvent m => .flowEvent
    ⟨some (m.vsys.getD 0), some (m.key.getD {}).filled, filledEnum upper verdicts m.verdict, some (m.bytes.getD 0)⟩

structure Signature.Valid (sig : Signature) : Prop where
  sid : Fits 4 sig.sid
  severity : Fits 1 sig.severity
  verdict : ValidEnum upper verdicts sig.verdict

structure PolicyRow.Valid (row : PolicyRow) : Prop where
  vsys : Fits 1 row.vsys
  proto : Fits 1 row.proto
  srcPort : Fits 2 row.srcPort
  dstPort : Fits 2 row.dstPort
  action : Fits 1 row.action

structure FlowKey.Valid (key : FlowKey) : Prop where
  vsys : Fits 1 key.vsys
  proto : Fits 1 key.proto
  srcIp : Fits 4 key.srcIp
  srcPort : Fits 2 key.srcPort
  dstIp : Fits 4 key.dstIp
  dstPort : Fits 2 key.dstPort

def Body.Valid : Body → Prop
  | .threatIntelUpdate m => Fits 4 m.seq ∧ (∀ sig ∈ m.adds.getD [], Signature.Valid upper sig) ∧
      (∀ sid ∈ m.removes.getD [], Fits 4 (some sid)) ∧
    ∀ ioc ∈ m.iocs.getD [], ValidEnum upper verdicts ioc.verdict
  | .mlModelUpdate m => Fits 4 m.version ∧ ValidEnum upper mlKinds m.kind ∧ Fits 4 m.featuresVersion
  | .signatureVerdict m => Fits 4 m.sid ∧ ValidEnum upper verdicts m.verdict ∧ Fits 8 m.ts
  | .policyUpdate m => Fits 4 m.vsys ∧ ∀ row ∈ m.rows.getD [], row.Valid
  | .engineTelemetry m => Fits 8 m.packets ∧ Fits 8 m.matched ∧ Fits 8 m.drops
  | .flowEvent m => Fits 4 m.vsys ∧ (m.key.getD {}).Valid ∧ ValidEnum upper verdicts m.verdict ∧ Fits 8 m.bytes

end

/-! ### Tables -/

/-- What is written has this size and is read back as `a`. -/
def Codes {α : Type} (written : Except Error Bytes) (dec : R α) (size : Nat) (a : α) : Prop :=
  ∃ raw, written = .ok raw ∧ raw.length = size ∧ Reads limit dec raw a

section

variable {upper : Text → Text}

theorem enumVal_small {cls : EnumClass} (small : ∀ p ∈ cls.names, 0 ≤ p.1 ∧ p.1 < 256) {arg : EnumArg}
    {v : Int} (h : enumVal upper cls arg = .ok v) :
    0 ≤ v ∧ v < 256 := by
  cases arg with
  | value n =>
    simp only [enumVal] at h
    split at h
    · rename_i known
      cases h
      obtain ⟨p, member, rfl⟩ := List.mem_map.mp known
      exact small p member
    · cases h
  | name s =>
    simp only [enumVal] at h
    split at h
    · rename_i v' name found
      cases h
      exact small _ (List.mem_of_find?_eq_some found)
    · cases h

theorem codes_enum {cls : EnumClass} (small : ∀ p ∈ cls.names, 0 ≤ p.1 ∧ p.1 < 256) {arg : Option EnumArg}
    (valid : ValidEnum upper cls arg) :
    Codes (enumField upper cls arg) u8R 1 (enumOf upper cls arg) := by
  obtain ⟨v, known⟩ := valid
  have value : enumOf upper cls arg = v := by rw [enumOf, known]; rfl
  obtain ⟨low, high⟩ := enumVal_small small known
  refine ⟨u8 v, by rw [enumField, known]; rfl, word_length 1 v, ?_⟩
  rw [value]
  exact reads_word low high

theorem codes_verdict {arg : Option EnumArg} (valid : ValidEnum upper verdicts arg) :
    Codes (enumField upper verdicts arg) u8R 1 (enumOf upper verdicts arg) := codes_enum (by decide) valid

theorem codes_vec {α : Type} {enc : α → Except Error Bytes} {dec : R α} {size : α → Nat} {filled : α → α} (positive : ∀ x, 0 < size x)
    {items : Option (List α)} (each : ∀ x ∈ items.getD [], Codes (enc x) dec (size x) (filled x)) :
    Codes (encVec enc items) (decVec dec) (vecSize size items) ((items.getD []).map filled) := by
  unfold encVec vecSize
  generalize items.getD [] = xs at each ⊢
  have all : ∃ parts, xs.mapM enc = .ok parts ∧ parts.flatten.length = (xs.map size).sum ∧
      List.Forall₂ (Reads limit dec) parts (xs.map filled) := by
    induction xs with
    | nil => exact ⟨[], rfl, rfl, .nil⟩
    | cons x xs ih =>
      obtain ⟨⟨raw, written, length, read⟩, each⟩ := List.forall_mem_cons.mp each
      obtain ⟨parts, rest, total, reads⟩ := ih each
      refine ⟨raw :: parts, by rw [List.mapM_cons, written, rest]; rfl, ?_, .cons read reads⟩
      rw [List.flatten_cons, List.length_append, length, total, List.map_cons, List.sum_cons]
  obtain ⟨parts, written, total, reads⟩ := all
  have count : xs.length ≤ parts.flatten.length := by
    rw [total]
    clear each written total reads
    induction xs with
    | nil => exact Nat.le_refl 0
    | cons x xs ih =>
      have := positive x
      simp only [List.length_cons, List.map_cons, List.sum_cons]
      omega
  refine ⟨[u32 xs.length, parts.flatten].flatten, by rw [written]; rfl, ?_, ?_⟩
  · simp only [List.flatten_cons, List.flatten_nil, List.append_nil, List.length_append, u32, word_length, total]
  · simp only [List.flatten_cons, List.flatten_nil, List.append_nil]
    have read := Reader.reads_times reads
    rw [List.length_map] at read
    exact reads_length count (by rw [Int.toNat_natCast]; exact read)

theorem codes_signature {sig : Signature} (valid : sig.Valid upper) :
    Codes (encSignature upper sig) decSignature sig.size (sig.filled upper) := by
  obtain ⟨verdict, written, length, read⟩ := codes_verdict valid.verdict
  refine ⟨_, by rw [encSignature, written]; rfl, ?_, ?_⟩
  · simp only [List.flatten_cons, List.flatten_nil, List.append_nil, List.length_append, str_length,
      blob_length, u32, u8, word_length, length, Signature.size]
    omega
  · exact (reads_field valid.sid).next <| (reads_str _).next <| (reads_str _).next <| (reads_str _).next <| (reads_blob _).next <|
      (reads_str _).next <| (reads_field valid.severity).next <| read.next <| (reads_str _).next <| .pure _

theorem codes_ioc {ioc : Ioc} (valid : ValidEnum upper verdicts ioc.verdict) :
    Codes (encIoc upper ioc) decIoc ioc.size (ioc.filled upper) := by
  obtain ⟨verdict, written, length, read⟩ := codes_verdict valid
  refine ⟨_, by rw [encIoc, written]; rfl, ?_, ?_⟩
  · simp only [List.flatten_cons, List.flatten_nil, List.append_nil, List.length_append, str_length, length, Ioc.size]
    omega
  · exact (reads_str _).next <| (reads_str _).next <| read.next <| .pure _

theorem codes_policyRow {row : PolicyRow} (valid : row.Valid) : Codes (.ok (encPolicyRow row)) decPolicyRow row.size row.filled := by
  refine ⟨_, rfl, ?_, ?_⟩
  · simp only [encPolicyRow, List.flatten_cons, List.flatten_nil, List.append_nil, List.length_append,
      str_length, u8, u16, word_length, PolicyRow.size]
    omega
  · exact (reads_field valid.vsys).next <| (reads_field valid.proto).next <| (reads_str _).next <| (reads_field valid.srcPort).next <|
      (reads_str _).next <| (reads_field valid.dstPort).next <| (reads_field valid.action).next <| (reads_str _).next <| .pure _

theorem encFlowKey_length (key : FlowKey) : (encFlowKey key).length = 14 := by
  simp only [encFlowKey, List.flatten_cons, List.flatten_nil, List.append_nil, List.length_append, u8, u16, u32, word_length]

theorem reads_flowKey {key : FlowKey} (valid : key.Valid) : Reads limit decFlowKey (encFlowKey key) key.filled :=
  (reads_field valid.vsys).next <| (reads_field valid.proto).next <| (reads_field valid.srcIp).next <|
    (reads_field valid.srcPort).next <|
    (reads_field valid.dstIp).next <| (reads_field valid.dstPort).next <| .pure _

theorem codes_threatIntel {m : ThreatIntelUpdate} (valid : (Body.threatIntelUpdate m).Valid upper) :
    Codes (encThreatIntel upper m) (.threatIntelUpdate <$> decThreatIntel) m.size ((Body.threatIntelUpdate m).filled upper) := by
  obtain ⟨seq, adds, removes, iocs⟩ := valid
  obtain ⟨added, written, length, read⟩ := codes_vec (fun sig => by unfold Signature.size; omega) fun sig member =>
      codes_signature (adds sig member)
  obtain ⟨listed, written', length', read'⟩ := codes_vec (fun ioc => by unfold Ioc.size; omega) fun ioc member =>
      codes_ioc (iocs ioc member)
  obtain ⟨gone, given, length'', read''⟩ := @codes_vec Int (fun sid => .ok (u32 sid)) u32R (fun _ => 4) id (fun _ => by omega) m.removes
    fun sid member => ⟨u32 sid, rfl, word_length 4 sid, reads_field (removes sid member)⟩
  have same : gone = [u32 (m.removes.getD []).length, (m.removes.getD []).flatMap u32].flatten := by
    have parts : (m.removes.getD []).mapM (fun sid => (.ok (u32 sid) : Except Error Bytes)) = .ok ((m.removes.getD []).map u32) := by
      exact List.mapM_pure
    rw [encVec, parts] at given
    exact (Except.ok.inj given).symm.trans (by simp [List.flatMap_def])
  have whole : encThreatIntel upper m = .ok [u32 (m.seq.getD 0), added, gone, listed].flatten := by
    rw [encThreatIntel, written, written', same]
    simp [bind, Except.bind, pure, Except.pure]
  refine ⟨_, whole, ?_, Reader.Reads.map ?_⟩
  · have length : added.length = vecSize Signature.size m.adds := length
    have length' : listed.length = vecSize Ioc.size m.iocs := length'
    simp only [List.flatten_cons, List.flatten_nil, List.append_nil, List.length_append, u32, word_length,
      length, length', length'', ThreatIntelUpdate.size]
    omega
  · have read'' : Reads limit (decVec u32R) gone (m.removes.getD []) := by rw [List.map_id] at read''; exact read''
    have order : decThreatIntel = (do
        let seq ← u32R
        let adds ← decVec decSignature
        let removes ← decVec u32R
        let iocs ← decVec decIoc
        return ⟨some seq, some adds, some removes, some iocs⟩) := by
      simp only [decThreatIntel, decVec, bind_assoc]
    rw [order]
    exact (reads_field seq).next <| read.next <| read''.next <| read'.next <| .pure _

variable {body : Body} {dir ver : Int} {direction : EnumArg}

theorem codes_body (valid : body.Valid upper) :
    ∃ dec, decBody body.tag = some dec ∧ Codes (encBody upper body) dec body.size (body.filled upper) := by
  cases body with
  | threatIntelUpdate m => exact ⟨_, rfl, codes_threatIntel valid⟩
  | mlModelUpdate m =>
    obtain ⟨version, kind, features⟩ := valid
    obtain ⟨raw, written, length, read⟩ := codes_enum (by decide) kind
    refine ⟨_, rfl, _, by rw [encBody, encMlModel, written]; rfl, ?_, Reader.Reads.map ?_⟩
    · simp only [List.flatten_cons, List.flatten_nil, List.append_nil, List.length_append, blob_length,
        u32, word_length, length, Body.size]
      omega
    · exact (reads_field version).next <| read.next <| (reads_blob _).next <| (reads_blob _).next <|
        (reads_field features).next <| .pure _
  | signatureVerdict m =>
    obtain ⟨sid, verdict, ts⟩ := valid
    obtain ⟨raw, written, length, read⟩ := codes_verdict verdict
    refine ⟨_, rfl, _, by rw [encBody, encSigVerdict, written]; rfl, ?_, Reader.Reads.map ?_⟩
    · simp only [List.flatten_cons, List.flatten_nil, List.append_nil, List.length_append, blob_length,
        u32, u64, word_length, length, Body.size]
      omega
    · exact (reads_field sid).next <| (reads_blob _).next <| read.next <| (reads_field ts).next <| .pure _
  | policyUpdate m =>
    obtain ⟨vsys, rows⟩ := valid
    obtain ⟨raw, written, length, read⟩ := codes_vec (fun row => by unfold PolicyRow.size; omega) fun row member =>
        codes_policyRow (rows row member)
    refine ⟨_, rfl, _, by rw [encBody, encPolicyUpdate, written]; rfl, ?_, Reader.Reads.map ?_⟩
    · simp only [List.flatten_cons, List.flatten_nil, List.append_nil, List.length_append, u32, word_length, length, Body.size]
    · exact (reads_field vsys).next <| read.next <| .pure _
  | engineTelemetry m =>
    obtain ⟨packets, matched, drops⟩ := valid
    refine ⟨_, rfl, _, rfl, ?_, Reader.Reads.map ?_⟩
    · simp only [encEngineTelemetry, List.flatten_cons, List.flatten_nil, List.append_nil, List.length_append,
        str_length, u64, word_length, Body.size]
      omega
    · exact (reads_str _).next <| (reads_field packets).next <| (reads_field matched).next <|
        (reads_field drops).next <| (reads_str _).next <| .pure _
  | flowEvent m =>
    obtain ⟨vsys, key, verdict, bytes⟩ := valid
    obtain ⟨raw, written, length, read⟩ := codes_verdict verdict
    refine ⟨_, rfl, _, by rw [encBody, encFlowEvent, written]; rfl, ?_, Reader.Reads.map ?_⟩
    · simp only [List.flatten_cons, List.flatten_nil, List.append_nil, List.length_append, encFlowKey_length,
        u32, u64, word_length, length, Body.size]
    · exact (reads_field vsys).next <| (reads_flowKey key).next <| read.next <| (reads_field bytes).next <| .pure _

/-! ### Frames -/

def header (ver dir tag size : Int) : Bytes := [magic, u32 ver, u8 dir, u8 tag, u32 size].flatten

theorem header_length (ver dir tag size : Int) : (header ver dir tag size).length = 14 := by
  simp only [header, magic, List.flatten_cons, List.flatten_nil, List.append_nil, List.length_append, u8, u32, word_length]
  rfl

theorem buildMessage_ok {raw : Bytes} (written : encBody upper body = .ok raw)
    (known : enumVal upper dirs direction = .ok dir) :
    buildMessage upper body direction ver = .ok (header ver dir body.tag raw.length ++ raw) := by
  rw [buildMessage, written]
  show (enumVal upper dirs direction >>= _) = _
  rw [known]
  show Except.ok _ = Except.ok _
  simp [header]

theorem consumes_word (size : Nat) : Reader.Consumes (wordR size) size := (Reader.consumes_take _ size).map

theorem consumes_header : Reader.Consumes headerR (4 + (4 + (1 + (1 + (4 + 0))))) := by
  refine (Reader.consumes_take _ 4).bind fun start => ?_
  split
  · exact fun _ _ _ h => nomatch h
  · exact (consumes_word 4).bind fun ver => (consumes_word 1).bind fun dir => (consumes_word 1).bind fun tag =>
      (consumes_word 4).bind fun size =>
      Reader.consumes_pure _

theorem reads_header {ver dir tag : Int} (version : Fits 4 (some ver)) (way : Fits 1 (some dir)) (kind : Fits 1 (some tag)) (n : Nat) :
    Reads limit headerR (header ver dir tag n) (ver, dir, tag, ((n % limit : Nat) : Int)) := by
  have size : Reads limit u32R (u32 n) ((n % limit : Nat) : Int) := by
    have small : n % limit < limit := Nat.mod_lt _ (by decide)
    have same : u32 n = u32 ((n % limit : Nat) : Int) := by
      simp [u32, word, limit]
    rw [same]
    exact reads_word (Int.natCast_nonneg _) (by exact_mod_cast small)
  refine Reads.next (Reader.reads_take magic) ?_
  rw [if_neg (fun other => other rfl)]
  exact (reads_field version).next <| (reads_field way).next <| (reads_field kind).next <| size.next <| .pure _

theorem parse_frame {ver dir tag : Int} (version : Fits 4 (some ver)) (way : Fits 1 (some dir))
    (kind : Fits 1 (some tag)) (n : Nat) (rest : Bytes) :
    (n % limit ≤ rest.length → parse (header ver dir tag n ++ rest) = decode ver dir tag (rest.take (n % limit))) ∧
      (rest.length < n % limit → ∃ e, parse (header ver dir tag n ++ rest) = .error e) := by
  have read := reads_header version way kind n (by rw [header_length]; decide) [] rest
  rw [List.nil_append, List.length_nil, Nat.zero_add] at read
  have whole : parse (header ver dir tag n ++ rest) =
      (take (n % limit) ⟨header ver dir tag n ++ rest, (header ver dir tag n).length⟩ >>= fun p => decode ver dir tag p.1) := by
    unfold parse
    rw [read]
    rfl
  refine ⟨fun enough => ?_, fun short => ?_⟩
  · have taken := @Reader.reads_take Error ((rest.take (n % limit)).length + 1) .underrun (rest.take (n % limit)) (Nat.lt_succ_self _)
      (header ver dir tag n) (rest.drop (n % limit))
    rw [List.take_append_drop, List.length_take_of_le enough] at taken
    rw [whole, take, taken]
    rfl
  · refine ⟨.underrun (n % limit) (header ver dir tag n).length (header ver dir tag n ++ rest).length, ?_⟩
    rw [whole, take, Reader.take_short]
    · rfl
    · dsimp only
      rw [List.length_append]
      omega

/-- What the sender gets back at the other end, and that nothing shorter is taken for it. -/
def RoundTrips (upper : Text → Text) (body : Body) (direction : EnumArg) (ver : Int) : Prop :=
  ∃ frame dir, buildMessage upper body direction ver = .ok frame ∧ enumVal upper dirs direction = .ok dir ∧
    parse frame = .ok ⟨ver, dir, dirName dir, some body.name, body.tag, some (body.filled upper)⟩ ∧
    ∀ part, part <+: frame → part ≠ frame → ∃ e, parse part = .error e

theorem tag_fits (body : Body) : Fits 1 (some body.tag) := by
  intro n same
  cases same
  cases body <;> exact ⟨by simp [Body.tag], by simp [Body.tag]⟩

theorem decode_raw (valid : body.Valid upper) (fits : body.size < limit) {raw : Bytes} (written : encBody upper body = .ok raw)
    (ver dir : Int) :
    decode ver dir body.tag raw = .ok ⟨ver, dir, dirName dir, some body.name, body.tag, some (body.filled upper)⟩ := by
  obtain ⟨dec, known, raw', written', length, read⟩ := codes_body valid
  cases written.symm.trans written'
  have read := read (length ▸ fits) [] []
  rw [List.append_nil, List.nil_append] at read
  have name : (body.filled upper).name = body.name := by cases body <;> rfl
  have real : body.tag ≠ 0 := by cases body <;> simp [Body.tag]
  rw [decode, if_neg real, known]
  show Except.map _ (dec ⟨raw, _⟩) = _
  rw [show dec ⟨raw, 0⟩ = _ from read]
  show Except.ok (Message.mk ver dir (dirName dir) (some (body.filled upper).name) body.tag (some (body.filled upper))) = _
  rw [name]

theorem roundTrips_of_fits (valid : body.Valid upper) (version : Fits 4 (some ver))
    (known : enumVal upper dirs direction = .ok dir) (fits : body.size < limit) : RoundTrips upper body direction ver := by
  obtain ⟨dec, -, raw, written, length, -⟩ := codes_body valid
  have way : Fits 1 (some dir) := fun n same => by cases same; exact enumVal_small (by decide) known
  have small : raw.length % limit = raw.length := Nat.mod_eq_of_lt (length ▸ fits)
  refine ⟨_, dir, buildMessage_ok written known, known, ?_, fun part smaller proper => ?_⟩
  · rw [(parse_frame version way (tag_fits body) raw.length raw).1 (Nat.mod_le _ _), small, List.take_length]
    exact decode_raw valid fits written ver dir
  · by_cases short : part.length < 14
    · obtain ⟨e, failed⟩ := consumes_header.short (c := ⟨part, 0⟩) (Nat.zero_le _) (by omega)
      exact ⟨e, by rw [parse, failed]; rfl⟩
    · obtain ⟨rest, rfl⟩ := List.prefix_of_prefix_length_le (List.prefix_append _ raw) smaller (by rw [header_length]; omega)
      have smaller := (List.prefix_append_right_inj _).mp smaller
      have less : rest.length < raw.length := by
        refine Nat.lt_of_le_of_ne smaller.length_le fun same => proper ?_
        rw [smaller.eq_of_length same]
      exact (parse_frame version way (tag_fits body) raw.length rest).2 (small.symm ▸ less)

/-- The frame of a larger body says a size that is cut, and the part of that size is taken for the whole. -/
theorem not_roundTrips_of_large (valid : body.Valid upper) (version : Fits 4 (some ver))
    (known : enumVal upper dirs direction = .ok dir) (large : limit ≤ body.size) : ¬ RoundTrips upper body direction ver := by
  rintro ⟨frame, dir', built, -, parsed, rejected⟩
  obtain ⟨dec, -, raw, written, length, -⟩ := codes_body valid
  have way : Fits 1 (some dir) := fun n same => by cases same; exact enumVal_small (by decide) known
  cases built.symm.trans (buildMessage_ok written known)
  have cut : raw.length % limit < raw.length := by
    refine Nat.lt_of_lt_of_le (Nat.mod_lt _ (by decide)) ?_
    rw [length]
    exact large
  have whole := (parse_frame version way (tag_fits body) raw.length raw).1 (Nat.mod_le _ _)
  have part := (parse_frame version way (tag_fits body) raw.length (raw.take (raw.length % limit))).1
    (by rw [List.length_take_of_le (Nat.le_of_lt cut)])
  rw [List.take_take, Nat.min_self] at part
  obtain ⟨e, failed⟩ := rejected (header ver dir body.tag raw.length ++ raw.take (raw.length % limit))
    ((List.prefix_append_right_inj _).mpr (List.take_prefix _ _)) fun same => by
      have same := congrArg List.length (List.append_cancel_left same)
      rw [List.length_take_of_le (Nat.le_of_lt cut)] at same
      omega
  rw [part, ← whole, parsed] at failed
  cases failed

theorem roundTrips_iff {body : Body} {direction : EnumArg} {ver dir : Int} (valid : body.Valid upper) (version : Fits 4 (some ver))
    (known : enumVal upper dirs direction = .ok dir) : RoundTrips upper body direction ver ↔ body.size < 2 ^ 32 := by
  refine ⟨fun round => ?_, fun fits => roundTrips_of_fits valid version known fits⟩
  by_contra large
  exact not_roundTrips_of_large valid version known (Nat.not_lt.mp large) round

end

def asciiUpper (s : Text) : Text := s.map Char.toUpper

def namedKind : Body := .mlModelUpdate { version := some 12, kind := some (.name "ngram".toList), treeBlob := some [9, 8, 7] }

theorem version_one : Fits 4 (some 1) := by
  intro n same
  cases same
  decide

theorem toDp : enumVal asciiUpper dirs (.value 0) = .ok 0 := rfl

theorem namedKind_roundTrips : RoundTrips asciiUpper namedKind (.value 0) 1 := by
  have valid : namedKind.Valid asciiUpper := by
    refine ⟨fun n same => ?_, ⟨1, by decide +kernel⟩, fun n same => nomatch same⟩
    cases same
    decide
  exact (roundTrips_iff valid version_one toDp).mpr (by decide +kernel)

theorem largeModel_lost (data : Bytes) (large : 2 ^ 32 ≤ data.length) :
    ¬ RoundTrips asciiUpper (.mlModelUpdate { treeBlob := some data }) (.value 0) 1 := by
  have valid : (Body.mlModelUpdate { treeBlob := some data }).Valid asciiUpper :=
    ⟨fun n same => (nomatch same), ⟨0, rfl⟩, fun n same => (nomatch same)⟩
  refine not_roundTrips_of_large valid version_one toDp ?_
  simp only [Body.size, blobSize, Option.getD_some, limit]
  omega

/-- A model of 4 GiB is not read back. -/
theorem model_of_4GiB_lost : ¬ RoundTrips asciiUpper (.mlModelUpdate { treeBlob := some (List.replicate (2 ^ 32) 0) }) (.value 0) 1 :=
  largeModel_lost _ (by rw [List.length_replicate])

end FfnNgfw.Mpdp
