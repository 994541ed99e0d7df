import FfnNgfw.Lib.Bytes
import Mathlib.Data.List.Sort

/-!
# The database compiler of the FPGA

`db_compiler.py` compiles text databases and loads them over `/dev/ngfw0`: small tables
word by word, large ones as bytes of a DDR4 region, some with a bloom filter beside
them. `do_load` writes a database from its start, `do_update` appends to what
`db_meta.json` says is there. Input files are taken as their parsed lines.
-/

namespace FfnNgfw.Fpga

inductive DbType where
  | appid | zones | ddosPps | policy | appPolicy | qos | threats | url | geoip | blocklist | dnsBlocklist
  | malwareHashes | fileMagic | tlsFingerprints | spywareIocs | dlp
  deriving DecidableEq

def tblBloomProgram : Nat := 0x0F

def tblTcamPolicy : Nat := 0x1A

/-- `BRAM_TYPES`. -/
def DbType.bram : DbType → Option Nat
  | .appid => some 0x06
  | .zones => some 0x00
  | .ddosPps => some 0x01
  | .policy => some tblTcamPolicy
  | .appPolicy => some 0x0B
  | .qos => some 0x0D
  | .dlp => some 0x14
  | _ => none

/-- `DDR4_TYPES`. -/
def DbType.ddr : DbType → Option Nat
  | .threats => some 10
  | .url => some 8
  | .geoip => some 6
  | .blocklist => some 7
  | .dnsBlocklist => some 14
  | .malwareHashes => some 11
  | .fileMagic => some 12
  | .tlsFingerprints => some 13
  | .spywareIocs => some 15
  | _ => none

/-- `BLOOM_TYPES`. -/
def DbType.bloom : DbType → Option Nat
  | .threats => some 0x10
  | .url => some 0x12
  | .blocklist => some 0x02
  | .dnsBlocklist => some 0x13
  | _ => none

/-- `IP_CFG_TABLES`. -/
def ipCfgTables : List Nat := [tblTcamPolicy, 0x10, 0x12, 0x13, 0x14]

def DbType.entrySize : DbType → Nat
  | .threats | .url | .geoip => 8
  | .blocklist | .spywareIocs => 16
  | .dnsBlocklist | .fileMagic => 12
  | .malwareHashes => 32
  | .tlsFingerprints => 20
  | _ => 10

/-- A transfer as the driver sees it: a word of a table, or bytes of a region. -/
inductive Ioctl where
  | word (table index data : Nat)
  | bytes (region offset : Nat) (data : List UInt8)
  deriving DecidableEq

def tblWrite (table index data : Nat) : Ioctl := .word table (index % 65536) (data % 2 ^ 64)

def ipCfgWrite (table addr lo hi : Nat) : Ioctl := .word table (addr % 65536) (lo % 2 ^ 32 + hi % 2 ^ 32 * 2 ^ 32)

/-- `none` when the offset does not fit the 64-bit field of the request. -/
def ddrWrite (region offset : Nat) (data : List UInt8) : Option Ioctl :=
  if offset < 2 ^ 64 then some (.bytes region offset data) else none

structure Device where
  table : Nat → Nat → Nat
  ddr : Nat → Nat → UInt8

def Device.ioctl (dev : Device) : Ioctl → Device
  | .word t i data => { dev with table := fun t' i' => if t' = t ∧ i' = i then data else dev.table t' i' }
  | .bytes r offset data =>
    { dev with
      ddr := fun r' a => if r' = r ∧ offset ≤ a then data.getD (a - offset) (dev.ddr r' a) else dev.ddr r' a }

inductive PolicyAction where
  | deny | allow | log | punt
  deriving DecidableEq

def PolicyAction.val : PolicyAction → Nat
  | .deny => 0
  | .allow => 1
  | .log => 2
  | .punt => 3

/-- A line of a policy file with its seven parts. A port range is `none` without a dash. -/
structure PolicyLine where
  ruleId : Int
  srcIp : Nat
  srcPfx : Nat
  dstIp : Nat
  dstPfx : Nat
  protoNum : Nat
  sport : Option (Nat × Nat)
  dport : Option (Nat × Nat)
  action : PolicyAction
  deriving DecidableEq

namespace PolicyLine

def matchWord (r : PolicyLine) : Nat := ((r.srcIp &&& 0xFFFFFFFF) <<< 32) ||| (r.dstIp &&& 0xFFFFFFFF)

def metaWord (r : PolicyLine) : Nat :=
  let (spLo, _) := r.sport.getD (0, 65535)
  let (dpLo, dpHi) := r.dport.getD (0, 65535)
  (1 <<< 63) ||| ((r.action.val &&& 0x3) <<< 61) ||| ((r.srcPfx &&& 0x1F) <<< 56) ||| ((r.dstPfx &&& 0x1F) <<< 51) |||
    ((r.protoNum &&& 0xFF) <<< 43) ||| ((dpLo &&& 0xFFFF) <<< 27) ||| ((spLo &&& 0xFFFF) <<< 11) |||
    ((dpHi >>> 8) &&& 0x7FF)

end PolicyLine

def policyEntries (lines : List PolicyLine) : List (Nat × Nat) :=
  lines.foldl (fun entries r =>
    let baseIdx := entries.length / 2
    entries ++ [(baseIdx * 2, r.matchWord), (baseIdx * 2 + 1, r.metaWord)]) []

/-- `struct.pack("<HQ", idx, d)`, which raises on an index above 16 bits. -/
def packHQ (entry : Nat × Nat) : Option (List UInt8) :=
  if entry.1 < 2 ^ 16 ∧ entry.2 < 2 ^ 64 then some (ByteOrder.little.toBytes 2 entry.1 ++ ByteOrder.little.toBytes 8 entry.2) else none

def compilePolicy (lines : List PolicyLine) : Option (List (Nat × Nat) × List UInt8) :=
  ((policyEntries lines).mapM packHQ).map fun packed => (policyEntries lines, packed.flatten)

def bloomFilterBits : Nat := 65536

def bloomNumHashes : Nat := 3

section bloom

variable (crc32 : List UInt8 → Nat)

def bloomHashes (value : List UInt8) : List Nat :=
  (List.range bloomNumHashes).map fun i => (crc32 value + i * crc32 (value ++ [1])) % bloomFilterBits

/-- The 64-bit words that hold the bits, in the order they are written. -/
def bloomWords (bits : List Nat) : List Nat := ((bits.map (· / 64)).dedup).insertionSort (· ≤ ·)

def bloomWord (bits : List Nat) (w : Nat) : Nat :=
  bits.foldl (fun data b => if b / 64 = w then data ||| 1 <<< (b % 64) else data) 0

def loadBloomFilter (db : DbType) (bits : List Nat) : List Ioctl :=
  match db.bloom with
  | none => []
  | some table =>
    (bloomWords bits).map fun w =>
      if table ∈ ipCfgTables then
        ipCfgWrite table w (bloomWord bits w &&& 0xFFFFFFFF) ((bloomWord bits w >>> 32) &&& 0xFFFFFFFF)
      else tblWrite tblBloomProgram w (bloomWord bits w)

end bloom

/-! ### Loading -/

/-- What a compiler returns: words for a table, or entries of a region with the bits of
their bloom filter. -/
inductive Compiled where
  | words (entries : List (Nat × Nat))
  | records (entries : List (List UInt8)) (bloomBits : Option (List Nat))
  deriving DecidableEq

namespace Compiled

def count : Compiled → Nat
  | .words entries => entries.length
  | .records entries _ => entries.length

/-- The bytes of a region; the payload of a table is only written to files. -/
def payload : Compiled → List UInt8
  | .words _ => []
  | .records entries _ => entries.flatten

def bits : Compiled → List Nat
  | .words _ => []
  | .records _ bloomBits => bloomBits.getD []

end Compiled

def loadBramEntries (db : DbType) (table : Nat) (entries : List (Nat × Nat)) (vsys : Nat) : List Ioctl :=
  let idxOffset := if 0 < vsys ∧ db = .policy then vsys * 256 else 0
  entries.map fun (idx, data) =>
    if table ∈ ipCfgTables then
      ipCfgWrite table (idx + idxOffset) (data &&& 0xFFFFFFFF) ((data >>> 32) &&& 0xFFFFFFFF)
    else tblWrite table (idx + idxOffset) data

def chunkSize : Nat := 4 * 1024 * 1024

/-- The bytes in transfers of at most 4 MB; `fuel` bounds their number. -/
def writeChunks (region offset : Nat) : Nat → List UInt8 → Option (List Ioctl)
  | 0, _ => some []
  | _, [] => some []
  | fuel + 1, payload => do
    let chunk := payload.take chunkSize
    let first ← ddrWrite region offset chunk
    let rest ← writeChunks region (offset + chunk.length) fuel (payload.drop chunkSize)
    return first :: rest

def writePayload (region offset : Nat) (payload : List UInt8) : Option (List Ioctl) :=
  writeChunks region offset payload.length payload

def vsysSlot : Nat := 40960

def ddrOffset (vsys : Nat) : Nat := if 0 < vsys then vsys * vsysSlot else 0

def loadDdr4Payload (region : Nat) (payload : List UInt8) (vsys : Nat) : Option (List Ioctl) :=
  writePayload region (ddrOffset vsys) payload

/-- The ioctls of `do_load`; `none` when one of them raises. -/
def loadIoctls (db : DbType) (c : Compiled) (vsys : Nat) : Option (List Ioctl) :=
  match db.bram, db.ddr, c with
  | some table, _, .words entries => some (loadBramEntries db table entries vsys)
  | none, some region, .records _ bloomBits => do
    let bytes ← loadDdr4Payload region c.payload vsys
    return bytes ++ (bloomBits.map (loadBloomFilter db)).getD []
  | _, _, _ => none

/-- The entry size `do_update` reads off the new payload. -/
def Compiled.guessSize (c : Compiled) : Nat := if c.payload = [] then 1 else c.payload.length / max c.count 1

/-- The ioctls of `do_update`. The offset of the vsys is not part of it. -/
def updateIoctls (db : DbType) (c : Compiled) (vsys existing : Nat) : Option (List Ioctl) :=
  match db.bram, db.ddr, c with
  | some table, _, .words entries => some (loadBramEntries db table entries vsys)
  | none, some region, .records _ bloomBits => do
    let bytes ← writePayload region (existing * c.guessSize) c.payload
    return bytes ++ (bloomBits.map (loadBloomFilter db)).getD []
  | _, _, _ => none

/-- The device, and the entry counts of `db_meta.json`, 0 for a key that is not there. -/
structure Node where
  device : Device
  counts : DbType → Nat → Nat

def Node.commit (s : Node) (log : List Ioctl) (db : DbType) (vsys count : Nat) : Node where
  device := log.foldl Device.ioctl s.device
  counts := fun db' v => if db' = db ∧ v = vsys then count else s.counts db' v

def doLoad (s : Node) (db : DbType) (c : Compiled) (vsys : Nat) : Option Node :=
  (loadIoctls db c vsys).map fun log => s.commit log db vsys c.count

def doUpdate (s : Node) (db : DbType) (c : Compiled) (vsys : Nat) : Option Node :=
  (updateIoctls db c vsys (s.counts db vsys)).map fun log => s.commit log db vsys (s.counts db vsys + c.count)

def doUpdates (s : Node) (db : DbType) (vsys : Nat) (cs : List Compiled) : Option Node :=
  cs.foldlM (fun s c => doUpdate s db c vsys) s

section transfers

variable {region offset fuel : Nat} {payload : List UInt8} {log : List Ioctl}

theorem writeChunks_nil : writeChunks region offset fuel [] = some [] := by
  cases fuel <;> rfl

theorem writeChunks_cons (some' : payload ≠ []) (written : writeChunks region offset (fuel + 1) payload = some log) :
    offset < 2 ^ 64 ∧ ∃ rest, log = .bytes region offset (payload.take chunkSize) :: rest ∧
      writeChunks region (offset + (payload.take chunkSize).length) fuel (payload.drop chunkSize) = some rest := by
  cases payload with
  | nil => exact absurd rfl some'
  | cons b payload =>
    simp only [writeChunks, Option.bind_eq_bind, Option.bind_eq_some_iff, ddrWrite, Option.pure_def,
      Option.some.injEq] at written
    obtain ⟨first, fits, rest, more, rfl⟩ := written
    split at fits
    · rename_i small
      cases fits
      exact ⟨small, rest, rfl, more⟩
    · cases fits

theorem length_chunk (payload : List UInt8) : (payload.take chunkSize).length + (payload.drop chunkSize).length = payload.length ∧
    (payload ≠ [] → 0 < (payload.take chunkSize).length) := by
  have size : 0 < chunkSize := by decide
  rw [List.length_take, List.length_drop]
  refine ⟨by omega, fun some' => ?_⟩
  have positive := List.length_pos_of_ne_nil some'
  omega

end transfers

end FfnNgfw.Fpga
