import FfnNgfw.Threatdb.Store
import Mathlib.Data.Bool.AllAny
import Mathlib.Data.Char
import Mathlib.Data.List.Lex

/-!
# Exporting and compiling

What `export_region` and `export_compiler_text` write, and what the compilers of
`db_compiler.py` make of the text.
-/

namespace FfnNgfw.Threatdb

/-! ### Export -/

inductive Kind where
  | malwareHashes | dnsBlocklist | blocklist | url | tlsFingerprints
  deriving DecidableEq

/-- A row of `samples`, or of `iocs`. -/
inductive Origin where
  | sample
  | ioc (t : IocType)
  deriving DecidableEq

structure Row where
  origin : Origin
  value : Text
  verdict : Verdict
  threatName : Option Text
  featHash : Nat
  deriving DecidableEq

def Db.sampleRows (db : Db) : List Row := db.samples.items.map fun (sha, s) => ⟨.sample, sha, s.verdict, s.threatName, 0⟩

def Db.iocRows (db : Db) : List Row :=
  db.iocs.items.map fun ((t, v), i) => ⟨.ioc t, v, i.verdict, i.threatName, i.featHash⟩

def Db.rows (db : Db) : List Row := db.sampleRows ++ db.iocRows

/-- `ORDER BY` the value. -/
def inOrder (rows : List Row) : List Row := rows.insertionSort fun a b => a.value ≤ b.value

inductive Region where
  | blocklist | url | malware | tlsfp | dnsbl
  /-- any region that no indicator belongs to -/
  | other
  deriving DecidableEq

def IocType.region : IocType → Region
  | .domain | .dns => .dnsbl
  | .ip => .blocklist
  | .url => .url
  | .tlsfp => .tlsfp

def Verdict.action : Verdict → Nat
  | .unknown | .benign | .grayware => 0
  | .phishing => 1
  | .malware => 2

def Db.malwareRows (db : Db) : List Row := inOrder (db.sampleRows.filter fun r => r.verdict.malicious)

def Db.regionRows (db : Db) (region : Region) : List Row :=
  match iocTypes.find? (·.region = region) with
  | none => []
  | some t => inOrder (db.iocRows.filter fun r => r.origin = .ioc t ∧ r.verdict ≠ .benign)

abbrev Exported := Text × Int × Nat × Option Text

section

variable (P : Platform)

def exportRegion (db : Db) (region : Region) : Except String (List Exported) :=
  if region = .malware then
    db.malwareRows.mapM fun r =>
      match pyInt P.decimal 16 (r.value.take 8) with
      | none => throw "invalid literal for int() with base 16"
      | some n => return (r.value, n, r.verdict.action, r.threatName)
  else return (db.regionRows region).map fun r => (r.value, (r.featHash : Int), r.verdict.action, r.threatName)

def compilerCat : Verdict → Nat
  | .phishing => 4
  | .grayware => 1
  | _ => 3

def fingerprintName (r : Row) : Text :=
  (match r.threatName with
    | none | some [] => "threat".toList
    | some name => name).map fun c => if c = ' ' then '_' else c

def Db.written (db : Db) : Kind → List Row
  | .malwareHashes => db.malwareRows
  | .dnsBlocklist => db.regionRows .dnsbl
  | .blocklist => db.regionRows .blocklist
  | .url => db.regionRows .url
  | .tlsFingerprints => (db.regionRows .tlsfp).filter fun r => (strip r.value).length = 32

def lineOf (kind : Kind) (r : Row) : Text :=
  match kind with
  | .tlsFingerprints =>
    strip r.value ++ ' ' :: (Nat.toDigits 10 (compilerCat r.verdict) ++ ' ' :: fingerprintName r)
  | _ => r.value

structure Stamp where
  year : Nat
  month : Nat
  day : Nat
  hour : Nat
  minute : Nat
  second : Nat

def twoDigits (n : Nat) : Text := [Nat.digitChar (n / 10 % 10), Nat.digitChar (n % 10)]

/-- `_now()` -/
def Stamp.text (t : Stamp) : Text :=
  twoDigits (t.year / 100) ++ twoDigits t.year ++ '-' :: twoDigits t.month ++ '-' :: twoDigits t.day ++
    'T' :: twoDigits t.hour ++ ':' :: twoDigits t.minute ++ ':' :: twoDigits t.second ++ ['Z']

def header (t : Stamp) : Text := "# generated by ffn_threatdb at ".toList ++ t.text ++ " -- do not edit".toList

/-- Writing the hashes goes through `export_region`, and raises where that raises. -/
def exportCompilerText (db : Db) (t : Stamp) (kind : Kind) : Except String Text := do
  if kind = .malwareHashes then let _ ← exportRegion P db .malware
  return header t ++ '\n' :: (db.written kind).flatMap fun r => lineOf kind r ++ ['\n']

/-! ### The compilers -/

/-- An entry of the table in DDR, and the bits it sets in the Bloom filter. -/
structure Entry where
  bytes : List UInt8
  bloom : List Nat
  deriving DecidableEq

def bloomHashes (value : List UInt8) : List Nat :=
  (List.range 3).map fun i => (P.crc32 value + i * P.crc32 (value ++ [1])) % 65536

def fnv1a64 (data : List UInt8) : UInt64 :=
  data.foldl (fun h b => (h ^^^ b.toUInt64) * 0x100000001B3) 0xCBF29CE484222325

def catMap : List (String × Nat) :=
  [("malicious", 3), ("evil", 3), ("malware", 3), ("ransomware", 3), ("phishing", 4), ("fake", 4), ("verify", 4),
    ("secure-login", 4), ("tor", 6), ("vpn", 6), ("proxy", 6), ("hidemyass", 6), ("coinhive", 10), ("crypto", 10),
    ("webmine", 10), ("minero", 10), ("authedmine", 10), ("doubleclick", 9), ("adservice", 9), ("googletag", 9),
    ("google-analytics", 9), ("googlesyndication", 9), ("facebook.com/tr", 9), ("adult", 1), ("gambling", 2),
    ("youtube", 8), ("netflix", 8), ("disney", 8), ("hulu", 8), ("twitch", 8), ("facebook", 7), ("twitter", 7),
    ("instagram", 7), ("tiktok", 7), ("linkedin", 7), ("snapchat", 7), ("microsoft", 100), ("windowsupdate", 100),
    ("google.com", 100), ("apple.com", 100), ("ubuntu", 100), ("redhat", 100), ("github", 100), ("gitlab", 100),
    ("stackoverflow", 100)]

def le (size value : Nat) : List UInt8 := ByteOrder.little.toBytes size value

def urlEntry (line : Text) : Entry :=
  let url := strip line
  let cat := ((catMap.find? fun k => isInfix k.1.toList (P.lower url)).map Prod.snd).getD 0
  let bytes := utf8 url
  ⟨le 4 ((fnv1a64 bytes).toNat % 2 ^ 32) ++ le 1 cat ++ le 1 1 ++ (P.md5 bytes).take 2, bloomHashes P bytes⟩

def domainEntry (line : Text) : Entry :=
  let bytes := utf8 (P.lower (strip line))
  let hash := (fnv1a64 bytes).toNat
  ⟨le 4 (hash % 2 ^ 32) ++ le 4 (hash / 2 ^ 32) ++ le 4 1, bloomHashes P bytes⟩

def ipEntry (now : Nat) (line : Text) : Except String Entry :=
  match ipAddress (strip (firstField line)) with
  | none => throw "does not appear to be an IPv4 or IPv6 address"
  | some ip =>
    if 2 ^ 32 ≤ ip then throw "'I' format requires 0 <= number <= 4294967295"
    else return ⟨le 4 ip ++ le 4 (now % 2 ^ 32) ++ le 4 0 ++ le 4 1, bloomHashes P (ByteOrder.big.toBytes 4 ip)⟩

def hashEntry (line : Text) : Except String (Option Entry) :=
  let sha := strip (firstField line)
  if sha.length ≠ 64 then return none
  else
    match fromHex sha with
    | none => throw "non-hexadecimal number found in fromhex() arg"
    | some bytes => return some ⟨bytes, []⟩

def fingerprintEntry (line : Text) : Except String (Option Entry) :=
  match fields line with
  | ja3 :: cat :: _ :: _ =>
    match pyInt P.decimal 10 cat with
    | none => throw "invalid literal for int() with base 10"
    | some cat =>
      if (strip ja3).length ≠ 32 then return none
      else
        match fromHex (strip ja3) with
        | none => throw "non-hexadecimal number found in fromhex() arg"
        | some bytes =>
          if cat < 0 ∨ 255 < cat then throw "ubyte format requires 0 <= number <= 255"
          else return some ⟨bytes ++ le 1 cat.toNat ++ le 1 1 ++ le 2 0, []⟩
  | _ => return none

/-- What a compiler makes of one line; `now` is the clock. -/
def compileLine (now : Nat) : Kind → Text → Except String (Option Entry)
  | .malwareHashes, line => hashEntry line
  | .dnsBlocklist, line => return some (domainEntry P line)
  | .blocklist, line => (ipEntry P now line).map some
  | .url, line => return some (urlEntry P line)
  | .tlsFingerprints, line => fingerprintEntry P line

def compile (now : Nat) (kind : Kind) (text : Text) : Except String (List Entry) :=
  ((parseLines text).mapM (compileLine P now kind)).map fun entries => entries.filterMap id

end

end FfnNgfw.Threatdb

/-!
## From the store to the tables

Every malicious row has one entry in the table that it belongs to, as long as the stored
texts are such that the compilers can read the lines written for them.
-/

namespace FfnNgfw.Threatdb

def Origin.kind : Origin → Kind
  | .sample => .malwareHashes
  | .ioc .domain | .ioc .dns => .dnsBlocklist
  | .ioc .ip => .blocklist
  | .ioc .url => .url
  | .ioc .tlsfp => .tlsFingerprints

section

variable (P : Platform)

def yields (now : Nat) (kind : Kind) (r : Row) : List Entry :=
  match compile P now kind (lineOf kind r ++ ['\n']) with
  | .ok entries => entries
  | .error _ => []

/-- The text of this kind compiles, and every malicious row that belongs to it has its own
entry in the table, once. -/
structure Compiles (db : Db) (t : Stamp) (now : Nat) (kind : Kind) : Prop where
  compiled : ∃ text, exportCompilerText P db t kind = .ok text ∧
    compile P now kind text = .ok ((db.written kind).flatMap (yields P now kind))
  once : (db.written kind).Nodup
  present : ∀ r ∈ db.rows, r.verdict.malicious = true → r.origin.kind = kind →
    r ∈ db.written kind ∧ ∃ e, compileLine P now kind (lineOf kind r) = .ok (some e) ∧ yields P now kind r = [e]

structure Reaches (db : Db) (t : Stamp) (now : Nat) : Prop where
  exported : ∀ region, ∃ rows, exportRegion P db region = .ok rows
  compiles : ∀ kind, Compiles P db t now kind

def isHex (s : Text) : Bool := s.all fun c => (hexDigit c).isSome

def isIp (line : Text) : Bool := (ipAddress (strip (firstField line))).any (· < 2 ^ 32)

def isSkipped (line : Text) : Bool :=
  match fingerprintEntry P line with
  | .ok none => true
  | _ => false

/-- Whether the compilers can do with the row, and have an entry for it if it is malicious. Numbers are short enough for `int`. -/
def fit (r : Row) : Bool :=
  match r.origin with
  | .sample => !r.verdict.malicious || isHex r.value
  | .ioc .domain | .ioc .url => !r.verdict.malicious || isPlain r.value
  | .ioc .dns => !r.verdict.malicious
  | .ioc .ip =>
    r.verdict = .benign ||
      ((parseLines (r.value ++ ['\n'])).all isIp && (!r.verdict.malicious || isPlain r.value))
  | .ioc .tlsfp =>
    let name := (newlines (fingerprintName r ++ ['\n'])).splitOn '\n'
    r.verdict = .benign ||
      ((r.value.length ≠ 32 || (isHex r.value && (significant name.tail).all (isSkipped P))) &&
        (!r.verdict.malicious || (r.value.length = 32 && fields (name.headD []) ≠ [])))

end

section

variable {P : Platform} {now : Nat} {kind : Kind}

theorem compile_append {a b : Text} {as bs : List Entry} (first : compile P now kind (a ++ ['\n']) = .ok as)
    (second : compile P now kind b = .ok bs) : compile P now kind (a ++ '\n' :: b) = .ok (as ++ bs) := by
  obtain ⟨as', readA, rfl⟩ := map_ok first
  obtain ⟨bs', readB, rfl⟩ := map_ok second
  unfold compile
  rw [parseLines_append, List.mapM_append, readA, readB]
  change Except.ok ((as' ++ bs').filterMap id) = _
  rw [List.filterMap_append]

variable {rows : List Row} {r : Row} {s : Text}

theorem compile_rows (each : ∀ r ∈ rows, ∃ entries, compile P now kind (lineOf kind r ++ ['\n']) = .ok entries) :
    compile P now kind (rows.flatMap fun r => lineOf kind r ++ ['\n']) = .ok (rows.flatMap (yields P now kind)) := by
  induction rows with
  | nil => rfl
  | cons r rows ih =>
    obtain ⟨entries, here⟩ := each r List.mem_cons_self
    have same : yields P now kind r = entries := by
      unfold yields
      rw [here]
    rw [List.flatMap_cons, List.flatMap_cons, List.append_assoc, List.singleton_append, same]
    exact compile_append here (ih fun x member => each x (List.mem_cons_of_mem _ member))

theorem compile_header (t : Stamp) : compile P now kind (header t ++ ['\n']) = .ok [] := by
  have digitChars : ∀ n < 10, Nat.digitChar n ≠ '\n' ∧ Nat.digitChar n ≠ '\r' := by decide
  have two (n : Nat) : ∀ c ∈ twoDigits n, c ≠ '\n' ∧ c ≠ '\r' := by
    intro c member
    simp only [twoDigits, List.mem_cons, List.not_mem_nil, or_false] at member
    rcases member with rfl | rfl
    · exact digitChars _ (Nat.mod_lt _ (by decide))
    · exact digitChars _ (Nat.mod_lt _ (by decide))
  have stamp : ∀ c ∈ t.text, c ≠ '\n' ∧ c ≠ '\r' := by
    intro c member
    simp only [Stamp.text, List.mem_append, List.mem_cons, List.not_mem_nil, or_false] at member
    rcases member with ((((((member | member) | rfl | member) | rfl | member) | rfl | member) | rfl | member) |
      rfl | member) | rfl
    all_goals first
      | exact two _ c member
      | decide
  have front : ∀ c ∈ "# generated by ffn_threatdb at ".toList, c ≠ '\n' ∧ c ≠ '\r' := List.all_iff_forall_prop.mp (by decide)
  have back : ∀ c ∈ " -- do not edit".toList, c ≠ '\n' ∧ c ≠ '\r' := List.all_iff_forall_prop.mp (by decide)
  have unbroken : ∀ c ∈ header t, c ≠ '\n' ∧ c ≠ '\r' := by
    intro c member
    rcases List.mem_append.mp member with member | member
    · exact (List.mem_append.mp member).elim (front c) (stamp c)
    · exact back c member
  obtain ⟨rest, comment⟩ : ∃ rest, strip (header t) = '#' :: rest := strip_cons (by decide) _
  unfold compile
  rw [parseLines_unbroken unbroken, significant, List.map_singleton, comment]
  rfl

theorem compile_all {text : Text} (each : ∀ line ∈ parseLines text, ∃ o, compileLine P now kind line = .ok o) :
    ∃ entries, compile P now kind text = .ok entries := by
  obtain ⟨os, read⟩ := mapM_ok each
  exact ⟨_, by rw [compile, read]; rfl⟩

theorem compile_one {text line : Text} {e : Entry} {rest : List Text} (lines : parseLines text = line :: rest)
    (here : compileLine P now kind line = .ok (some e)) (skipped : ∀ x ∈ rest, compileLine P now kind x = .ok none) :
    compile P now kind text = .ok [e] := by
  have nothing : ∀ rest : List Text, (∀ x ∈ rest, compileLine P now kind x = .ok none) →
      rest.mapM (compileLine P now kind) = .ok (rest.map fun _ => none) := by
    intro rest
    induction rest with
    | nil => exact fun _ => rfl
    | cons x rest ih =>
      intro skipped
      rw [List.mapM_cons, skipped x List.mem_cons_self, ih fun y member => skipped y (List.mem_cons_of_mem _ member)]
      rfl
  rw [compile, lines, List.mapM_cons, here, nothing rest skipped]
  change Except.ok ((some e :: rest.map fun _ => none).filterMap id) = _
  simp

/-! ### The rows of a kind -/

theorem mem_inOrder : r ∈ inOrder rows ↔ r ∈ rows :=
  (List.perm_insertionSort _ rows).mem_iff

theorem sampleRows_nodup (db : Db) : db.sampleRows.Nodup := by
  refine List.Nodup.of_map Row.value ?_
  have keys : db.sampleRows.map Row.value = db.samples.items.map Prod.fst := by
    simp [Db.sampleRows, Function.comp_def]
  rw [keys]
  exact db.samples.items_nodup

theorem iocRows_nodup (db : Db) : db.iocRows.Nodup := by
  refine List.Nodup.of_map (fun r => (r.origin, r.value)) ?_
  have keys : db.iocRows.map (fun r => (r.origin, r.value)) =
      (db.iocs.items.map Prod.fst).map fun k => (Origin.ioc k.1, k.2) := by
    simp [Db.iocRows, Function.comp_def]
  rw [keys]
  refine List.Nodup.map ?_ db.iocs.items_nodup
  rintro ⟨t, v⟩ ⟨t', v'⟩ same
  cases same
  rfl

theorem inOrder_nodup (h : rows.Nodup) : (inOrder rows).Nodup :=
  (List.perm_insertionSort _ rows).nodup_iff.mpr h

theorem mem_malwareRows {db : Db} : r ∈ db.malwareRows ↔ r ∈ db.sampleRows ∧ r.verdict.malicious = true := by
  rw [Db.malwareRows, mem_inOrder, List.mem_filter]

def Region.type : Region → Option IocType
  | .dnsbl => some .domain
  | .blocklist => some .ip
  | .url => some .url
  | .tlsfp => some .tlsfp
  | .malware | .other => none

theorem mem_regionRows {db : Db} (region : Region) {t : IocType} (type : region.type = some t) :
    r ∈ db.regionRows region ↔ r ∈ db.iocRows ∧ r.origin = .ioc t ∧ r.verdict ≠ .benign := by
  have found : iocTypes.find? (·.region = region) = some t := by
    cases region <;> cases type <;> rfl
  rw [Db.regionRows, found]
  dsimp only
  rw [mem_inOrder, List.mem_filter, decide_eq_true_eq]

theorem regionRows_nodup (db : Db) (region : Region) : (db.regionRows region).Nodup := by
  unfold Db.regionRows
  split
  · exact List.nodup_nil
  · exact inOrder_nodup ((iocRows_nodup db).filter _)

theorem written_nodup (db : Db) (kind : Kind) : (db.written kind).Nodup := by
  cases kind with
  | malwareHashes => exact inOrder_nodup ((sampleRows_nodup db).filter _)
  | dnsBlocklist => exact regionRows_nodup db .dnsbl
  | blocklist => exact regionRows_nodup db .blocklist
  | url => exact regionRows_nodup db .url
  | tlsFingerprints => exact (regionRows_nodup db _).filter _

theorem sampleRows_stored {db : Db} (stored : Stored db) (member : r ∈ db.sampleRows) :
    r.origin = .sample ∧ r.value.length = 64 ∧ strip r.value = r.value := by
  obtain ⟨⟨sha, s⟩, inside, rfl⟩ := List.mem_map.mp member
  exact ⟨rfl, stored.samples sha s (Dict.mem_items.mp inside)⟩

theorem iocRows_stored {db : Db} (stored : Stored db) (member : r ∈ db.iocRows) :
    (∃ t, r.origin = .ioc t) ∧ strip r.value = r.value := by
  obtain ⟨⟨⟨t, v⟩, i⟩, inside, rfl⟩ := List.mem_map.mp member
  exact ⟨⟨t, rfl⟩, stored.iocs (t, v) i (Dict.mem_items.mp inside)⟩

/-! ### Kind by kind -/

/-- The line of the row is read, and gives its entry and no other. -/
def Served (P : Platform) (now : Nat) (kind : Kind) (r : Row) : Prop :=
  ∃ e, compileLine P now kind (lineOf kind r) = .ok (some e) ∧ compile P now kind (lineOf kind r ++ ['\n']) = .ok [e]

theorem plain_served {e : Entry} (plain : isPlain r.value = true) (stripped : strip r.value = r.value)
    (line : lineOf kind r = r.value) (here : compileLine P now kind r.value = .ok (some e)) : Served P now kind r := by
  refine ⟨e, line ▸ here, ?_⟩
  rw [line]
  exact compile_one (parseLines_plain plain stripped) here nofun

theorem isHex_mem (hex : isHex s = true) : ∀ c ∈ s, (hexDigit c).isSome = true := List.all_eq_true.mp hex

theorem isHex_unbroken (hex : isHex s = true) : ∀ c ∈ s, c ≠ '\n' ∧ c ≠ '\r' := by
  intro c inside
  have digit := isHex_mem hex c inside
  constructor
  · rintro rfl
    exact absurd digit (by decide)
  · rintro rfl
    exact absurd digit (by decide)

theorem isHex_plain (hex : isHex s = true) (some_ : s ≠ []) : isPlain s = true := by
  have first : isComment s = false := by
    unfold isComment
    rw [beq_eq_false_iff_ne]
    intro same
    exact absurd (isHex_mem hex '#' (List.mem_of_mem_head? same)) (by decide)
  simp only [isPlain, Bool.and_eq_true, List.all_eq_true, decide_eq_true_eq]
  exact ⟨⟨some_, by rw [first]; rfl⟩, isHex_unbroken hex⟩

theorem isHex_solid (hex : isHex s = true) : ∀ c ∈ s, Policy.isSpace c = false :=
  fun c inside => hexDigit_solid (isHex_mem hex c inside)

theorem hash_served (hex : isHex r.value = true) (long : r.value.length = 64) :
    Served P now .malwareHashes r := by
  have some_ : r.value ≠ [] := fun none => by rw [none] at long; cases long
  have solid := isHex_solid hex
  obtain ⟨bytes, read⟩ := Option.isSome_iff_exists.mp (fromHex_isSome (isHex_mem hex) (by rw [long]))
  refine plain_served (e := ⟨bytes, []⟩) (isHex_plain hex some_) (strip_of_solid solid) rfl ?_
  simp only [compileLine, hashEntry, firstField, fields_solid solid some_, List.headD_cons, strip_of_solid solid, long, read]
  rfl

theorem ip_line {line : Text} (ip : isIp line = true) : ∃ e, compileLine P now .blocklist line = .ok (some e) := by
  obtain ⟨n, read, small⟩ := (Option.any_eq_true _ _).mp ip
  simp only [compileLine, ipEntry, read]
  rw [if_neg (Nat.not_le.mpr (of_decide_eq_true small))]
  exact ⟨_, rfl⟩

theorem cat_digit (v : Verdict) : ∃ c : Char, Nat.toDigits 10 (compilerCat v) = [c] ∧ Policy.isSpace c = false ∧ c ≠ '\n' ∧
    c ≠ '\r' ∧ ∀ decimal, pyInt decimal 10 [c] = some (compilerCat v : Int) := by
  cases v with
  | unknown => exact ⟨'3', by decide, by decide, by decide, by decide, fun _ => rfl⟩
  | benign => exact ⟨'3', by decide, by decide, by decide, by decide, fun _ => rfl⟩
  | grayware => exact ⟨'1', by decide, by decide, by decide, by decide, fun _ => rfl⟩
  | phishing => exact ⟨'4', by decide, by decide, by decide, by decide, fun _ => rfl⟩
  | malware => exact ⟨'3', by decide, by decide, by decide, by decide, fun _ => rfl⟩

def ja3Entry (r : Row) : Entry := ⟨(fromHex r.value).getD [] ++ le 1 (compilerCat r.verdict) ++ le 1 1 ++ le 2 0, []⟩

theorem ja3_line (hex : isHex r.value = true) (long : r.value.length = 32) (name : Text) :
    fingerprintEntry P (r.value ++ ' ' :: (Nat.toDigits 10 (compilerCat r.verdict) ++ ' ' :: name)) =
      .ok (if fields name = [] then none else some (ja3Entry r)) := by
  have some_ : r.value ≠ [] := fun none => by rw [none] at long; cases long
  obtain ⟨c, cat, solid, _, _, number⟩ := cat_digit r.verdict
  have parts : fields (r.value ++ ' ' :: (Nat.toDigits 10 (compilerCat r.verdict) ++ ' ' :: name)) =
      r.value :: [c] :: fields name := by
    rw [fields_word (isHex_solid hex) some_ (by decide), cat, fields_word (by simpa using solid) (by simp) (by decide)]
  obtain ⟨bytes, read⟩ := Option.isSome_iff_exists.mp (fromHex_isSome (isHex_mem hex) (by rw [long]))
  have small : ¬((compilerCat r.verdict : Int) < 0 ∨ 255 < (compilerCat r.verdict : Int)) := by
    cases r.verdict <;> decide
  unfold fingerprintEntry
  rw [parts]
  cases blank : fields name with
  | nil => rfl
  | cons word words =>
    simp only [number P.decimal, strip_of_solid (isHex_solid hex), long, read, if_neg small]
    simp [ja3Entry, read]
    rfl

theorem fingerprint_lines (hex : isHex r.value = true) (long : r.value.length = 32) {first : Text}
    {rest : List Text} (name : (newlines (fingerprintName r ++ ['\n'])).splitOn '\n' = first :: rest) :
    parseLines (lineOf .tlsFingerprints r ++ ['\n']) =
      strip (r.value ++ ' ' :: (Nat.toDigits 10 (compilerCat r.verdict) ++ ' ' :: first)) :: significant rest := by
  obtain ⟨c, cat, _, noNewline, noReturn, _⟩ := cat_digit r.verdict
  have solid := isHex_solid hex
  have unbroken : ∀ x ∈ r.value ++ [' ', c, ' '], x ≠ '\n' ∧ x ≠ '\r' := by
    intro x inside
    rcases List.mem_append.mp inside with inside | inside
    · exact isHex_unbroken hex x inside
    · simp only [List.mem_cons, List.not_mem_nil, or_false] at inside
      rcases inside with rfl | rfl | rfl
      · decide
      · exact ⟨noNewline, noReturn⟩
      · decide
  have split := splitOn_append (fun inside => (unbroken _ inside).1 rfl) name
  rw [← newlines_plain fun inside => (unbroken _ inside).2 rfl] at split
  have line : lineOf .tlsFingerprints r ++ ['\n'] = r.value ++ [' ', c, ' '] ++ (fingerprintName r ++ ['\n']) := by
    simp [lineOf, strip_of_solid solid, cat]
  rw [parseLines, line, split, cat]
  -- the first line starts with a digit, so it is neither blank nor a comment
  cases value : r.value with
  | nil =>
    rw [value] at long
    cases long
  | cons d ds =>
    have digit := isHex_mem hex d (value ▸ List.mem_cons_self)
    have noComment : d ≠ '#' := by
      rintro rfl
      exact absurd digit (by decide)
    obtain ⟨tail, stripped⟩ := strip_cons (hexDigit_solid digit) (ds ++ [' ', c, ' '] ++ first)
    have same : d :: ds ++ [' ', c, ' '] ++ first = d :: ds ++ ' ' :: ([c] ++ ' ' :: first) := by simp
    rw [← same, significant, List.map_cons, List.cons_append, List.cons_append, stripped]
    rw [List.filter_cons_of_pos (by simp [isComment, noComment])]
    rfl

theorem fingerprint_compiles (stripped : strip r.value = r.value) (long : r.value.length = 32)
    (notBenign : r.verdict ≠ .benign) (origin : r.origin = .ioc .tlsfp) (ok : fit P r = true) :
    (∃ entries, compile P now .tlsFingerprints (lineOf .tlsFingerprints r ++ ['\n']) = .ok entries) ∧
      (r.verdict.malicious = true → Served P now .tlsFingerprints r) := by
  obtain ⟨first, rest, name⟩ := List.exists_cons_of_ne_nil
    (List.splitOn_ne_nil '\n' (newlines (fingerprintName r ++ ['\n'])))
  simp only [fit, origin, name, List.tail_cons, List.headD_cons, notBenign, decide_false, Bool.false_or, long, ne_eq,
    not_true_eq_false, Bool.and_eq_true, List.all_eq_true, decide_true, Bool.true_and, Bool.or_eq_true,
    Bool.not_eq_true', decide_eq_true_eq] at ok
  obtain ⟨⟨hex, skipped⟩, named⟩ := ok
  have lines := fingerprint_lines hex long name
  have here : compileLine P now .tlsFingerprints
      (strip (r.value ++ ' ' :: (Nat.toDigits 10 (compilerCat r.verdict) ++ ' ' :: first))) =
      .ok (if fields first = [] then none else some (ja3Entry r)) := by
    have read := ja3_line (P := P) hex long first
    unfold fingerprintEntry at read
    rw [compileLine, fingerprintEntry, fields_strip]
    exact read
  have further : ∀ x ∈ significant rest, compileLine P now .tlsFingerprints x = .ok none := by
    intro x member
    have skip := skipped x member
    unfold isSkipped at skip
    rw [compileLine]
    split at skip
    · assumption
    · cases skip
  refine ⟨compile_all fun x member => ?_, fun malicious => ?_⟩
  · rw [lines] at member
    rcases List.mem_cons.mp member with rfl | member
    · exact ⟨_, here⟩
    · exact ⟨none, further x member⟩
  · have nonblank : fields first ≠ [] := named.resolve_left (by simp [malicious])
    rw [if_neg nonblank] at here
    refine ⟨ja3Entry r, ?_, compile_one lines here further⟩
    have some_ : fields (fingerprintName r) ≠ [] := by
      intro blank
      refine nonblank (fields_nil_iff.mpr fun c inside => ?_)
      have there : c ∈ newlines (fingerprintName r ++ ['\n']) := by
        have joined : ['\n'].intercalate ((newlines (fingerprintName r ++ ['\n'])).splitOn '\n') =
            newlines (fingerprintName r ++ ['\n']) := List.intercalate_splitOn '\n'
        rw [← joined, name]
        cases rest <;> simp [List.intercalate, inside]
      rcases mem_newlines there with there | rfl
      · rcases List.mem_append.mp there with there | there
        · exact fields_nil_iff.mp blank c there
        · cases List.mem_singleton.mp there
          decide
      · decide
    have whole := ja3_line (P := P) hex long (fingerprintName r)
    rw [if_neg some_] at whole
    rw [compileLine, lineOf, stripped]
    exact whole

/-! ### All kinds -/

theorem notBenign_of_malicious {v : Verdict} (malicious : v.malicious = true) : v ≠ .benign := by
  rintro rfl
  cases malicious

theorem benign_or {v : Verdict} {b : Bool} (h : (decide (v = .benign) || b) = true) (notBenign : v ≠ .benign) : b = true := by
  simpa [notBenign] using h

theorem malicious_or {v : Verdict} {b : Bool} (h : (!v.malicious || b) = true) (malicious : v.malicious = true) : b = true := by
  simpa [malicious] using h

/-- Every row that is written compiles, and every malicious one is written and served. -/
def Handled (P : Platform) (now : Nat) (db : Db) (kind : Kind) : Prop :=
  (∀ r ∈ db.written kind, ∃ entries, compile P now kind (lineOf kind r ++ ['\n']) = .ok entries) ∧
    ∀ r ∈ db.rows, r.verdict.malicious = true → r.origin.kind = kind → r ∈ db.written kind ∧ Served P now kind r

theorem Served.compiles (h : Served P now kind r) :
    ∃ entries, compile P now kind (lineOf kind r ++ ['\n']) = .ok entries := by
  obtain ⟨e, _, compiled⟩ := h
  exact ⟨[e], compiled⟩

section

variable {db : Db} (stored : Stored db) (ok : ∀ r ∈ db.rows, fit P r = true)

include stored in
theorem rows_cases {r : Row} (member : r ∈ db.rows) :
    (r ∈ db.sampleRows ∧ r.origin = .sample) ∨ ∃ t, r ∈ db.iocRows ∧ r.origin = .ioc t := by
  rcases List.mem_append.mp member with member | member
  · exact Or.inl ⟨member, (sampleRows_stored stored member).1⟩
  · obtain ⟨t, origin⟩ := (iocRows_stored stored member).1
    exact Or.inr ⟨t, member, origin⟩

include ok in
theorem ioc_fit {r : Row} (member : r ∈ db.iocRows) : fit P r = true := ok r (List.mem_append_right _ member)

include stored ok in
theorem malicious_hex {r : Row} (member : r ∈ db.sampleRows) (malicious : r.verdict.malicious = true) :
    isHex r.value = true := by
  have hex := ok r (List.mem_append_left _ member)
  rw [fit, (sampleRows_stored stored member).1] at hex
  exact malicious_or hex malicious

include stored ok in
theorem hashes_handled : Handled P now db .malwareHashes := by
  have served {r : Row} (member : r ∈ db.sampleRows) (malicious : r.verdict.malicious = true) :
      Served P now .malwareHashes r :=
    hash_served (malicious_hex stored ok member malicious) (sampleRows_stored stored member).2.1
  refine ⟨fun r written => ?_, fun r member malicious here => ?_⟩
  · obtain ⟨member, malicious⟩ := mem_malwareRows.mp written
    exact (served member malicious).compiles
  · rcases rows_cases stored member with ⟨member, _⟩ | ⟨t, _, origin⟩
    · exact ⟨mem_malwareRows.mpr ⟨member, malicious⟩, served member malicious⟩
    · rw [origin] at here
      cases t <;> cases here

include stored ok in
theorem domains_handled : Handled P now db .dnsBlocklist := by
  refine ⟨fun r _ => compile_all fun line _ => ⟨_, rfl⟩, fun r member malicious here => ?_⟩
  rcases rows_cases stored member with ⟨_, origin⟩ | ⟨t, member, origin⟩
  · rw [origin] at here
    cases here
  · have plain := ioc_fit ok member
    rw [fit, origin] at plain
    rw [origin] at here
    cases t with
    | domain =>
      refine ⟨(mem_regionRows .dnsbl rfl).mpr ⟨member, origin, notBenign_of_malicious malicious⟩, ?_⟩
      exact plain_served (malicious_or plain malicious) (iocRows_stored stored member).2 rfl rfl
    | dns => simp [malicious] at plain
    | ip | url | tlsfp => cases here

include stored ok in
theorem urls_handled : Handled P now db .url := by
  refine ⟨fun r _ => compile_all fun line _ => ⟨_, rfl⟩, fun r member malicious here => ?_⟩
  rcases rows_cases stored member with ⟨_, origin⟩ | ⟨t, member, origin⟩
  · rw [origin] at here
    cases here
  · have plain := ioc_fit ok member
    rw [fit, origin] at plain
    rw [origin] at here
    cases t with
    | url =>
      refine ⟨(mem_regionRows .url rfl).mpr ⟨member, origin, notBenign_of_malicious malicious⟩, ?_⟩
      exact plain_served (malicious_or plain malicious) (iocRows_stored stored member).2 rfl rfl
    | domain | dns | ip | tlsfp => cases here

include stored ok in
theorem addresses_handled : Handled P now db .blocklist := by
  have lines {r : Row} (member : r ∈ db.iocRows) (origin : r.origin = .ioc .ip) (notBenign : r.verdict ≠ .benign) :
      (parseLines (r.value ++ ['\n'])).all isIp = true ∧ (!r.verdict.malicious || isPlain r.value) = true := by
    have each := ioc_fit ok member
    rw [fit, origin] at each
    exact Bool.and_eq_true_iff.mp (benign_or each notBenign)
  refine ⟨fun r written => ?_, fun r member malicious here => ?_⟩
  · obtain ⟨member, origin, notBenign⟩ := (mem_regionRows .blocklist rfl).mp written
    refine compile_all fun line inside => ?_
    obtain ⟨e, read⟩ := ip_line (P := P) (List.all_eq_true.mp (lines member origin notBenign).1 line inside)
    exact ⟨some e, read⟩
  · rcases rows_cases stored member with ⟨_, origin⟩ | ⟨t, member, origin⟩
    · rw [origin] at here
      cases here
    · rw [origin] at here
      cases t with
      | ip =>
        have notBenign := notBenign_of_malicious malicious
        have stripped := (iocRows_stored stored member).2
        obtain ⟨each, plain⟩ := lines member origin notBenign
        have plain := malicious_or plain malicious
        rw [parseLines_plain plain stripped] at each
        obtain ⟨e, read⟩ := ip_line (P := P) (List.all_eq_true.mp each r.value List.mem_cons_self)
        exact ⟨(mem_regionRows .blocklist rfl).mpr ⟨member, origin, notBenign⟩, plain_served plain stripped rfl read⟩
      | domain | dns | url | tlsfp => cases here

include stored ok in
theorem fingerprints_handled : Handled P now db .tlsFingerprints := by
  refine ⟨fun r written => ?_, fun r member malicious here => ?_⟩
  · obtain ⟨written, long⟩ := List.mem_filter.mp written
    obtain ⟨member, origin, notBenign⟩ := (mem_regionRows .tlsfp rfl).mp written
    have stripped := (iocRows_stored stored member).2
    rw [stripped, decide_eq_true_eq] at long
    exact (fingerprint_compiles stripped long notBenign origin (ioc_fit ok member)).1
  · rcases rows_cases stored member with ⟨_, origin⟩ | ⟨t, member, origin⟩
    · rw [origin] at here
      cases here
    · rw [origin] at here
      cases t with
      | tlsfp =>
        have notBenign := notBenign_of_malicious malicious
        have stripped := (iocRows_stored stored member).2
        have fits := ioc_fit ok member
        have long : r.value.length = 32 := by
          rw [fit, origin] at fits
          have both := malicious_or (Bool.and_eq_true_iff.mp (benign_or fits notBenign)).2 malicious
          exact of_decide_eq_true (Bool.and_eq_true_iff.mp both).1
        refine ⟨List.mem_filter.mpr ⟨(mem_regionRows .tlsfp rfl).mpr ⟨member, origin, notBenign⟩, ?_⟩, ?_⟩
        · rw [stripped, decide_eq_true_eq]
          exact long
        · exact (fingerprint_compiles stripped long notBenign origin fits).2 malicious
      | domain | dns | ip | url => cases here

include stored ok in
theorem kinds_handled (kind : Kind) : Handled P now db kind := by
  cases kind with
  | malwareHashes => exact hashes_handled stored ok
  | dnsBlocklist => exact domains_handled stored ok
  | blocklist => exact addresses_handled stored ok
  | url => exact urls_handled stored ok
  | tlsFingerprints => exact fingerprints_handled stored ok

theorem hash_number {r : Row} (hex : isHex r.value = true) (long : r.value.length = 64) (decimal : Char → Option Nat) :
    ∃ n, pyInt decimal 16 (r.value.take 8) = some n := by
  have some_ : r.value.take 8 ≠ [] := by
    intro none
    have length := congrArg List.length none
    rw [List.length_take, long] at length
    cases length
  exact Option.isSome_iff_exists.mp
    (pyInt_hex decimal (fun c inside => isHex_mem hex c (List.mem_of_mem_take inside)) some_)

include stored ok in
theorem exportRegion_ok (region : Region) :
    ∃ rows, exportRegion P db region = .ok rows := by
  unfold exportRegion
  split
  · refine mapM_ok fun r member => ?_
    obtain ⟨member, malicious⟩ := mem_malwareRows.mp member
    obtain ⟨n, read⟩ := hash_number (malicious_hex stored ok member malicious) (sampleRows_stored stored member).2.1 P.decimal
    rw [read]
    exact ⟨_, rfl⟩
  · exact ⟨_, rfl⟩

end

/-- After any calls, as long as every stored row is one that the compilers can read back,
the exports and the compilers get through and each malicious row has its entry. -/
theorem intelligence_reaches (P : Platform) (cs : List Call) (ok : ∀ r ∈ (calls P cs).rows, fit P r = true) (t : Stamp)
    (now : Nat) : Reaches P (calls P cs) t now := by
  have stored := calls_stored P cs
  refine ⟨exportRegion_ok stored ok, fun kind => ?_⟩
  obtain ⟨written, served⟩ : Handled P now (calls P cs) kind := kinds_handled stored ok kind
  refine ⟨⟨_, ?_, compile_append (compile_header t) (compile_rows written)⟩, written_nodup _ kind, ?_⟩
  · unfold exportCompilerText
    split
    · obtain ⟨out, exported⟩ := exportRegion_ok stored ok .malware
      rw [exported]
      rfl
    · rfl
  · intro r member malicious here
    obtain ⟨inside, e, line, compiled⟩ := served r member malicious here
    refine ⟨inside, e, line, ?_⟩
    unfold yields
    rw [compiled]

end

def crc32 (data : List UInt8) : Nat :=
  let bit (c : UInt32) := if c &&& 1 = 1 then (c >>> 1) ^^^ 0xEDB88320 else c >>> 1
  let byte (c : UInt32) (b : UInt8) := (List.range 8).foldl (fun c _ => bit c) (c ^^^ b.toUInt32)
  (data.foldl byte 0xFFFFFFFF ^^^ 0xFFFFFFFF).toNat

def asciiPlatform : Platform := ⟨List.map Char.toLower, fun _ => none, crc32, fun _ => []⟩

def noon : Stamp := ⟨2026, 1, 2, 12, 0, 0⟩

def goodCalls : List Call :=
  [.ingestFeed "dns_blocklist".toList ["# c2".toList, "Evil.example".toList],
    .ingestFeed "blocklist".toList ["198.51.100.7 botnet".toList],
    .recordSample "9E26BF369911C45C243C684147B23FC9E1DCFCF257D299A1C632016A6FCD33F4".toList "phishing".toList none,
    .recordIoc "tlsfp".toList "e7d705a3286e19ea42f587b344ee6865".toList "malware".toList (some "Tor client".toList)]

theorem goodCalls_reach :
    (∀ r ∈ (calls asciiPlatform goodCalls).rows, fit asciiPlatform r = true) ∧
      Reaches asciiPlatform (calls asciiPlatform goodCalls) noon 1767355200 := by
  have ok : ∀ r ∈ (calls asciiPlatform goodCalls).rows, fit asciiPlatform r = true := by decide +kernel
  exact ⟨ok, intelligence_reaches asciiPlatform goodCalls ok noon 1767355200⟩

/-- A feed may name a network, and then no address of the list is compiled. -/
def networkCalls : List Call := [.ingestFeed "blocklist".toList ["198.51.100.7".toList, "10.0.0.0/8".toList]]

theorem networkCalls_fail : ¬Reaches asciiPlatform (calls asciiPlatform networkCalls) noon 1767355200 := by
  intro reaches
  obtain ⟨text, written, compiled⟩ := (reaches.compiles .blocklist).compiled
  have failed : (exportCompilerText asciiPlatform (calls asciiPlatform networkCalls) noon .blocklist).toOption.bind
      (fun text => (compile asciiPlatform 1767355200 .blocklist text).toOption) = none := by
    decide +kernel
  rw [written] at failed
  change (compile asciiPlatform 1767355200 .blocklist text).toOption = none at failed
  rw [compiled] at failed
  cases failed

end FfnNgfw.Threatdb
