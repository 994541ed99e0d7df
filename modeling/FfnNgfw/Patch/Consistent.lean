import FfnNgfw.Lib.Lexicographic
import FfnNgfw.Patch.Package

/-!
# What an accepted package is

Every file of the archive is the content of one entry of the manifest, the targets are code
paths and each is named once. That no target is the directory of another holds when nothing
stands between the two in the order of the names.
-/

namespace FfnNgfw.Patch

/-- A path that stays below the directory it is joined to, of a kind that may be patched. -/
structure Confined (name : String) : Prop where
  short : name.toList.length ≤ 200
  signs : ∀ c ∈ name.toList, nameRest c
  parts : ∀ part ∈ name.toList.splitOn '/', part ≠ [] ∧ part ≠ ['.'] ∧ part ≠ ['.', '.']
  code : isModule name.toList ∨ isAsset name.toList

def Above (upper lower : String) : Prop := upper.toList ++ ['/'] <+: lower.toList

structure Consistent (P : Platform) (members : List Member) (package : Package) : Prop where
  declared : ∀ m ∈ members, m.name ≠ "patch.json" →
    ∃! e, e ∈ package.files ∧ m.name = "files/" ++ e.path ∧ e.after = some (P.digest m.data, m.data)
  confined : ∀ e ∈ package.files, Confined e.path
  once : (package.files.map PatchEntry.path).Nodup
  apart : ∀ e ∈ package.files, ∀ e' ∈ package.files, ¬ Above e.path e'.path

section

variable (P : Platform) (data : Bytes)

def accepts : Prop := ∃ package, unpack P data = .ok package

def targets : List String :=
  match P.members data with
  | none => []
  | some members =>
    let manifest := (members.find? (·.name = "patch.json")).map Member.data
    match P.manifest (manifest.getD [0x7B, 0x7D]) with
    | none => []
    | some manifest => manifest.files.map RawEntry.path

/-- No name goes on after a directory with `-` or `.`, which come before `/`. -/
def Separated (names : List String) : Prop :=
  ∀ upper ∈ names, ∀ between ∈ names, (∃ c ∈ ['-', '.'], upper.toList ++ [c] <+: between.toList) →
    ∀ lower ∈ names, ¬ Above upper lower

end

variable {P : Platform}

theorem codePath_confined {name out : String} (h : codePath name = .ok out) : Confined name := by
  unfold codePath at h
  dsimp only at h
  split at h
  · cases h
  next formed =>
  split at h
  · cases h
  next parts =>
  split at h
  · next code =>
    simp only [not_or, not_lt, not_not] at formed
    obtain ⟨short, start, rest⟩ := formed
    refine ⟨short, ?_, ?_, by simpa using code⟩
    · cases signs : name.toList with
      | nil => exact nofun
      | cons first later =>
        rw [signs] at start rest
        intro c member
        rcases List.mem_cons.mp member with rfl | member
        · simp only [List.head?_cons, Option.any_some] at start
          simp [nameRest, start]
        · exact List.all_eq_true.mp rest c member
    · intro part member
      have fine := fun bad => parts (List.any_eq_true.mpr ⟨part, member, bad⟩)
      simpa [not_or, and_assoc] using fine
  · cases h

theorem sign_up_to_slash {c : Char} (sign : nameRest c) (below : c ≤ '/') : c = '-' ∨ c = '.' ∨ c = '/' := by
  simp only [nameRest, nameStart, Bool.or_eq_true, beq_iff_eq] at sign
  rcases sign with (((alphanumeric | rfl) | rfl) | rfl) | rfl
  · delta Char.isAlphanum Char.isAlpha Char.isUpper Char.isLower Char.isDigit at alphanumeric
    simp only [Bool.or_eq_true, Bool.and_eq_true, decide_eq_true_eq, UInt32.le_iff_toNat_le, ge_iff_le] at alphanumeric
    have low : c.val.toNat ≤ 47 := UInt32.le_iff_toNat_le.mp below
    have ends : 'A'.val.toNat = 65 ∧ 'a'.val.toNat = 97 ∧ '0'.val.toNat = 48 := by decide
    omega
  · exact absurd below (by decide)
  · exact .inl rfl
  · exact .inr (.inl rfl)
  · exact .inr (.inr rfl)

/-! ### Members and entries -/

theorem readMember_ok {s s' : Dict String Bytes × Int} {item : Member} (h : readMember s item = .ok s') :
    item.name ∉ s.1 ∧ s'.1 = s.1.assign item.name item.data := by
  unfold readMember at h
  split at h
  · cases h
  next fresh =>
  refine ⟨fun there => fresh (.inr (.inr there)), ?_⟩
  have sized : (if item.size < 0 ∨ s.2 + item.size > maxBytes then (throw "Expanded patch exceeds size limit" : Except String _)
      else pure (s.1.assign item.name item.data, s.2 + item.size)) = .ok s' → s'.1 = s.1.assign item.name item.data := by
    intro h
    split at h
    · cases h
    · cases h
      rfl
  dsimp only at h
  split at h
  · split at h
    · cases h
    · obtain ⟨_, -, h⟩ := bind_ok h
      exact sized h
  · exact sized h

variable {files files' : Dict String Bytes} {name : String} {names : List String}

theorem readMembers_lookup {members : List Member} {total : Int}
    (h : members.foldlM readMember (∅, 0) = .ok (files, total)) :
    (∀ m ∈ members, files.lookup m.name = some m.data) ∧ ∀ key, (∀ m ∈ members, m.name ≠ key) → files.lookup key = none := by
  refine foldlM_invariant (fun done s => (∀ m ∈ done, s.1.lookup m.name = some m.data) ∧
    ∀ key, (∀ m ∈ done, m.name ≠ key) → s.1.lookup key = none) ?_ ⟨nofun, fun _ _ => AList.lookup_empty _⟩ h
  intro done s item s' ⟨kept, others⟩ step
  obtain ⟨fresh, assigned⟩ := readMember_ok step
  rw [assigned]
  constructor
  · intro m member
    rw [Dict.lookup_assign]
    rcases List.mem_append.mp member with member | member
    · have other : m.name ≠ item.name := by
        intro same
        rw [← AList.lookup_isSome, ← same, kept m member] at fresh
        exact fresh rfl
      rw [if_neg other]
      exact kept m member
    · rw [List.mem_singleton.mp member, if_pos rfl]
  · intro key absent
    rw [Dict.lookup_assign, if_neg (absent item (List.mem_append_right _ List.mem_cons_self)).symm]
    exact others key fun m member => absent m (List.mem_append_left _ member)

theorem takeContent_kept {name key : String} {after : Option String} {data : Bytes}
    {content : Option (String × Bytes)} (h : takeContent P files name after = .ok (content, files'))
    (there : files.lookup key = some data) :
    files'.lookup key = some data ∨ (key = "files/" ++ name ∧ content = some (P.digest data, data)) := by
  unfold takeContent at h
  split at h
  · cases h
    exact .inl there
  · next hash =>
    split at h
    · cases h
    next found inside =>
    split at h
    · cases h
    next fits =>
    split at h
    · cases h
    cases h
    by_cases same : key = "files/" ++ name
    · subst same
      cases Option.some.inj (inside.symm.trans there)
      exact .inr ⟨rfl, by rw [not_not.mp fits]⟩
    · exact .inl (by rw [AList.lookup_erase_ne same, there])

theorem checkEntry_ok {seen : List String} {entry : RawEntry} {e : PatchEntry}
    (h : checkEntry P seen files entry = .ok (e, files')) :
    e.path = entry.path ∧ Confined e.path ∧ takeContent P files e.path entry.after = .ok (e.after, files') := by
  unfold checkEntry at h
  obtain ⟨name, coded, h⟩ := bind_ok h
  cases codePath_ok coded
  split at h
  · cases h
  split at h
  · cases h
  split at h
  · cases h
  obtain ⟨⟨content, rest⟩, taken, h⟩ := bind_ok h
  dsimp only at h
  split at h
  · cases h
  cases h
  exact ⟨rfl, codePath_confined coded, taken⟩

theorem checkEntries_ok {entries : List RawEntry} {seen : List String} {es : List PatchEntry}
    (h : checkEntries P seen files entries = .ok (es, files')) :
    es.map PatchEntry.path = entries.map RawEntry.path ∧ (∀ e ∈ es, Confined e.path) ∧
      ∀ key data, files.lookup key = some data →
        files'.lookup key = some data ∨ ∃ e ∈ es, key = "files/" ++ e.path ∧ e.after = some (P.digest data, data) := by
  induction entries generalizing seen files files' es with
  | nil =>
    cases h
    exact ⟨rfl, nofun, fun _ _ => .inl⟩
  | cons entry rest ih =>
    obtain ⟨⟨e, files₁⟩, first, h⟩ := bind_ok h
    obtain ⟨⟨es', files₂⟩, others, h⟩ := bind_ok h
    cases h
    obtain ⟨named, confined, taken⟩ := checkEntry_ok first
    obtain ⟨names, rest, kept⟩ := ih others
    refine ⟨by rw [List.map_cons, List.map_cons, named, names], List.forall_mem_cons.mpr ⟨confined, rest⟩, ?_⟩
    intro key data there
    rcases takeContent_kept taken there with still | ⟨same, content⟩
    · rcases kept key data still with left | ⟨e', member, here⟩
      · exact .inl left
      · exact .inr ⟨e', List.mem_cons_of_mem e member, here⟩
    · exact .inr ⟨e, List.mem_cons_self, same, content⟩

theorem unpack_ok {data : Bytes} {package : Package} (h : unpack P data = .ok package) :
    ∃ members, P.members data = some members ∧ package.files.map PatchEntry.path = targets P data ∧
      (∀ e ∈ package.files, Confined e.path) ∧
      (∀ m ∈ members, m.name ≠ "patch.json" →
        ∃ e ∈ package.files, m.name = "files/" ++ e.path ∧ e.after = some (P.digest m.data, m.data)) ∧
      overlaps ((package.files.map PatchEntry.path).mergeSort (· ≤ ·)) = false := by
  unfold unpack at h
  split at h
  · cases h
  next members archive =>
  obtain ⟨⟨files, total⟩, read, h⟩ := bind_ok h
  obtain ⟨there, absent⟩ := readMembers_lookup read
  dsimp only at h
  split at h
  · cases h
  next manifest decoded =>
  split at h
  · cases h
  obtain ⟨⟨entries, rest⟩, checked, h⟩ := bind_ok h
  dsimp only at h
  split at h
  · cases h
  next left =>
  split at h
  · cases h
  next apart =>
  cases h
  obtain ⟨names, confined, kept⟩ := checkEntries_ok checked
  have first : files.lookup "patch.json" = (members.find? (·.name = "patch.json")).map Member.data := by
    cases found : members.find? (·.name = "patch.json") with
    | none =>
      have nobody := List.find?_eq_none.mp found
      exact absent _ fun m member => by simpa using nobody m member
    | some m =>
      have name := List.find?_some found
      rw [← of_decide_eq_true name]
      exact there m (List.mem_of_find?_eq_some found)
  refine ⟨members, archive, ?_, confined, ?_, by simpa using apart⟩
  · rw [names, targets, archive]
    dsimp only
    rw [← first, decoded]
  · intro m member other
    have inside : (files.erase "patch.json").lookup m.name = some m.data := by
      rw [AList.lookup_erase_ne other]
      exact there m member
    rcases kept m.name m.data inside with still | declared
    · rw [← Dict.mem_items, not_not.mp left] at still
      cases still
    · exact declared

theorem overlaps_cons (h : overlaps names) : overlaps (name :: names) := by
  cases names with
  | nil => cases h
  | cons next rest =>
    rw [overlaps, h, Bool.or_true]

theorem overlaps_adjacent {front rest : List String} {upper lower : String} (above : Above upper lower) :
    overlaps (front ++ upper :: lower :: rest) := by
  induction front with
  | nil =>
    have here : (upper ++ "/").toList.isPrefixOf lower.toList := by
      rw [List.isPrefixOf_iff_prefix, String.toList_append]
      exact above
    rw [List.nil_append, overlaps, here, Bool.true_or]
  | cons name front ih => exact overlaps_cons ih

theorem sorted_words (distinct : names.Nodup) :
    ((names.mergeSort (· ≤ ·)).map String.toList).Pairwise (· < ·) := by
  have ordered : (names.mergeSort (· ≤ ·)).Pairwise (· ≤ ·) := List.pairwise_mergeSort' _ names
  have apart : (names.mergeSort (· ≤ ·)).Pairwise (· ≠ ·) := (List.mergeSort_perm names _).nodup_iff.mpr distinct
  rw [List.pairwise_map]
  exact (ordered.and apart).imp fun both => String.lt_iff_toList_lt.mp (lt_of_le_of_ne both.1 both.2)

theorem apart_of_separated (distinct : names.Nodup) (confined : ∀ name ∈ names, Confined name)
    (checked : overlaps (names.mergeSort (· ≤ ·)) = false) (separated : Separated names) :
    ∀ upper ∈ names, ∀ lower ∈ names, ¬ Above upper lower := by
  intro upper here lower there above
  obtain ⟨v, extended⟩ := above
  have later : upper.toList ++ '/' :: v ∈ (names.mergeSort (· ≤ ·)).map String.toList := by
    rw [List.append_cons, extended]
    exact List.mem_map_of_mem (List.mem_mergeSort.mpr there)
  obtain ⟨front, c, w, rest, split, below⟩ := successor_extends (sorted_words distinct)
    (List.mem_map_of_mem (List.mem_mergeSort.mpr here)) later
  obtain ⟨next, member, word⟩ := List.mem_map.mp (split ▸ by simp : upper.toList ++ c :: w ∈ (names.mergeSort (· ≤ ·)).map String.toList)
  have member := List.mem_mergeSort.mp member
  have extends' : upper.toList ++ [c] <+: next.toList := ⟨w, by rw [word, List.append_assoc]; rfl⟩
  have sign := (confined next member).signs c (by simp [word])
  rcases sign_up_to_slash sign below with rfl | rfl | rfl
  · exact separated upper here next member ⟨'-', by simp, extends'⟩ lower there ⟨v, extended⟩
  · exact separated upper here next member ⟨'.', by simp, extends'⟩ lower there ⟨v, extended⟩
  · have order : names.mergeSort (· ≤ ·) = front.map String.ofList ++ upper :: next :: rest.map String.ofList := by
      have := congrArg (List.map String.ofList) split
      simpa [← word] using this
    rw [order, overlaps_adjacent extends'] at checked
    cases checked

/-- An accepted package is consistent exactly when no target goes on after the directory of another with a
sign before `/`. -/
theorem accepted_consistent_iff (P : Platform) (data : Bytes) :
    (∀ members package, P.members data = some members → unpack P data = .ok package → Consistent P members package) ↔
      (accepts P data → Separated (targets P data)) := by
  constructor
  · intro consistent ⟨package, accepted⟩
    obtain ⟨members, archive, names, -⟩ := unpack_ok accepted
    have apart := (consistent members package archive accepted).apart
    rw [← names]
    intro upper here _ _ _ lower there
    obtain ⟨e, member, rfl⟩ := List.mem_map.mp here
    obtain ⟨e', member', rfl⟩ := List.mem_map.mp there
    exact apart e member e' member'
  · intro separated members package archive accepted
    obtain ⟨members', archive', names, confined, declared, checked⟩ := unpack_ok accepted
    cases Option.some.inj (archive.symm.trans archive')
    have once := unpack_distinct accepted
    refine ⟨?_, confined, once, ?_⟩
    · intro m member other
      obtain ⟨e, inside, named, content⟩ := declared m member other
      refine ⟨e, ⟨inside, named, content⟩, ?_⟩
      rintro e' ⟨inside', named', -⟩
      have path : "files/" ++ e'.path = "files/" ++ e.path := named'.symm.trans named
      exact List.inj_on_of_nodup_map once inside' inside (String.append_right_inj _ |>.mp path)
    · intro e member e' member'
      have paths : ∀ name ∈ package.files.map PatchEntry.path, Confined name := by
        intro name there
        obtain ⟨e, inside, rfl⟩ := List.mem_map.mp there
        exact confined e inside
      exact apart_of_separated once paths checked (names ▸ separated ⟨package, accepted⟩) _ (List.mem_map_of_mem member) _
        (List.mem_map_of_mem member')


/-! ### A name between a file and what is below it -/

def layeredArchive : Bytes :=
  [31, 139, 8, 0, 0, 0, 0, 0, 2, 3, 237, 214, 205, 110, 219, 48, 12, 7, 112, 159, 247, 20, 133, 206, 105, 67, 81, 31,
   148, 242, 42, 195, 14, 18, 37, 34, 41, 218, 166, 136, 189, 93, 138, 188, 251, 132, 110, 24, 150, 182, 59, 46, 65,
   91, 254, 46, 50, 104, 24, 132, 69, 255, 109, 63, 150, 133, 183, 55, 183, 243, 254, 97, 250, 111, 96, 136, 222, 63,
   175, 195, 203, 21, 2, 198, 63, 199, 191, 234, 68, 30, 167, 43, 152, 206, 224, 251, 188, 148, 195, 104, 57, 125,
   78, 79, 102, 230, 109, 191, 47, 102, 99, 87, 230, 71, 63, 204, 187, 253, 131, 217, 24, 52, 43, 35, 187, 187, 62,
   155, 205, 215, 39, 243, 88, 150, 237, 40, 142, 157, 90, 118, 188, 46, 227, 113, 25, 167, 139, 44, 253, 48, 170,
   105, 204, 42, 9, 7, 196, 4, 174, 57, 11, 49, 116, 170, 220, 29, 11, 56, 233, 158, 2, 228, 24, 157, 237, 161, 3,
   213, 218, 168, 128, 180, 30, 129, 61, 11, 6, 38, 115, 92, 189, 213, 225, 122, 127, 215, 78, 27, 1, 70, 151, 48,
   231, 148, 107, 148, 150, 131, 23, 194, 90, 138, 160, 112, 244, 149, 177, 163, 128, 109, 49, 99, 243, 173, 19, 230,
   20, 123, 73, 144, 36, 246, 113, 141, 117, 242, 143, 70, 107, 62, 109, 83, 92, 25, 55, 96, 131, 0, 115, 32, 95,
   200, 177, 147, 92, 123, 173, 113, 52, 241, 226, 80, 164, 133, 26, 169, 186, 68, 232, 61, 35, 103, 200, 173, 16,
   229, 98, 61, 37, 115, 252, 118, 124, 63, 243, 127, 30, 242, 250, 175, 237, 184, 64, 254, 1, 240, 52, 255, 214, 90,
   240, 154, 255, 115, 40, 95, 38, 245, 137, 189, 202, 255, 239, 247, 238, 101, 243, 143, 72, 78, 243, 127, 14, 85,
   243, 175, 249, 95, 191, 252, 29, 186, 248, 247, 159, 188, 213, 252, 159, 3, 107, 254, 149, 82, 74, 41, 165, 148,
   82, 74, 41, 165, 148, 82, 74, 41, 165, 62, 148, 159, 91, 71, 8, 221, 0, 40, 0, 0]

def layeredManifest : Bytes :=
  [123, 34, 115, 99, 104, 101, 109, 97, 34, 58, 49, 44, 34, 118, 101, 114, 115, 105, 111, 110, 34, 58, 34, 50, 34,
   44, 34, 102, 105, 108, 101, 115, 34, 58, 91, 123, 34, 112, 97, 116, 104, 34, 58, 34, 115, 116, 97, 116, 105, 99,
   47, 97, 46, 106, 115, 34, 44, 34, 97, 102, 116, 101, 114, 34, 58, 34, 56, 55, 52, 50, 56, 102, 99, 53, 50, 50, 56,
   48, 51, 100, 51, 49, 48, 54, 53, 101, 55, 98, 99, 101, 51, 99, 102, 48, 51, 102, 101, 52, 55, 53, 48, 57, 54, 54,
   51, 49, 101, 53, 101, 48, 55, 98, 98, 100, 55, 97, 48, 102, 100, 101, 54, 48, 99, 52, 99, 102, 50, 53, 99, 55, 34,
   125, 44, 123, 34, 112, 97, 116, 104, 34, 58, 34, 115, 116, 97, 116, 105, 99, 47, 97, 46, 106, 115, 45, 111, 108,
   100, 46, 106, 115, 34, 44, 34, 97, 102, 116, 101, 114, 34, 58, 34, 48, 50, 54, 51, 56, 50, 57, 57, 56, 57, 98, 54,
   102, 100, 57, 53, 52, 102, 55, 50, 98, 97, 97, 102, 50, 102, 99, 54, 52, 98, 99, 50, 101, 50, 102, 48, 49, 100,
   54, 57, 50, 100, 52, 100, 101, 55, 50, 57, 56, 54, 101, 97, 56, 48, 56, 102, 54, 101, 57, 57, 56, 49, 51, 102, 34,
   125, 44, 123, 34, 112, 97, 116, 104, 34, 58, 34, 115, 116, 97, 116, 105, 99, 47, 97, 46, 106, 115, 47, 99, 46,
   106, 115, 34, 44, 34, 97, 102, 116, 101, 114, 34, 58, 34, 97, 51, 97, 53, 101, 55, 49, 53, 102, 48, 99, 99, 53,
   55, 52, 97, 55, 51, 99, 51, 102, 57, 98, 101, 98, 98, 54, 98, 99, 50, 52, 102, 51, 50, 102, 102, 100, 53, 98, 54,
   55, 98, 51, 56, 55, 50, 52, 52, 99, 50, 99, 57, 48, 57, 100, 97, 55, 55, 57, 97, 49, 52, 55, 56, 34, 125, 93, 125]

def layeredHashes : List String := [
  "87428fc522803d31065e7bce3cf03fe475096631e5e07bbd7a0fde60c4cf25c7",
  "0263829989b6fd954f72baaf2fc64bc2e2f01d692d4de72986ea808f6e99813f",
  "a3a5e715f0cc574a73c3f9bebb6bc24f32ffd5b67b387244c2c909da779a1478"]

def layeredEntries : List RawEntry := [
  ⟨"static/a.js", none, layeredHashes[0]?, none⟩,
  ⟨"static/a.js-old.js", none, layeredHashes[1]?, none⟩,
  ⟨"static/a.js/c.js", none, layeredHashes[2]?, none⟩]

def layeredMembers : List Member := [
  ⟨"patch.json", true, 342, layeredManifest⟩,
  ⟨"files/static/a.js", true, 2, [97, 10]⟩,
  ⟨"files/static/a.js-old.js", true, 2, [98, 10]⟩,
  ⟨"files/static/a.js/c.js", true, 2, [99, 10]⟩]

/-- What `hashlib`, `tarfile` and `json` make of these bytes. -/
def layeredPlatform : Platform where
  digest data := layeredHashes.getD (data.headD 0 - 97).toNat ""
  members data := if data = layeredArchive then some layeredMembers else none
  manifest data := if data = layeredManifest then some ⟨some 1, some "2", layeredEntries, []⟩ else none
  compiles _ _ := true
  found _ := none

def layeredFiles : Dict String Bytes := layeredMembers.foldl (fun files m => files.assign m.name m.data) ∅

def layeredTargets : List PatchEntry := [
  ⟨"static/a.js", none, some (layeredHashes.getD 0 "", [97, 10]), 0o644⟩,
  ⟨"static/a.js-old.js", none, some (layeredHashes.getD 1 "", [98, 10]), 0o644⟩,
  ⟨"static/a.js/c.js", none, some (layeredHashes.getD 2 "", [99, 10]), 0o644⟩]

theorem layered_accepted : accepts layeredPlatform layeredArchive := by
  have read : layeredMembers.foldlM readMember (∅, 0) = .ok (layeredFiles, 348) := ok_of_toOption (by decide +kernel)
  have checked : checkEntries layeredPlatform [] (layeredFiles.erase "patch.json") layeredEntries = .ok (layeredTargets, ∅) :=
    ok_of_toOption (by decide +kernel)
  have sorted : (layeredTargets.map PatchEntry.path).mergeSort (· ≤ ·) = layeredTargets.map PatchEntry.path :=
    List.mergeSort_of_pairwise (by decide +kernel)
  have content : (layeredFiles.lookup "patch.json").getD [0x7B, 0x7D] = layeredManifest := by decide +kernel
  have manifest : layeredPlatform.manifest ((layeredFiles.lookup "patch.json").getD [0x7B, 0x7D]) =
      some ⟨some 1, some "2", layeredEntries, []⟩ := by simp only [layeredPlatform, content, if_true]
  refine ⟨⟨some "2", [], layeredTargets⟩, ?_⟩
  unfold unpack
  rw [show layeredPlatform.members layeredArchive = some layeredMembers by simp only [layeredPlatform, if_true]]
  dsimp only
  rw [read]
  dsimp only [bind, Except.bind]
  rw [manifest]
  dsimp only
  rw [if_neg (by decide), checked]
  dsimp only
  rw [if_neg (by decide), sorted, if_neg (by decide +kernel)]
  rfl

/-- `static/a.js` and what is below it are both taken, with `static/a.js-old.js` between them. -/
theorem directory_overlooked :
    ¬ ∀ members package, layeredPlatform.members layeredArchive = some members →
      unpack layeredPlatform layeredArchive = .ok package → Consistent layeredPlatform members package := by
  intro consistent
  obtain ⟨package, accepted⟩ := layered_accepted
  obtain ⟨members, archive, names, -⟩ := unpack_ok accepted
  have apart := (consistent members package archive accepted).apart
  have targets' : targets layeredPlatform layeredArchive = ["static/a.js", "static/a.js-old.js", "static/a.js/c.js"] := by decide +kernel
  have upper : "static/a.js" ∈ package.files.map PatchEntry.path := by simp [names, targets']
  have lower : "static/a.js/c.js" ∈ package.files.map PatchEntry.path := by simp [names, targets']
  obtain ⟨e, member, path⟩ := List.mem_map.mp upper
  obtain ⟨e', member', path'⟩ := List.mem_map.mp lower
  refine apart e member e' member' ?_
  rw [path, path']
  exact ⟨"c.js".toList, by decide⟩

end FfnNgfw.Patch
