import FfnNgfw.Fpga.Compiler
import FfnNgfw.Lib.Separated
import FfnNgfw.Threatdb.Text
import Mathlib.Data.List.ReduceOption

/-!
# Security rules as words of the TCAM

A line of a policy file is read by `compile_policy` and becomes a match word and a meta
word, whose bits the comments of the compiler lay out. The layout has no place for the
end of the source ports and too few bits for a host prefix; a port without a dash is
read as all ports. Networks are those of IPv4.
-/

namespace FfnNgfw.Fpga
open Policy (isSpace ipNetwork)
open Threatdb

/-! ### Lines -/

/-- `PROTO_MAP` -/
def protoMap : List (String × Nat) :=
  [("any", 0), ("tcp", 6), ("udp", 17), ("icmp", 1), ("gre", 47), ("esp", 50), ("ah", 51), ("sctp", 132)]

def actionMap : List (String × PolicyAction) :=
  [("allow", .allow), ("permit", .allow), ("deny", .deny), ("log", .log), ("punt", .punt)]

/-- No letter outside ASCII has a lower case that these tables know. -/
def lowered (s : Text) : String := String.ofList (s.map Char.toLower)

/-- `_net_to_int` of an IPv4 network. -/
def netToInt (s : Text) : Option (Nat × Nat) :=
  match ipNetwork (strip s) with
  | some (.net base len) => some (base.toNat, len)
  | _ => none

section

-- `decimal` is the value of a decimal digit outside ASCII.
variable (decimal : Char → Option Nat)

def portRange (s : Text) : Option (Option (Nat × Nat)) :=
  if '-' ∈ s then
    match (s.splitOn '-').mapM (pyInt decimal 10) with
    | some [lo, hi] => some (some (lo.toNat, hi.toNat))
    | _ => none
  else some none

/-- `none` where the compiler raises, `some none` for a line it skips. -/
def readLine (line : Text) : Option (Option PolicyLine) :=
  match fields line with
  | ruleId :: src :: dst :: proto :: sport :: dport :: action :: _ => do
    let ruleId ← pyInt decimal 10 ruleId
    let (srcIp, srcPfx) ← netToInt src
    let (dstIp, dstPfx) ← netToInt dst
    let sport ← portRange decimal sport
    let dport ← portRange decimal dport
    let protoNum := (protoMap.lookup (lowered proto)).getD 0
    let action := (actionMap.lookup (lowered action)).getD .deny
    return some { ruleId, srcIp, srcPfx, dstIp, dstPfx, protoNum, sport, dport, action }
  | _ => some none

def compileLines (lines : List Text) : Option (List (Nat × Nat) × List UInt8) := do
  let rules ← lines.mapM (readLine decimal)
  compilePolicy rules.reduceOption

structure Rule where
  source : Nat × Nat
  destination : Nat × Nat
  protoNum : Nat
  action : PolicyAction
  sports : Nat × Nat
  dports : Nat × Nat
  deriving DecidableEq

def portsSaid (s : Text) : Nat × Nat :=
  match portRange decimal s, pyInt decimal 10 s with
  | some (some range), _ => range
  | _, some port => (port.toNat, port.toNat)
  | _, none => (0, 65535)

def PolicyLine.rule (r : PolicyLine) (sports dports : Nat × Nat) : Rule where
  source := (r.srcIp, r.srcPfx)
  destination := (r.dstIp, r.dstPfx)
  protoNum := r.protoNum
  action := r.action
  sports := sports
  dports := dports

def said (line : Text) (r : PolicyLine) : Rule :=
  r.rule (portsSaid decimal ((fields line).getD 4 [])) (portsSaid decimal ((fields line).getD 5 []))

end

structure Layout where
  srcIp : Nat
  dstIp : Nat
  valid : Nat
  action : Nat
  srcPfx : Nat
  dstPfx : Nat
  proto : Nat
  dpLo : Nat
  spLo : Nat
  dpHi : Nat
  ruleId : Nat
  deriving DecidableEq

/-- The fields at the bits where the comments of the compiler put them. -/
def decode (matchWord metaWord : Nat) : Layout where
  srcIp := matchWord >>> 32
  dstIp := matchWord &&& 0xFFFFFFFF
  valid := metaWord >>> 63
  action := (metaWord >>> 61) &&& 0x3
  srcPfx := (metaWord >>> 56) &&& 0x1F
  dstPfx := (metaWord >>> 51) &&& 0x1F
  proto := (metaWord >>> 43) &&& 0xFF
  dpLo := (metaWord >>> 27) &&& 0xFFFF
  spLo := (metaWord >>> 11) &&& 0xFFFF
  dpHi := (metaWord >>> 3) &&& 0xFF
  ruleId := metaWord &&& 0x7

namespace PolicyLine

def decoded (r : PolicyLine) : Layout := decode r.matchWord r.metaWord

def documented (r : PolicyLine) : Layout where
  srcIp := r.srcIp
  dstIp := r.dstIp
  valid := 1
  action := r.action.val
  srcPfx := r.srcPfx
  dstPfx := r.dstPfx
  proto := r.protoNum
  dpLo := (r.dport.getD (0, 65535)).1
  spLo := (r.sport.getD (0, 65535)).1
  dpHi := (r.dport.getD (0, 65535)).2 >>> 8
  ruleId := (r.ruleId % 8).toNat

/-- The numbers a line can hold: 32-bit addresses, 8-bit protocols. -/
structure Sized (r : PolicyLine) : Prop where
  srcIp : r.srcIp < 2 ^ 32
  dstIp : r.dstIp < 2 ^ 32
  srcPfx : r.srcPfx ≤ 32
  dstPfx : r.dstPfx ≤ 32
  protoNum : r.protoNum < 2 ^ 8

end PolicyLine

/-- Decoding gives the rule back: no other line has words with the same fields and says
another rule. -/
def GivesBack (decimal : Char → Option Nat) (line : Text) (r : PolicyLine) : Prop :=
  ∀ other r', parseLines (other ++ ['\n']) = [other] → readLine decimal other = some (some r') → r'.decoded = r.decoded →
    said decimal other r' = said decimal line r

theorem matchWord_sum {r : PolicyLine} (sized : r.Sized) : r.matchWord = r.srcIp * 2 ^ 32 + r.dstIp := by
  have src : r.srcIp &&& 0xFFFFFFFF = r.srcIp := by
    rw [show (0xFFFFFFFF : Nat) = 2 ^ 32 - 1 from rfl, Nat.and_two_pow_sub_one_eq_mod, Nat.mod_eq_of_lt sized.srcIp]
  have dst : r.dstIp &&& 0xFFFFFFFF = r.dstIp := by
    rw [show (0xFFFFFFFF : Nat) = 2 ^ 32 - 1 from rfl, Nat.and_two_pow_sub_one_eq_mod, Nat.mod_eq_of_lt sized.dstIp]
  rw [PolicyLine.matchWord, src, dst, ← Nat.shiftLeft_add_eq_or_of_lt sized.dstIp, Nat.shiftLeft_eq]

theorem field_above {x width pos low : Nat} (below : low < 2 ^ pos) :
    ((x % 2 ^ width) <<< pos) ||| low = x % 2 ^ width * 2 ^ pos + low := by
  rw [← Nat.shiftLeft_add_eq_or_of_lt below, Nat.shiftLeft_eq]

theorem mod_bound (x : Nat) {width : Nat} : x % 2 ^ width < 2 ^ width := Nat.mod_lt _ (Nat.two_pow_pos width)

theorem action_bound (a : PolicyAction) : a.val < 4 := by
  cases a <;> decide

theorem metaWord_sum (r : PolicyLine) :
    r.metaWord = 2 ^ 63 + (r.action.val * 2 ^ 61 + (r.srcPfx % 2 ^ 5 * 2 ^ 56 + (r.dstPfx % 2 ^ 5 * 2 ^ 51 +
      (r.protoNum % 2 ^ 8 * 2 ^ 43 + ((r.dport.getD (0, 65535)).1 % 2 ^ 16 * 2 ^ 27 +
        ((r.sport.getD (0, 65535)).1 % 2 ^ 16 * 2 ^ 11 + ((r.dport.getD (0, 65535)).2 >>> 8) % 2 ^ 11)))))) := by
  unfold PolicyLine.metaWord
  generalize r.sport.getD (0, 65535) = sports
  generalize r.dport.getD (0, 65535) = dports
  obtain ⟨spLo, spHi⟩ := sports
  obtain ⟨dpLo, dpHi⟩ := dports
  dsimp only
  rw [show (0x3 : Nat) = 2 ^ 2 - 1 from rfl, show (0x1F : Nat) = 2 ^ 5 - 1 from rfl, show (0xFF : Nat) = 2 ^ 8 - 1 from rfl,
    show (0xFFFF : Nat) = 2 ^ 16 - 1 from rfl, show (0x7FF : Nat) = 2 ^ 11 - 1 from rfl]
  simp only [Nat.and_two_pow_sub_one_eq_mod, Nat.or_assoc]
  have action : r.action.val % 2 ^ 2 = r.action.val := Nat.mod_eq_of_lt (action_bound r.action)
  have small := action_bound r.action
  generalize dpHi >>> 8 = top
  rw [@field_above _ _ 11 _ (by omega), @field_above _ _ 27 _ (by omega), @field_above _ _ 43 _ (by omega),
    @field_above _ _ 51 _ (by omega), @field_above _ _ 56 _ (by omega), @field_above _ _ 61 _ (by omega),
    ← @Nat.shiftLeft_add_eq_or_of_lt 63 _ (by omega), Nat.shiftLeft_eq, Nat.one_mul, action]

theorem sum_fields {action srcPfx dstPfx proto dpLo spLo low : Nat} (srcBound : srcPfx < 2 ^ 5) (dstBound : dstPfx < 2 ^ 5)
    (actionBound : action < 4) (protoBound : proto < 2 ^ 8) (dpBound : dpLo < 2 ^ 16) (spBound : spLo < 2 ^ 16)
    (lowBound : low < 2 ^ 11) (word : Nat)
    (sum : word = 2 ^ 63 + (action * 2 ^ 61 + (srcPfx * 2 ^ 56 + (dstPfx * 2 ^ 51 + (proto * 2 ^ 43 + (dpLo * 2 ^ 27 +
      (spLo * 2 ^ 11 + low))))))) :
    word / 2 ^ 63 = 1 ∧ word / 2 ^ 61 % 2 ^ 2 = action ∧ word / 2 ^ 56 % 2 ^ 5 = srcPfx ∧ word / 2 ^ 51 % 2 ^ 5 = dstPfx ∧
      word / 2 ^ 43 % 2 ^ 8 = proto ∧ word / 2 ^ 27 % 2 ^ 16 = dpLo ∧ word / 2 ^ 11 % 2 ^ 16 = spLo ∧
      word / 2 ^ 3 % 2 ^ 8 = low / 2 ^ 3 ∧ word % 2 ^ 3 = low % 2 ^ 3 := by
  refine ⟨?_, ?_, ?_, ?_, ?_, ?_, ?_, ?_, ?_⟩ <;> omega

theorem decoded_eq {r : PolicyLine} (sized : r.Sized) :
    r.decoded =
      { r.documented with
        srcPfx := r.srcPfx % 2 ^ 5
        dstPfx := r.dstPfx % 2 ^ 5
        dpLo := (r.dport.getD (0, 65535)).1 % 2 ^ 16
        spLo := (r.sport.getD (0, 65535)).1 % 2 ^ 16
        dpHi := (r.dport.getD (0, 65535)).2 / 2 ^ 8 % 2 ^ 11 / 2 ^ 3
        ruleId := (r.dport.getD (0, 65535)).2 / 2 ^ 8 % 2 ^ 11 % 2 ^ 3 } := by
  have matched := matchWord_sum sized
  have src := sized.srcIp
  have dst := sized.dstIp
  have low := metaWord_sum r
  rw [Nat.shiftRight_eq_div_pow] at low
  obtain ⟨valid, action, srcPfx, dstPfx, proto, dpLo, spLo, dpHi, ruleId⟩ :=
    sum_fields (mod_bound _) (mod_bound _) (action_bound r.action) (mod_bound _) (mod_bound _) (mod_bound _) (mod_bound _) _ low
  rw [PolicyLine.decoded, PolicyLine.documented, decode, Layout.mk.injEq]
  rw [show (0x3 : Nat) = 2 ^ 2 - 1 from rfl, show (0x1F : Nat) = 2 ^ 5 - 1 from rfl, show (0xFF : Nat) = 2 ^ 8 - 1 from rfl,
    show (0xFFFF : Nat) = 2 ^ 16 - 1 from rfl, show (0xFFFFFFFF : Nat) = 2 ^ 32 - 1 from rfl, show (0x7 : Nat) = 2 ^ 3 - 1 from rfl]
  simp only [Nat.and_two_pow_sub_one_eq_mod, Nat.shiftRight_eq_div_pow]
  rw [Nat.mod_eq_of_lt sized.protoNum] at proto
  exact ⟨by omega, by omega, valid, action, srcPfx, dstPfx, proto, dpLo, spLo, dpHi, ruleId⟩

theorem decoded_documented_iff {r : PolicyLine} (sized : r.Sized) :
    r.decoded = r.documented ↔
      r.srcPfx ≠ 32 ∧ r.dstPfx ≠ 32 ∧ (r.dport.getD (0, 65535)).1 < 65536 ∧ (r.sport.getD (0, 65535)).1 < 65536 ∧
        (r.dport.getD (0, 65535)).2 < 256 ∧ r.ruleId % 8 = 0 := by
  have src := sized.srcPfx
  have dst := sized.dstPfx
  rw [decoded_eq sized, PolicyLine.documented, Layout.mk.injEq, Nat.shiftRight_eq_div_pow]
  generalize r.sport.getD (0, 65535) = sports
  generalize r.dport.getD (0, 65535) = dports
  constructor
  · rintro ⟨-, -, -, -, srcPfx, dstPfx, -, dpLo, spLo, dpHi, ruleId⟩
    have top : dports.2 / 2 ^ 8 = 0 := by
      have less : dports.2 / 2 ^ 8 % 2 ^ 11 / 2 ^ 3 ≤ dports.2 / 2 ^ 8 / 2 ^ 3 := Nat.div_le_div_right (Nat.mod_le _ _)
      rw [dpHi] at less
      omega
    rw [top] at ruleId
    refine ⟨by omega, by omega, by omega, by omega, by omega, by omega⟩
  · rintro ⟨srcPfx, dstPfx, dpLo, spLo, dpHi, ruleId⟩
    refine ⟨rfl, rfl, rfl, rfl, by omega, by omega, rfl, by omega, by omega, by omega, by omega⟩

section lines

variable {decimal : Char → Option Nat} {line : Text} {r : PolicyLine}

theorem maskLength_bound {mask : UInt32} {len : Nat} (found : Policy.maskLength mask = some len) : len ≤ 32 := by
  have inside := List.mem_of_find?_eq_some found
  rw [List.mem_range] at inside
  omega

theorem prefixLength_bound {s : Text} {len : Nat} (read : Policy.prefixLength s = some len) : len ≤ 32 := by
  unfold Policy.prefixLength at read
  split at read
  · split at read
    · rename_i small
      cases read
      exact small
    · cases read
  · obtain ⟨mask, _, found⟩ := Option.bind_eq_some_iff.mp read
    cases first : Policy.maskLength mask with
    | some len' =>
      rw [first] at found
      cases found
      exact maskLength_bound first
    | none =>
      rw [first] at found
      exact maskLength_bound found

theorem netToInt_sized {s : Text} {net : Nat × Nat} (read : netToInt s = some net) : net.1 < 2 ^ 32 ∧ net.2 ≤ 32 := by
  unfold netToInt at read
  split at read
  · rename_i base len found
    cases read
    refine ⟨base.toNat_lt, ?_⟩
    unfold ipNetwork at found
    split at found
    · obtain ⟨a, _, same⟩ := Option.map_eq_some_iff.mp found
      cases same
      exact Nat.le_refl 32
    · obtain ⟨a, _, found⟩ := Option.bind_eq_some_iff.mp found
      obtain ⟨len', read, same⟩ := Option.bind_eq_some_iff.mp found
      cases same
      exact prefixLength_bound read
    · cases found
  · cases read

theorem protoMap_bound (name : String) : (protoMap.lookup name).getD 0 < 2 ^ 8 := by
  have all : ∀ entry ∈ protoMap, entry.2 < 2 ^ 8 := by decide
  cases found : protoMap.lookup name with
  | none => decide
  | some n =>
    obtain ⟨before, after, whole, -⟩ := List.lookup_eq_some_iff.mp found
    exact all (name, n) (by rw [whole]; simp)

theorem readLine_some (rule : readLine decimal line = some (some r)) :
    ∃ ruleId src dst proto sport dport action rest,
      fields line = ruleId :: src :: dst :: proto :: sport :: dport :: action :: rest ∧
      pyInt decimal 10 ruleId = some r.ruleId ∧ netToInt src = some (r.srcIp, r.srcPfx) ∧
      netToInt dst = some (r.dstIp, r.dstPfx) ∧ portRange decimal sport = some r.sport ∧
      portRange decimal dport = some r.dport ∧ r.protoNum = (protoMap.lookup (lowered proto)).getD 0 ∧
      r.action = (actionMap.lookup (lowered action)).getD .deny := by
  unfold readLine at rule
  split at rule
  · rename_i ruleId src dst proto sport dport action rest parts
    obtain ⟨number, idRead, rule⟩ := Option.bind_eq_some_iff.mp rule
    obtain ⟨source, srcRead, rule⟩ := Option.bind_eq_some_iff.mp rule
    obtain ⟨destination, dstRead, rule⟩ := Option.bind_eq_some_iff.mp rule
    obtain ⟨sports, sportRead, rule⟩ := Option.bind_eq_some_iff.mp rule
    obtain ⟨dports, dportRead, rule⟩ := Option.bind_eq_some_iff.mp rule
    cases rule
    exact ⟨ruleId, src, dst, proto, sport, dport, action, rest, parts, idRead, srcRead, dstRead, sportRead, dportRead, rfl, rfl⟩
  · cases rule

theorem readLine_sized (rule : readLine decimal line = some (some r)) : r.Sized := by
  obtain ⟨ruleId, src, dst, proto, sport, dport, action, rest, -, -, srcRead, dstRead, -, -, protoRead, -⟩ := readLine_some rule
  have source := netToInt_sized srcRead
  have destination := netToInt_sized dstRead
  exact ⟨source.1, destination.1, source.2, destination.2, protoRead ▸ protoMap_bound _⟩

theorem readLine_words {ruleId src dst proto sport dport action : Text} {rest : List Text}
    (parts : fields line = ruleId :: src :: dst :: proto :: sport :: dport :: action :: rest)
    (idRead : pyInt decimal 10 ruleId = some r.ruleId) (srcRead : netToInt src = some (r.srcIp, r.srcPfx))
    (dstRead : netToInt dst = some (r.dstIp, r.dstPfx)) (sportRead : portRange decimal sport = some r.sport)
    (dportRead : portRange decimal dport = some r.dport) (protoRead : r.protoNum = (protoMap.lookup (lowered proto)).getD 0)
    (actionRead : r.action = (actionMap.lookup (lowered action)).getD .deny) : readLine decimal line = some (some r) := by
  unfold readLine
  rw [parts]
  dsimp only
  rw [idRead, srcRead, dstRead, sportRead, dportRead, ← protoRead, ← actionRead]
  rfl

end lines

/-! ### Words with blanks between them -/

def joined : List Text → Text
  | [] => []
  | [w] => w
  | w :: ws => w ++ ' ' :: joined ws

section joined

variable {ws : List Text}

attribute [local simp] joined

def Solid (w : Text) : Prop := w ≠ [] ∧ ∀ c ∈ w, isSpace c = false

theorem fields_all_solid (s : Text) : ∀ w ∈ fields s, Solid w := by
  intro w member
  obtain ⟨inside, some'⟩ := List.mem_filter.mp member
  exact ⟨of_decide_eq_true some', fun c there => (mem_of_mem_splitOnP inside there).2⟩

variable {c : Char}

theorem fields_head (solid : isSpace c = false) (s : Text) : ∃ w ws, fields (c :: s) = (c :: w) :: ws := by
  obtain ⟨first, rest, parts⟩ := List.exists_cons_of_ne_nil (List.splitOnP_ne_nil isSpace s)
  unfold fields
  rw [List.splitOnP_cons_eq_if_modifyHead, if_neg (by simp [solid]), parts, List.modifyHead_cons, List.filter_cons_of_pos (by simp)]
  exact ⟨first, _, rfl⟩

theorem strip_solid {raw s : Text} (first : strip raw = c :: s) : isSpace c = false := by
  by_contra space
  have again := strip_strip raw
  rw [first, strip, List.dropWhile_cons_of_pos (eq_true_of_ne_false space)] at again
  have count := congrArg List.length again
  have front := (List.dropWhile_suffix isSpace (l := s)).length_le
  have back := (dropWhile_suffix (s.dropWhile isSpace)).length_le
  rw [List.length_cons] at count
  omega

theorem parseLines_head {text line : Text} (member : line ∈ parseLines text) {w : Text} (parts : fields line = w :: ws) :
    w.head? ≠ some '#' := by
  obtain ⟨inside, kept⟩ := List.mem_filter.mp member
  obtain ⟨raw, -, rfl⟩ := List.mem_map.mp inside
  have plain : isComment (strip raw) = false := by
    rw [Bool.and_eq_true, Bool.not_eq_true'] at kept
    exact kept.2
  cases first : strip raw with
  | nil =>
    rw [first] at parts
    cases parts
  | cons c s =>
    rw [first] at parts plain
    have solid : isSpace c = false := strip_solid first
    obtain ⟨w', ws', same⟩ := fields_head solid s
    rw [parts] at same
    cases same
    intro comment
    simp [isComment] at plain comment
    exact plain comment

theorem fields_joined (solid : ∀ w ∈ ws, Solid w) : fields (joined ws) = ws := by
  induction ws with
  | nil => rfl
  | cons w ws ih =>
    have here := solid w List.mem_cons_self
    cases ws with
    | nil => exact fields_solid here.2 here.1
    | cons v ws =>
      rw [joined, fields_word here.2 here.1 (by decide), ih fun u inside => solid u (List.mem_cons_of_mem _ inside)]
      simp

theorem mem_joined (inside : c ∈ joined ws) : c = ' ' ∨ ∃ w ∈ ws, c ∈ w := by
  induction ws with
  | nil => cases inside
  | cons w ws ih =>
    cases ws with
    | nil => exact .inr ⟨w, List.mem_cons_self, inside⟩
    | cons v ws =>
      rw [joined] at inside
      · rcases List.mem_append.mp inside with here | later
        · exact .inr ⟨w, List.mem_cons_self, here⟩
        · rcases List.mem_cons.mp later with blank | later
          · exact .inl blank
          · obtain first | ⟨u, member, here⟩ := ih later
            · exact .inl first
            · exact .inr ⟨u, List.mem_cons_of_mem _ member, here⟩
      · simp

theorem joined_head {w : Text} (first : w.head? = some c) : (joined (w :: ws)).head? = some c := by
  cases ws with
  | nil => exact first
  | cons v ws =>
    rw [joined]
    · rw [List.head?_append, first]
      rfl
    · simp

theorem joined_last (some' : ws ≠ []) (solid : ∀ w ∈ ws, Solid w) (last : (joined ws).getLast? = some c) :
    isSpace c = false := by
  induction ws with
  | nil => exact absurd rfl some'
  | cons w ws ih =>
    cases ws with
    | nil => exact (solid w List.mem_cons_self).2 c (List.mem_of_getLast? last)
    | cons v ws =>
      refine ih (by simp) (fun u inside => solid u (List.mem_cons_of_mem _ inside)) ?_
      rw [joined, List.getLast?_append, List.getLast?_cons] at last
      · cases tail : (joined (v :: ws)).getLast? with
        | some d =>
          rw [tail] at last
          exact last
        | none =>
          have none' := List.getLast?_eq_none_iff.mp tail
          have first := (solid v (by simp)).1
          obtain ⟨d, rest, same⟩ := List.exists_cons_of_ne_nil first
          have head : (joined (v :: ws)).head? = some d := joined_head (by rw [same]; rfl)
          rw [none'] at head
          cases head
      · simp

theorem parseLines_joined {w : Text} (solid : ∀ v ∈ w :: ws, Solid v) (rule : w.head? ≠ some '#') :
    parseLines (joined (w :: ws) ++ ['\n']) = [joined (w :: ws)] := by
  obtain ⟨c, rest, same⟩ := List.exists_cons_of_ne_nil (solid w List.mem_cons_self).1
  have wHead : w.head? = some c := by rw [same]; rfl
  have first : (joined (w :: ws)).head? = some c := joined_head wHead
  have begins : (joined (w :: ws)).dropWhile isSpace = joined (w :: ws) := by
    refine dropWhile_head fun d head => ?_
    rw [first] at head
    cases head
    exact (solid w List.mem_cons_self).2 c (by rw [same]; exact List.mem_cons_self)
  have ends : (joined (w :: ws)).reverse.dropWhile isSpace = (joined (w :: ws)).reverse := by
    refine dropWhile_head fun d last => ?_
    rw [List.head?_reverse] at last
    exact joined_last (List.cons_ne_nil _ _) solid last
  refine parseLines_plain ?_ (by rw [strip, begins, ends, List.reverse_reverse])
  have kept : joined (w :: ws) ≠ [] := by
    intro none'
    rw [none'] at first
    cases first
  have plain : isComment (joined (w :: ws)) = false := by
    rw [isComment, first]
    rw [wHead] at rule
    simpa using rule
  have unbroken : ∀ c ∈ joined (w :: ws), c ≠ '\n' ∧ c ≠ '\r' := by
    intro c inside
    have blanks : isSpace '\n' = true ∧ isSpace '\r' = true := by decide
    obtain rfl | ⟨v, member, here⟩ := mem_joined inside
    · decide
    · have solid := (solid v member).2 c here
      refine ⟨?_, ?_⟩ <;> rintro rfl <;> simp [blanks] at solid
  simpa [isPlain, kept, plain] using unbroken

end joined

/-! ### Two lines with the same words -/

section twins

variable {decimal : Char → Option Nat} {line : Text} {r : PolicyLine}

theorem portRange_dash {lo hi : Text} {a b : Int} (plainLo : '-' ∉ lo) (plainHi : '-' ∉ hi)
    (loRead : pyInt decimal 10 lo = some a) (hiRead : pyInt decimal 10 hi = some b) :
    portRange decimal (lo ++ '-' :: hi) = some (some (a.toNat, b.toNat)) := by
  have parts : (lo ++ '-' :: hi).splitOn '-' = [lo, hi] := by
    rw [List.splitOn_append_cons_self, List.splitOn_eq_singleton plainLo, List.splitOn_eq_singleton plainHi]
    rfl
  rw [portRange, if_pos (by simp), parts]
  simp [loRead, hiRead]

theorem mapM_pair {ps : List Text} {f : Text → Option Int} {a b : Int} (read : ps.mapM f = some [a, b]) :
    ∃ x y, ps = [x, y] ∧ f x = some a ∧ f y = some b := by
  rcases ps with _ | ⟨x, _ | ⟨y, _ | ⟨z, ps⟩⟩⟩
  · simp at read
  · simp [Option.bind_eq_some_iff] at read
  · exact ⟨x, y, rfl, by simpa [Option.bind_eq_some_iff] using read⟩
  · simp [Option.bind_eq_some_iff] at read

theorem splitOn_pair {s x y : Text} (parts : s.splitOn '-' = [x, y]) : s = x ++ '-' :: y ∧ '-' ∉ x := by
  have whole : ['-'].intercalate (s.splitOn '-') = s := List.intercalate_splitOn '-'
  rw [parts, List.intercalate_cons_cons, List.intercalate_singleton] at whole
  have same : s = x ++ '-' :: y := by simpa using whole.symm
  refine ⟨same, fun dash => ?_⟩
  obtain ⟨u, v, broken⟩ := List.append_of_mem dash
  have again : s = u ++ '-' :: (v ++ '-' :: y) := by simp [same, broken]
  have count := congrArg List.length parts
  rw [again, List.splitOn_append_cons_self, List.splitOn_append_cons_self] at count
  have one := List.length_pos_of_ne_nil (List.splitOn_ne_nil '-' u)
  have two := List.length_pos_of_ne_nil (List.splitOn_ne_nil '-' v)
  have three := List.length_pos_of_ne_nil (List.splitOn_ne_nil '-' y)
  simp only [List.length_append, List.length_cons, List.length_nil] at count
  omega

theorem portRange_low {s : Text} {range : Option (Nat × Nat)} (solid : ∀ c ∈ s, isSpace c = false)
    (read : portRange decimal s = some range) :
    ∃ lo a, '-' ∉ lo ∧ (∀ c ∈ lo, isSpace c = false) ∧ pyInt decimal 10 lo = some a ∧ a.toNat = (range.getD (0, 65535)).1 := by
  unfold portRange at read
  split at read
  · split at read
    · rename_i lo hi values
      cases read
      obtain ⟨x, y, parts, loRead, -⟩ := mapM_pair values
      obtain ⟨whole, plain⟩ := splitOn_pair parts
      exact ⟨x, lo, plain, fun c member => solid c (by simp [whole, member]), loRead, rfl⟩
    · cases read
  · cases read
    exact ⟨['0'], 0, by decide, by simp; decide, rfl, rfl⟩

theorem readLine_twin {text : Text} (member : line ∈ parseLines text) (rule : readLine decimal line = some (some r)) :
    ∃ twin r', parseLines (twin ++ ['\n']) = [twin] ∧ readLine decimal twin = some (some r') ∧ r'.matchWord = r.matchWord ∧
      r'.metaWord = r.metaWord ∧ said decimal twin r' = { said decimal line r with sports := (said decimal twin r').sports } ∧
      (said decimal twin r').sports ≠ (said decimal line r).sports := by
  obtain ⟨ruleId, src, dst, proto, sport, dport, action, rest, parts, idRead, srcRead, dstRead, sportRead, dportRead,
    protoRead, actionRead⟩ := readLine_some rule
  have solid := fields_all_solid line
  rw [parts] at solid
  have sportSolid : Solid sport := solid sport (by simp)
  obtain ⟨lo, a, loPlain, loSolid, loRead, low⟩ := portRange_low sportSolid.2 sportRead
  obtain ⟨hi, b, hiPlain, hiSolid, hiRead, other⟩ : ∃ hi b, '-' ∉ hi ∧ (∀ c ∈ hi, isSpace c = false) ∧
      pyInt decimal 10 hi = some b ∧ b.toNat ≠ (portsSaid decimal sport).2 := by
    by_cases zero : (portsSaid decimal sport).2 = 0
    · exact ⟨['1'], 1, by decide, by simp; decide, rfl, by rw [zero]; decide⟩
    · exact ⟨['0'], 0, by decide, by simp; decide, rfl, fun same => zero same.symm⟩
  have dashed := portRange_dash loPlain hiPlain loRead hiRead
  let words := [src, dst, proto, lo ++ '-' :: hi, dport, action] ++ rest
  have wordsSolid : ∀ w ∈ ruleId :: words, Solid w := by
    intro w member
    by_cases same : w = lo ++ '-' :: hi
    · subst same
      refine ⟨by simp, fun c inside => ?_⟩
      rcases List.mem_append.mp inside with inside | inside
      · exact loSolid c inside
      · rcases List.mem_cons.mp inside with rfl | inside
        · decide
        · exact hiSolid c inside
    · refine solid w ?_
      simp [words, same] at member ⊢
      tauto
  have notComment : ruleId.head? ≠ some '#' := parseLines_head member parts
  have line' : fields (joined (ruleId :: words)) = ruleId :: words := fields_joined wordsSolid
  let r' : PolicyLine := { r with sport := some (a.toNat, b.toNat) }
  have twinRule : readLine decimal (joined (ruleId :: words)) = some (some r') :=
    readLine_words line' idRead srcRead dstRead dashed dportRead protoRead actionRead
  have twinPorts : (said decimal (joined (ruleId :: words)) r').sports = (a.toNat, b.toNat) := by
    have fourth : (fields (joined (ruleId :: words))).getD 4 [] = lo ++ '-' :: hi := by rw [line']; rfl
    simp only [said, PolicyLine.rule, fourth, portsSaid, dashed]
  have linePorts : (said decimal line r).sports = portsSaid decimal sport := by
    rw [said, PolicyLine.rule, parts]
    rfl
  refine ⟨joined (ruleId :: words), r', parseLines_joined wordsSolid notComment, twinRule, rfl, ?_, ?_, ?_⟩
  · have sports : (r'.sport.getD (0, 65535)).1 = (r.sport.getD (0, 65535)).1 := low
    rw [metaWord_sum, metaWord_sum, sports]
  · rw [said, said, PolicyLine.rule, PolicyLine.rule, parts, line']
    rfl
  · rw [twinPorts, linePorts]
    intro same
    exact other (congrArg Prod.snd same)

theorem policyEntries_words {before after : List PolicyLine} {r' : PolicyLine} (matched : r'.matchWord = r.matchWord)
    (metas : r'.metaWord = r.metaWord) : policyEntries (before ++ r' :: after) = policyEntries (before ++ r :: after) := by
  rw [policyEntries, policyEntries, List.foldl_append, List.foldl_append, List.foldl_cons, List.foldl_cons]
  dsimp only
  rw [matched, metas]

theorem compileLines_words {before after : List Text} {twin : Text} {r' : PolicyLine}
    (rule : readLine decimal line = some (some r)) (twinRule : readLine decimal twin = some (some r'))
    (matched : r'.matchWord = r.matchWord) (metas : r'.metaWord = r.metaWord) :
    compileLines decimal (before ++ twin :: after) = compileLines decimal (before ++ line :: after) := by
  have same (front back : List (Option PolicyLine)) :
      compilePolicy (front ++ some r' :: back).reduceOption = compilePolicy (front ++ some r :: back).reduceOption := by
    rw [List.reduceOption_append, List.reduceOption_append, List.reduceOption_cons_of_some, List.reduceOption_cons_of_some,
      compilePolicy, compilePolicy, policyEntries_words matched metas]
  unfold compileLines
  rw [List.mapM_append, List.mapM_append, List.mapM_cons, List.mapM_cons, rule, twinRule]
  cases before.mapM (readLine decimal) with
  | none => rfl
  | some front =>
    cases after.mapM (readLine decimal) with
    | none => rfl
    | some back => exact same front back

/-- For no rule of a file do the words tell what the line says: with another line in its
place, which says other source ports, the file compiles to the same tables. Of the
documented fields, those of host prefixes, of ends of port ranges above 255 and of
numbered rules are lost as well. -/
theorem policyWords_lose_rule (decimal : Char → Option Nat) {text line : Text} {before after : List Text} {r : PolicyLine}
    (file : parseLines text = before ++ line :: after) (rule : readLine decimal line = some (some r)) :
    ¬ GivesBack decimal line r ∧
      (∃ twin r', parseLines (twin ++ ['\n']) = [twin] ∧ readLine decimal twin = some (some r') ∧
        compileLines decimal (before ++ twin :: after) = compileLines decimal (parseLines text) ∧
        (said decimal twin r').sports ≠ (said decimal line r).sports) ∧
      (r.decoded = r.documented ↔
        r.srcPfx ≠ 32 ∧ r.dstPfx ≠ 32 ∧ (r.dport.getD (0, 65535)).1 < 65536 ∧ (r.sport.getD (0, 65535)).1 < 65536 ∧
          (r.dport.getD (0, 65535)).2 < 256 ∧ r.ruleId % 8 = 0) := by
  have member : line ∈ parseLines text := by simp [file]
  obtain ⟨twin, r', single, twinRule, matched, metas, -, other⟩ := readLine_twin member rule
  refine ⟨fun back => other ?_, ⟨twin, r', single, twinRule, ?_, other⟩, decoded_documented_iff (readLine_sized rule)⟩
  · have decoded : r'.decoded = r.decoded := by rw [PolicyLine.decoded, matched, metas, PolicyLine.decoded]
    rw [back twin r' single twinRule decoded]
  · rw [file]
    exact compileLines_words rule twinRule matched metas

end twins

def hostRule : Text := "1 10.0.0.1/32 0.0.0.0/0 tcp 1024-65535 443 allow".toList

def hostLine : PolicyLine where
  ruleId := 1
  srcIp := 0x0A000001
  srcPfx := 32
  dstIp := 0
  dstPfx := 0
  protoNum := 6
  sport := some (1024, 65535)
  dport := none
  action := .allow

theorem hostRule_lost : ¬ GivesBack (fun _ => none) hostRule hostLine ∧ hostLine.decoded ≠ hostLine.documented := by
  have file : parseLines hostRule = [] ++ hostRule :: [] := by decide +kernel
  have rule : readLine (fun _ => none) hostRule = some (some hostLine) := by decide +kernel
  have lost := policyWords_lose_rule (fun _ => none) file rule
  exact ⟨lost.1, fun same => (lost.2.2.mp same).1 rfl⟩

def openRule : Text := "1 10.0.0.1/32 0.0.0.0/0 tcp 1024-65535 any allow".toList

/-- A single port becomes all ports, and a host prefix the length 0. -/
theorem hostRule_widened :
    ¬ GivesBack (fun _ => none) hostRule hostLine ∧
      readLine (fun _ => none) hostRule = some (some hostLine) ∧ readLine (fun _ => none) openRule = some (some hostLine) ∧
      (said (fun _ => none) hostRule hostLine).dports = (443, 443) ∧ (said (fun _ => none) openRule hostLine).dports = (0, 65535) ∧
      hostLine.decoded.srcPfx = 0 ∧ (said (fun _ => none) hostRule hostLine).source.2 = 32 := by
  have host : (said (fun _ => none) hostRule hostLine).dports = (443, 443) := by decide +kernel
  have any : (said (fun _ => none) openRule hostLine).dports = (0, 65535) := by decide +kernel
  have anyLine : readLine (fun _ => none) openRule = some (some hostLine) := by decide +kernel
  refine ⟨fun back => ?_, by decide +kernel, anyLine, host, any, by decide +kernel, by decide +kernel⟩
  have same := back openRule hostLine (by decide +kernel) anyLine rfl
  rw [same, host] at any
  cases any

end FfnNgfw.Fpga
