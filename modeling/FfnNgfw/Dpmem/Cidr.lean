import FfnNgfw.Dpmem.Wire
import Mathlib.Tactic.Common

/-!
# Addresses with a prefix length

`parse_cidr` (`ffn_mpdp_consumer.c`) against the texts it is there for. The address goes
through `inet_pton`, which takes dotted quads and nothing else. The prefix length goes
through `atoi`, which skips blanks, stops at the first byte that is no digit and keeps 32
bits of the number.
-/

namespace FfnNgfw.Dpmem

def slash : UInt8 := 0x2F
def dot : UInt8 := 0x2E

def Digits (ds : List UInt8) : Prop := ds ≠ [] ∧ ∀ c ∈ ds, isDigit c = true

structure Octet (ds : List UInt8) (n : Nat) : Prop where
  digits : Digits ds
  plain : ds.head? = some 0x30 → ds = [0x30]
  value : digitsValue ds 0 = n
  small : n ≤ 255

inductive Dotted : List UInt8 → List Nat → Prop where
  | last {ds : List UInt8} {n : Nat} : Octet ds n → Dotted ds [n]
  | more {ds cs : List UInt8} {n : Nat} {ns : List Nat} : Octet ds n → Dotted cs ns → Dotted (ds ++ dot :: cs) (n :: ns)

def quadWord (a b c d : Nat) : UInt32 := UInt32.ofNat (a * 2 ^ 24 + b * 2 ^ 16 + c * 2 ^ 8 + d)

/-- `n` ones, then zeros. -/
def maskOf (n : Nat) : UInt32 := UInt32.ofNat (2 ^ 32 - 2 ^ (32 - n))

/-- The texts that name an address or a network, with the address, host bits cleared, and
the mask. -/
inductive Cidr : List UInt8 → UInt32 × UInt32 → Prop where
  | empty : Cidr [] (0, 0)
  | any : Cidr anyText (0, 0)
  | host {cs : List UInt8} {a b c d : Nat} : Dotted cs [a, b, c, d] → Cidr cs (quadWord a b c d, maskOf 32)
  | net {cs ds : List UInt8} {a b c d n : Nat} : Dotted cs [a, b, c, d] → Digits ds → digitsValue ds 0 = n → n ≤ 32 →
      Cidr (cs ++ slash :: ds) (quadWord a b c d &&& maskOf n, maskOf n)

/-! ### Dotted texts, byte by byte -/

/-- What may follow the digits of an octet that are worth `cur` so far. -/
def Rest (cs : List UInt8) (cur : Nat) (ns : List Nat) : Prop :=
  ∃ ds, (∀ c ∈ ds, isDigit c = true) ∧ (cur = 0 → ds = []) ∧ digitsValue ds cur ≤ 255 ∧
    (cs = ds ∧ ns = [digitsValue ds cur] ∨
      ∃ cs' ns', cs = ds ++ dot :: cs' ∧ Dotted cs' ns' ∧ ns = digitsValue ds cur :: ns')

variable {c : UInt8} {cs ds : List UInt8} {cur : Nat} {ns : List Nat}

theorem dot_not_digit : isDigit dot = false := by decide

theorem digitsValue_cons (digit : isDigit c = true) :
    digitsValue (c :: cs) cur = digitsValue cs (cur * 10 + (c.toNat - 0x30)) := by
  rw [digitsValue, if_pos digit]

theorem le_digitsValue : cur ≤ digitsValue cs cur := by
  induction cs generalizing cur with
  | nil => exact Nat.le_refl _
  | cons c cs ih =>
    rw [digitsValue]
    split
    · exact Nat.le_trans (by omega) ih
    · exact Nat.le_refl _

theorem digit_zero_iff (digit : isDigit c = true) : c.toNat - 0x30 = 0 ↔ c = 0x30 := by
  simp only [isDigit, Bool.and_eq_true, decide_eq_true_eq, UInt8.le_iff_toNat_le] at digit
  rw [← UInt8.toNat_inj]
  have low : (0x30 : UInt8).toNat = 0x30 := rfl
  omega

theorem rest_nil : Rest [] cur ns ↔ cur ≤ 255 ∧ ns = [cur] := by
  constructor
  · rintro ⟨ds, -, -, small, ⟨rfl, rfl⟩ | ⟨cs', ns', split, -⟩⟩
    · exact ⟨small, rfl⟩
    · simp at split
  · rintro ⟨small, rfl⟩
    exact ⟨[], List.forall_mem_nil _, fun _ => rfl, small, .inl ⟨rfl, rfl⟩⟩

theorem rest_digit (digit : isDigit c = true) :
    Rest (c :: cs) cur ns ↔ cur ≠ 0 ∧ Rest cs (cur * 10 + (c.toNat - 0x30)) ns := by
  constructor
  · rintro ⟨ds, digits, zero, small, ends⟩
    cases ds with
    | nil =>
      rcases ends with ⟨none', -⟩ | ⟨cs', ns', split, -⟩
      · cases none'
      · cases split
        rw [dot_not_digit] at digit
        cases digit
    | cons e ds =>
      obtain ⟨first, later⟩ := List.forall_mem_cons.mp digits
      have positive : cur ≠ 0 := fun none' => by cases zero none'
      rw [digitsValue_cons first] at small ends
      refine ⟨positive, ds, later, by omega, ?_⟩
      rcases ends with ⟨same, rfl⟩ | ⟨cs', ns', same, dotted, rfl⟩
      · cases same
        exact ⟨small, .inl ⟨rfl, rfl⟩⟩
      · cases same
        exact ⟨small, .inr ⟨cs', ns', rfl, dotted, rfl⟩⟩
  · rintro ⟨positive, ds, digits, -, small, ends⟩
    refine ⟨c :: ds, List.forall_mem_cons.mpr ⟨digit, digits⟩, fun none' => absurd none' positive, ?_⟩
    rw [digitsValue_cons digit]
    refine ⟨small, ?_⟩
    rcases ends with ⟨rfl, same⟩ | ⟨cs', ns', rfl, dotted, same⟩
    · exact .inl ⟨rfl, same⟩
    · exact .inr ⟨cs', ns', rfl, dotted, same⟩

theorem rest_other (other : isDigit c = false) :
    Rest (c :: cs) cur ns ↔ c = dot ∧ cur ≤ 255 ∧ ∃ ns', Dotted cs ns' ∧ ns = cur :: ns' := by
  constructor
  · rintro ⟨ds, digits, -, small, ends⟩
    cases ds with
    | nil =>
      rcases ends with ⟨none', -⟩ | ⟨cs', ns', same, dotted, rfl⟩
      · cases none'
      · cases same
        exact ⟨rfl, small, ns', dotted, rfl⟩
    | cons e ds =>
      have first := (List.forall_mem_cons.mp digits).1
      rcases ends with ⟨same, -⟩ | ⟨cs', ns', same, -⟩
      all_goals
        cases same
        rw [other] at first
        cases first
  · rintro ⟨rfl, small, ns', dotted, rfl⟩
    exact ⟨[], List.forall_mem_nil _, fun _ => rfl, small, .inr ⟨cs, ns', rfl, dotted, rfl⟩⟩

theorem octet_cons {n : Nat} : Octet (c :: ds) n ↔ isDigit c = true ∧ (∀ x ∈ ds, isDigit x = true) ∧
    (c.toNat - 0x30 = 0 → ds = []) ∧ digitsValue ds (c.toNat - 0x30) = n ∧ n ≤ 255 := by
  constructor
  · rintro ⟨⟨-, digits⟩, plain, value, small⟩
    obtain ⟨first, later⟩ := List.forall_mem_cons.mp digits
    rw [digitsValue_cons first, Nat.zero_mul, Nat.zero_add] at value
    refine ⟨first, later, fun zero => ?_, value, small⟩
    have same := plain (by rw [List.head?_cons, (digit_zero_iff first).mp zero])
    exact (List.cons.inj same).2
  · rintro ⟨first, later, plain, value, small⟩
    refine ⟨⟨by simp, List.forall_mem_cons.mpr ⟨first, later⟩⟩, fun zero => ?_, ?_, small⟩
    · have same : c = 0x30 := Option.some.inj zero
      rw [plain ((digit_zero_iff first).mpr same), same]
    · rwa [digitsValue_cons first, Nat.zero_mul, Nat.zero_add]

theorem dotted_nil : ¬Dotted [] ns := by
  intro dotted
  generalize text : ([] : List UInt8) = cs at dotted
  cases dotted with
  | last octet => exact octet.digits.1 text.symm
  | more octet rest => simp at text

theorem dotted_cons : Dotted (c :: cs) ns ↔ isDigit c = true ∧ Rest cs (c.toNat - 0x30) ns := by
  constructor
  · intro dotted
    generalize text : c :: cs = whole at dotted
    cases dotted with
    | last octet =>
      subst text
      obtain ⟨first, later, plain, value, small⟩ := octet_cons.mp octet
      exact ⟨first, cs, later, plain, by rwa [value], .inl ⟨rfl, by rw [value]⟩⟩
    | @more ds cs' n ns' octet rest =>
      cases ds with
      | nil => exact absurd rfl octet.digits.1
      | cons e ds =>
        cases text
        obtain ⟨first, later, plain, value, small⟩ := octet_cons.mp octet
        exact ⟨first, ds, later, plain, by rwa [value], .inr ⟨cs', ns', rfl, rest, by rw [value]⟩⟩
  · rintro ⟨first, ds, later, plain, small, ends⟩
    have octet : Octet (c :: ds) (digitsValue ds (c.toNat - 0x30)) := octet_cons.mpr ⟨first, later, plain, rfl, small⟩
    rcases ends with ⟨rfl, rfl⟩ | ⟨cs', ns', rfl, rest, rfl⟩
    · exact .last octet
    · exact .more octet rest

theorem Rest.small (rest : Rest cs cur ns) : cur ≤ 255 := by
  obtain ⟨ds, -, -, small, -⟩ := rest
  exact Nat.le_trans le_digitsValue small

theorem Dotted.ne_nil (dotted : Dotted cs ns) : 0 < ns.length := by
  cases dotted <;> simp

theorem pton_iff {done out : List Nat} (small : cur ≤ 255) :
    (inetPton4 cs done cur true = some out ↔ ∃ ns, Rest cs cur ns ∧ out = done ++ ns ∧ out.length = 4) ∧
    (inetPton4 cs done 0 false = some out ↔ ∃ ns, Dotted cs ns ∧ out = done ++ ns ∧ out.length = 4) := by
  induction cs generalizing done cur with
  | nil =>
    constructor
    · simp only [inetPton4, rest_nil, true_and]
      constructor
      · intro read
        split at read
        · rename_i three
          cases read
          exact ⟨[cur], ⟨small, rfl⟩, rfl, by simp [three]⟩
        · cases read
      · rintro ⟨ns, ⟨-, rfl⟩, rfl, four⟩
        rw [List.length_append, List.length_singleton] at four
        rw [if_pos (by omega)]
    · simp only [inetPton4, dotted_nil, Bool.false_eq_true, false_and, if_false, exists_false, reduceCtorEq]
  | cons c cs ih =>
    by_cases digit : isDigit c = true
    · constructor
      · simp only [rest_digit digit, inetPton4, if_pos digit, true_and]
        by_cases zero : cur = 0
        · rw [if_pos zero]
          exact iff_of_false (fun read => by cases read) fun ⟨_, ⟨positive, _⟩, _⟩ => positive zero
        · rw [if_neg zero]
          by_cases large : 255 < cur * 10 + (c.toNat - 0x30)
          · rw [if_pos large]
            exact iff_of_false (fun read => by cases read) fun ⟨_, ⟨_, rest⟩, _⟩ => absurd rest.small (by omega)
          · rw [if_neg large, if_neg (by simp), (ih (by omega)).1]
            simp only [ne_eq, zero, not_false_eq_true, true_and]
      · have worth : c.toNat - 0x30 ≤ 255 := Nat.le_trans (Nat.sub_le _ _) (Nat.le_of_lt_succ c.toNat_lt)
        simp only [dotted_cons, inetPton4, if_pos digit, Bool.false_eq_true, false_and, if_false, not_false_eq_true, true_and,
          Nat.zero_mul, Nat.zero_add]
        rw [if_neg (by omega)]
        by_cases many : 4 ≤ done.length
        · rw [if_pos many]
          refine iff_of_false (fun read => by cases read) fun ⟨ns, dotted, same, four⟩ => ?_
          have some' := (dotted_cons.mpr dotted).ne_nil
          rw [same, List.length_append] at four
          omega
        · rw [if_neg many, (ih worth).1]
          simp only [digit, true_and]
    · have other : isDigit c = false := by simpa using digit
      constructor
      · simp only [rest_other other, inetPton4, if_neg digit, and_true]
        by_cases point : c = 0x2E
        · rw [if_pos point]
          by_cases last : done.length = 3
          · rw [if_pos last]
            refine iff_of_false (fun read => by cases read) ?_
            rintro ⟨-, ⟨-, -, ns, dotted, rfl⟩, rfl, four⟩
            have some' := dotted.ne_nil
            rw [List.length_append, List.length_cons] at four
            omega
          · rw [if_neg last, (ih small).2]
            constructor
            · rintro ⟨ns, dotted, same, four⟩
              exact ⟨cur :: ns, ⟨point, small, ns, dotted, rfl⟩, by simpa using same, four⟩
            · rintro ⟨-, ⟨-, -, ns, dotted, rfl⟩, same, four⟩
              exact ⟨ns, dotted, by simpa using same, four⟩
        · rw [if_neg point]
          exact iff_of_false (fun read => by cases read) fun ⟨_, ⟨same, _⟩, _⟩ => point same
      · simp only [dotted_cons, inetPton4, Bool.false_eq_true, and_false, if_false, other, false_and, exists_false,
          reduceCtorEq]

variable {out : List Nat} {r : UInt32 × UInt32}

theorem inetPton_iff : inetPton4 cs [] 0 false = some out ↔ Dotted cs out ∧ out.length = 4 := by
  rw [(pton_iff (Nat.zero_le 255)).2]
  constructor
  · rintro ⟨ns, dotted, same, four⟩
    rw [List.nil_append] at same
    exact ⟨same ▸ dotted, four⟩
  · rintro ⟨dotted, four⟩
    exact ⟨out, dotted, rfl, four⟩

/-! ### Parts of the text -/

theorem Dotted.no_slash (dotted : Dotted cs ns) : slash ∉ cs := by
  have digits : ∀ {ds : List UInt8}, Digits ds → slash ∉ ds := by
    intro ds digits inside
    have := digits.2 _ inside
    revert this
    decide
  induction dotted with
  | last octet => exact digits octet.digits
  | more octet rest ih =>
    rw [List.mem_append, List.mem_cons]
    rintro (inside | same | inside)
    · exact digits octet.digits inside
    · revert same
      decide
    · exact ih inside

theorem before_slash (none' : slash ∉ cs) : ∀ c ∈ cs, decide (c ≠ 0x2F) = true := by
  intro c inside
  rw [decide_eq_true_iff]
  rintro rfl
  exact none' inside

theorem takeWhile_slash (none' : slash ∉ cs) : (cs ++ slash :: ds).takeWhile (· ≠ 0x2F) = cs := by
  rw [List.takeWhile_append_of_pos (before_slash none')]
  simp [slash]

theorem dropWhile_slash (none' : slash ∉ cs) : (cs ++ slash :: ds).dropWhile (· ≠ 0x2F) = slash :: ds := by
  rw [List.dropWhile_append_of_pos (before_slash none')]
  simp [slash]

theorem takeWhile_whole (none' : slash ∉ cs) : cs.takeWhile (· ≠ 0x2F) = cs := by
  have whole : (cs ++ []).takeWhile (· ≠ 0x2F) = cs ++ _ := List.takeWhile_append_of_pos (before_slash none')
  simpa using whole

theorem dropWhile_whole (none' : slash ∉ cs) : cs.dropWhile (· ≠ 0x2F) = [] := by
  have whole : (cs ++ []).dropWhile (· ≠ 0x2F) = _ := List.dropWhile_append_of_pos (before_slash none')
  simpa using whole

theorem prefixMask_eq : ∀ n : Nat, n < 33 → prefixMask n = maskOf n := by decide

theorem octetsWord_quad (a b c d : Nat) : octetsWord [a, b, c, d] = quadWord a b c d := by
  simp only [octetsWord, quadWord, List.foldl_cons, List.foldl_nil]
  exact congrArg UInt32.ofNat (by omega)

theorem digit_solid (digit : isDigit c = true) : isSpace c = false ∧ c ≠ 0x2D ∧ c ≠ 0x2B := by
  have above : 0x30 ≤ c := by
    simp only [isDigit, Bool.and_eq_true, decide_eq_true_eq] at digit
    exact digit.1
  have ne : ∀ x : UInt8, x < 0x30 → c ≠ x := by
    rintro x below rfl
    exact absurd above (UInt8.not_le.mpr below)
  have large : ¬c ≤ 0x0D := fun small => absurd (UInt8.le_trans above small) (by decide)
  refine ⟨?_, ne _ (by decide), ne _ (by decide)⟩
  simp [isSpace, ne 0x20 (by decide), large]

theorem atoi_digits (digits : Digits ds) (small : digitsValue ds 0 ≤ 32) : atoi ds = digitsValue ds 0 := by
  obtain ⟨some', all⟩ := digits
  cases ds with
  | nil => exact absurd rfl some'
  | cons c cs =>
    obtain ⟨solid, minus, plus⟩ := digit_solid (all c List.mem_cons_self)
    have read : strtol (c :: cs) = digitsValue (c :: cs) 0 := by
      rw [strtol, List.dropWhile_cons_of_neg (by simp [solid])]
      split
      · rename_i same
        exact absurd (List.cons.inj same).1 minus
      · rename_i same
        exact absurd (List.cons.inj same).1 plus
      · omega
    rw [atoi, read, BitVec.toInt_ofInt]
    simp only [Int.bmod]
    omega

/-! ### `parse_cidr` -/

/-- `parse_cidr` accepts the text exactly if it names an address or a network, and then
gives that one. -/
def ParsesGrammar (s : WireStr) : Prop := ∀ r, parseCidr (some s) = some r ↔ Cidr s.text r

/-- What follows the slash after a dotted quad is a number up to 32, unless `atoi` makes
something out of range of it. -/
def PrefixNumber (text : List UInt8) : Prop :=
  ∀ cs ds a b c d, text = cs ++ slash :: ds → Dotted cs [a, b, c, d] → 0 ≤ atoi ds → atoi ds ≤ 32 →
    Digits ds ∧ digitsValue ds 0 ≤ 32

variable {s : WireStr}

theorem quad_of_length (four : out.length = 4) : ∃ a b c d, out = [a, b, c, d] := by
  match out, four with
  | [a, b, c, d], _ => exact ⟨a, b, c, d, rfl⟩

theorem parseCidr_some_iff (short : s.text.length < 64) (named : s.text ≠ [] ∧ s.text ≠ anyText) :
    parseCidr (some s) = some r ↔ ∃ a b c d n, Dotted (s.text.takeWhile (· ≠ 0x2F)) [a, b, c, d] ∧
      prefixLen s.text = (n : Nat) ∧ n ≤ 32 ∧ r = (quadWord a b c d &&& maskOf n, maskOf n) := by
  have other : ¬(s.text = [] ∨ s.text = anyText) := by
    rw [not_or]
    exact named
  simp only [parseCidr, if_neg other, if_neg (Nat.not_le.mpr short)]
  by_cases range : prefixLen s.text < 0 ∨ 32 < prefixLen s.text
  · rw [if_pos range]
    refine iff_of_false (fun read => by cases read) ?_
    rintro ⟨a, b, c, d, n, -, same, small, -⟩
    omega
  · rw [if_neg range]
    obtain ⟨n, same⟩ : ∃ n : Nat, prefixLen s.text = n := Int.eq_ofNat_of_zero_le (by omega)
    have small : n ≤ 32 := by omega
    have mask : prefixMask (prefixLen s.text) = maskOf n := by
      rw [same]
      exact prefixMask_eq n (by omega)
    rw [Option.map_eq_some_iff, mask]
    constructor
    · rintro ⟨out, read, rfl⟩
      obtain ⟨dotted, four⟩ := inetPton_iff.mp read
      obtain ⟨a, b, c, d, rfl⟩ := quad_of_length four
      exact ⟨a, b, c, d, n, dotted, same, small, by rw [octetsWord_quad]⟩
    · rintro ⟨a, b, c, d, n', dotted, same', -, rfl⟩
      obtain rfl : n = n' := by omega
      exact ⟨[a, b, c, d], inetPton_iff.mpr ⟨dotted, rfl⟩, by rw [octetsWord_quad]⟩

theorem prefixLen_whole (none' : slash ∉ cs) : prefixLen cs = 32 := by
  rw [prefixLen, dropWhile_whole none']

theorem prefixLen_slash (none' : slash ∉ cs) : prefixLen (cs ++ slash :: ds) = atoi ds := by
  rw [prefixLen, dropWhile_slash none']

theorem and_full (x : UInt32) : x &&& maskOf 32 = x := by
  have full : maskOf 32 = -1 := by decide
  rw [full, UInt32.and_neg_one]

theorem Dotted.named (dotted : Dotted cs ns) : cs ≠ [] ∧ cs ≠ anyText ∧ ∀ ds, cs ++ slash :: ds ≠ anyText := by
  cases cs with
  | nil => exact absurd dotted dotted_nil
  | cons c cs =>
    have digit := (dotted_cons.mp dotted).1
    have other : ∀ rest, c :: rest ≠ anyText := by
      intro rest same
      rw [(List.cons.inj same).1] at digit
      revert digit
      decide
    exact ⟨by simp, other cs, fun ds => other _⟩

theorem Cidr.suffix (grammar : Cidr (cs ++ slash :: ds) r) (none' : slash ∉ cs) :
    Digits ds ∧ digitsValue ds 0 ≤ 32 := by
  have inside : slash ∈ cs ++ slash :: ds := by simp
  generalize whole : cs ++ slash :: ds = text at grammar inside
  cases grammar with
  | empty => cases inside
  | any => exact absurd inside (by decide)
  | host dotted => exact absurd inside dotted.no_slash
  | @net cs' ds' _ _ _ _ n dotted digits value small =>
    have after := congrArg (List.dropWhile (· ≠ 0x2F)) whole
    rw [dropWhile_slash none', dropWhile_slash dotted.no_slash] at after
    obtain rfl := (List.cons.inj after).2
    exact ⟨digits, value ▸ small⟩

theorem parse_of_cidr (short : s.text.length < 64) (grammar : Cidr s.text r) : parseCidr (some s) = some r := by
  generalize text : s.text = t at grammar
  cases grammar with
  | empty => simp [parseCidr, text]
  | any => simp [parseCidr, text]
  | @host _ a b c d dotted =>
    subst text
    have none' := dotted.no_slash
    refine (parseCidr_some_iff short ⟨dotted.named.1, dotted.named.2.1⟩).mpr ⟨a, b, c, d, 32, ?_, prefixLen_whole none', by omega, ?_⟩
    · rwa [takeWhile_whole none']
    · rw [and_full]
  | @net cs ds a b c d n dotted digits value small =>
    have none' := dotted.no_slash
    have named : s.text ≠ [] ∧ s.text ≠ anyText := by
      rw [text]
      exact ⟨by simp, dotted.named.2.2 ds⟩
    refine (parseCidr_some_iff short named).mpr ⟨a, b, c, d, n, ?_, ?_, small, rfl⟩
    · rwa [text, takeWhile_slash none']
    · rw [text, prefixLen_slash none', atoi_digits digits (by omega), value]

/-- Of the texts below 64 bytes, `parse_cidr` misreads those with something other than a
number up to 32 behind the slash that `atoi` takes for one. -/
theorem parse_cidr_grammar_iff (s : WireStr) (short : s.text.length < 64) : ParsesGrammar s ↔ PrefixNumber s.text := by
  constructor
  · intro parses cs ds a b c d text dotted low high
    obtain ⟨n, value⟩ : ∃ n : Nat, atoi ds = n := Int.eq_ofNat_of_zero_le low
    have none' := dotted.no_slash
    have named : s.text ≠ [] ∧ s.text ≠ anyText := by
      rw [text]
      exact ⟨by simp, dotted.named.2.2 ds⟩
    have read : parseCidr (some s) = some (quadWord a b c d &&& maskOf n, maskOf n) :=
      (parseCidr_some_iff short named).mpr ⟨a, b, c, d, n, by rwa [text, takeWhile_slash none'],
        by rw [text, prefixLen_slash none', value], by omega, rfl⟩
    have grammar := (parses _).mp read
    rw [text] at grammar
    exact grammar.suffix none'
  · intro number r
    refine ⟨fun read => ?_, parse_of_cidr short⟩
    by_cases empty : s.text = []
    · simp only [parseCidr, empty, true_or, if_true, Option.some.injEq] at read
      rw [empty, ← read]
      exact .empty
    · by_cases any : s.text = anyText
      · simp only [parseCidr, any, or_true, if_true, Option.some.injEq] at read
        rw [any, ← read]
        exact .any
      · obtain ⟨a, b, c, d, n, dotted, length, small, rfl⟩ := (parseCidr_some_iff short ⟨empty, any⟩).mp read
        by_cases inside : slash ∈ s.text
        · obtain ⟨cs, ds, text, none'⟩ := List.eq_append_cons_of_mem inside
          rw [text, takeWhile_slash none'] at dotted
          rw [text, prefixLen_slash none'] at length
          obtain ⟨digits, bound⟩ := number cs ds a b c d text dotted (by omega) (by omega)
          have value := atoi_digits digits bound
          rw [text]
          exact .net dotted digits (by omega) small
        · rw [takeWhile_whole inside] at dotted
          rw [prefixLen_whole inside] at length
          obtain rfl : n = 32 := by omega
          rw [and_full]
          exact .host dotted

/-- `10.0.0.0/8` -/
def tenNet : WireStr := ⟨1, [0x31, 0x30, 0x2E, 0x30, 0x2E, 0x30, 0x2E, 0x30, 0x2F, 0x38], one_present, by decide, by decide⟩

theorem tenNet_parses : ParsesGrammar tenNet := by
  refine (parse_cidr_grammar_iff tenNet (by decide)).mpr fun cs ds a b c d text dotted _ _ => ?_
  have after := congrArg (List.dropWhile (· ≠ 0x2F)) text
  rw [dropWhile_slash dotted.no_slash] at after
  obtain rfl : [0x38] = ds := (List.cons.inj after).2
  exact ⟨⟨by decide, List.forall_mem_singleton.mpr (by decide)⟩, by decide⟩

/-- `10.1.2.3/x` -/
def strayPrefix : WireStr := ⟨1, [0x31, 0x30, 0x2E, 0x31, 0x2E, 0x32, 0x2E, 0x33, 0x2F, 0x78], one_present, by decide, by decide⟩

/-- The rule matches every address. -/
theorem strayPrefix_widened : strayPrefix.text.length < 64 ∧ parseCidr (some strayPrefix) = some (0, 0) ∧
    ¬ParsesGrammar strayPrefix := by
  have read : parseCidr (some strayPrefix) = some (0, 0) := by decide
  refine ⟨by decide, read, fun parses => ?_⟩
  have grammar : Cidr ([0x31, 0x30, 0x2E, 0x31, 0x2E, 0x32, 0x2E, 0x33] ++ slash :: [0x78]) (0, 0) := (parses _).mp read
  have digit := (grammar.suffix (by decide)).1.2 0x78 List.mem_cons_self
  revert digit
  decide

end FfnNgfw.Dpmem
