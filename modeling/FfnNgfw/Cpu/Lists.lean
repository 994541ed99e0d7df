import FfnNgfw.Cpu.Cores
import FfnNgfw.Lib.Separated
import FfnNgfw.Threatdb.Text

/-!
# CPU lists

Sets of CPUs as the kernel writes them, `0,2-5,8`, and the two readers of such texts: that of
an explicit declaration, which looks at the shape of each part first, and that of the kernel
command line. What is written is read back.
-/

namespace FfnNgfw.Cpu
open Threatdb (Text strip fields digit pyInt strip_of_solid digit_solid pyInt_toDigits)

/-- The runs of consecutive numbers in an ascending list, from the run that is begun. -/
def rangesFrom (start prev : Nat) : List Nat → List (Nat × Nat)
  | [] => [(start, prev)]
  | c :: rest => if c = prev + 1 then rangesFrom start c rest else (start, prev) :: rangesFrom c c rest

def decimal (n : Nat) : Text := Nat.toDigits 10 n

def rangeText (range : Nat × Nat) : Text :=
  if range.1 = range.2 then decimal range.1 else decimal range.1 ++ '-' :: decimal range.2

def formatCpuList (cores : List Nat) : Text :=
  match sortedSet cores with
  | [] => []
  | c :: rest => [','].intercalate ((rangesFrom c c rest).map rangeText)

/-! ### Reading -/

/-- `part.split("-", 1)` -/
def cut (sep : Char) (part : Text) : Text × Text := (part.takeWhile (· ≠ sep), (part.dropWhile (· ≠ sep)).drop 1)

/-- `range(a, b + 1)` -/
def cpuRange (a b : Int) : List Nat := if a ≤ b then List.range' a.toNat (b.toNat + 1 - a.toNat) else []

section

-- `digits` is the value of a decimal digit outside ASCII.
variable (digits : Char → Option Nat)

def cpusBetween (a b : Text) : List Nat :=
  match pyInt digits 10 a, pyInt digits 10 b with
  | some a, some b => cpuRange a b
  | _, _ => []

def oneCpu (part : Text) : List Nat :=
  match pyInt digits 10 part with
  | some n => [n.toNat]
  | none => []

/-- `\d+` -/
def isNumber (s : Text) : Bool := s ≠ [] && s.all fun c => (digit digits 10 c).isSome

/-- `^\d+(-\d+)?$` -/
def isCpuRange (part : Text) : Bool :=
  if '-' ∈ part then isNumber digits (cut '-' part).1 && isNumber digits (cut '-' part).2 else isNumber digits part

def partCpus (part : Text) : List Nat :=
  let part := strip part
  if !isCpuRange digits part then []
  else if '-' ∈ part then cpusBetween digits (cut '-' part).1 (cut '-' part).2
  else oneCpu digits part

def expandCpuList (spec : Text) : List Nat := sortedSet ((spec.splitOn ',').flatMap (partCpus digits))

namespace Planes

def partCpus (part : Text) : List Nat :=
  let part := strip part
  if part = [] then []
  else if '-' ∈ part then cpusBetween digits (cut '-' part).1 (cut '-' part).2
  else oneCpu digits part

def expandCpuList (spec : Text) : List Nat := sortedSet ((spec.splitOn ',').flatMap (partCpus digits))

end Planes

def isolcpusFlags : List Text := ["managed_irq".toList, "domain".toList, "nohz".toList, "rcu".toList]

/-- The CPUs of the first `isolcpus=` token, without its flags. -/
def parseIsolcpus (cmdline : Text) : List Nat :=
  match (fields cmdline).find? fun tok => "isolcpus=".toList.isPrefixOf tok with
  | some tok => Planes.expandCpuList digits ([','].intercalate (((cut '=' tok).2.splitOn ',').filter (· ∉ isolcpusFlags)))
  | none => []

end

/-! ### What is written is read back -/

variable {c : Char} {range : Nat × Nat} {ranges : List (Nat × Nat)}

theorem decimal_digits {n : Nat} (member : c ∈ decimal n) : c.isDigit = true :=
  Nat.isDigit_of_mem_toDigits (by decide) (by decide) member

theorem decimal_ne_nil (n : Nat) : decimal n ≠ [] := Nat.toDigits_ne_nil

theorem digit_ne {c d : Char} (shown : c.isDigit = true) (other : d.isDigit = false) : c ≠ d := by
  rintro rfl
  rw [shown] at other
  cases other

theorem not_mem_decimal {d : Char} (other : d.isDigit = false) (n : Nat) : d ∉ decimal n :=
  fun member => digit_ne (decimal_digits member) other rfl

theorem pyInt_decimal (digits : Char → Option Nat) (n : Nat) : pyInt digits 10 (decimal n) = some (n : Int) :=
  pyInt_toDigits digits n

theorem rangeText_chars (member : c ∈ rangeText range) : c.isDigit = true ∨ c = '-' := by
  unfold rangeText at member
  split at member
  · exact .inl (decimal_digits member)
  · rcases List.mem_append.mp member with first | rest
    · exact .inl (decimal_digits first)
    · rcases List.mem_cons.mp rest with rfl | last
      · exact .inr rfl
      · exact .inl (decimal_digits last)

theorem rangeText_solid (member : c ∈ rangeText range) : Policy.isSpace c = false := by
  rcases rangeText_chars member with shown | rfl
  · exact digit_solid shown
  · decide

theorem rangeText_head (range : Nat × Nat) : ∃ c rest, rangeText range = c :: rest ∧ c.isDigit = true := by
  obtain ⟨c, rest, shape⟩ := List.exists_cons_of_ne_nil (decimal_ne_nil range.1)
  have shown : c.isDigit = true := decimal_digits (shape ▸ List.mem_cons_self)
  unfold rangeText
  split
  · exact ⟨c, rest, shape, shown⟩
  · exact ⟨c, rest ++ '-' :: decimal range.2, by rw [shape, List.cons_append], shown⟩

theorem cut_append {sep : Char} {a b : Text} (clean : sep ∉ a) : cut sep (a ++ sep :: b) = (a, b) := by
  have before : ∀ c ∈ a, decide (c ≠ sep) = true := by
    intro c member
    refine decide_eq_true ?_
    rintro rfl
    exact clean member
  unfold cut
  rw [List.takeWhile_append_of_pos before, List.dropWhile_append_of_pos before]
  simp

theorem cpuRange_nat {a b : Nat} (ordered : a ≤ b) : cpuRange a b = List.range' a (b + 1 - a) := by
  unfold cpuRange
  rw [if_pos (Int.ofNat_le.mpr ordered), Int.toNat_natCast, Int.toNat_natCast]

theorem partCpus_rangeText (digits : Char → Option Nat) (ordered : range.1 ≤ range.2) :
    Planes.partCpus digits (rangeText range) = List.range' range.1 (range.2 + 1 - range.1) := by
  obtain ⟨c, rest, shape, -⟩ := rangeText_head range
  have some' : rangeText range ≠ [] := by
    rw [shape]
    exact List.cons_ne_nil _ _
  have dash : '-'.isDigit = false := by decide
  unfold Planes.partCpus
  rw [strip_of_solid fun c member => rangeText_solid member]
  dsimp only
  rw [if_neg some']
  unfold rangeText
  by_cases same : range.1 = range.2
  · rw [if_pos same, if_neg (not_mem_decimal dash _), oneCpu, pyInt_decimal, ← same, Nat.add_sub_cancel_left]
    rfl
  · have inside : '-' ∈ decimal range.1 ++ '-' :: decimal range.2 := List.mem_append_right _ List.mem_cons_self
    rw [if_neg same, if_pos inside, cut_append (not_mem_decimal dash _), cpusBetween, pyInt_decimal, pyInt_decimal]
    exact cpuRange_nat ordered

theorem rangesFrom_ordered {start prev : Nat} {cs : List Nat} (begun : start ≤ prev) : ∀ r ∈ rangesFrom start prev cs, r.1 ≤ r.2 := by
  induction cs generalizing start prev with
  | nil =>
    intro r member
    obtain rfl := List.mem_singleton.mp member
    exact begun
  | cons c rest ih =>
    unfold rangesFrom
    split
    · exact ih (by omega)
    · intro r member
      rcases List.mem_cons.mp member with rfl | member
      · exact begun
      · exact ih (Nat.le_refl c) r member

theorem mem_rangesFrom {start prev : Nat} {cs : List Nat} (begun : start ≤ prev) {x : Nat} :
    x ∈ (rangesFrom start prev cs).flatMap (fun r => List.range' r.1 (r.2 + 1 - r.1)) ↔ (start ≤ x ∧ x ≤ prev) ∨ x ∈ cs := by
  induction cs generalizing start prev with
  | nil =>
    rw [rangesFrom, List.flatMap_singleton, List.mem_range'_1]
    simp only [List.not_mem_nil, or_false]
    omega
  | cons c rest ih =>
    unfold rangesFrom
    split
    · have grown : (start ≤ x ∧ x ≤ c) ↔ (start ≤ x ∧ x ≤ prev) ∨ x = c := by omega
      rw [ih (by omega), List.mem_cons, grown, or_assoc]
    · have run : (start ≤ x ∧ x < start + (prev + 1 - start)) ↔ start ≤ x ∧ x ≤ prev := by omega
      have fresh : (c ≤ x ∧ x ≤ c) ↔ x = c := by omega
      rw [List.flatMap_cons, List.mem_append, List.mem_range'_1, ih (Nat.le_refl c), List.mem_cons, run, fresh]

theorem sortedSet_congr {a b : List Nat} (same : ∀ c, c ∈ a ↔ c ∈ b) : sortedSet a = sortedSet b := by
  have perm : List.Perm (sortedSet a) (sortedSet b) :=
    (List.perm_ext_iff_of_nodup (sortedSet_nodup a) (sortedSet_nodup b)).mpr fun c => by rw [mem_sortedSet, mem_sortedSet, same]
  have ordered (cpus : List Nat) : (sortedSet cpus).Pairwise (· ≤ ·) := (sortedSet_sorted cpus).imp Nat.le_of_lt
  exact perm.eq_of_pairwise' (ordered a) (ordered b)

theorem sortedSet_idem (cpus : List Nat) : sortedSet (sortedSet cpus) = sortedSet cpus := sortedSet_congr fun _ => mem_sortedSet

theorem formatCpuList_parts {cores : List Nat} (some' : cores ≠ []) :
    ∃ ranges, ranges ≠ [] ∧ (∀ r ∈ ranges, r.1 ≤ r.2) ∧ formatCpuList cores = [','].intercalate (ranges.map rangeText) ∧
      ∀ x, x ∈ ranges.flatMap (fun r => List.range' r.1 (r.2 + 1 - r.1)) ↔ x ∈ cores := by
  unfold formatCpuList
  cases shape : sortedSet cores with
  | nil =>
    obtain ⟨c, member⟩ := List.exists_mem_of_ne_nil cores some'
    rw [← mem_sortedSet, shape] at member
    cases member
  | cons c rest =>
    refine ⟨rangesFrom c c rest, ?_, rangesFrom_ordered (Nat.le_refl c), rfl, fun x => ?_⟩
    · have inside : c ∈ (rangesFrom c c rest).flatMap (fun r => List.range' r.1 (r.2 + 1 - r.1)) :=
        (mem_rangesFrom (Nat.le_refl c)).mpr (.inl ⟨Nat.le_refl c, Nat.le_refl c⟩)
      intro empty
      rw [empty] at inside
      cases inside
    · have one : (c ≤ x ∧ x ≤ c) ↔ x = c := by omega
      rw [mem_rangesFrom (Nat.le_refl c), one, ← List.mem_cons, ← shape, mem_sortedSet]

theorem comma_not_mem : ',' ∉ rangeText range := by
  intro member
  rcases rangeText_chars member with shown | same
  · exact absurd shown (by decide)
  · exact absurd same (by decide)

theorem split_formatted (some' : ranges ≠ []) :
    ([','].intercalate (ranges.map rangeText)).splitOn ',' = ranges.map rangeText := by
  refine List.splitOn_intercalate _ (fun part member => ?_) (fun empty => some' (List.map_eq_nil_iff.mp empty))
  obtain ⟨range, -, rfl⟩ := List.mem_map.mp member
  exact comma_not_mem

theorem expand_ranges (digits : Char → Option Nat) (ordered : ∀ r ∈ ranges, r.1 ≤ r.2) :
    (ranges.map rangeText).flatMap (Planes.partCpus digits) = ranges.flatMap fun r => List.range' r.1 (r.2 + 1 - r.1) := by
  rw [List.flatMap_map]
  exact List.flatMap_congr fun r member => partCpus_rangeText digits (ordered r member)

theorem format_solid (member : c ∈ [','].intercalate (ranges.map rangeText)) :
    Policy.isSpace c = false := by
  rcases mem_intercalate member with comma | ⟨part, there, inside⟩
  · obtain rfl := List.mem_singleton.mp comma
    decide
  · obtain ⟨range, -, rfl⟩ := List.mem_map.mp there
    exact rangeText_solid inside

theorem flags_kept :
    (["managed_irq".toList, "domain".toList] ++ ranges.map rangeText).filter (· ∉ isolcpusFlags) = ranges.map rangeText := by
  have plain : ∀ part ∈ ranges.map rangeText, decide (part ∉ isolcpusFlags) = true := by
    intro part member
    obtain ⟨range, -, rfl⟩ := List.mem_map.mp member
    obtain ⟨c, rest, shape, shown⟩ := rangeText_head range
    refine decide_eq_true fun flag => ?_
    rw [shape] at flag
    have letters : ∀ flag ∈ isolcpusFlags, flag.head?.any (fun c => !c.isDigit) = true := by decide
    have letter := letters _ flag
    rw [List.head?_cons, Option.any_some, shown] at letter
    cases letter
  rw [List.filter_append, List.filter_eq_self.mpr plain]
  rfl

theorem parse_isolcpus (digits : Char → Option Nat) {cores : List Nat} (some' : cores ≠ []) (rest : Text) :
    parseIsolcpus digits ("isolcpus=managed_irq,domain,".toList ++ formatCpuList cores ++ ' ' :: rest) = sortedSet cores := by
  obtain ⟨ranges, nonempty, ordered, shape, same⟩ := formatCpuList_parts some'
  have solid : ∀ c ∈ "isolcpus=managed_irq,domain,".toList ++ formatCpuList cores, Policy.isSpace c = false := by
    intro c member
    rcases List.mem_append.mp member with front | list
    · have clean : ∀ c ∈ "isolcpus=managed_irq,domain,".toList, Policy.isSpace c = false := by
        intro c member
        simpa using List.any_eq_false.mp (rfl : "isolcpus=managed_irq,domain,".toList.any Policy.isSpace = false) c member
      exact clean c front
    · exact format_solid (shape ▸ list)
  have listed : cut '=' ("isolcpus=managed_irq,domain,".toList ++ formatCpuList cores) =
      ("isolcpus".toList, "managed_irq,domain,".toList ++ formatCpuList cores) := by
    have clean : '=' ∉ "isolcpus".toList := by decide
    have whole : "isolcpus=managed_irq,domain,".toList ++ formatCpuList cores =
        "isolcpus".toList ++ '=' :: ("managed_irq,domain,".toList ++ formatCpuList cores) := rfl
    rw [whole, cut_append clean]
  have parts : ("managed_irq,domain,".toList ++ formatCpuList cores).splitOn ',' =
      ["managed_irq".toList, "domain".toList] ++ ranges.map rangeText := by
    have front : "managed_irq,domain,".toList ++ formatCpuList cores =
        "managed_irq".toList ++ ',' :: ("domain".toList ++ ',' :: formatCpuList cores) := rfl
    rw [front, List.splitOn_append_cons_self_of_not_mem (by decide), List.splitOn_append_cons_self_of_not_mem (by decide), shape,
      split_formatted nonempty]
    rfl
  have first : fields ("isolcpus=managed_irq,domain,".toList ++ formatCpuList cores ++ ' ' :: rest) =
      ("isolcpus=managed_irq,domain,".toList ++ formatCpuList cores) :: fields rest :=
    Threatdb.fields_word solid (by simp) (by decide) rest
  have found : "isolcpus=".toList.isPrefixOf ("isolcpus=managed_irq,domain,".toList ++ formatCpuList cores) = true :=
    List.isPrefixOf_iff_prefix.mpr ⟨"managed_irq,domain,".toList ++ formatCpuList cores, rfl⟩
  unfold parseIsolcpus
  rw [first, List.find?_cons, found]
  dsimp only
  rw [listed, parts, flags_kept, Planes.expandCpuList, split_formatted nonempty, expand_ranges digits ordered]
  exact sortedSet_congr same

end FfnNgfw.Cpu
