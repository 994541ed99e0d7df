import FfnNgfw.Cpu.Lists
import Mathlib.Data.List.Infix
import Mathlib.Data.Rat.Floor

/-!
# The isolation plan

What the hardware inventory and the platform declaration make of the host CPUs: management
only, shared, or a set taken from the scheduler. The three ways to choose that set meet in one
step that checks it, and the plan becomes a kernel command line.
-/

namespace FfnNgfw.Cpu
open Threatdb (Text)

/-! ### Hardware roles -/

structure PciFunction where
  classId : String
  physicalFunction : Bool
  model : String

structure Octeon where
  hostCpu : Bool
  present : Bool
  pciFunctions : Option (List PciFunction)

structure Inventory where
  onlineCpus : Option (List Nat)
  coresLogical : Nat
  availableCpus : Option (List Nat)
  topology : List (Nat × List Nat)
  model : String
  arch : String
  totalGb : ℚ
  status : String
  fpga : Bool
  octeon : Octeon
  dpu : Bool
  accelerators : List String
  /-- `pci`, `accelerators`, `dpu` and `specialized` -/
  probeStatus : List String

/-- `{}`, also what is made of no inventory. -/
def Inventory.empty : Inventory :=
  ⟨none, 0, none, [], "", "", 0, "", false, ⟨false, false, none⟩, false, [], []⟩

structure Declaration where
  platform : String
  datapath : String
  cpuIsolation : String
  isolateCores : Text
  /-- What the fraction of a number of groups is rounded to. -/
  dataFraction : Option (Nat → Nat)
  reason : String

def defaultDecl : Declaration :=
  ⟨"generic", "dpdk", "auto", [], none, "No platform selected: assuming generic hardware with a DPDK " ++
    "datapath, where the poll-mode cores benefit from isolation."⟩

structure Assignment where
  role : String
  cpuIsolation : String
  evidence : List String
  reason : String

def PciFunction.processes (d : PciFunction) : Bool :=
  !("06".toList.isPrefixOf d.classId.toList || "0108".toList.isPrefixOf d.classId.toList) && !d.physicalFunction &&
    !decide (" VF".toList <:+: d.model.toList)

def roleKinds : List String := ["fpga", "npu", "coprocessor", "crypto", "accelerator", "gpu", "switch", "asic"]

def roleEvidence (inv : Inventory) (decl : Declaration) : List String :=
  (if inv.fpga then ["fpga"] else []) ++
  (if inv.octeon.hostCpu || (inv.octeon.present && inv.octeon.pciFunctions.isNone) then ["octeon"]
    else if (inv.octeon.pciFunctions.getD []).any (·.processes) then ["octeon"] else []) ++
  (if inv.dpu then ["dpu"] else []) ++
  inv.accelerators.filter (· ∈ roleKinds) ++
  (if decl.datapath = "offload" then ["platform-offload"] else [])

def classifyCpuRole (inv : Inventory) (decl : Declaration) : Assignment :=
  let evidence := (roleEvidence inv decl).dedup.insertionSort (· ≤ ·)
  if evidence ≠ [] then
    ⟨"management", "none", evidence, "Specialized hardware detected (" ++ ", ".intercalate evidence ++
      "); the main CPU is the management plane. No host dataplane cores are reserved."⟩
  else if inv.status = "unsupported" ∨ "partial" ∈ inv.probeStatus ∨ "error" ∈ inv.probeStatus then
    ⟨"unknown", "none", [], "Hardware discovery is incomplete; defer CPU partitioning until hardware roles are known."⟩
  else
    ⟨"shared", "auto", [],
      "No specialized processing hardware detected; host CPUs serve management, control and software dataplane workloads."⟩

/-! ### The plan -/

structure Plan where
  isolate : Bool
  cores : List Nat
  housekeeping : List Nat
  hugepages : Option (String × Nat)
  iommu : List String
  reason : String
  warnings : List String
  platform : String
  datapath : String
  declPath : Option String
  ncpu : Nat
  cpuRole : String
  planes : Option Planes

def minCoresToIsolate : Nat := 4
def minSchedulable : Nat := 2

def planHugepages (memGb : ℚ) : Option (String × Nat) :=
  if memGb < 8 then none else some ("1G", max 2 (min (memGb / 4).floor.toNat 64))

/-- What `decide` reads besides its arguments. -/
structure Host where
  detector : Bool
  cpuCount : Nat
  smtSiblings : Siblings
  numaOfCpu : Nat → Option Nat
  /-- `%r` -/
  quoted : String → String
  digits : Char → Option Nat

variable (host : Host)

structure Request where
  inv : Option Inventory
  decl : Option Declaration
  declPath : Option String
  ncpu : Option Nat
  memGb : Option ℚ
  sibs : Option Siblings
  nicNode : Option Nat

namespace Request

variable (r : Request)

def inventory : Inventory := r.inv.getD .empty
def declaration : Declaration := r.decl.getD defaultDecl

/-- The number of CPUs; no count, or zero, asks the operating system. -/
def count : Nat :=
  match r.ncpu with
  | some n => n
  | none => if r.inventory.coresLogical ≠ 0 then r.inventory.coresLogical else if host.cpuCount ≠ 0 then host.cpuCount else 1

def cpuIds : List Nat :=
  match r.ncpu, r.inventory.onlineCpus with
  | none, some online => sortedSet online
  | _, _ => List.range (r.count host)

def topologySiblings (topology : List (Nat × List Nat)) : Siblings :=
  topology.foldl (fun d row => d.assign row.1 (if row.2 = [] then [row.1] else row.2)) ∅

def siblings : Siblings :=
  match r.sibs with
  | some sibs => sibs
  | none =>
    if r.inventory.topology ≠ [] then topologySiblings r.inventory.topology
    else if r.inv.isNone then host.smtSiblings
    else ∅

def mode : String := r.declaration.cpuIsolation.toLower

def listed : List Nat := expandCpuList host.digits r.declaration.isolateCores

def start : Plan :=
  { isolate := false, cores := [], housekeeping := [], hugepages := none, iommu := [], reason := "", warnings := []
    platform := r.declaration.platform, datapath := r.declaration.datapath, declPath := r.declPath, ncpu := r.count host
    cpuRole := "shared", planes := none }

end Request

def postProcess (r : Request) (p : Plan) : Plan :=
  let ids := r.cpuIds host
  let chosen := (sortedSet p.cores).filter (· ∈ ids)
  let cores := chosen.filter (· ≠ 0)
  let warnings := if 0 ∈ chosen then
      p.warnings ++ ["refused to isolate CPU 0: kernel housekeeping and most IRQ handling land there."] else p.warnings
  let housekeeping := ids.filter (· ∉ cores)
  if housekeeping.length < minSchedulable then
    { p with isolate := false, cores := [], housekeeping := ids,
             warnings := warnings ++ ["plan would have left fewer than " ++ toString minSchedulable ++
               " schedulable core(s); isolating nothing instead."] }
  else if cores = [] then { p with isolate := false, cores := [], housekeeping, warnings }
  else
    let arch := r.inventory.arch.toLower
    { p with
      cores, housekeeping, warnings
      hugepages := planHugepages (r.memGb.getD r.inventory.totalGb)
      iommu :=
        if arch ≠ "" ∧ arch ∉ ["x86_64", "amd64", "i686", "i386"] then ["iommu=pt"]
        else if "amd".toList <:+: r.inventory.model.toLower.toList then ["amd_iommu=on", "iommu=pt"]
        else ["intel_iommu=on", "iommu=pt"] }

def dpdkReason : String :=
  "datapath=dpdk on generic hardware: a poll-mode driver spins at 100% and never yields, so its cores are isolated from the " ++
    "scheduler, the timer tick and RCU callbacks."

def chooseGeneric (r : Request) (p : Plan) : Plan :=
  let ids := r.cpuIds host
  let (p, cores, warns) :=
    match r.declaration.dataFraction with
    | some share =>
      let (cores, warns) := pickDpdkCores host.numaOfCpu (r.count host) (r.siblings host) r.nicNode share (some ids)
      (p, cores, warns)
    | none =>
      let planes := balancedPlan ids (r.siblings host)
      ({ p with planes := some planes }, if planes.data.any (· ∈ planes.mgmt) then [] else planes.data, [])
  { p with
    cores, warnings := p.warnings ++ warns, isolate := cores ≠ []
    reason := if cores ≠ [] then dpdkReason else "Too few physical cores for separate MP/CP/DP pools; CPUs remain shared." }

/-- The plan for a host; no CPUs in an explicit declaration end the program. -/
def decide (r : Request) : Except String Plan :=
  let decl := r.declaration
  let assignment := classifyCpuRole r.inventory decl
  let p := if host.detector then { r.start host with cpuRole := assignment.role } else r.start host
  if host.detector ∧ assignment.cpuIsolation = "none" then
    .ok { p with
      housekeeping := r.cpuIds host
      datapath := if assignment.role = "management" then "offload" else "unknown"
      reason := assignment.reason
      warnings := if r.mode = "explicit" then ["Explicit host dataplane isolation ignored after hardware-role classification."] else [] }
  else if r.inventory.status = "unsupported" then .ok { p with reason := "Host tuning requires Linux hardware probes." }
  else if r.inventory.availableCpus.any fun available => sortedSet available ≠ sortedSet (r.cpuIds host) then
    .ok { p with
      reason := "Process CPU affinity is restricted; refusing host-wide kernel tuning from a partial CPU view." }
  else if r.mode = "none" then
    .ok { p with
      reason := if decl.reason ≠ "" then decl.reason else
        "Platform " ++ host.quoted p.platform ++ " declares cpu_isolation=none. Forwarding is offloaded, " ++
          "so host cores run only the control plane and isolating them would cost management responsiveness for no throughput gain." }
  else if r.mode = "explicit" then
    if r.listed host = [] then
      .error ("ffn_cpuisol: " ++ (if r.declPath.getD "" ≠ "" then r.declPath.getD "" else "platform declaration") ++
        " sets cpu_isolation=explicit but no usable isolate_cores")
    else
      .ok (postProcess host r
        { p with
          cores := r.listed host, isolate := true
          reason := if decl.reason ≠ "" then decl.reason else
            "Platform " ++ host.quoted p.platform ++ " pins the isolated set explicitly." })
  else if p.datapath = "offload" then
    .ok { p with
      reason := "datapath=offload: forwarding does not run on host cores, so there is nothing whose preemption would drop packets." }
  else if r.count host < minCoresToIsolate then
    .ok { p with
      reason := "only " ++ toString (r.count host) ++ " logical core(s): isolating any of them would leave too " ++
        "few for the management and control planes. DPDK will still run, sharing cores with the scheduler." }
  else .ok (postProcess host r (chooseGeneric host r p))

def cmdlineTokens (p : Plan) : List Text :=
  let lst := formatCpuList p.cores
  let hk := formatCpuList p.housekeeping
  ("isolcpus=managed_irq,domain,".toList ++ lst) :: ("nohz_full=".toList ++ lst) :: ("rcu_nocbs=".toList ++ lst) ::
    ((if hk ≠ [] then ["irqaffinity=".toList ++ hk] else []) ++
    (match p.hugepages with
      | some (size, count) => ["default_hugepagesz=".toList ++ size.toList, "hugepagesz=".toList ++ size.toList,
          "hugepages=".toList ++ decimal count]
      | none => []) ++
    p.iommu.map String.toList)

def renderCmdline (p : Plan) : Text :=
  if !p.isolate || p.cores = [] then [] else [' '].intercalate (cmdlineTokens p)

/-! ### Safety -/

structure Safe (r : Request) (p : Plan) : Prop where
  covered : ∀ c, c ∈ r.cpuIds host ↔ c ∈ p.cores ∨ c ∈ p.housekeeping
  apart : List.Disjoint p.cores p.housekeeping
  zero : 0 ∉ p.cores
  schedulable : minSchedulable ≤ p.housekeeping.length
  whole : Whole (r.siblings host) (r.cpuIds host) p.cores
  parsed : parseIsolcpus host.digits (renderCmdline p) = p.cores

section

variable {host} {r : Request} {p plan : Plan}

theorem postProcess_isolates (on : (postProcess host r p).isolate = true) :
    (postProcess host r p).cores = ((sortedSet p.cores).filter (· ∈ r.cpuIds host)).filter (· ≠ 0) ∧
    (postProcess host r p).housekeeping = (r.cpuIds host).filter (· ∉ (postProcess host r p).cores) ∧
    minSchedulable ≤ (postProcess host r p).housekeeping.length ∧ (postProcess host r p).cores ≠ [] := by
  revert on
  unfold postProcess
  dsimp only
  split
  · intro on
    cases on
  · rename_i enough
    split
    · intro on
      cases on
    · rename_i some'
      exact fun _ => ⟨rfl, rfl, Nat.le_of_not_lt enough, some'⟩

theorem mem_postProcess (on : (postProcess host r p).isolate = true) {c : Nat} :
    c ∈ (postProcess host r p).cores ↔ c ∈ p.cores ∧ c ∈ r.cpuIds host ∧ c ≠ 0 := by
  rw [(postProcess_isolates on).1, List.mem_filter, List.mem_filter, mem_sortedSet, decide_eq_true_eq, decide_eq_true_eq, and_assoc]

theorem cmdline_parsed (digits : Char → Option Nat) (on : p.isolate = true) (some' : p.cores ≠ []) :
    parseIsolcpus digits (renderCmdline p) = sortedSet p.cores := by
  have shape : ∃ rest, renderCmdline p = "isolcpus=managed_irq,domain,".toList ++ formatCpuList p.cores ++ ' ' :: rest := by
    unfold renderCmdline cmdlineTokens
    rw [on, Bool.not_true, if_neg (by simpa using some'), List.intercalate_cons_cons, List.append_assoc (_ ++ _)]
    exact ⟨_, rfl⟩
  obtain ⟨rest, shape⟩ := shape
  rw [shape]
  exact parse_isolcpus digits some' rest

theorem postProcess_safe (on : (postProcess host r p).isolate = true) :
    Safe host r (postProcess host r p) ↔ Whole (r.siblings host) (r.cpuIds host) (postProcess host r p).cores := by
  obtain ⟨cores, housekeeping, enough, some'⟩ := postProcess_isolates on
  refine ⟨Safe.whole, fun whole => ⟨fun c => ?_, ?_, ?_, enough, whole, ?_⟩⟩
  · rw [housekeeping, List.mem_filter, decide_eq_true_eq]
    constructor
    · intro there
      by_cases taken : c ∈ (postProcess host r p).cores
      · exact .inl taken
      · exact .inr ⟨there, taken⟩
    · rintro (taken | kept)
      · exact ((mem_postProcess on).mp taken).2.1
      · exact kept.1
  · intro c taken kept
    rw [housekeeping, List.mem_filter, decide_eq_true_eq] at kept
    exact kept.2 taken
  · exact fun zero => ((mem_postProcess on).mp zero).2.2 rfl
  · rw [cmdline_parsed _ on some']
    have ordered : (postProcess host r p).cores.Pairwise (· < ·) := by
      rw [cores]
      exact ((sortedSet_sorted _).filter _).filter _
    have same := sortedSet_idem (postProcess host r p).cores
    have sorted : (sortedSet (postProcess host r p).cores).Pairwise (· ≤ ·) := (sortedSet_sorted _).imp Nat.le_of_lt
    have perm : List.Perm (sortedSet (postProcess host r p).cores) (postProcess host r p).cores :=
      (List.perm_ext_iff_of_nodup (sortedSet_nodup _) (ordered.imp Nat.ne_of_lt)).mpr fun _ => mem_sortedSet
    exact perm.eq_of_pairwise' sorted (ordered.imp Nat.le_of_lt)

theorem chooseGeneric_whole : Whole (r.siblings host) (r.cpuIds host) (chooseGeneric host r p).cores ∧
    0 ∉ (chooseGeneric host r p).cores := by
  have nothing : Whole (r.siblings host) (r.cpuIds host) [] ∧ 0 ∉ ([] : List Nat) :=
    ⟨fun c _ s _ _ => iff_of_false List.not_mem_nil List.not_mem_nil, List.not_mem_nil⟩
  unfold chooseGeneric
  cases r.declaration.dataFraction with
  | some share => exact pickDpdkCores_whole
  | none =>
    dsimp only
    split
    · exact nothing
    · rename_i apart
      by_cases few : (physicalCores (sortedSet (r.cpuIds host)).length (r.siblings host) (some (sortedSet (r.cpuIds host)))).length < 4
      · rw [balancedPlan_shared few] at apart ⊢
        have empty : sortedSet (r.cpuIds host) = [] := by
          cases shape : sortedSet (r.cpuIds host) with
          | nil => rfl
          | cons c rest =>
            rw [shape] at apart
            exact absurd (List.any_eq_true.mpr ⟨c, List.mem_cons_self, decide_eq_true List.mem_cons_self⟩) apart
        rw [empty]
        exact nothing
      · exact balancedPlan_whole few

theorem decide_isolates (decided : decide host r = .ok plan) (on : plan.isolate = true) :
    ∃ p, plan = postProcess host r p ∧
      (r.mode = "explicit" ∧ p.cores = r.listed host ∨ r.mode ≠ "explicit" ∧ ∃ q, p = chooseGeneric host r q) := by
  revert decided
  unfold decide
  dsimp only
  obtain ⟨begun, shape⟩ : ∃ begun,
      begun = if host.detector then { r.start host with cpuRole := (classifyCpuRole r.inventory r.declaration).role }
    else r.start host := ⟨_, rfl⟩
  have off : begun.isolate = false := by
    rw [shape]
    split <;> rfl
  rw [← shape]
  have stuck {a : Plan} (eq : (Except.ok a : Except String Plan) = .ok plan) (same : a.isolate = false) : False := by
    cases eq
    rw [same] at on
    cases on
  split
  · exact fun eq => (stuck eq off).elim
  split
  · exact fun eq => (stuck eq off).elim
  split
  · exact fun eq => (stuck eq off).elim
  split
  · exact fun eq => (stuck eq off).elim
  split
  · rename_i explicit
    split
    · intro eq
      cases eq
    · intro eq
      exact ⟨_, (Except.ok.inj eq).symm, .inl ⟨explicit, rfl⟩⟩
  rename_i generic
  split
  · exact fun eq => (stuck eq off).elim
  split
  · exact fun eq => (stuck eq off).elim
  intro eq
  exact ⟨_, (Except.ok.inj eq).symm, .inr ⟨generic, _, rfl⟩⟩

theorem whole_congr {sibs : Siblings} {ids a b : List Nat} (same : ∀ c, c ∈ ids → (c ∈ a ↔ c ∈ b)) : Whole sibs ids a ↔
    Whole sibs ids b := by
  unfold Whole
  refine forall_congr' fun c => forall_congr' fun there => forall_congr' fun s => forall_congr' fun there' => forall_congr' fun _ => ?_
  rw [same c there, same s there']

/-- A plan that isolates is safe as soon as the CPUs that an explicit declaration lists, CPU 0 aside, are whole
physical cores. -/
theorem isolation_safe_iff (decided : decide host r = .ok plan) (on : plan.isolate = true) :
    Safe host r plan ↔ (r.mode = "explicit" → Whole (r.siblings host) (r.cpuIds host) ((r.listed host).filter (· ≠ 0))) := by
  obtain ⟨p, rfl, ⟨explicit, listed⟩ | ⟨generic, q, rfl⟩⟩ := decide_isolates decided on
  · rw [postProcess_safe on]
    have same : Whole (r.siblings host) (r.cpuIds host) (postProcess host r p).cores ↔
        Whole (r.siblings host) (r.cpuIds host) ((r.listed host).filter (· ≠ 0)) := by
      refine whole_congr fun c there => ?_
      rw [mem_postProcess on, listed, List.mem_filter, decide_eq_true_eq]
      exact and_congr_right fun _ => and_iff_right there
    rw [same]
    exact ⟨fun whole _ => whole, fun whole => whole explicit⟩
  · obtain ⟨whole, zero⟩ : Whole (r.siblings host) (r.cpuIds host) (chooseGeneric host r q).cores ∧ 0 ∉ (chooseGeneric host r q).cores :=
      chooseGeneric_whole
    refine iff_of_true ((postProcess_safe on).mpr ?_) fun explicit => absurd explicit generic
    refine (whole_congr fun c there => ?_).mpr whole
    rw [mem_postProcess on]
    refine ⟨And.left, fun chosen => ⟨chosen, there, ?_⟩⟩
    rintro rfl
    exact zero chosen

end

def sampleHost : Host := ⟨true, 8, ∅, fun _ => none, fun s => "'" ++ s ++ "'", fun _ => none⟩

def sampleRequest (cores : String) : Request where
  inv := some { Inventory.empty with
    onlineCpus := some [0, 1, 2, 3, 4, 5, 6, 7], coresLogical := 8
    topology := [(0, [0, 4]), (1, [1, 5]), (2, [2, 6]), (3, [3, 7]), (4, [0, 4]), (5, [1, 5]), (6, [2, 6]), (7, [3, 7])] }
  decl := some { defaultDecl with cpuIsolation := "explicit", isolateCores := cores.toList }
  declPath := none
  ncpu := none
  memGb := none
  sibs := none
  nicNode := none

theorem sample_isolates (cores : String) (on : (decide sampleHost (sampleRequest cores)).toOption.any (·.isolate) = true) :
    ∃ plan, decide sampleHost (sampleRequest cores) = .ok plan ∧ plan.isolate = true := by
  cases shape : decide sampleHost (sampleRequest cores) with
  | ok plan =>
    rw [shape] at on
    exact ⟨plan, rfl, on⟩
  | error message =>
    rw [shape] at on
    cases on

theorem paired_cores_safe : ∃ plan, decide sampleHost (sampleRequest "2-3,6-7") = .ok plan ∧ plan.isolate = true ∧
    Safe sampleHost (sampleRequest "2-3,6-7") plan := by
  obtain ⟨plan, decided, on⟩ := sample_isolates "2-3,6-7" (by decide +kernel)
  exact ⟨plan, decided, on, (isolation_safe_iff decided on).mpr fun _ => by unfold Whole; decide +kernel⟩

/-- A list of first threads leaves their siblings to the scheduler. -/
theorem listed_threads_split : ¬∀ (host : Host) (r : Request) (plan : Plan), decide host r = .ok plan → plan.isolate = true →
    Safe host r plan := by
  intro safe
  obtain ⟨plan, decided, on⟩ := sample_isolates "1-3" (by decide +kernel)
  obtain ⟨p, rfl, ⟨-, listed⟩ | ⟨generic, -⟩⟩ := decide_isolates decided on
  · have together := (safe _ _ _ decided on).whole 1 (by decide +kernel) 5 (by decide +kernel) (by decide +kernel)
    rw [mem_postProcess on, mem_postProcess on, listed] at together
    have first : 1 ∈ (sampleRequest "1-3").listed sampleHost ∧ 1 ∈ (sampleRequest "1-3").cpuIds sampleHost ∧ 1 ≠ 0 := by decide +kernel
    have second : 5 ∉ (sampleRequest "1-3").listed sampleHost := by decide +kernel
    exact second (together.mp first).1
  · exact generic (by decide +kernel)

end FfnNgfw.Cpu
