import FfnNgfw.Dpmem.Wire

/-!
# The plain DPDK forwarder

`ffn_dpdk_fwd.c`: the command line, the ports and their queues, and the loop of a worker over
the FPGA port and the CPU ports. The network driver is what it answers: the packets of a burst,
and for each packet whether it is taken when it is sent or handed to the kernel. A worker's run
is the list of the calls it makes; two workers on one queue are left out.
-/

namespace FfnNgfw.Forwarder

open Dpmem (atoi inetPton4 octetsWord)

def bytes (s : String) : List UInt8 := s.toList.map fun c => UInt8.ofNat c.toNat

/-! ### The command line -/

def defaultBurstSize : Nat := 32

structure Config where
  rxQueues : Nat
  burst : Nat
  fpgaPci : List UInt8
  cpuPci : List (List UInt8)
  fpgaNets : List (UInt32 × UInt32)

def Config.initial : Config where
  rxQueues := 4
  burst := defaultBurstSize
  fpgaPci := []
  cpuPci := []
  fpgaNets := [(0x0A000000, 0xFF000000), (0xAC100000, 0xFFF00000), (0xC0A80000, 0xFFFF0000)]

def clamp (hi : Nat) (n : Int) : Nat := if n < 1 then 1 else if hi < n then hi else n.toNat

/-- `strtok` by commas -/
def tokens (s : List UInt8) : List (List UInt8) := (s.splitOn 0x2C).filter (· ≠ [])

def netMask (pfx : Int) : UInt32 := if 0 < pfx then 0xFFFFFFFF <<< UInt32.ofNat ((32 - pfx) % 32).toNat else 0

def addNet (cfg : Config) (cidr : List UInt8) : Config :=
  if 0x2F ∈ cidr ∧ cfg.fpgaNets.length < 16 then
    match inetPton4 (cidr.takeWhile (· ≠ 0x2F)) [] 0 false with
    | some octets => { cfg with fpgaNets := cfg.fpgaNets ++ [(octetsWord octets, netMask (atoi ((cidr.dropWhile (· ≠ 0x2F)).drop 1)))] }
    | none => cfg
  else cfg

/-- The options in their order; the help ends the program. An option without its value is passed over. -/
def options : Config → List (List UInt8) → Option Config
  | cfg, [] => some cfg
  | cfg, [a] => if a = bytes "-h" ∨ a = bytes "--help" then none else some cfg
  | cfg, a :: v :: rest =>
    if a = bytes "--fpga-pci" then options { cfg with fpgaPci := v.take 31 } rest
    else if a = bytes "--cpu-nics" then options { cfg with cpuPci := (cfg.cpuPci ++ (tokens v).map (List.take 31)).take 8 } rest
    else if a = bytes "--rx-queues" then options { cfg with rxQueues := clamp 16 (atoi v) } rest
    else if a = bytes "--burst" then options { cfg with burst := clamp 512 (atoi v) } rest
    else if a = bytes "--fpga-net" then options (addNet cfg v) rest
    else if a = bytes "-h" ∨ a = bytes "--help" then none
    else options cfg (v :: rest)

def parseAppArgs (argv : List (List UInt8)) : Option Config :=
  (options .initial argv).bind fun cfg => if cfg.fpgaPci = [] then none else some cfg

/-! ### Ports -/

/-- A device, with the queues it has and what its driver answers. -/
structure Device where
  valid : Bool
  informs : Bool
  maxRxQueues : Nat
  maxTxQueues : Nat
  configures : Nat → Nat → Bool
  rxSetup : Nat → Bool
  txSetup : Nat → Bool
  starts : Bool

structure Queues where
  rx : Nat
  tx : Nat
  deriving DecidableEq

def atMost (max n : Nat) : Nat := if max < n then max else n

/-- `port_init`: the queues that were set up. -/
def portInit (d : Device) (nRx nTx : Nat) : Option Queues :=
  if !d.valid || !d.informs then none
  else
    let rx := atMost d.maxRxQueues nRx
    let tx := atMost d.maxTxQueues nTx
    if d.configures rx tx && (List.range rx).all d.rxSetup && (List.range tx).all d.txSetup && d.starts then some ⟨rx, tx⟩ else none

inductive Port where
  | fpga
  | cpu (p : Nat)
  deriving DecidableEq

structure Setup where
  config : Config
  queues : Port → Option Queues
  kni : Nat → Bool

def Config.ports (cfg : Config) : List Port := .fpga :: (List.range cfg.cpuPci.length).map .cpu

/-- `main` up to the launch of the workers; `kni` tells the ports for which the kernel gives an interface. -/
def boot (argv : List (List UInt8)) (devices : Port → Device) (kni : Nat → Bool) : Option Setup :=
  (parseAppArgs argv).bind fun cfg =>
    let queues := fun port => if port ∈ cfg.ports then portInit (devices port) cfg.rxQueues cfg.rxQueues else none
    if cfg.ports.all fun port => (queues port).isSome then some ⟨cfg, queues, fun p => decide (p < cfg.cpuPci.length) && kni p⟩ else none

/-- What `classify_packet` reads; `port` is the destination port, where there is one. -/
structure Packet where
  etherType : UInt16
  dst : UInt32
  proto : UInt8
  port : UInt16

inductive Action where
  | forward
  | puntFpga
  | localDeliver
  | drop

def isFpgaNetwork (cfg : Config) (dst : UInt32) : Bool := cfg.fpgaNets.any fun net => dst &&& net.2 = net.1

def isMgmtPort (dport : UInt16) : Bool := dport ∈ [22, 443, 179, 67, 68, 53, 161]

def classifyPacket (cfg : Config) (pkt : Packet) (rxPort : Port) : Action :=
  if pkt.etherType ≠ 0x0800 then if pkt.etherType = 0x0806 then .localDeliver else .forward
  else if pkt.proto = 89 then .localDeliver
  else if isMgmtPort (if pkt.proto = 6 ∨ pkt.proto = 17 then pkt.port else 0) then .localDeliver
  else if rxPort = .fpga then .forward
  else if isFpgaNetwork cfg pkt.dst then .puntFpga
  else .forward

/-! ### The worker -/

/-- The workers in the order in which they are counted from the main core on: those behind it, or all where there are none. -/
def counted (main : Nat) (workers : List Nat) : List Nat :=
  let behind := workers.filter (main < ·)
  if behind = [] then workers else behind

/-- A worker that is not met on the way gets the offset behind the last. -/
def queueId (cfg : Config) (main : Nat) (workers : List Nat) (lcore : Nat) : Nat := (counted main workers).idxOf lcore % cfg.rxQueues

/-- A call of the worker. Packets are numbered as they are received. -/
inductive Event where
  | rx (port : Port) (queue asked : Nat)
  | received (mbuf : Nat)
  | tx (port : Port) (queue mbuf : Nat) (accepted : Bool)
  | kni (p mbuf : Nat) (accepted : Bool)
  | free (mbuf : Nat)
  deriving DecidableEq

section worker

variable (s : Setup) (queue : Nat)

def send (port : Port) (m : Nat) (accepted : Bool) : List Event :=
  if accepted then [.tx port queue m true] else [.tx port queue m false, .free m]

def deliver (p m : Nat) (accepted : Bool) : List Event := if s.kni p then [.kni p m accepted] else [.free m]

def dispose (port : Port) (m : Nat) (pkt : Packet) (accepted : Bool) : List Event :=
  let cpus := s.config.cpuPci.length
  match port with
  | .fpga =>
    match classifyPacket s.config pkt .fpga with
    | .localDeliver => deliver s 0 m accepted
    | .forward => if 0 < cpus then send queue (.cpu 0) m accepted else [.free m]
    | _ => [.free m]
  | .cpu p =>
    match classifyPacket s.config pkt (.cpu p) with
    | .puntFpga => send queue .fpga m accepted
    | .localDeliver => deliver s p m accepted
    | .forward => send queue (if 1 < cpus then .cpu ((p + 1) % cpus) else .fpga) m accepted
    | .drop => [.free m]

def handle (port : Port) : Nat → List (Packet × Bool) → List Event
  | _, [] => []
  | m, (pkt, accepted) :: rest => .received m :: (dispose s queue port m pkt accepted ++ handle port (m + 1) rest)

def polls : Nat → List (Port × List (Packet × Bool)) → List Event
  | _, [] => []
  | m, (port, pkts) :: rest => .rx port queue s.config.burst :: (handle s queue port m pkts ++ polls (m + pkts.length) rest)

end worker

/-- A pass of the loop, from what each port would give: no burst is longer than what is asked for. -/
def pass (s : Setup) (answers : Port → List (Packet × Bool)) : List (Port × List (Packet × Bool)) :=
  s.config.ports.map fun port => (port, (answers port).take s.config.burst)

def lcoreMain (s : Setup) (main : Nat) (workers : List Nat) (lcore : Nat) (passes : List (Port → List (Packet × Bool))) : List Event :=
  polls s (queueId s.config main workers lcore) 0 (passes.flatMap (pass s))

def Event.settles (m : Nat) : Event → Bool
  | .tx _ _ mbuf accepted => decide (mbuf = m) && accepted
  | .kni _ mbuf accepted => decide (mbuf = m) && accepted
  | .free mbuf => decide (mbuf = m)
  | _ => false

structure Inside (s : Setup) (events : List Event) : Prop where
  bounded : ∀ port queue asked, .rx port queue asked ∈ events → asked ≤ defaultBurstSize
  rxReady : ∀ port queue asked, .rx port queue asked ∈ events → ∃ q, s.queues port = some q ∧ queue < q.rx
  txReady : ∀ port queue m accepted, .tx port queue m accepted ∈ events → ∃ q, s.queues port = some q ∧ queue < q.tx
  once : ∀ m, .received m ∈ events → events.countP (Event.settles m) = 1

/-- The burst fits the array, every port has the worker's queue, and the kernel has no interface. -/
structure Fits (s : Setup) (devices : Port → Device) (queue : Nat) : Prop where
  burst : s.config.burst ≤ defaultBurstSize
  rx : ∀ port ∈ s.config.ports, queue < (devices port).maxRxQueues
  tx : s.config.cpuPci ≠ [] → ∀ port ∈ s.config.ports, queue < (devices port).maxTxQueues
  kni : ∀ p, s.kni p = false

theorem clamp_pos {hi : Nat} (positive : 0 < hi) (n : Int) : 0 < clamp hi n := by
  unfold clamp
  split
  · exact Nat.one_pos
  split
  · exact positive
  · omega

structure Config.Sound (cfg : Config) : Prop where
  rxQueues : 0 < cfg.rxQueues
  burst : 0 < cfg.burst
  ten : (0x0A000000, 0xFF000000) ∈ cfg.fpgaNets

theorem addNet_sound {cfg : Config} (h : cfg.Sound) (cidr : List UInt8) : (addNet cfg cidr).Sound := by
  unfold addNet
  split
  · split
    · exact ⟨h.rxQueues, h.burst, List.mem_append_left _ h.ten⟩
    · exact h
  · exact h

theorem options_sound : ∀ (argv : List (List UInt8)) {cfg cfg' : Config}, cfg.Sound → options cfg argv = some cfg' → cfg'.Sound
  | [], cfg, cfg', h, accepted => by
    rw [options] at accepted
    obtain rfl := Option.some.inj accepted
    exact h
  | [a], cfg, cfg', h, accepted => by
    rw [options] at accepted
    split at accepted
    · cases accepted
    · obtain rfl := Option.some.inj accepted
      exact h
  | a :: v :: rest, cfg, cfg', h, accepted => by
    rw [options] at accepted
    split at accepted
    · refine options_sound rest ?_ accepted
      exact ⟨h.rxQueues, h.burst, h.ten⟩
    split at accepted
    · refine options_sound rest ?_ accepted
      exact ⟨h.rxQueues, h.burst, h.ten⟩
    split at accepted
    · refine options_sound rest ?_ accepted
      exact ⟨clamp_pos (by decide) _, h.burst, h.ten⟩
    split at accepted
    · refine options_sound rest ?_ accepted
      exact ⟨h.rxQueues, clamp_pos (by decide) _, h.ten⟩
    split at accepted
    · exact options_sound rest (addNet_sound h v) accepted
    split at accepted
    · cases accepted
    · exact options_sound (v :: rest) h accepted

theorem parseAppArgs_sound {argv : List (List UInt8)} {cfg : Config} (accepted : parseAppArgs argv = some cfg) : cfg.Sound := by
  obtain ⟨cfg', parsed, named⟩ := Option.bind_eq_some_iff.mp accepted
  split at named
  · cases named
  · obtain rfl := Option.some.inj named
    exact options_sound argv ⟨by decide, by decide, List.mem_cons_self⟩ parsed

theorem atMost_eq (max n : Nat) : atMost max n = Min.min max n := by
  unfold atMost
  split
  · omega
  · omega

theorem portInit_queues {d : Device} {nRx nTx : Nat} {q : Queues} (ready : portInit d nRx nTx = some q) :
    q.rx = min d.maxRxQueues nRx ∧ q.tx = min d.maxTxQueues nTx := by
  unfold portInit at ready
  split at ready
  · cases ready
  · dsimp only at ready
    split at ready
    · obtain rfl := Option.some.inj ready
      exact ⟨atMost_eq _ _, atMost_eq _ _⟩
    · cases ready

section booted

variable {argv : List (List UInt8)} {devices : Port → Device} {kni : Nat → Bool} {s : Setup} {queue main lcore : Nat}
  {workers : List Nat}

structure Booted (devices : Port → Device) (kni : Nat → Bool) (s : Setup) : Prop where
  sound : s.config.Sound
  queues : ∀ port ∈ s.config.ports, ∃ q, s.queues port = some q ∧ q.rx = min (devices port).maxRxQueues s.config.rxQueues ∧
    q.tx = min (devices port).maxTxQueues s.config.rxQueues
  kni : ∀ p, s.kni p = true → p < s.config.cpuPci.length ∧ kni p = true

theorem boot_booted (booted : boot argv devices kni = some s) : Booted devices kni s := by
  obtain ⟨cfg, parsed, ready⟩ := Option.bind_eq_some_iff.mp booted
  dsimp only at ready
  split at ready
  · rename_i all
    obtain rfl := Option.some.inj ready
    refine ⟨parseAppArgs_sound parsed, fun port member => ?_, fun p interface => ?_⟩
    · obtain ⟨q, started⟩ := Option.isSome_iff_exists.mp (List.all_eq_true.mp all port member)
      have init := started
      rw [if_pos member] at init
      exact ⟨q, started, portInit_queues init⟩
    · exact (Bool.and_eq_true_iff.mp interface).imp_left of_decide_eq_true
  · cases ready

theorem cpu_mem_ports {cfg : Config} {p : Nat} : Port.cpu p ∈ cfg.ports ↔ p < cfg.cpuPci.length := by
  simp [Config.ports]

theorem fpga_mem_ports (cfg : Config) : Port.fpga ∈ cfg.ports := List.mem_cons_self

theorem queueId_lt (main : Nat) (workers : List Nat) (lcore : Nat) (h : s.config.Sound) :
    queueId s.config main workers lcore < s.config.rxQueues := Nat.mod_lt _ h.rxQueues

/-! ### What is done with one packet -/

theorem settles_send (port : Port) (m : Nat) (accepted : Bool) : (send queue port m accepted).countP (Event.settles m) = 1 := by
  cases accepted <;> simp [send, Event.settles]

theorem settles_free (m : Nat) : [Event.free m].countP (Event.settles m) = 1 := by simp [Event.settles]

theorem settles_deliver (none : ∀ p, s.kni p = false) (p m : Nat) (accepted : Bool) :
    (deliver s p m accepted).countP (Event.settles m) = 1 := by
  rw [deliver, none p]
  exact settles_free m

theorem settles_dispose (none : ∀ p, s.kni p = false) (port : Port) (m : Nat) (pkt : Packet) (accepted : Bool) :
    (dispose s queue port m pkt accepted).countP (Event.settles m) = 1 := by
  unfold dispose
  cases port with
  | fpga =>
    dsimp only
    split
    · exact settles_deliver none 0 m accepted
    · split
      · exact settles_send _ m accepted
      · exact settles_free m
    · exact settles_free m
  | cpu p =>
    dsimp only
    split
    · exact settles_send _ m accepted
    · exact settles_deliver none p m accepted
    · exact settles_send _ m accepted
    · exact settles_free m

inductive Concerns (s : Setup) (queue m : Nat) : Event → Prop where
  | tx (port : Port) (accepted : Bool) (there : port ∈ s.config.ports) (cpus : s.config.cpuPci ≠ []) :
      Concerns s queue m (.tx port queue m accepted)
  | kni (p : Nat) (accepted : Bool) : Concerns s queue m (.kni p m accepted)
  | free : Concerns s queue m (.free m)

variable {accepted : Bool} {e : Event}

theorem concerns_send {port : Port} {m : Nat} (there : port ∈ s.config.ports) (cpus : s.config.cpuPci ≠ [])
    (member : e ∈ send queue port m accepted) : Concerns s queue m e := by
  unfold send at member
  split at member
  · obtain rfl := List.mem_singleton.mp member
    exact .tx port true there cpus
  · rcases List.mem_cons.mp member with rfl | member
    · exact .tx port false there cpus
    · obtain rfl := List.mem_singleton.mp member
      exact .free

theorem concerns_deliver {p m : Nat} (member : e ∈ deliver s p m accepted) : Concerns s queue m e := by
  unfold deliver at member
  split at member
  · obtain rfl := List.mem_singleton.mp member
    exact .kni p accepted
  · obtain rfl := List.mem_singleton.mp member
    exact .free

theorem concerns_free {m : Nat} (member : e ∈ [Event.free m]) : Concerns s queue m e := by
  obtain rfl := List.mem_singleton.mp member
  exact .free

theorem concerns_dispose {port : Port} {m : Nat} {pkt : Packet} (listed : port ∈ s.config.ports)
    (member : e ∈ dispose s queue port m pkt accepted) : Concerns s queue m e := by
  unfold dispose at member
  cases port with
  | fpga =>
    dsimp only at member
    split at member
    · exact concerns_deliver member
    · split at member
      · rename_i some
        exact concerns_send (cpu_mem_ports.mpr some) (List.length_pos_iff.mp some) member
      · exact concerns_free member
    · exact concerns_free member
  | cpu p =>
    have some : p < s.config.cpuPci.length := cpu_mem_ports.mp listed
    have cpus : s.config.cpuPci ≠ [] := List.length_pos_iff.mp (by omega)
    dsimp only at member
    split at member
    · exact concerns_send (fpga_mem_ports _) cpus member
    · exact concerns_deliver member
    · refine concerns_send ?_ cpus member
      split
      · exact cpu_mem_ports.mpr (Nat.mod_lt _ (by omega))
      · exact fpga_mem_ports _
    · exact concerns_free member

theorem Concerns.same {m x : Nat} (h : Concerns s queue m e) (settled : e.settles x = true) : m = x := by
  cases h with
  | tx port accepted there cpus => exact of_decide_eq_true (Bool.and_eq_true_iff.mp settled).1
  | kni p accepted => exact of_decide_eq_true (Bool.and_eq_true_iff.mp settled).1
  | free => exact of_decide_eq_true settled

/-! ### What is done with a run's packets -/

section counting

variable {port : Port} {m x : Nat} {pkts : List (Packet × Bool)} {list : List (Port × List (Packet × Bool))}

theorem quiet_dispose (listed : port ∈ s.config.ports) (other : x ≠ m) (pkt : Packet) (accepted : Bool) :
    (dispose s queue port m pkt accepted).countP (Event.settles x) = 0 := by
  rw [List.countP_eq_zero]
  exact fun e member settled => other ((concerns_dispose listed member).same settled).symm

theorem mem_handle {e : Event} (member : e ∈ handle s queue port m pkts) :
    (∃ k, m ≤ k ∧ k < m + pkts.length ∧ e = .received k) ∨ ∃ k, ∃ pa ∈ pkts, e ∈ dispose s queue port k pa.1 pa.2 := by
  induction pkts generalizing m with
  | nil => cases member
  | cons pa rest ih =>
    rw [handle] at member
    rw [List.length_cons]
    rcases List.mem_cons.mp member with rfl | member
    · exact .inl ⟨m, Nat.le_refl m, by omega, rfl⟩
    rcases List.mem_append.mp member with here | later
    · exact .inr ⟨m, pa, List.mem_cons_self, here⟩
    · rcases ih later with ⟨k, above, below, rfl⟩ | ⟨k, pa', there, disposed⟩
      · exact .inl ⟨k, by omega, by omega, rfl⟩
      · exact .inr ⟨k, pa', List.mem_cons_of_mem pa there, disposed⟩

theorem received_handle (listed : port ∈ s.config.ports) (member : .received x ∈ handle s queue port m pkts) : m ≤ x ∧
    x < m + pkts.length := by
  rcases mem_handle member with ⟨k, above, below, same⟩ | ⟨k, pa, -, disposed⟩
  · obtain rfl := Event.received.inj same
    exact ⟨above, below⟩
  · cases concerns_dispose listed disposed

theorem quiet_handle (listed : port ∈ s.config.ports) (outside : x < m ∨ m + pkts.length ≤ x) :
    (handle s queue port m pkts).countP (Event.settles x) = 0 := by
  induction pkts generalizing m with
  | nil => rfl
  | cons pa rest ih =>
    rw [List.length_cons] at outside
    rw [handle, List.countP_cons, List.countP_append, quiet_dispose listed (by omega), ih (by omega)]
    rfl

theorem owner_handle (listed : port ∈ s.config.ports) (above : m ≤ x) (below : x < m + pkts.length) :
    ∃ pa ∈ pkts, (handle s queue port m pkts).countP (Event.settles x) =
      (dispose s queue port x pa.1 pa.2).countP (Event.settles x) := by
  induction pkts generalizing m with
  | nil => exact absurd (Nat.lt_of_le_of_lt above below) (Nat.lt_irrefl m)
  | cons pa rest ih =>
    rw [List.length_cons] at below
    by_cases here : x = m
    · subst here
      refine ⟨pa, List.mem_cons_self, ?_⟩
      rw [handle, List.countP_cons, List.countP_append, quiet_handle listed (.inl (Nat.lt_succ_self x))]
      rfl
    · obtain ⟨pa', there, count⟩ := ih (by omega) (by omega : x < m + 1 + rest.length)
      refine ⟨pa', List.mem_cons_of_mem pa there, ?_⟩
      rw [handle, List.countP_cons, List.countP_append, quiet_dispose listed here, count, Nat.zero_add]
      rfl

theorem quiet_polls (listed : ∀ entry ∈ list, entry.1 ∈ s.config.ports) (before : x < m) :
    (polls s queue m list).countP (Event.settles x) = 0 := by
  induction list generalizing m with
  | nil => rfl
  | cons entry rest ih =>
    obtain ⟨port, pkts⟩ := entry
    have later := ih (fun e member => listed e (List.mem_cons_of_mem _ member))
        (Nat.lt_of_lt_of_le before (Nat.le_add_right m pkts.length))
    rw [polls, List.countP_cons, List.countP_append, quiet_handle (listed _ List.mem_cons_self) (.inl before), later]
    rfl

theorem received_polls (listed : ∀ entry ∈ list, entry.1 ∈ s.config.ports) (member : .received x ∈ polls s queue m list) : m ≤ x := by
  induction list generalizing m with
  | nil => cases member
  | cons entry rest ih =>
    obtain ⟨port, pkts⟩ := entry
    rw [polls] at member
    rcases List.mem_cons.mp member with no | member
    · cases no
    rcases List.mem_append.mp member with here | later
    · exact (received_handle (listed _ List.mem_cons_self) here).1
    · exact Nat.le_trans (Nat.le_add_right m pkts.length) (ih (fun e there => listed e (List.mem_cons_of_mem _ there)) later)

theorem owner_polls (listed : ∀ entry ∈ list, entry.1 ∈ s.config.ports) (member : .received x ∈ polls s queue m list) :
    ∃ entry ∈ list, ∃ pa ∈ entry.2,
      (polls s queue m list).countP (Event.settles x) = (dispose s queue entry.1 x pa.1 pa.2).countP (Event.settles x) := by
  induction list generalizing m with
  | nil => cases member
  | cons entry rest ih =>
    obtain ⟨port, pkts⟩ := entry
    have first := listed _ List.mem_cons_self
    have others : ∀ entry ∈ rest, entry.1 ∈ s.config.ports := fun e there => listed e (List.mem_cons_of_mem _ there)
    rw [polls] at member
    rcases List.mem_cons.mp member with no | member
    · cases no
    rcases List.mem_append.mp member with here | later
    · obtain ⟨above, below⟩ := received_handle first here
      obtain ⟨pa, there, count⟩ := @owner_handle s queue port m x pkts first above below
      refine ⟨_, List.mem_cons_self, pa, there, ?_⟩
      rw [polls, List.countP_cons, List.countP_append, quiet_polls others below, count]
      rfl
    · have above := received_polls others later
      obtain ⟨entry, there, pa, inside, count⟩ := ih others later
      refine ⟨entry, List.mem_cons_of_mem _ there, pa, inside, ?_⟩
      rw [polls, List.countP_cons, List.countP_append, quiet_handle first (.inr above), count, Nat.zero_add]
      rfl

theorem mem_polls {e : Event} (member : e ∈ polls s queue m list) :
    ∃ entry ∈ list, e = .rx entry.1 queue s.config.burst ∨ ∃ k, e ∈ handle s queue entry.1 k entry.2 := by
  induction list generalizing m with
  | nil => cases member
  | cons entry rest ih =>
    obtain ⟨port, pkts⟩ := entry
    rw [polls] at member
    rcases List.mem_cons.mp member with rfl | member
    · exact ⟨_, List.mem_cons_self, .inl rfl⟩
    rcases List.mem_append.mp member with here | later
    · exact ⟨_, List.mem_cons_self, .inr ⟨m, here⟩⟩
    · obtain ⟨entry, there, what⟩ := ih later
      exact ⟨entry, List.mem_cons_of_mem _ there, what⟩

theorem polls_of_mem (s : Setup) (queue : Nat) {entry : Port × List (Packet × Bool)} (member : entry ∈ list) (m : Nat) :
    .rx entry.1 queue s.config.burst ∈ polls s queue m list ∧ ∃ k, ∀ e ∈ handle s queue entry.1 k entry.2, e ∈ polls s queue m list := by
  induction list generalizing m with
  | nil => cases member
  | cons first rest ih =>
    obtain ⟨port, pkts⟩ := first
    rw [polls]
    rcases List.mem_cons.mp member with rfl | later
    · exact ⟨List.mem_cons_self, m, fun e inside => List.mem_cons_of_mem _ (List.mem_append_left _ inside)⟩
    · obtain ⟨asked, k, inside⟩ := ih later (m + pkts.length)
      exact ⟨List.mem_cons_of_mem _ (List.mem_append_right _ asked), k, fun e member =>
        List.mem_cons_of_mem _ (List.mem_append_right _ (inside e member))⟩

end counting

/-! ### Staying inside, exactly -/

theorem listed_passes (s : Setup) (passes : List (Port → List (Packet × Bool))) : ∀ entry ∈ passes.flatMap (pass s),
    entry.1 ∈ s.config.ports := by
  intro entry member
  obtain ⟨answers, -, inside⟩ := List.mem_flatMap.mp member
  obtain ⟨port, there, rfl⟩ := List.mem_map.mp inside
  exact there

theorem inside_of_fits (booted : Booted devices kni s) (fits : Fits s devices (queueId s.config main workers lcore))
    (passes : List (Port → List (Packet × Bool))) : Inside s (lcoreMain s main workers lcore passes) := by
  have listed := listed_passes s passes
  have own := queueId_lt main workers lcore booted.sound
  refine ⟨fun port queue asked member => ?_, fun port queue asked member => ?_, fun port queue m accepted member => ?_,
    fun m member => ?_⟩
  · obtain ⟨entry, there, same | ⟨k, inside⟩⟩ := mem_polls member
    · obtain ⟨-, -, rfl⟩ := Event.rx.inj same
      exact fits.burst
    · rcases mem_handle inside with ⟨k, -, -, no⟩ | ⟨k, pa, -, disposed⟩
      · cases no
      · cases concerns_dispose (listed entry there) disposed
  · obtain ⟨entry, there, same | ⟨k, inside⟩⟩ := mem_polls member
    · obtain ⟨rfl, rfl, -⟩ := Event.rx.inj same
      obtain ⟨q, ready, rx, -⟩ := booted.queues entry.1 (listed entry there)
      have limit := fits.rx entry.1 (listed entry there)
      exact ⟨q, ready, by omega⟩
    · rcases mem_handle inside with ⟨k, -, -, no⟩ | ⟨k, pa, -, disposed⟩
      · cases no
      · cases concerns_dispose (listed entry there) disposed
  · obtain ⟨entry, there, same | ⟨k, inside⟩⟩ := mem_polls member
    · cases same
    · rcases mem_handle inside with ⟨k, -, -, no⟩ | ⟨k, pa, -, disposed⟩
      · cases no
      · cases concerns_dispose (listed entry there) disposed with
        | tx _ _ target cpus =>
          obtain ⟨q, ready, -, tx⟩ := booted.queues port target
          have limit := fits.tx cpus port target
          exact ⟨q, ready, by omega⟩
  · obtain ⟨entry, there, pa, -, count⟩ := owner_polls listed member
    exact count.trans (settles_dispose fits.kni entry.1 m pa.1 pa.2)

def onePacket (port : Port) (pkt : Packet) (accepted : Bool) : List (Port → List (Packet × Bool)) :=
  [fun other => if other = port then [(pkt, accepted)] else []]

theorem onePacket_entry {port : Port} (booted : Booted devices kni s) (there : port ∈ s.config.ports) (pkt : Packet) (accepted : Bool) :
    (port, [(pkt, accepted)]) ∈ (onePacket port pkt accepted).flatMap (pass s) := by
  refine List.mem_flatMap.mpr ⟨_, List.mem_singleton_self _, List.mem_map.mpr ⟨port, there, ?_⟩⟩
  dsimp only
  rw [if_pos rfl, List.take_of_length_le booted.sound.burst]

theorem onePacket_only {port : Port} {pkt : Packet} {entry : Port × List (Packet × Bool)} {pa : Packet × Bool}
    (there : entry ∈ (onePacket port pkt accepted).flatMap (pass s)) (inside : pa ∈ entry.2) : entry.1 = port ∧
    pa = (pkt, accepted) := by
  obtain ⟨answers, known, listed⟩ := List.mem_flatMap.mp there
  obtain rfl := List.mem_singleton.mp known
  obtain ⟨other, -, rfl⟩ := List.mem_map.mp listed
  have inside := List.mem_of_mem_take inside
  dsimp only at inside ⊢
  split at inside
  · rename_i same
    exact ⟨same, List.mem_singleton.mp inside⟩
  · cases inside

theorem onePacket_disposed (main : Nat) (workers : List Nat) (lcore : Nat) {port : Port} (booted : Booted devices kni s)
    (there : port ∈ s.config.ports) (pkt : Packet) (accepted : Bool) :
    ∃ m, .received m ∈ lcoreMain s main workers lcore (onePacket port pkt accepted) ∧
      ∀ e ∈ dispose s (queueId s.config main workers lcore) port m pkt accepted,
        e ∈ lcoreMain s main workers lcore (onePacket port pkt accepted) := by
  obtain ⟨-, m, inside⟩ := polls_of_mem s (queueId s.config main workers lcore) (onePacket_entry booted there pkt accepted) 0
  exact ⟨m, inside _ List.mem_cons_self, fun e member => inside e (List.mem_cons_of_mem _ (List.mem_append_left _ member))⟩

def foreignPacket : Packet := ⟨0x86DD, 0, 0, 0⟩

/-- A packet to one of the networks that are always behind the FPGA. -/
def puntedPacket : Packet := ⟨0x0800, 0x0A000001, 0, 0⟩

def arpPacket : Packet := ⟨0x0806, 0, 0, 0⟩

theorem classify_punted (h : s.config.Sound) (p : Nat) : classifyPacket s.config puntedPacket (.cpu p) = .puntFpga := by
  have net : isFpgaNetwork s.config puntedPacket.dst = true := List.any_eq_true.mpr ⟨_, h.ten, by decide⟩
  unfold classifyPacket
  rw [if_neg (by decide), if_neg (by decide), if_neg (by decide), if_neg fun no => (nomatch no), if_pos net]

theorem fits_of_inside (booted : Booted devices kni s)
    (inside : ∀ passes, Inside s (lcoreMain s main workers lcore passes)) : Fits s devices (queueId s.config main workers lcore) := by
  have asks : ∀ port ∈ s.config.ports, .rx port (queueId s.config main workers lcore) s.config.burst ∈
      lcoreMain s main workers lcore (onePacket port foreignPacket true) := fun port there =>
    (polls_of_mem s _ (onePacket_entry booted there foreignPacket true) 0).1
  refine ⟨?_, fun port there => ?_, fun cpus port there => ?_, fun p => ?_⟩
  · exact (inside _).bounded _ _ _ (asks .fpga (fpga_mem_ports _))
  · obtain ⟨q, ready, own⟩ := (inside _).rxReady _ _ _ (asks port there)
    obtain ⟨q', ready', rx, -⟩ := booted.queues port there
    obtain rfl := Option.some.inj (ready.symm.trans ready')
    omega
  · have cpu : 0 < s.config.cpuPci.length := List.length_pos_iff.mpr cpus
    have sent : ∃ from' pkt m, .tx port (queueId s.config main workers lcore) m true ∈ lcoreMain s main workers lcore
        (onePacket from' pkt true) := by
      cases port with
      | fpga =>
        obtain ⟨m, -, disposed⟩ := onePacket_disposed main workers lcore booted (cpu_mem_ports.mpr cpu) puntedPacket true
        refine ⟨_, _, m, disposed _ ?_⟩
        unfold dispose
        dsimp only
        rw [classify_punted booted.sound]
        exact List.mem_singleton_self _
      | cpu p =>
        have some : p < s.config.cpuPci.length := cpu_mem_ports.mp there
        cases p with
        | zero =>
          obtain ⟨m, -, disposed⟩ := onePacket_disposed main workers lcore booted (fpga_mem_ports _) foreignPacket true
          refine ⟨_, _, m, disposed _ ?_⟩
          have forward : classifyPacket s.config foreignPacket .fpga = .forward := rfl
          unfold dispose
          dsimp only
          rw [forward]
          dsimp only
          rw [if_pos cpu]
          exact List.mem_singleton_self _
        | succ p =>
          obtain ⟨m, -, disposed⟩ :=
            onePacket_disposed main workers lcore booted (cpu_mem_ports.mpr (Nat.lt_of_succ_lt some)) foreignPacket true
          refine ⟨_, _, m, disposed _ ?_⟩
          have forward : classifyPacket s.config foreignPacket (.cpu p) = .forward := rfl
          unfold dispose
          dsimp only
          rw [forward]
          dsimp only
          rw [if_pos (by omega), Nat.mod_eq_of_lt some]
          exact List.mem_singleton_self _
    obtain ⟨source, pkt, m, called⟩ := sent
    obtain ⟨q, ready, own⟩ := (inside _).txReady _ _ _ _ called
    obtain ⟨q', ready', -, tx⟩ := booted.queues port there
    obtain rfl := Option.some.inj (ready.symm.trans ready')
    omega
  · by_contra interface
    have interface := eq_true_of_ne_false interface
    have there : Port.cpu p ∈ s.config.ports := cpu_mem_ports.mpr (booted.kni p interface).1
    obtain ⟨m, received, -⟩ := onePacket_disposed main workers lcore booted there arpPacket false
    obtain ⟨entry, known, pa, held, count⟩ := owner_polls (listed_passes s _) received
    obtain ⟨source, packet⟩ := onePacket_only known held
    have once := ((inside _).once m received).symm.trans count
    have refused : dispose s (queueId s.config main workers lcore) (.cpu p) m arpPacket false = [.kni p m false] := by
      have local' : classifyPacket s.config arpPacket (.cpu p) = .localDeliver := rfl
      unfold dispose
      dsimp only
      rw [local']
      dsimp only
      rw [deliver, if_pos interface]
    rw [source, packet, refused, List.countP_singleton] at once
    simp [Event.settles] at once

/-- A worker stays inside its resources in every run if and only if they fit. -/
theorem stays_inside_iff (booted : boot argv devices kni = some s) (main : Nat) (workers : List Nat) :
    (∀ lcore ∈ workers, ∀ passes, Inside s (lcoreMain s main workers lcore passes)) ↔
      ∀ lcore ∈ workers, Fits s devices (queueId s.config main workers lcore) :=
  ⟨fun inside lcore there => fits_of_inside (boot_booted booted) (inside lcore there),
    fun fits lcore there => inside_of_fits (boot_booted booted) (fits lcore there)⟩

end booted

def plainDevice (queues : Nat) : Device := ⟨true, true, queues, queues, fun _ _ => true, fun _ => true, fun _ => true, true⟩

/-- Two network cards, no interface of the kernel. -/
theorem two_cards_inside :
    ∃ s, boot (["--fpga-pci", "0000:3b:00.0", "--cpu-nics", "0000:05:00.0,0000:05:00.1"].map bytes)
      (fun _ => plainDevice 16) (fun _ => false) = some s ∧
      ∀ lcore ∈ [1, 2], ∀ passes, Inside s (lcoreMain s 0 [1, 2] lcore passes) := by
  have starts : (boot (["--fpga-pci", "0000:3b:00.0", "--cpu-nics", "0000:05:00.0,0000:05:00.1"].map bytes) (fun _ => plainDevice 16)
      (fun _ => false)).any (fun s => decide (s.config.burst = 32) && decide (s.config.rxQueues = 4)) = true := by decide +kernel
  obtain ⟨s, booted, known⟩ := (Option.any_eq_true ..).mp starts
  rw [Bool.and_eq_true, decide_eq_true_eq, decide_eq_true_eq] at known
  refine ⟨s, booted, (stays_inside_iff booted 0 [1, 2]).mpr fun lcore _ => ?_⟩
  have small : queueId s.config 0 [1, 2] lcore < 16 := by
    have own := queueId_lt 0 [1, 2] lcore (boot_booted booted).sound
    omega
  refine ⟨by rw [known.1]; decide, fun _ _ => small, fun _ _ _ => small, fun p => ?_⟩
  by_contra interface
  cases ((boot_booted booted).kni p (eq_true_of_ne_false interface)).2

/-- A burst of 64 packets is asked for, into an array of 32. -/
theorem burst_overruns :
    ∃ s, boot (["--fpga-pci", "0000:3b:00.0", "--burst", "64"].map bytes) (fun _ => plainDevice 16) (fun _ => false) = some s ∧
      ¬ ∀ lcore ∈ [1], ∀ passes, Inside s (lcoreMain s 0 [1] lcore passes) := by
  have starts : (boot (["--fpga-pci", "0000:3b:00.0", "--burst", "64"].map bytes) (fun _ => plainDevice 16) (fun _ => false)).any
      (fun s => decide (s.config.burst = 64)) = true := by decide +kernel
  obtain ⟨s, booted, known⟩ := (Option.any_eq_true ..).mp starts
  refine ⟨s, booted, fun inside => ?_⟩
  have fits := (fits_of_inside (boot_booted booted) (inside 1 (List.mem_singleton_self 1))).burst
  rw [of_decide_eq_true known] at fits
  exact absurd fits (by decide)

end FfnNgfw.Forwarder
