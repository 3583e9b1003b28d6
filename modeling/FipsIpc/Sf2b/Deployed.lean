import FipsIpc.Sf2b.BanWindow
import FipsIpc.Xdp.Counters

/-!
Contract: the server and the XDP program together.

Owns: the run of `programs/sf2b` beside the program of `lib/ip_blacklist.bpf.c`
on its maps, and which packets are dropped for their source.

A call of the server only adds keys to the maps or only takes keys out, and it
adds with `BPF_NOEXIST`, so a key that stays keeps its counters.  `ban_clients`
passes `&values`, the address of its pointer parameter, so a new key starts with
whatever lies there: `initial` is arbitrary.  Addresses are in the byte order of
the packets on both sides.

Does not own: other tools that write to the maps.
-/

set_option autoImplicit false

namespace FipsIpc.Sf2b

open FipsIpc.Lib
open FipsIpc.IpHashtable
open FipsIpc.Xdp hiding Entry

/-! ### The system -/

/-- A map after its keys have become those that are listed; new ones have the
counters `initial`. -/
def followKeys {Key : Type} (map : BpfMap Key Percpu) (initial : Key → Percpu)
    (listed : Key → Bool) : BpfMap Key Percpu :=
  fun key => if listed key then some ((map key).getD (initial key)) else none

/-- The maps after a call of the server. -/
def followMaps (kernel : KernelMaps) (initial : Address → Percpu)
    (blacklist : Address → Bool) : KernelMaps :=
  { kernel with
    blacklistv4 := followKeys kernel.blacklistv4 (fun key => initial (.v4 key))
      fun key => blacklist (.v4 key)
    blacklistv6 := followKeys kernel.blacklistv6 (fun key => initial (.v6 key))
      fun key => blacklist (.v6 key) }

structure Deployment where
  history : BanHistory
  kernel : KernelMaps

inductive DeploymentCall where
  | server (call : ServerCall) (initial : Address → Percpu)
  | packet (cpu : Nat) (frame : Frame)

namespace Deployment

def started (config : Config) (memory : Nat → Entry) : Deployment :=
  ⟨.started config memory, .loaded⟩

def step (config : Config) (deployment : Deployment) : DeploymentCall → Option Deployment
  | .server call initial => do
      let next ← deployment.history.step config call
      some ⟨next, followMaps deployment.kernel initial next.server.blacklist⟩
  | .packet cpu frame => do
      let (_, kernel) ← deployment.kernel.packet cpu frame
      some { deployment with kernel := kernel }

/-- The calls of the server are as `BanHistory.Promised` says. -/
def Promised (config : Config) (deployment : Deployment) : DeploymentCall → Prop
  | .server call _ => deployment.history.Promised config call
  | .packet _ _ => True

instance (config : Config) (deployment : Deployment) (call : DeploymentCall) :
    Decidable (deployment.Promised config call) :=
  match call with
  | .server call _ => inferInstanceAs (Decidable (deployment.history.Promised config call))
  | .packet _ _ => inferInstanceAs (Decidable True)

/-! ### The keys -/

/-- The maps of the kernel have the keys of the server. -/
structure Linked (deployment : Deployment) : Prop where
  v4 : ∀ key, (deployment.kernel.blacklistv4 key).isSome =
    deployment.history.server.blacklist (.v4 key)
  v6 : ∀ key, (deployment.kernel.blacklistv6 key).isSome =
    deployment.history.server.blacklist (.v6 key)

theorem followKeys_isSome {Key : Type} (map : BpfMap Key Percpu) (initial : Key → Percpu)
    (listed : Key → Bool) (key : Key) :
    (followKeys map initial listed key).isSome = listed key := by
  unfold followKeys
  cases listed key <;> rfl

theorem storeCounters_isSome {Key : Type} (map : BpfMap Key Percpu) (cpu : Nat)
    (cells : Key → Option UInt64) (key : Key) :
    (storeCounters map cpu cells key).isSome = (map key).isSome := by
  unfold storeCounters
  cases map key <;> rfl

variable {config : Config} {deployment next : Deployment}

theorem Linked.started (config : Config) (memory : Nat → Entry) :
    (Deployment.started config memory).Linked :=
  ⟨fun _ => rfl, fun _ => rfl⟩

theorem Linked.step (linked : deployment.Linked) {call : DeploymentCall}
    (taken : deployment.step config call = some next) : next.Linked := by
  cases call with
  | server call initial =>
      obtain ⟨history, -, rest⟩ := Option.bind_eq_some_iff.mp taken
      cases rest
      exact ⟨followKeys_isSome _ _ _, followKeys_isSome _ _ _⟩
  | packet cpu frame =>
      obtain ⟨⟨action, kernel⟩, arrived, rest⟩ := Option.bind_eq_some_iff.mp taken
      cases rest
      obtain ⟨⟨verdict, maps⟩, -, stored⟩ := Option.bind_eq_some_iff.mp arrived
      cases stored
      exact ⟨fun key => (storeCounters_isSome _ _ _ key).trans (linked.v4 key),
        fun key => (storeCounters_isSome _ _ _ key).trans (linked.v6 key)⟩

/-- The server inside keeps its list, and the kernel has its keys. -/
structure Sound (config : Config) (deployment : Deployment) : Prop where
  windowed : deployment.history.Windowed config
  linked : deployment.Linked

theorem Sound.started (config : Config) (memory : Nat → Entry) :
    (Deployment.started config memory).Sound config :=
  ⟨.started config memory, .started config memory⟩

theorem Sound.step (sound : deployment.Sound config) {call : DeploymentCall}
    (promised : deployment.Promised config call)
    (taken : deployment.step config call = some next) : next.Sound config := by
  refine ⟨?_, sound.linked.step taken⟩
  cases call with
  | server call initial =>
      obtain ⟨history, served, rest⟩ := Option.bind_eq_some_iff.mp taken
      cases rest
      exact sound.windowed.step promised served
  | packet cpu frame =>
      obtain ⟨_, -, rest⟩ := Option.bind_eq_some_iff.mp taken
      cases rest
      exact sound.windowed

/-! ### The verdict -/

/-- What the system does with the next packet. -/
structure Filters (config : Config) (deployment : Deployment) (cpu : Nat) (frame : Frame)
    (action : Nat) : Prop where
  v4 : ∀ source, CarriesV4 frame source →
    (action = xdpDrop ↔ deployment.history.Bans config (.v4 source)) ∧
      (¬deployment.history.Bans config (.v4 source) → action = xdpPass)
  v6 : ∀ source, CarriesV6 frame source → deployment.history.Bans config (.v6 source) →
    action = xdpDrop
  returned : ∃ kernel, deployment.kernel.packet cpu frame = some (action, kernel)

theorem Sound.filters (sound : deployment.Sound config) (cpu : Nat) (frame : Frame) :
    ∃ action, deployment.Filters config cpu frame action := by
  obtain ⟨windowed, linked⟩ := sound
  obtain ⟨action, maps, returned, filtered, -, -⟩ :=
    xdpProg_filtered frame (deployment.kernel.onCpu cpu)
  have banned {source : BitVec 32} (bans : deployment.history.Bans config (.v4 source)) :
      ∃ count, (deployment.kernel.onCpu cpu).blacklistv4 source = some count := by
    have blocked := (windowed.blocked_iff _).mpr bans
    rw [← linked.v4] at blocked
    obtain ⟨counters, present⟩ := Option.isSome_iff_exists.mp blocked
    exact ⟨counters cpu, by rw [KernelMaps.onCpu_blacklistv4, present, Option.map_some]⟩
  have free {source : BitVec 32} (notBans : ¬deployment.history.Bans config (.v4 source)) :
      (deployment.kernel.onCpu cpu).blacklistv4 source = none := by
    rw [← windowed.blocked_iff, ← linked.v4, Bool.not_eq_true, Option.isSome_eq_false_iff,
      Option.isNone_iff_eq_none] at notBans
    rw [KernelMaps.onCpu_blacklistv4, notBans, Option.map_none]
  have passDrop : xdpPass ≠ xdpDrop := by decide
  refine ⟨action, ⟨fun source carries => ⟨⟨fun dropped => ?_, fun bans => ?_⟩, fun notBans => ?_⟩,
    fun source carries bans => ?_, deployment.kernel.store cpu maps, ?_⟩⟩
  · by_contra notBans
    have passes := filtered.passV4 source carries (free notBans)
    exact passDrop (passes.symm.trans dropped)
  · obtain ⟨count, present⟩ := banned bans
    exact (filtered.dropV4 source count carries present).1
  · exact filtered.passV4 source carries (free notBans)
  · have blocked := (windowed.blocked_iff _).mpr bans
    rw [← linked.v6] at blocked
    obtain ⟨counters, present⟩ := Option.isSome_iff_exists.mp blocked
    have onCpu : (deployment.kernel.onCpu cpu).blacklistv6 source = some (counters cpu) := by
      rw [KernelMaps.onCpu_blacklistv6, present, Option.map_some]
    exact (filtered.dropV6 source (counters cpu) carries onCpu).1
  · rw [KernelMaps.packet, returned]
    rfl

end Deployment

/-! ### Every run -/

/-- Over every run of messages, sweeps and packets in which no banned client is
banned again and clock readings do not go back, the program drops a packet for its
source exactly while a ban of the source is in force. -/
theorem deployed_drops_run {config : Config} {memory : Nat → Entry}
    {calls : List DeploymentCall} {last : Deployment}
    (run : Run (Deployment.step config) (Deployment.Promised config)
      (.started config memory) calls last) (cpu : Nat) (frame : Frame) :
    ∃ action, last.Filters config cpu frame action := by
  have sound : last.Sound config :=
    run.invariant (fun _ _ _ sound promised taken => sound.step promised taken)
      (Deployment.Sound.started config memory)
  exact sound.filters cpu frame

/-- The client is banned, a packet of it arrives, and a sweep finds the ban not yet
expired. -/
def bannedTraffic : List DeploymentCall :=
  [.server (messageAt 0) fun _ _ => 0, .packet 0 blockedFrame,
    .server (messageAt 1) fun _ cpu => if cpu = 0 then 0x7ffc12345678 else 0,
    .packet 1 blockedFrame, .server (.sweep 101 fun _ => (101, .succeed)) fun _ _ => 0]

theorem deployed_drops_run_banned : ∃ last,
    Run (Deployment.step twoMessages) (Deployment.Promised twoMessages)
      (.started twoMessages fun _ => .zero) bannedTraffic last ∧
    last.Filters twoMessages 0 blockedFrame xdpDrop := by
  have executed : (Run.exec (Deployment.step twoMessages) (Deployment.Promised twoMessages)
      (.started twoMessages fun _ => .zero) bannedTraffic).any (fun last =>
        (last.kernel.packet 0 blockedFrame).map Prod.fst == some xdpDrop) = true := by
    rw [Deployment.started, BanHistory.started, Server.started, Table.ipHashtableInit_eq]
    decide +kernel
  obtain ⟨last, run, dropped⟩ := Run.of_exec_any executed
  obtain ⟨action, filters⟩ := deployed_drops_run run 0 blockedFrame
  obtain ⟨kernel, returned⟩ := filters.returned
  have verdict := eq_of_beq dropped
  rw [returned] at verdict
  cases verdict
  exact ⟨last, run, filters⟩

end FipsIpc.Sf2b
