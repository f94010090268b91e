import LibbpfBootstrap.Tracecon.Capacity

/-! The option `-p` of tracecon. A process that is not observed shares the maps
with the one that is: their keys, and their room. It neither relabels nor uses
up anything, because its probes return before they touch a map. -/

namespace LibbpfBootstrap.Tracecon

open Kernel Kernel.Runs

/-- The firing with the kernel's answer to its update of an absent key. -/
def Firing.answered (answer : Bool) : Firing → Firing
  | .getaddrinfoEnter f => .getaddrinfoEnter { f with admitted := answer }
  | .getaddrinfoExit f => .getaddrinfoExit { f with admitted := answer }
  | .tcpV4ConnectEnter f => .tcpV4ConnectEnter { f with admitted := answer }
  | .tcpV4ConnectExit f => .tcpV4ConnectExit f

theorem Firing.pidTgid_answered (answer : Bool) (f : Firing) : (f.answered answer).pidTgid = f.pidTgid := by
  cases f <;> rfl

/-- The answer of a kernel that refuses a new key exactly when the map is full. -/
def roomFor (s : Maps) : Firing → Bool
  | .getaddrinfoEnter _ => s.lookups.hasRoom maxEntries
  | .getaddrinfoExit _ => s.hostnames.hasRoom maxEntries
  | .tcpV4ConnectEnter _ => s.sockets.hasRoom maxEntries
  | .tcpV4ConnectExit _ => true

/-- A firing whose updates the kernel answers from the maps as they are. -/
def fireUnder (kernel : Maps → Firing → Bool) (targetPid : BitVec 32) (s : Maps) (f : Firing) : Maps × List Event :=
  fire targetPid s (f.answered (kernel s f))

def Firing.ofProcess (pid : BitVec 32) (f : Firing) : Bool := pidOf f.pidTgid == pid

theorem getTid_of_other {targetPid : BitVec 32} (ht : targetPid ≠ 0#32) {f : Firing}
    (hf : f.ofProcess targetPid = false) : getTid targetPid f.pidTgid = 0#32 := by
  have hne : pidOf f.pidTgid ≠ targetPid := by simpa [Firing.ofProcess] using hf
  exact if_pos ⟨ht, hne.symm⟩

theorem fireUnder_of_other {targetPid : BitVec 32} (ht : targetPid ≠ 0#32) (kernel : Maps → Firing → Bool)
    (s : Maps) (f : Firing) (hf : f.ofProcess targetPid = false) : fireUnder kernel targetPid s f = (s, []) := by
  refine fire_of_getTid_eq_zero ?_
  rw [Firing.pidTgid_answered]
  exact getTid_of_other ht hf

/-- Leaving out every firing of other processes changes neither the events nor the
maps, whatever the maps held and however the kernel answers updates. -/
theorem other_processes_do_not_interfere (kernel : Maps → Firing → Bool) (targetPid : BitVec 32)
    (ht : targetPid ≠ 0#32) (s : Maps) (fs : List Firing) :
    outputs (fireUnder kernel targetPid) s fs =
        outputs (fireUnder kernel targetPid) s (fs.filter (·.ofProcess targetPid)) ∧
      final (fireUnder kernel targetPid) s fs =
        final (fireUnder kernel targetPid) s (fs.filter (·.ofProcess targetPid)) :=
  ⟨(outputs_filter (fireUnder_of_other ht kernel) s fs).symm,
    (final_filter (fireUnder_of_other ht kernel) s fs).symm⟩

/-- Process 9 looks up a name while process 7 connects. -/
def twoProcesses : List Firing :=
  [.getaddrinfoEnter ⟨9#32 ++ 9#32, resolved [97] 2 1#32, 0x100#64, 0x1000#64, true⟩,
    .tcpV4ConnectEnter ⟨7#32 ++ 7#32, 5#64, true⟩,
    .getaddrinfoExit ⟨9#32 ++ 9#32, resolved [97] 2 1#32, 0#32, true⟩,
    .tcpV4ConnectExit ⟨7#32 ++ 7#32, 0#32, fun _ => 1#32⟩]

theorem other_processes_do_not_interfere_nine :
    (twoProcesses.filter (·.ofProcess 7#32)).length = 2 ∧
      outputs (fireUnder roomFor 7#32) .empty twoProcesses =
        outputs (fireUnder roomFor 7#32) .empty (twoProcesses.filter (·.ofProcess 7#32)) :=
  ⟨by decide, (other_processes_do_not_interfere roomFor 7#32 (by decide) .empty twoProcesses).1⟩

end LibbpfBootstrap.Tracecon
