import LibbpfBootstrap.Kernel.Runs
import LibbpfBootstrap.Kernel.BpfMap
import LibbpfBootstrap.Kernel.Helpers
import LibbpfBootstrap.Libc.Text

/-! The tracepoint handlers of `bootstrap.bpf.c`. One firing of a handler is one
atomic step on the `exec_start` map and emits the records it submits. What the
kernel decides for a firing is part of the firing: the clock, the task, whether
an update of an absent key is admitted, and the slot that the ring buffer hands
out with the bytes a former occupant left in it. -/

namespace LibbpfBootstrap.Bootstrap

open Kernel Kernel.Runs Libc

abbrev taskCommLen : ℕ := 16

abbrev maxFilenameLen : ℕ := 127

/-- `struct event`. -/
structure Event where
  pid : BitVec 32
  ppid : BitVec 32
  exitCode : BitVec 32
  durationNs : BitVec 64
  comm : CharBuf taskCommLen
  filename : CharBuf maxFilenameLen
  exitEvent : Bool

/-- What the handlers read of the current `struct task_struct`. -/
structure Task where
  realParentTgid : BitVec 32
  exitCode : BitVec 32
  comm : List UInt8

/-- A firing of `sched_process_exec`. The filename is the string of the context
at the offset in the low half of `dataLocFilename`. -/
structure Exec where
  pidTgid : BitVec 64
  ts : BitVec 64
  task : Task
  dataLocFilename : BitVec 32
  ctx : List UInt8
  admitted : Bool
  slot : Option Event

/-- A firing of `sched_process_exit`. -/
structure Exit where
  pidTgid : BitVec 64
  ts : BitVec 64
  task : Task
  slot : Option Event

/-- The map `exec_start` from PIDs to the time of their exec. -/
abbrev ExecStart := BpfMap (BitVec 32) (BitVec 64)

/-- The string at the offset that `__data_loc_filename` holds in its low half. -/
def Exec.filename (f : Exec) : List UInt8 :=
  (f.ctx.drop (f.dataLocFilename &&& 0xFFFF).toNat).takeWhile (· ≠ 0)

/-- The fields `handle_exec` writes; `exit_code` and `duration_ns` stay as found. -/
def Exec.fill (f : Exec) (e : Event) : Event :=
  { e with
    exitEvent := false
    pid := pidOf f.pidTgid
    ppid := f.task.realParentTgid
    comm := e.comm.putStr f.task.comm
    filename := e.filename.putStr f.filename }

/-- The fields `handle_exit` writes; `filename` stays as found. -/
def Exit.fill (f : Exit) (durationNs : BitVec 64) (e : Event) : Event :=
  { e with
    exitEvent := true
    durationNs := durationNs
    pid := pidOf f.pidTgid
    ppid := f.task.realParentTgid
    exitCode := f.task.exitCode.sshiftRight 8 &&& 0xff
    comm := e.comm.putStr f.task.comm }

def handleExec (minDurationNs : BitVec 64) (execStart : ExecStart) (f : Exec) :
    ExecStart × List Event :=
  let pid := pidOf f.pidTgid
  let execStart := execStart.updateElem f.admitted pid f.ts
  if minDurationNs ≠ 0#64 then (execStart, [])
  else match f.slot with
    | none => (execStart, [])
    | some e => (execStart, [f.fill e])

def handleExit (minDurationNs : BitVec 64) (execStart : ExecStart) (f : Exit) :
    ExecStart × List Event :=
  let pid := pidOf f.pidTgid
  let tid := tidOf f.pidTgid
  if pid ≠ tid then (execStart, [])
  else
    let startTs := execStart.lookup pid
    if startTs = none ∧ minDurationNs ≠ 0#64 then (execStart, [])
    else
      let durationNs := match startTs with
        | some t => f.ts - t
        | none => 0#64
      let execStart := execStart.erase pid
      if minDurationNs ≠ 0#64 ∧ durationNs < minDurationNs then (execStart, [])
      else match f.slot with
        | none => (execStart, [])
        | some e => (execStart, [f.fill durationNs e])

/-- A firing of one of the two programs. -/
inductive Firing
  | exec (f : Exec)
  | exit (f : Exit)

def Firing.ts : Firing → BitVec 64
  | .exec f => f.ts
  | .exit f => f.ts

/-- Both programs attached: every firing runs its handler. -/
def fire (minDurationNs : BitVec 64) (execStart : ExecStart) : Firing → ExecStart × List Event
  | .exec f => handleExec minDurationNs execStart f
  | .exit f => handleExit minDurationNs execStart f

/-- The records submitted along a list of firings, from the empty map. -/
def submitted (minDurationNs : BitVec 64) (fs : List Firing) : List Event :=
  outputs (fire minDurationNs) ∅ fs

/-- An exit with `pid = tid` is the exit of the thread group leader. -/
def Exit.leader (f : Exit) : Bool := pidOf f.pidTgid == tidOf f.pidTgid

theorem handleExit_of_not_leader {m : BitVec 64} {s : ExecStart} {f : Exit} (h : f.leader = false) :
    handleExit m s f = (s, []) := by
  have hne : pidOf f.pidTgid ≠ tidOf f.pidTgid := by simpa [Exit.leader] using h
  simp [handleExit, hne]

/-- After the exit of a leader its PID is not a key, on every path. -/
theorem handleExit_fst (m : BitVec 64) (s : ExecStart) (f : Exit) (h : f.leader = true) :
    (handleExit m s f).1 = s.erase (pidOf f.pidTgid) := by
  have he : ¬ pidOf f.pidTgid ≠ tidOf f.pidTgid := by simpa [Exit.leader] using h
  simp only [handleExit, if_neg he]
  split_ifs with hn hm
  · exact (BpfMap.erase_of_notMem (Finmap.lookup_eq_none.mp hn.1)).symm
  · rfl
  · cases f.slot <;> rfl

theorem handleExec_fst (m : BitVec 64) (s : ExecStart) (f : Exec) :
    (handleExec m s f).1 = s.updateElem f.admitted (pidOf f.pidTgid) f.ts := by
  simp only [handleExec]
  split_ifs
  · rfl
  · cases f.slot <;> rfl

theorem handleExec_snd (m : BitVec 64) (s : ExecStart) (f : Exec) :
    (handleExec m s f).2 = if m = 0#64 then f.slot.toList.map f.fill else [] := by
  by_cases hm : m = 0#64
  · cases hs : f.slot <;> simp [handleExec, hm, hs]
  · simp [handleExec, hm]

/-- The duration a leader exit reports, and that it is reported at all. -/
theorem handleExit_snd (m : BitVec 64) (s : ExecStart) (f : Exit) (h : f.leader = true) :
    (handleExit m s f).2 =
      match s.lookup (pidOf f.pidTgid) with
      | some t => if m ≠ 0#64 ∧ f.ts - t < m then [] else f.slot.toList.map (f.fill (f.ts - t))
      | none => if m ≠ 0#64 then [] else f.slot.toList.map (f.fill 0#64) := by
  have he : ¬ pidOf f.pidTgid ≠ tidOf f.pidTgid := by simpa [Exit.leader] using h
  simp only [handleExit, if_neg he]
  cases hs : s.lookup (pidOf f.pidTgid) with
  | none =>
    by_cases hm : m = 0#64
    · cases f.slot <;> simp [hm]
    · simp [hm]
  | some t =>
    by_cases hm : m ≠ 0#64 ∧ f.ts - t < m
    · simp [hm]
    · rw [if_neg (by simp), if_neg hm]
      simp only [if_neg hm]
      cases f.slot <;> rfl

theorem mem_handleExec {m : BitVec 64} {s : ExecStart} {f : Exec} {e : Event} (he : e ∈ (handleExec m s f).2) :
    m = 0#64 ∧ ∃ e0, e = f.fill e0 := by
  rw [handleExec_snd] at he
  split_ifs at he with hm
  · obtain ⟨e0, -, rfl⟩ := List.mem_map.mp he
    exact ⟨hm, e0, rfl⟩
  · cases he

/-- The record of a leader's exit: with the time since the start that was stored, which
is long enough, or without one if nothing was stored and nothing is filtered. -/
theorem mem_handleExit {m : BitVec 64} {s : ExecStart} {f : Exit} {e : Event} (he : e ∈ (handleExit m s f).2) :
    f.leader = true ∧ ∃ e0,
      (∃ t, s.lookup (pidOf f.pidTgid) = some t ∧ ¬ (m ≠ 0#64 ∧ f.ts - t < m) ∧ e = f.fill (f.ts - t) e0) ∨
      (s.lookup (pidOf f.pidTgid) = none ∧ m = 0#64 ∧ e = f.fill 0#64 e0) := by
  cases hl : f.leader with
  | false =>
    rw [handleExit_of_not_leader hl] at he
    cases he
  | true =>
    rw [handleExit_snd m s f hl] at he
    cases ht : s.lookup (pidOf f.pidTgid) with
    | none =>
      simp only [ht] at he
      split_ifs at he with hm
      · cases he
      · obtain ⟨e0, -, rfl⟩ := List.mem_map.mp he
        exact ⟨rfl, e0, Or.inr ⟨rfl, not_not.mp hm, rfl⟩⟩
    | some t =>
      simp only [ht] at he
      split_ifs at he with hm
      · cases he
      · obtain ⟨e0, -, rfl⟩ := List.mem_map.mp he
        exact ⟨rfl, e0, Or.inl ⟨t, rfl, hm, rfl⟩⟩

/-! ### Plain firings -/

/-- A slot that was never used. -/
def Event.zero : Event := ⟨0, 0, 0, 0, fun _ => 0, fun _ => 0, false⟩

/-- The exec of a shell as process `pid` with nothing refused. -/
def Exec.plain (pid : BitVec 32) (ts : BitVec 64) : Exec :=
  ⟨pid ++ pid, ts, ⟨1, 0, ascii "sh"⟩, 0x80000, ascii "/bin/sh", true, some .zero⟩

/-- The exit of the leader of process `pid` with nothing refused. -/
def Exit.plain (pid : BitVec 32) (ts : BitVec 64) : Exit :=
  ⟨pid ++ pid, ts, ⟨1, 0, ascii "sh"⟩, some .zero⟩

theorem Exit.plain_leader (pid : BitVec 32) (ts : BitVec 64) : (Exit.plain pid ts).leader = true := by
  simp [Exit.leader, Exit.plain]

end LibbpfBootstrap.Bootstrap
