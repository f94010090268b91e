import LibbpfBootstrap.Libc.Format
import LibbpfBootstrap.Profile.TaskName
import LibbpfBootstrap.Tracing.Life

/-! The signals that `ksyscall` reports. Two BPF programs look at the system calls `kill`
and `tgkill` and write a line for each signal: with the sender, the name of the sender,
which may hold any bytes, and the arguments. All of this can be read from the lines. -/

namespace LibbpfBootstrap.Tracing.Kill

open Kernel Kernel.Runs Libc Profile

/-- Who calls, and what the array `comm` on the stack of the BPF program holds before. -/
structure Caller where
  pidTgid : BitVec 64
  currentComm : CurrentComm
  stack : CharBuf taskCommLen

inductive Syscall
  | kill (pid sig : BitVec 32)
  | tgkill (tgid tid sig : BitVec 32)

def Syscall.sig : Syscall → BitVec 32
  | .kill _ sig => sig
  | .tgkill _ _ sig => sig

def tgkillEntry (c : Caller) (tgid tid sig : BitVec 32) : BitVec 32 × List (List UInt8) :=
  let callerPid := pidOf c.pidTgid
  if sig = 0#32 then (0#32, [])
  else
    let comm := c.currentComm.fill c.stack
    (0#32, [ascii "tgkill syscall called by PID " ++ signedDecimal callerPid.toInt ++ ascii " (" ++ comm.cstr ++
      ascii ") for thread id " ++ signedDecimal tid.toInt ++ ascii " with pid " ++ signedDecimal tgid.toInt ++
      ascii " and signal " ++ signedDecimal sig.toInt ++ ascii "."])

/-- The program at `kill`. -/
def entryProbe (c : Caller) (pid sig : BitVec 32) : BitVec 32 × List (List UInt8) :=
  let callerPid := pidOf c.pidTgid
  if sig = 0#32 then (0#32, [])
  else
    let comm := c.currentComm.fill c.stack
    (0#32, [ascii "KILL syscall called by PID " ++ signedDecimal callerPid.toInt ++ ascii " (" ++ comm.cstr ++
      ascii ") for PID " ++ signedDecimal pid.toInt ++ ascii " with signal " ++ signedDecimal sig.toInt ++ ascii "."])

def handled (c : Caller) : Syscall → BitVec 32 × List (List UInt8)
  | .kill pid sig => entryProbe c pid sig
  | .tgkill tgid tid sig => tgkillEntry c tgid tid sig

/-- A call is made; the machine itself has no state here. -/
def world (attached : Bool) (_ : Unit) (e : Caller × Syscall) : Unit × List (List UInt8) :=
  ((), if attached then (handled e.1 e.2).2 else [])

/-- The trace of a run. -/
def trace (as : List (Action (Caller × Syscall))) : List (List UInt8) :=
  outputs (step world) (Life.start, ()) as

/-! ### What a line tells -/

structure Report where
  sender : BitVec 32
  name : List UInt8
  call : Syscall

/-- The report of a call: none without a signal. -/
def report (c : Caller) (call : Syscall) : Option Report :=
  if call.sig = 0#32 then none else some ⟨pidOf c.pidTgid, c.currentComm.name, call⟩

def killFormat : Format where
  front := [ascii "KILL syscall called by PID "]
  opening := ascii " ("
  closing := ascii ") for PID "
  back := [ascii " with signal ", ascii "."]

def tgkillFormat : Format where
  front := [ascii "tgkill syscall called by PID "]
  opening := ascii " ("
  closing := ascii ") for thread id "
  back := [ascii " with pid ", ascii " and signal ", ascii "."]

def Report.line (r : Report) : List UInt8 :=
  match r.call with
  | .kill pid sig => killFormat.line ⟨[r.sender.toInt], r.name, [pid.toInt, sig.toInt], rfl, rfl⟩
  | .tgkill tgid tid sig =>
    tgkillFormat.line ⟨[r.sender.toInt], r.name, [tid.toInt, tgid.toInt, sig.toInt], rfl, rfl⟩

/-- What the programs write is the line of the report. -/
theorem handled_eq (c : Caller) (call : Syscall) : (handled c call).2 = (report c call).toList.map Report.line := by
  cases call with
  | kill pid sig =>
    by_cases hsig : sig = 0#32
    · simp [handled, entryProbe, report, Syscall.sig, hsig]
    · simp [handled, entryProbe, report, Syscall.sig, hsig, CurrentComm.cstr_fill, Report.line, Format.line, spell,
        killFormat]
  | tgkill tgid tid sig =>
    by_cases hsig : sig = 0#32
    · simp [handled, tgkillEntry, report, Syscall.sig, hsig]
    · simp [handled, tgkillEntry, report, Syscall.sig, hsig, CurrentComm.cstr_fill, Report.line, Format.line, spell,
        tgkillFormat]

/-- The report can be read from its line. -/
theorem line_injective : Function.Injective Report.line := by
  rintro ⟨s, n, c⟩ ⟨s', n', c'⟩ h
  cases c with
  | kill pid sig =>
    cases c' with
    | kill pid' sig' =>
      have ha : (⟨[s.toInt], n, [pid.toInt, sig.toInt], rfl, rfl⟩ : killFormat.Args) =
          ⟨[s'.toInt], n', [pid'.toInt, sig'.toInt], rfl, rfl⟩ := Format.line_inj (by decide) h
      simp only [Format.Args.ext_iff, List.cons.injEq, BitVec.toInt_inj, and_true] at ha
      obtain ⟨rfl, rfl, rfl, rfl⟩ := ha
      rfl
    | tgkill tgid' tid' sig' => exact absurd (congrArg List.head? h) (by decide : some (75 : UInt8) ≠ some 116)
  | tgkill tgid tid sig =>
    cases c' with
    | kill pid' sig' => exact absurd (congrArg List.head? h) (by decide : some (116 : UInt8) ≠ some 75)
    | tgkill tgid' tid' sig' =>
      have ha : (⟨[s.toInt], n, [tid.toInt, tgid.toInt, sig.toInt], rfl, rfl⟩ : tgkillFormat.Args) =
          ⟨[s'.toInt], n', [tid'.toInt, tgid'.toInt, sig'.toInt], rfl, rfl⟩ := Format.line_inj (by decide) h
      simp only [Format.Args.ext_iff, List.cons.injEq, BitVec.toInt_inj, and_true] at ha
      obtain ⟨rfl, rfl, rfl, rfl, rfl⟩ := ha
      rfl

/-! ### What a trace tells -/

/-- The signals that are sent while the programs are attached. -/
def sent (past : List (Action (Caller × Syscall))) : Action (Caller × Syscall) → List Report
  | .event (c, call) => if (lifeAfter past).attached then (report c call).toList else []
  | _ => []

theorem trace_eq_sent (as : List (Action (Caller × Syscall))) : trace as = (foretold sent [] as).map Report.line := by
  induction as using List.reverseRecOn with
  | nil => rfl
  | append_singleton past a ih =>
    rw [trace, outputs_concat, ← trace, ih, foretold_concat, List.map_append, List.nil_append]
    congr 1
    cases a with
    | main a => rfl
    | sigint => rfl
    | event e =>
      obtain ⟨c, call⟩ := e
      simp only [step, life_final, world, sent, handled_eq]
      split_ifs
      · rfl
      · rfl

/-- Two runs leave the same trace exactly if the same signals are sent in them while the
programs are attached: by the same processes under the same names, with the same
arguments, in the same order. -/
theorem traces_eq_iff (as bs : List (Action (Caller × Syscall))) :
    trace as = trace bs ↔ foretold sent [] as = foretold sent [] bs := by
  rw [trace_eq_sent, trace_eq_sent]
  exact (List.map_injective_iff.mpr line_injective).eq_iff

end LibbpfBootstrap.Tracing.Kill
