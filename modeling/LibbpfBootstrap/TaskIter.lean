import LibbpfBootstrap.Kernel.Layout
import LibbpfBootstrap.Kernel.Runs
import LibbpfBootstrap.Kernel.SeqFile
import LibbpfBootstrap.Libc.Text

/-! The task iterator. `get_tasks` of `task_iter.bpf.c` fills the buffer of the
processor it runs on, over what an earlier task left there, and writes the whole of it
to the sequence file; `main` of `task_iter.c` reads records of that size until the
file ends, and prints a line for each. The lines are those of the tasks, in the order
of the visits, whatever the buffers held and however often a read has to be repeated. -/

namespace LibbpfBootstrap.TaskIter

open Kernel Kernel.Runs Libc

abbrev taskCommLen : ℕ := 16

abbrev maxStackLen : ℕ := 127

/-- `struct task_info`. -/
structure TaskInfo where
  pid : BitVec 32
  tid : BitVec 32
  state : BitVec 32
  comm : CharBuf taskCommLen
  kstackLen : BitVec 32
  kstack : Fin maxStackLen → BitVec 64

namespace TaskInfo

def members : BitVec 32 × BitVec 32 × BitVec 32 × CharBuf taskCommLen × BitVec 32 × (Fin maxStackLen → BitVec 64) ≃
    TaskInfo where
  toFun t := ⟨t.1, t.2.1, t.2.2.1, t.2.2.2.1, t.2.2.2.2.1, t.2.2.2.2.2⟩
  invFun t := (t.pid, t.tid, t.state, t.comm, t.kstackLen, t.kstack)
  left_inv _ := rfl
  right_inv _ := rfl

/-- The members one behind the other: the structure has no padding. -/
def layout : Layout TaskInfo :=
  .map members (.seq (.word 4) (.seq (.word 4) (.seq (.word 4) (.seq (.array taskCommLen .byte)
    (.seq (.word 4) (.array maxStackLen (.word 8)))))))

end TaskInfo

/-! ### The program -/

/-- The state of a task as the kernel has it, before and since Linux 5.14. -/
inductive StateField
  | pre514 (state : BitVec 64)
  | post514 (state : BitVec 32)

/-- What `get_tasks` reads of a `struct task_struct`. -/
structure Task where
  tgid : BitVec 32
  pid : BitVec 32
  state : StateField
  comm : List UInt8

/-- One run of the program: the processor, the task, whether the map lookup succeeds,
and what `bpf_get_task_stack` returns and leaves in its buffer. -/
structure Visit (C : Type*) where
  cpu : C
  task : Option Task
  found : Bool
  res : BitVec 64
  kstack : Fin maxStackLen → BitVec 64

namespace Bpf

def getTaskState : StateField → BitVec 32
  | .pre514 state => state.setWidth 32
  | .post514 state => state

/-- The conditional is an `unsigned long`, cut to an `int`. -/
def kstackLen (res : BitVec 64) : BitVec 32 :=
  if res.toInt ≤ 0 then res.setWidth 32 else (res / 8#64).setWidth 32

variable {C : Type*} [DecidableEq C]

/-- The buffers of the processors, and the bytes that a visit writes. -/
def getTasks (bufs : C → TaskInfo) (v : Visit C) : (C → TaskInfo) × List UInt8 :=
  match v.task with
  | none => (bufs, [])
  | some task =>
    if v.found then
      let t := bufs v.cpu
      let t := { t with
        pid := task.tgid
        tid := task.pid
        state := getTaskState task.state
        comm := t.comm.putStr task.comm
        kstack := v.kstack
        kstackLen := kstackLen v.res }
      (Function.update bufs v.cpu t, TaskInfo.layout.put t)
    else (bufs, [])

end Bpf

/-! ### `main` -/

def getTaskState (state : BitVec 32) : List UInt8 :=
  if state = 0x0000#32 then ascii "RUNNING"
  else if state = 0x0001#32 then ascii "INTERRUPTIBLE"
  else if state = 0x0002#32 then ascii "UNINTERRUPTIBLE"
  else if state = 0x0200#32 then ascii "WAKING"
  else if state = 0x0400#32 then ascii "NOLOAD"
  else if state = 0x0402#32 then ascii "IDLE"
  else if state = 0x0800#32 then ascii "NEW"
  else ascii "<unknown>"

/-- A record as a reader sees it: with its name as a string. The bytes behind the NUL may be
those of an earlier task, and so may the entries of a stack that could not be had; `main`
prints neither. -/
structure Shown where
  pid : BitVec 32
  tid : BitVec 32
  state : BitVec 32
  comm : List UInt8
  kstackLen : BitVec 32
  kstack : Fin maxStackLen → BitVec 64

def TaskInfo.shown (t : TaskInfo) : Shown := ⟨t.pid, t.tid, t.state, t.comm.cstr, t.kstackLen, t.kstack⟩

/-- The line that is printed for a record. -/
def Shown.line (buf : Shown) : List UInt8 :=
  if buf.kstackLen.toInt ≤ 0 then
    ascii "Error getting kernel stack for task. Task Info. Pid: " ++ signedDecimal buf.pid.toInt ++
      ascii ". Process Name: " ++ buf.comm ++ ascii ". Kernel Stack Error: " ++
      signedDecimal buf.kstackLen.toInt ++ ascii ". State: " ++ getTaskState buf.state ++ ascii "\n"
  else
    ascii "Task Info. Pid: " ++ signedDecimal buf.pid.toInt ++ ascii ". Process Name: " ++ buf.comm ++
      ascii ". Kernel Stack Len: " ++ signedDecimal buf.kstackLen.toInt ++ ascii ". State: " ++
      getTaskState buf.state ++ ascii "\n"

/-- A value of `errno` after a call that failed. -/
structure Errno where
  value : BitVec 32
  pos : 0 < value.toInt

abbrev eagain : BitVec 32 := 11#32

/-- The kernel's side of a call of `read`: it serves the file, with a limit on the
objects it visits, or it fails. -/
inductive Action
  | read (quota : ℕ)
  | fail (errno : Errno)

section Main

variable {C : Type*} [DecidableEq C]

/-- `main` in its loop, or behind it. -/
structure Main (C : Type*) where
  file : SeqFile (C → TaskInfo) (Visit C) UInt8
  buf : TaskInfo
  err : BitVec 32
  done : Bool

/-- A read of `bytes` leaves the rest of the buffer. -/
def readInto (bytes : List UInt8) (buf : TaskInfo) : TaskInfo :=
  TaskInfo.layout.get (bytes ++ (TaskInfo.layout.put buf).drop bytes.length)

/-- One turn of the loop, and the record that it prints. -/
def turn (s : Main C) (a : Action) : Main C × List TaskInfo :=
  if s.done then (s, [])
  else match a with
    | .fail errno =>
      if errno.value = eagain then (s, []) else ({ s with err := -errno.value, done := true }, [])
    | .read quota =>
      match SeqFile.read Bpf.getTasks TaskInfo.layout.size quota s.file with
      | (file, .again) => ({ s with file := file }, [])
      | (file, .data []) => ({ s with file := file, done := true }, [])
      | (file, .data (b :: bs)) =>
        let buf := readInto (b :: bs) s.buf
        ({ s with file := file, buf := buf }, [buf])

/-- The loop is entered with the file just opened; the buffers hold anything. -/
def start (bufs : C → TaskInfo) (buf : TaskInfo) (visits : List (Visit C)) : Main C :=
  ⟨⟨bufs, visits, []⟩, buf, 0#32, false⟩

def Main.returned (s : Main C) : BitVec 32 := if s.err.toInt < 0 then -s.err else 0#32

/-- The lines that a run of the loop prints. -/
def lines (s : Main C) (as : List Action) : List (List UInt8) := (outputs turn s as).map fun t => t.shown.line

/-! ### What is printed -/

/-- The record that is owed for a visit: that of its task. -/
def Visit.shown (v : Visit C) : Option Shown :=
  match v.task with
  | none => none
  | some task =>
    if v.found then
      some ⟨task.tgid, task.pid, Bpf.getTaskState task.state, (task.comm.take (taskCommLen - 1)).takeWhile (· ≠ 0),
        Bpf.kstackLen v.res, v.kstack⟩
    else none

/-- A visit writes a whole record, in which nothing of the buffer's past is seen. -/
theorem getTasks_whole :
    SeqFile.Whole (Bpf.getTasks (C := C)) TaskInfo.layout.size Visit.shown fun bs => (TaskInfo.layout.get bs).shown where
  pos := by decide
  writes bufs v := by
    unfold Bpf.getTasks Visit.shown
    cases v.task with
    | none => exact Or.inl ⟨rfl, rfl⟩
    | some task =>
      cases v.found with
      | false => exact Or.inl ⟨rfl, rfl⟩
      | true =>
        refine Or.inr ⟨TaskInfo.layout.length_put _, ?_⟩
        simp only [if_true, TaskInfo.layout.get_put, TaskInfo.shown]
        rw [CharBuf.cstr_putStr (by decide)]

theorem readInto_whole {bytes : List UInt8} (h : bytes.length = TaskInfo.layout.size) (buf : TaskInfo) :
    readInto bytes buf = TaskInfo.layout.get bytes := by
  rw [readInto, List.drop_of_length_le (by rw [TaskInfo.layout.length_put, h]), List.append_nil]

/-- What was printed and what is still to come are the records of all visits; the loop
ends at the end of the file or with an error. -/
structure Inv (visits : List (Visit C)) (printed : List TaskInfo) (s : Main C) : Prop where
  pending : s.file.pending = []
  owed : printed.map TaskInfo.shown ++ s.file.rest.filterMap Visit.shown = visits.filterMap Visit.shown
  err : s.err = 0#32 ∨ s.err.toInt < 0
  ended : s.done = true → s.err = 0#32 → s.file.rest = []

theorem toInt_neg_errno (errno : Errno) : (-errno.value).toInt < 0 := by
  have hpos := errno.pos
  have hne : errno.value ≠ BitVec.intMin 32 := by
    intro he
    rw [he] at hpos
    exact absurd hpos (by decide)
  rw [BitVec.toInt_neg_of_ne_intMin hne]
  omega

theorem inv_turn (visits : List (Visit C)) (printed : List TaskInfo) (s : Main C) (a : Action)
    (h : Inv visits printed s) : Inv visits (printed ++ (turn s a).2) (turn s a).1 := by
  cases hd : s.done with
  | true => simpa [turn, hd] using h
  | false =>
    cases a with
    | fail errno =>
      simp only [turn, hd, Bool.false_eq_true, if_false]
      split_ifs
      · simpa using h
      · refine ⟨h.pending, by simpa using h.owed, Or.inr (toInt_neg_errno errno), fun _ he => ?_⟩
        have hzero : (-errno.value).toInt = 0 := congrArg BitVec.toInt he
        have hneg := toInt_neg_errno errno
        omega
    | read quota =>
      have hread := SeqFile.read_whole getTasks_whole quota s.file h.pending
      simp only [turn, hd, Bool.false_eq_true, if_false]
      generalize SeqFile.read Bpf.getTasks TaskInfo.layout.size quota s.file = r at hread
      cases hread with
      | again file hp howed =>
        exact ⟨hp, by simpa [← howed] using h.owed, h.err, fun hdone => by simp at hdone⟩
      | eof file hrest hp howed =>
        exact ⟨hp, by simpa [hrest, howed] using h.owed, h.err, fun _ _ => hrest⟩
      | record file bytes hsize hp howed =>
        cases bytes with
        | nil => exact absurd hsize (by decide)
        | cons b bs =>
          refine ⟨hp, ?_, h.err, fun hdone => by simp at hdone⟩
          simp only [readInto_whole hsize, List.map_append, List.map_singleton, List.append_assoc, List.singleton_append]
          rw [← howed]
          exact h.owed

theorem inv_run (bufs : C → TaskInfo) (buf : TaskInfo) (visits : List (Visit C)) (as : List Action) :
    Inv visits (outputs turn (start bufs buf visits) as) (final turn (start bufs buf visits) as) :=
  emission_invariant (Inv visits) ⟨rfl, rfl, Or.inl rfl, fun hdone => by simp [start] at hdone⟩ (inv_turn visits) as

omit [DecidableEq C] in
theorem returned_eq_zero {s : Main C} (h : s.err = 0#32 ∨ s.err.toInt < 0) : s.returned = 0#32 ↔ s.err = 0#32 := by
  unfold Main.returned
  rcases h with h | h
  · simp [h]
  · rw [if_pos h]
    exact neg_eq_zero

theorem lines_eq_map (s : Main C) (as : List Action) :
    lines s as = ((outputs turn s as).map TaskInfo.shown).map Shown.line := by
  rw [lines, List.map_map]
  rfl

/-- At the end of the file everything owed is printed. -/
theorem Inv.lines_eq {visits : List (Visit C)} {s₀ : Main C} {as : List Action}
    (h : Inv visits (outputs turn s₀ as) (final turn s₀ as)) (hdone : (final turn s₀ as).done = true)
    (herr : (final turn s₀ as).err = 0#32) : lines s₀ as = (visits.filterMap Visit.shown).map Shown.line := by
  have howed := h.owed
  rw [h.ended hdone herr, List.filterMap_nil, List.append_nil] at howed
  rw [lines_eq_map, howed]

/-- A read that visits at least one object, and does not fail. -/
def Action.serves : Action → Prop
  | .read quota => 0 < quota
  | .fail _ => False

theorem progress (bufs : C → TaskInfo) (buf : TaskInfo) (visits : List (Visit C)) (as : List Action)
    (h : Allowed (fun _ a => a.serves) as) :
    (final turn (start bufs buf visits) as).err = 0#32 ∧
      ((final turn (start bufs buf visits) as).done = true ∨
        (final turn (start bufs buf visits) as).file.rest.length + as.length ≤ visits.length) := by
  refine Allowed.induction (R := fun as => (final turn (start bufs buf visits) as).err = 0#32 ∧
    ((final turn (start bufs buf visits) as).done = true ∨
      (final turn (start bufs buf visits) as).file.rest.length + as.length ≤ visits.length)) ?_ ?_ h
  · exact ⟨rfl, Or.inr le_rfl⟩
  · intro past a hpast ih hs
    have hpending := (inv_run bufs buf visits past).pending
    rw [final_concat]
    generalize final turn (start bufs buf visits) past = s at ih hpending
    obtain ⟨herr, hmeasure⟩ := ih
    cases a with
    | fail errno => exact hs.elim
    | read quota =>
      have hquota : 0 < quota := hs
      cases hd : s.done with
      | true => simpa [turn, hd] using herr
      | false =>
        have hlen := hmeasure.resolve_left (by simp [hd])
        have hread := SeqFile.read_whole getTasks_whole quota s.file hpending
        simp only [turn, hd, Bool.false_eq_true, if_false, List.length_append, List.length_singleton]
        generalize SeqFile.read Bpf.getTasks TaskInfo.layout.size quota s.file = r at hread
        cases hread with
        | again file hp howed hshorter => exact ⟨herr, Or.inr (by dsimp only; omega)⟩
        | eof file => exact ⟨herr, Or.inl rfl⟩
        | record file bytes hsize hp howed hshorter =>
          cases bytes with
          | nil => exact absurd hsize (by decide)
          | cons b bs => exact ⟨herr, Or.inr (by dsimp only; omega)⟩

/-- One read more than there are visits is enough: if no read fails and each visits at
least one object, `main` has then printed every task and returns zero. -/
theorem all_tasks_printed (bufs : C → TaskInfo) (buf : TaskInfo) (visits : List (Visit C)) (as : List Action)
    (hserves : ∀ a ∈ as, a.serves) (hlong : visits.length < as.length) :
    (final turn (start bufs buf visits) as).done = true ∧ (final turn (start bufs buf visits) as).returned = 0#32 ∧
      lines (start bufs buf visits) as = (visits.filterMap Visit.shown).map Shown.line := by
  have hallowed : Allowed (fun _ a => Action.serves a) as :=
    allowed_of_split fun past a rest he => hserves a (by simp [he])
  obtain ⟨herr, hmeasure⟩ := progress bufs buf visits as hallowed
  have hinv := inv_run bufs buf visits as
  have hdone := hmeasure.resolve_right (by omega)
  exact ⟨hdone, (returned_eq_zero hinv.err).mpr herr, hinv.lines_eq hdone herr⟩

end Main

def TaskInfo.zero : TaskInfo := ⟨0, 0, 0, fun _ => 0, 0, fun _ => 0⟩

/-- A kernel thread on one processor, a task without a stack on another, and the call at
the end of the walk. -/
def twoTasks : List (Visit Bool) :=
  [⟨true, some ⟨2, 2, .post514 1, ascii "kthreadd"⟩, true, 56, fun _ => 0⟩,
    ⟨false, some ⟨7, 7, .pre514 2, ascii "sh"⟩, true, -14, fun _ => 0⟩, ⟨true, none, true, 0, fun _ => 0⟩]

theorem all_tasks_printed_two :
    lines (start (fun _ => .zero) .zero twoTasks) [.read 1, .read 3, .read 1, .read 1] =
        (twoTasks.filterMap Visit.shown).map Shown.line ∧
      (twoTasks.filterMap Visit.shown).map Shown.comm = [ascii "kthreadd", ascii "sh"] :=
  ⟨(all_tasks_printed _ _ _ _ (by simp [Action.serves]) (by decide)).2.2, by decide⟩

end LibbpfBootstrap.TaskIter
