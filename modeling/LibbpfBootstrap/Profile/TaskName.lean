import LibbpfBootstrap.Kernel.Helpers
import LibbpfBootstrap.Libc.Text
import LibbpfBootstrap.Profile.Render
import LibbpfBootstrap.Rust.Utf8

/-! The name of the task in the header of a sample. The C program prints the field
`comm` as a string. The Rust program decodes all of its sixteen bytes, the NUL and
what is behind it included, and prints either all of them or `<unknown>`. So the
two show one name only of a task that is called `<unknown>`. -/

namespace LibbpfBootstrap.Profile

open Kernel Libc Rust

abbrev taskCommLen : ℕ := 16

/-- `struct stacktrace_event` with the name of the task, which is terminated. -/
@[ext] structure TaskSample where
  event : StacktraceEvent
  comm : CharBuf taskCommLen
  terminated : ∃ i, comm i = 0

/-! ### The program in the kernel -/

/-- What `bpf_get_current_comm` does to the field: it puts the name there, or it
fails and leaves anything. -/
inductive CurrentComm
  | put (name : List UInt8)
  | failed (left : CharBuf taskCommLen)

/-- What `profile` is handed by its helpers; the stacks are as `bpf_get_stack` leaves
them. -/
structure Sampling where
  pidTgid : BitVec 64
  cpuId : BitVec 32
  currentComm : CurrentComm
  kstackSz : StackSize
  ustackSz : StackSize
  kstack : StackTrace
  ustack : StackTrace

/-- The field `comm` of a slot. -/
def CurrentComm.fill (slot : CharBuf taskCommLen) : CurrentComm → CharBuf taskCommLen
  | .put name => slot.putStr name
  | .failed left => Function.update left 0 0

theorem CurrentComm.fill_terminated (slot : CharBuf taskCommLen) (c : CurrentComm) : ∃ i, c.fill slot i = 0 := by
  cases c with
  | put name => exact CharBuf.putStr_terminated (by decide) name slot
  | failed left => exact ⟨0, Function.update_self 0 0 left⟩

/-- The name as the field can hold it; none if it could not be had. -/
def CurrentComm.name : CurrentComm → List UInt8
  | .put name => (name.take (taskCommLen - 1)).takeWhile (· ≠ 0)
  | .failed _ => []

/-- The string in the field does not depend on what the field held. -/
theorem CurrentComm.cstr_fill (slot : CharBuf taskCommLen) (c : CurrentComm) : (c.fill slot).cstr = c.name := by
  cases c with
  | put name => exact CharBuf.cstr_putStr (by decide) name slot
  | failed left =>
    show (List.ofFn (Function.update left 0 0)).takeWhile (· ≠ 0) = []
    rw [List.ofFn_succ, Function.update_self, List.takeWhile_cons_of_neg (by simp)]

/-- `slot` is what the reserved record held in `comm`, if there is one. -/
def profile (slot : Option (CharBuf taskCommLen)) (f : Sampling) : ℕ × List TaskSample :=
  match slot with
  | none => (1, [])
  | some slot =>
    (0, [{ event := ⟨pidOf f.pidTgid, f.cpuId, f.kstackSz, f.ustackSz, f.kstack, f.ustack⟩
           comm := f.currentComm.fill slot
           terminated := f.currentComm.fill_terminated slot }])

/-- Every terminated sample can be submitted. -/
theorem exists_profile (e : TaskSample) : ∃ slot f, e ∈ (profile slot f).2 := by
  let f : Sampling := ⟨e.event.pid ++ 0#32, e.event.cpuId, .put e.comm.cstr, e.event.kstackSz, e.event.ustackSz,
    e.event.kstack, e.event.ustack⟩
  refine ⟨some e.comm, f, List.mem_singleton.mpr (TaskSample.ext ?_ ?_)⟩
  · simp [f]
  · exact (CharBuf.putStr_cstr e.terminated).symm

/-! ### The two handlers -/

/-- The bytes of the record behind `comm`. -/
def StacktraceEvent.rest (event : StacktraceEvent) : List UInt8 :=
  leBytes 4 event.kstackSz.sz.toNat ++ leBytes 4 event.ustackSz.sz.toNat ++
    (List.ofFn event.kstack).flatMap (fun a => leBytes 8 a.toNat) ++
    (List.ofFn event.ustack).flatMap (fun a => leBytes 8 a.toNat)

/-- `%s`, which would go on behind the field if it met no NUL there. -/
def nameC (e : TaskSample) : List UInt8 := (List.ofFn e.comm ++ e.event.rest).takeWhile (· ≠ 0)

def nameRust (e : TaskSample) : List UInt8 := (fromUtf8 (List.ofFn e.comm)).getD (ascii "<unknown>")

/-- The name in the header that a handler prints, if it prints one. -/
def shownName (name : List UInt8) : Option (ℕ × List Line) → Option (List UInt8)
  | some (_, .header _ _ :: _) => some name
  | _ => none

def shownNameC (symbolizer : Symbolizer) (e : TaskSample) : Option (List UInt8) :=
  shownName (nameC e) (eventHandlerC symbolizer e.event)

def shownNameRust (symbolizer : Symbolizer) (e : TaskSample) : Option (List UInt8) :=
  shownName (nameRust e) (eventHandlerRust symbolizer eventSize e.event)

/-- Both programs show the bytes before the first NUL. -/
def SameName (symbolizer : Symbolizer) (e : TaskSample) : Prop :=
  shownNameRust symbolizer e = shownNameC symbolizer e ∧ ∀ name ∈ shownNameC symbolizer e, name = e.comm.cstr

/-- Neither stack was taken. -/
def NoStacks (event : StacktraceEvent) : Prop := event.kstackSz.sz.toInt ≤ 0 ∧ event.ustackSz.sz.toInt ≤ 0

instance (event : StacktraceEvent) : Decidable (NoStacks event) := inferInstanceAs (Decidable (_ ∧ _))

/-! ### The names -/

theorem shownName_sampleWith (name : List UInt8) (event : StacktraceEvent) (kernel user : List Line) :
    shownName name (some (sampleWith event kernel user)) = if NoStacks event then none else some name := by
  by_cases h : event.kstackSz.sz.toInt ≤ 0 ∧ event.ustackSz.sz.toInt ≤ 0
  · rw [sampleWith, if_pos h]
    exact (if_pos h).symm
  · rw [sampleWith, if_neg h]
    exact (if_neg h).symm

theorem shownNameC_eq (symbolizer : Symbolizer) (e : TaskSample) :
    shownNameC symbolizer e = if NoStacks e.event then none else some (nameC e) := by
  rw [shownNameC, eventHandlerC_eq, shownName_sampleWith]

theorem shownNameRust_eq (symbolizer : Symbolizer) (e : TaskSample) :
    shownNameRust symbolizer e = if NoStacks e.event then none else some (nameRust e) := by
  rw [shownNameRust, eventHandlerRust_eq, sampleLines, shownName_sampleWith]

/-- The C program stays in the field. -/
theorem nameC_eq (e : TaskSample) : nameC e = e.comm.cstr := by
  rw [nameC, CharBuf.ofFn_of_terminated e.terminated, List.append_assoc,
    List.takeWhile_append_of_pos fun c hc => decide_eq_true (CharBuf.ne_zero_of_mem_cstr hc), List.cons_append,
    List.takeWhile_cons_of_neg (by simp), List.append_nil]

/-- The Rust program shows the whole field or nothing of it: the name may be cut in a
character, or the bytes behind it need not be text. -/
theorem nameRust_eq (e : TaskSample) :
    nameRust e =
      if wellFormed [] e.comm.cstr && wellFormed [] e.comm.behind then List.ofFn e.comm else ascii "<unknown>" := by
  have hsplit : wellFormed [] (List.ofFn e.comm) = (wellFormed [] e.comm.cstr && wellFormed [] e.comm.behind) := by
    rw [CharBuf.ofFn_of_terminated e.terminated]
    exact wellFormed_append_ascii (by simp [Open]) _ (by decide) _
  rw [nameRust, fromUtf8, hsplit]
  split_ifs <;> rfl

theorem nameRust_eq_cstr_iff (e : TaskSample) :
    nameRust e = e.comm.cstr ↔ e.comm.cstr = ascii "<unknown>" ∧ wellFormed [] e.comm.behind = false := by
  -- the field has a NUL and the name has none, so they agree only in the fallback
  have hnul : List.ofFn e.comm ≠ e.comm.cstr := by
    intro h
    have hmem : (0 : UInt8) ∈ e.comm.cstr := h ▸ List.mem_ofFn.mpr e.terminated
    exact CharBuf.ne_zero_of_mem_cstr hmem rfl
  have hascii : wellFormed [] (ascii "<unknown>") = true := by decide
  rw [nameRust_eq]
  split_ifs with h
  · rw [Bool.and_eq_true] at h
    exact iff_of_false hnul fun hc => by simp [h.2] at hc
  · constructor
    · intro he
      rw [← he, hascii, Bool.true_and] at h
      exact ⟨he.symm, by simpa using h⟩
    · exact fun hc => hc.1.symm

/-- The two programs show the same name exactly of a sample of which they show none and
of a task `<unknown>` with bytes behind its NUL that are not UTF-8. -/
theorem sameName_iff (symbolizer : Symbolizer) (e : TaskSample) :
    SameName symbolizer e ↔
      NoStacks e.event ∨ (e.comm.cstr = ascii "<unknown>" ∧ wellFormed [] e.comm.behind = false) := by
  rw [SameName, shownNameC_eq, shownNameRust_eq, nameC_eq, ← nameRust_eq_cstr_iff]
  by_cases h : NoStacks e.event
  · simp [h]
  · simp [h]

/-! ### Four names -/

/-- A sample with a kernel stack of one entry. -/
def sampleOf (c : CurrentComm) (slot : CharBuf taskCommLen) : TaskSample :=
  ⟨zeroSample, c.fill slot, c.fill_terminated slot⟩

/-- A slot that held 0xFF bytes. -/
def stale : CharBuf taskCommLen := fun _ => 0xFF

theorem sameName_unknown : SameName .always (sampleOf (.put (ascii "<unknown>")) stale) :=
  (sameName_iff .always _).mpr (Or.inr (by decide))

/-- The Rust program shows `bash` with twelve NULs, and neither a name that was cut in
its last character nor the empty name of a task that could not be asked. -/
theorem names_differ :
    (shownNameC .always (sampleOf (.put (ascii "bash")) fun _ => 0) = some (ascii "bash") ∧
      shownNameRust .always (sampleOf (.put (ascii "bash")) fun _ => 0) =
        some (ascii "bash" ++ List.replicate 12 0)) ∧
    (shownNameC .always (sampleOf (.put (ascii "application-pr" ++ [0xC3, 0xA9])) fun _ => 0) =
        some (ascii "application-pr" ++ [0xC3]) ∧
      shownNameRust .always (sampleOf (.put (ascii "application-pr" ++ [0xC3, 0xA9])) fun _ => 0) =
        some (ascii "<unknown>")) ∧
    (shownNameC .always (sampleOf (.failed stale) stale) = some [] ∧
      shownNameRust .always (sampleOf (.failed stale) stale) = some (ascii "<unknown>")) ∧
    ¬ SameName .always (sampleOf (.put (ascii "bash")) fun _ => 0) := by
  simp only [SameName, shownNameC_eq, shownNameRust_eq, nameC_eq]
  decide

end LibbpfBootstrap.Profile
