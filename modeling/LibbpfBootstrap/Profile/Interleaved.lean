import LibbpfBootstrap.Kernel.Producers
import LibbpfBootstrap.Profile.TaskName

/-! The samples of many processors. The program `profile` runs on every processor that is
sampled; it fills a record in the ring buffer statement by statement, over what the
record of an earlier lap has left there, while other processors fill theirs and user
space reads. A stack that is shorter than its array leaves the rest of the array as it
was. What user space shows of a sample is nevertheless the sample alone. -/

namespace LibbpfBootstrap.Profile.Interleaved

open Kernel Kernel.Producers

/-- The members of `struct stacktrace_event`, with any contents. -/
structure Slot where
  pid : BitVec 32
  cpuId : BitVec 32
  comm : CharBuf taskCommLen
  kstackSz : BitVec 32
  ustackSz : BitVec 32
  kstack : StackTrace
  ustack : StackTrace

/-- `bpf_get_stack` on an array: it writes the entries that its result counts, and where it
fails it may leave anything. -/
def getStack (size : StackSize) (stack old : StackTrace) : StackTrace := fun i =>
  if 0 < size.sz.toInt ∧ size.sz.toInt.toNat / 8 ≤ i.val then old i else stack i

/-- The statements of `profile` between the reservation and the submission. -/
def writes (f : Sampling) : List (Slot → Slot) :=
  [fun s => { s with pid := pidOf f.pidTgid },
   fun s => { s with cpuId := f.cpuId },
   fun s => { s with comm := f.currentComm.fill s.comm },
   fun s => { s with kstack := getStack f.kstackSz f.kstack s.kstack },
   fun s => { s with kstackSz := f.kstackSz.sz },
   fun s => { s with ustack := getStack f.ustackSz f.ustack s.ustack },
   fun s => { s with ustackSz := f.ustackSz.sz }]

/-! ### What user space makes of a record -/

/-- A size that is an error or a number of whole entries. -/
def stackSize (sz : BitVec 32) : Option StackSize :=
  if h : sz.toInt ≤ 0 ∨ ∃ n ≤ maxStackDepth, sz.toInt = 8 * (n : ℤ) then some ⟨sz, h⟩ else none

/-- The record as a sample, if it is one: with sizes that its arrays have, and a name that ends. -/
def Slot.sample (s : Slot) : Option TaskSample := do
  let kstackSz ← stackSize s.kstackSz
  let ustackSz ← stackSize s.ustackSz
  if h : ∃ i, s.comm i = 0 then
    return ⟨⟨s.pid, s.cpuId, kstackSz, ustackSz, s.kstack, s.ustack⟩, s.comm, h⟩
  else none

/-- What the C program shows: the name and the lines. -/
def shownC (symbolizer : Symbolizer) (s : Slot) : Option (List UInt8 × ℕ × List Line) := do
  let e ← s.sample
  let lines ← eventHandlerC symbolizer e.event
  return (nameC e, lines)

/-- The lines of the Rust program. -/
def shownRust (symbolizer : Symbolizer) (s : Slot) : Option (ℕ × List Line) := do
  let e ← s.sample
  eventHandlerRust symbolizer eventSize e.event

/-! ### What should be shown -/

/-- The sample without its name, with the stacks as they were. -/
def event (f : Sampling) : StacktraceEvent :=
  ⟨pidOf f.pidTgid, f.cpuId, f.kstackSz, f.ustackSz, f.kstack, f.ustack⟩

/-! ### One sample -/

/-- The record that is submitted over an old one. -/
def submitted (old : Slot) (f : Sampling) : TaskSample where
  event := { event f with
    kstack := getStack f.kstackSz f.kstack old.kstack
    ustack := getStack f.ustackSz f.ustack old.ustack }
  comm := f.currentComm.fill old.comm
  terminated := f.currentComm.fill_terminated old.comm

theorem stackSize_sz (v : StackSize) : stackSize v.sz = some v := dif_pos v.valid

theorem sample_made (old : Slot) (f : Sampling) : (made writes (old, f)).sample = some (submitted old f) := by
  show (do
    let kstackSz ← stackSize f.kstackSz.sz
    let ustackSz ← stackSize f.ustackSz.sz
    if h : ∃ i, f.currentComm.fill old.comm i = 0 then
      return (⟨⟨_, _, kstackSz, ustackSz, _, _⟩, _, h⟩ : TaskSample)
    else none) = _
  rw [stackSize_sz, stackSize_sz]
  exact dif_pos (f.currentComm.fill_terminated old.comm)

/-- The entries that the size counts are those of the stack. -/
theorem addresses_getStack (v : StackSize) (stack old : StackTrace) :
    addresses (getStack v stack old) v = addresses stack v := by
  have hlen : (addresses (getStack v stack old) v).length = (addresses stack v).length := by
    simp only [addresses, List.length_take, List.length_ofFn]
  refine List.ext_getElem hlen fun i hi _ => ?_
  have hlt : i < v.sz.toInt.toNat / 8 := by
    rw [addresses, List.length_take] at hi
    omega
  simp only [addresses, List.getElem_take, List.getElem_ofFn, getStack]
  rw [if_neg fun h => absurd hlt (Nat.not_lt.mpr h.2)]

theorem eventHandlerC_submitted (symbolizer : Symbolizer) (old : Slot) (f : Sampling) :
    eventHandlerC symbolizer (submitted old f).event = eventHandlerC symbolizer (event f) := by
  have hk := addresses_getStack f.kstackSz f.kstack old.kstack
  have hu := addresses_getStack f.ustackSz f.ustack old.ustack
  rw [eventHandlerC_eq, eventHandlerC_eq]
  simp only [submitted, event, hk, hu]
  rfl

theorem eventHandlerRust_submitted (symbolizer : Symbolizer) (old : Slot) (f : Sampling) :
    eventHandlerRust symbolizer eventSize (submitted old f).event =
      eventHandlerRust symbolizer eventSize (event f) := by
  have hk := addresses_getStack f.kstackSz f.kstack old.kstack
  have hu := addresses_getStack f.ustackSz f.ustack old.ustack
  rw [eventHandlerRust_eq, eventHandlerRust_eq]
  simp only [submitted, event, sampleLines, hk, hu]
  rfl

theorem nameC_submitted (old : Slot) (f : Sampling) : nameC (submitted old f) = f.currentComm.name := by
  rw [nameC_eq]
  exact f.currentComm.cstr_fill old.comm

section Shown

variable (symbolizer : Symbolizer)

theorem shownC_made (p : Slot × Sampling) :
    shownC symbolizer (made writes p) =
      (eventHandlerC symbolizer (event p.2)).map fun lines => (p.2.currentComm.name, lines) := by
  obtain ⟨old, f⟩ := p
  rw [shownC, sample_made, Option.bind_eq_bind, Option.bind_some, eventHandlerC_submitted, nameC_submitted,
    Option.bind_eq_bind, Option.map_eq_bind]
  rfl

theorem shownRust_made (p : Slot × Sampling) :
    shownRust symbolizer (made writes p) = eventHandlerRust symbolizer eventSize (event p.2) := by
  obtain ⟨old, f⟩ := p
  rw [shownRust, sample_made, Option.bind_eq_bind, Option.bind_some, eventHandlerRust_submitted]

end Shown

/-! ### Every interleaving -/

section Runs

variable {C : Type*} [DecidableEq C] (symbolizer : Symbolizer)

/-- What a program shows of a run: of each sample that got a record, in the order of the
reservations and from the sample alone, as far as the records were read. Once no
processor is in the program, as many looks at the ring buffer show all of them. -/
structure ShowsSamples {O : Type*} (shown : Slot → O) (shows : Sampling → O)
    (as : List (Action C Slot Sampling)) : Prop where
  in_order : (taken writes as).map shown <+: (begun writes as).map fun p => shows p.2
  complete : (∀ c, (after writes as).busy c = none) → ∀ n, (begun writes as).length ≤ n →
    (taken writes (as ++ List.replicate n .take)).map shown = (begun writes as).map fun p => shows p.2

theorem showsSamples_of_made {O : Type*} {shown : Slot → O} {shows : Sampling → O}
    (h : ∀ p, shown (made writes p) = shows p.2) (as : List (Action C Slot Sampling)) :
    ShowsSamples shown shows as := by
  have hmade (l : List (Slot × Sampling)) : (l.map (made writes)).map shown = l.map fun p => shows p.2 := by
    rw [List.map_map]
    exact List.map_congr_left fun p _ => h p
  constructor
  · rw [← hmade]
    exact (taken_prefix_made writes as).map shown
  · intro hidle n hn
    rw [taken_takes writes as hidle hn, hmade]

/-- However the processors overtake each other, and whatever their records held, both
programs show the samples in the order of the reservations, each by its own data. -/
theorem samples_shown (as : List (Action C Slot Sampling)) :
    ShowsSamples (shownC symbolizer)
        (fun f => (eventHandlerC symbolizer (event f)).map fun lines => (f.currentComm.name, lines)) as ∧
      ShowsSamples (shownRust symbolizer) (fun f => eventHandlerRust symbolizer eventSize (event f)) as :=
  ⟨showsSamples_of_made (shownC_made symbolizer) as, showsSamples_of_made (shownRust_made symbolizer) as⟩

end Runs

end LibbpfBootstrap.Profile.Interleaved
