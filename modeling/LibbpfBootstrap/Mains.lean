import LibbpfBootstrap.Libc.Setup

/-! How thirteen of the C programs set themselves up, and how they leave when a call
fails on the way. `tc.c` goes through its calls in another manner and is not among them.
That memory can be allocated is assumed: `profile.c` does not test for it. -/

namespace LibbpfBootstrap.Mains

open Libc.Setup

inductive Call
  | parseArgs | parseCpuMaskFile | numPossibleCpus | signal
  | openSkel | openAndLoad | load | attach
  | stat | updateElem | attachUprobe | attachUretprobe | attachUsdt
  | symbolizerNew | ringBufferNew | iterCreate | perfEventOpen | attachPerfEvent
  | socket | ifNametoindex | bind | setsockopt
deriving DecidableEq

/-- What a program may hold. The links are part of the skeleton, but for those to the
events of the processors, which `profile.c` keeps in an array beside their descriptors. -/
inductive Resource
  | skel | rb | sock | iterFd | symbolizer | onlineMask | pefds | links
deriving DecidableEq

abbrev Stage := Libc.Setup.Stage Call Resource String

abbrev Main := Libc.Setup.Main Call Resource String

/-! ### The forms of a call -/

/-- `skel = …; if (!skel) { fprintf(stderr, message); … }` -/
def opening (call : Call) (message : String) (leave : Leave) : Stage :=
  ⟨call, some .skel, none, none, [message], some leave⟩

/-- `err = …; if (err) { fprintf(stderr, message); goto cleanup; }` -/
def trying (call : Call) (message : String) : Stage :=
  ⟨call, none, some .negCode, none, [message], some .cleanup⟩

/-- `if (!(r = …)) { err = …; fprintf(stderr, message); goto cleanup; }`, behind what the
call itself writes. -/
def acquiring (call : Call) (r : Option Resource) (sets : Expr) (messages : List String) : Stage :=
  ⟨call, r, none, some sets, messages, some .cleanup⟩

/-- A call whose result is not looked at. -/
def ignoring (call : Call) : Stage := ⟨call, none, none, none, [], none⟩

/-- `if (signal(SIGINT, sig_int) == SIG_ERR) { …; goto cleanup; }`, with or without `err = errno`. -/
def catching (sets : Option Expr) : Stage :=
  ⟨.signal, none, none, sets, ["can't set signal handler: %s\n"], some .cleanup⟩

/-! ### The programs -/

def minimal : Main where
  stages :=
    [opening .openSkel "Failed to open BPF skeleton\n" (.ret (.const 1)),
     trying .load "Failed to load and verify BPF skeleton\n",
     trying .attach "Failed to attach BPF skeleton\n"]
  drops := [.skel]
  blank := []
  status := .neg

/-- The update of the map is tested with `err < 0`, which no failure escapes. -/
def minimalLegacy : Main where
  stages :=
    [opening .openAndLoad "Failed to open and load BPF skeleton\n" (.ret (.const 1)),
     trying .updateElem "Error updating map with pid: %s\n",
     trying .attach "Failed to attach BPF skeleton\n"]
  drops := [.skel]
  blank := []
  status := .neg

def minimalNs : Main where
  stages :=
    [opening .openSkel "Failed to open BPF skeleton\n" (.ret (.const 1)),
     ⟨.stat, none, none, none, ["Failed to acquire namespace information"], some (.ret (.const 1))⟩,
     trying .load "Failed to load and verify BPF skeleton\n",
     trying .attach "Failed to attach BPF skeleton\n"]
  drops := [.skel]
  blank := []
  status := .neg

def bootstrap : Main where
  stages :=
    [⟨.parseArgs, none, some .code, none, [], some (.ret .code)⟩,
     ignoring .signal,
     ignoring .signal,
     opening .openSkel "Failed to open and load BPF skeleton\n" (.ret (.const 1)),
     trying .load "Failed to load and verify BPF skeleton\n",
     trying .attach "Failed to attach BPF skeleton\n",
     acquiring .ringBufferNew (some .rb) (.const (-1)) ["Failed to create ring buffer\n"]]
  drops := [.rb, .skel]
  blank := []
  status := .negIfNegative

def uprobe : Main where
  stages :=
    [opening .openAndLoad "Failed to open and load BPF skeleton\n" (.ret (.const 1)),
     acquiring .attachUprobe none .negCode ["Failed to attach uprobe: %d\n"],
     acquiring .attachUretprobe none .negCode ["Failed to attach uprobe: %d\n"],
     trying .attach "Failed to auto-attach BPF skeleton: %d\n"]
  drops := [.skel]
  blank := []
  status := .neg

/-- `main` of `fentry.c`, `kprobe.c` and `ksyscall.c`, which differ in the skeleton only. -/
def tracing : Main where
  stages :=
    [opening .openAndLoad "Failed to open BPF skeleton\n" (.ret (.const 1)),
     trying .attach "Failed to attach BPF skeleton\n",
     catching none]
  drops := [.skel]
  blank := []
  status := .neg

def fentry : Main := tracing

def kprobe : Main := tracing

def ksyscall : Main := tracing

def lsm : Main where
  stages :=
    [opening .openAndLoad "Failed to open and load BPF skeleton\n" .cleanup,
     trying .attach "Failed to attach BPF skeleton\n"]
  drops := [.skel]
  blank := []
  status := .neg

/-- The test behind the call of `usdt_bpf__load` is `!skel`, which was tested before. -/
def usdt : Main where
  stages :=
    [opening .openSkel "Failed to open BPF skeleton\n" (.ret (.const 1)),
     ⟨.load, none, some .negCode, none, [], none⟩,
     acquiring .attachUsdt none .code ["Failed to attach BPF program `usdt_manual_attach`\n"],
     trying .attach "Failed to attach BPF skeleton\n",
     catching (some .code)]
  drops := [.skel]
  blank := []
  status := .neg

def taskIter : Main where
  stages :=
    [ignoring .signal,
     ignoring .signal,
     opening .openAndLoad "Failed to open and load BPF skeleton\n" .cleanup,
     trying .attach "Failed to attach BPF skeleton\n",
     acquiring .iterCreate (some .iterFd) (.const (-1)) ["Failed to create iter\n"]]
  drops := [.iterFd, .skel]
  blank := [.iterFd]
  status := .negIfNegative

/-- `open_raw_sock` writes a message of its own when `socket` or `bind` fails, and closes
the socket in the second case; that the name of the interface is unknown it does not
look at. -/
def sockfilter : Main where
  stages :=
    [⟨.parseArgs, none, some .code, none, [], some (.ret .negCode)⟩,
     ignoring .signal,
     ignoring .signal,
     opening .openAndLoad "Failed to open and load BPF skeleton\n" (.ret (.const 1)),
     acquiring .ringBufferNew (some .rb) (.const (-1)) ["Failed to create ring buffer\n"],
     acquiring .socket none (.const (-2)) ["Failed to create raw socket\n", "Failed to open raw socket\n"],
     ignoring .ifNametoindex,
     acquiring .bind (some .sock) (.const (-2)) ["Failed to bind to %s: %s\n", "Failed to open raw socket\n"],
     acquiring .setsockopt none (.const (-3)) ["Failed to attach to raw socket\n"]]
  drops := [.rb, .skel]
  blank := []
  status := .neg

/-- What `show_help` of `profile.c` prints. -/
def usage : String :=
  "Usage: %s [-f <frequency>] [--sw-event] [-h]\n" ++
  "Options:\n" ++
  "  -f <frequency>  Sampling frequency [default: 1]\n" ++
  "  --sw-event      Use software event for triggering stack trace capture\n" ++
  "  -h              Print help\n"

/-- The calls of `profile.c` up to those for each processor. -/
def profileHead : List Stage :=
  [⟨.parseArgs, none, none, none, [usage], some (.ret (.const 1))⟩,
   ⟨.parseCpuMaskFile, some .onlineMask, some .negCode, none,
     ["Fail to get online CPU numbers: %d\n"], some .cleanup⟩,
   acquiring .numPossibleCpus none (.const (-1)) ["Fail to get the number of processors\n"],
   acquiring .openAndLoad (some .skel) (.const (-1)) ["Fail to open and load BPF skeleton\n"],
   acquiring .symbolizerNew (some .symbolizer) (.const (-1)) ["Fail to create a symbolizer\n"],
   acquiring .ringBufferNew (some .rb) (.const (-1)) []]

/-- The message of a failed `perf_event_open`; `enoent` says whether the number of the
failure is `ENOENT`. -/
def perfMessage (swEvent enoent : Bool) : String :=
  if !swEvent && enoent then
    "Fail to set up performance monitor on a CPU/Core.\n" ++
    "Try running the profile example with the `--sw-event` option.\n"
  else "Fail to set up performance monitor on a CPU/Core.\n"

/-- The calls for a processor that is online. -/
def profileCpu (swEvent enoent : Bool) : List Stage :=
  [acquiring .perfEventOpen (some .pefds) (.const (-1)) [perfMessage swEvent enoent],
   acquiring .attachPerfEvent (some .links) (.const (-1)) []]

/-- On a host with a number of processors that are online. -/
def profile (swEvent enoent : Bool) (online : ℕ) : Main where
  stages := profileHead ++ (List.replicate online (profileCpu swEvent enoent)).flatten
  drops := [.links, .pefds, .rb, .skel, .symbolizer, .onlineMask]
  blank := []
  status := .neg

inductive Program
  | minimal | minimalLegacy | minimalNs | bootstrap | uprobe | fentry | kprobe | ksyscall | lsm | usdt
  | taskIter | sockfilter | profile (swEvent enoent : Bool) (online : ℕ)
deriving DecidableEq

def Program.main : Program → Main
  | .minimal => Mains.minimal
  | .minimalLegacy => Mains.minimalLegacy
  | .minimalNs => Mains.minimalNs
  | .bootstrap => Mains.bootstrap
  | .uprobe => Mains.uprobe
  | .fentry => Mains.fentry
  | .kprobe => Mains.kprobe
  | .ksyscall => Mains.ksyscall
  | .lsm => Mains.lsm
  | .usdt => Mains.usdt
  | .taskIter => Mains.taskIter
  | .sockfilter => Mains.sockfilter
  | .profile swEvent enoent online => Mains.profile swEvent enoent online

def Program.isProfile : Program → Bool
  | .profile _ _ _ => true
  | _ => false

/-! ### How they leave -/

/-- An exit status that the parent takes for success: it gets the lowest byte only. -/
def Succeeds (status : Option ℤ) : Prop := ∃ v ∈ status, v % 256 = 0

/-- The same of the sign of a status. -/
def Shown (status : Option Level) : Prop := ∃ v ∈ status, v.visible = false

instance (status : Option Level) : Decidable (Shown status) :=
  inferInstanceAs (Decidable (∃ v ∈ status, v.visible = false))

theorem shown_map_of {status : Option ℤ} : Shown (status.map Level.of) ↔ Succeeds status := by
  cases status with
  | none => simp [Shown, Succeeds]
  | some v => simp [Shown, Succeeds, Level.of]

section Judged

variable (p : Program) (o : Outcome Call Resource String Level) (f : Frame Call Resource String Level)

/-- Only a failure of the last call of the three tracing programs is taken for success,
and only a failure of the first one of two others leaves the status open. -/
def Reported : Prop :=
  (o.status = none ↔ (p = .lsm ∨ p = .taskIter) ∧ .openAndLoad ∈ o.failed) ∧
    (Shown o.status ↔ (p = .fentry ∨ p = .kprobe ∨ p = .ksyscall) ∧ .signal ∈ o.failed)

/-- A skeleton and a socket are left behind, a variable is returned that has no value, and
a descriptor is closed that was never opened. -/
def Released : Prop :=
  (o.held ≠ [] ↔ p = .minimalNs ∧ .stat ∈ o.failed ∨ p = .sockfilter ∧ .setsockopt ∈ o.failed) ∧
    (.err ∈ o.wild ↔ (p = .lsm ∨ p = .taskIter) ∧ .openAndLoad ∈ o.failed) ∧
    (.of .iterFd ∈ o.wild ↔ p = .taskIter ∧ (.openAndLoad ∈ o.failed ∨ .attach ∈ o.failed)) ∧
    ∀ v ∈ o.wild, v = .err ∨ v = .of .iterFd

/-- One message says why, but for the parser of the arguments, which has its own, for two
calls of one program that say nothing, and for a socket, where there are two. -/
def Explained : Prop :=
  o.printed.length ≤ 2 ∧
    (o.printed.length = 2 ↔ p = .sockfilter ∧ (.socket ∈ o.failed ∨ .bind ∈ o.failed)) ∧
    (o.printed = [] ↔ (p = .bootstrap ∨ p = .sockfilter) ∧ .parseArgs ∈ o.failed ∨
      p.isProfile = true ∧ (.ringBufferNew ∈ o.failed ∨ .attachPerfEvent ∈ o.failed))

/-- The failures that are not looked at. -/
def Ignores (c : Call) : Prop :=
  p = .usdt ∧ c = .load ∨ (p = .bootstrap ∨ p = .taskIter ∨ p = .sockfilter) ∧ c = .signal ∨
    p = .sockfilter ∧ c = .ifNametoindex

/-- What is known where the loop begins. -/
def Entered : Prop :=
  f.err = some levels.zero ∧ f.held.filter (· ∉ p.main.drops) = (if p = .sockfilter then [.sock] else []) ∧
    ∀ c ∈ f.failed, Ignores p c

instance : Decidable (Reported p o) := inferInstanceAs (Decidable (_ ∧ _))

instance : Decidable (Released p o) := inferInstanceAs (Decidable (_ ∧ _ ∧ _ ∧ _))

instance : Decidable (Explained p o) := inferInstanceAs (Decidable (_ ∧ _ ∧ _))

instance (c : Call) : Decidable (Ignores p c) := inferInstanceAs (Decidable (_ ∨ _))

instance : Decidable (Entered p f) := inferInstanceAs (Decidable (_ ∧ _ ∧ _))

end Judged

/-- What holds of every end of the calls. -/
def Judged (p : Program) : State Call Resource String Level → Prop
  | .left o => Reported p o ∧ Released p o ∧ Explained p o
  | .running _ f => Entered p f

instance (p : Program) : ∀ s, Decidable (Judged p s)
  | .left _ => inferInstanceAs (Decidable (_ ∧ _ ∧ _))
  | .running _ f => inferInstanceAs (Decidable (Entered p f))

/-! ### The processors of `profile.c` -/

section Profile

/-- What is known before the calls for a processor. -/
def Ready (f : Frame Call Resource String Level) : Prop :=
  f.err = some levels.zero ∧ (∀ r ∈ f.held, r ∈ [.links, .pefds, .rb, .skel, .symbolizer, .onlineMask]) ∧
    f.printed = [] ∧ f.failed = []

instance (f : Frame Call Resource String Level) : Decidable (Ready f) := inferInstanceAs (Decidable (_ ∧ _ ∧ _ ∧ _))

/-- The program has ended as it should, or can go on to a processor. -/
def Profiled (p : Program) : State Call Resource String Level → Prop
  | .left o => Judged p (.left o)
  | .running _ f => Ready f

instance (p : Program) : ∀ s, Decidable (Profiled p s)
  | .left o => inferInstanceAs (Decidable (Judged p (.left o)))
  | .running _ f => inferInstanceAs (Decidable (Ready f))

variable {swEvent enoent : Bool} {online : ℕ} {f : Frame Call Resource String Level}

/-- The calls before the first processor do not depend on how many there are. -/
theorem profiled_head (s : State Call Resource String Level)
    (hs : s ∈ (Mains.profile swEvent enoent online).pathsFrom levels profileHead ⟨none, [], [], [], []⟩) :
    Profiled (.profile swEvent enoent online) s := by
  have hnone : ∀ s ∈ (Mains.profile false false 0).pathsFrom levels profileHead ⟨none, [], [], [], []⟩,
      Profiled (.profile false false 0) s := by decide
  have h := hnone s hs
  cases s with
  | running todo f => exact h
  | left o => simpa [Profiled, Judged, Reported, Released, Explained, Program.isProfile] using h

theorem filter_held (h : Ready f) : f.held.filter (· ∉ (Mains.profile swEvent enoent online).drops) = [] := by
  refine List.filter_eq_nil_iff.mpr fun r hr => ?_
  rw [decide_eq_true_eq, not_not]
  exact h.2.1 r hr

/-- A call for a processor that fails ends the program, which then holds nothing. -/
theorem judged_cpu {c : Call} {messages : List String} {assigned : List Resource} (h : Ready f)
    (hc : c = .perfEventOpen ∧ messages = [perfMessage swEvent enoent] ∨ c = .attachPerfEvent ∧ messages = []) :
    Judged (.profile swEvent enoent online) (.left ((Mains.profile swEvent enoent online).cleanup levels
      ⟨some (Level.of (-1)), f.held, assigned, f.printed ++ messages, f.failed ++ [c]⟩)) := by
  have ho : (Mains.profile swEvent enoent online).cleanup levels
      ⟨some (Level.of (-1)), f.held, assigned, f.printed ++ messages, f.failed ++ [c]⟩ =
      ⟨some ⟨1, true⟩, [], [], messages, [c]⟩ := by
    rw [Main.cleanup, filter_held h, h.2.2.1, h.2.2.2]
    rfl
  rw [ho]
  rcases hc with ⟨rfl, rfl⟩ | ⟨rfl, rfl⟩ <;>
    simp [Judged, Reported, Released, Explained, Program.isProfile, Shown]

theorem profiled_cpu (h : Ready f) :
    ∀ s ∈ (Mains.profile swEvent enoent online).pathsFrom levels (profileCpu swEvent enoent) f,
      Profiled (.profile swEvent enoent online) s := by
  intro s hs
  rcases List.mem_append.mp hs with hs | hs
  · obtain rfl := List.mem_singleton.mp hs
    exact judged_cpu h (Or.inl ⟨rfl, rfl⟩)
  -- the first call has succeeded, and the descriptor is held
  have hopen : Ready (⟨f.err, f.held ++ [.pefds], f.assigned ++ [.pefds], f.printed, f.failed⟩) := by
    refine ⟨h.1, fun r hr => ?_, h.2.2⟩
    rcases List.mem_append.mp hr with hr | hr
    · exact h.2.1 r hr
    · rw [List.mem_singleton.mp hr]
      decide
  rcases List.mem_append.mp hs with hs | hs
  · obtain rfl := List.mem_singleton.mp hs
    exact judged_cpu hopen (Or.inr ⟨rfl, rfl⟩)
  · obtain rfl := List.mem_singleton.mp hs
    refine ⟨hopen.1, fun r hr => ?_, hopen.2.2⟩
    rcases List.mem_append.mp hr with hr | hr
    · exact hopen.2.1 r hr
    · rw [List.mem_singleton.mp hr]
      decide

theorem profiled_cpus (n : ℕ) (h : Ready f) :
    ∀ s ∈ (Mains.profile swEvent enoent online).pathsFrom levels
        (List.replicate n (profileCpu swEvent enoent)).flatten f,
      Profiled (.profile swEvent enoent online) s := by
  induction n generalizing f with
  | zero =>
    intro s hs
    obtain rfl := List.mem_singleton.mp hs
    exact h
  | succ n ih =>
    intro s hs
    rw [List.replicate_succ, List.flatten_cons] at hs
    rcases Main.mem_pathsFrom_append levels _ hs with ⟨o, -, hs⟩ | ⟨f', hf', hs⟩
    · exact profiled_cpu h s hs
    · exact ih (profiled_cpu h _ hf') s hs

theorem profiled_paths (s : State Call Resource String Level)
    (hs : s ∈ (Mains.profile swEvent enoent online).paths levels) :
    Profiled (.profile swEvent enoent online) s := by
  rcases Main.mem_pathsFrom_append levels _ hs with ⟨o, rfl, hs⟩ | ⟨f, hf, hs⟩
  · exact profiled_head _ hs
  · exact profiled_cpus online (profiled_head _ hf) s hs

end Profile

theorem judged_paths (p : Program) : ∀ s ∈ p.main.paths levels, Judged p s := by
  cases p with
  | profile swEvent enoent online =>
    intro s hs
    have hp := profiled_paths s hs
    cases s with
    | left o => exact hp
    | running todo f =>
      refine ⟨hp.1, filter_held hp, fun c hc => ?_⟩
      rw [hp.2.2.2] at hc
      cases hc
  | _ => decide

section Runs

variable {p : Program} {answers : List (Option Code)}

theorem judged_left {o : Outcome Call Resource String ℤ} (h : p.main.run numbers answers = .left o) :
    Judged p (.left (o.map Level.of)) := judged_paths p _ (Main.map_left_mem_paths h)

end Runs

/-- A program that leaves because a call has failed returns a status that says so, with
two exceptions: where `signal` fails last the status is that of the call before, zero,
and where the skeleton cannot be had two programs return a variable without a value. -/
theorem setup_status (p : Program) (answers : List (Option Code)) (o : Outcome Call Resource String ℤ)
    (h : p.main.run numbers answers = .left o) :
    (o.status = none ↔ (p = .lsm ∨ p = .taskIter) ∧ .openAndLoad ∈ o.failed) ∧
      (Succeeds o.status ↔ (p = .fentry ∨ p = .kprobe ∨ p = .ksyscall) ∧ .signal ∈ o.failed) := by
  obtain ⟨⟨hnone, hshown⟩, -, -⟩ := judged_left h
  constructor
  · exact Option.map_eq_none_iff.symm.trans hnone
  · exact shown_map_of.symm.trans hshown

/-- `EINVAL`, as the answer of a call. -/
def einval : Option Code := some ⟨22, by decide⟩

theorem setup_status_signal :
    ∃ o, Program.fentry.main.run numbers [none, none, einval] = .left o ∧ .signal ∈ o.failed ∧ Succeeds o.status := by
  refine ⟨_, rfl, by decide, ?_⟩
  exact ((setup_status .fentry [none, none, einval] _ rfl).2).mpr ⟨.inl rfl, by decide⟩

end LibbpfBootstrap.Mains
