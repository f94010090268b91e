import Mathlib.Data.List.TakeWhile
import Mathlib.Data.List.Nodup
import Mathlib.Logic.Function.Basic
import Mathlib.Tactic.Common

/-! The set-up of the two `profile` programs: a perf event on each CPU, and the
program attached to each event. The C program skips the CPUs that are not online
and leaves at the first failure; the Rust program opens an event on every possible
CPU, leaves at the first that fails, and keeps the results of the attaches without
a look at them. What comes before (arguments, skeleton, symbolizer, ring buffer)
is taken to succeed, and polling to end at some time. -/

namespace LibbpfBootstrap.Profile

/-- The machine: its possible CPUs, the mask of those online, the descriptor that
`perf_event_open` returns for a CPU, and the descriptors an attach succeeds on. -/
structure Host where
  numCpus : ℕ
  onlineMask : List Bool
  opens : ℕ → Option ℕ
  attaches : ℕ → Bool
  numCpus_pos : 0 < numCpus
  /-- No event can be opened on a CPU that is not online. -/
  opens_offline : ∀ cpu, onlineMask.getD cpu false = false → opens cpu = none
  /-- Descriptors that are open together are different. -/
  opens_inj : ∀ cpu cpu' fd, opens cpu = some fd → opens cpu' = some fd → cpu = cpu'

/-- What the programs do with descriptors and links. A link is named by the
descriptor it was made from. -/
inductive Effect where
  | opened (fd : ℕ)
  | linked (fd : ℕ)
  | destroyed (fd : ℕ)
  | closed (fd : ℕ)
deriving DecidableEq

/-- A run of `main`: what it does before polling, whether it gets to poll, and what
it does from then on until it returns. -/
structure Run where
  setup : List Effect
  polls : Bool
  cleanup : List Effect

/-- `bpf_link__destroy`, and the drop of a `Link`: the link goes, and with it the
descriptor that it owns. -/
def destroyLink (fd : ℕ) : List Effect := [.destroyed fd, .closed fd]

namespace Host

variable (h : Host)

/-- The test of the C loop: the CPU is in the mask and its bit is set. -/
def online (cpu : ℕ) : Bool := h.onlineMask.getD cpu false

/-- Both `perf_event_open` and the attach succeed on the CPU. -/
def monitors (cpu : ℕ) : Bool := (h.opens cpu).any h.attaches

def cpus : List ℕ := List.range h.numCpus

theorem monitors_iff {cpu : ℕ} :
    h.monitors cpu = true ↔ ∃ fd, h.opens cpu = some fd ∧ h.attaches fd = true := by
  unfold monitors
  cases h.opens cpu <;> simp

theorem online_of_opens {cpu fd : ℕ} (ho : h.opens cpu = some fd) : h.online cpu = true := by
  by_contra hn
  rw [h.opens_offline cpu (Bool.not_eq_true _ ▸ hn)] at ho
  exact absurd ho (by simp)

end Host

/-! ### The C program -/

/-- The arrays `pefds` and `links`, and what was done so far. -/
structure Slots where
  pefds : ℕ → Option ℕ
  links : ℕ → Option ℕ
  trace : List Effect

/-- Every descriptor is -1 and every link NULL. -/
def Slots.empty : Slots := ⟨fun _ => none, fun _ => none, []⟩

def Slots.setPefd (s : Slots) (cpu pefd : ℕ) : Slots :=
  { s with pefds := Function.update s.pefds cpu (some pefd), trace := s.trace ++ [.opened pefd] }

def Slots.setLink (s : Slots) (cpu pefd : ℕ) : Slots :=
  { s with links := Function.update s.links cpu (some pefd), trace := s.trace ++ [.linked pefd] }

/-- The loop over the CPUs, and whether it ran to its end; it leaves for the label
`cleanup` otherwise. -/
def setupLoop (h : Host) : List ℕ → Slots → Slots × Bool
  | [], s => (s, true)
  | cpu :: cpus, s =>
    if h.online cpu = false then setupLoop h cpus s
    else
      match h.opens cpu with
      | none => (s, false)
      | some pefd =>
        if h.attaches pefd then setupLoop h cpus ((s.setPefd cpu pefd).setLink cpu pefd)
        else (s.setPefd cpu pefd, false)

/-- The label `cleanup`: all links that are not NULL, then all descriptors that are not -1. -/
def Slots.cleanup (s : Slots) (cpus : List ℕ) : List Effect :=
  (cpus.filterMap s.links).flatMap destroyLink ++ (cpus.filterMap s.pefds).map .closed

/-- `main` of `profile.c`. -/
def mainC (h : Host) : Run :=
  let r := setupLoop h h.cpus Slots.empty
  { setup := r.1.trace, polls := r.2, cleanup := r.1.cleanup h.cpus }

/-! ### The Rust program -/

/-- `init_perf_monitor`: the descriptors opened, and whether every CPU had one. The
results are collected up to the first error. -/
def initPerfMonitor (h : Host) : List ℕ → List ℕ × Bool
  | [] => ([], true)
  | cpu :: cpus =>
    match h.opens cpu with
    | none => ([], false)
    | some fd => (fd :: (initPerfMonitor h cpus).1, (initPerfMonitor h cpus).2)

/-- `attach_perf_event`: the links among the results. -/
def attachPerfEvent (h : Host) (pefds : List ℕ) : List ℕ := pefds.filter h.attaches

/-- `main` of `main.rs`. After an error of `init_perf_monitor` it returns at once, and
plain integers are dropped. Otherwise it closes the descriptors after polling, each
of which is open then, and drops `_links` at its end. -/
def mainRust (h : Host) : Run :=
  let r := initPerfMonitor h h.cpus
  if r.2 then
    { setup := r.1.map .opened ++ (attachPerfEvent h r.1).map .linked
      polls := true
      cleanup := r.1.map .closed ++ (attachPerfEvent h r.1).flatMap destroyLink }
  else { setup := r.1.map .opened, polls := false, cleanup := [] }

/-! ### What the loops do -/

section Loops

variable {h : Host} {l : List ℕ} {s : Slots}

/-- The CPUs whose event got its program before the C loop ended. -/
def served (h : Host) (l : List ℕ) : List ℕ := (l.filter h.online).takeWhile h.monitors

/-- The three things one round of the C loop can do: skip the CPU, serve it and go
on, or leave, with or without a descriptor for it. -/
theorem setupLoop_cons (h : Host) (cpu : ℕ) (l : List ℕ) (s : Slots) :
    (h.online cpu = false ∧ setupLoop h (cpu :: l) s = setupLoop h l s ∧ served h (cpu :: l) = served h l) ∨
    (∃ fd, h.opens cpu = some fd ∧ h.monitors cpu = true ∧
      setupLoop h (cpu :: l) s = setupLoop h l ((s.setPefd cpu fd).setLink cpu fd) ∧
      served h (cpu :: l) = cpu :: served h l) ∨
    (h.online cpu = true ∧ h.monitors cpu = false ∧ served h (cpu :: l) = [] ∧
      (setupLoop h (cpu :: l) s = (s, false) ∨
        ∃ fd, h.opens cpu = some fd ∧ setupLoop h (cpu :: l) s = (s.setPefd cpu fd, false))) := by
  cases hon : h.online cpu with
  | false => simp [setupLoop, served, hon]
  | true =>
    cases ho : h.opens cpu with
    | none => simp [setupLoop, served, Host.monitors, hon, ho]
    | some fd => cases ha : h.attaches fd <;> simp [setupLoop, served, Host.monitors, hon, ho, ha]

theorem setupLoop_ok (h : Host) (l : List ℕ) (s : Slots) :
    (setupLoop h l s).2 = true ↔ ∀ cpu ∈ l, h.online cpu = true → h.monitors cpu = true := by
  induction l generalizing s with
  | nil => simp [setupLoop]
  | cons cpu l ih =>
    rw [List.forall_mem_cons]
    obtain ⟨hoff, he, -⟩ | ⟨fd, -, hm, he, -⟩ | ⟨hon, hm, -, he⟩ := setupLoop_cons h cpu l s
    · rw [he, ih]
      simp [hoff]
    · rw [he, ih]
      simp [hm]
    · have hout : (setupLoop h (cpu :: l) s).2 = false := by
        rcases he with he | ⟨fd, -, he⟩ <;> rw [he]
      simp [hout, hon, hm]

theorem linked_setupLoop (h : Host) (l : List ℕ) (s : Slots) (fd : ℕ) :
    .linked fd ∈ (setupLoop h l s).1.trace ↔
      .linked fd ∈ s.trace ∨ ∃ cpu ∈ served h l, h.opens cpu = some fd := by
  induction l generalizing s with
  | nil => simp [setupLoop, served]
  | cons cpu l ih =>
    obtain ⟨-, he, hs⟩ | ⟨fd', ho, -, he, hs⟩ | ⟨-, -, hs, he⟩ := setupLoop_cons h cpu l s
    · rw [he, hs, ih]
    · rw [he, hs, ih]
      simp [Slots.setLink, Slots.setPefd, ho, or_assoc, eq_comm]
    · rw [hs]
      rcases he with he | ⟨fd', -, he⟩ <;> simp [he, Slots.setPefd]

theorem initPerfMonitor_ok (h : Host) (l : List ℕ) :
    (initPerfMonitor h l).2 = true ↔ ∀ cpu ∈ l, (h.opens cpu).isSome = true := by
  induction l with
  | nil => simp [initPerfMonitor]
  | cons cpu l ih =>
    rw [List.forall_mem_cons, ← ih]
    cases ho : h.opens cpu <;> simp [initPerfMonitor, ho]

/-- The descriptors are those of the CPUs before the first that fails. -/
theorem initPerfMonitor_fst (h : Host) (l : List ℕ) :
    (initPerfMonitor h l).1 = (l.takeWhile fun cpu => (h.opens cpu).isSome).filterMap h.opens := by
  induction l with
  | nil => rfl
  | cons cpu l ih => cases ho : h.opens cpu <;> simp [initPerfMonitor, ho, ih]

theorem mem_initPerfMonitor (hl : (initPerfMonitor h l).2 = true) (fd : ℕ) :
    fd ∈ (initPerfMonitor h l).1 ↔ ∃ cpu ∈ l, h.opens cpu = some fd := by
  have hall : (l.takeWhile fun cpu => (h.opens cpu).isSome) = l :=
    List.takeWhile_eq_self_iff.mpr ((initPerfMonitor_ok h l).mp hl)
  rw [initPerfMonitor_fst, hall, List.mem_filterMap]

end Loops

/-! ### Sampling the CPUs that are online -/

/-- The program is attached on a CPU while `main` polls. -/
def Attached (h : Host) (r : Run) (cpu : ℕ) : Prop := ∃ fd, h.opens cpu = some fd ∧ .linked fd ∈ r.setup

/-- The possible CPUs that are online. As in both programs, the possible CPUs are taken to be
the numbers below how many there are. -/
def OnlineCpu (h : Host) (cpu : ℕ) : Prop := cpu ∈ h.cpus ∧ h.online cpu = true

/-- All or nothing: `main` polls when every online CPU can be monitored and only
then, and the CPUs it samples are then the ones online. -/
structure SamplesOnline (h : Host) (r : Run) : Prop where
  polls : r.polls = true ↔ ∀ cpu, OnlineCpu h cpu → h.monitors cpu = true
  attached : r.polls = true → ∀ cpu, Attached h r cpu ↔ OnlineCpu h cpu

theorem served_of_monitors {h : Host} {l : List ℕ}
    (hm : ∀ cpu ∈ l, h.online cpu = true → h.monitors cpu = true) : served h l = l.filter h.online := by
  apply List.takeWhile_eq_self_iff.mpr
  intro cpu hc
  obtain ⟨hl, hon⟩ := List.mem_filter.mp hc
  exact hm cpu hl hon

theorem mainC_samplesOnline (h : Host) : SamplesOnline h (mainC h) := by
  have hpolls : (mainC h).polls = true ↔ ∀ cpu, OnlineCpu h cpu → h.monitors cpu = true := by
    unfold mainC
    rw [setupLoop_ok]
    exact ⟨fun hm cpu hc => hm cpu hc.1 hc.2, fun hm cpu hc hon => hm cpu ⟨hc, hon⟩⟩
  refine ⟨hpolls, fun hp cpu => ?_⟩
  have hm := hpolls.mp hp
  have hserved : served h h.cpus = h.cpus.filter h.online := served_of_monitors fun cpu hc hon => hm cpu ⟨hc, hon⟩
  have hlinked : ∀ fd, .linked fd ∈ (mainC h).setup ↔ ∃ c, OnlineCpu h c ∧ h.opens c = some fd := by
    intro fd
    unfold mainC
    rw [linked_setupLoop, hserved]
    simp [Slots.empty, OnlineCpu, and_assoc]
  constructor
  · rintro ⟨fd, ho, hl⟩
    obtain ⟨c, hc, ho'⟩ := (hlinked fd).mp hl
    rwa [h.opens_inj cpu c fd ho ho']
  · intro hon
    obtain ⟨fd, ho, -⟩ := h.monitors_iff.mp (hm cpu hon)
    exact ⟨fd, ho, (hlinked fd).mpr ⟨cpu, hon, ho⟩⟩

theorem mainRust_polls (h : Host) : (mainRust h).polls = true ↔ ∀ cpu ∈ h.cpus, (h.opens cpu).isSome = true := by
  rw [← initPerfMonitor_ok]
  simp only [mainRust]
  split_ifs with hr <;> simp [hr]

/-- The Rust program samples the CPUs whose attach succeeded. -/
theorem mainRust_attached {h : Host} (hp : (mainRust h).polls = true) (cpu : ℕ) :
    Attached h (mainRust h) cpu ↔ cpu ∈ h.cpus ∧ h.monitors cpu = true := by
  have hr := (initPerfMonitor_ok h h.cpus).mpr ((mainRust_polls h).mp hp)
  have hlinked : ∀ fd, .linked fd ∈ (mainRust h).setup ↔
      (∃ c ∈ h.cpus, h.opens c = some fd) ∧ h.attaches fd = true := by
    intro fd
    simp only [mainRust, if_pos hr]
    simp [attachPerfEvent, mem_initPerfMonitor hr]
  rw [Attached, h.monitors_iff]
  constructor
  · rintro ⟨fd, ho, hl⟩
    obtain ⟨⟨c, hc, ho'⟩, ha⟩ := (hlinked fd).mp hl
    exact ⟨h.opens_inj cpu c fd ho ho' ▸ hc, fd, ho, ha⟩
  · rintro ⟨hc, fd, ho, ha⟩
    exact ⟨fd, ho, (hlinked fd).mpr ⟨⟨cpu, hc, ho⟩, ha⟩⟩

/-- The hosts on which the Rust program does as the C program: all CPUs are online,
and every attach succeeds should every event open; or some CPU is offline, and some
online one cannot be monitored either. -/
def RustAgrees (h : Host) : Prop :=
  (∀ cpu ∈ h.cpus, h.online cpu = true) ∧
      ((∀ cpu ∈ h.cpus, (h.opens cpu).isSome = true) → ∀ cpu ∈ h.cpus, h.monitors cpu = true) ∨
    (∃ cpu ∈ h.cpus, h.online cpu = false) ∧ ∃ cpu, OnlineCpu h cpu ∧ h.monitors cpu = false

theorem opens_of_monitors {h : Host} {cpu : ℕ} (hm : h.monitors cpu = true) : (h.opens cpu).isSome = true := by
  obtain ⟨fd, ho, -⟩ := h.monitors_iff.mp hm
  rw [ho]
  rfl

theorem mainRust_of_online {h : Host} (hon : ∀ cpu ∈ h.cpus, h.online cpu = true) :
    SamplesOnline h (mainRust h) ↔
      ((∀ cpu ∈ h.cpus, (h.opens cpu).isSome = true) → ∀ cpu ∈ h.cpus, h.monitors cpu = true) := by
  have hall : (∀ cpu, OnlineCpu h cpu → h.monitors cpu = true) ↔ ∀ cpu ∈ h.cpus, h.monitors cpu = true :=
    ⟨fun hm cpu hc => hm cpu ⟨hc, hon cpu hc⟩, fun hm cpu hc => hm cpu hc.1⟩
  constructor
  · intro hs ho
    exact hall.mp (hs.polls.mp ((mainRust_polls h).mpr ho))
  · intro hm
    refine ⟨?_, fun hp cpu => ?_⟩
    · rw [mainRust_polls, hall]
      exact ⟨hm, fun hm cpu hc => opens_of_monitors (hm cpu hc)⟩
    · have hmon := hm ((mainRust_polls h).mp hp)
      rw [mainRust_attached hp]
      exact ⟨fun hc => ⟨hc.1, hon cpu hc.1⟩, fun hc => ⟨hc.1, hmon cpu hc.1⟩⟩

theorem mainRust_of_offline {h : Host} {cpu : ℕ} (hc : cpu ∈ h.cpus) (hoff : h.online cpu = false) :
    SamplesOnline h (mainRust h) ↔ ∃ cpu, OnlineCpu h cpu ∧ h.monitors cpu = false := by
  -- the event of the offline CPU does not open, so the program never polls
  have hp : (mainRust h).polls ≠ true := by
    rw [ne_eq, mainRust_polls]
    intro ho
    obtain ⟨fd, hfd⟩ := Option.isSome_iff_exists.mp (ho cpu hc)
    rw [h.online_of_opens hfd] at hoff
    exact absurd hoff (by decide)
  constructor
  · intro hs
    by_contra hne
    push Not at hne
    exact hp (hs.polls.mpr fun c hon => by simpa using hne c hon)
  · rintro ⟨c, hon, hm⟩
    refine ⟨⟨fun h' => absurd h' hp, fun hall => ?_⟩, fun h' => absurd h' hp⟩
    rw [hall c hon] at hm
    exact absurd hm (by decide)

theorem mainRust_samplesOnline_iff (h : Host) : SamplesOnline h (mainRust h) ↔ RustAgrees h := by
  by_cases hon : ∀ cpu ∈ h.cpus, h.online cpu = true
  · rw [mainRust_of_online hon, RustAgrees]
    constructor
    · exact fun hm => Or.inl ⟨hon, hm⟩
    · rintro (⟨-, hm⟩ | ⟨⟨cpu, hc, hoff⟩, -⟩)
      · exact hm
      · rw [hon cpu hc] at hoff
        exact absurd hoff (by decide)
  · push Not at hon
    obtain ⟨cpu, hc, hoff⟩ := hon
    have hoff : h.online cpu = false := by simpa using hoff
    rw [mainRust_of_offline hc hoff, RustAgrees]
    constructor
    · exact fun hm => Or.inr ⟨⟨cpu, hc, hoff⟩, hm⟩
    · rintro (⟨hon, -⟩ | ⟨-, hm⟩)
      · rw [hon cpu hc] at hoff
        exact absurd hoff (by decide)
      · exact hm

/-- Both programs sample exactly the online CPUs, all or nothing, on the hosts of
`RustAgrees` and on no other; the C program does so on every host. -/
theorem bothSample_iff (h : Host) :
    SamplesOnline h (mainC h) ∧ SamplesOnline h (mainRust h) ↔ RustAgrees h := by
  rw [mainRust_samplesOnline_iff]
  exact and_iff_right (mainC_samplesOnline h)

/-- A host on which CPU 0 is online, and no other of its CPUs. -/
def cpuZero (numCpus : ℕ) (hpos : 0 < numCpus) (attaches : Bool) : Host where
  numCpus := numCpus
  onlineMask := [true]
  opens cpu := if cpu = 0 then some 3 else none
  attaches _ := attaches
  numCpus_pos := hpos
  opens_offline cpu hoff := by
    cases cpu with
    | zero => exact absurd hoff (by decide)
    | succ cpu => rfl
  opens_inj cpu cpu' fd h1 h2 := by
    split_ifs at h1 h2 with h3 h4
    rw [h3, h4]

theorem bothSample_cpuZero :
    SamplesOnline (cpuZero 1 (by decide) true) (mainC (cpuZero 1 (by decide) true)) ∧
      SamplesOnline (cpuZero 1 (by decide) true) (mainRust (cpuZero 1 (by decide) true)) :=
  (bothSample_iff _).mpr (Or.inl ⟨by decide, by decide⟩)

/-- With a second CPU that is offline the C program samples CPU 0; the Rust program
gives up, though every online CPU can be monitored. -/
theorem bothSample_fails :
    ¬ (SamplesOnline (cpuZero 2 (by decide) true) (mainC (cpuZero 2 (by decide) true)) ∧
      SamplesOnline (cpuZero 2 (by decide) true) (mainRust (cpuZero 2 (by decide) true))) := by
  rintro ⟨hc, hr⟩
  have hpolls : (mainC (cpuZero 2 (by decide) true)).polls = true := by decide
  have hquits : (mainRust (cpuZero 2 (by decide) true)).polls ≠ true := by decide
  exact hquits (hr.polls.mpr (hc.polls.mp hpolls))

end LibbpfBootstrap.Profile
