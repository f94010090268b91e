import LibbpfBootstrap.Profile.Setup
import Mathlib.Data.List.Count

/-! Who closes a perf event? A link owns the descriptor it was made from and closes
it when it goes. Both programs close their descriptors besides, so a descriptor with
a link is closed twice; and the Rust program drops the descriptors it has when an
event fails to open, so these are never closed. -/

namespace LibbpfBootstrap.Profile

/-- All effects of a run. -/
def Run.trace (r : Run) : List Effect := r.setup ++ r.cleanup

/-- Every descriptor is closed exactly once, and every link destroyed exactly once. -/
structure ReleasesOnce (r : Run) : Prop where
  closed : ∀ fd, .opened fd ∈ r.trace → r.trace.count (.closed fd) = 1
  destroyed : ∀ fd, .linked fd ∈ r.trace → r.trace.count (.destroyed fd) = 1

/-! ### Counting releases -/

/-- An effect of the set-up, which acquires something. -/
def Effect.Acquires : Effect → Prop
  | .opened _ => True
  | .linked _ => True
  | .destroyed _ => False
  | .closed _ => False

theorem count_map_closed (fds : List ℕ) (fd : ℕ) : (fds.map Effect.closed).count (.closed fd) = fds.count fd :=
  List.count_map_of_injective _ _ (fun _ _ he => Effect.closed.inj he) _

theorem count_destroyLinks (links : List ℕ) (fd : ℕ) :
    (links.flatMap destroyLink).count (.closed fd) = links.count fd := by
  induction links with
  | nil => rfl
  | cons l links ih => simp [destroyLink, List.count_cons, ih]

theorem count_of_acquires {tr : List Effect} (htr : ∀ e ∈ tr, e.Acquires) (fd : ℕ) :
    tr.count (.closed fd) = 0 := List.count_eq_zero_of_not_mem fun hm => htr _ hm

theorem acquires_concat {tr : List Effect} (htr : ∀ e ∈ tr, e.Acquires) {x : Effect} (hx : x.Acquires) :
    ∀ e ∈ tr ++ [x], e.Acquires := by
  intro e he
  rcases List.mem_append.mp he with he | he
  · exact htr e he
  · rwa [List.mem_singleton.mp he]

/-- What a run does that releases its links, and its descriptors besides. -/
structure ReleasesBoth (r : Run) (fds links : List ℕ) : Prop where
  acquires : ∀ e ∈ r.setup, e.Acquires
  opened : ∀ fd, .opened fd ∈ r.setup ↔ fd ∈ fds
  linked : ∀ fd, .linked fd ∈ r.setup ↔ fd ∈ links
  nodup : fds.Nodup
  owned : ∀ fd ∈ links, fd ∈ fds
  releases : r.cleanup.Perm (links.flatMap destroyLink ++ fds.map .closed)

/-- Such a run closes a descriptor twice as soon as it has a link. -/
theorem ReleasesBoth.releasesOnce_iff {r : Run} {fds links : List ℕ} (hr : ReleasesBoth r fds links) :
    ReleasesOnce r ↔ links = [] := by
  have hopened : ∀ fd, .opened fd ∈ r.trace ↔ fd ∈ fds := by
    intro fd
    simp [Run.trace, hr.opened, hr.releases.mem_iff, destroyLink]
  have hlinked : ∀ fd, .linked fd ∈ r.trace ↔ fd ∈ links := by
    intro fd
    simp [Run.trace, hr.linked, hr.releases.mem_iff, destroyLink]
  have hclosed : ∀ fd, r.trace.count (.closed fd) = links.count fd + fds.count fd := by
    intro fd
    rw [Run.trace, List.count_append, count_of_acquires hr.acquires, hr.releases.count_eq, List.count_append,
      count_destroyLinks, count_map_closed, Nat.zero_add]
  constructor
  · intro hone
    apply List.eq_nil_iff_forall_not_mem.mpr
    intro fd hfd
    have hone := hone.closed fd ((hopened fd).mpr (hr.owned fd hfd))
    have hpos := List.count_pos_iff.mpr hfd
    rw [hclosed, List.count_eq_one_of_mem hr.nodup (hr.owned fd hfd)] at hone
    omega
  · rintro rfl
    constructor
    · intro fd hfd
      rw [hclosed, List.count_nil, Nat.zero_add, List.count_eq_one_of_mem hr.nodup ((hopened fd).mp hfd)]
    · intro fd hfd
      exact absurd ((hlinked fd).mp hfd) List.not_mem_nil

/-! ### The C program -/

/-- The arrays hold what was acquired: a descriptor of its CPU in each slot, and a
link only over a descriptor. -/
structure Owned (h : Host) (s : Slots) : Prop where
  acquires : ∀ e ∈ s.trace, e.Acquires
  opened : ∀ fd, .opened fd ∈ s.trace ↔ fd ∈ h.cpus.filterMap s.pefds
  linked : ∀ fd, .linked fd ∈ s.trace ↔ fd ∈ h.cpus.filterMap s.links
  pefds : ∀ cpu fd, s.pefds cpu = some fd → h.opens cpu = some fd
  links : ∀ cpu fd, s.links cpu = some fd → s.pefds cpu = some fd

section Owned

variable {h : Host} {s : Slots} {cpu fd : ℕ}

/-- A free slot that is set adds its value to those of the array. -/
theorem mem_filterMap_update {l : List ℕ} {f : ℕ → Option ℕ} (hc : cpu ∈ l) (hfree : f cpu = none) (x : ℕ) :
    x ∈ l.filterMap (Function.update f cpu (some fd)) ↔ x ∈ l.filterMap f ∨ x = fd := by
  simp only [List.mem_filterMap]
  constructor
  · rintro ⟨c, hcl, hx⟩
    by_cases he : c = cpu
    · rw [he, Function.update_self] at hx
      exact Or.inr (Option.some.inj hx).symm
    · rw [Function.update_of_ne he] at hx
      exact Or.inl ⟨c, hcl, hx⟩
  · rintro (⟨c, hcl, hx⟩ | rfl)
    · have he : c ≠ cpu := fun he => by rw [he, hfree] at hx; exact absurd hx (by simp)
      exact ⟨c, hcl, by rw [Function.update_of_ne he, hx]⟩
    · exact ⟨cpu, hc, by rw [Function.update_self]⟩

theorem Owned.setPefd (hs : Owned h s) (hc : cpu ∈ h.cpus) (hfree : s.pefds cpu = none)
    (ho : h.opens cpu = some fd) : Owned h (s.setPefd cpu fd) where
  acquires := acquires_concat hs.acquires trivial
  opened x := by
    simp only [Slots.setPefd, mem_filterMap_update hc hfree, ← hs.opened]
    simp
  linked x := by
    simp only [Slots.setPefd, ← hs.linked]
    simp
  pefds c x hx := by
    by_cases he : c = cpu
    · subst he
      simp only [Slots.setPefd, Function.update_self] at hx
      rw [ho, hx]
    · simp only [Slots.setPefd, Function.update_of_ne he] at hx
      exact hs.pefds c x hx
  links c x hx := by
    have hp := hs.links c x hx
    have he : c ≠ cpu := fun he => by rw [he, hfree] at hp; exact absurd hp (by simp)
    simp only [Slots.setPefd, Function.update_of_ne he, hp]

theorem Owned.setLink (hs : Owned h s) (hc : cpu ∈ h.cpus) (hfree : s.links cpu = none)
    (hp : s.pefds cpu = some fd) : Owned h (s.setLink cpu fd) where
  acquires := acquires_concat hs.acquires trivial
  opened x := by
    simp only [Slots.setLink, ← hs.opened]
    simp
  linked x := by
    simp only [Slots.setLink, mem_filterMap_update hc hfree, ← hs.linked]
    simp
  pefds := hs.pefds
  links c x hx := by
    by_cases he : c = cpu
    · subst he
      simp only [Slots.setLink, Function.update_self] at hx
      exact hp.trans hx
    · simp only [Slots.setLink, Function.update_of_ne he] at hx
      exact hs.links c x hx

theorem owned_empty (h : Host) : Owned h Slots.empty where
  acquires e he := absurd he List.not_mem_nil
  opened fd := by simp [Slots.empty]
  linked fd := by simp [Slots.empty]
  pefds cpu fd hx := absurd hx (by simp [Slots.empty])
  links cpu fd hx := absurd hx (by simp [Slots.empty])

/-- The C loop keeps the arrays right, as it visits every slot once and finds it free. -/
theorem owned_setupLoop (l : List ℕ) (hl : l.Nodup) (hcpus : ∀ c ∈ l, c ∈ h.cpus)
    (hfree : ∀ c ∈ l, s.pefds c = none) (hs : Owned h s) : Owned h (setupLoop h l s).1 := by
  induction l generalizing s with
  | nil => exact hs
  | cons cpu l ih =>
    obtain ⟨hnot, hl⟩ := List.nodup_cons.mp hl
    rw [List.forall_mem_cons] at hcpus hfree
    have hnolink : s.links cpu = none := by
      cases hk : s.links cpu with
      | none => rfl
      | some fd => rw [hs.links cpu fd hk] at hfree; exact absurd hfree.1 (by simp)
    obtain ⟨-, he, -⟩ | ⟨fd, ho, -, he, -⟩ | ⟨-, -, -, he | ⟨fd, ho, he⟩⟩ := setupLoop_cons h cpu l s
    · rw [he]
      exact ih hl hcpus.2 hfree.2 hs
    · rw [he]
      have hp := hs.setPefd hcpus.1 hfree.1 ho
      apply ih hl hcpus.2 _ (hp.setLink hcpus.1 hnolink (Function.update_self _ _ _))
      intro c hc
      have hne : c ≠ cpu := fun hce => hnot (hce ▸ hc)
      exact (Function.update_of_ne hne _ _).trans (hfree.2 c hc)
    · rw [he]
      exact hs
    · rw [he]
      exact hs.setPefd hcpus.1 hfree.1 ho

end Owned

theorem owned_mainC (h : Host) : Owned h (setupLoop h h.cpus Slots.empty).1 :=
  owned_setupLoop h.cpus List.nodup_range (fun _ hc => hc) (fun _ _ => rfl) (owned_empty h)

theorem mainC_releasesBoth (h : Host) :
    ReleasesBoth (mainC h) (h.cpus.filterMap (setupLoop h h.cpus Slots.empty).1.pefds)
      (h.cpus.filterMap (setupLoop h h.cpus Slots.empty).1.links) where
  acquires := (owned_mainC h).acquires
  opened := (owned_mainC h).opened
  linked := (owned_mainC h).linked
  nodup := List.Nodup.filterMap
    (fun c c' fd hc hc' => h.opens_inj c c' fd ((owned_mainC h).pefds c fd hc) ((owned_mainC h).pefds c' fd hc'))
    List.nodup_range
  owned fd hfd := by
    obtain ⟨cpu, hc, hk⟩ := List.mem_filterMap.mp hfd
    exact List.mem_filterMap.mpr ⟨cpu, hc, (owned_mainC h).links cpu fd hk⟩
  releases := List.Perm.refl _

/-- The C program attaches nothing: no CPU is online, or the first one that is cannot
be monitored. -/
def NoneServed (h : Host) : Prop := ∀ cpu, h.cpus.find? h.online = some cpu → h.monitors cpu = false

theorem served_eq_nil_iff (h : Host) : served h h.cpus = [] ↔ NoneServed h := by
  unfold served NoneServed
  rw [← List.head?_filter]
  cases h.cpus.filter h.online with
  | nil => simp
  | cons cpu l => cases hm : h.monitors cpu <;> simp [hm]

theorem mainC_releasesOnce_iff (h : Host) : ReleasesOnce (mainC h) ↔ NoneServed h := by
  rw [(mainC_releasesBoth h).releasesOnce_iff, ← served_eq_nil_iff, List.eq_nil_iff_forall_not_mem]
  constructor
  · intro hno
    apply List.eq_nil_iff_forall_not_mem.mpr
    intro cpu hc
    obtain ⟨fd, ho, -⟩ := h.monitors_iff.mp (List.mem_takeWhile_imp hc)
    exact hno fd (((owned_mainC h).linked fd).mp ((linked_setupLoop h _ _ fd).mpr (Or.inr ⟨cpu, hc, ho⟩)))
  · intro hs fd hfd
    rcases (linked_setupLoop h _ _ fd).mp (((owned_mainC h).linked fd).mpr hfd) with hl | ⟨cpu, hc, -⟩
    · exact List.not_mem_nil hl
    · rw [hs] at hc
      exact List.not_mem_nil hc

/-! ### The Rust program -/

theorem nodup_initPerfMonitor (h : Host) : (initPerfMonitor h h.cpus).1.Nodup := by
  rw [initPerfMonitor_fst]
  exact List.Nodup.filterMap (fun c c' fd hc hc' => h.opens_inj c c' fd hc hc')
    (List.nodup_range.sublist (List.takeWhile_sublist _))

theorem mainRust_releasesBoth {h : Host} (hr : (initPerfMonitor h h.cpus).2 = true) :
    ReleasesBoth (mainRust h) (initPerfMonitor h h.cpus).1 (attachPerfEvent h (initPerfMonitor h h.cpus).1) := by
  simp only [mainRust, if_pos hr]
  constructor
  · intro e he
    rcases List.mem_append.mp he with he | he <;> obtain ⟨fd, -, rfl⟩ := List.mem_map.mp he <;> trivial
  · intro fd
    simp
  · intro fd
    simp
  · exact nodup_initPerfMonitor h
  · intro fd hfd
    exact (List.mem_filter.mp hfd).1
  · exact List.perm_append_comm

/-- Nothing is opened, or every event is opened and none gets its program. -/
def RustReleases (h : Host) : Prop :=
  h.opens 0 = none ∨
    (∀ cpu ∈ h.cpus, (h.opens cpu).isSome = true) ∧ ∀ cpu ∈ h.cpus, h.monitors cpu = false

theorem attachPerfEvent_eq_nil_iff {h : Host} (hr : (initPerfMonitor h h.cpus).2 = true) :
    attachPerfEvent h (initPerfMonitor h h.cpus).1 = [] ↔ ∀ cpu ∈ h.cpus, h.monitors cpu = false := by
  unfold attachPerfEvent
  rw [List.filter_eq_nil_iff]
  constructor
  · intro hno cpu hc
    by_contra hm
    obtain ⟨fd, ho, ha⟩ := h.monitors_iff.mp (by simpa using hm)
    exact hno fd ((mem_initPerfMonitor hr fd).mpr ⟨cpu, hc, ho⟩) ha
  · intro hm fd hfd ha
    obtain ⟨cpu, hc, ho⟩ := (mem_initPerfMonitor hr fd).mp hfd
    have hmon := h.monitors_iff.mpr ⟨fd, ho, ha⟩
    rw [hm cpu hc] at hmon
    exact absurd hmon (by decide)

/-- After an error nothing is closed, so nothing may have been opened. -/
theorem mainRust_of_error {h : Host} (hr : (initPerfMonitor h h.cpus).2 = false) :
    ReleasesOnce (mainRust h) ↔ (initPerfMonitor h h.cpus).1 = [] := by
  have htrace : (mainRust h).trace = (initPerfMonitor h h.cpus).1.map .opened := by
    simp [mainRust, Run.trace, hr]
  constructor
  · intro hone
    apply List.eq_nil_iff_forall_not_mem.mpr
    intro fd hfd
    have hc := hone.closed fd (by rw [htrace]; exact List.mem_map_of_mem hfd)
    rw [htrace, count_of_acquires] at hc
    · exact absurd hc (by decide)
    · intro e he
      obtain ⟨x, -, rfl⟩ := List.mem_map.mp he
      trivial
  · intro hnil
    rw [hnil] at htrace
    constructor <;> intro fd hfd <;> rw [htrace] at hfd <;> exact absurd hfd List.not_mem_nil

theorem initPerfMonitor_eq_nil_iff (h : Host) : (initPerfMonitor h h.cpus).1 = [] ↔ h.opens 0 = none := by
  obtain ⟨n, hn⟩ := Nat.exists_eq_succ_of_ne_zero h.numCpus_pos.ne'
  rw [Host.cpus, hn, List.range_succ_eq_map]
  cases ho : h.opens 0 <;> simp [initPerfMonitor, ho]

theorem mainRust_releasesOnce_iff (h : Host) : ReleasesOnce (mainRust h) ↔ RustReleases h := by
  have hzero : 0 ∈ h.cpus := List.mem_range.mpr h.numCpus_pos
  unfold RustReleases
  cases hr : (initPerfMonitor h h.cpus).2 with
  | true =>
    have hall := (initPerfMonitor_ok h h.cpus).mp hr
    rw [(mainRust_releasesBoth hr).releasesOnce_iff, attachPerfEvent_eq_nil_iff hr]
    have h0 : h.opens 0 ≠ none := fun hn => by simpa [hn] using hall 0 hzero
    exact ⟨fun hm => Or.inr ⟨hall, hm⟩, fun ho => (ho.resolve_left h0).2⟩
  | false =>
    rw [mainRust_of_error hr, initPerfMonitor_eq_nil_iff]
    have hnot : ¬ ∀ cpu ∈ h.cpus, (h.opens cpu).isSome = true := by
      rw [← initPerfMonitor_ok, hr]
      decide
    exact ⟨Or.inl, fun ho => ho.resolve_right fun hp => hnot hp.1⟩

/-- Both programs release everything exactly once on the hosts on which neither
attaches a program and the Rust program leaves nothing open, and on no other. -/
theorem bothRelease_iff (h : Host) :
    ReleasesOnce (mainC h) ∧ ReleasesOnce (mainRust h) ↔ NoneServed h ∧ RustReleases h := by
  rw [mainC_releasesOnce_iff, mainRust_releasesOnce_iff]

/-- Where the attach fails, the one descriptor is closed once. -/
theorem bothRelease_cpuZero :
    ReleasesOnce (mainC (cpuZero 1 (by decide) false)) ∧ ReleasesOnce (mainRust (cpuZero 1 (by decide) false)) := by
  have hm : ∀ cpu, (cpuZero 1 (by decide) false).monitors cpu = false := by
    intro cpu
    simp [Host.monitors, cpuZero]
  exact (bothRelease_iff _).mpr ⟨fun cpu _ => hm cpu, Or.inr ⟨by decide, fun cpu _ => hm cpu⟩⟩

/-- Where nothing fails, both programs close the one descriptor twice. -/
theorem bothRelease_fails :
    ¬ (ReleasesOnce (mainC (cpuZero 1 (by decide) true)) ∧ ReleasesOnce (mainRust (cpuZero 1 (by decide) true))) ∧
      (mainC (cpuZero 1 (by decide) true)).trace.count (.closed 3) = 2 ∧
      (mainRust (cpuZero 1 (by decide) true)).trace.count (.closed 3) = 2 := by
  refine ⟨fun hone => ?_, by decide, by decide⟩
  exact absurd (hone.1.closed 3 (by decide)) (by decide)

end LibbpfBootstrap.Profile
