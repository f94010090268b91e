import LibbpfBootstrap.Bootstrap.History

/-! The life of a process with several threads. `sched_process_exit` fires once
for each thread, and `handle_exit` reports the exit of the leader and ignores
the others. The report is therefore one of the process exactly when the leader
is the last of its threads to exit. -/

namespace LibbpfBootstrap.Bootstrap

open Kernel Kernel.Runs Libc

/-- The thread of `pid` that a firing ends. -/
def threadExitOf (pid : BitVec 32) : Firing → Option (BitVec 32)
  | .exec _ => none
  | .exit f => if pidOf f.pidTgid = pid then some (tidOf f.pidTgid) else none

/-- The threads of `pid` that end along a list of firings, in order. -/
def threadExits (pid : BitVec 32) (fs : List Firing) : List (BitVec 32) := fs.filterMap (threadExitOf pid)

/-- A process from an exec that the map takes up to the exit of all its threads,
in any order, among the firings of any other processes. A thread may have the id of
one that has exited, but not that of the leader. -/
structure Life where
  pid : BitVec 32
  execStart : ExecStart
  exec : Exec
  rest : List Firing
  exec_pid : pidOf exec.pidTgid = pid
  accepted : pid ∈ execStart ∨ exec.admitted = true
  no_further_exec : ∀ f ∈ rest, execOf pid f = none
  leader_exits : (threadExits pid rest).count pid = 1
  reserved : ∀ f ∈ rest, f.reserved = true
  clock : Allowed ClockOk (.exec exec :: rest)

/-- The exit records of `pid`. -/
def exitsOf (pid : BitVec 32) (es : List Event) : List Event := es.filter fun e => e.exitEvent && e.pid == pid

/-- The map when the firings `past` of a life have followed the exec. -/
def Life.after (l : Life) (past : List Firing) : ExecStart :=
  final (fire 0#64) l.execStart (.exec l.exec :: past)

/-- Exactly one exit record is submitted for the process, at the exit of its last
thread, with the time since the exec. -/
def Life.Reported (l : Life) : Prop :=
  ∃ past x later e, l.rest = past ++ .exit x :: later ∧
    pidOf x.pidTgid = l.pid ∧ threadExits l.pid later = [] ∧
    exitsOf l.pid (outputs (fire 0#64) l.execStart (.exec l.exec :: past)) = [] ∧
    exitsOf l.pid (fire 0#64 (l.after past) (.exit x)).2 = [e] ∧
    exitsOf l.pid (outputs (fire 0#64) (l.after (past ++ [.exit x])) later) = [] ∧
    e.durationNs.toNat = x.ts.toNat - l.exec.ts.toNat

/-! ### What one firing reports of a process -/

/-- Only a leader's exit reports the exit of a process. -/
theorem exitsOf_fire {pid : BitVec 32} {f : Firing} (h : leaderExitOf pid f = false) (m : BitVec 64) (s : ExecStart) :
    exitsOf pid (fire m s f).2 = [] := by
  refine List.filter_eq_nil_iff.mpr fun e he => ?_
  cases f with
  | exec f =>
    obtain ⟨-, e0, rfl⟩ := mem_handleExec he
    simp [Exec.fill]
  | exit f =>
    obtain ⟨hl, e0, hfill⟩ := mem_handleExit he
    have hne : pidOf f.pidTgid ≠ pid := by simpa [leaderExitOf, hl] using h
    rcases hfill with ⟨t, -, -, rfl⟩ | ⟨-, -, rfl⟩ <;> simp [Exit.fill, hne]

theorem exitsOf_outputs {pid : BitVec 32} {fs : List Firing} (h : ∀ f ∈ fs, leaderExitOf pid f = false)
    (m : BitVec 64) (s : ExecStart) : exitsOf pid (outputs (fire m) s fs) = [] := by
  refine List.filter_eq_nil_iff.mpr fun e he => ?_
  obtain ⟨past, f, rest, rfl, hf⟩ := (mem_outputs (fire m) s fs e).mp he
  exact List.filter_eq_nil_iff.mp (exitsOf_fire (h f (by simp)) m _) e hf

/-- Only an exec or a leader's exit of a process moves its entry. -/
theorem lookup_fire {pid : BitVec 32} {f : Firing} (hx : execOf pid f = none) (hl : leaderExitOf pid f = false)
    (m : BitVec 64) (s : ExecStart) : (fire m s f).1.lookup pid = s.lookup pid := by
  cases f with
  | exec f =>
    have hne : pid ≠ pidOf f.pidTgid := by
      rintro rfl
      simp [execOf] at hx
    rw [fire, handleExec_fst, BpfMap.lookup_updateElem_ne hne]
  | exit f =>
    rw [fire]
    cases hf : f.leader with
    | false => rw [handleExit_of_not_leader hf]
    | true =>
      have hne : pid ≠ pidOf f.pidTgid := by
        rintro rfl
        simp [leaderExitOf, hf] at hl
      rw [handleExit_fst m s f hf, Finmap.lookup_erase_ne hne]

theorem lookup_final {pid : BitVec 32} {fs : List Firing}
    (h : ∀ f ∈ fs, execOf pid f = none ∧ leaderExitOf pid f = false) (m : BitVec 64) (s : ExecStart) :
    (final (fire m) s fs).lookup pid = s.lookup pid :=
  final_view (fun s => s.lookup pid) (fun s f hf => lookup_fire (h f hf).1 (h f hf).2 m s) s

/-! ### Leaders among the threads -/

theorem threadExitOf_leader {pid : BitVec 32} {f : Firing} :
    leaderExitOf pid f = true ↔ threadExitOf pid f = some pid := by
  cases f with
  | exec f => simp [leaderExitOf, threadExitOf]
  | exit f =>
    simp only [leaderExitOf, threadExitOf, Exit.leader, Bool.and_eq_true, beq_iff_eq]
    constructor
    · rintro ⟨hl, rfl⟩
      rw [if_pos rfl, hl]
    · intro h
      split_ifs at h with hp
      exact ⟨hp.trans (Option.some.inj h).symm, hp⟩

theorem not_leaderExitOf {pid : BitVec 32} {fs : List Firing} (h : pid ∉ threadExits pid fs) :
    ∀ f ∈ fs, leaderExitOf pid f = false := by
  intro f hf
  by_contra hl
  exact h (List.mem_filterMap.mpr ⟨f, hf, threadExitOf_leader.mp (by simpa using hl)⟩)

/-- The last thread to exit, and the firings before and after it. -/
theorem split_of_getLast? {pid tid : BitVec 32} {fs : List Firing} (h : (threadExits pid fs).getLast? = some tid) :
    ∃ past f later, fs = past ++ f :: later ∧ threadExitOf pid f = some tid ∧ threadExits pid later = [] := by
  obtain ⟨tids, ht⟩ := List.getLast?_eq_some_iff.mp h
  obtain ⟨before, rest, rfl, -, hrest⟩ := List.filterMap_eq_append_iff.mp ht
  obtain ⟨between, f, later, rfl, -, hf, hlater⟩ := List.filterMap_eq_cons_iff.mp hrest
  exact ⟨before ++ between, f, later, by simp, hf, hlater⟩

theorem getLast?_of_split {pid tid : BitVec 32} {past later : List Firing} {f : Firing}
    (hf : threadExitOf pid f = some tid) (hlater : threadExits pid later = []) :
    (threadExits pid (past ++ f :: later)).getLast? = some tid := by
  have hl : List.filterMap (threadExitOf pid) later = [] := hlater
  simp [threadExits, hf, hl]

/-! ### The report of a life -/

/-- A report at the last exit is a leader's. -/
theorem Life.last_of_reported {l : Life} (h : l.Reported) :
    (threadExits l.pid l.rest).getLast? = some l.pid := by
  obtain ⟨past, x, later, e, hsplit, hpid, hlater, -, hat, -, -⟩ := h
  have hl : leaderExitOf l.pid (.exit x) = true := by
    by_contra hl
    rw [exitsOf_fire (by simpa using hl)] at hat
    cases hat
  rw [hsplit]
  exact getLast?_of_split (threadExitOf_leader.mp hl) hlater

theorem Life.lookup_after (l : Life) {past : List Firing} (hx : ∀ f ∈ past, execOf l.pid f = none)
    (hl : ∀ f ∈ past, leaderExitOf l.pid f = false) : (l.after past).lookup l.pid = some l.exec.ts := by
  have hacc := l.accepted
  unfold Life.after
  rw [final_cons, lookup_final (fun f hf => ⟨hx f hf, hl f hf⟩), fire, handleExec_fst, l.exec_pid,
    BpfMap.updateElem, if_pos hacc, Finmap.lookup_insert]

theorem Life.reported_of_last {l : Life} (h : (threadExits l.pid l.rest).getLast? = some l.pid) : l.Reported := by
  obtain ⟨past, f, later, hsplit, hf, hlater⟩ := split_of_getLast? h
  have hfl := threadExitOf_leader.mpr hf
  cases f with
  | exec f => cases hfl
  | exit x =>
    obtain ⟨hxl, hxp⟩ : x.leader = true ∧ pidOf x.pidTgid = l.pid := by
      simpa [leaderExitOf] using hfl
    have hmem : Firing.exit x ∈ l.rest := by simp [hsplit]
    -- the leader exits once, so nothing is reported of the process before it
    have hpast : ∀ g ∈ past, leaderExitOf l.pid g = false := by
      refine not_leaderExitOf fun hp => ?_
      have hcount := l.leader_exits
      rw [hsplit, threadExits, List.filterMap_append, List.filterMap_cons_some hf, List.count_append,
        List.count_cons_self] at hcount
      have hpos : 0 < (past.filterMap (threadExitOf l.pid)).count l.pid := List.count_pos_iff.mpr hp
      omega
    have hlook := l.lookup_after (fun g hg => l.no_further_exec g (by simp [hsplit, hg])) hpast
    obtain ⟨e, he⟩ := Option.isSome_iff_exists.mp (l.reserved _ hmem : x.slot.isSome = true)
    have hle : l.exec.ts ≤ x.ts := by
      have hc : Allowed ClockOk ((.exec l.exec :: past) ++ .exit x :: later) := by
        simpa [hsplit] using l.clock
      exact hc.at (.exec l.exec) (by simp)
    refine ⟨past, x, later, x.fill (x.ts - l.exec.ts) e, hsplit, hxp, hlater, ?_, ?_, ?_, ?_⟩
    · refine exitsOf_outputs (fun g hg => ?_) _ _
      rcases List.mem_cons.mp hg with rfl | hg
      · rfl
      · exact hpast g hg
    · rw [fire, handleExit_snd _ _ _ hxl, hxp, hlook, he]
      simp [exitsOf, Exit.fill, hxp]
    · exact exitsOf_outputs (not_leaderExitOf (by simp [hlater])) _ _
    · exact BitVec.toNat_sub_of_le hle

/-- The life of a process is reported exactly when its leader exits last. -/
theorem Life.reported_iff_leader_last (l : Life) :
    l.Reported ↔ (threadExits l.pid l.rest).getLast? = some l.pid :=
  ⟨Life.last_of_reported, Life.reported_of_last⟩

/-! ### A process with two threads -/

/-- The exit of one thread of process `pid` with nothing refused. -/
def Exit.thread (pid tid : BitVec 32) (ts : BitVec 64) : Exit := { Exit.plain pid ts with pidTgid := pid ++ tid }

/-- Process 7 whose thread 8 exits before its leader. -/
def Life.leaderLast : Life where
  pid := 7
  execStart := ∅
  exec := .plain 7 100
  rest := [.exit (.thread 7 8 150), .exit (.thread 7 7 250)]
  exec_pid := by decide
  accepted := Or.inr rfl
  no_further_exec := by decide
  leader_exits := by decide
  reserved := by decide
  clock := by decide

theorem Life.leaderLast_reported : Life.leaderLast.Reported :=
  (Life.reported_iff_leader_last Life.leaderLast).mpr (by decide)

/-- Process 7 whose thread 8 outlives its leader, as after `pthread_exit` in `main`. -/
def Life.leaderFirst : Life where
  pid := 7
  execStart := ∅
  exec := .plain 7 100
  rest := [.exit (.thread 7 7 150), .exit (.thread 7 8 250)]
  exec_pid := by decide
  accepted := Or.inr rfl
  no_further_exec := by decide
  leader_exits := by decide
  reserved := by decide
  clock := by decide

/-- The exit is reported while thread 8 still runs. -/
theorem Life.leaderFirst_not_reported : ¬ Life.leaderFirst.Reported :=
  fun h => absurd (Life.last_of_reported h) (by decide)

end LibbpfBootstrap.Bootstrap
