import LibbpfBootstrap.Bootstrap.Handlers
import Mathlib.Tactic.IntervalCases

/-! The attach phase of bootstrap. `bootstrap_bpf__attach` attaches `handle_exec`
first and `handle_exit` after it, while processes fork, exec and exit. A PID
names one process incarnation after another. An exit that falls between the two
attach steps is not seen, so its PID keeps an entry that the next incarnation
inherits; without such an exit every reported duration is measured from an exec
of the incarnation that exits. -/

namespace LibbpfBootstrap.Bootstrap.Attach

open Kernel Kernel.Runs

/-- The attached programs, their map, and the processes of the machine: whether a
PID is in use, and by which of its incarnations. -/
structure System where
  execAttached : Bool
  exitAttached : Bool
  execStart : ExecStart
  alive : BitVec 32 → Bool
  incarnation : BitVec 32 → ℕ

/-- One of the two attach steps of `main`, or a step of a process. -/
inductive Act
  | attachExec
  | attachExit
  | fork (pid : BitVec 32)
  | exec (f : Exec)
  | exit (f : Exit)

/-- Before the attach phase: some PIDs are in use, the map is empty. -/
def start (alive : BitVec 32 → Bool) : System := ⟨false, false, ∅, alive, fun _ => 0⟩

/-- A handler runs when its program is attached. A PID is free after the exit of
its leader, and a fork starts the next incarnation of the PID it gets. -/
def step (m : BitVec 64) (s : System) : Act → System × List Event
  | .attachExec => ({ s with execAttached := true }, [])
  | .attachExit => ({ s with exitAttached := true }, [])
  | .fork pid =>
    ({ s with
      alive := Function.update s.alive pid true
      incarnation := Function.update s.incarnation pid (s.incarnation pid + 1) }, [])
  | .exec f =>
    if s.execAttached then
      let r := handleExec m s.execStart f
      ({ s with execStart := r.1 }, r.2)
    else (s, [])
  | .exit f =>
    let r := if s.exitAttached then handleExit m s.execStart f else (s.execStart, [])
    ({ s with
      execStart := r.1
      alive := if f.leader then Function.update s.alive (pidOf f.pidTgid) false else s.alive }, r.2)

/-- What the machine and `libbpf` allow next: the programs are attached in order
and once, a fork gets a free PID, execs and exits are those of a live process. -/
def Possible (s : System) : Act → Prop
  | .attachExec => s.execAttached = false
  | .attachExit => s.execAttached = true ∧ s.exitAttached = false
  | .fork pid => s.alive pid = false
  | .exec f => s.alive (pidOf f.pidTgid) = true
  | .exit f => s.alive (pidOf f.pidTgid) = true

instance (s : System) : ∀ a, Decidable (Possible s a)
  | .attachExec => inferInstanceAs (Decidable (s.execAttached = false))
  | .attachExit => inferInstanceAs (Decidable (s.execAttached = true ∧ s.exitAttached = false))
  | .fork pid => inferInstanceAs (Decidable (s.alive pid = false))
  | .exec f => inferInstanceAs (Decidable (s.alive (pidOf f.pidTgid) = true))
  | .exit f => inferInstanceAs (Decidable (s.alive (pidOf f.pidTgid) = true))

/-- The system after a list of steps. -/
def after (m : BitVec 64) (alive : BitVec 32 → Bool) (acts : List Act) : System :=
  final (step m) (start alive) acts

def Run (m : BitVec 64) (alive : BitVec 32 → Bool) (acts : List Act) : Prop :=
  Allowed (fun past a => Possible (after m alive past) a) acts

instance (m : BitVec 64) (alive : BitVec 32 → Bool) (acts : List Act) : Decidable (Run m alive acts) :=
  inferInstanceAs (Decidable (Allowed (fun past a => Possible (after m alive past) a) acts))

/-- The time `t` is that of an exec which the current incarnation of `pid` performed. -/
def OwnExec (m : BitVec 64) (alive : BitVec 32 → Bool) (past : List Act) (pid : BitVec 32)
    (t : BitVec 64) : Prop :=
  ∃ before g rest, past = before ++ .exec g :: rest ∧ pidOf g.pidTgid = pid ∧ g.ts = t ∧
    (after m alive before).incarnation pid = (after m alive past).incarnation pid

/-- Every exit record with a non-zero duration is measured from an exec of the
incarnation that exits. -/
def SameIncarnation (m : BitVec 64) (alive : BitVec 32 → Bool) (acts : List Act) : Prop :=
  ∀ past x rest, acts = past ++ .exit x :: rest → ∀ e ∈ (step m (after m alive past) (.exit x)).2,
    e.durationNs ≠ 0#64 →
      ∃ t, OwnExec m alive past (pidOf x.pidTgid) t ∧ e.durationNs = x.ts - t

/-- A leader exit between the two attach steps that leaves its PID in the map. -/
def Missed (s : System) : Act → Prop
  | .exit f => f.leader ∧ s.execAttached ∧ s.exitAttached = false ∧ pidOf f.pidTgid ∈ s.execStart
  | _ => False

/-! ### The invariant -/

/-- Every entry of the map belongs to the live incarnation of its PID, and there
is none before `handle_exec` is attached. -/
def Fresh (m : BitVec 64) (alive : BitVec 32 → Bool) (past : List Act) (s : System) : Prop :=
  s = after m alive past ∧ (s.execAttached = false → s.execStart = ∅) ∧
    ∀ pid t, s.execStart.lookup pid = some t → s.alive pid = true ∧ OwnExec m alive past pid t

variable {m : BitVec 64} {alive : BitVec 32 → Bool}

theorem after_concat (past : List Act) (a : Act) :
    after m alive (past ++ [a]) = (step m (after m alive past) a).1 := final_concat _ _ _ _

/-- A step that is no fork of the PID keeps its execs its own. -/
theorem OwnExec.concat {past : List Act} {a : Act} {pid : BitVec 32} {t : BitVec 64}
    (h : OwnExec m alive past pid t)
    (ha : (step m (after m alive past) a).1.incarnation pid = (after m alive past).incarnation pid) :
    OwnExec m alive (past ++ [a]) pid t := by
  obtain ⟨before, g, rest, rfl, hp, ht, hi⟩ := h
  exact ⟨before, g, rest ++ [a], by simp, hp, ht, by rw [hi, after_concat, ha]⟩

theorem step_incarnation (s : System) {a : Act} (ha : ∀ pid, a ≠ .fork pid) :
    (step m s a).1.incarnation = s.incarnation := by
  cases a with
  | fork pid => exact absurd rfl (ha pid)
  | exec f =>
    simp only [step]
    split_ifs <;> rfl
  | attachExec => rfl
  | attachExit => rfl
  | exit f => rfl

/-- The map changes at an exec that is seen, -/
theorem step_exec_execStart (s : System) (f : Exec) :
    (step m s (.exec f)).1.execStart =
      if s.execAttached then s.execStart.updateElem f.admitted (pidOf f.pidTgid) f.ts else s.execStart := by
  simp only [step]
  split_ifs
  · exact handleExec_fst m s.execStart f
  · rfl

/-- and at a leader exit that is seen. -/
theorem step_exit_execStart (s : System) (f : Exit) :
    (step m s (.exit f)).1.execStart =
      if s.exitAttached && f.leader then s.execStart.erase (pidOf f.pidTgid) else s.execStart := by
  simp only [step]
  cases hl : f.leader with
  | false => cases s.exitAttached <;> simp [handleExit_of_not_leader hl]
  | true => cases s.exitAttached <;> simp [handleExit_fst m s.execStart f hl]

theorem fresh_exec {past : List Act} {f : Exec} (h : Fresh m alive past (after m alive past))
    (hp : (after m alive past).alive (pidOf f.pidTgid) = true) :
    Fresh m alive (past ++ [.exec f]) (step m (after m alive past) (.exec f)).1 := by
  obtain ⟨-, hempty, hown⟩ := h
  have hinc := step_incarnation (m := m) (after m alive past) (a := .exec f) (fun _ h => nomatch h)
  cases hx : (after m alive past).execAttached with
  | false =>
    refine ⟨(after_concat past _).symm, ?_, ?_⟩
    · intro _
      rw [step_exec_execStart, hx]
      exact hempty hx
    · intro pid t ht
      rw [step_exec_execStart, hx] at ht
      simp [hempty hx] at ht
  | true =>
    refine ⟨(after_concat past _).symm, ?_, ?_⟩
    · intro h
      simp [step, hx] at h
    · intro pid t ht
      rw [step_exec_execStart, hx] at ht
      have halive : (step m (after m alive past) (.exec f)).1.alive = (after m alive past).alive := by
        simp [step, hx]
      rw [halive]
      by_cases he : pid = pidOf f.pidTgid
      · subst he
        simp only [if_true, BpfMap.lookup_updateElem_self] at ht
        split_ifs at ht
        obtain rfl := Option.some.inj ht
        exact ⟨hp, past, f, [], rfl, rfl, rfl, by rw [after_concat, hinc]⟩
      · simp only [if_true, BpfMap.lookup_updateElem_ne he] at ht
        obtain ⟨ha, ho⟩ := hown pid t ht
        exact ⟨ha, ho.concat (by rw [hinc])⟩

theorem fresh_exit {past : List Act} {f : Exit} (h : Fresh m alive past (after m alive past))
    (hm : ¬ Missed (after m alive past) (.exit f)) :
    Fresh m alive (past ++ [.exit f]) (step m (after m alive past) (.exit f)).1 := by
  obtain ⟨-, hempty, hown⟩ := h
  have hinc := step_incarnation (m := m) (after m alive past) (a := .exit f) (fun _ h => nomatch h)
  refine ⟨(after_concat past _).symm, ?_, ?_⟩
  · intro hx
    have hx : (after m alive past).execAttached = false := hx
    rw [step_exit_execStart, hempty hx]
    split_ifs
    · exact BpfMap.erase_of_notMem Finmap.notMem_empty
    · rfl
  · intro pid t ht
    rw [step_exit_execStart] at ht
    have hold : (after m alive past).execStart.lookup pid = some t := by
      split_ifs at ht
      · by_cases he : pid = pidOf f.pidTgid
        · rw [he, Finmap.lookup_erase] at ht
          cases ht
        · rwa [Finmap.lookup_erase_ne he] at ht
      · exact ht
    obtain ⟨ha, ho⟩ := hown pid t hold
    refine ⟨?_, ho.concat (by rw [hinc])⟩
    simp only [step]
    cases hl : f.leader with
    | false => exact ha
    | true =>
      -- a leader whose PID has an entry is seen to exit, and then the entry is gone
      have hne : pid ≠ pidOf f.pidTgid := by
        rintro rfl
        have hx : (after m alive past).execAttached = true := by
          cases hx : (after m alive past).execAttached with
          | true => rfl
          | false => simp [hempty hx] at hold
        cases hy : (after m alive past).exitAttached with
        | true => simp [hy, hl] at ht
        | false => exact hm ⟨hl, hx, hy, Finmap.mem_of_lookup_eq_some hold⟩
      rw [if_pos rfl, Function.update_of_ne hne]
      exact ha

theorem fresh_step {past : List Act} {s : System} {a : Act} (h : Fresh m alive past s)
    (hp : Possible s a) (hm : ¬ Missed s a) : Fresh m alive (past ++ [a]) (step m s a).1 := by
  obtain rfl := h.1
  cases a with
  | exec f => exact fresh_exec h hp
  | exit f => exact fresh_exit h hm
  | attachExec =>
    exact ⟨(after_concat past _).symm, fun hx => by simp [step] at hx,
      fun pid t ht => (h.2.2 pid t ht).imp_right (fun ho => ho.concat rfl)⟩
  | attachExit =>
    exact ⟨(after_concat past _).symm, h.2.1,
      fun pid t ht => (h.2.2 pid t ht).imp_right (fun ho => ho.concat rfl)⟩
  | fork p =>
    refine ⟨(after_concat past _).symm, h.2.1, fun pid t ht => ?_⟩
    obtain ⟨ha, ho⟩ := h.2.2 pid t ht
    have hne : pid ≠ p := by
      rintro rfl
      rw [hp] at ha
      cases ha
    exact ⟨by simp only [step, Function.update_of_ne hne, ha],
      ho.concat (by simp only [step, Function.update_of_ne hne])⟩

theorem fresh_start (m : BitVec 64) (alive : BitVec 32 → Bool) : Fresh m alive [] (start alive) := by
  refine ⟨rfl, fun _ => rfl, fun pid t ht => ?_⟩
  have hnone : (start alive).execStart.lookup pid = none := Finmap.lookup_empty pid
  rw [hnone] at ht
  cases ht

theorem exit_measured {past : List Act} {s : System} {x : Exit} (h : Fresh m alive past s) {e : Event}
    (he : e ∈ (step m s (.exit x)).2) (hd : e.durationNs ≠ 0#64) :
    ∃ t, OwnExec m alive past (pidOf x.pidTgid) t ∧ e.durationNs = x.ts - t := by
  simp only [step] at he
  split_ifs at he with hx
  · obtain ⟨-, e0, ⟨t, ht, -, rfl⟩ | ⟨-, -, rfl⟩⟩ := mem_handleExit he
    · exact ⟨t, (h.2.2 _ t ht).2, rfl⟩
    · exact absurd rfl hd
  · cases he

/-- In every run without a missed exit, every reported duration is measured from
an exec of the incarnation that exits. -/
theorem sameIncarnation_of_run (m : BitVec 64) (alive : BitVec 32 → Bool) (acts : List Act)
    (hrun : Run m alive acts)
    (hmiss : Allowed (fun past a => ¬ Missed (after m alive past) a) acts) :
    SameIncarnation m alive acts := by
  rintro past x rest rfl e he hd
  have hok : Allowed (fun past a => Possible (after m alive past) a ∧ ¬ Missed (after m alive past) a) past :=
    allowed_and hrun.left hmiss.left
  have hfresh : Fresh m alive past (after m alive past) :=
    history_invariant (Fresh m alive) (fresh_start m alive)
      (fun past s a h hok => fresh_step h (h.1 ▸ hok.1) (h.1 ▸ hok.2)) past hok
  exact exit_measured hfresh he hd

instance (s : System) : ∀ a, Decidable (Missed s a)
  | .exit f => inferInstanceAs (Decidable (f.leader ∧ s.execAttached ∧ s.exitAttached = false ∧
      pidOf f.pidTgid ∈ s.execStart))
  | .attachExec => isFalse id
  | .attachExit => isFalse id
  | .fork _ => isFalse id
  | .exec _ => isFalse id

/-- A process that execs after the first attach step and exits after the second,
while one whose exec was not seen exits in between. -/
theorem sameIncarnation_across_attach :
    SameIncarnation 0#64 (fun _ => false) [.fork 8, .exec (.plain 8 50), .attachExec, .fork 7,
      .exec (.plain 7 100), .exit (.plain 8 150), .attachExit, .exit (.plain 7 300)] :=
  sameIncarnation_of_run _ _ _ (by decide) (by decide)

/-- A process that execs and exits between the two attach steps, and one that gets
its PID by a fork and exits without an exec. -/
def reused : List Act :=
  [.attachExec, .fork 7, .exec (.plain 7 100), .exit (.plain 7 200), .attachExit, .fork 7,
    .exit (.plain 7 300)]

/-- The second process is reported to have lived since the exec of the first. -/
theorem sameIncarnation_fails :
    Run 0#64 (fun _ => false) reused ∧ ¬ SameIncarnation 0#64 (fun _ => false) reused := by
  refine ⟨by decide, fun h => ?_⟩
  have hs : (after 0#64 (fun _ => false) (reused.take 6)).execStart.lookup 7 = some 100#64 := by decide
  have hmem : (Exit.plain 7 300).fill 200#64 .zero ∈
      (step 0#64 (after 0#64 (fun _ => false) (reused.take 6)) (.exit (.plain 7 300))).2 := by
    have hx : (after 0#64 (fun _ => false) (reused.take 6)).exitAttached = true := by decide
    have hpid : pidOf (Exit.plain 7 300).pidTgid = 7 := by decide
    simp only [step, hx, if_true]
    rw [handleExit_snd _ _ _ (Exit.plain_leader 7 300), hpid, hs]
    simp [Exit.plain]
  obtain ⟨t, ⟨before, g, rest, hsplit, -, -, hinc⟩, -⟩ :=
    h (reused.take 6) (.plain 7 300) [] rfl _ hmem (by decide)
  -- the only exec of the history stands before the second fork
  have hget : (reused.take 6)[before.length]? = some (.exec g) := by rw [hsplit]; simp
  have hbefore : before = (reused.take 6).take before.length := by rw [hsplit]; simp
  have hlen : before.length < 6 := by
    have := congrArg List.length hsplit
    simp [reused] at this
    omega
  rw [hbefore] at hinc
  generalize before.length = i at *
  interval_cases i
  case «2» => exact absurd hinc (by decide)
  all_goals simp [reused] at hget

end LibbpfBootstrap.Bootstrap.Attach
