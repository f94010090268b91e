import LibbpfBootstrap.Kernel.Runs
import Mathlib.Data.BitVec

/-! The event loops of `bootstrap.c` and `sockfilter.c`, from a successful setup to
the value that `main` returns. Both poll the ring buffer until a signal, an
interrupted poll or an error ends the loop, and keep in `err` what the last poll
returned; they differ in what they make of it. -/

namespace LibbpfBootstrap.EventLoop

open Kernel.Runs

abbrev eintr : BitVec 32 := 4#32

/-- Where `main` is: at the test of the loop, in `ring_buffer__poll`, in `sleep`, or
past the loop. -/
inductive Pc
  | test | poll | sleep | cleanup
  deriving DecidableEq

structure State where
  pc : Pc
  err : BitVec 32
  exiting : Bool

/-- What happens next: the handler of a signal runs, a poll returns, or `main` takes
another step of its own. -/
inductive Action
  | signal
  | polled (ret : BitVec 32)
  | step
  deriving DecidableEq

/-- What differs between the two programs. -/
structure Program where
  sleeps : Bool
  status : BitVec 32 → BitVec 32

def bootstrap : Program where
  sleeps := false
  status err := if err.toInt < 0 then -err else 0#32

def sockfilter : Program where
  sleeps := true
  status err := -err

/-- One action, and the poll that it completes. An action that `main` cannot take
where it is does not happen. -/
def act (p : Program) (s : State) : Action → State × List (BitVec 32)
  | .signal => ({ s with exiting := true }, [])
  | .polled ret =>
    if s.pc = .poll then
      if ret = -eintr then ({ s with pc := .cleanup, err := 0#32 }, [ret])
      else if ret.toInt < 0 then ({ s with pc := .cleanup, err := ret }, [ret])
      else ({ s with pc := if p.sleeps then .sleep else .test, err := ret }, [ret])
    else (s, [])
  | .step =>
    match s.pc with
    | .test => ({ s with pc := if s.exiting then .cleanup else .poll }, [])
    | .sleep => ({ s with pc := .test }, [])
    | .poll => (s, [])
    | .cleanup => (s, [])

/-- The state of `main` when its setup has succeeded. -/
def start : State := ⟨.test, 0#32, false⟩

/-- A run of a program from its setup to the end of its loop. -/
structure Run (p : Program) where
  actions : List Action
  ended : (final (act p) start actions).pc = .cleanup

namespace Run

variable {p : Program} (r : Run p)

/-- What the polls of the run returned. -/
def polls : List (BitVec 32) := outputs (act p) start r.actions

/-- The value of `err` when the loop has ended. -/
def err : BitVec 32 := (final (act p) start r.actions).err

/-- The value that `main` returns. -/
def returned : BitVec 32 := p.status r.err

end Run

/-- No poll returned an error other than an interruption. -/
def Clean (polls : List (BitVec 32)) : Prop := ∀ ret ∈ polls, ret.toInt < 0 → ret = -eintr

/-- The last poll consumed records. -/
def endsBusy (polls : List (BitVec 32)) : Bool := polls.getLast?.any fun ret => 0 < ret.toInt

/-! ### What `err` holds -/

/-- The value of `err` after some polls. -/
def settled (polls : List (BitVec 32)) : BitVec 32 :=
  match polls.getLast? with
  | none => 0#32
  | some ret => if ret = -eintr then 0#32 else ret

/-- The last poll decides `err`, only the last one was negative, and none was while
the loop goes on. -/
structure Follows (polls : List (BitVec 32)) (s : State) : Prop where
  err : s.err = settled polls
  earlier : ∀ ret ∈ polls.dropLast, 0 ≤ ret.toInt
  looping : s.pc ≠ .cleanup → ∀ ret ∈ polls, 0 ≤ ret.toInt

theorem follows_act (p : Program) (polls : List (BitVec 32)) (s : State) (a : Action) (h : Follows polls s) :
    Follows (polls ++ (act p s a).2) (act p s a).1 := by
  cases a with
  | signal => exact ⟨by simpa [act] using h.err, by simpa [act] using h.earlier, by simpa [act] using h.looping⟩
  | step =>
    have hout : (act p s .step).2 = [] := by cases hpc : s.pc <;> simp [act, hpc]
    have herr : (act p s .step).1.err = s.err := by cases hpc : s.pc <;> simp [act, hpc]
    have hpc : (act p s .step).1.pc ≠ .cleanup → s.pc ≠ .cleanup := by
      intro hne hc
      simp [act, hc] at hne
    rw [hout, List.append_nil]
    exact ⟨herr.trans h.err, h.earlier, fun hne => h.looping (hpc hne)⟩
  | polled ret =>
    by_cases hpc : s.pc = .poll
    · have hall := h.looping (by simp [hpc])
      have hearlier : ∀ r ∈ (polls ++ [ret]).dropLast, 0 ≤ r.toInt := by simpa using hall
      simp only [act, if_pos hpc]
      split_ifs with hi hn
      · exact ⟨by simp [settled, hi], hearlier, fun hne => absurd rfl hne⟩
      · exact ⟨by simp [settled, hi], hearlier, fun hne => absurd rfl hne⟩
      all_goals
        refine ⟨by simp [settled, hi], hearlier, fun _ r hr => ?_⟩
        rcases List.mem_append.mp hr with hr | hr
        · exact hall r hr
        · rw [List.mem_singleton.mp hr]
          omega
    · simpa [act, hpc] using h

theorem Run.follows {p : Program} (r : Run p) : Follows r.polls (final (act p) start r.actions) :=
  emission_invariant Follows ⟨rfl, by simp, by simp⟩ (follows_act p) r.actions

theorem Run.err_eq {p : Program} (r : Run p) : r.err = settled r.polls := r.follows.err

/-! ### What the programs make of it -/

theorem clean_iff {polls : List (BitVec 32)} (h : ∀ ret ∈ polls.dropLast, 0 ≤ ret.toInt) :
    Clean polls ↔ 0 ≤ (settled polls).toInt := by
  rcases List.eq_nil_or_concat polls with rfl | ⟨polls, ret, rfl⟩
  · simp [Clean, settled]
  · rw [List.concat_eq_append] at h ⊢
    rw [List.dropLast_concat] at h
    have hs : settled (polls ++ [ret]) = if ret = -eintr then 0#32 else ret := by simp [settled]
    rw [hs]
    constructor
    · intro hc
      split_ifs with hi
      · simp
      · by_contra hn
        exact hi (hc ret (by simp) (by omega))
    · intro hle r hr hneg
      rcases List.mem_append.mp hr with hr | hr
      · have := h r hr
        omega
      · obtain rfl := List.mem_singleton.mp hr
        by_contra hi
        rw [if_neg hi] at hle
        omega

theorem settled_eq_zero_iff (polls : List (BitVec 32)) :
    settled polls = 0#32 ↔ 0 ≤ (settled polls).toInt ∧ endsBusy polls = false := by
  unfold settled endsBusy
  cases polls.getLast? with
  | none => simp
  | some ret =>
    have hint : (-eintr).toInt = -4 := by decide
    by_cases hi : ret = -eintr
    · simp [hi, hint]
    · have hz : ret = 0#32 ↔ ret.toInt = 0 := by
        rw [← BitVec.toInt_inj, BitVec.toInt_zero]
      simp only [if_neg hi, hz, Option.any_some, decide_eq_false_iff_not]
      omega

theorem bootstrap_status_eq_zero (err : BitVec 32) : bootstrap.status err = 0#32 ↔ 0 ≤ err.toInt := by
  simp only [bootstrap]
  split_ifs with h
  · have hne : err ≠ 0#32 := by
      rintro rfl
      simp at h
    simp [hne, h]
  · simp [not_lt.mp h]

/-- `bootstrap` returns zero exactly when no poll failed. -/
theorem bootstrap_returned (r : Run bootstrap) : r.returned = 0#32 ↔ Clean r.polls := by
  rw [Run.returned, bootstrap_status_eq_zero, r.err_eq, clean_iff r.follows.earlier]

/-- `sockfilter` also needs a last poll that consumed nothing. -/
theorem sockfilter_returned (r : Run sockfilter) :
    r.returned = 0#32 ↔ Clean r.polls ∧ endsBusy r.polls = false := by
  have hneg : sockfilter.status r.err = 0#32 ↔ r.err = 0#32 := by simp [sockfilter]
  rw [Run.returned, hneg, r.err_eq, settled_eq_zero_iff, clean_iff r.follows.earlier]

theorem clean_of_endsBusy {p : Program} (r : Run p) (h : endsBusy r.polls = true) : Clean r.polls := by
  rw [clean_iff r.follows.earlier]
  unfold settled
  unfold endsBusy at h
  cases hl : r.polls.getLast? with
  | none => simp
  | some ret =>
    rw [hl, Option.any_some, decide_eq_true_eq] at h
    dsimp only
    split_ifs
    · simp
    · omega

/-- On runs with the same polls both programs return zero exactly when no poll
failed, and so agree, if and only if the last poll did not consume records. -/
theorem loops_agree_iff (b : Run bootstrap) (s : Run sockfilter) (h : b.polls = s.polls) :
    ((b.returned = 0#32 ↔ Clean b.polls) ∧ (s.returned = 0#32 ↔ Clean s.polls) ∧
      (b.returned = 0#32 ↔ s.returned = 0#32)) ↔ endsBusy s.polls = false := by
  rw [bootstrap_returned, sockfilter_returned, h]
  cases hb : endsBusy s.polls with
  | false => simp
  | true => simp [clean_of_endsBusy s hb]

/-- Two quiet polls and then a signal. -/
def quiet (p : Program) : List Action :=
  if p.sleeps then [.step, .polled 0, .step, .step, .polled 0, .signal, .step, .step]
  else [.step, .polled 0, .step, .polled 0, .signal, .step]

/-- A poll that consumes one record, during which a signal arrives. -/
def busy (p : Program) : List Action :=
  if p.sleeps then [.step, .signal, .polled 1, .step, .step] else [.step, .signal, .polled 1, .step]

theorem loops_agree_quiet :
    (Run.mk (p := bootstrap) (quiet bootstrap) rfl).returned = 0#32 ↔
      (Run.mk (p := sockfilter) (quiet sockfilter) rfl).returned = 0#32 :=
  ((loops_agree_iff ⟨quiet bootstrap, rfl⟩ ⟨quiet sockfilter, rfl⟩ rfl).mpr (by decide)).2.2

/-- No poll fails, yet `sockfilter` does not return zero. -/
theorem loops_disagree_busy :
    Clean (Run.mk (p := sockfilter) (busy sockfilter) rfl).polls ∧
      (Run.mk (p := bootstrap) (busy bootstrap) rfl).returned = 0#32 ∧
      (Run.mk (p := sockfilter) (busy sockfilter) rfl).returned = 0xffffffff#32 :=
  ⟨clean_of_endsBusy _ (by decide), by decide, by decide⟩

end LibbpfBootstrap.EventLoop
