import LibbpfBootstrap.Kernel.Runs
import Mathlib.Data.BitVec
import Mathlib.Logic.Function.Basic

/-! The filters on the ingress hook of `lo` while `tc.c` runs. `main` and other users
of the hook take their steps in any order, and the kernel may refuse any call.
When `main` returns, the filters should be those of before as changed by the
others. They are, unless `signal` fails on a hook that `main` found there, which
leaves its filter behind, or the clean-up of a hook that `main` created meets the
filter of another user, which it takes away. -/

namespace LibbpfBootstrap.Tc

open Kernel.Runs

/-- The priority and the handle of a filter. -/
abbrev Key := ℕ × ℕ

/-- The key in `tc_opts`. -/
def ours : Key := (1, 1)

variable {F : Type*}

/-- The ingress hook; a hook that does not exist has no filters. -/
structure Hook (F : Type*) where
  present : Bool
  filters : Key → Option F
  empty_of_absent : present = false → filters = fun _ => none

namespace Hook

def create (h : Hook F) : Hook F := ⟨true, h.filters, fun hc => absurd hc (by decide)⟩

/-- Put a filter under a key or remove it; nothing happens without a hook. -/
def set (h : Hook F) (k : Key) (v : Option F) : Hook F where
  present := h.present
  filters := if h.present then Function.update h.filters k v else h.filters
  empty_of_absent hp := by rw [hp, if_neg Bool.false_ne_true, h.empty_of_absent hp]

def removeAll (h : Hook F) : Hook F := ⟨h.present, fun _ => none, fun _ => rfl⟩

theorem filters_set {h : Hook F} (hp : h.present = true) (k : Key) (v : Option F) :
    (h.set k v).filters = Function.update h.filters k v := if_pos hp

end Hook

/-! ### The calls -/

def eexist : BitVec 32 := 17#32

def enoent : BitVec 32 := 2#32

/-- An error with which the kernel refuses a call. -/
abbrev Refusal := {err : BitVec 32 // err ≠ 0#32}

def bpfTcHookCreate (refusal : Option Refusal) (h : Hook F) : BitVec 32 × Hook F :=
  match refusal with
  | some err => (err, h)
  | none => if h.present then (-eexist, h) else (0#32, h.create)

/-- The flags do not ask to replace a filter. -/
def bpfTcAttach (refusal : Option Refusal) (prog : F) (h : Hook F) : BitVec 32 × Hook F :=
  match refusal with
  | some err => (err, h)
  | none =>
    if h.present = false then (-enoent, h)
    else if (h.filters ours).isSome then (-eexist, h) else (0#32, h.set ours (some prog))

def bpfTcDetach (refusal : Option Refusal) (h : Hook F) : BitVec 32 × Hook F :=
  match refusal with
  | some err => (err, h)
  | none => if (h.filters ours).isNone then (-enoent, h) else (0#32, h.set ours none)

/-- For the attach point ingress alone the hook stays. -/
def bpfTcHookDestroy (h : Hook F) : Hook F := h.removeAll

/-! ### The program and the other users -/

/-- Where `main` is, by the call it makes next. -/
inductive Pc
  | load | create | attach | signal | loop | detach | cleanup
  | returned (status : BitVec 32)
  deriving DecidableEq

structure State (F : Type*) where
  pc : Pc
  hook : Hook F
  hookCreated : Bool
  exiting : Bool
  err : BitVec 32

/-- `main` takes a step, where the kernel may refuse its call; the signal comes; or
another user puts a filter under a key of theirs or removes it. -/
inductive Action (F : Type*)
  | main (refusal : Option Refusal)
  | sigint
  | other (k : {k : Key // k ≠ ours}) (v : Option F)

inductive Call
  | load | create | attach | signal | detach
  deriving DecidableEq

/-- What a step makes known: a change by another user, or a call of `main` that failed. -/
inductive Event (F : Type*)
  | changed (k : {k : Key // k ≠ ours}) (v : Option F)
  | refused (call : Call)

/-- A call of `main` failed. -/
def refusedIn (call : Call) (es : List (Event F)) : Bool :=
  es.any fun | .changed _ _ => false | .refused call' => call' == call

def failed (call : Call) (err : BitVec 32) : List (Event F) := if err = 0#32 then [] else [.refused call]

def mainStep (prog : F) (refusal : Option Refusal) (s : State F) : State F × List (Event F) :=
  match s.pc with
  | .load =>
    match refusal with
    | some _ => ({ s with pc := .returned 1#32 }, [.refused .load])
    | none => ({ s with pc := .create }, [])
  | .create =>
    let r := bpfTcHookCreate refusal s.hook
    ({ s with
       err := r.1
       hook := r.2
       hookCreated := s.hookCreated || r.1 == 0#32
       pc := if r.1 ≠ 0#32 ∧ r.1 ≠ -eexist then .cleanup else .attach }, failed .create r.1)
  | .attach =>
    let r := bpfTcAttach refusal prog s.hook
    ({ s with err := r.1, hook := r.2, pc := if r.1 ≠ 0#32 then .cleanup else .signal }, failed .attach r.1)
  | .signal =>
    match refusal with
    | some errno => ({ s with err := errno, pc := .cleanup }, [.refused .signal])
    | none => ({ s with pc := .loop }, [])
  | .loop => ({ s with pc := if s.exiting then .detach else .loop }, [])
  | .detach =>
    let r := bpfTcDetach refusal s.hook
    ({ s with err := r.1, hook := r.2, pc := .cleanup }, failed .detach r.1)
  | .cleanup =>
    ({ s with hook := if s.hookCreated then bpfTcHookDestroy s.hook else s.hook, pc := .returned (-s.err) }, [])
  | .returned _ => (s, [])

/-- The handler is there from the loop on; before that the signal ends the process
and `main` does not return. -/
def step (prog : F) (s : State F) : Action F → State F × List (Event F)
  | .main refusal => mainStep prog refusal s
  | .sigint => ({ s with exiting := s.exiting || s.pc == .loop }, [])
  | .other k v => if s.hook.present then ({ s with hook := s.hook.set k v }, [.changed k v]) else (s, [])

/-- `main` at its start. -/
def start (h : Hook F) : State F := ⟨.load, h, false, false, 0#32⟩

/-- The filters as changed by other users. -/
def applied (filters : Key → Option F) (es : List (Event F)) : Key → Option F :=
  es.foldl (fun m e => match e with | .changed k v => Function.update m k v | .refused _ => m) filters

/-- A run up to the moment at which `main` returns. -/
structure Run (F : Type*) where
  prog : F
  hook : Hook F
  actions : List (Action F)
  last : Action F
  running : ∀ status, (final (step prog) (start hook) actions).pc ≠ .returned status
  returns : ∃ status, (step prog (final (step prog) (start hook) actions) last).1.pc = .returned status

namespace Run

variable (r : Run F)

/-- The state from which `main` returns. -/
def before : State F := final (step r.prog) (start r.hook) r.actions

def events : List (Event F) := outputs (step r.prog) (start r.hook) r.actions

/-- The filters that are there are the initial ones as changed by the others. -/
def Restored : Prop := (step r.prog r.before r.last).1.hook.filters = applied r.hook.filters r.events

/-- The clean-up of a hook that `main` created meets no filter of another user, and on
a hook that it found `signal` did not fail. -/
def Spared : Prop :=
  if r.before.hookCreated then ∀ k, k ≠ ours → r.before.hook.filters k = none
  else refusedIn .signal r.events = false

end Run

/-! ### What the others have changed -/

theorem applied_append (filters : Key → Option F) (es es' : List (Event F)) :
    applied filters (es ++ es') = applied (applied filters es) es' := List.foldl_append

/-- No other user touches the filter of `main`. -/
theorem applied_ours (filters : Key → Option F) (es : List (Event F)) : applied filters es ours = filters ours := by
  induction es using List.reverseRecOn with
  | nil => rfl
  | append_singleton es e ih =>
    rw [applied_append]
    cases e with
    | changed k v => exact (Function.update_of_ne (Ne.symm k.property) v _).trans ih
    | refused call => exact ih

/-! ### The invariant -/

/-- The filter of `main` is on the hook. -/
def holds (es : List (Event F)) : Pc → Bool
  | .signal | .loop | .detach => true
  | .cleanup => refusedIn .signal es || refusedIn .detach es
  | .load | .create | .attach | .returned _ => false

/-- Up to its return `main` leaves the others' filters alone, has its own exactly while
it holds it, under a key that was free, and counts a hook as created only if there
was none. -/
structure Sound (prog : F) (h : Hook F) (es : List (Event F)) (s : State F) : Prop where
  filters : s.hook.filters =
    if holds es s.pc then Function.update (applied h.filters es) ours (some prog) else applied h.filters es
  slot : holds es s.pc = true → h.filters ours = none
  created : s.hookCreated = true → h.present = false
  early : s.pc = .load ∨ s.pc = .create → s.hookCreated = false ∧ s.hook.present = h.present
  clean : s.pc ≠ .cleanup → refusedIn .signal es = false ∧ refusedIn .detach es = false

theorem sound_start (prog : F) (h : Hook F) : Sound prog h [] (start h) where
  filters := rfl
  slot hc := absurd hc Bool.false_ne_true
  created hc := absurd hc Bool.false_ne_true
  early _ := ⟨rfl, rfl⟩
  clean _ := ⟨rfl, rfl⟩

/-! ### What a call does -/

theorem neg_eexist_ne : -eexist ≠ 0#32 := by decide

theorem neg_enoent_ne : -enoent ≠ 0#32 := by decide

theorem bpfTcHookCreate_cases (refusal : Option Refusal) (h : Hook F) :
    (bpfTcHookCreate refusal h = (0#32, h.create) ∧ h.present = false) ∨
      ∃ err, err ≠ 0#32 ∧ bpfTcHookCreate refusal h = (err, h) := by
  unfold bpfTcHookCreate
  cases refusal with
  | some err => exact Or.inr ⟨err, err.property, rfl⟩
  | none =>
    dsimp only
    split_ifs with hp
    · exact Or.inr ⟨-eexist, neg_eexist_ne, rfl⟩
    · exact Or.inl ⟨rfl, by simpa using hp⟩

theorem bpfTcAttach_cases (refusal : Option Refusal) (prog : F) (h : Hook F) :
    (bpfTcAttach refusal prog h = (0#32, h.set ours (some prog)) ∧ h.present = true ∧ h.filters ours = none) ∨
      ∃ err, err ≠ 0#32 ∧ bpfTcAttach refusal prog h = (err, h) := by
  unfold bpfTcAttach
  cases refusal with
  | some err => exact Or.inr ⟨err, err.property, rfl⟩
  | none =>
    dsimp only
    split_ifs with hp hf
    · exact Or.inr ⟨-enoent, neg_enoent_ne, rfl⟩
    · exact Or.inr ⟨-eexist, neg_eexist_ne, rfl⟩
    · exact Or.inl ⟨rfl, by simpa using hp, by simpa using hf⟩

theorem bpfTcDetach_cases (refusal : Option Refusal) (h : Hook F) :
    (bpfTcDetach refusal h = (0#32, h.set ours none) ∧ h.present = true) ∨
      ∃ err, err ≠ 0#32 ∧ bpfTcDetach refusal h = (err, h) := by
  unfold bpfTcDetach
  cases refusal with
  | some err => exact Or.inr ⟨err, err.property, rfl⟩
  | none =>
    dsimp only
    split_ifs with hf
    · exact Or.inr ⟨-enoent, neg_enoent_ne, rfl⟩
    · refine Or.inl ⟨rfl, ?_⟩
      by_contra hp
      rw [h.empty_of_absent (by simpa using hp)] at hf
      exact hf rfl

theorem failed_of_ne (call : Call) {err : BitVec 32} (h : err ≠ 0#32) : failed (F := F) call err = [.refused call] :=
  if_neg h

/-! ### Steps -/

@[simp] theorem refusedIn_changed (c : Call) (es : List (Event F)) (k : {k : Key // k ≠ ours}) (v : Option F) :
    refusedIn c (es ++ [.changed k v]) = refusedIn c es := by
  simp [refusedIn]

@[simp] theorem refusedIn_refused (c c' : Call) (es : List (Event F)) :
    refusedIn c (es ++ [.refused c']) = (refusedIn c es || c' == c) := by
  simp [refusedIn]

@[simp] theorem applied_refused (filters : Key → Option F) (es : List (Event F)) (c : Call) :
    applied filters (es ++ [.refused c]) = applied filters es := by
  rw [applied_append]
  rfl

theorem applied_changed (filters : Key → Option F) (es : List (Event F)) (k : {k : Key // k ≠ ours}) (v : Option F) :
    applied filters (es ++ [.changed k v]) = Function.update (applied filters es) k v := by
  rw [applied_append]
  rfl

section Steps

variable {prog : F} {h : Hook F} {es : List (Event F)} {s : State F}

theorem Sound.other (hs : Sound prog h es s) (k : {k : Key // k ≠ ours}) (v : Option F)
    (hp : s.hook.present = true) : Sound prog h (es ++ [.changed k v]) { s with hook := s.hook.set k v } := by
  have hholds : holds (es ++ [.changed k v]) s.pc = holds es s.pc := by
    cases s.pc <;> simp [holds]
  refine ⟨?_, ?_, hs.created, hs.early, ?_⟩
  · simp only [hholds, applied_changed, Hook.filters_set hp, hs.filters]
    split_ifs
    · rw [Function.update_comm (Ne.symm k.property)]
    · rfl
  · rw [hholds]
    exact hs.slot
  · simpa using hs.clean

/-- A failed call before the filter is there leaves everything as it was. -/
theorem Sound.not_attached (hs : Sound prog h es s) (hpc : holds es s.pc = false) {call : Call}
    (hcall : call ≠ .signal ∧ call ≠ .detach) (hclean : s.pc ≠ .cleanup) {s' : State F}
    (hhook : s'.hook = s.hook) (hcreated : s'.hookCreated = s.hookCreated) (hpc' : s'.pc = .attach ∨ s'.pc = .cleanup) :
    Sound prog h (es ++ [.refused call]) s' := by
  obtain ⟨hsig, hdet⟩ := hs.clean hclean
  have hf : s'.hook.filters = applied h.filters es := by
    rw [hhook, hs.filters, hpc]
    rfl
  have hholds : holds (es ++ [.refused call]) s'.pc = false := by
    rcases hpc' with hp | hp <;> simp [hp, holds, hsig, hdet, hcall]
  refine ⟨?_, ?_, ?_, ?_, ?_⟩
  · rw [hf, hholds, applied_refused]
    rfl
  · rw [hholds]
    exact fun hc => absurd hc Bool.false_ne_true
  · rw [hcreated]
    exact hs.created
  · rcases hpc' with hp | hp <;> simp [hp]
  · simp [hsig, hdet, hcall]

theorem Sound.create (hs : Sound prog h es s) (hpc : s.pc = .create) (refusal : Option Refusal) :
    Sound prog h (es ++ (mainStep prog refusal s).2) (mainStep prog refusal s).1 := by
  obtain ⟨hcreated, hpresent⟩ := hs.early (Or.inr hpc)
  have hnot : s.pc ≠ .cleanup := by simp [hpc]
  rcases bpfTcHookCreate_cases refusal s.hook with ⟨hr, hp⟩ | ⟨err, he, hr⟩
  · have hstep : mainStep prog refusal s =
        ({ s with err := 0#32, hook := s.hook.create, hookCreated := true, pc := .attach }, []) := by
      simp [mainStep, hpc, hr, hcreated, failed]
    rw [hstep, List.append_nil]
    have hf := hs.filters
    rw [hpc] at hf
    exact ⟨hf, fun hc => absurd hc Bool.false_ne_true, fun _ => hpresent ▸ hp, by simp, fun _ => hs.clean hnot⟩
  · have hstep : (mainStep prog refusal s).2 = [.refused .create] := by
      simp [mainStep, hpc, hr, failed_of_ne _ he]
    rw [hstep]
    refine hs.not_attached (by simp [hpc, holds]) (by decide) hnot ?_ ?_ ?_
    · simp [mainStep, hpc, hr]
    · simp [mainStep, hpc, hr, he]
    · simp only [mainStep, hpc, hr]
      split_ifs <;> simp

theorem Sound.attach (hs : Sound prog h es s) (hpc : s.pc = .attach) (refusal : Option Refusal) :
    Sound prog h (es ++ (mainStep prog refusal s).2) (mainStep prog refusal s).1 := by
  have hnot : s.pc ≠ .cleanup := by simp [hpc]
  have hf := hs.filters
  rw [hpc] at hf
  have hf : s.hook.filters = applied h.filters es := hf
  rcases bpfTcAttach_cases refusal prog s.hook with ⟨hr, hp, hfree⟩ | ⟨err, he, hr⟩
  · have hstep : mainStep prog refusal s =
        ({ s with err := 0#32, hook := s.hook.set ours (some prog), pc := .signal }, []) := by
      simp [mainStep, hpc, hr, failed]
    have hslot : h.filters ours = none := by rw [← applied_ours h.filters es, ← hf, hfree]
    rw [hstep, List.append_nil]
    exact ⟨by simp [holds, Hook.filters_set hp, hf], fun _ => hslot, hs.created, by simp, fun _ => hs.clean hnot⟩
  · have hstep : mainStep prog refusal s = ({ s with err := err, pc := .cleanup }, [.refused .attach]) := by
      simp [mainStep, hpc, hr, he, failed_of_ne _ he]
    rw [hstep]
    exact hs.not_attached (by simp [hpc, holds]) (by decide) hnot rfl rfl (Or.inr rfl)

/-- A step that keeps the filter on the hook. -/
theorem Sound.still_attached (hs : Sound prog h es s) (hpc : holds es s.pc = true) {es' : List (Event F)} {s' : State F}
    (hholds : holds es' s'.pc = true) (happlied : applied h.filters es' = applied h.filters es)
    (hhook : s'.hook = s.hook) (hcreated : s'.hookCreated = s.hookCreated)
    (hclean : s'.pc ≠ .cleanup → refusedIn .signal es' = false ∧ refusedIn .detach es' = false) :
    Sound prog h es' s' := by
  refine ⟨?_, fun _ => hs.slot hpc, ?_, ?_, hclean⟩
  · rw [hhook, hs.filters, hpc, hholds, happlied]
  · rw [hcreated]
    exact hs.created
  · rintro (hp | hp) <;> simp [hp, holds] at hholds

theorem Sound.signal (hs : Sound prog h es s) (hpc : s.pc = .signal) (refusal : Option Refusal) :
    Sound prog h (es ++ (mainStep prog refusal s).2) (mainStep prog refusal s).1 := by
  have hh : holds es s.pc = true := by simp [hpc, holds]
  cases refusal with
  | some errno =>
    have hstep : mainStep prog (some errno) s = ({ s with err := errno, pc := .cleanup }, [.refused .signal]) := by
      simp [mainStep, hpc]
    rw [hstep]
    exact hs.still_attached hh (by simp [holds]) (by simp) rfl rfl fun hc => absurd rfl hc
  | none =>
    have hstep : mainStep prog none s = ({ s with pc := .loop }, []) := by simp [mainStep, hpc]
    rw [hstep, List.append_nil]
    exact hs.still_attached hh rfl rfl rfl rfl fun _ => hs.clean (by simp [hpc])

theorem Sound.loop (hs : Sound prog h es s) (hpc : s.pc = .loop) (refusal : Option Refusal) :
    Sound prog h (es ++ (mainStep prog refusal s).2) (mainStep prog refusal s).1 := by
  have hstep : mainStep prog refusal s = ({ s with pc := if s.exiting then .detach else .loop }, []) := by
    simp [mainStep, hpc]
  rw [hstep, List.append_nil]
  refine hs.still_attached (by simp [hpc, holds]) ?_ rfl rfl rfl fun _ => hs.clean (by simp [hpc])
  cases s.exiting <;> rfl

theorem Sound.detach (hs : Sound prog h es s) (hpc : s.pc = .detach) (refusal : Option Refusal) :
    Sound prog h (es ++ (mainStep prog refusal s).2) (mainStep prog refusal s).1 := by
  have hh : holds es s.pc = true := by simp [hpc, holds]
  obtain ⟨hsig, hdet⟩ := hs.clean (by simp [hpc])
  rcases bpfTcDetach_cases refusal s.hook with ⟨hr, hp⟩ | ⟨err, he, hr⟩
  · have hstep : mainStep prog refusal s =
        ({ s with err := 0#32, hook := s.hook.set ours none, pc := .cleanup }, []) := by
      simp [mainStep, hpc, hr, failed]
    have hnone : applied h.filters es ours = none := by rw [applied_ours, hs.slot hh]
    rw [hstep, List.append_nil]
    refine ⟨?_, by simp [holds, hsig, hdet], hs.created, by simp, fun hc => absurd rfl hc⟩
    have hf : s.hook.filters = Function.update (applied h.filters es) ours (some prog) := by rw [hs.filters, if_pos hh]
    simp only [Hook.filters_set hp, hf, holds, hsig, hdet, Bool.or_false, Bool.false_eq_true, if_false]
    rw [Function.update_idem, ← hnone, Function.update_eq_self]
  · have hstep : mainStep prog refusal s = ({ s with err := err, pc := .cleanup }, [.refused .detach]) := by
      simp [mainStep, hpc, hr, failed_of_ne _ he]
    rw [hstep]
    exact hs.still_attached hh (by simp [holds]) (by simp) rfl rfl fun hc => absurd rfl hc

theorem Sound.load (hs : Sound prog h es s) (hpc : s.pc = .load) :
    Sound prog h es { s with pc := .create } := by
  have hf := hs.filters
  rw [hpc] at hf
  exact ⟨hf, fun hc => absurd hc Bool.false_ne_true, hs.created, fun _ => hs.early (Or.inl hpc),
    fun _ => hs.clean (by simp [hpc])⟩

/-- Every step that does not return keeps the invariant. -/
theorem sound_step (hs : Sound prog h es s) (a : Action F) (hrun : ∀ status, (step prog s a).1.pc ≠ .returned status) :
    Sound prog h (es ++ (step prog s a).2) (step prog s a).1 := by
  cases a with
  | sigint =>
    simp only [step, List.append_nil]
    exact ⟨hs.filters, hs.slot, hs.created, hs.early, hs.clean⟩
  | other k v =>
    simp only [step]
    split_ifs with hp
    · exact hs.other k v hp
    · simpa using hs
  | main refusal =>
    simp only [step] at hrun ⊢
    cases hpc : s.pc with
    | load =>
      cases refusal with
      | some err => exact absurd (by simp [mainStep, hpc]) (hrun 1#32)
      | none =>
        have hstep : mainStep prog none s = ({ s with pc := .create }, []) := by simp [mainStep, hpc]
        rw [hstep, List.append_nil]
        exact hs.load hpc
    | create => exact hs.create hpc refusal
    | attach => exact hs.attach hpc refusal
    | signal => exact hs.signal hpc refusal
    | loop => exact hs.loop hpc refusal
    | detach => exact hs.detach hpc refusal
    | cleanup => exact absurd (by simp [mainStep, hpc]) (hrun (-s.err))
    | returned status => exact absurd (by simp [mainStep, hpc]) (hrun status)

/-- `main` does nothing after it has returned. -/
theorem step_returned {status : BitVec 32} (hpc : s.pc = .returned status) (a : Action F) :
    (step prog s a).1.pc = .returned status := by
  cases a with
  | sigint => exact hpc
  | other k v =>
    simp only [step]
    split_ifs <;> exact hpc
  | main refusal => simp [step, mainStep, hpc]

/-- `main` returns from its clean-up, or at once when the program cannot be loaded. -/
theorem step_returns {a : Action F} (hrun : ∀ status, s.pc ≠ .returned status)
    (hret : ∃ status, (step prog s a).1.pc = .returned status) :
    (s.pc = .cleanup ∧ (step prog s a).1.hook = if s.hookCreated then s.hook.removeAll else s.hook) ∨
      (s.pc = .load ∧ (step prog s a).1.hook = s.hook) := by
  obtain ⟨status, hret⟩ := hret
  cases a with
  | sigint => exact absurd hret (hrun status)
  | other k v =>
    simp only [step] at hret
    split_ifs at hret <;> exact absurd hret (hrun status)
  | main refusal =>
    simp only [step] at hret ⊢
    cases hpc : s.pc with
    | load =>
      refine Or.inr ⟨rfl, ?_⟩
      cases refusal <;> simp [mainStep, hpc]
    | create =>
      simp only [mainStep, hpc] at hret
      split_ifs at hret
    | attach =>
      simp only [mainStep, hpc] at hret
      split_ifs at hret
    | signal => cases refusal <;> simp [mainStep, hpc] at hret
    | loop =>
      simp only [mainStep, hpc] at hret
      split_ifs at hret
    | detach => simp [mainStep, hpc] at hret
    | cleanup =>
      refine Or.inl ⟨rfl, ?_⟩
      simp [mainStep, hpc, bpfTcHookDestroy]
    | returned st => exact absurd hpc (hrun st)

end Steps

/-! ### Whole runs -/

theorem Run.sound (r : Run F) : Sound r.prog r.hook r.events r.before := by
  refine emission_invariant (fun es s => (∀ status, s.pc ≠ .returned status) → Sound r.prog r.hook es s)
    (fun _ => sound_start r.prog r.hook) ?_ r.actions r.running
  intro es s a ih hrun
  refine sound_step (ih fun status hpc => ?_) a hrun
  exact hrun status (step_returned hpc a)

theorem Run.returns_from (r : Run F) :
    (r.before.pc = .cleanup ∧ (step r.prog r.before r.last).1.hook =
        if r.before.hookCreated then r.before.hook.removeAll else r.before.hook) ∨
      (r.before.pc = .load ∧ (step r.prog r.before r.last).1.hook = r.before.hook) :=
  step_returns r.running r.returns

theorem restored_of_kept {r : Run F} (hhook : (step r.prog r.before r.last).1.hook = r.before.hook) :
    r.Restored ↔ holds r.events r.before.pc = false := by
  have hs := r.sound
  rw [Run.Restored, hhook, hs.filters]
  cases hh : holds r.events r.before.pc with
  | false => simp
  | true =>
    simp only [if_true, Bool.true_eq_false, iff_false]
    intro hf
    have hours := congrFun hf ours
    rw [Function.update_self, applied_ours, hs.slot hh] at hours
    cases hours

theorem restored_of_created {r : Run F} (hc : r.before.hookCreated = true)
    (hhook : (step r.prog r.before r.last).1.hook = r.before.hook.removeAll) :
    r.Restored ↔ ∀ k, k ≠ ours → r.before.hook.filters k = none := by
  have hs := r.sound
  have hours : applied r.hook.filters r.events ours = none := by
    rw [applied_ours, r.hook.empty_of_absent (hs.created hc)]
  have hother (k : Key) (hk : k ≠ ours) : r.before.hook.filters k = applied r.hook.filters r.events k := by
    rw [hs.filters]
    split_ifs
    · rw [Function.update_of_ne hk]
    · rfl
  rw [Run.Restored, hhook]
  constructor
  · intro hf k hk
    rw [hother k hk, ← hf]
    rfl
  · intro hnone
    funext k
    by_cases hk : k = ours
    · rw [hk, hours]
      rfl
    · rw [← hother k hk, hnone k hk]
      rfl

/-- In every run in which the detach was not refused, the filters that `main` leaves are
the initial ones as changed by the others exactly when its clean-up spares them. -/
theorem restored_iff_spared (r : Run F) (hdet : refusedIn .detach r.events = false) : r.Restored ↔ r.Spared := by
  have hs := r.sound
  unfold Run.Spared
  rcases r.returns_from with ⟨hpc, hhook⟩ | ⟨hpc, hhook⟩
  · cases hc : r.before.hookCreated with
    | true =>
      rw [hc] at hhook
      exact restored_of_created hc hhook
    | false =>
      rw [hc] at hhook
      rw [restored_of_kept hhook, hpc]
      simp [holds, hdet]
  · have hc := (hs.early (Or.inl hpc)).1
    rw [restored_of_kept hhook, hpc]
    simp [holds, hc, (hs.clean (by simp [hpc])).1]

/-! ### Three runs -/

/-- No hook. -/
def Hook.absent : Hook ℕ := ⟨false, fun _ => none, fun _ => rfl⟩

/-- A hook without filters, as another process leaves it. -/
def Hook.found : Hook ℕ := ⟨true, fun _ => none, fun _ => rfl⟩

/-- `main` creates the hook and nobody else uses it. -/
def Run.alone : Run ℕ where
  prog := 7
  hook := .absent
  actions := [.main none, .main none, .main none, .main none, .sigint, .main none, .main none]
  last := .main none
  running _ h := by cases h
  returns := ⟨_, rfl⟩

theorem Run.alone_restored : Run.alone.Restored :=
  (restored_iff_spared Run.alone rfl).mpr fun k hk => by
    show Function.update (Function.update Hook.absent.filters ours (some 7)) ours none k = none
    rw [Function.update_idem, Function.update_of_ne hk]
    rfl

/-- `signal` fails on a hook that `main` found. -/
def Run.signalFails : Run ℕ where
  prog := 7
  hook := .found
  actions := [.main none, .main none, .main none, .main (some ⟨22#32, by decide⟩)]
  last := .main none
  running _ h := by cases h
  returns := ⟨_, rfl⟩

/-- Another user puts a filter on the hook that `main` created. -/
def Run.shared : Run ℕ where
  prog := 7
  hook := .absent
  actions := [.main none, .main none, .main none, .main none, .other ⟨(2, 1), by decide⟩ (some 8), .sigint,
    .main none, .main none]
  last := .main none
  running _ h := by cases h
  returns := ⟨_, rfl⟩

/-- The first leaves the filter of `main` behind, the second takes the other's away. -/
theorem filters_not_restored :
    (refusedIn .detach Run.signalFails.events = false ∧ ¬ Run.signalFails.Restored) ∧
      refusedIn .detach Run.shared.events = false ∧ ¬ Run.shared.Restored :=
  ⟨⟨rfl, fun h => absurd (congrFun h ours) (by decide)⟩, rfl, fun h => absurd (congrFun h (2, 1)) (by decide)⟩

end LibbpfBootstrap.Tc
