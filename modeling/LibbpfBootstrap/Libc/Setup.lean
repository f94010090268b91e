import Mathlib.Data.Int.ModEq
import Mathlib.Data.List.Basic
import Mathlib.Data.List.Induction
import Mathlib.Tactic.Common

/-! A `main` that sets itself up call by call. Each call may fail; `main` then returns
at once, or jumps to a label at its end where it releases what it may hold, or does not
look at the failure at all. The variable `err` is not initialised: its value is that of
an assignment that was passed, or none.

A run is read twice, with the numbers that the calls report and with their signs alone.
The second reading has finitely many runs, which `paths` lists. -/

namespace LibbpfBootstrap.Libc.Setup

/-- The number of a failure, positive, and not lost where only the lowest byte of an
exit status is passed on. -/
structure Code where
  value : ℕ
  visible : value % 256 ≠ 0

/-- What is assigned or returned after a call that failed. -/
inductive Expr
  | const (k : ℤ)
  | code
  | negCode

/-- What is returned at the label: `-err`, or `err < 0 ? -err : 0`. -/
inductive Status
  | neg
  | negIfNegative

/-- How numbers are read: the codes `K` of failures and the values `E` of `err`. -/
structure Reading (K E : Type*) where
  zero : E
  eval : K → Expr → E
  status : Status → E → E

inductive Leave
  | ret (e : Expr)
  | cleanup

/-- A call and the test of its result. -/
structure Stage (C R S : Type*) where
  call : C
  /-- What is held once the call has succeeded; the variable for it is assigned in any case. -/
  holds : Option R
  /-- Where the result is assigned to `err`, that of a failure; a success gives zero. -/
  assigns : Option Expr
  /-- An assignment to `err` in the branch taken on a failure. -/
  sets : Option Expr
  /-- The messages written there, those of the call itself first. -/
  messages : List S
  /-- The end of that branch; none where the failure is not tested for. -/
  leave : Option Leave

structure Main (C R S : Type*) where
  stages : List (Stage C R S)
  /-- What is released at the label. -/
  drops : List R
  /-- The variables among these that are declared without a value. -/
  blank : List R
  status : Status

/-- The variables of a run. What has failed is kept for the statements about runs:
`main` does not look at it. -/
structure Frame (C R S E : Type*) where
  err : Option E
  held : List R
  assigned : List R
  printed : List S
  failed : List C
deriving DecidableEq

/-- A variable of `main`. -/
inductive Var (R : Type*)
  | of (r : R)
  | err
deriving DecidableEq

/-- How a run has ended: the status, if it has a value; what was not released; the
variables that were used without a value; the messages; and the calls that had failed. -/
structure Outcome (C R S E : Type*) where
  status : Option E
  held : List R
  wild : List (Var R)
  printed : List S
  failed : List C
deriving DecidableEq

inductive State (C R S E : Type*)
  | running (todo : List (Stage C R S)) (f : Frame C R S E)
  | left (o : Outcome C R S E)

section Runs

variable {C R S K E : Type*} [DecidableEq R] (rd : Reading K E) (m : Main C R S)

/-- The frame after a call that has succeeded. -/
def Stage.passed (st : Stage C R S) (f : Frame C R S E) : Frame C R S E where
  err := (st.assigns.map fun _ => rd.zero).or f.err
  held := f.held ++ st.holds.toList
  assigned := f.assigned ++ st.holds.toList
  printed := f.printed
  failed := f.failed

/-- The frame after a call that has failed. -/
def Stage.missed (st : Stage C R S) (c : K) (f : Frame C R S E) : Frame C R S E where
  err := (st.assigns.map (rd.eval c)).or f.err
  held := f.held
  assigned := f.assigned ++ st.holds.toList
  printed := f.printed
  failed := f.failed ++ [st.call]

/-- The statements from the label on. -/
def Main.cleanup (f : Frame C R S E) : Outcome C R S E where
  status := f.err.map (rd.status m.status)
  held := f.held.filter (· ∉ m.drops)
  wild := ((m.drops.filter fun r => r ∈ m.blank ∧ r ∉ f.assigned).map Var.of) ++
    if f.err.isNone then [.err] else []
  printed := f.printed
  failed := f.failed

/-- What a failure leads to. -/
def Main.fail (st : Stage C R S) (todo : List (Stage C R S)) (c : K) (f : Frame C R S E) : State C R S E :=
  let f := st.missed rd c f
  match st.leave with
  | none => .running todo f
  | some (.ret e) => .left ⟨some (rd.eval c e), f.held, [], f.printed ++ st.messages, f.failed⟩
  | some .cleanup => .left (m.cleanup rd
      { f with err := (st.sets.map (rd.eval c)).or f.err, printed := f.printed ++ st.messages })

/-- One call, with its answer: the number of a failure, or none. -/
def Main.step : State C R S E → Option K → State C R S E
  | .running (st :: todo) f, none => .running todo (st.passed rd f)
  | .running (st :: todo) f, some c => m.fail rd st todo c f
  | .running [] f, _ => .running [] f
  | .left o, _ => .left o

def Main.start : State C R S E := .running m.stages ⟨none, [], [], [], []⟩

def Main.run (answers : List (Option K)) : State C R S E := answers.foldl (m.step rd) m.start

/-- Every call has been made, and `main` goes on behind them. -/
def State.looping : State C R S E → Bool
  | .running [] _ => true
  | _ => false

@[simp] theorem Main.run_concat (answers : List (Option K)) (a : Option K) :
    m.run rd (answers ++ [a]) = m.step rd (m.run rd answers) a :=
  List.foldl_concat (m.step rd) m.start a answers

/-- What a failure can do: it is overlooked, or the run ends with it. -/
theorem Main.fail_cases (st : Stage C R S) (todo : List (Stage C R S)) (c : K) (f : Frame C R S E) :
    st.leave = none ∧ m.fail rd st todo c f = .running todo (st.missed rd c f) ∨
      st.leave.isSome = true ∧ ∃ o, m.fail rd st todo c f = .left o ∧ o.failed = f.failed ++ [st.call] := by
  unfold Main.fail
  cases st.leave with
  | none => exact Or.inl ⟨rfl, rfl⟩
  | some l =>
    cases l with
    | ret e => exact Or.inr ⟨rfl, _, rfl, rfl⟩
    | cleanup => exact Or.inr ⟨rfl, _, rfl, rfl⟩

/-- No failure was overlooked. -/
def State.Clean : State C R S E → Prop
  | .running _ f => f.failed = []
  | .left o => o.failed.length ≤ 1

/-- A `main` that tests the result of every call overlooks no failure. -/
theorem Main.clean_run (h : ∀ st ∈ m.stages, st.leave.isSome = true) (answers : List (Option K)) :
    (m.run rd answers).Clean := by
  -- the calls to come are among those of `main`, so that each of them is tested
  suffices hs : (m.run rd answers).Clean ∧ ∀ todo f, m.run rd answers = .running todo f → todo ⊆ m.stages from hs.1
  induction answers using List.reverseRecOn with
  | nil =>
    refine ⟨rfl, fun todo f he => ?_⟩
    cases he
    exact List.Subset.refl _
  | append_singleton answers a ih =>
    rw [Main.run_concat]
    obtain ⟨hclean, hsub⟩ := ih
    cases hs : m.run rd answers with
    | left o =>
      rw [hs] at hclean
      exact ⟨hclean, fun todo f he => nomatch he⟩
    | running todo f =>
      rw [hs] at hclean
      have htodo := hsub todo f hs
      cases todo with
      | nil => exact ⟨hclean, fun todo f he => by cases he; exact htodo⟩
      | cons st todo =>
        cases a with
        | none =>
          refine ⟨hclean, fun todo' f' he => ?_⟩
          cases he
          exact fun st' hst => htodo (List.mem_cons_of_mem st hst)
        | some c =>
          have hst := h st (htodo List.mem_cons_self)
          rcases m.fail_cases rd st todo c f with ⟨hnone, -⟩ | ⟨-, o, ho, hfailed⟩
          · rw [hnone] at hst
            exact absurd hst Bool.false_ne_true
          · simp only [Main.step, ho]
            refine ⟨?_, fun todo f he => nomatch he⟩
            have hf : f.failed = [] := hclean
            simp only [State.Clean, hfailed, hf, List.nil_append, List.length_singleton, Nat.le_refl]

/-- Where every call succeeds, the loop is reached. -/
theorem Main.looping_run_replicate :
    (m.run rd (List.replicate m.stages.length none)).looping = true := by
  suffices hs : ∀ (todo : List (Stage C R S)) (f : Frame C R S E),
      ((List.replicate todo.length none).foldl (m.step rd) (.running todo f)).looping = true from hs _ _
  intro todo
  induction todo with
  | nil => exact fun f => rfl
  | cons st todo ih =>
    intro f
    rw [List.length_cons, List.replicate_succ, List.foldl_cons]
    exact ih (st.passed rd f)

end Runs

/-! ### Two readings of one run -/

section Map

variable {C R S K E K' E' : Type*}

def Frame.map (g : E → E') (f : Frame C R S E) : Frame C R S E' :=
  ⟨f.err.map g, f.held, f.assigned, f.printed, f.failed⟩

def Outcome.map (g : E → E') (o : Outcome C R S E) : Outcome C R S E' :=
  ⟨o.status.map g, o.held, o.wild, o.printed, o.failed⟩

def State.map (g : E → E') : State C R S E → State C R S E'
  | .running todo f => .running todo (f.map g)
  | .left o => .left (o.map g)

/-- The second reading is what the first one looks like. -/
structure Reading.Abstracts (rd : Reading K E) (rd' : Reading K' E') (k : K → K') (g : E → E') : Prop where
  zero : g rd.zero = rd'.zero
  eval : ∀ c e, g (rd.eval c e) = rd'.eval (k c) e
  status : ∀ s v, g (rd.status s v) = rd'.status s (g v)

variable {rd : Reading K E} {rd' : Reading K' E'} {k : K → K'} {g : E → E'} (hg : rd.Abstracts rd' k g)
include hg

theorem Reading.Abstracts.assign (e : Option Expr) (c : K) (err : Option E) :
    ((e.map (rd.eval c)).or err).map g = (e.map (rd'.eval (k c))).or (err.map g) := by
  cases e with
  | none => rfl
  | some e => exact congrArg some (hg.eval c e)

theorem Stage.passed_map (st : Stage C R S) (f : Frame C R S E) :
    (st.passed rd f).map g = st.passed rd' (f.map g) := by
  have herr : ((st.assigns.map fun _ => rd.zero).or f.err).map g =
      (st.assigns.map fun _ => rd'.zero).or (f.err.map g) := by
    cases st.assigns with
    | none => rfl
    | some e => exact congrArg some hg.zero
  simp only [Stage.passed, Frame.map, herr]

theorem Stage.missed_map (st : Stage C R S) (c : K) (f : Frame C R S E) :
    (st.missed rd c f).map g = st.missed rd' (k c) (f.map g) := by
  simp only [Stage.missed, Frame.map, hg.assign]

variable [DecidableEq R] (m : Main C R S)

theorem Main.cleanup_map (f : Frame C R S E) : (m.cleanup rd f).map g = m.cleanup rd' (f.map g) := by
  have hstatus : (f.err.map (rd.status m.status)).map g = (f.err.map g).map (rd'.status m.status) := by
    cases f.err with
    | none => rfl
    | some v => exact congrArg some (hg.status m.status v)
  simp only [Main.cleanup, Outcome.map, Frame.map, hstatus, Option.isNone_map]
  rfl

theorem Main.fail_map (st : Stage C R S) (todo : List (Stage C R S)) (c : K) (f : Frame C R S E) :
    (m.fail rd st todo c f).map g = m.fail rd' st todo (k c) (f.map g) := by
  have hm := Stage.missed_map hg st c f
  unfold Main.fail
  cases st.leave with
  | none => exact congrArg _ hm
  | some l =>
    cases l with
    | ret e =>
      simp only [State.map, Outcome.map, Option.map_some, hg.eval]
      rfl
    | cleanup =>
      rw [← hm]
      simp only [State.map, Main.cleanup_map hg, Frame.map, hg.assign]

theorem Main.step_map (s : State C R S E) (a : Option K) :
    (m.step rd s a).map g = m.step rd' (s.map g) (a.map k) := by
  cases s with
  | left o => rfl
  | running todo f =>
    cases todo with
    | nil => rfl
    | cons st todo =>
      cases a with
      | none => exact congrArg (State.running todo) (Stage.passed_map hg st f)
      | some c => exact Main.fail_map hg m st todo c f

/-- A run looks like the run of the other reading. -/
theorem Main.run_map (answers : List (Option K)) :
    (m.run rd answers).map g = m.run rd' (answers.map (Option.map k)) := by
  induction answers using List.reverseRecOn with
  | nil => rfl
  | append_singleton answers a ih => rw [Main.run_concat, Main.step_map hg, ih, List.map_append, List.map_singleton, Main.run_concat]

end Map

/-! ### Numbers and their signs -/

/-- The numbers themselves. -/
def numbers : Reading Code ℤ where
  zero := 0
  eval c
    | .const k => k
    | .code => c.value
    | .negCode => -c.value
  status
    | .neg, v => -v
    | .negIfNegative, v => if v < 0 then -v else 0

/-- The sign of a number, and whether its lowest byte tells it from zero. -/
structure Level where
  sign : ℤ
  visible : Bool
deriving DecidableEq

def Level.of (v : ℤ) : Level := ⟨v.sign, v % 256 ≠ 0⟩

def levels : Reading Unit Level where
  zero := ⟨0, false⟩
  eval _
    | .const k => Level.of k
    | .code => ⟨1, true⟩
    | .negCode => ⟨-1, true⟩
  status
    | .neg, v => ⟨-v.sign, v.visible⟩
    | .negIfNegative, v => if v.sign = -1 then ⟨1, v.visible⟩ else ⟨0, false⟩

theorem Level.of_neg (v : ℤ) : Level.of (-v) = ⟨-(Level.of v).sign, (Level.of v).visible⟩ := by
  have hv : -v % 256 = 0 ↔ v % 256 = 0 := by omega
  simp only [Level.of, Int.sign_neg, ne_eq, hv]

theorem Level.of_code (c : Code) : Level.of c.value = ⟨1, true⟩ := by
  have hv := c.visible
  have hpos : (0 : ℤ) < c.value := by omega
  have hbyte : (c.value : ℤ) % 256 ≠ 0 := by omega
  simp [Level.of, Int.sign_eq_one_of_pos hpos, hbyte]

theorem numbers_abstracts : numbers.Abstracts levels (fun _ => ()) Level.of where
  zero := by decide
  eval c e := by
    cases e with
    | const k => rfl
    | code => exact Level.of_code c
    | negCode =>
      show Level.of (-c.value) = ⟨-1, true⟩
      rw [Level.of_neg, Level.of_code]
  status s v := by
    cases s with
    | neg => exact Level.of_neg v
    | negIfNegative =>
      show Level.of (if v < 0 then -v else 0) = if (Level.of v).sign = -1 then ⟨1, (Level.of v).visible⟩ else ⟨0, false⟩
      have hsign : (Level.of v).sign = -1 ↔ v < 0 := Int.sign_eq_neg_one_iff_neg
      by_cases hv : v < 0
      · rw [if_pos hv, if_pos (hsign.mpr hv), Level.of_neg, hsign.mpr hv]
        rfl
      · rw [if_neg hv, if_neg (mt hsign.mp hv)]
        decide

/-! ### The finitely many runs of the second reading -/

section Paths

variable {C R S E : Type*} [DecidableEq R] (rd : Reading Unit E) (m : Main C R S)

/-- The states in which a run can end, from a point of the list of calls on. -/
def Main.pathsFrom : List (Stage C R S) → Frame C R S E → List (State C R S E)
  | [], f => [.running [] f]
  | st :: todo, f =>
    (match st.leave with
      | none => pathsFrom todo (st.missed rd () f)
      | some _ => [m.fail rd st todo () f]) ++ pathsFrom todo (st.passed rd f)

def Main.paths : List (State C R S E) := m.pathsFrom rd m.stages ⟨none, [], [], [], []⟩

/-- A run through two lists of calls ends in the first one, or goes through it and on. -/
theorem Main.mem_pathsFrom_append {first second : List (Stage C R S)} {f : Frame C R S E} {s : State C R S E}
    (h : s ∈ m.pathsFrom rd (first ++ second) f) :
    (∃ o, s = .left o ∧ s ∈ m.pathsFrom rd first f) ∨
      ∃ f', .running [] f' ∈ m.pathsFrom rd first f ∧ s ∈ m.pathsFrom rd second f' := by
  induction first generalizing f with
  | nil => exact Or.inr ⟨f, List.mem_singleton_self _, h⟩
  | cons st first ih =>
    -- the two ways on from a call, of which the ends are among those of the whole list
    have hon : ∀ {g}, s ∈ m.pathsFrom rd (first ++ second) g →
        (∀ s', s' ∈ m.pathsFrom rd first g → s' ∈ m.pathsFrom rd (st :: first) f) →
        (∃ o, s = .left o ∧ s ∈ m.pathsFrom rd (st :: first) f) ∨
          ∃ f', .running [] f' ∈ m.pathsFrom rd (st :: first) f ∧ s ∈ m.pathsFrom rd second f' := by
      intro g hs hsub
      rcases ih hs with ⟨o, ho, hmem⟩ | ⟨f', hf', hmem⟩
      · exact Or.inl ⟨o, ho, hsub _ hmem⟩
      · exact Or.inr ⟨f', hsub _ hf', hmem⟩
    rw [List.cons_append, Main.pathsFrom] at h
    rcases List.mem_append.mp h with h | h
    · cases hl : st.leave with
      | none =>
        simp only [hl] at h
        exact hon h fun s' hs' => List.mem_append_left _ (by simpa only [hl] using hs')
      | some l =>
        simp only [hl, List.mem_singleton] at h
        have hleft : m.fail rd st (first ++ second) () f = m.fail rd st first () f := by
          simp only [Main.fail, hl]
          cases l <;> rfl
        rw [hleft] at h
        refine Or.inl ?_
        rcases m.fail_cases rd st first () f with ⟨hnone, -⟩ | ⟨-, o, ho, -⟩
        · rw [hl] at hnone
          cases hnone
        · exact ⟨o, h.trans ho, List.mem_append_left _ (by simp only [hl, h, List.mem_singleton])⟩
    · exact hon h fun s' hs' => List.mem_append_right _ hs'

/-- The runs that go on from a state end in one of these. -/
def Main.Reaches (ends : List (State C R S E)) : State C R S E → Prop
  | .running todo f => ∀ s ∈ m.pathsFrom rd todo f, s ∈ ends
  | .left o => .left o ∈ ends

theorem Main.reaches_step {ends : List (State C R S E)} {s : State C R S E} (h : m.Reaches rd ends s)
    (a : Option Unit) : m.Reaches rd ends (m.step rd s a) := by
  cases s with
  | left o => exact h
  | running todo f =>
    cases todo with
    | nil => exact h
    | cons st todo =>
      cases a with
      | none => exact fun s hs => h s (List.mem_append_right _ hs)
      | some c =>
        have hfail := fun s hs => h s (List.mem_append_left _ hs)
        show m.Reaches rd ends (m.fail rd st todo () f)
        cases hl : st.leave with
        | none =>
          simp only [hl] at hfail
          simp only [Main.fail, hl]
          exact hfail
        | some l =>
          simp only [hl, List.mem_singleton, forall_eq] at hfail
          cases l with
          | ret e => simpa only [Main.Reaches, Main.fail, hl] using hfail
          | cleanup => simpa only [Main.Reaches, Main.fail, hl] using hfail

theorem Main.reaches_run (answers : List (Option Unit)) : m.Reaches rd (m.paths rd) (m.run rd answers) := by
  induction answers using List.reverseRecOn with
  | nil => exact fun s hs => hs
  | append_singleton answers a ih =>
    rw [Main.run_concat]
    exact m.reaches_step rd ih a

end Paths

section Ends

variable {C R S : Type*} [DecidableEq R] {m : Main C R S} {answers : List (Option Code)}

/-- However a run with numbers ends, one of the paths looks like it. -/
theorem Main.map_left_mem_paths {o : Outcome C R S ℤ} (h : m.run numbers answers = .left o) :
    .left (o.map Level.of) ∈ m.paths levels := by
  have hr := m.reaches_run levels (answers.map (Option.map fun _ => ()))
  rw [← Main.run_map numbers_abstracts, h] at hr
  exact hr

end Ends

end LibbpfBootstrap.Libc.Setup
