import LibbpfBootstrap.Kernel.Runs
import LibbpfBootstrap.Mains

/-! The life of `fentry`, `kprobe` and `ksyscall`, of which `main` is the same, and the
machine that they look at. The BPF programs are attached by one of the calls of `main`,
both in one step, and go when the skeleton is destroyed or the process is killed, again in
one step. -/

namespace LibbpfBootstrap.Tracing

open Kernel.Runs Libc Libc.Setup Mains

/-- The process, with the variable `stop`. -/
inductive Life
  | running (setup : Setup.State Call Resource String ℤ) (stop : Bool)
  | killed

namespace Life

def start : Life := .running Mains.tracing.start false

/-- `main` gets the answer to its next call. In the loop it looks at `stop`. -/
def main : Life → Option Code → Life
  | .running (.running [] f) stop, _ =>
    if stop then .running (.left (Mains.tracing.cleanup numbers f)) stop else .running (.running [] f) stop
  | .running setup stop, a => .running (Mains.tracing.step numbers setup a) stop
  | .killed, _ => .killed

/-- `SIGINT` comes. The handler is installed by the last call before the loop. -/
def sigint : Life → Life
  | .running (.running [] f) _ => .running (.running [] f) true
  | .running (.running (_ :: _) _) _ => .killed
  | .running (.left o) stop => .running (.left o) stop
  | .killed => .killed

/-- The call that attaches is behind, and the label at the end of `main` is not reached. -/
def attached : Life → Bool
  | .running (.running todo _) _ => todo.all fun st => st.call ≠ .attach
  | .running (.left _) _ => false
  | .killed => false

end Life

/-- `main` goes on, the signal comes, or something happens that is looked at. -/
inductive Action (E : Type*)
  | main (a : Option Code)
  | sigint
  | event (e : E)

def Life.next {E : Type*} (l : Life) : Action E → Life
  | .main a => l.main a
  | .sigint => l.sigint
  | .event _ => l

section Step

variable {W E O : Type*} (world : Bool → W → E → W × List O)

/-- The events move the world and leave traces, which depend on what is attached. -/
def step (s : Life × W) (a : Action E) : (Life × W) × List O :=
  match a with
  | .event e => ((s.1, (world s.1.attached s.2 e).1), (world s.1.attached s.2 e).2)
  | a => ((s.1.next a, s.2), [])

/-- The life after a list of actions. -/
def lifeAfter (as : List (Action E)) : Life := as.foldl Life.next Life.start

/-- It takes its course whatever is seen meanwhile. -/
theorem life_final (w : W) (as : List (Action E)) :
    (final (step world) (Life.start, w) as).1 = lifeAfter as := by
  induction as using List.reverseRecOn with
  | nil => rfl
  | append_singleton as a ih =>
    rw [final_concat, lifeAfter, List.foldl_concat, ← lifeAfter, ← ih]
    cases a <;> rfl

end Step

theorem lifeAfter_append {E : Type*} (as bs : List (Action E)) :
    lifeAfter (as ++ bs) = bs.foldl Life.next (lifeAfter as) := List.foldl_append

/-- The three calls of `main` succeed. -/
def succeed {E : Type*} : List (Action E) := List.replicate 3 (.main none)

/-! ### One stretch -/

/-- `main` has left its loop or its set-up, or the process was killed. -/
def Life.Gone : Life → Prop
  | .running (.running _ _) _ => False
  | .running (.left _) _ => True
  | .killed => True

theorem Life.Gone.not_attached {l : Life} (h : l.Gone) : l.attached = false := by
  cases l with
  | killed => rfl
  | running setup stop =>
    cases setup with
    | left o => rfl
    | running todo f => exact h.elim

theorem Life.Gone.next {E : Type*} {l : Life} (h : l.Gone) (a : Action E) : (l.next a).Gone := by
  cases l with
  | killed => cases a <;> trivial
  | running setup stop =>
    cases setup with
    | left o => cases a <;> trivial
    | running todo f => exact h.elim

/-- What is attached stays so until the end. -/
theorem Life.next_of_attached {E : Type*} {l : Life} (h : l.attached = true) (a : Action E) :
    (l.next a).attached = true ∨ (l.next a).Gone := by
  cases l with
  | killed => exact absurd h Bool.false_ne_true
  | running setup stop =>
    cases setup with
    | left o => exact absurd h Bool.false_ne_true
    | running todo f =>
      cases a with
      | event e => exact Or.inl h
      | sigint =>
        cases todo with
        | nil => exact Or.inl rfl
        | cons st todo => exact Or.inr trivial
      | main a =>
        cases todo with
        | nil =>
          cases stop with
          | false => exact Or.inl rfl
          | true => exact Or.inr trivial
        | cons st todo =>
          have htodo : todo.all (fun st => st.call ≠ .attach) = true := (Bool.and_eq_true_iff.mp h).2
          cases a with
          | none => exact Or.inl htodo
          | some c =>
            simp only [Life.next, Life.main, Main.step]
            rcases Mains.tracing.fail_cases numbers st todo c f with ⟨-, hrun⟩ | ⟨-, o, hleft, -⟩
            · rw [hrun]
              exact Or.inl htodo
            · rw [hleft]
              exact Or.inr trivial

theorem attached_or_gone {E : Type*} {l : Life} (h : l.attached = true) (as : List (Action E)) :
    (as.foldl Life.next l).attached = true ∨ (as.foldl Life.next l).Gone := by
  induction as using List.reverseRecOn with
  | nil => exact Or.inl h
  | append_singleton as a ih =>
    rw [List.foldl_concat]
    rcases ih with hon | hgone
    · exact Life.next_of_attached hon a
    · exact Or.inr (hgone.next a)

theorem gone_foldl {E : Type*} {l : Life} (h : l.Gone) (as : List (Action E)) : (as.foldl Life.next l).Gone := by
  induction as generalizing l with
  | nil => exact h
  | cons a as ih => exact ih (h.next a)

/-- Once `main` has left its loop or its set-up, or was killed, the programs are not attached
and never again; and they are attached for one stretch, which ends in no other way. -/
theorem not_attached_again {E : Type*} (past : List (Action E)) :
    ((lifeAfter past).Gone → ∀ rest, (lifeAfter (past ++ rest)).attached = false) ∧
      ((lifeAfter past).attached = true → ∀ mid, (lifeAfter (past ++ mid)).attached = false →
        (lifeAfter (past ++ mid)).Gone ∧ ∀ rest, (lifeAfter (past ++ mid ++ rest)).attached = false) := by
  have hend : ∀ {past : List (Action E)}, (lifeAfter past).Gone → ∀ rest, (lifeAfter (past ++ rest)).attached = false := by
    intro past hgone rest
    rw [lifeAfter_append]
    exact (gone_foldl hgone rest).not_attached
  refine ⟨hend, fun hon mid hoff => ?_⟩
  have hgone : (lifeAfter (past ++ mid)).Gone := by
    rw [lifeAfter_append] at hoff ⊢
    refine (attached_or_gone hon mid).resolve_left ?_
    rw [hoff]
    exact Bool.false_ne_true
  exact ⟨hgone, hend hgone⟩

/-- A signal in the loop, and a failure of the last call. -/
theorem not_attached_again_sigint :
    (lifeAfter (succeed : List (Action Unit))).attached = true ∧
      (lifeAfter (succeed ++ [.sigint, .main none] : List (Action Unit))).attached = false ∧
      (lifeAfter (succeed ++ [.sigint, .main none] ++ [.main none] : List (Action Unit))).attached = false ∧
      (lifeAfter ([.main none, .main none, .main einval] ++ [.main none] : List (Action Unit))).attached = false :=
  ⟨rfl, rfl, ((not_attached_again succeed).2 rfl [.sigint, .main none] rfl).2 _,
    (not_attached_again [.main none, .main none, .main einval]).1 trivial _⟩

end LibbpfBootstrap.Tracing
