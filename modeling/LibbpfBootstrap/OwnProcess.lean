import LibbpfBootstrap.Kernel.Helpers
import LibbpfBootstrap.Kernel.Runs
import LibbpfBootstrap.Libc.Text
import LibbpfBootstrap.Mains

/-! The programs that trace their own process: `minimal`, `minimal_legacy`, `minimal_ns`
and `usdt`. Each of them stores what `getpid()` returns where its BPF program finds it,
and the BPF program compares. But `getpid()` counts in the namespace of the process,
and `bpf_get_current_pid_tgid()` in the initial one. -/

namespace LibbpfBootstrap.OwnProcess

open Kernel Kernel.Runs Libc Libc.Setup Mains

/-! ### Threads and namespaces -/

/-- A namespace of process numbers, as `stat` shows it. -/
structure Ns where
  dev : BitVec 64
  ino : BitVec 64
deriving DecidableEq

/-- A thread: its numbers in the initial namespace, its own namespace and its numbers there. -/
structure Thread where
  pidTgid : BitVec 64
  ns : Ns
  nsPid : BitVec 32
  nsTgid : BitVec 32
deriving DecidableEq

/-- `bpf_get_ns_current_pid_tgid`, as the pair of `ns.pid` and `ns.tgid`. -/
def Thread.getNsCurrentPidTgid (t : Thread) (dev ino : BitVec 64) : BitVec 32 × BitVec 32 :=
  if t.ns = ⟨dev, ino⟩ then (t.nsPid, t.nsTgid) else (0#32, 0#32)

/-- The threads of the machine while the main thread of a program lives. Its numbers are
its own; a main thread has the number of its process. -/
structure World (T P : Type*) where
  thread : T → Thread
  process : T → P
  own : T
  tgid_own : ∀ t, pidOf (thread t).pidTgid = pidOf (thread own).pidTgid ↔ process t = process own
  nsPid_own : ∀ t, (thread t).ns = (thread own).ns → (thread t).nsPid = (thread own).nsPid → t = own
  leader : (thread own).nsPid = (thread own).nsTgid
  nsTgid_ne_zero : (thread own).nsTgid ≠ 0#32

variable {T P : Type*}

def World.getpid (w : World T P) : BitVec 32 := (w.thread w.own).nsTgid

/-! ### The BPF programs -/

/-- The variables of a BPF program. -/
structure Globals where
  myPid : BitVec 32
  dev : BitVec 64
  ino : BitVec 64

/-- What a BPF program returns, and the lines it writes. -/
abbrev Handled := BitVec 32 × List (List UInt8)

def triggered (pid : BitVec 32) : List UInt8 :=
  ascii "BPF triggered from PID " ++ signedDecimal pid.toInt ++ ascii ".\n"

/-- `handle_tp` of `minimal.bpf.c`. -/
def Minimal.handleTp (g : Globals) (t : Thread) : Handled :=
  let pid := pidOf t.pidTgid
  if pid ≠ g.myPid then (0#32, []) else (0#32, [triggered pid])

/-- The lookup in an array of one entry. -/
def MinimalLegacy.lookup (g : Globals) (index : ℕ) : Option (BitVec 32) :=
  if index < 1 then some g.myPid else none

/-- `handle_tp` of `minimal_legacy.bpf.c`. -/
def MinimalLegacy.handleTp (g : Globals) (t : Thread) : Handled :=
  let pid := pidOf t.pidTgid
  match lookup g 0 with
  | none => (1#32, [])
  | some myPid => if myPid ≠ pid then (1#32, []) else (0#32, [triggered pid])

/-- `handle_tp` of `minimal_ns.bpf.c`. -/
def MinimalNs.handleTp (g : Globals) (t : Thread) : Handled :=
  let ns := t.getNsCurrentPidTgid g.dev g.ino
  if ns.1 ≠ g.myPid then (0#32, []) else (0#32, [triggered ns.1])

/-- The arguments of the probe in `setjmp`. -/
structure Args where
  arg1 : BitVec 64
  arg2 : BitVec 32
  arg3 : BitVec 64

def Args.line (a : Args) (how : String) : List UInt8 :=
  ascii "USDT " ++ ascii how ++ ascii " attach to libc:setjmp: arg1 = " ++ hexadecimal a.arg1.toNat ++
    ascii ", arg2 = " ++ signedDecimal a.arg2.toInt ++ ascii ", arg3 = " ++ hexadecimal a.arg3.toNat

def Usdt.usdtAutoAttach (g : Globals) (t : Thread) (a : Args) : Handled :=
  let pid := pidOf t.pidTgid
  if pid ≠ g.myPid then (0#32, []) else (0#32, [a.line "auto"])

def Usdt.usdtManualAttach (a : Args) : Handled := (0#32, [a.line "manual"])

/-! ### The programs -/

/-- The variables in the skeleton that is not loaded yet, those that the BPF programs
read, and whether the programs are attached: by the skeleton, and by hand. -/
structure Bpf where
  image : Globals
  globals : Globals
  attached : Bool
  manual : Bool

def Bpf.start : Bpf := ⟨⟨0, 0, 0⟩, ⟨0, 0, 0⟩, false, false⟩

/-- What a call that succeeds does, with the assignments up to the next call, and what is
written when a thread passes the traced point. -/
structure Program (T P : Type*) where
  main : Main
  effect : World T P → Call → Bpf → Bpf
  fires : World T P → Bpf → T → Args → List (List UInt8)

def minimal : Program T P where
  main := Mains.minimal
  effect w
    | .openSkel, b => { b with image := { b.image with myPid := w.getpid } }
    | .load, b => { b with globals := b.image }
    | .attach, b => { b with attached := true }
    | _, b => b
  fires w b t _ := if b.attached then (Minimal.handleTp b.globals (w.thread t)).2 else []

/-- The array is there from the loading on, filled with zeros. -/
def minimalLegacy : Program T P where
  main := Mains.minimalLegacy
  effect w
    | .updateElem, b => { b with globals := { b.globals with myPid := w.getpid } }
    | .attach, b => { b with attached := true }
    | _, b => b
  fires w b t _ := if b.attached then (MinimalLegacy.handleTp b.globals (w.thread t)).2 else []

def minimalNs : Program T P where
  main := Mains.minimalNs
  effect w
    | .stat, b =>
      let sb := (w.thread w.own).ns
      { b with image := { myPid := w.getpid, dev := sb.dev, ino := sb.ino } }
    | .load, b => { b with globals := b.image }
    | .attach, b => { b with attached := true }
    | _, b => b
  fires w b t _ := if b.attached then (MinimalNs.handleTp b.globals (w.thread t)).2 else []

/-- The number that is given with the attachment by hand is looked up in the namespace of
the caller: it means the process of `main`. Of the two programs at one probe the one that
was attached last runs first. -/
def usdt [DecidableEq P] : Program T P where
  main := Mains.usdt
  effect w
    | .openSkel, b => { b with image := { b.image with myPid := w.getpid } }
    | .load, b => { b with globals := b.image }
    | .attachUsdt, b => { b with manual := true }
    | .attach, b => { b with attached := true }
    | _, b => b
  fires w b t a :=
    (if b.attached then (Usdt.usdtAutoAttach b.globals (w.thread t) a).2 else []) ++
      (if b.manual ∧ w.process t = w.process w.own then (Usdt.usdtManualAttach a).2 else [])

/-! ### Runs -/

/-- `main` makes its next call, with an answer, or a thread passes the traced point. -/
inductive Action (T : Type*)
  | main (a : Option Code)
  | hit (t : T) (args : Args)

/-- A line in the trace, with the thread it is about. -/
structure Traced (T : Type*) where
  thread : T
  text : List UInt8

structure State where
  setup : Setup.State Call Resource String ℤ
  bpf : Bpf

section Step

variable (p : Program T P) (w : World T P)

/-- The effect of the next call. -/
def next : Setup.State Call Resource String ℤ → Option Code → Bpf → Bpf
  | .running (st :: _) _, none, b => p.effect w st.call b
  | _, _, b => b

def step (s : State) : Action T → State × List (Traced T)
  | .main a => (⟨p.main.step numbers s.setup a, next p w s.setup a s.bpf⟩, [])
  | .hit t args => (s, (p.fires w s.bpf t args).map (⟨t, ·⟩))

def start : State := ⟨p.main.start, Bpf.start⟩

end Step

/-- The answers that `main` has got. -/
def answers (past : List (Action T)) : List (Option Code) :=
  past.filterMap fun
    | .main a => some a
    | .hit _ _ => none

/-! ### What is attached when -/

section Built

variable {p : Program T P} {w : World T P}

/-- What the calls of a list leave when all of them succeed. -/
def built (p : Program T P) (w : World T P) (done : List Mains.Stage) : Bpf :=
  done.foldl (fun b st => p.effect w st.call b) Bpf.start

/-- As long as no failure was overlooked, the calls made so far have done what they do,
and one that failed did nothing. -/
def Built (p : Program T P) (w : World T P) : Setup.State Call Resource String ℤ → Bpf → Prop
  | .running todo f, b => f.failed = [] → ∃ done, p.main.stages = done ++ todo ∧ b = built p w done
  | .left o, b => o.failed.length ≤ 1 → ∃ done st todo, p.main.stages = done ++ st :: todo ∧ b = built p w done

theorem built_next {s : Setup.State Call Resource String ℤ} {b : Bpf} (h : Built p w s b) (a : Option Code) :
    Built p w (p.main.step numbers s a) (next p w s a b) := by
  cases s with
  | left o => exact h
  | running todo f =>
    cases todo with
    | nil => exact h
    | cons st todo =>
      cases a with
      | none =>
        intro hf
        obtain ⟨done, hst, rfl⟩ := h hf
        refine ⟨done ++ [st], by simp [hst], ?_⟩
        exact (List.foldl_concat (fun b st => p.effect w st.call b) Bpf.start st done).symm
      | some c =>
        rcases p.main.fail_cases numbers st todo c f with ⟨-, hrun⟩ | ⟨-, o, hleft, hfailed⟩
        · simp only [Main.step, hrun]
          intro hf
          exact absurd hf (List.append_ne_nil_of_right_ne_nil _ (List.cons_ne_nil _ _))
        · simp only [Main.step, hleft]
          intro hlen
          have hf : f.failed = [] := by
            rw [hfailed, List.length_append, List.length_singleton] at hlen
            exact List.eq_nil_of_length_eq_zero (by omega)
          obtain ⟨done, hst, hb⟩ := h hf
          exact ⟨done, st, todo, hst, hb⟩

/-- `main` is where the answers have brought it, and the BPF programs are what its calls
have made of them. -/
structure Follows (p : Program T P) (w : World T P) (past : List (Action T)) (s : State) : Prop where
  setup : s.setup = p.main.run numbers (answers past)
  bpf : Built p w s.setup s.bpf

theorem follows_start : Follows p w [] (start p) := ⟨rfl, fun _ => ⟨[], rfl, rfl⟩⟩

theorem answers_main (past : List (Action T)) (a : Option Code) :
    answers (past ++ [.main a]) = answers past ++ [a] := List.filterMap_append

theorem answers_hit (past : List (Action T)) (t : T) (args : Args) :
    answers (past ++ [.hit t args]) = answers past :=
  (List.filterMap_append (l := past)).trans (List.append_nil _)

theorem follows_step {past : List (Action T)} {s : State} (h : Follows p w past s) (a : Action T) :
    Follows p w (past ++ [a]) (step p w s a).1 := by
  cases a with
  | main a =>
    refine ⟨?_, built_next h.bpf a⟩
    rw [answers_main, Main.run_concat, ← h.setup]
    rfl
  | hit t args => exact ⟨h.setup.trans (congrArg _ (answers_hit past t args).symm), h.bpf⟩

theorem follows_run (as : List (Action T)) : Follows p w as (final (step p w) (start p) as) :=
  run_invariant (Follows p w) follows_start (fun _ _ a h => follows_step h a) as

end Built

/-! ### The programs that report writes -/

section Writes

variable {p : Program T P} {w : World T P} {sees : T → Prop} [DecidablePred sees]

/-- Every call of `main` is tested; the program is attached by the last of them, and from
then on it speaks of the threads that it sees. -/
structure Orderly (p : Program T P) (w : World T P) (sees : T → Prop) [DecidablePred sees] : Prop where
  tested : ∀ st ∈ p.main.stages, st.leave.isSome = true
  last : ∀ n < p.main.stages.length, (built p w (p.main.stages.take n)).attached = false
  quiet : ∀ b t args, b.attached = false → p.fires w b t args = []
  speaks : ∀ t args, p.fires w (built p w p.main.stages) t args = if sees t then [triggered w.getpid] else []

/-- The lines that threads of a kind cause once `main` has reached its loop. -/
def reports (p : Program T P) (w : World T P) (sees : T → Prop) [DecidablePred sees] (past : List (Action T)) :
    Action T → List (Traced T)
  | .main _ => []
  | .hit t _ =>
    if (p.main.run numbers (answers past)).looping = true ∧ sees t then [⟨t, triggered w.getpid⟩] else []

theorem Orderly.fires_eq (h : Orderly p w sees) {past : List (Action T)} {s : State} (hs : Follows p w past s)
    (t : T) (args : Args) :
    p.fires w s.bpf t args =
      if (p.main.run numbers (answers past)).looping = true ∧ sees t then [triggered w.getpid] else [] := by
  have hclean := p.main.clean_run numbers h.tested (answers past)
  have hbuilt := hs.bpf
  -- before the last call has succeeded, only a proper part of the calls is made
  have hquiet : ∀ done todo, p.main.stages = done ++ todo → todo ≠ [] → p.fires w (built p w done) t args = [] := by
    intro done todo hst htodo
    have hlen : done.length < p.main.stages.length := by
      rw [hst, List.length_append]
      have := List.length_pos_of_ne_nil htodo
      omega
    have hlast := h.last done.length hlen
    rw [hst, List.take_left] at hlast
    exact h.quiet _ t args hlast
  rw [hs.setup] at hbuilt
  cases hrun : p.main.run numbers (answers past) with
  | left o =>
    rw [hrun] at hclean hbuilt
    obtain ⟨done, st, todo, hst, hb⟩ := hbuilt hclean
    rw [hb, hquiet done _ hst (List.cons_ne_nil _ _), if_neg fun hl => Bool.false_ne_true hl.1]
  | running todo f =>
    rw [hrun] at hclean hbuilt
    obtain ⟨done, hst, hb⟩ := hbuilt hclean
    cases todo with
    | cons st todo => rw [hb, hquiet done _ hst (List.cons_ne_nil _ _), if_neg fun hl => Bool.false_ne_true hl.1]
    | nil =>
      rw [List.append_nil] at hst
      rw [hb, ← hst, h.speaks]
      simp only [State.looping, true_and]

/-- A run traces the threads that the program sees, from the time at which `main` has
reached its loop. -/
theorem Orderly.outputs_eq (h : Orderly p w sees) (as : List (Action T)) :
    outputs (step p w) (start p) as = foretold (reports p w sees) [] as := by
  have hall : Allowed (fun _ _ => True) as := allowed_of_split fun _ _ _ _ => trivial
  rw [← List.map_id (outputs _ _ _)]
  refine outputs_eq_foretold id (reports p w sees) (Follows p w) follows_start ?_ as hall
  intro past s a hs _
  refine ⟨follows_step hs a, ?_⟩
  cases a with
  | main a => rfl
  | hit t args =>
    rw [List.map_id]
    simp only [step, reports, h.fires_eq hs t args]
    split_ifs
    · rfl
    · rfl

/-- What `main` sets out to ensure, in the words of its comment: the program only handles
calls from our process, and it misses none of them. -/
def Promise [DecidableEq P] (p : Program T P) (w : World T P) : Prop :=
  ∀ as, outputs (step p w) (start p) as = foretold (reports p w fun t => w.process t = w.process w.own) [] as

theorem foretold_reports_congr {sees' : T → Prop} [DecidablePred sees'] (h : ∀ t, sees t ↔ sees' t)
    (as : List (Action T)) : foretold (reports p w sees) [] as = foretold (reports p w sees') [] as := by
  have hspec : reports p w sees = reports p w sees' := by
    funext past a
    cases a with
    | main a => rfl
    | hit t args => simp only [reports, h t]
  rw [hspec]

theorem answers_replicate (n : ℕ) :
    answers (List.replicate n (.main none : Action T)) = List.replicate n none := by
  induction n with
  | zero => rfl
  | succ n ih => exact congrArg (none :: ·) ih

/-- The promise is kept by a program that sees its process. -/
theorem Orderly.promise_iff [DecidableEq P] (h : Orderly p w sees) :
    Promise p w ↔ ∀ t, sees t ↔ w.process t = w.process w.own := by
  constructor
  · intro hp t
    -- the thread passes by as soon as the loop is reached
    let as : List (Action T) := List.replicate p.main.stages.length (.main none)
    have hlooping : (p.main.run numbers (answers as)).looping = true := by
      rw [answers_replicate]
      exact p.main.looping_run_replicate numbers
    have hrun := (h.outputs_eq (as ++ [.hit t ⟨0, 0, 0⟩])).symm.trans (hp _)
    rw [foretold_concat, foretold_concat, ← h.outputs_eq as, ← hp as] at hrun
    have hline := List.append_cancel_left hrun
    simp only [List.nil_append, reports, hlooping, true_and] at hline
    by_cases hs : sees t
    · by_cases ho : w.process t = w.process w.own
      · exact iff_of_true hs ho
      · simp [hs, ho] at hline
    · by_cases ho : w.process t = w.process w.own
      · simp [hs, ho] at hline
      · exact iff_of_false hs ho
  · intro hs as
    rw [h.outputs_eq as]
    exact foretold_reports_congr hs as

end Writes

section Filters

variable (w : World T P)

/-- The lines of a handler that returns early where its test fails. -/
theorem snd_ite_not {c : Prop} [Decidable c] (early late : BitVec 32) (lines : List (List UInt8)) :
    (if ¬ c then (early, []) else (late, lines) : Handled).2 = if c then lines else [] := by
  by_cases hc : c
  · rw [if_neg (not_not.mpr hc), if_pos hc]
  · rw [if_pos hc, if_neg hc]

/-- Where the numbers agree, the line with the one is the line with the other. -/
theorem triggered_ite (pid myPid : BitVec 32) :
    (if pid = myPid then [triggered pid] else []) = if pid = myPid then [triggered myPid] else [] := by
  split_ifs with h
  · rw [h]
  · rfl

theorem orderly_minimal : Orderly minimal w fun t => pidOf (w.thread t).pidTgid = w.getpid where
  tested := (by decide : ∀ st ∈ Mains.minimal.stages, st.leave.isSome = true)
  last
    | 0, _ => rfl
    | 1, _ => rfl
    | 2, _ => rfl
    | n + 3, hn => absurd (show n + 3 < 3 from hn) (by omega)
  quiet b t args hb := by simp only [minimal, hb, Bool.false_eq_true, if_false]
  speaks t args := by
    show (if pidOf (w.thread t).pidTgid ≠ w.getpid then (0#32, []) else (0#32, [triggered _]) : Handled).2 = _
    rw [snd_ite_not, triggered_ite]

theorem orderly_minimalLegacy : Orderly minimalLegacy w fun t => pidOf (w.thread t).pidTgid = w.getpid where
  tested := (by decide : ∀ st ∈ Mains.minimalLegacy.stages, st.leave.isSome = true)
  last
    | 0, _ => rfl
    | 1, _ => rfl
    | 2, _ => rfl
    | n + 3, hn => absurd (show n + 3 < 3 from hn) (by omega)
  quiet b t args hb := by simp only [minimalLegacy, hb, Bool.false_eq_true, if_false]
  speaks t args := by
    show (if w.getpid ≠ pidOf (w.thread t).pidTgid then (1#32, []) else (0#32, [triggered _]) : Handled).2 = _
    rw [snd_ite_not, if_congr eq_comm rfl rfl, triggered_ite]

/-- What `minimal_ns` is told about a thread. -/
def World.nsPidOf (t : T) : BitVec 32 :=
  ((w.thread t).getNsCurrentPidTgid (w.thread w.own).ns.dev (w.thread w.own).ns.ino).1

theorem World.nsPidOf_eq_getpid (t : T) : w.nsPidOf t = w.getpid ↔ t = w.own := by
  unfold World.nsPidOf Thread.getNsCurrentPidTgid World.getpid
  by_cases hns : (w.thread t).ns = (w.thread w.own).ns
  · rw [if_pos hns, ← w.leader]
    exact ⟨w.nsPid_own t hns, fun ht => by rw [ht]⟩
  · rw [if_neg hns]
    refine iff_of_false (Ne.symm w.nsTgid_ne_zero) ?_
    rintro rfl
    exact hns rfl

theorem orderly_minimalNs [DecidableEq T] : Orderly minimalNs w fun t => t = w.own where
  tested := (by decide : ∀ st ∈ Mains.minimalNs.stages, st.leave.isSome = true)
  last
    | 0, _ => rfl
    | 1, _ => rfl
    | 2, _ => rfl
    | 3, _ => rfl
    | n + 4, hn => absurd (show n + 4 < 4 from hn) (by omega)
  quiet b t args hb := by simp only [minimalNs, hb, Bool.false_eq_true, if_false]
  speaks t args := by
    show (if w.nsPidOf t ≠ w.getpid then (0#32, []) else (0#32, [triggered (w.nsPidOf t)]) : Handled).2 = _
    rw [snd_ite_not, triggered_ite]
    exact if_congr (w.nsPidOf_eq_getpid t) rfl rfl

variable [DecidableEq P]

/-- `minimal` and `minimal_legacy` keep their promise exactly if the process has the same
number in the initial namespace as in its own. -/
theorem minimal_promise_iff :
    (Promise minimal w ↔ pidOf (w.thread w.own).pidTgid = w.getpid) ∧
      (Promise minimalLegacy w ↔ pidOf (w.thread w.own).pidTgid = w.getpid) := by
  have hsees : (∀ t, pidOf (w.thread t).pidTgid = w.getpid ↔ w.process t = w.process w.own) ↔
      pidOf (w.thread w.own).pidTgid = w.getpid := by
    constructor
    · intro h
      exact (h w.own).mpr rfl
    · intro h t
      rw [← h]
      exact w.tgid_own t
  exact ⟨(orderly_minimal w).promise_iff.trans hsees, (orderly_minimalLegacy w).promise_iff.trans hsees⟩

/-- A process that is number 7 in a container and 5007 outside of it. -/
def contained : World Unit Unit where
  thread _ := ⟨5007#32 ++ 5007#32, ⟨4, 4026532200⟩, 7#32, 7#32⟩
  process _ := ()
  own := ()
  tgid_own _ := iff_of_true rfl rfl
  nsPid_own _ _ _ := rfl
  leader := rfl
  nsTgid_ne_zero := by decide

example : pidOf (contained.thread contained.own).pidTgid ≠ contained.getpid := by decide

/-- In every interleaving `minimal_ns` reports the writes of the main thread of its process
and of nobody else, in every namespace: it compares the number of the thread, which is
that of the process for the main thread alone. So it keeps the promise for a process of
one thread. -/
theorem minimalNs_promise_iff [DecidableEq T] :
    (∀ as, outputs (step minimalNs w) (start (minimalNs : Program T P)) as =
      foretold (reports minimalNs w fun t => t = w.own) [] as) ∧
    (Promise minimalNs w ↔ ∀ t, w.process t = w.process w.own → t = w.own) := by
  refine ⟨(orderly_minimalNs w).outputs_eq, (orderly_minimalNs w).promise_iff.trans ?_⟩
  refine ⟨fun h t => (h t).mpr, fun h t => ⟨?_, h t⟩⟩
  rintro rfl
  rfl

end Filters

/-! ### The program that is attached twice -/

section Twice

variable [DecidableEq P] (w : World T P)

/-- `main` of `usdt.c` is in its loop, and no call has failed on the way. -/
def InLoop (as : List (Action T)) : Prop :=
  ∃ f, Mains.usdt.run numbers (answers as) = .running [] f ∧ f.failed = []

/-- The lines for a thread that passes the probe after a run. -/
def afterwards (as : List (Action T)) (t : T) (args : Args) : List (Traced T) :=
  (step usdt w (final (step usdt w) (start (usdt : Program T P)) as) (.hit t args)).2

theorem fires_usdt (t : T) (args : Args) :
    usdt.fires w (built usdt w Mains.usdt.stages) t args =
      (if pidOf (w.thread t).pidTgid = w.getpid then [args.line "auto"] else []) ++
        (if w.process t = w.process w.own then [args.line "manual"] else []) := by
  have hauto : (Usdt.usdtAutoAttach (built usdt w Mains.usdt.stages).globals (w.thread t) args).2 =
      if pidOf (w.thread t).pidTgid = w.getpid then [args.line "auto"] else [] := by
    exact snd_ite_not 0#32 0#32 [args.line "auto"]
  rw [← hauto]
  show _ ++ (if true = true ∧ w.process t = w.process w.own then [args.line "manual"] else []) = _
  simp only [true_and]
  rfl

theorem afterwards_eq {as : List (Action T)} (h : InLoop as) (t : T) (args : Args) :
    afterwards w as t args =
      (if pidOf (w.thread t).pidTgid = w.getpid then [⟨t, args.line "auto"⟩] else []) ++
        (if w.process t = w.process w.own then [⟨t, args.line "manual"⟩] else []) := by
  obtain ⟨f, hrun, hf⟩ := h
  have hs : Follows usdt w as (final (step usdt w) (start (usdt : Program T P)) as) := follows_run as
  have hbuilt := hs.bpf
  rw [hs.setup, show (usdt : Program T P).main.run numbers (answers as) = .running [] f from hrun] at hbuilt
  obtain ⟨done, hst, hb⟩ := hbuilt hf
  rw [List.append_nil] at hst
  simp only [afterwards, step]
  rw [hb, ← hst, show (usdt : Program T P).main.stages = Mains.usdt.stages from rfl, fires_usdt, List.map_append]
  split_ifs
  · rfl
  · rfl
  · rfl
  · rfl

/-- Every call of `setjmp` by the process is reported by both programs, and no other one by any. -/
def Agree : Prop :=
  ∀ as, InLoop as → ∀ t args, afterwards w as t args =
    if w.process t = w.process w.own then [⟨t, args.line "auto"⟩, ⟨t, args.line "manual"⟩] else []

theorem usdt_agree_iff : Agree w ↔ pidOf (w.thread w.own).pidTgid = w.getpid := by
  constructor
  · intro h
    have hloop : InLoop (List.replicate 5 (.main none : Action T)) := ⟨_, rfl, rfl⟩
    have hown := h _ hloop w.own ⟨0, 0, 0⟩
    rw [afterwards_eq w hloop, if_pos rfl, if_pos rfl] at hown
    by_contra hne
    rw [if_neg hne] at hown
    simp at hown
  · intro h as hloop t args
    rw [afterwards_eq w hloop, ← h]
    by_cases ht : w.process t = w.process w.own
    · rw [if_pos ht, if_pos ((w.tgid_own t).mpr ht), if_pos ht]
      rfl
    · rw [if_neg ht, if_neg (mt (w.tgid_own t).mp ht), if_neg ht]
      rfl

end Twice

end LibbpfBootstrap.OwnProcess
