import LibbpfBootstrap.Kernel.Helpers
import LibbpfBootstrap.Libc.Format
import LibbpfBootstrap.Tracing.Life

/-! The calls of `do_unlinkat` that `kprobe` and `fentry` report. Both write a line when a
thread enters the function and one when it returns. At the return `kprobe` has the result
only; `fentry` has the arguments as well, but the name is read from a memory that the
function may have given back by then. What can be told from the lines about the calls
that have returned?

The two programs of a skeleton are taken to be attached in one step and detached in one
step. -/

namespace LibbpfBootstrap.Tracing.Unlink

open Kernel Kernel.Runs Libc

/-! ### The BPF programs -/

/-- `bpf_printk`: a name of up to `room` bytes is printed as it is; what becomes of a line
with a longer one, which is cut or left out, is not looked at. -/
structure Printk where
  room : ℕ
  long : List UInt8 → List (List UInt8)

def Printk.print (k : Printk) (name line : List UInt8) : List (List UInt8) :=
  if name.length ≤ k.room then [line] else k.long line

namespace Kprobe

def doUnlinkat (k : Printk) (pidTgid : BitVec 64) (filename : List UInt8) : List (List UInt8) :=
  let pid := pidOf pidTgid
  k.print filename
    (ascii "KPROBE ENTRY pid = " ++ signedDecimal pid.toInt ++ ascii ", filename = " ++ filename ++ ascii "\n")

def doUnlinkatExit (pidTgid : BitVec 64) (ret : BitVec 64) : List (List UInt8) :=
  let pid := pidOf pidTgid
  [ascii "KPROBE EXIT: pid = " ++ signedDecimal pid.toInt ++ ascii ", ret = " ++ signedDecimal ret.toInt ++ ascii "\n"]

end Kprobe

namespace Fentry

def doUnlinkat (k : Printk) (pidTgid : BitVec 64) (filename : List UInt8) : List (List UInt8) :=
  let pid := pidOf pidTgid
  k.print filename
    (ascii "fentry: pid = " ++ signedDecimal pid.toInt ++ ascii ", filename = " ++ filename ++ ascii "\n")

def doUnlinkatExit (k : Printk) (pidTgid : BitVec 64) (filename : List UInt8) (ret : BitVec 64) : List (List UInt8) :=
  let pid := pidOf pidTgid
  k.print filename
    (ascii "fexit: pid = " ++ signedDecimal pid.toInt ++ ascii ", filename = " ++ filename ++ ascii ", ret = " ++
      signedDecimal ret.toInt ++ ascii "\n")

end Fentry

/-! ### The machine -/

variable {T : Type*}

/-- A thread enters the function with a name, and its return is hooked if the kernel can
hook another one; or it returns, and the memory of the name then holds something else, if
it was given back and used again. -/
inductive Event (T : Type*)
  | enter (t : T) (name : List UInt8) (hooked : Bool)
  | leave (t : T) (ret : BitVec 64) (reused : Option (List UInt8))

/-- A call of the function that has returned. -/
structure Returned where
  pid : BitVec 32
  name : List UInt8
  ret : BitVec 64

/-- What the programs are run for: an entry, with the name; a return, with what the memory
of the name holds, and the name itself, which the programs are not told. -/
inductive Traced
  | entry (pidTgid : BitVec 64) (name : List UInt8)
  | exit (pidTgid : BitVec 64) (held : List UInt8) (ret : BitVec 64) (name : List UInt8)

def Traced.returned : Traced → Option Returned
  | .entry _ _ => none
  | .exit pidTgid _ ret name => some ⟨pidOf pidTgid, name, ret⟩

/-- The threads in the function, each with its name if the return is hooked. -/
abbrev Inside (T : Type*) := T → Option (Option (List UInt8))

def world [DecidableEq T] (pidTgid : T → BitVec 64) (attached : Bool) (inside : Inside T) :
    Event T → Inside T × List Traced
  | .enter t name hooked =>
    match inside t with
    | some _ => (inside, [])
    | none =>
      if attached then
        (Function.update inside t (some (if hooked then some name else none)), [.entry (pidTgid t) name])
      else (Function.update inside t (some none), [])
  | .leave t ret reused =>
    match inside t with
    | none => (inside, [])
    | some none => (Function.update inside t none, [])
    | some (some name) =>
      (Function.update inside t none, if attached then [.exit (pidTgid t) (reused.getD name) ret name] else [])

/-- Some threads may be in the function when the program is started. -/
def Inside.start (busy : T → Bool) : Inside T := fun t => if busy t then some none else none

/-- The two programs. -/
inductive Program
  | kprobe | fentry

def Program.lines (k : Printk) : Program → Traced → List (List UInt8)
  | .kprobe, .entry pidTgid name => Kprobe.doUnlinkat k pidTgid name
  | .kprobe, .exit pidTgid _ ret _ => Kprobe.doUnlinkatExit pidTgid ret
  | .fentry, .entry pidTgid name => Fentry.doUnlinkat k pidTgid name
  | .fentry, .exit pidTgid held ret _ => Fentry.doUnlinkatExit k pidTgid held ret

section Runs

variable [DecidableEq T] (pidTgid : T → BitVec 64) (busy : T → Bool)

def traced (as : List (Action (Event T))) : List Traced :=
  outputs (step (world pidTgid)) (Life.start, Inside.start busy) as

/-- The trace of a run. -/
def trace (k : Printk) (p : Program) (as : List (Action (Event T))) : List (List UInt8) :=
  (traced pidTgid busy as).flatMap (p.lines k)

/-- The calls that return in a run, as far as they are traced. -/
def returned (as : List (Action (Event T))) : List Returned := (traced pidTgid busy as).filterMap Traced.returned

end Runs

/-- No name, and nothing that the memory of one holds later, is longer than what is printed. -/
structure Short (k : Printk) (as : List (Action (Event T))) : Prop where
  name : ∀ t name hooked, .event (.enter t name hooked) ∈ as → name.length ≤ k.room
  reused : ∀ t ret held, .event (.leave t ret (some held)) ∈ as → held.length ≤ k.room

/-- What returns in a run of some kind with short names can be told from the trace. -/
def Tells [DecidableEq T] (k : Printk) (p : Program) (pidTgid : T → BitVec 64)
    (kind : List (Action (Event T)) → Prop) : Prop :=
  ∀ busy busy' as as', kind as → kind as' → Short k as → Short k as' →
    trace pidTgid busy k p as = trace pidTgid busy' k p as' → returned pidTgid busy as = returned pidTgid busy' as'

/-- The memory of a name is not used again before the return. -/
def Kept (as : List (Action (Event T))) : Prop :=
  ∀ t ret reused, .event (.leave t ret reused) ∈ as → reused = none

/-! ### What the lines tell -/

/-- The content of a line: at a return, with the name that it shows or without. -/
inductive Line
  | entry (pid : BitVec 32) (name : List UInt8)
  | exit (pid : BitVec 32) (held : Option (List UInt8)) (ret : BitVec 64)

def Program.content : Program → Traced → Line
  | _, .entry pidTgid name => .entry (pidOf pidTgid) name
  | .kprobe, .exit pidTgid _ ret _ => .exit (pidOf pidTgid) none ret
  | .fentry, .exit pidTgid held ret _ => .exit (pidOf pidTgid) (some held) ret

def kprobeEntry : Format := ⟨[ascii "KPROBE ENTRY pid = "], ascii ", filename = ", ascii "\n", []⟩

def kprobeExit : Format := ⟨[ascii "KPROBE EXIT: pid = ", ascii ", ret = "], ascii "\n", [], []⟩

def fentryEntry : Format := ⟨[ascii "fentry: pid = "], ascii ", filename = ", ascii "\n", []⟩

def fentryExit : Format := ⟨[ascii "fexit: pid = "], ascii ", filename = ", ascii ", ret = ", [ascii "\n"]⟩

def Line.text (p : Program) : Line → List UInt8
  | .entry pid name =>
    match p with
    | .kprobe => kprobeEntry.line ⟨[pid.toInt], name, [], rfl, rfl⟩
    | .fentry => fentryEntry.line ⟨[pid.toInt], name, [], rfl, rfl⟩
  | .exit pid none ret => kprobeExit.line ⟨[pid.toInt, ret.toInt], [], [], rfl, rfl⟩
  | .exit pid (some held) ret => fentryExit.line ⟨[pid.toInt], held, [ret.toInt], rfl, rfl⟩

/-- The names of a line fit in it. -/
def Traced.Fits (k : Printk) : Traced → Prop
  | .entry _ name => name.length ≤ k.room
  | .exit _ held _ _ => held.length ≤ k.room

theorem lines_eq_text {k : Printk} (p : Program) {x : Traced} (h : x.Fits k) : p.lines k x = [(p.content x).text p] := by
  cases x with
  | entry pidTgid name =>
    have h : name.length ≤ k.room := h
    cases p with
    | kprobe =>
      simp [Program.lines, Kprobe.doUnlinkat, Printk.print, h, Program.content, Line.text, Format.line, spell, kprobeEntry]
    | fentry =>
      simp [Program.lines, Fentry.doUnlinkat, Printk.print, h, Program.content, Line.text, Format.line, spell, fentryEntry]
  | exit pidTgid held ret name =>
    have h : held.length ≤ k.room := h
    cases p with
    | kprobe =>
      simp [Program.lines, Kprobe.doUnlinkatExit, Program.content, Line.text, Format.line, spell, kprobeExit]
    | fentry =>
      simp [Program.lines, Fentry.doUnlinkatExit, Printk.print, h, Program.content, Line.text, Format.line, spell,
        fentryExit]

/-- The formats differ in the ninth byte. -/
def Line.mark (p : Program) : Line → UInt8
  | .entry _ _ =>
    match p with
    | .kprobe => 78
    | .fentry => 112
  | .exit _ none _ => 88
  | .exit _ (some _) _ => 105

theorem text_mark (p : Program) (l : Line) : (l.text p)[8]? = some (l.mark p) := by
  cases l with
  | entry pid name => cases p <;> rfl
  | exit pid held ret => cases held <;> rfl

theorem text_injective (p : Program) : Function.Injective (Line.text p) := by
  intro l l' h
  have hmark : l.mark p = l'.mark p := by
    have := congrArg (fun s : List UInt8 => s[8]?) h
    simp only [text_mark] at this
    exact Option.some.inj this
  cases l with
  | entry pid name =>
    cases l' with
    | entry pid' name' =>
      have ha : [pid.toInt] = [pid'.toInt] ∧ name = name' := by
        cases p with
        | kprobe =>
          have := Format.Args.ext_iff.mp (Format.line_inj (by decide : kprobeEntry.Readable) h)
          exact ⟨this.1, this.2.1⟩
        | fentry =>
          have := Format.Args.ext_iff.mp (Format.line_inj (by decide : fentryEntry.Readable) h)
          exact ⟨this.1, this.2.1⟩
      simp only [List.cons.injEq, BitVec.toInt_inj, and_true] at ha
      rw [ha.1, ha.2]
    | exit pid' held' ret' => cases p <;> cases held' <;> simp [Line.mark] at hmark
  | exit pid held ret =>
    cases l' with
    | entry pid' name' => cases p <;> cases held <;> simp [Line.mark] at hmark
    | exit pid' held' ret' =>
      cases held with
      | none =>
        cases held' with
        | none =>
          have ha : [pid.toInt, ret.toInt] = [pid'.toInt, ret'.toInt] :=
            (Format.Args.ext_iff.mp (Format.line_inj (by decide : kprobeExit.Readable) h)).1
          simp only [List.cons.injEq, BitVec.toInt_inj, and_true] at ha
          rw [ha.1, ha.2]
        | some held' => simp [Line.mark] at hmark
      | some held =>
        cases held' with
        | none => simp [Line.mark] at hmark
        | some held' =>
          have ha : [pid.toInt] = [pid'.toInt] ∧ held = held' ∧ [ret.toInt] = [ret'.toInt] :=
            Format.Args.ext_iff.mp (Format.line_inj (by decide : fentryExit.Readable) h)
          simp only [List.cons.injEq, BitVec.toInt_inj, and_true] at ha
          rw [ha.1, ha.2.1, ha.2.2]

/-! ### What a step does -/

section Outcome

variable [DecidableEq T] (pidTgid : T → BitVec 64)

/-- Nothing is seen, and nobody gets a name; a thread enters and is seen; or a thread
returns that was seen. -/
inductive Outcome (inside : Inside T) (a : Action (Event T)) : Inside T → List Traced → Prop
  | silent (inside' : Inside T) (h : ∀ t name, inside' t = some (some name) → inside t = some (some name)) :
    Outcome inside a inside' []
  | entered (t : T) (name : List UInt8) (hook : Option (List UInt8)) (h : ∀ n ∈ hook, n = name)
    (ha : ∃ hooked, a = .event (.enter t name hooked)) :
    Outcome inside a (Function.update inside t (some hook)) [.entry (pidTgid t) name]
  | left (t : T) (ret : BitVec 64) (reused : Option (List UInt8)) (name : List UInt8)
    (hin : inside t = some (some name)) (ha : a = .event (.leave t ret reused)) :
    Outcome inside a (Function.update inside t none) [.exit (pidTgid t) (reused.getD name) ret name]

/-- A thread without a name of its own takes none from the others. -/
theorem name_of_update {inside : Inside T} {t : T} {v : Option (Option (List UInt8))} (hv : ∀ name, v ≠ some (some name))
    {t' : T} {name : List UInt8} (h : Function.update inside t v t' = some (some name)) :
    t' ≠ t ∧ inside t' = some (some name) := by
  by_cases ht : t' = t
  · subst ht
    rw [Function.update_self] at h
    exact absurd h (hv name)
  · rw [Function.update_of_ne ht] at h
    exact ⟨ht, h⟩

theorem step_outcome (s : Life × Inside T) (a : Action (Event T)) :
    Outcome pidTgid s.2 a (step (world pidTgid) s a).1.2 (step (world pidTgid) s a).2 := by
  cases a with
  | main a => exact .silent s.2 fun _ _ h => h
  | sigint => exact .silent s.2 fun _ _ h => h
  | event e =>
    cases e with
    | enter t name hooked =>
      cases hin : s.2 t with
      | some hook =>
        simp only [step, world, hin]
        exact .silent s.2 fun _ _ h => h
      | none =>
        cases hon : s.1.attached with
        | true =>
          simp only [step, world, hin, hon, if_true]
          refine .entered t name _ (fun n hn => ?_) ⟨hooked, rfl⟩
          cases hooked with
          | true => exact (Option.some.inj hn).symm
          | false => cases hn
        | false =>
          simp only [step, world, hin, hon, Bool.false_eq_true, if_false]
          exact .silent _ fun _ _ h => (name_of_update (by simp) h).2
    | leave t ret reused =>
      rcases hin : s.2 t with _ | _ | name
      · simp only [step, world, hin]
        exact .silent s.2 fun _ _ h => h
      · simp only [step, world, hin]
        exact .silent _ fun _ _ h => (name_of_update (by simp) h).2
      · cases hon : s.1.attached with
        | true =>
          simp only [step, world, hin, hon, if_true]
          exact .left t ret reused name hin rfl
        | false =>
          simp only [step, world, hin, hon, Bool.false_eq_true, if_false]
          exact .silent _ fun _ _ h => (name_of_update (by simp) h).2

variable {pidTgid} {k : Printk}

/-- The names of the threads in the function fit in a line. -/
def Inside.Fits (k : Printk) (inside : Inside T) : Prop := ∀ t name, inside t = some (some name) → name.length ≤ k.room

omit [DecidableEq T] in
/-- A thread that was in the function before has no name. -/
theorem Inside.start_ne_name (busy : T → Bool) (t : T) (name : List UInt8) :
    Inside.start busy t ≠ some (some name) := by
  unfold Inside.start
  split_ifs <;> simp

omit [DecidableEq T] in
theorem short_append {as bs : List (Action (Event T))} (h : Short k (as ++ bs)) : Short k as ∧ Short k bs :=
  ⟨⟨fun t name hooked hm => h.name t name hooked (List.mem_append_left _ hm),
      fun t ret held hm => h.reused t ret held (List.mem_append_left _ hm)⟩,
    ⟨fun t name hooked hm => h.name t name hooked (List.mem_append_right _ hm),
      fun t ret held hm => h.reused t ret held (List.mem_append_right _ hm)⟩⟩

theorem Outcome.fits {inside inside' : Inside T} {a : Action (Event T)} {out : List Traced}
    (ho : Outcome pidTgid inside a inside' out) (h : Short k [a]) (hin : inside.Fits k) :
    inside'.Fits k ∧ ∀ x ∈ out, x.Fits k := by
  cases ho with
  | silent _ hsub => exact ⟨fun t name ht => hin t name (hsub t name ht), fun x hx => nomatch hx⟩
  | entered t name hook hhook ha =>
    obtain ⟨hooked, rfl⟩ := ha
    have hname : name.length ≤ k.room := h.name t name hooked List.mem_cons_self
    refine ⟨fun t' name' ht => ?_, fun x hx => ?_⟩
    · by_cases htt : t' = t
      · subst htt
        rw [Function.update_self] at ht
        rw [hhook name' (Option.some.inj ht)]
        exact hname
      · rw [Function.update_of_ne htt] at ht
        exact hin t' name' ht
    · rw [List.mem_singleton.mp hx]
      exact hname
  | left t ret reused name hname ha =>
    subst ha
    refine ⟨fun t' name' ht => hin t' name' (name_of_update (by simp) ht).2, fun x hx => ?_⟩
    rw [List.mem_singleton.mp hx]
    cases reused with
    | none => exact hin t name hname
    | some held => exact h.reused t ret held List.mem_cons_self

/-- In a run with short names all lines have room for theirs. -/
theorem fits_traced {busy : T → Bool} {as : List (Action (Event T))} (h : Short k as) :
    ∀ x ∈ traced pidTgid busy as, x.Fits k := by
  suffices hs : (final (step (world pidTgid)) (Life.start, Inside.start busy) as).2.Fits k ∧
      ∀ x ∈ traced pidTgid busy as, x.Fits k from hs.2
  -- the names of the threads in the function are carried along
  induction as using List.reverseRecOn with
  | nil => exact ⟨fun t name ht => absurd ht (Inside.start_ne_name busy t name), fun x hx => nomatch hx⟩
  | append_singleton as a ih =>
    obtain ⟨hpast, ha⟩ := short_append h
    obtain ⟨hin, hout⟩ := ih hpast
    obtain ⟨hin', hnew⟩ := (step_outcome pidTgid _ a).fits ha hin
    rw [traced, outputs_concat, final_concat, ← traced]
    refine ⟨hin', fun x hx => ?_⟩
    rcases List.mem_append.mp hx with hx | hx
    · exact hout x hx
    · exact hnew x hx

theorem trace_eq_map {busy : T → Bool} {as : List (Action (Event T))} (h : Short k as) (p : Program) :
    trace pidTgid busy k p as = ((traced pidTgid busy as).map p.content).map (Line.text p) := by
  have hlines : ∀ x ∈ traced pidTgid busy as, p.lines k x = [(p.content x).text p] :=
    fun x hx => lines_eq_text p (fits_traced h x hx)
  rw [trace, List.flatMap_congr hlines, List.map_map]
  exact List.map_eq_flatMap.symm

theorem contents_eq_of_trace_eq {p : Program} {busy busy' : T → Bool} {as as' : List (Action (Event T))}
    (hs : Short k as) (hs' : Short k as') (h : trace pidTgid busy k p as = trace pidTgid busy' k p as') :
    (traced pidTgid busy as).map p.content = (traced pidTgid busy' as').map p.content := by
  rw [trace_eq_map hs, trace_eq_map hs'] at h
  exact List.map_injective_iff.mpr (text_injective p) h

end Outcome

/-! ### From the lines to the calls -/

/-- Each return with the last name that its process has entered with. -/
def pairing (last : BitVec 32 → Option (List UInt8)) : List Line → List Returned
  | [] => []
  | .entry pid name :: ls => pairing (Function.update last pid (some name)) ls
  | .exit pid _ ret :: ls => ⟨pid, (last pid).getD [], ret⟩ :: pairing last ls

/-- Each return with the name that its line shows. -/
def shown : Line → Option Returned
  | .entry _ _ => none
  | .exit pid held ret => some ⟨pid, held.getD [], ret⟩

section Tells

variable [DecidableEq T] {pidTgid : T → BitVec 64} {k : Printk}

/-- With one thread in every process, a thread that returns has entered last. -/
theorem filterMap_returned_eq_pairing (hinj : Function.Injective fun t => pidOf (pidTgid t)) (p : Program)
    (as : List (Action (Event T))) (s : Life × Inside T) (last : BitVec 32 → Option (List UInt8))
    (hlast : ∀ t name, s.2 t = some (some name) → last (pidOf (pidTgid t)) = some name) :
    (outputs (step (world pidTgid)) s as).filterMap Traced.returned =
      pairing last ((outputs (step (world pidTgid)) s as).map p.content) := by
  induction as generalizing s last with
  | nil => rfl
  | cons a as ih =>
    rw [outputs_cons, List.filterMap_append, List.map_append]
    have hout := step_outcome pidTgid s a
    generalize hin : (step (world pidTgid) s a).1.2 = inside' at hout
    generalize (step (world pidTgid) s a).2 = out at hout ⊢
    cases hout with
    | silent _ h =>
      refine ih _ last fun t name ht => ?_
      rw [hin] at ht
      exact hlast t name (h t name ht)
    | entered t name hook hhook _ =>
      refine ih _ _ fun t' name' ht => ?_
      rw [hin] at ht
      by_cases htt : t' = t
      · subst htt
        rw [Function.update_self] at ht ⊢
        exact congrArg some (hhook name' (Option.some.inj ht)).symm
      · rw [Function.update_of_ne htt] at ht
        rw [Function.update_of_ne (hinj.ne htt)]
        exact hlast t' name' ht
    | left t ret reused name hname ha =>
      have hpaired : pairing last ([Traced.exit (pidTgid t) (reused.getD name) ret name].map p.content ++
          (outputs (step (world pidTgid)) (step (world pidTgid) s a).1 as).map p.content) =
          ⟨pidOf (pidTgid t), name, ret⟩ ::
            pairing last ((outputs (step (world pidTgid)) (step (world pidTgid) s a).1 as).map p.content) := by
        cases p <;> simp [Program.content, pairing, hlast t name hname]
      rw [hpaired]
      refine congrArg (List.cons _) (ih _ last fun t' name' ht => ?_)
      rw [hin] at ht
      exact hlast t' name' (name_of_update (by simp) ht).2

/-- A line that shows a name shows that of the call, where the memory was kept. -/
theorem filterMap_returned_eq_shown {busy : T → Bool} {as : List (Action (Event T))} (hkept : Kept as) :
    returned pidTgid busy as = ((traced pidTgid busy as).map Program.fentry.content).filterMap shown := by
  rw [List.filterMap_map]
  refine List.filterMap_congr fun x hx => ?_
  obtain ⟨past, a, rest, has, hstep⟩ := (mem_outputs _ _ _ _).mp hx
  have hout := step_outcome pidTgid (final (step (world pidTgid)) (Life.start, Inside.start busy) past) a
  generalize (step (world pidTgid) (final (step (world pidTgid)) (Life.start, Inside.start busy) past) a).1.2 = inside'
    at hout
  generalize (step (world pidTgid) (final (step (world pidTgid)) (Life.start, Inside.start busy) past) a).2 = out
    at hout hstep
  cases hout with
  | silent _ h => cases hstep
  | entered t name hook hhook _ =>
    rw [List.mem_singleton.mp hstep]
    rfl
  | left t ret reused name hin ha =>
    have hreused := hkept t ret reused (by rw [has, ← ha]; simp)
    rw [List.mem_singleton.mp hstep, hreused]
    rfl

theorem tells_of_injective (hinj : Function.Injective fun t => pidOf (pidTgid t)) (p : Program)
    (kind : List (Action (Event T)) → Prop) : Tells k p pidTgid kind := by
  intro busy busy' as as' _ _ hs hs' h
  have hpairing (busy : T → Bool) (as : List (Action (Event T))) :
      returned pidTgid busy as = pairing (fun _ => none) ((traced pidTgid busy as).map p.content) :=
    filterMap_returned_eq_pairing hinj p as _ _ fun t name ht => absurd ht (Inside.start_ne_name busy t name)
  rw [hpairing, hpairing, contents_eq_of_trace_eq hs hs' h]

theorem fentry_tells : Tells k .fentry pidTgid Kept := by
  intro busy busy' as as' hkept hkept' hs hs' h
  rw [filterMap_returned_eq_shown hkept, filterMap_returned_eq_shown hkept', contents_eq_of_trace_eq hs hs' h]

end Tells

/-! ### Two threads of one process -/

section Overlap

variable [DecidableEq T] (pidTgid : T → BitVec 64)

/-- Two threads enter, with the names `a` and `b`, and one of them returns. -/
def overlap (t t' who : T) (reused : Option (List UInt8)) : List (Action (Event T)) :=
  succeed ++ [.event (.enter t (ascii "a") true), .event (.enter t' (ascii "b") true), .event (.leave who 0#64 reused)]

theorem traced_overlap {t t' who : T} (hne : t ≠ t') (reused : Option (List UInt8)) {name : List UInt8}
    (hwho : who = t ∧ name = ascii "a" ∨ who = t' ∧ name = ascii "b") :
    traced pidTgid (fun _ => false) (overlap t t' who reused) =
      [.entry (pidTgid t) (ascii "a"), .entry (pidTgid t') (ascii "b"),
        .exit (pidTgid who) (reused.getD name) 0#64 name] := by
  -- the life at the end of the three calls, in which the events are seen
  obtain ⟨l, hon, hfinal⟩ : ∃ l : Life, l.attached = true ∧
      final (step (world pidTgid)) (Life.start, Inside.start fun _ => false) succeed =
        (l, Inside.start fun _ => false) := ⟨_, rfl, rfl⟩
  have hquiet : outputs (step (world pidTgid)) (Life.start, Inside.start fun _ => false) succeed = [] := rfl
  have hin (t : T) : Inside.start (fun _ : T => false) t = none := rfl
  rw [traced, overlap, outputs_append, hquiet, hfinal, List.nil_append]
  rcases hwho with ⟨rfl, rfl⟩ | ⟨rfl, rfl⟩
  · simp [step, world, hon, hin, Function.update_of_ne hne, Function.update_of_ne hne.symm]
  · simp [step, world, hon, hin, Function.update_of_ne hne.symm]

omit [DecidableEq T] in
theorem short_overlap {k : Printk} (hroom : 0 < k.room) (t t' who : T) {reused : Option (List UInt8)}
    (hreused : ∀ held ∈ reused, held.length ≤ k.room) : Short k (overlap t t' who reused) := by
  constructor
  · intro u name hooked hmem
    simp only [overlap, succeed, List.mem_append, List.mem_replicate, List.mem_cons, Action.event.injEq,
      Event.enter.injEq, reduceCtorEq, List.not_mem_nil, and_false, or_false, false_or] at hmem
    rcases hmem with ⟨-, rfl, -⟩ | ⟨-, rfl, -⟩
    · exact hroom
    · exact hroom
  · intro u ret held hmem
    have hheld : u = who ∧ ret = 0#64 ∧ some held = reused := by simpa [overlap, succeed] using hmem
    exact hreused held hheld.2.2.symm

variable {pidTgid}

/-- Who has returned cannot be told where the lines of both do not differ. -/
theorem not_tells {k : Printk} (hroom : 0 < k.room) {p : Program} {kind : List (Action (Event T)) → Prop} {t t' : T}
    (hne : t ≠ t') (reused : Option (List UInt8)) (hreused : ∀ held ∈ reused, held.length ≤ k.room)
    (hkind : ∀ who, kind (overlap t t' who reused))
    (hline : p.content (.exit (pidTgid t) (reused.getD (ascii "a")) 0#64 (ascii "a")) =
      p.content (.exit (pidTgid t') (reused.getD (ascii "b")) 0#64 (ascii "b"))) : ¬ Tells k p pidTgid kind := by
  intro h
  have ht := traced_overlap pidTgid hne reused (Or.inl ⟨rfl, rfl⟩)
  have ht' := traced_overlap pidTgid hne reused (Or.inr ⟨rfl, rfl⟩)
  have hshort (who : T) := short_overlap hroom t t' who hreused
  have htrace : trace pidTgid (fun _ => false) k p (overlap t t' t reused) =
      trace pidTgid (fun _ => false) k p (overlap t t' t' reused) := by
    rw [trace_eq_map (hshort t), trace_eq_map (hshort t'), ht, ht']
    simp only [List.map_cons, hline]
  have hreturned := h _ _ _ _ (hkind t) (hkind t') (hshort t) (hshort t') htrace
  rw [returned, returned, ht, ht'] at hreturned
  have hname : [ascii "a"] = [ascii "b"] := congrArg (List.map Returned.name) hreturned
  exact absurd hname (by decide)

/-- What has returned can be told from the lines of `kprobe` exactly if no two threads have
the number of one process, whether or not the memory of the names is kept until the return.
From those of `fentry` it can be told where it is kept; where it may not be, `fentry` is no
better than `kprobe`. All this is about names that are printed as they are. -/
theorem tells_iff (k : Printk) (hroom : 0 < k.room) (pidTgid : T → BitVec 64) :
    (∀ kind : List (Action (Event T)) → Prop, (∀ as, Kept as → kind as) →
        (Tells k .kprobe pidTgid kind ↔ Function.Injective fun t => pidOf (pidTgid t))) ∧
      Tells k .fentry pidTgid Kept ∧
      (Tells k .fentry pidTgid (fun _ => True) ↔ Function.Injective fun t => pidOf (pidTgid t)) := by
  refine ⟨fun kind hsub => ⟨fun h t t' hpid => ?_, fun hinj => tells_of_injective hinj _ _⟩, fentry_tells,
    ⟨fun h t t' hpid => ?_, fun hinj => tells_of_injective hinj _ _⟩⟩
  · by_contra hne
    have hkept (who : T) : Kept (overlap t t' who none) := by
      intro u ret reused hmem
      have hleave : u = who ∧ ret = 0#64 ∧ reused = none := by simpa [overlap, succeed] using hmem
      exact hleave.2.2
    refine not_tells hroom hne none (fun _ hc => nomatch hc) (fun who => hsub _ (hkept who)) ?_ h
    simp only [Program.content, show pidOf (pidTgid t) = pidOf (pidTgid t') from hpid]
  · by_contra hne
    have hshort : ∀ held ∈ some (ascii "c"), held.length ≤ k.room := by
      intro held hheld
      rw [← Option.some.inj hheld]
      exact hroom
    refine not_tells hroom hne (some (ascii "c")) hshort (fun _ => trivial) ?_ h
    simp only [Program.content, show pidOf (pidTgid t) = pidOf (pidTgid t') from hpid]
    rfl

/-- With room for 400 bytes, and one thread in each of two processes. -/
theorem tells_two_processes :
    Tells ⟨400, fun _ => []⟩ .kprobe (fun b : Bool => if b then 7#32 ++ 7#32 else 9#32 ++ 9#32) Kept :=
  ((tells_iff ⟨400, fun _ => []⟩ (by decide) _).1 Kept fun _ h => h).mpr (by decide)

end Overlap

end LibbpfBootstrap.Tracing.Unlink
