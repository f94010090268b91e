import LibbpfBootstrap.Kernel.Runs
import LibbpfBootstrap.Mains

/-! `lsm` among the other programs. Its BPF program sits at the hook for the system call
`bpf()` and refuses every call. Any number of instances of the programs set themselves
up at once, in any order of their calls; from the moment at which one instance of `lsm`
is attached, a program that is not loaded yet does not get to its loop any more, and
this holds for further instances of `lsm` as well. `lsm` itself never ends; that a process
is killed is not part of the model. -/

namespace LibbpfBootstrap.Lsm

open Kernel.Runs Libc Libc.Setup Mains

def eperm : ℤ := 1

/-- `lsm_bpf`: what it returns for the result of the program before it, and the lines. -/
def lsmBpf (ret : ℤ) : ℤ × List String :=
  if ret ≠ 0 then (ret, []) else (-eperm, ["LSM: block bpf() worked"])

/-- The hook with a number of these programs, one after the other. -/
def hook : ℕ → ℤ × List String
  | 0 => (0, [])
  | n + 1 =>
    let r := lsmBpf (hook n).1
    (r.1, (hook n).2 ++ r.2)

/-- The calls that need the system call. Some of those that attach a program have other ways. -/
def usesBpf (p : Program) : Call → Bool
  | .openAndLoad | .load | .updateElem | .iterCreate | .ringBufferNew => true
  | .attach => p == .lsm || p == .fentry || p == .taskIter
  | _ => false

/-- The calls that load the programs of a skeleton. -/
def loads : Call → Bool
  | .openAndLoad | .load => true
  | _ => false

/-- The calls that fail on a program that is not loaded. -/
def needsLoaded : Call → Bool
  | .attach | .attachUprobe | .attachUretprobe | .attachUsdt | .attachPerfEvent => true
  | _ => false

variable {I : Type*} [DecidableEq I]

/-- Where each instance is, whether its programs are loaded, and how many instances of
`lsm` are attached. -/
structure State (I : Type*) where
  setup : I → Setup.State Call Resource String ℤ
  loaded : I → Bool
  attached : ℕ

/-- The answer to a call: the hook refuses it, or it cannot be granted, or the rest of
the kernel decides. -/
def answer (p : Program) (loaded : Bool) (attached : ℕ) (call : Call) (a : Option Code) : Option Code :=
  if usesBpf p call = true ∧ (hook attached).1 ≠ 0 then some ⟨1, by decide⟩
  else if needsLoaded call = true ∧ loaded = false then einval
  else a

/-- An instance makes its next call. -/
def step (p : I → Program) (s : State I) : I × Option Code → State I × List String
  | (i, a) =>
    match s.setup i with
    | .running (st :: todo) f =>
      let a := answer (p i) (s.loaded i) s.attached st.call a
      (⟨Function.update s.setup i ((p i).main.step numbers (.running (st :: todo) f) a),
        if a.isNone = true ∧ loads st.call = true then Function.update s.loaded i true else s.loaded,
        if a.isNone = true ∧ p i = .lsm ∧ st.call = .attach then s.attached + 1 else s.attached⟩,
       if usesBpf (p i) st.call then (hook s.attached).2 else [])
    | _ => (s, [])

def start (p : I → Program) : State I := ⟨fun i => (p i).main.start, fun _ => false, 0⟩

/-! ### The hook -/

/-- One program or many: a call is refused, and one line says so. -/
theorem hook_of_pos {n : ℕ} (h : 0 < n) : hook n = (-eperm, ["LSM: block bpf() worked"]) := by
  induction n with
  | zero => exact absurd h (Nat.lt_irrefl 0)
  | succ n ih =>
    cases n with
    | zero => rfl
    | succ n => rw [hook, ih (Nat.succ_pos n)]; rfl

theorem answer_of_usesBpf {p : Program} {attached : ℕ} {call : Call} (hcall : usesBpf p call = true)
    (hon : 0 < attached) (loaded : Bool) (a : Option Code) : answer p loaded attached call a ≠ none := by
  have hne : (hook attached).1 ≠ 0 := by
    rw [hook_of_pos hon]
    decide
  rw [answer, if_pos ⟨hcall, hne⟩]
  exact Option.some_ne_none _

theorem answer_of_needsLoaded {call : Call} (hcall : needsLoaded call = true) (p : Program) (attached : ℕ)
    (a : Option Code) : answer p false attached call a ≠ none := by
  unfold answer
  split_ifs with h1 h2
  · exact Option.some_ne_none _
  · exact Option.some_ne_none _
  · exact absurd ⟨hcall, rfl⟩ h2

/-! ### What an instance has to go through -/

/-- A call that is tested, and that loads the programs or needs them loaded. -/
def Gate (st : Mains.Stage) : Prop := st.leave.isSome = true ∧ (loads st.call = true ∨ needsLoaded st.call = true)

instance (st : Mains.Stage) : Decidable (Gate st) := inferInstanceAs (Decidable (_ ∧ _))

/-- An instance that is not loaded has such a call before it. -/
def Ahead (loaded : Bool) : Setup.State Call Resource String ℤ → Prop
  | .running todo _ => loaded = true ∨ ∃ st ∈ todo, Gate st
  | .left _ => True

theorem ahead_start (p : Program) : Ahead false p.main.start := by
  have hgate : ∃ st ∈ p.main.stages, Gate st := by
    cases p with
    | profile swEvent enoent online =>
      obtain ⟨st, hst, hgate⟩ : ∃ st ∈ profileHead, Gate st := by decide
      exact ⟨st, List.mem_append_left _ hst, hgate⟩
    | _ => decide
  exact Or.inr hgate

theorem Ahead.of_loaded (s : Setup.State Call Resource String ℤ) : Ahead true s := by
  cases s with
  | left o => trivial
  | running todo f => exact Or.inl rfl

theorem ahead_step {p : Program} {loaded : Bool} {st : Mains.Stage} {todo : List Mains.Stage}
    {f : Frame Call Resource String ℤ} (h : Ahead loaded (.running (st :: todo) f)) {a : Option Code}
    (hload : a = none → loads st.call = false) (hneeds : needsLoaded st.call = true → loaded = false → a ≠ none) :
    Ahead loaded (p.main.step numbers (.running (st :: todo) f) a) := by
  cases loaded with
  | true => exact Ahead.of_loaded _
  | false =>
    obtain ⟨g, hg, htest, hcall⟩ : ∃ g ∈ st :: todo, Gate g := h.resolve_left Bool.false_ne_true
    cases a with
    | none =>
      -- the call that was passed is not the one to wait for
      have hne : g ≠ st := by
        rintro rfl
        rcases hcall with hl | hn
        · rw [hload rfl] at hl
          exact Bool.false_ne_true hl
        · exact hneeds hn rfl rfl
      exact Or.inr ⟨g, (List.mem_cons.mp hg).resolve_left hne, htest, hcall⟩
    | some c =>
      rcases p.main.fail_cases numbers st todo c f with ⟨hleave, hrun⟩ | ⟨-, o, hleft, -⟩
      · have hne : g ≠ st := by
          rintro rfl
          rw [hleave] at htest
          exact Bool.false_ne_true htest
        simp only [Main.step, hrun]
        exact Or.inr ⟨g, (List.mem_cons.mp hg).resolve_left hne, htest, hcall⟩
      · simp only [Main.step, hleft]
        trivial

/-! ### Every interleaving -/

section Runs

variable (p : I → Program)

/-- At most one `lsm` is attached, and every instance is loaded before it reaches its loop. -/
structure Inv (s : State I) : Prop where
  once : s.attached ≤ 1
  ahead : ∀ i, Ahead (s.loaded i) (s.setup i)

theorem inv_step {s : State I} (h : Inv s) (m : I × Option Code) : Inv (step p s m).1 := by
  obtain ⟨i, a⟩ := m
  have hi := h.ahead i
  cases hs : s.setup i with
  | left o => simpa only [step, hs] using h
  | running todo f =>
    cases todo with
    | nil => simpa only [step, hs] using h
    | cons st todo =>
      simp only [step, hs]
      rw [hs] at hi
      generalize ha : answer (p i) (s.loaded i) s.attached st.call a = b
      constructor
      · dsimp only
        split_ifs with hc
        · -- the attachment was not refused, so there was none before
          obtain ⟨hnone, hp, hcall⟩ := hc
          have hzero : ¬ 0 < s.attached := fun hon =>
            answer_of_usesBpf (by rw [hp, hcall]; rfl) hon (s.loaded i) a (ha.trans (Option.isNone_iff_eq_none.mp hnone))
          omega
        · exact h.once
      · intro j
        dsimp only
        by_cases hj : j = i
        · subst hj
          rw [Function.update_self]
          split_ifs with hc
          · rw [Function.update_self]
            exact Ahead.of_loaded _
          · refine ahead_step hi (fun hb => ?_) fun hn hl hb => ?_
            · have hnone : b.isNone = true := Option.isNone_iff_eq_none.mpr hb
              simpa [hnone] using hc
            · rw [hl, hb] at ha
              exact answer_of_needsLoaded hn _ _ _ ha
        · rw [Function.update_of_ne hj]
          split_ifs
          · rw [Function.update_of_ne hj]
            exact h.ahead j
          · exact h.ahead j

theorem inv_run (ms : List (I × Option Code)) : Inv (final (step p) (start p) ms) :=
  run_invariant (fun _ => Inv) ⟨Nat.zero_le 1, fun i => ahead_start (p i)⟩ (fun _ _ m h => inv_step p h m) ms

/-- Nothing is detached. -/
theorem attached_step {s : State I} (hon : 0 < s.attached) (m : I × Option Code) : 0 < (step p s m).1.attached := by
  obtain ⟨j, a⟩ := m
  cases hs : s.setup j with
  | left o => simpa only [step, hs] using hon
  | running todo f =>
    cases todo with
    | nil => simpa only [step, hs] using hon
    | cons st todo =>
      simp only [step, hs]
      split_ifs
      · exact Nat.succ_pos _
      · exact hon

/-- With a program at the hook nothing is loaded. -/
theorem not_loaded_step {i : I} {s : State I} (hon : 0 < s.attached) (hnot : s.loaded i = false) (m : I × Option Code) :
    (step p s m).1.loaded i = false := by
  obtain ⟨j, a⟩ := m
  cases hs : s.setup j with
  | left o => simpa only [step, hs] using hnot
  | running todo f =>
    cases todo with
    | nil => simpa only [step, hs] using hnot
    | cons st todo =>
      simp only [step, hs]
      split_ifs with hc
      · have huses : usesBpf (p j) st.call = true := by
          cases hcall : st.call <;> simp [hcall, loads, usesBpf] at hc ⊢
        exact absurd (Option.isNone_iff_eq_none.mp hc.1) (answer_of_usesBpf huses hon _ _)
      · exact hnot

variable {past : List (I × Option Code)}

theorem attached_append (hon : 0 < (final (step p) (start p) past).attached) (rest : List (I × Option Code)) :
    0 < (final (step p) (start p) (past ++ rest)).attached := by
  induction rest using List.reverseRecOn with
  | nil =>
    rw [List.append_nil]
    exact hon
  | append_singleton rest m ih =>
    rw [← List.append_assoc, final_concat]
    exact attached_step p ih m

theorem not_loaded_append {i : I} (hon : 0 < (final (step p) (start p) past).attached)
    (hnot : (final (step p) (start p) past).loaded i = false) (rest : List (I × Option Code)) :
    (final (step p) (start p) (past ++ rest)).loaded i = false := by
  induction rest using List.reverseRecOn with
  | nil =>
    rw [List.append_nil]
    exact hnot
  | append_singleton rest m ih =>
    rw [← List.append_assoc, final_concat]
    exact not_loaded_step p (attached_append p hon rest) ih m

/-- An instance that is not loaded is not in its loop. -/
theorem not_looping_of_ahead {s : Setup.State Call Resource String ℤ} (h : Ahead false s) : s.looping = false := by
  cases s with
  | left o => rfl
  | running todo f =>
    obtain ⟨st, hst, -⟩ := h.resolve_left Bool.false_ne_true
    cases todo with
    | nil => cases hst
    | cons _ _ => rfl

/-- From the moment at which an instance of `lsm` is attached, it is the only one for good,
and no instance of any program that is not loaded by then ever reaches its loop. -/
theorem lsm_blocks (past rest : List (I × Option Code)) (hon : 0 < (final (step p) (start p) past).attached) :
    (final (step p) (start p) (past ++ rest)).attached = 1 ∧
      ∀ i, (final (step p) (start p) past).loaded i = false →
        ((final (step p) (start p) (past ++ rest)).setup i).looping = false := by
  have hinv := inv_run p (past ++ rest)
  refine ⟨Nat.le_antisymm hinv.once (attached_append p hon rest), fun i hnot => ?_⟩
  have hahead := hinv.ahead i
  rw [not_loaded_append p hon hnot rest] at hahead
  exact not_looping_of_ahead hahead

end Runs

/-- An instance of `lsm` and one of `minimal`. -/
def together : Bool → Program
  | true => .lsm
  | false => .minimal

/-- `lsm` is attached while `minimal` is open and not loaded. -/
def overtaken : List (Bool × Option Code) := [(false, none), (true, none), (true, none)]

theorem lsm_blocks_minimal :
    0 < (final (step together) (start together) overtaken).attached ∧
      ((final (step together) (start together) (overtaken ++ [(false, none), (false, none)])).setup false).looping =
        false := by
  have hon : 0 < (final (step together) (start together) overtaken).attached := by decide +kernel
  have hnot : (final (step together) (start together) overtaken).loaded false = false := by decide +kernel
  exact ⟨hon, (lsm_blocks together overtaken _ hon).2 false hnot⟩

end LibbpfBootstrap.Lsm
