import LibbpfBootstrap.Bootstrap.Interleaved
import Mathlib.Algebra.BigOperators.Group.Finset.Basic
import Mathlib.Algebra.Order.Group.Multiset

/-! Interleaved handlers are linearizable: every run amounts to the atomic firings in
one order, which keeps the order of the firings of each PID and never puts a firing
before one that had returned when it began. What `handle_event` is called with then
follows from the history of that order alone. -/

namespace LibbpfBootstrap.Bootstrap.Interleaved

open Kernel Kernel.Runs

section Run

variable {C : Type*} [DecidableEq C]

/-! ### One more action -/

section Concat

variable (m : BitVec 64) (as : List (Action C)) (a : Action C)

theorem after_concat : after m (as ++ [a]) = (step m (after m as) a).1 := final_concat (step m) start as a

theorem effects_concat : effects m (as ++ [a]) = effects m as ++ (step m (after m as) a).2 :=
  outputs_concat (step m) start as a

theorem begun_concat : begun m (as ++ [a]) = begun m as ++ (step m (after m as) a).2.filterMap Effect.began? := by
  rw [begun, effects_concat, List.filterMap_append]
  rfl

theorem order_concat : order m (as ++ [a]) = order m as ++ (step m (after m as) a).2.filterMap Effect.took? := by
  rw [order, effects_concat, List.filterMap_append]
  rfl

theorem handled_concat :
    handled m (as ++ [a]) = handled m as ++ (step m (after m as) a).2.filterMap Effect.handled? := by
  rw [handled, effects_concat, List.filterMap_append]
  rfl

end Concat

theorem order_append (m : BitVec 64) (past rest : List (Action C)) : order m past <+: order m (past ++ rest) := by
  rw [order, order, effects, effects, outputs_append, List.filterMap_append]
  exact List.prefix_append _ _

theorem filterMap_took (f : Option Firing) :
    (f.toList.map Effect.took).filterMap Effect.took? = f.toList ∧
      (f.toList.map Effect.took).filterMap Effect.began? = [] ∧
      (f.toList.map Effect.took).filterMap Effect.handled? = [] := by
  cases f <;> exact ⟨rfl, rfl, rfl⟩

theorem filterMap_handled (es : List Event) :
    (es.map Effect.handled).filterMap Effect.handled? = es ∧
      (es.map Effect.handled).filterMap Effect.took? = [] ∧
      (es.map Effect.handled).filterMap Effect.began? = [] := by
  refine ⟨?_, ?_, ?_⟩
  · rw [List.filterMap_map]
    exact List.filterMap_some
  all_goals
    rw [List.filterMap_eq_nil_iff]
    intro e he
    obtain ⟨x, -, rfl⟩ := List.mem_map.mp he
    rfl

/-! ### Refinement -/

theorem inv_of_run {m : BitVec 64} {as : List (Action C)} (h : Allowed (Exclusive m) as) :
    Inv m (order m as) (handled m as) (after m as) := by
  refine Allowed.induction (R := fun as => Inv m (order m as) (handled m as) (after m as)) (inv_start m) ?_ h
  intro past a _ ih hex
  rw [order_concat, handled_concat, after_concat]
  cases a with
  | enter c f =>
    cases hpc : (after m past).pc c with
    | idle =>
      simp only [step, hpc, List.filterMap_cons, List.filterMap_nil, Effect.took?, Effect.handled?, List.append_nil]
      exact ih.enter hpc hex
    | _ =>
      simp only [step, hpc, List.filterMap_nil, List.append_nil]
      exact ih
  | run c junk =>
    have hrun := ih.run junk c
    simp only [step, (filterMap_took _).1, (filterMap_took _).2.2, List.append_nil] at hrun ⊢
    exact hrun
  | take =>
    simp only [step, (filterMap_handled _).1, (filterMap_handled _).2.1, List.append_nil]
    exact ih.take

/-- No handler is running. -/
def Idle (st : State C) : Prop := ∀ c, st.pc c = .idle

omit [DecidableEq C] in
theorem Inv.filled {m : BitVec 64} {order : List Firing} {handled : List Event} {st : State C}
    (h : Inv m order handled st) (hidle : Idle st) : none ∉ st.rb.slots := by
  intro hmem
  obtain ⟨i, hi⟩ := List.mem_iff_getElem?.mp hmem
  obtain ⟨c, e, hc⟩ := h.busy i hi
  simp [hidle c] at hc

section Takes

variable {m : BitVec 64} {as : List (Action C)}

theorem allowed_takes (h : Allowed (Exclusive m) as) (n : ℕ) :
    Allowed (Exclusive m) (as ++ List.replicate n .take) := by
  induction n with
  | zero => simpa using h
  | succ n ih =>
    rw [List.replicate_succ', ← List.append_assoc, allowed_concat]
    exact ⟨ih, trivial⟩

theorem order_takes (m : BitVec 64) (as : List (Action C)) (n : ℕ) :
    order m (as ++ List.replicate n .take) = order m as := by
  have htakes : ∀ st : State C, ∀ a ∈ List.replicate n Action.take, (step m st a).2.filterMap Effect.took? = [] := by
    intro st a ha
    rw [List.eq_of_mem_replicate ha]
    exact (filterMap_handled _).2.1
  rw [order, effects, outputs_append, List.filterMap_append, filterMap_outputs_eq_nil htakes, List.append_nil]
  rfl

theorem handled_takes (h : Allowed (Exclusive m) as) (hidle : Idle (after m as)) {n : ℕ}
    (hn : (submitted m (order m as)).length ≤ n) :
    handled m (as ++ List.replicate n .take) = submitted m (order m as) := by
  have hinv := inv_of_run h
  have hkeeps := (inv_of_run (allowed_takes h n)).keeps
  rw [order_takes] at hkeeps
  have hread := CommitLog.read_iterate_take (hinv.filled hidle) (hinv.keeps.length.symm ▸ hinv.keeps.read) n
  have hrb : (after m (as ++ List.replicate n .take)).rb = (fun l => l.take.1)^[n] (after m as).rb := by
    rw [after, final_append]
    exact view_replicate State.rb (fun _ => rfl) n _
  refine hkeeps.eq_of_drained (beq_iff_eq.mpr ?_)
  rw [hkeeps.length, hrb, hread, hinv.keeps.length]
  omega

end Takes

/-- Interleaved handlers refine the atomic firings. In every run, what `handle_event` was
called with is a first part of what the firings submit in the order of their taking
effect; once no handler runs the map is the one they leave, and all their records are
handed out by as many looks at the ring buffer. -/
theorem refines_atomic (m : BitVec 64) (as : List (Action C)) (h : Allowed (Exclusive m) as) :
    handled m as <+: submitted m (order m as) ∧
      (Idle (after m as) → (after m as).execStart = final (fire m) ∅ (order m as) ∧
        ∀ n, (submitted m (order m as)).length ≤ n →
          handled m (as ++ List.replicate n .take) = submitted m (order m as)) := by
  have hinv := inv_of_run h
  refine ⟨hinv.keeps.prefix_promised, fun hidle => ⟨?_, fun n hn => handled_takes h hidle hn⟩⟩
  apply Finmap.ext_lookup
  intro pid
  apply hinv.map.free
  intro c
  rw [hidle c]
  rfl

/-- Two execs on two processors: the one that reserves last submits first. -/
def overtaking : List (Action Bool) :=
  [.enter true (.exec (.plain 7 100)), .enter false (.exec (.plain 9 110)), .run true 0, .run false 0, .run true 0] ++
    [.run false 0, .run false 0, .take, .run true 0]

theorem overtaking_exclusive : Allowed (Exclusive 0#64) overtaking := by
  refine ⟨fun _ _ _ => rfl, fun pid hp c => ?_, trivial, trivial, trivial, trivial, trivial, trivial, trivial, trivial⟩
  have h9 : pid = 9#32 := by
    rw [← beq_iff_eq.mp hp]
    decide
  cases c <;> rw [h9] <;> rfl

theorem overtaking_idle : Idle (after 0#64 overtaking) := by
  intro c
  cases c <;> rfl

theorem refines_atomic_overtaking :
    handled 0#64 (overtaking ++ [.take, .take]) = submitted 0#64 [.exec (.plain 7 100), .exec (.plain 9 110)] :=
  ((refines_atomic 0#64 overtaking overtaking_exclusive).2 overtaking_idle).2 2 le_rfl

/-! ### The order -/

theorem Outcome.waiting {m : BitVec 64} {a s : ExecStart} {rb : CommitLog Event} {pc : Pc} {v : Moved}
    (h : Outcome m a s rb pc v) :
    (v.took = none ∧ v.pc.waiting = pc.waiting) ∨ (v.took = pc.waiting ∧ v.pc.waiting = none) := by
  cases h with
  | quiet s' pc' hwaiting => exact Or.inl ⟨rfl, hwaiting⟩
  | commit i e hpc => exact Or.inl ⟨rfl, by rw [hpc]; rfl⟩
  | silent f s' hwaiting => exact Or.inr ⟨hwaiting.symm, rfl⟩
  | reserve f e hwaiting => exact Or.inr ⟨hwaiting.symm, rfl⟩

/-- For each PID, the firings that began are those that took effect, in the same order,
and then the one that a runner is working on. -/
structure InTurn (begun order : List Firing) (pc : C → Pc) : Prop where
  settled : ∀ pid, (∀ c, (pc c).holds pid = false) →
    begun.filter (Firing.concerns pid) = order.filter (Firing.concerns pid)
  working : ∀ c f pid, (pc c).waiting = some f → f.concerns pid = true →
    begun.filter (Firing.concerns pid) = order.filter (Firing.concerns pid) ++ [f]

section InTurn

variable {begun order : List Firing} {pc : C → Pc} {c : C}

theorem InTurn.enter (h : InTurn begun order pc) {f : Firing} (hidle : pc c = .idle)
    (hex : ∀ pid, f.concerns pid = true → ∀ c', (pc c').holds pid = false) :
    InTurn (begun ++ [f]) order (Function.update pc c (.entered f)) := by
  have hfree : ∀ pid, f.concerns pid = true →
      (begun ++ [f]).filter (Firing.concerns pid) = order.filter (Firing.concerns pid) ++ [f] := by
    intro pid hf
    rw [List.filter_append, h.settled pid (hex pid hf), List.filter_cons_of_pos hf, List.filter_nil]
  have hother : ∀ pid, f.concerns pid = false →
      (begun ++ [f]).filter (Firing.concerns pid) = begun.filter (Firing.concerns pid) := by
    intro pid hf
    rw [List.filter_append, List.filter_cons_of_neg (by simp [hf]), List.filter_nil, List.append_nil]
  constructor
  · intro pid hp
    have hf : f.concerns pid = false := by simpa [Pc.holds, Pc.waiting] using hp c
    rw [hother pid hf]
    refine h.settled pid fun c' => ?_
    by_cases hc : c' = c
    · rw [hc, hidle]
      rfl
    · simpa [Function.update_of_ne hc] using hp c'
  · intro c' g pid hg hp
    by_cases hc : c' = c
    · subst hc
      rw [Function.update_self] at hg
      obtain rfl := Option.some.inj hg
      exact hfree pid hp
    · rw [Function.update_of_ne hc] at hg
      cases hf : f.concerns pid with
      | false =>
        rw [hother pid hf]
        exact h.working c' g pid hg hp
      | true =>
        have hnot := hex pid hf c'
        rw [holds_of_waiting hg, hp] at hnot
        cases hnot

theorem InTurn.keep (h : InTurn begun order pc) {pc' : Pc} (hw : pc'.waiting = (pc c).waiting) :
    InTurn begun order (Function.update pc c pc') := by
  have hsame : ∀ c', (Function.update pc c pc' c').waiting = (pc c').waiting := by
    intro c'
    by_cases hc : c' = c
    · rw [hc, Function.update_self, hw]
    · rw [Function.update_of_ne hc]
  refine ⟨fun pid hp => h.settled pid fun c' => ?_, fun c' f pid hf hp => h.working c' f pid (hsame c' ▸ hf) hp⟩
  rw [Pc.holds, ← hsame c']
  exact hp c'

theorem InTurn.took (h : InTurn begun order pc)
    (apart : ∀ c c' pid, (pc c).holds pid = true → (pc c').holds pid = true → c = c') {f : Firing}
    (hf : (pc c).waiting = some f) {pc' : Pc} (hw : pc'.waiting = none) :
    InTurn begun (order ++ [f]) (Function.update pc c pc') := by
  have hholds := holds_of_waiting hf
  have hpc' : ∀ pid, pc'.holds pid = false := fun pid => by rw [Pc.holds, hw]; rfl
  have hother : ∀ pid, f.concerns pid = false →
      (order ++ [f]).filter (Firing.concerns pid) = order.filter (Firing.concerns pid) := by
    intro pid hp
    rw [List.filter_append, List.filter_cons_of_neg (by simp [hp]), List.filter_nil, List.append_nil]
  constructor
  · intro pid hp
    cases hc : f.concerns pid with
    | true =>
      rw [h.working c f pid hf hc, List.filter_append, List.filter_cons_of_pos hc, List.filter_nil]
    | false =>
      rw [hother pid hc]
      refine h.settled pid fun c' => ?_
      by_cases hcc : c' = c
      · rw [hcc, hholds, hc]
      · simpa [Function.update_of_ne hcc] using hp c'
  · intro c' g pid hg hp
    have hcc : c' ≠ c := by
      rintro rfl
      rw [Function.update_self, hw] at hg
      cases hg
    rw [Function.update_of_ne hcc] at hg
    have hc : f.concerns pid = false := by
      by_contra hc
      refine hcc (apart c' c pid ?_ ?_)
      · rw [holds_of_waiting hg, hp]
      · rw [hholds]
        simpa using hc
    rw [hother pid hc]
    exact h.working c' g pid hg hp

end InTurn

theorem inTurn_of_run {m : BitVec 64} {as : List (Action C)} (h : Allowed (Exclusive m) as) :
    InTurn (begun m as) (order m as) (after m as).pc := by
  refine Allowed.induction (R := fun as => InTurn (begun m as) (order m as) (after m as).pc)
    ⟨fun _ _ => rfl, fun _ _ _ hf => by cases hf⟩ ?_ h
  intro past a hpast ih hex
  have hmap := (inv_of_run hpast).map
  rw [begun_concat, order_concat, after_concat]
  cases a with
  | enter c f =>
    cases hpc : (after m past).pc c with
    | idle =>
      simp only [step, hpc, List.filterMap_cons, List.filterMap_nil, Effect.took?, Effect.began?, List.append_nil]
      exact ih.enter hpc hex
    | _ =>
      simp only [step, hpc, List.filterMap_nil, List.append_nil]
      exact ih
  | run c junk =>
    simp only [step, (filterMap_took _).1, (filterMap_took _).2.1, List.append_nil]
    rcases (advance_outcome m junk (after m past).rb (hmap.agrees c)).waiting with ⟨ht, hw⟩ | ⟨ht, hw⟩
    · rw [ht, Option.toList_none, List.append_nil]
      exact ih.keep hw
    · rw [ht]
      cases hf : ((after m past).pc c).waiting with
      | none =>
        rw [Option.toList_none, List.append_nil]
        exact ih.keep (hw.trans hf.symm)
      | some f =>
        rw [Option.toList_some]
        exact ih.took hmap.apart hf hw
  | take =>
    simp only [step, (filterMap_handled _).2.1, (filterMap_handled _).2.2, List.append_nil]
    exact ih

/-- The firings of running handlers that have not taken effect. -/
def onTheWay [Fintype C] (pc : C → Pc) : Multiset Firing := ∑ c, ((pc c).waiting.toList : Multiset Firing)

theorem onTheWay_update [Fintype C] (pc : C → Pc) (c : C) (pc' : Pc) :
    onTheWay (Function.update pc c pc') + ((pc c).waiting.toList : Multiset Firing) =
      onTheWay pc + (pc'.waiting.toList : Multiset Firing) := by
  have hrest : ∑ x ∈ Finset.univ.erase c, (((Function.update pc c pc' x).waiting.toList : List Firing) : Multiset Firing) =
      ∑ x ∈ Finset.univ.erase c, ((pc x).waiting.toList : Multiset Firing) := by
    refine Finset.sum_congr rfl fun x hx => ?_
    rw [Function.update_of_ne (Finset.ne_of_mem_erase hx)]
  rw [onTheWay, onTheWay, ← Finset.add_sum_erase _ _ (Finset.mem_univ c), hrest,
    ← Finset.add_sum_erase _ (fun x => ((pc x).waiting.toList : Multiset Firing)) (Finset.mem_univ c),
    Function.update_self]
  ac_rfl

theorem begun_eq_order_add [Fintype C] {m : BitVec 64} {as : List (Action C)} (h : Allowed (Exclusive m) as) :
    (begun m as : Multiset Firing) = (order m as : Multiset Firing) + onTheWay (after m as).pc := by
  refine Allowed.induction
    (R := fun as => (begun m as : Multiset Firing) = (order m as : Multiset Firing) + onTheWay (after m as).pc) ?_ ?_ h
  · simp [begun, order, effects, after, start, onTheWay, Pc.waiting]
  · intro past a hpast ih hex
    have hmap := (inv_of_run hpast).map
    rw [begun_concat, order_concat, after_concat]
    cases a with
    | enter c f =>
      cases hpc : (after m past).pc c with
      | idle =>
        simp only [step, hpc, List.filterMap_cons, List.filterMap_nil, Effect.took?, Effect.began?, List.append_nil]
        have hup := onTheWay_update (after m past).pc c (.entered f)
        rw [hpc] at hup
        simp only [Pc.waiting, Option.toList_none, Option.toList_some, Multiset.coe_nil, add_zero] at hup
        rw [← Multiset.coe_add, ih, hup, add_assoc]
      | _ =>
        simp only [step, hpc, List.filterMap_nil, List.append_nil]
        exact ih
    | run c junk =>
      simp only [step, (filterMap_took _).1, (filterMap_took _).2.1, List.append_nil]
      have hup := onTheWay_update (after m past).pc c (advance m junk (after m past).execStart (after m past).rb
        ((after m past).pc c)).pc
      rcases (advance_outcome m junk (after m past).rb (hmap.agrees c)).waiting with ⟨ht, hw⟩ | ⟨ht, hw⟩
      · rw [hw] at hup
        rw [ht, Option.toList_none, List.append_nil, ih, add_right_cancel hup]
      · rw [hw, Option.toList_none, Multiset.coe_nil, add_zero] at hup
        rw [ht, ← Multiset.coe_add, ih, ← hup, add_assoc]
        congr 1
        exact add_comm _ _
    | take =>
      simp only [step, (filterMap_handled _).2.1, (filterMap_handled _).2.2, List.append_nil]
      exact ih

theorem order_filter_begun {m : BitVec 64} {as : List (Action C)} (h : Allowed (Exclusive m) as) (pid : BitVec 32) :
    (order m as).filter (Firing.concerns pid) <+: (begun m as).filter (Firing.concerns pid) := by
  have hturn := inTurn_of_run h
  by_cases hfree : ∀ c, ((after m as).pc c).holds pid = false
  · rw [hturn.settled pid hfree]
  · simp only [not_forall, Bool.not_eq_false] at hfree
    obtain ⟨c, hc⟩ := hfree
    obtain ⟨f, hf, hp⟩ := (Option.any_eq_true _ _).mp hc
    rw [hturn.working c f pid hf hp]
    exact List.prefix_append _ _

/-- The order of taking effect is a linearization. At every moment of a run, what began
has its place in the order already or is still on its way, places are never taken
back, and the firings of each PID are in the order in which they began. -/
theorem order_linearizes [Fintype C] (m : BitVec 64) (past rest : List (Action C))
    (h : Allowed (Exclusive m) (past ++ rest)) :
    order m past <+: order m (past ++ rest) ∧
      (begun m past : Multiset Firing) = (order m past : Multiset Firing) + onTheWay (after m past).pc ∧
      ∀ pid, (order m past).filter (Firing.concerns pid) <+: (begun m past).filter (Firing.concerns pid) :=
  ⟨order_append m past rest, begun_eq_order_add h.left, order_filter_begun h.left⟩

/-- When one of the two execs has reserved, the other one is on its way. -/
theorem order_linearizes_overtaking :
    (([.exec (.plain 7 100), .exec (.plain 9 110)] : List Firing) : Multiset Firing) =
      (([.exec (.plain 7 100)] : List Firing) : Multiset Firing) + onTheWay (after 0#64 (overtaking.take 5)).pc :=
  (order_linearizes 0#64 (overtaking.take 5) (overtaking.drop 5) overtaking_exclusive).2.1

end Run

/-! ### Reports

The clocks of two processors may be read in one order and take effect in the other, so
the clock is only asked to go forward for each PID. -/

def OwnClock (fs : List Firing) : Prop :=
  ∀ pid, (fs.filter (Firing.concerns pid)).Pairwise fun g f => g.ts ≤ f.ts

/-- The PID that a firing works on, if it works on any. -/
def key : Firing → Option (BitVec 32)
  | .exec f => some (pidOf f.pidTgid)
  | .exit f => if f.leader then some (pidOf f.pidTgid) else none

theorem concerns_iff (f : Firing) (pid : BitVec 32) : f.concerns pid = true ↔ key f = some pid := by
  cases f with
  | exec f => simp [Firing.concerns, key]
  | exit f => cases hl : f.leader <;> simp [Firing.concerns, key, hl]

theorem startTime_filter (pid : BitVec 32) (past : List Firing) :
    startTime pid (past.filter (Firing.concerns pid)) = startTime pid past := by
  refine remembered_filter (fun f hf => ?_) past
  cases f with
  | exec f =>
    have hne : ¬ pidOf f.pidTgid = pid := by simpa [Firing.concerns] using hf
    exact ⟨if_neg hne, rfl⟩
  | exit f => exact ⟨rfl, hf⟩

theorem fire_snd_congr {m : BitVec 64} {s s' : ExecStart} {f : Firing} {pid : BitVec 32} (hf : f.concerns pid = true)
    (h : s.lookup pid = s'.lookup pid) : (fire m s f).2 = (fire m s' f).2 := by
  cases f with
  | exec f => rw [fire, fire, handleExec_snd, handleExec_snd]
  | exit f =>
    obtain ⟨hl, hp⟩ := Bool.and_eq_true_iff.mp hf
    rw [fire, fire, handleExit_snd m s f hl, handleExit_snd m s' f hl, beq_iff_eq.mp hp, h]

theorem expected_congr {m : BitVec 64} {past past' : List Firing} {f : Firing} {pid : BitVec 32}
    (hf : f.concerns pid = true) (h : startTime pid past = startTime pid past') :
    expected m past f = expected m past' f := by
  cases f with
  | exec f => rfl
  | exit f =>
    have hp := beq_iff_eq.mp (Bool.and_eq_true_iff.mp hf).2
    simp only [expected, due, hp, h]

theorem fire_records_of_own {past : List Firing} {s : ExecStart} (h : Tracks past s) (m : BitVec 64) (f : Firing)
    (hc : ∀ pid, f.concerns pid = true → ∀ g ∈ past, g.concerns pid = true → g.ts ≤ f.ts) :
    (fire m s f).2.map Event.record = expected m past f := by
  cases hk : key f with
  | none =>
    cases f with
    | exec f => cases hk
    | exit f =>
      have hl : f.leader = false := by simpa [key] using hk
      simp [fire, handleExit_of_not_leader hl, expected, due, hl]
  | some pid =>
    have hf := (concerns_iff f pid).mpr hk
    -- the run of this PID alone gives the firing the same entry and has a forward clock
    have htracks := tracks_after m (past.filter (Firing.concerns pid))
    have hlookup : s.lookup pid = (final (fire m) ∅ (past.filter (Firing.concerns pid))).lookup pid := by
      rw [h, htracks, startTime_filter]
    rw [fire_snd_congr hf hlookup, fire_records htracks m f fun g hg => ?_, expected_congr hf (startTime_filter pid past)]
    obtain ⟨hg, hgf⟩ := List.mem_filter.mp hg
    exact hc pid hf g hg hgf

theorem OwnClock.allowed {fs : List Firing} (h : OwnClock fs) :
    Allowed (fun past f => ∀ pid, f.concerns pid = true → ∀ g ∈ past, g.concerns pid = true → g.ts ≤ f.ts) fs := by
  refine allowed_of_split fun past f rest he pid hf g hg hgf => ?_
  have hp := h pid
  rw [he, List.filter_append, List.filter_cons_of_pos hf, List.pairwise_append] at hp
  exact hp.2.2 g (List.mem_filter.mpr ⟨hg, hgf⟩) f List.mem_cons_self

theorem records_of_ownClock (m : BitVec 64) {fs : List Firing} (h : OwnClock fs) :
    (submitted m fs).map Event.record = foretold (expected m) [] fs :=
  outputs_eq_foretold Event.record (expected m) Tracks tracks_nil
    (fun _ _ f ht hc => ⟨tracks_fire ht m f, fire_records_of_own ht m f hc⟩) fs h.allowed

/-- What user space is told, however the handlers interleave: with a clock that goes
forward for each PID, the records handed to `handle_event` are the first of those owed
for the history of the firings, and all of them once no handler runs and the ring
buffer has been looked at often enough. -/
theorem interleaved_records {C : Type*} [DecidableEq C] (m : BitVec 64) (as : List (Action C))
    (h : Allowed (Exclusive m) as) (hclock : OwnClock (begun m as)) :
    (handled m as).map Event.record <+: foretold (expected m) [] (order m as) ∧
      (Idle (after m as) → ∀ n, (submitted m (order m as)).length ≤ n →
        (handled m (as ++ List.replicate n .take)).map Event.record = foretold (expected m) [] (order m as)) := by
  have hown : OwnClock (order m as) := fun pid => (hclock pid).sublist (order_filter_begun h pid).sublist
  rw [← records_of_ownClock m hown]
  refine ⟨(inv_of_run h).keeps.prefix_promised.map _, fun hidle n hn => ?_⟩
  rw [handled_takes h hidle hn]

theorem exclusive_enter {C : Type*} [DecidableEq C] {m : BitVec 64} {past : List (Action C)} {c : C} {f : Firing}
    {pid : BitVec 32} (hkey : key f = some pid) (h : ∀ c, ((after m past).pc c).holds pid = false) :
    Exclusive m past (.enter c f) := by
  intro pid' hpid
  rw [concerns_iff, hkey] at hpid
  rw [← Option.some.inj hpid]
  exact h

/-- Two processes from their exec to their exit, on two processors with different clocks:
process 9 begins after process 7 and ends before it, and its exec has the smaller time. -/
def lifetimes : List (Action Bool) :=
  [.enter true (.exec (.plain 7 100)), .enter false (.exec (.plain 9 90)), .run false 0, .run true 0] ++
    [.enter true (.exit (.plain 9 1090)), .enter false (.exit (.plain 7 4000100)), .run true 0, .run false 0] ++
    [.run true 0, .run false 0, .run false 0, .run true 0, .run false 0, .run false 0, .run true 0]

/-- The shortest life that is reported, in nanoseconds. -/
def threeMs : BitVec 64 := 3000000#64

theorem lifetimes_exclusive : Allowed (Exclusive threeMs) lifetimes := by
  refine ⟨exclusive_enter rfl ?_, exclusive_enter rfl ?_, trivial, trivial, exclusive_enter rfl ?_,
    exclusive_enter rfl ?_, trivial, trivial, trivial, trivial, trivial, trivial, trivial, trivial, trivial, trivial⟩ <;>
  · intro c
    cases c <;> rfl

theorem lifetimes_idle : Idle (after threeMs lifetimes) := by
  intro c
  cases c <;> rfl

theorem lifetimes_ownClock : OwnClock (begun threeMs lifetimes) := by
  intro pid
  change List.Pairwise _ (List.filter _ [Firing.exec (.plain 7 100), .exec (.plain 9 90), .exit (.plain 9 1090),
    .exit (.plain 7 4000100)])
  by_cases h7 : pid = 7#32
  · subst h7
    decide
  by_cases h9 : pid = 9#32
  · subst h9
    decide
  have hnone : [Firing.exec (.plain 7 100), .exec (.plain 9 90), .exit (.plain 9 1090), .exit (.plain 7 4000100)].filter
      (Firing.concerns pid) = [] := by
    refine List.filter_eq_nil_iff.mpr fun f hf hc => ?_
    rw [concerns_iff] at hc
    simp only [List.mem_cons, List.not_mem_nil, or_false] at hf
    rcases hf with rfl | rfl | rfl | rfl
    · exact h7 (Option.some.inj hc).symm
    · exact h9 (Option.some.inj hc).symm
    · exact h9 (Option.some.inj hc).symm
    · exact h7 (Option.some.inj hc).symm
  rw [hnone]
  exact List.Pairwise.nil

/-- Of the two exits the one after four milliseconds is reported. -/
theorem interleaved_records_lifetimes :
    (handled threeMs (lifetimes ++ [.take])).map Event.record = [.exit 7 1 0 4000000 (Libc.ascii "sh")] :=
  ((interleaved_records threeMs lifetimes lifetimes_exclusive lifetimes_ownClock).2 lifetimes_idle 1 le_rfl).trans
    (by decide)

end LibbpfBootstrap.Bootstrap.Interleaved
