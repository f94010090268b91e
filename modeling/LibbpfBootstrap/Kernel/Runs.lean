import Mathlib.Data.List.Induction
import Mathlib.Logic.Function.Iterate
import Mathlib.Tactic.Common

/-! Runs of a deterministic step function with outputs. A step reads the state
and one action and returns the next state together with what it emits. Two
rules carry every result about whole runs: an invariant that may mention the
history of actions, and a refinement rule that predicts the outputs from the
history alone, without the state. -/

namespace LibbpfBootstrap.Kernel.Runs

variable {S A O : Type*}

/-- The state after a list of actions. -/
def final (step : S → A → S × List O) (s : S) (as : List A) : S :=
  as.foldl (fun s a => (step s a).1) s

/-- Everything emitted along a list of actions, in order. -/
def outputs (step : S → A → S × List O) : S → List A → List O
  | _, [] => []
  | s, a :: as => (step s a).2 ++ outputs step (step s a).1 as

@[simp] theorem final_nil (step : S → A → S × List O) (s : S) : final step s [] = s := rfl

@[simp] theorem final_cons (step : S → A → S × List O) (s : S) (a : A) (as : List A) :
    final step s (a :: as) = final step (step s a).1 as := rfl

theorem final_append (step : S → A → S × List O) (s : S) (as bs : List A) :
    final step s (as ++ bs) = final step (final step s as) bs := List.foldl_append

@[simp] theorem final_concat (step : S → A → S × List O) (s : S) (as : List A) (a : A) :
    final step s (as ++ [a]) = (step (final step s as) a).1 := by
  rw [final_append, final_cons, final_nil]

@[simp] theorem outputs_nil (step : S → A → S × List O) (s : S) : outputs step s [] = [] := rfl

@[simp] theorem outputs_cons (step : S → A → S × List O) (s : S) (a : A) (as : List A) :
    outputs step s (a :: as) = (step s a).2 ++ outputs step (step s a).1 as := rfl

theorem outputs_append (step : S → A → S × List O) (s : S) (as bs : List A) :
    outputs step s (as ++ bs) = outputs step s as ++ outputs step (final step s as) bs := by
  induction as generalizing s with
  | nil => rfl
  | cons a as ih => rw [List.cons_append, outputs_cons, ih, outputs_cons, final_cons, List.append_assoc]

theorem outputs_concat (step : S → A → S × List O) (s : S) (as : List A) (a : A) :
    outputs step s (as ++ [a]) = outputs step s as ++ (step (final step s as) a).2 := by
  rw [outputs_append, outputs_cons, outputs_nil, List.append_nil]

/-- Whatever is emitted along a run is emitted by one of its steps. -/
theorem mem_outputs (step : S → A → S × List O) (s : S) (as : List A) (o : O) :
    o ∈ outputs step s as ↔
      ∃ past a rest, as = past ++ a :: rest ∧ o ∈ (step (final step s past) a).2 := by
  induction as generalizing s with
  | nil => simp
  | cons b as ih =>
    rw [outputs_cons, List.mem_append, ih]
    constructor
    · rintro (h | ⟨past, a, rest, rfl, h⟩)
      · exact ⟨[], b, as, rfl, h⟩
      · exact ⟨b :: past, a, rest, rfl, h⟩
    · rintro ⟨past, a, rest, he, h⟩
      cases past with
      | nil =>
        obtain ⟨rfl, rfl⟩ := List.cons.inj he
        exact Or.inl h
      | cons c past =>
        obtain ⟨rfl, rfl⟩ := List.cons.inj he
        exact Or.inr ⟨past, a, rest, rfl, h⟩

/-- Two runs whose actions move the state alike and look alike to an observer
look alike as a whole. -/
theorem outputs_congr_of_forall₂ {P : Type*} {step : S → A → S × List O} (view : O → P) (like : A → A → Prop)
    (hstep : ∀ s a b, like a b →
      (step s a).1 = (step s b).1 ∧ (step s a).2.map view = (step s b).2.map view)
    (s : S) {as bs : List A} (h : List.Forall₂ like as bs) :
    (outputs step s as).map view = (outputs step s bs).map view := by
  induction h generalizing s with
  | nil => rfl
  | cons hab _ ih =>
    obtain ⟨hs, ho⟩ := hstep s _ _ hab
    rw [outputs_cons, outputs_cons, List.map_append, List.map_append, ho, hs, ih]

/-- A relation between what was emitted and the state that every step extends
holds after every run. -/
theorem emission_invariant {step : S → A → S × List O} {s : S} (R : List O → S → Prop) (h0 : R [] s)
    (hstep : ∀ os t a, R os t → R (os ++ (step t a).2) (step t a).1) (as : List A) :
    R (outputs step s as) (final step s as) := by
  induction as using List.reverseRecOn with
  | nil => exact h0
  | append_singleton as a ih =>
    rw [final_concat, outputs_append, outputs_cons, outputs_nil, List.append_nil]
    exact hstep _ _ a ih

/-- What no action of a run changes is the same after it. -/
theorem final_view {V : Type*} {step : S → A → S × List O} {as : List A} (view : S → V)
    (h : ∀ s, ∀ a ∈ as, view (step s a).1 = view s) (s : S) : view (final step s as) = view s := by
  induction as generalizing s with
  | nil => rfl
  | cons a as ih => rw [final_cons, ih fun s b hb => h s b (List.mem_cons_of_mem a hb), h s a List.mem_cons_self]

/-- What one action makes of a part of the state, it makes again and again. -/
theorem view_replicate {V : Type*} {step : S → A → S × List O} {a : A} (view : S → V) {f : V → V}
    (h : ∀ s, view (step s a).1 = f (view s)) (n : ℕ) (s : S) :
    view (final step s (List.replicate n a)) = f^[n] (view s) := by
  induction n generalizing s with
  | zero => rfl
  | succ n ih => rw [List.replicate_succ, final_cons, ih, h, Function.iterate_succ_apply]

/-- Effects that none of the actions has are not among the outputs. -/
theorem filterMap_outputs_eq_nil {P : Type*} {step : S → A → S × List O} {as : List A} {g : O → Option P}
    (h : ∀ s, ∀ a ∈ as, (step s a).2.filterMap g = []) (s : S) : (outputs step s as).filterMap g = [] := by
  induction as generalizing s with
  | nil => rfl
  | cons a as ih =>
    rw [outputs_cons, List.filterMap_append, h s a List.mem_cons_self,
      ih fun s b hb => h s b (List.mem_cons_of_mem a hb)]
    rfl

section Idle

variable {step : S → A → S × List O} {keep : A → Bool}

/-- Actions that do nothing can be left out of a run. -/
theorem final_filter (h : ∀ s a, keep a = false → step s a = (s, [])) (s : S) (as : List A) :
    final step s (as.filter keep) = final step s as := by
  induction as generalizing s with
  | nil => rfl
  | cons a as ih =>
    cases ha : keep a with
    | true => rw [List.filter_cons_of_pos ha, final_cons, final_cons, ih]
    | false =>
      rw [List.filter_cons_of_neg (by simp [ha]), final_cons, h s a ha, ih]

theorem outputs_filter (h : ∀ s a, keep a = false → step s a = (s, [])) (s : S) (as : List A) :
    outputs step s (as.filter keep) = outputs step s as := by
  induction as generalizing s with
  | nil => rfl
  | cons a as ih =>
    cases ha : keep a with
    | true => rw [List.filter_cons_of_pos ha, outputs_cons, outputs_cons, ih]
    | false =>
      rw [List.filter_cons_of_neg (by simp [ha]), outputs_cons, h s a ha, ih]
      rfl

end Idle

section History

/-- Every action of the list is allowed after the ones before it. -/
def AllowedFrom (ok : List A → A → Prop) : List A → List A → Prop
  | _, [] => True
  | past, a :: as => ok past a ∧ AllowedFrom ok (past ++ [a]) as

/-- The environment's rules hold along the whole list. -/
def Allowed (ok : List A → A → Prop) (as : List A) : Prop := AllowedFrom ok [] as

instance AllowedFrom.decide (ok : List A → A → Prop) [∀ past a, Decidable (ok past a)] :
    ∀ past as, Decidable (AllowedFrom ok past as)
  | _, [] => isTrue trivial
  | past, a :: as => @instDecidableAnd _ _ _ (AllowedFrom.decide ok (past ++ [a]) as)

instance Allowed.decide (ok : List A → A → Prop) [∀ past a, Decidable (ok past a)] (as : List A) :
    Decidable (Allowed ok as) := AllowedFrom.decide ok [] as

theorem allowedFrom_append (ok : List A → A → Prop) (past as bs : List A) :
    AllowedFrom ok past (as ++ bs) ↔ AllowedFrom ok past as ∧ AllowedFrom ok (past ++ as) bs := by
  induction as generalizing past with
  | nil => simp [AllowedFrom]
  | cons a as ih => simp [AllowedFrom, ih, and_assoc]

theorem allowed_concat (ok : List A → A → Prop) (past : List A) (a : A) :
    Allowed ok (past ++ [a]) ↔ Allowed ok past ∧ ok past a := by
  simp [Allowed, allowedFrom_append, AllowedFrom]

theorem Allowed.left {ok : List A → A → Prop} {as bs : List A} (h : Allowed ok (as ++ bs)) :
    Allowed ok as := ((allowedFrom_append ok [] as bs).mp h).1

theorem Allowed.at {ok : List A → A → Prop} {past rest : List A} {a : A}
    (h : Allowed ok (past ++ a :: rest)) : ok past a :=
  ((allowedFrom_append ok [] past (a :: rest)).mp h).2.1

theorem allowed_of_split {ok : List A → A → Prop} {as : List A}
    (h : ∀ past a rest, as = past ++ a :: rest → ok past a) : Allowed ok as := by
  induction as using List.reverseRecOn with
  | nil => trivial
  | append_singleton as a ih =>
    rw [allowed_concat]
    refine ⟨ih fun past b rest he => ?_, h as a [] rfl⟩
    exact h past b (rest ++ [a]) (by simp [he])

theorem Allowed.mono {ok ok' : List A → A → Prop} {as : List A} (hok : ∀ past a, ok past a → ok' past a)
    (h : Allowed ok as) : Allowed ok' as := by
  induction as using List.reverseRecOn with
  | nil => trivial
  | append_singleton as a ih =>
    rw [allowed_concat] at h ⊢
    exact ⟨ih h.1, hok as a h.2⟩

theorem allowed_and {ok ok' : List A → A → Prop} {as : List A} (h : Allowed ok as) (h' : Allowed ok' as) :
    Allowed (fun past a => ok past a ∧ ok' past a) as := by
  induction as using List.reverseRecOn with
  | nil => trivial
  | append_singleton as a ih =>
    rw [allowed_concat] at h h' ⊢
    exact ⟨ih h.1 h'.1, h.2, h'.2⟩

/-- What holds of the empty history and is kept by every allowed action holds of
every allowed list. -/
theorem Allowed.induction {ok : List A → A → Prop} {R : List A → Prop} (h0 : R [])
    (hstep : ∀ past a, Allowed ok past → R past → ok past a → R (past ++ [a])) {as : List A}
    (has : Allowed ok as) : R as := by
  induction as using List.reverseRecOn with
  | nil => exact h0
  | append_singleton past a ih =>
    obtain ⟨hp, ha⟩ := (allowed_concat ok past a).mp has
    exact hstep past a hp (ih hp) ha

/-- A relation between history and state that every allowed step extends holds
after every allowed run. -/
theorem history_invariant {step : S → A → S × List O} {s : S} {ok : List A → A → Prop}
    (R : List A → S → Prop) (h0 : R [] s)
    (hstep : ∀ past t a, R past t → ok past a → R (past ++ [a]) (step t a).1)
    (as : List A) (has : Allowed ok as) : R as (final step s as) := by
  induction as using List.reverseRecOn with
  | nil => exact h0
  | append_singleton past a ih =>
    obtain ⟨hp, ha⟩ := (allowed_concat ok past a).mp has
    rw [final_concat]
    exact hstep past _ a (ih hp) ha

/-- The same when nothing is asked of the steps. -/
theorem run_invariant {step : S → A → S × List O} {s : S} (R : List A → S → Prop) (h0 : R [] s)
    (hstep : ∀ past t a, R past t → R (past ++ [a]) (step t a).1) (as : List A) : R as (final step s as) :=
  history_invariant R h0 (fun past t a h _ => hstep past t a h) as (allowed_of_split fun _ _ _ _ => trivial)

/-- What a specification over histories foretells for a list of actions. -/
def foretold (spec : List A → A → List O) : List A → List A → List O
  | _, [] => []
  | past, a :: as => spec past a ++ foretold spec (past ++ [a]) as

theorem foretold_concat (spec : List A → A → List O) (past as : List A) (a : A) :
    foretold spec past (as ++ [a]) = foretold spec past as ++ spec (past ++ as) a := by
  induction as generalizing past with
  | nil => simp [foretold]
  | cons b as ih => simp [foretold, ih]

theorem mem_foretold {spec : List A → A → List O} {as : List A} {o : O} (h : o ∈ foretold spec [] as) :
    ∃ past a rest, as = past ++ a :: rest ∧ o ∈ spec past a := by
  induction as using List.reverseRecOn with
  | nil => simp [foretold] at h
  | append_singleton as b ih =>
    rw [foretold_concat, List.nil_append, List.mem_append] at h
    rcases h with h | h
    · obtain ⟨past, a, rest, rfl, ha⟩ := ih h
      exact ⟨past, a, rest ++ [b], by simp, ha⟩
    · exact ⟨as, b, [], rfl, h⟩

/-- A relation between history and state under which every allowed step emits
what the specification foretells makes whole runs emit it too. -/
theorem outputs_eq_foretold {P : Type*} {step : S → A → S × List O} {s : S} {ok : List A → A → Prop}
    (view : O → P) (spec : List A → A → List P) (R : List A → S → Prop) (h0 : R [] s)
    (hstep : ∀ past t a, R past t → ok past a →
      R (past ++ [a]) (step t a).1 ∧ (step t a).2.map view = spec past a)
    (as : List A) (has : Allowed ok as) : (outputs step s as).map view = foretold spec [] as := by
  induction as using List.reverseRecOn with
  | nil => rfl
  | append_singleton past a ih =>
    obtain ⟨hp, ha⟩ := (allowed_concat ok past a).mp has
    have hR := history_invariant R h0 (fun past t a hr hok => (hstep past t a hr hok).1) past hp
    rw [outputs_append, List.map_append, ih hp, foretold_concat, List.nil_append]
    simp only [outputs_cons, outputs_nil, List.append_nil, (hstep past _ a hR ha).2]

end History

end LibbpfBootstrap.Kernel.Runs
