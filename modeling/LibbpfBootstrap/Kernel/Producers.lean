import LibbpfBootstrap.Kernel.CommitLog
import LibbpfBootstrap.Kernel.Runs

/-! Producers that fill what they have reserved by several writes. Each has a job, which
says what it writes, and works on a record that nobody else sees before it is committed;
the record may hold anything when it is reserved. Whatever the order in which the
producers take their turns, the consumer gets the records that the jobs make, each from
what it was given, in the order of the reservations. -/

namespace LibbpfBootstrap.Kernel.Producers

open Runs

variable {C E J : Type*}

/-- A producer at work: its slot, the record as it is, and the writes to come. -/
structure Busy (E : Type*) where
  slot : ℕ
  record : E
  todo : List (E → E)

/-- The record after writes. -/
def written (writes : List (E → E)) (r : E) : E := writes.foldl (fun r w => w r) r

/-- The record that a producer will commit. -/
def Busy.finished (b : Busy E) : E := written b.todo b.record

structure State (C E : Type*) where
  log : CommitLog E
  busy : C → Option (Busy E)

/-- A producer reserves a record, which held something, or fails to; it takes its next
write, or commits; or the consumer looks at its next record. -/
inductive Action (C E J : Type*)
  | begin (c : C) (old : Option E) (job : J)
  | work (c : C)
  | take

inductive Effect (E J : Type*)
  | begun (old : E) (job : J)
  | taken (r : E)

def Effect.begun? : Effect E J → Option (E × J)
  | .begun old job => some (old, job)
  | .taken _ => none

def Effect.taken? : Effect E J → Option E
  | .begun _ _ => none
  | .taken r => some r

/-- The log keeps what the jobs make; who is at work has a slot and will fill it, and no
other slot is open. -/
structure Inv (promised taken : List E) (st : State C E) : Prop where
  keeps : st.log.Keeps promised taken
  busy : ∀ c b, st.busy c = some b → promised[b.slot]? = some b.finished
  unfilled : ∀ i, st.log.slots[i]? = some none → ∃ c b, st.busy c = some b ∧ b.slot = i

def start : State C E := ⟨.empty, fun _ => none⟩

theorem inv_start : Inv [] [] (start : State C E) :=
  ⟨CommitLog.keeps_empty, fun _ _ h => (nomatch h), fun _ h => (nomatch h)⟩

theorem Inv.take {promised got : List E} {st : State C E} (h : Inv promised got st) :
    Inv promised (got ++ st.log.take.2) { st with log := st.log.take.1 } :=
  ⟨h.keeps.take, h.busy, fun i hi => h.unfilled i (by rwa [CommitLog.take_slots] at hi)⟩

section Step

variable [DecidableEq C] (writes : J → List (E → E))

/-- A job for a producer that is at work is dropped. -/
def step (st : State C E) : Action C E J → State C E × List (Effect E J)
  | .begin c old job =>
    match st.busy c, old with
    | none, some old =>
      (⟨st.log.reserve, Function.update st.busy c (some ⟨st.log.next, old, writes job⟩)⟩, [.begun old job])
    | _, _ => (st, [])
  | .work c =>
    match st.busy c with
    | none => (st, [])
    | some ⟨slot, r, w :: todo⟩ => ({ st with busy := Function.update st.busy c (some ⟨slot, w r, todo⟩) }, [])
    | some ⟨slot, r, []⟩ => (⟨st.log.commit slot r, Function.update st.busy c none⟩, [])
  | .take => ({ st with log := st.log.take.1 }, st.log.take.2.map .taken)

def after (as : List (Action C E J)) : State C E := final (step writes) start as

/-- The jobs that got a record, in the order of the reservations, with what it held. -/
def begun (as : List (Action C E J)) : List (E × J) := (outputs (step writes) start as).filterMap Effect.begun?

/-- What the consumer has got. -/
def taken (as : List (Action C E J)) : List E := (outputs (step writes) start as).filterMap Effect.taken?

/-- The record that a job makes. -/
def made (p : E × J) : E := written (writes p.2) p.1

variable {writes} {promised got : List E} {st : State C E}

theorem Inv.begin (h : Inv promised got st) {c : C} (hidle : st.busy c = none) (old : E) (todo : List (E → E)) :
    Inv (promised ++ [written todo old]) got
      ⟨st.log.reserve, Function.update st.busy c (some ⟨st.log.next, old, todo⟩)⟩ := by
  refine ⟨h.keeps.reserve _, fun c' b hb => ?_, fun i hi => ?_⟩
  · dsimp only at hb
    by_cases hc : c' = c
    · subst hc
      rw [Function.update_self] at hb
      obtain rfl := Option.some.inj hb
      exact h.keeps.getElem?_next _
    · rw [Function.update_of_ne hc] at hb
      have hold := h.busy c' b hb
      obtain ⟨hlt, -⟩ := List.getElem?_eq_some_iff.mp hold
      rw [List.getElem?_append_left hlt]
      exact hold
  · rcases CommitLog.unfilled_reserve hi with hi | rfl
    · obtain ⟨c', b, hb, hs⟩ := h.unfilled i hi
      -- a producer at work is not the one that was idle
      have hc : c' ≠ c := by
        rintro rfl
        rw [hidle] at hb
        cases hb
      exact ⟨c', b, (Function.update_of_ne hc _ _).trans hb, hs⟩
    · exact ⟨c, _, Function.update_self c _ _, rfl⟩

theorem Inv.write (h : Inv promised got st) {c : C} {slot : ℕ} {r : E} {w : E → E} {todo : List (E → E)}
    (hc : st.busy c = some ⟨slot, r, w :: todo⟩) :
    Inv promised got { st with busy := Function.update st.busy c (some ⟨slot, w r, todo⟩) } := by
  refine ⟨h.keeps, fun c' b hb => ?_, fun i hi => ?_⟩
  · dsimp only at hb
    by_cases hcc : c' = c
    · subst hcc
      rw [Function.update_self] at hb
      obtain rfl := Option.some.inj hb
      have hpromise := h.busy c' _ hc
      exact hpromise
    · rw [Function.update_of_ne hcc] at hb
      exact h.busy c' b hb
  · obtain ⟨c', b, hb, hs⟩ := h.unfilled i hi
    by_cases hcc : c' = c
    · subst hcc
      rw [hc] at hb
      obtain rfl := Option.some.inj hb
      exact ⟨c', _, Function.update_self c' _ _, hs⟩
    · exact ⟨c', b, (Function.update_of_ne hcc _ _).trans hb, hs⟩

theorem Inv.commit (h : Inv promised got st) {c : C} {slot : ℕ} {r : E} (hc : st.busy c = some ⟨slot, r, []⟩) :
    Inv promised got ⟨st.log.commit slot r, Function.update st.busy c none⟩ := by
  refine ⟨h.keeps.commit (h.busy c _ hc), fun c' b hb => ?_, fun i hi => ?_⟩
  · dsimp only at hb
    by_cases hcc : c' = c
    · subst hcc
      rw [Function.update_self] at hb
      cases hb
    · rw [Function.update_of_ne hcc] at hb
      exact h.busy c' b hb
  · obtain ⟨hne, hi⟩ := CommitLog.unfilled_commit hi
    obtain ⟨c', b, hb, hs⟩ := h.unfilled i hi
    have hcc : c' ≠ c := by
      rintro rfl
      rw [hc] at hb
      obtain rfl := Option.some.inj hb
      exact hne hs.symm
    exact ⟨c', b, (Function.update_of_ne hcc _ _).trans hb, hs⟩

theorem filterMap_taken (l : List E) :
    (l.map (.taken : E → Effect E J)).filterMap Effect.begun? = [] ∧
      (l.map (.taken : E → Effect E J)).filterMap Effect.taken? = l := by
  induction l with
  | nil => exact ⟨rfl, rfl⟩
  | cons r l ih => exact ⟨ih.1, congrArg (r :: ·) ih.2⟩

/-- The invariant over what has been emitted. -/
def Kept (writes : J → List (E → E)) (es : List (Effect E J)) (st : State C E) : Prop :=
  Inv ((es.filterMap Effect.begun?).map (made writes)) (es.filterMap Effect.taken?) st

theorem kept_step {es : List (Effect E J)} (h : Kept writes es st) (a : Action C E J) :
    Kept writes (es ++ (step writes st a).2) (step writes st a).1 := by
  unfold Kept at h ⊢
  rw [List.filterMap_append, List.filterMap_append, List.map_append]
  cases a with
  | begin c old job =>
    cases hb : st.busy c with
    | some b => simpa [step, hb] using h
    | none =>
      cases old with
      | none => simpa [step, hb] using h
      | some old => simpa [step, hb, made, List.filterMap_cons, Effect.begun?, Effect.taken?] using h.begin hb old (writes job)
  | work c =>
    cases hb : st.busy c with
    | none => simpa [step, hb] using h
    | some b =>
      obtain ⟨slot, r, todo⟩ := b
      cases todo with
      | nil => simpa [step, hb] using h.commit hb
      | cons w todo => simpa [step, hb] using h.write hb
  | take =>
    obtain ⟨hnone, htaken⟩ := filterMap_taken (J := J) st.log.take.2
    simp only [step, hnone, htaken, List.map_nil, List.append_nil]
    exact h.take

variable (writes)

theorem inv_run (as : List (Action C E J)) :
    Inv ((begun writes as).map (made writes)) (taken writes as) (after writes as) :=
  emission_invariant (Kept writes) inv_start (fun _ _ a h => kept_step h a) as

/-- The consumer gets the records of the jobs, in the order of the reservations. -/
theorem taken_prefix_made (as : List (Action C E J)) : taken writes as <+: (begun writes as).map (made writes) :=
  (inv_run writes as).keeps.prefix_promised

theorem begun_takes (as : List (Action C E J)) (n : ℕ) :
    begun writes (as ++ List.replicate n .take) = begun writes as := by
  have htakes : ∀ st : State C E, ∀ a ∈ List.replicate n (.take : Action C E J),
      (step writes st a).2.filterMap Effect.begun? = [] := by
    intro st a ha
    rw [List.eq_of_mem_replicate ha]
    exact (filterMap_taken _).1
  rw [begun, outputs_append, List.filterMap_append, filterMap_outputs_eq_nil htakes, List.append_nil]
  rfl

/-- Once nobody is at work, the consumer gets them all. -/
theorem taken_takes (as : List (Action C E J)) (hidle : ∀ c, (after writes as).busy c = none) {n : ℕ}
    (hn : (begun writes as).length ≤ n) :
    taken writes (as ++ List.replicate n .take) = (begun writes as).map (made writes) := by
  have hinv := inv_run writes as
  have hkeeps := (inv_run writes (as ++ List.replicate n .take)).keeps
  rw [begun_takes] at hkeeps
  have hfull : none ∉ (after writes as).log.slots := by
    intro hmem
    obtain ⟨i, hi⟩ := List.mem_iff_getElem?.mp hmem
    obtain ⟨c, b, hb, -⟩ := hinv.unfilled i hi
    rw [hidle c] at hb
    cases hb
  have hread := CommitLog.read_iterate_take hfull (hinv.keeps.length.symm ▸ hinv.keeps.read) n
  have hlog : (after writes (as ++ List.replicate n .take)).log =
      (fun l : CommitLog E => l.take.1)^[n] (after writes as).log := by
    rw [after, final_append]
    exact view_replicate State.log (fun _ => rfl) n _
  refine hkeeps.eq_of_drained (beq_iff_eq.mpr ?_)
  rw [hkeeps.length, hlog, hread, hinv.keeps.length, List.length_map]
  omega

end Step

end LibbpfBootstrap.Kernel.Producers
