import LibbpfBootstrap.Kernel.CommitLog
import LibbpfBootstrap.Bootstrap.History

/-! The handlers of `bootstrap.bpf.c` with their statements interleaved. A handler
does not run at once: other processors run other handlers between its map calls,
its reservation and its submission, and user space takes records from the ring
buffer all the while. Every such run does what the atomic firings do, one after
the other, in the order in which the firings take effect: at the reservation, or
where a firing that reserves nothing is decided. The kernel runs no two handlers at once
for the exec or the leader exit of one PID; exits of other threads are free. -/

namespace LibbpfBootstrap.Bootstrap

open Kernel Kernel.Runs

/-- A firing that works on the entry of a PID: its exec, or the exit of its leader. -/
def Firing.concerns (pid : BitVec 32) : Firing → Bool
  | .exec f => pidOf f.pidTgid == pid
  | .exit f => f.leader && pidOf f.pidTgid == pid

def Firing.slot : Firing → Option Event
  | .exec f => f.slot
  | .exit f => f.slot

def Firing.fill (durationNs : BitVec 64) : Firing → Event → Event
  | .exec f => f.fill
  | .exit f => f.fill durationNs

namespace Interleaved

/-- Where a runner stands in a handler, with the local variables that are still to
be read. -/
inductive Pc
  | idle
  | entered (f : Firing)
  | found (f : Exit)
  | deleting (f : Exit) (durationNs : BitVec 64)
  | reserving (f : Firing) (durationNs : BitVec 64)
  | submitting (slot : ℕ) (e : Event)

/-- The firing of a handler that has not taken effect. -/
def Pc.waiting : Pc → Option Firing
  | .idle => none
  | .entered f => some f
  | .found f => some (.exit f)
  | .deleting f _ => some (.exit f)
  | .reserving f _ => some f
  | .submitting _ _ => none

def Pc.holds (pid : BitVec 32) (pc : Pc) : Bool := pc.waiting.any (Firing.concerns pid)

/-- What one statement leaves: the map, the ring buffer, where the runner stands,
and the firing if it took effect. -/
structure Moved where
  execStart : ExecStart
  rb : CommitLog Event
  pc : Pc
  took : Option Firing

/-- The next statement of a handler. `*start_ts` is read through the pointer: should
the entry have been freed since the lookup, it reads anything. -/
def advance (minDurationNs junk : BitVec 64) (execStart : ExecStart) (rb : CommitLog Event) : Pc → Moved
  | .idle => ⟨execStart, rb, .idle, none⟩
  | .entered (.exec f) =>
    let execStart := execStart.updateElem f.admitted (pidOf f.pidTgid) f.ts
    if minDurationNs ≠ 0#64 then ⟨execStart, rb, .idle, some (.exec f)⟩
    else ⟨execStart, rb, .reserving (.exec f) 0#64, none⟩
  | .entered (.exit f) =>
    if pidOf f.pidTgid ≠ tidOf f.pidTgid then ⟨execStart, rb, .idle, some (.exit f)⟩
    else match execStart.lookup (pidOf f.pidTgid) with
      | some _ => ⟨execStart, rb, .found f, none⟩
      | none =>
        if minDurationNs ≠ 0#64 then ⟨execStart, rb, .idle, some (.exit f)⟩
        else ⟨execStart, rb, .deleting f 0#64, none⟩
  | .found f =>
    let startTs := (execStart.lookup (pidOf f.pidTgid)).getD junk
    ⟨execStart, rb, .deleting f (f.ts - startTs), none⟩
  | .deleting f durationNs =>
    let execStart := execStart.erase (pidOf f.pidTgid)
    if minDurationNs ≠ 0#64 ∧ durationNs < minDurationNs then ⟨execStart, rb, .idle, some (.exit f)⟩
    else ⟨execStart, rb, .reserving (.exit f) durationNs, none⟩
  | .reserving f durationNs =>
    match f.slot with
    | none => ⟨execStart, rb, .idle, some f⟩
    | some e => ⟨execStart, rb.reserve, .submitting rb.next (f.fill durationNs e), some f⟩
  | .submitting slot e => ⟨execStart, rb.commit slot e, .idle, none⟩

/-! ### What a statement does for the firings

`a` is the map that the firings which took effect leave; the map itself is ahead
of it at the PIDs that handlers are working on. -/

/-- The duration that an exit of the map `a` has, if it is not ignored there. -/
def Lasted (m : BitVec 64) (a : ExecStart) (f : Exit) (durationNs : BitVec 64) : Prop :=
  match a.lookup (pidOf f.pidTgid) with
  | some t => durationNs = f.ts - t
  | none => durationNs = 0#64 ∧ m = 0#64

/-- How far the map `s` is ahead of `a` for a runner. -/
def Agrees (m : BitVec 64) (a s : ExecStart) : Pc → Prop
  | .idle => True
  | .entered f => ∀ pid, f.concerns pid = true → s.lookup pid = a.lookup pid
  | .found f =>
    f.leader = true ∧ s.lookup (pidOf f.pidTgid) = a.lookup (pidOf f.pidTgid) ∧
      (a.lookup (pidOf f.pidTgid)).isSome = true
  | .deleting f d =>
    f.leader = true ∧ s.lookup (pidOf f.pidTgid) = a.lookup (pidOf f.pidTgid) ∧ Lasted m a f d
  | .reserving (.exec f) _ =>
    m = 0#64 ∧ s.lookup (pidOf f.pidTgid) = (a.updateElem f.admitted (pidOf f.pidTgid) f.ts).lookup (pidOf f.pidTgid)
  | .reserving (.exit f) d =>
    f.leader = true ∧ s.lookup (pidOf f.pidTgid) = none ∧ Lasted m a f d ∧ ¬ (m ≠ 0#64 ∧ d < m)
  | .submitting _ _ => True

theorem concerns_exec (f : Exec) : (Firing.exec f).concerns (pidOf f.pidTgid) = true := beq_self_eq_true _

theorem concerns_exit {f : Exit} (h : f.leader = true) : (Firing.exit f).concerns (pidOf f.pidTgid) = true := by
  simp [Firing.concerns, h]

theorem ne_of_not_concerns_exec {f : Exec} {pid : BitVec 32} (h : ¬ (Firing.exec f).concerns pid = true) :
    pid ≠ pidOf f.pidTgid := by
  rintro rfl
  exact h (concerns_exec f)

theorem ne_of_not_concerns_exit {f : Exit} {pid : BitVec 32} (hl : f.leader = true)
    (h : ¬ (Firing.exit f).concerns pid = true) : pid ≠ pidOf f.pidTgid := by
  rintro rfl
  exact h (concerns_exit hl)

/-- A firing leaves the entries it does not concern. -/
theorem fire_lookup_of_not_concerns (m : BitVec 64) (a : ExecStart) {f : Firing} {pid : BitVec 32}
    (h : ¬ f.concerns pid = true) : (fire m a f).1.lookup pid = a.lookup pid := by
  cases f with
  | exec f =>
    rw [fire, handleExec_fst]
    exact BpfMap.lookup_updateElem_ne (ne_of_not_concerns_exec h)
  | exit f =>
    cases hl : f.leader with
    | false => rw [fire, handleExit_of_not_leader hl]
    | true =>
      rw [fire, handleExit_fst m a f hl]
      exact Finmap.lookup_erase_ne (ne_of_not_concerns_exit hl h)

theorem handleExit_snd_of_lasted {m : BitVec 64} {a : ExecStart} {f : Exit} {d : BitVec 64} (hl : f.leader = true)
    (h : Lasted m a f d) :
    (handleExit m a f).2 = if m ≠ 0#64 ∧ d < m then [] else f.slot.toList.map (f.fill d) := by
  rw [handleExit_snd m a f hl]
  unfold Lasted at h
  cases ht : a.lookup (pidOf f.pidTgid) with
  | none =>
    simp only [ht] at h
    obtain ⟨rfl, rfl⟩ := h
    simp
  | some t =>
    simp only [ht] at h
    rw [h]

section Statement

variable {m junk : BitVec 64} {a s : ExecStart} {rb : CommitLog Event} {pc : Pc}

/-- Only the entries that a runner works on matter to it. -/
theorem Agrees.congr {a' s' : ExecStart}
    (h : ∀ pid, pc.holds pid = true → s'.lookup pid = s.lookup pid ∧ a'.lookup pid = a.lookup pid)
    (hs : Agrees m a s pc) : Agrees m a' s' pc := by
  cases pc with
  | idle => trivial
  | submitting i e => trivial
  | entered f =>
    intro pid hp
    obtain ⟨h1, h2⟩ := h pid hp
    rw [h1, h2]
    exact hs pid hp
  | found f =>
    obtain ⟨h1, h2⟩ := h _ (concerns_exit hs.1)
    simp only [Agrees, h1, h2]
    exact hs
  | deleting f d =>
    obtain ⟨h1, h2⟩ := h _ (concerns_exit hs.1)
    simp only [Agrees, Lasted, h1, h2]
    exact hs
  | reserving f d =>
    cases f with
    | exec f =>
      obtain ⟨h1, h2⟩ := h _ (concerns_exec f)
      simp only [Agrees, BpfMap.lookup_updateElem_self, h1, h2]
      simpa only [Agrees, BpfMap.lookup_updateElem_self] using hs
    | exit f =>
      obtain ⟨h1, h2⟩ := h _ (concerns_exit hs.1)
      simp only [Agrees, Lasted, h1, h2]
      exact hs

/-- All that a statement can do. A quiet one works on the entries of its runner; a
commit fills the slot; the others let the firing take effect, with a record for which
the slot is reserved or with none. -/
inductive Outcome (m : BitVec 64) (a s : ExecStart) (rb : CommitLog Event) (pc : Pc) : Moved → Prop
  | quiet (s' : ExecStart) (pc' : Pc) (hwaiting : pc'.waiting = pc.waiting) (hpc : ∀ i e, pc ≠ .submitting i e)
      (hpc' : ∀ i e, pc' ≠ .submitting i e)
      (hframe : ∀ pid, ¬ pc.holds pid = true → s'.lookup pid = s.lookup pid)
      (hagrees : Agrees m a s' pc') : Outcome m a s rb pc ⟨s', rb, pc', none⟩
  | commit (i : ℕ) (e : Event) (hpc : pc = .submitting i e) : Outcome m a s rb pc ⟨s, rb.commit i e, .idle, none⟩
  | silent (f : Firing) (s' : ExecStart) (hwaiting : pc.waiting = some f) (hnone : (fire m a f).2 = [])
      (hframe : ∀ pid, ¬ pc.holds pid = true → s'.lookup pid = s.lookup pid)
      (hsettled : ∀ pid, f.concerns pid = true → s'.lookup pid = (fire m a f).1.lookup pid) :
      Outcome m a s rb pc ⟨s', rb, .idle, some f⟩
  | reserve (f : Firing) (e : Event) (hwaiting : pc.waiting = some f) (hone : (fire m a f).2 = [e])
      (hsettled : ∀ pid, f.concerns pid = true → s.lookup pid = (fire m a f).1.lookup pid) :
      Outcome m a s rb pc ⟨s, rb.reserve, .submitting rb.next e, some f⟩

/-- A runner that reserves holds what the firing submits, and the map is where the
firing leaves it. -/
theorem fire_of_reserving {f : Firing} {d : BitVec 64} (h : Agrees m a s (.reserving f d)) :
    (fire m a f).2 = f.slot.toList.map (f.fill d) ∧
      ∀ pid, f.concerns pid = true → s.lookup pid = (fire m a f).1.lookup pid := by
  cases f with
  | exec f =>
    obtain ⟨hm, hs⟩ := h
    refine ⟨by rw [fire, handleExec_snd, if_pos hm]; rfl, fun pid hp => ?_⟩
    rw [← beq_iff_eq.mp hp, fire, handleExec_fst]
    exact hs
  | exit f =>
    obtain ⟨hl, hs, hd, hm⟩ := h
    refine ⟨by rw [fire, handleExit_snd_of_lasted hl hd, if_neg hm]; rfl, fun pid hp => ?_⟩
    rw [← beq_iff_eq.mp (Bool.and_eq_true_iff.mp hp).2, fire, handleExit_fst m a f hl, Finmap.lookup_erase]
    exact hs

theorem outcome_exec {f : Exec} (h : Agrees m a s (.entered (.exec f))) :
    Outcome m a s rb (.entered (.exec f)) (advance m junk s rb (.entered (.exec f))) := by
  have heq := h _ (concerns_exec f)
  have hframe : ∀ pid, ¬ (Pc.entered (.exec f)).holds pid = true →
      (s.updateElem f.admitted (pidOf f.pidTgid) f.ts).lookup pid = s.lookup pid :=
    fun pid hp => BpfMap.lookup_updateElem_ne (ne_of_not_concerns_exec hp)
  have hnew : (s.updateElem f.admitted (pidOf f.pidTgid) f.ts).lookup (pidOf f.pidTgid) =
      (a.updateElem f.admitted (pidOf f.pidTgid) f.ts).lookup (pidOf f.pidTgid) := by
    rw [BpfMap.lookup_updateElem_self, BpfMap.lookup_updateElem_self, heq]
  simp only [advance]
  split_ifs with hm
  · refine .silent _ _ rfl ?_ hframe fun pid hp => ?_
    · rw [fire, handleExec_snd, if_neg hm]
    · rw [← beq_iff_eq.mp hp, fire, handleExec_fst, hnew]
  · exact .quiet _ _ rfl (by simp) (by simp) hframe ⟨not_not.mp hm, hnew⟩

theorem outcome_exit {f : Exit} (h : Agrees m a s (.entered (.exit f))) :
    Outcome m a s rb (.entered (.exit f)) (advance m junk s rb (.entered (.exit f))) := by
  simp only [advance]
  cases hl : f.leader with
  | false =>
    have hne : pidOf f.pidTgid ≠ tidOf f.pidTgid := by simpa [Exit.leader] using hl
    rw [if_pos hne]
    exact .silent _ _ rfl (by rw [fire, handleExit_of_not_leader hl]) (fun _ _ => rfl)
      fun pid hp => by simp [Firing.concerns, hl] at hp
  | true =>
    have he : ¬ pidOf f.pidTgid ≠ tidOf f.pidTgid := by simpa [Exit.leader] using hl
    have heq := h _ (concerns_exit hl)
    rw [if_neg he]
    cases ht : s.lookup (pidOf f.pidTgid) with
    | some t =>
      refine .quiet _ _ rfl (by simp) (by simp) (fun _ _ => rfl) ⟨hl, heq, ?_⟩
      rw [← heq, ht]
      rfl
    | none =>
      rw [ht] at heq
      dsimp only
      split_ifs with hm
      · refine .silent _ _ rfl ?_ (fun _ _ => rfl) fun pid hp => ?_
        · rw [fire, handleExit_snd m a f hl, ← heq]
          exact if_pos hm
        · rw [← beq_iff_eq.mp (Bool.and_eq_true_iff.mp hp).2, fire, handleExit_fst m a f hl, Finmap.lookup_erase, ht]
      · refine .quiet _ _ rfl (by simp) (by simp) (fun _ _ => rfl) ⟨hl, ht.trans heq, ?_⟩
        simp only [Lasted, ← heq]
        exact ⟨trivial, not_not.mp hm⟩

theorem outcome_deleting {f : Exit} {d : BitVec 64} (h : Agrees m a s (.deleting f d)) :
    Outcome m a s rb (.deleting f d) (advance m junk s rb (.deleting f d)) := by
  obtain ⟨hl, -, hd⟩ := h
  have hframe : ∀ pid, ¬ (Pc.deleting f d).holds pid = true → (s.erase (pidOf f.pidTgid)).lookup pid = s.lookup pid :=
    fun pid hp => Finmap.lookup_erase_ne (ne_of_not_concerns_exit hl hp)
  simp only [advance]
  split_ifs with hm
  · refine .silent _ _ rfl ?_ hframe fun pid hp => ?_
    · rw [fire, handleExit_snd_of_lasted hl hd, if_pos hm]
    · rw [← beq_iff_eq.mp (Bool.and_eq_true_iff.mp hp).2, fire, handleExit_fst m a f hl, Finmap.lookup_erase,
        Finmap.lookup_erase]
  · exact .quiet _ _ rfl (by simp) (by simp) hframe ⟨hl, Finmap.lookup_erase _ _, hd, hm⟩

theorem advance_outcome (m junk : BitVec 64) (rb : CommitLog Event) (h : Agrees m a s pc) :
    Outcome m a s rb pc (advance m junk s rb pc) := by
  cases pc with
  | idle => exact .quiet s .idle rfl (by simp) (by simp) (fun _ _ => rfl) trivial
  | entered f =>
    cases f with
    | exec f => exact outcome_exec h
    | exit f => exact outcome_exit h
  | found f =>
    -- the entry is still there, so the pointer reads it
    obtain ⟨hl, heq, hsome⟩ := h
    obtain ⟨t, ht⟩ := Option.isSome_iff_exists.mp hsome
    refine .quiet _ _ rfl (by simp) (by simp) (fun _ _ => rfl) ⟨hl, heq, ?_⟩
    simp only [Lasted, heq, ht, Option.getD_some]
  | deleting f d => exact outcome_deleting h
  | reserving f d =>
    obtain ⟨hrec, hset⟩ := fire_of_reserving h
    simp only [advance]
    cases hs : f.slot with
    | none => exact .silent f s rfl (by rw [hrec, hs]; rfl) (fun _ _ => rfl) hset
    | some e => exact .reserve f _ rfl (by rw [hrec, hs]; rfl) hset
  | submitting i e => exact .commit i e rfl

end Statement

/-! ### Runs -/

section Run

variable {C : Type*} [DecidableEq C]

/-- The shared data, and where each runner stands. -/
structure State (C : Type*) where
  execStart : ExecStart
  rb : CommitLog Event
  pc : C → Pc

/-- A tracepoint fires on an idle runner, a runner executes its next statement, or
user space looks at its next record. -/
inductive Action (C : Type*)
  | enter (c : C) (f : Firing)
  | run (c : C) (junk : BitVec 64)
  | take

inductive Effect
  | began (f : Firing)
  | took (f : Firing)
  | handled (e : Event)

def Effect.began? : Effect → Option Firing
  | .began f => some f
  | _ => none

def Effect.took? : Effect → Option Firing
  | .took f => some f
  | _ => none

def Effect.handled? : Effect → Option Event
  | .handled e => some e
  | _ => none

def step (m : BitVec 64) (st : State C) : Action C → State C × List Effect
  | .enter c f =>
    match st.pc c with
    | .idle => ({ st with pc := Function.update st.pc c (.entered f) }, [.began f])
    | _ => (st, [])
  | .run c junk =>
    let v := advance m junk st.execStart st.rb (st.pc c)
    (⟨v.execStart, v.rb, Function.update st.pc c v.pc⟩, v.took.toList.map .took)
  | .take => ({ st with rb := st.rb.take.1 }, st.rb.take.2.map .handled)

def start : State C := ⟨∅, .empty, fun _ => .idle⟩

section Names

variable (m : BitVec 64) (as : List (Action C))

def after : State C := final (step m) start as

def effects : List Effect := outputs (step m) start as

/-- The firings that began, in this order. -/
def begun : List Firing := (effects m as).filterMap Effect.began?

/-- The firings that took effect, in this order. -/
def order : List Firing := (effects m as).filterMap Effect.took?

/-- The records that `handle_event` was called with. -/
def handled : List Event := (effects m as).filterMap Effect.handled?

/-- The kernel does not fire for a PID while a handler works on the entry of that PID. -/
def Exclusive (past : List (Action C)) : Action C → Prop
  | .enter _ f => ∀ pid, f.concerns pid = true → ∀ c, ((after m past).pc c).holds pid = false
  | _ => True

end Names

/-! ### The map -/

/-- The map is ahead of the firings that took effect at the entries that runners work
on, no two of them on the same, and nowhere else. -/
structure Simulates (m : BitVec 64) (a s : ExecStart) (pc : C → Pc) : Prop where
  agrees : ∀ c, Agrees m a s (pc c)
  apart : ∀ c c' pid, (pc c).holds pid = true → (pc c').holds pid = true → c = c'
  free : ∀ pid, (∀ c, (pc c).holds pid = false) → s.lookup pid = a.lookup pid

omit [DecidableEq C] in
theorem simulates_start (m : BitVec 64) : Simulates m ∅ ∅ fun _ : C => .idle :=
  ⟨fun _ => trivial, fun _ _ _ h => absurd h (by simp [Pc.holds, Pc.waiting]), fun _ _ => rfl⟩

section Update

variable {m : BitVec 64} {a s a' s' : ExecStart} {pc : C → Pc} {c : C} {pc' : Pc}

/-- What a runner does to the entries it works on is no business of the others. -/
theorem Simulates.update (h : Simulates m a s pc)
    (hframe : ∀ pid, ¬ (pc c).holds pid = true → s'.lookup pid = s.lookup pid ∧ a'.lookup pid = a.lookup pid)
    (hholds : ∀ pid, pc'.holds pid = true → (pc c).holds pid = true) (hagrees : Agrees m a' s' pc')
    (hsettled : ∀ pid, (pc c).holds pid = true → pc'.holds pid = false → s'.lookup pid = a'.lookup pid) :
    Simulates m a' s' (Function.update pc c pc') := by
  have hold : ∀ c' pid, (Function.update pc c pc' c').holds pid = true → (pc c').holds pid = true := by
    intro c' pid hp
    by_cases hc : c' = c
    · subst hc
      rw [Function.update_self] at hp
      exact hholds pid hp
    · rwa [Function.update_of_ne hc] at hp
  refine ⟨fun c' => ?_, fun c₁ c₂ pid h₁ h₂ => h.apart c₁ c₂ pid (hold c₁ pid h₁) (hold c₂ pid h₂), fun pid hp => ?_⟩
  · by_cases hc : c' = c
    · subst hc
      rw [Function.update_self]
      exact hagrees
    · rw [Function.update_of_ne hc]
      exact (h.agrees c').congr fun pid hp => hframe pid fun hpc => hc (h.apart c' c pid hp hpc)
  · have hpc' : pc'.holds pid = false := by simpa using hp c
    cases hpc : (pc c).holds pid with
    | true => exact hsettled pid hpc hpc'
    | false =>
      obtain ⟨h₁, h₂⟩ := hframe pid (by simp [hpc])
      rw [h₁, h₂]
      refine h.free pid fun c' => ?_
      by_cases hc : c' = c
      · rw [hc, hpc]
      · simpa [Function.update_of_ne hc] using hp c'

theorem Simulates.enter (h : Simulates m a s pc) {f : Firing} (hidle : pc c = .idle)
    (hex : ∀ pid, f.concerns pid = true → ∀ c', (pc c').holds pid = false) :
    Simulates m a s (Function.update pc c (.entered f)) := by
  refine ⟨fun c' => ?_, fun c₁ c₂ pid h₁ h₂ => ?_, fun pid hp => h.free pid fun c' => ?_⟩
  · by_cases hc : c' = c
    · subst hc
      rw [Function.update_self]
      exact fun pid hp => h.free pid (hex pid hp)
    · rw [Function.update_of_ne hc]
      exact h.agrees c'
  · -- a runner that works on an entry of the new firing is the one that just entered
    have hnew : ∀ c', (Function.update pc c (.entered f) c').holds pid = true → f.concerns pid = true → c' = c := by
      intro c' hp hf
      by_contra hc
      rw [Function.update_of_ne hc, hex pid hf c'] at hp
      cases hp
    cases hf : f.concerns pid with
    | true => rw [hnew c₁ h₁ hf, hnew c₂ h₂ hf]
    | false =>
      have hold : ∀ c', (Function.update pc c (.entered f) c').holds pid = true → (pc c').holds pid = true := by
        intro c' hp
        by_cases hc : c' = c
        · subst hc
          rw [Function.update_self] at hp
          exact absurd hp (by simp [Pc.holds, Pc.waiting, hf])
        · rwa [Function.update_of_ne hc] at hp
      exact h.apart c₁ c₂ pid (hold c₁ h₁) (hold c₂ h₂)
  · by_cases hc : c' = c
    · rw [hc, hidle]
      rfl
    · simpa [Function.update_of_ne hc] using hp c'

end Update

/-! ### The ring buffer -/

/-- The map simulates the firings that took effect; the ring buffer promises their
records, and each slot that is not filled has a runner that will fill it. -/
structure Inv (m : BitVec 64) (order : List Firing) (handled : List Event) (st : State C) : Prop where
  map : Simulates m (final (fire m) ∅ order) st.execStart st.pc
  keeps : st.rb.Keeps (submitted m order) handled
  promised : ∀ c i e, st.pc c = .submitting i e → (submitted m order)[i]? = some e
  busy : ∀ i : ℕ, st.rb.slots[i]? = some none → ∃ c e, st.pc c = .submitting i e

theorem submitted_concat (m : BitVec 64) (order : List Firing) (f : Firing) :
    submitted m (order ++ [f]) = submitted m order ++ (fire m (final (fire m) ∅ order) f).2 :=
  outputs_concat (fire m) ∅ order f

omit [DecidableEq C] in
theorem inv_start (m : BitVec 64) : Inv m [] [] (start : State C) :=
  ⟨simulates_start m, CommitLog.keeps_empty, by simp [start], by simp [start, CommitLog.empty]⟩

section Keep

variable {m junk : BitVec 64} {order : List Firing} {handled : List Event} {st : State C} {c : C}

omit [DecidableEq C] in
theorem Inv.take (h : Inv m order handled st) :
    Inv m order (handled ++ st.rb.take.2) { st with rb := st.rb.take.1 } where
  map := h.map
  keeps := h.keeps.take
  promised := h.promised
  busy i hi := h.busy i (by rwa [CommitLog.take_slots] at hi)

theorem Inv.enter (h : Inv m order handled st) {f : Firing} (hidle : st.pc c = .idle)
    (hex : ∀ pid, f.concerns pid = true → ∀ c', (st.pc c').holds pid = false) :
    Inv m order handled { st with pc := Function.update st.pc c (.entered f) } where
  map := h.map.enter hidle hex
  keeps := h.keeps
  promised c' i e hc' := by
    by_cases hc : c' = c
    · subst hc
      simp at hc'
    · exact h.promised c' i e (by simpa [Function.update_of_ne hc] using hc')
  busy i hi := by
    obtain ⟨c', e, hc'⟩ := h.busy i hi
    have hc : c' ≠ c := by
      rintro rfl
      simp [hidle] at hc'
    exact ⟨c', e, by simpa [Function.update_of_ne hc] using hc'⟩

/-- A slot being filled keeps its runner while another runner moves. -/
theorem busy_of_ne {pc : C → Pc} {pc' : Pc} {i : ℕ} (h : ∃ c' e, pc c' = .submitting i e)
    (hc : ∀ e, pc c ≠ .submitting i e) : ∃ c' e, Function.update pc c pc' c' = .submitting i e := by
  obtain ⟨c', e, hc'⟩ := h
  have hne : c' ≠ c := by
    rintro rfl
    exact hc e hc'
  exact ⟨c', e, by rw [Function.update_of_ne hne, hc']⟩

theorem not_submitting_of_waiting {pc : Pc} {f : Firing} (h : pc.waiting = some f) (i : ℕ) (e : Event) :
    pc ≠ .submitting i e := by
  rintro rfl
  cases h

theorem holds_of_waiting {pc : Pc} {f : Firing} (h : pc.waiting = some f) (pid : BitVec 32) :
    pc.holds pid = f.concerns pid := by
  rw [Pc.holds, h, Option.any_some]

/-- A promise stands when more are made, and the runner that moves has none or its
own. -/
theorem promised_update {promised : List Event} (more : List Event) {pc : C → Pc} {pc' : Pc}
    (h : ∀ c i e, pc c = .submitting i e → promised[i]? = some e)
    (hpc' : ∀ i e, pc' = .submitting i e → (promised ++ more)[i]? = some e) (c' : C) (i : ℕ) (e : Event)
    (hc' : Function.update pc c pc' c' = .submitting i e) : (promised ++ more)[i]? = some e := by
  by_cases hc : c' = c
  · subst hc
    rw [Function.update_self] at hc'
    exact hpc' i e hc'
  · rw [Function.update_of_ne hc] at hc'
    have hi := h c' i e hc'
    obtain ⟨hlt, -⟩ := List.getElem?_eq_some_iff.mp hi
    rwa [List.getElem?_append_left hlt]

theorem Inv.run (h : Inv m order handled st) (junk : BitVec 64) (c : C) :
    Inv m (order ++ (advance m junk st.execStart st.rb (st.pc c)).took.toList) handled
      (step m st (.run c junk)).1 := by
  have ho := advance_outcome m junk st.rb (h.map.agrees c)
  simp only [step]
  generalize hpc : st.pc c = pc at ho
  generalize advance m junk st.execStart st.rb pc = v at ho
  cases ho with
  | quiet s' pc' hwaiting hsub hsub' hframe hagrees =>
    have hholds : ∀ pid, pc'.holds pid = (st.pc c).holds pid := fun pid => by rw [Pc.holds, Pc.holds, hwaiting, hpc]
    simp only [Option.toList_none, List.append_nil]
    refine ⟨h.map.update (fun pid hp => ⟨hframe pid (by rwa [← hpc]), rfl⟩) (fun pid hp => by rwa [← hholds]) hagrees
      (fun pid hp hp' => ?_), h.keeps, ?_, fun i hi => busy_of_ne (h.busy i hi) (hpc ▸ hsub i)⟩
    · rw [hholds, hp] at hp'
      cases hp'
    · simpa using promised_update [] h.promised fun i e he => absurd he (hsub' i e)
  | commit i e he =>
    subst he
    simp only [Option.toList_none, List.append_nil]
    refine ⟨h.map.update (fun pid _ => ⟨rfl, rfl⟩) (fun pid hp => by cases hp) trivial (fun pid hp => ?_),
      h.keeps.commit (h.promised c i e hpc), ?_, fun j hj => ?_⟩
    · rw [hpc] at hp
      cases hp
    · simpa using promised_update [] h.promised fun i e he => by cases he
    · obtain ⟨hij, hslot⟩ := CommitLog.unfilled_commit hj
      exact busy_of_ne (h.busy j hslot) fun e' he' => hij (by rw [hpc] at he'; cases he'; rfl)
  | silent f s' hwaiting hnone hframe hsettled =>
    have hholds := holds_of_waiting hwaiting
    simp only [Option.toList_some]
    refine ⟨?_, ?_, ?_, fun i hi => busy_of_ne (h.busy i hi) fun e => hpc ▸ not_submitting_of_waiting hwaiting i e⟩
    · rw [final_concat]
      refine h.map.update (fun pid hp => ?_) (fun pid hp => by cases hp) trivial (fun pid hp _ => ?_)
      · rw [hpc] at hp
        exact ⟨hframe pid hp, fire_lookup_of_not_concerns m _ (by rwa [hholds] at hp)⟩
      · rw [hpc, hholds] at hp
        exact hsettled pid hp
    · rw [submitted_concat, hnone, List.append_nil]
      exact h.keeps
    · rw [submitted_concat]
      exact promised_update _ h.promised fun i e he => by cases he
  | reserve f e hwaiting hone hsettled =>
    have hholds := holds_of_waiting hwaiting
    simp only [Option.toList_some]
    refine ⟨?_, ?_, ?_, fun i hi => ?_⟩
    · rw [final_concat]
      refine h.map.update (fun pid hp => ?_) (fun pid hp => by cases hp) trivial (fun pid hp _ => ?_)
      · rw [hpc, hholds] at hp
        exact ⟨rfl, fire_lookup_of_not_concerns m _ hp⟩
      · rw [hpc, hholds] at hp
        exact hsettled pid hp
    · rw [submitted_concat, hone]
      exact h.keeps.reserve e
    · rw [submitted_concat, hone]
      refine promised_update _ h.promised fun i e' he => ?_
      cases he
      exact h.keeps.getElem?_next e
    · rcases CommitLog.unfilled_reserve hi with hi | rfl
      · exact busy_of_ne (h.busy i hi) fun e => hpc ▸ not_submitting_of_waiting hwaiting i e
      · exact ⟨c, e, Function.update_self _ _ _⟩

end Keep

end Run

end Interleaved

end LibbpfBootstrap.Bootstrap
