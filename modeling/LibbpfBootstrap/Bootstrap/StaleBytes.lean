import LibbpfBootstrap.Bootstrap.MinDuration
import Mathlib.Data.List.Forall2

/-! What bootstrap prints does not depend on what a ring slot held before it was
reserved. The two handlers write different fields of the one `struct event`, and
`handle_event` reads different fields of it depending on `exit_event`; it reads
none beyond those of the view `Event.record`, and a filled slot has the view of
its firing whatever it held. -/

namespace LibbpfBootstrap.Bootstrap

open Kernel Kernel.Runs Libc

/-- The same firing with other bytes in its slot; a failed reservation has none. -/
def Exec.withSlot (f : Exec) (stale : Event) : Exec := { f with slot := f.slot.map fun _ => stale }

def Exit.withSlot (f : Exit) (stale : Event) : Exit := { f with slot := f.slot.map fun _ => stale }

def Firing.withSlot (stale : Event) : Firing → Firing
  | .exec f => .exec (f.withSlot stale)
  | .exit f => .exit (f.withSlot stale)

/-- The firings with the slot of the `i`-th one holding `stale i`. -/
def withSlots (stale : ℕ → Event) (fs : List Firing) : List Firing :=
  fs.mapIdx fun i f => f.withSlot (stale i)

/-- The lines printed along a run, each as a function of its time column. -/
def lines (m : BitVec 64) (s : ExecStart) (fs : List Firing) : List (List UInt8 → List UInt8) :=
  (outputs (fire m) s fs).map fun e ts => handleEvent ts e

/-- The printer reads nothing of a record that its view leaves out. -/
theorem handleEvent_congr {e e' : Event} (h : e.record = e'.record) (ts : List UInt8) :
    handleEvent ts e = handleEvent ts e' := by
  unfold Event.record at h
  cases hx : e.exitEvent <;> cases hx' : e'.exitEvent <;> simp only [hx, hx'] at h
  · obtain ⟨hpid, hppid, hcomm, hfilename⟩ := Record.exec.inj h
    simp [handleEvent, hx, hx', hpid, hppid, hcomm, hfilename]
  · cases h
  · cases h
  · obtain ⟨hpid, hppid, hcode, hduration, hcomm⟩ := Record.exit.inj h
    have hd : e.durationNs = e'.durationNs := BitVec.eq_of_toNat_eq hduration
    simp [handleEvent, hx, hx', hpid, hppid, hcode, hd, hcomm]

/-- A slot filled in two ways that agree on the view gives the same line. -/
theorem lines_of_slot (slot : Option Event) {fill : Event → Event} (stale : Event)
    (h : ∀ e e', (fill e).record = (fill e').record) :
    (slot.toList.map fill).map (fun e ts => handleEvent ts e) =
      ((slot.map fun _ => stale).toList.map fill).map (fun e ts => handleEvent ts e) := by
  cases slot with
  | none => rfl
  | some e => simpa using funext fun ts => handleEvent_congr (h e stale) ts

theorem handleExit_withSlot (m : BitVec 64) (s : ExecStart) (f : Exit) (stale : Event) :
    (handleExit m s f).1 = (handleExit m s (f.withSlot stale)).1 ∧
      (handleExit m s f).2.map (fun e ts => handleEvent ts e) =
        (handleExit m s (f.withSlot stale)).2.map (fun e ts => handleEvent ts e) := by
  have hsame : (f.withSlot stale).leader = f.leader := rfl
  cases hl : f.leader with
  | false => simp [handleExit_of_not_leader hl, handleExit_of_not_leader (hsame.trans hl)]
  | true =>
    have hline (d : BitVec 64) := lines_of_slot f.slot stale fun e e' =>
      (f.record_fill d e).trans (f.record_fill d e').symm
    rw [handleExit_fst m s f hl, handleExit_fst m s _ (hsame.trans hl), handleExit_snd m s f hl,
      handleExit_snd m s _ (hsame.trans hl)]
    have hpid : (f.withSlot stale).pidTgid = f.pidTgid := rfl
    have hts : (f.withSlot stale).ts = f.ts := rfl
    rw [hpid, hts]
    refine ⟨rfl, ?_⟩
    cases s.lookup (pidOf f.pidTgid) with
    | none =>
      dsimp only
      split_ifs
      · rfl
      · exact hline 0#64
    | some t =>
      dsimp only
      split_ifs
      · rfl
      · exact hline (f.ts - t)

/-- One firing moves the map and prints the same whatever its slot held. -/
theorem fire_withSlot (m : BitVec 64) (s : ExecStart) (f : Firing) (stale : Event) :
    (fire m s f).1 = (fire m s (f.withSlot stale)).1 ∧
      (fire m s f).2.map (fun e ts => handleEvent ts e) =
        (fire m s (f.withSlot stale)).2.map (fun e ts => handleEvent ts e) := by
  cases f with
  | exec f =>
    simp only [fire, Firing.withSlot, handleExec_fst, handleExec_snd]
    refine ⟨rfl, ?_⟩
    split_ifs
    · exact lines_of_slot f.slot stale fun e e' => (f.record_fill e).trans (f.record_fill e').symm
    · rfl
  | exit f => exact handleExit_withSlot m s f stale

theorem lines_withSlots (m : BitVec 64) (s : ExecStart) (stale : ℕ → Event) (fs : List Firing) :
    lines m s (withSlots stale fs) = lines m s fs := by
  refine (outputs_congr_of_forall₂ _ (fun f g => ∃ e, g = f.withSlot e) ?_ s ?_).symm
  · rintro t f g ⟨e, rfl⟩
    exact fire_withSlot m t f e
  · rw [withSlots, List.forall₂_iff_get]
    refine ⟨by simp, fun i hi hi' => ⟨stale i, ?_⟩⟩
    simp

/-- Any two initial contents of the reserved slots give the same lines, from any
map and for every threshold. -/
theorem lines_independent_of_slots (m : BitVec 64) (s : ExecStart) (fs : List Firing) (stale stale' : ℕ → Event) :
    lines m s (withSlots stale fs) = lines m s (withSlots stale' fs) := by
  rw [lines_withSlots, lines_withSlots]

end LibbpfBootstrap.Bootstrap
