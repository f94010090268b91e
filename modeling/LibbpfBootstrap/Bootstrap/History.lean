import LibbpfBootstrap.Bootstrap.Handlers

/-! What bootstrap reports, said over histories. The specification never looks at
the map: a leader exit is measured from the latest exec of its PID since the
previous leader exit of that PID. The handlers meet it for every interleaving,
every threshold, every pattern of lost reservations and of refused updates. -/

namespace LibbpfBootstrap.Bootstrap

open Kernel Kernel.Runs Libc

/-- A record as its reader sees it: the fields that belong to its kind, with
character buffers read as strings and the duration as a number. -/
inductive Record
  | exec (pid ppid : BitVec 32) (comm filename : List UInt8)
  | exit (pid ppid exitCode : BitVec 32) (durationNs : ℕ) (comm : List UInt8)
  deriving DecidableEq

def Event.record (e : Event) : Record :=
  if e.exitEvent then .exit e.pid e.ppid e.exitCode e.durationNs.toNat e.comm.cstr
  else .exec e.pid e.ppid e.comm.cstr e.filename.cstr

/-- A string as a buffer of `n` bytes keeps it. -/
def clip (n : ℕ) (s : List UInt8) : List UInt8 := (s.take (n - 1)).takeWhile (· ≠ 0)

def Exec.record (f : Exec) : Record :=
  .exec (pidOf f.pidTgid) f.task.realParentTgid (clip taskCommLen f.task.comm)
    (clip maxFilenameLen f.filename)

def Exit.record (f : Exit) (durationNs : ℕ) : Record :=
  .exit (pidOf f.pidTgid) f.task.realParentTgid (f.task.exitCode.sshiftRight 8 &&& 0xff) durationNs
    (clip taskCommLen f.task.comm)

theorem Exec.record_fill (f : Exec) (e : Event) : (f.fill e).record = f.record := by
  simp only [Event.record, Exec.fill, Exec.record, clip, Bool.false_eq_true, if_false]
  rw [CharBuf.cstr_putStr (by decide), CharBuf.cstr_putStr (by decide)]

theorem Exit.record_fill (f : Exit) (d : BitVec 64) (e : Event) :
    (f.fill d e).record = f.record d.toNat := by
  simp only [Event.record, Exit.fill, Exit.record, clip, if_true]
  rw [CharBuf.cstr_putStr (by decide)]

/-! ### The history of a PID -/

/-- An exec of `pid`: its time, and whether the kernel admits the PID as a new key. -/
def execOf (pid : BitVec 32) : Firing → Option (BitVec 64 × Bool)
  | .exec f => if pidOf f.pidTgid = pid then some (f.ts, f.admitted) else none
  | .exit _ => none

def leaderExitOf (pid : BitVec 32) : Firing → Bool
  | .exec _ => false
  | .exit f => f.leader && pidOf f.pidTgid == pid

/-- The time of the latest exec of `pid` since the previous leader exit of that
PID, provided an exec of that window was admitted to the map. -/
def startTime (pid : BitVec 32) (past : List Firing) : Option (BitVec 64) :=
  remembered (execOf pid) (leaderExitOf pid) past

/-- The map after any list of firings is the start times of their history. -/
def Tracks (past : List Firing) (s : ExecStart) : Prop := ∀ pid, s.lookup pid = startTime pid past

theorem tracks_nil : Tracks [] ∅ := by
  intro pid
  rw [startTime, remembered_nil]
  rfl

theorem tracks_exec {past : List Firing} {s : ExecStart} (h : Tracks past s) (m : BitVec 64) (f : Exec) :
    Tracks (past ++ [.exec f]) (handleExec m s f).1 := by
  rw [handleExec_fst]
  exact follows_updateElem h (fun _ => rfl) (if_pos rfl) fun pid hp => if_neg (Ne.symm hp)

theorem tracks_exit {past : List Firing} {s : ExecStart} (h : Tracks past s) (m : BitVec 64) (f : Exit) :
    Tracks (past ++ [.exit f]) (handleExit m s f).1 := by
  cases hl : f.leader with
  | false =>
    intro pid
    rw [handleExit_of_not_leader hl, h, startTime, startTime,
      remembered_concat_keep past (by simp [leaderExitOf, hl]) rfl]
  | true =>
    rw [handleExit_fst m s f hl]
    exact follows_erase h (by simp [leaderExitOf, hl]) (fun pid hp => by simp [leaderExitOf, Ne.symm hp]) fun _ => rfl

theorem tracks_fire {past : List Firing} {s : ExecStart} (h : Tracks past s) (m : BitVec 64) (f : Firing) :
    Tracks (past ++ [f]) (fire m s f).1 := by
  cases f with
  | exec f => exact tracks_exec h m f
  | exit f => exact tracks_exit h m f

theorem tracks_after (m : BitVec 64) (fs : List Firing) : Tracks fs (final (fire m) ∅ fs) :=
  run_invariant Tracks tracks_nil (fun _ _ f h => tracks_fire h m f) fs

/-! ### The clock -/

/-- The clock of a firing is not behind the clock of an earlier one. -/
def ClockOk (past : List Firing) (f : Firing) : Prop := ∀ g ∈ past, g.ts ≤ f.ts

instance (past : List Firing) (f : Firing) : Decidable (ClockOk past f) :=
  inferInstanceAs (Decidable (∀ g ∈ past, g.ts ≤ f.ts))

theorem startTime_le {past : List Firing} {f : Firing} (hc : ClockOk past f) {pid : BitVec 32}
    {t : BitVec 64} (ht : startTime pid past = some t) : t ≤ f.ts := by
  obtain ⟨before, g, after, admitted, rfl, -, hg, -⟩ := remembered_split ht
  cases g with
  | exit g => simp [execOf] at hg
  | exec g =>
    simp only [execOf] at hg
    split_ifs at hg
    obtain ⟨rfl, -⟩ := Prod.mk.inj (Option.some.inj hg)
    exact hc (.exec g) (by simp)

/-! ### The specification -/

/-- The record owed for a firing after a history. -/
def due (m : BitVec 64) (past : List Firing) : Firing → Option Record
  | .exec f => if m = 0#64 then some f.record else none
  | .exit f =>
    if f.leader then
      match startTime (pidOf f.pidTgid) past with
      | some t =>
        if m ≠ 0#64 ∧ f.ts.toNat - t.toNat < m.toNat then none
        else some (f.record (f.ts.toNat - t.toNat))
      | none => if m ≠ 0#64 then none else some (f.record 0)
    else none

def Firing.reserved : Firing → Bool
  | .exec f => f.slot.isSome
  | .exit f => f.slot.isSome

/-- A record whose own reservation failed is lost. -/
def expected (m : BitVec 64) (past : List Firing) (f : Firing) : List Record :=
  if f.reserved then (due m past f).toList else []

/-- A reserved slot is filled and submitted, a failed reservation submits nothing. -/
theorem records_of_slot {slot : Option Event} {fill : Event → Event} {r : Record}
    (h : ∀ e, (fill e).record = r) :
    (slot.toList.map fill).map Event.record = if slot.isSome then [r] else [] := by
  cases slot with
  | none => rfl
  | some e => simp [h]

theorem fire_records {past : List Firing} {s : ExecStart} (h : Tracks past s) (m : BitVec 64) (f : Firing)
    (hc : ClockOk past f) : (fire m s f).2.map Event.record = expected m past f := by
  cases f with
  | exec f =>
    simp only [fire, handleExec_snd, expected, due, Firing.reserved]
    by_cases hm : m = 0#64
    · rw [if_pos hm, if_pos hm, records_of_slot f.record_fill]
      rfl
    · simp [hm]
  | exit f =>
    simp only [fire, expected, due, Firing.reserved]
    cases hl : f.leader with
    | false => simp [handleExit_of_not_leader hl]
    | true =>
      rw [handleExit_snd m s f hl, h]
      cases ht : startTime (pidOf f.pidTgid) past with
      | none =>
        by_cases hm : m = 0#64
        · simp only [hm, ne_eq, not_true, if_false, if_true]
          rw [records_of_slot (f.record_fill 0#64)]
          rfl
        · simp [hm]
      | some t =>
        have hd : (f.ts - t).toNat = f.ts.toNat - t.toNat :=
          BitVec.toNat_sub_of_le (startTime_le hc ht)
        simp only [BitVec.lt_def, hd, if_true]
        by_cases hm : m ≠ 0#64 ∧ f.ts.toNat - t.toNat < m.toNat
        · simp [hm]
        · simp only [if_neg hm]
          rw [records_of_slot (f.record_fill (f.ts - t)), hd]
          rfl

/-- Bootstrap refines its history: for every threshold, every list of firings
with a non-decreasing clock and every pattern of failures, the submitted records
are the ones owed, in order, less those whose reservation failed. -/
theorem submitted_records (m : BitVec 64) (fs : List Firing) (hclock : Allowed ClockOk fs) :
    (submitted m fs).map Event.record = foretold (expected m) [] fs :=
  outputs_eq_foretold Event.record (expected m) Tracks tracks_nil
    (fun _ _ f h hc => ⟨tracks_fire h m f, fire_records h m f hc⟩) fs hclock

/-- A process that execs twice, whose PID is then used by one that never execs. -/
theorem submitted_records_reexec :
    (submitted 0#64 [.exec (.plain 7 100), .exec (.plain 7 150), .exit (.plain 7 250),
      .exit (.plain 7 300)]).map Event.record =
      [.exec 7 1 (ascii "sh") (ascii "/bin/sh"), .exec 7 1 (ascii "sh") (ascii "/bin/sh"),
        .exit 7 1 0 100 (ascii "sh"), .exit 7 1 0 0 (ascii "sh")] :=
  (submitted_records 0#64 _ (by decide)).trans (by decide)

end LibbpfBootstrap.Bootstrap
