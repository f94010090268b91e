import LibbpfBootstrap.Bootstrap.History

/-! The map `exec_start` does not leak. Its keys are processes that have had an
exec since the last exit of their leader, because every path of `handle_exit`
for a leader removes the PID. So the map is never fuller than the set of such
processes, and while that set fits no update is refused. -/

namespace LibbpfBootstrap.Bootstrap

open Kernel Kernel.Runs Libc

/-- `max_entries` of `exec_start`. -/
abbrev maxEntries : ℕ := 8192

/-- The execs of `pid` since its last leader exit, oldest first. -/
def execsSince (pid : BitVec 32) (past : List Firing) : List (BitVec 64 × Bool) :=
  window (execOf pid) (leaderExitOf pid) past

/-- `pid` has had an exec since its last leader exit. -/
def Live (pid : BitVec 32) (past : List Firing) : Prop := execsSince pid past ≠ []

instance (pid : BitVec 32) (past : List Firing) : Decidable (Live pid past) :=
  inferInstanceAs (Decidable (execsSince pid past ≠ []))

/-- The time of the latest exec of `pid` since its last leader exit. -/
def latestExec (pid : BitVec 32) (past : List Firing) : Option (BitVec 64) :=
  (execsSince pid past).getLast?.map (·.1)

def execPid : Firing → Option (BitVec 32)
  | .exec f => some (pidOf f.pidTgid)
  | .exit _ => none

/-- The PIDs that have had an exec since their last leader exit. -/
def livePids (past : List Firing) : Finset (BitVec 32) :=
  (past.filterMap execPid).toFinset.filter (Live · past)

/-- The kernel refuses a new key only when the map is full. -/
def Admits (m : BitVec 64) (past : List Firing) : Firing → Prop
  | .exec f => (final (fire m) ∅ past).hasRoom maxEntries = true → f.admitted = true
  | .exit _ => True

/-! ### Live processes -/

theorem execsSince_exec (pid : BitVec 32) (past : List Firing) (f : Exec) :
    execsSince pid (past ++ [.exec f]) =
      if pidOf f.pidTgid = pid then execsSince pid past ++ [(f.ts, f.admitted)] else execsSince pid past := by
  split_ifs with hp
  · exact window_concat_put past rfl (if_pos hp)
  · exact window_concat_keep past rfl (if_neg hp)

theorem execsSince_exit (pid : BitVec 32) (past : List Firing) (f : Exit) :
    execsSince pid (past ++ [.exit f]) =
      if leaderExitOf pid (.exit f) then [] else execsSince pid past := by
  split_ifs with hl
  · exact window_concat_del past hl
  · exact window_concat_keep past (by simpa using hl) rfl

theorem live_exec {pid : BitVec 32} {past : List Firing} {f : Exec} :
    Live pid (past ++ [.exec f]) ↔ pidOf f.pidTgid = pid ∨ Live pid past := by
  unfold Live
  rw [execsSince_exec]
  split_ifs with hp <;> simp [hp]

theorem live_exit {pid : BitVec 32} {past : List Firing} {f : Exit} :
    Live pid (past ++ [.exit f]) ↔ leaderExitOf pid (.exit f) = false ∧ Live pid past := by
  unfold Live
  rw [execsSince_exit]
  split_ifs with hl <;> simp [hl]

theorem mem_livePids {pid : BitVec 32} {past : List Firing} : pid ∈ livePids past ↔ Live pid past := by
  simp only [livePids, Finset.mem_filter, List.mem_toFinset, List.mem_filterMap, and_iff_right_iff_imp]
  induction past using List.reverseRecOn with
  | nil => exact fun h => absurd rfl h
  | append_singleton past f ih =>
    cases f with
    | exec f =>
      rw [live_exec]
      rintro (rfl | h)
      · exact ⟨.exec f, by simp, rfl⟩
      · obtain ⟨g, hg, hpid⟩ := ih h
        exact ⟨g, by simp [hg], hpid⟩
    | exit f =>
      rw [live_exit]
      rintro ⟨-, h⟩
      obtain ⟨g, hg, hpid⟩ := ih h
      exact ⟨g, by simp [hg], hpid⟩

/-- An exec of a process that was not live makes one live process more. -/
theorem card_livePids_exec {past : List Firing} {f : Exec} (h : ¬ Live (pidOf f.pidTgid) past) :
    (livePids (past ++ [.exec f])).card = (livePids past).card + 1 := by
  have hins : livePids (past ++ [.exec f]) = insert (pidOf f.pidTgid) (livePids past) := by
    ext pid
    rw [mem_livePids, live_exec, Finset.mem_insert, mem_livePids, eq_comm]
  rw [hins, Finset.card_insert_of_notMem (mt mem_livePids.mp h)]

theorem card_livePids_le (past : List Firing) : (livePids past).card ≤ past.length :=
  calc (livePids past).card
    _ ≤ (past.filterMap execPid).toFinset.card := Finset.card_filter_le _ _
    _ ≤ (past.filterMap execPid).length := List.toFinset_card_le _
    _ ≤ past.length := List.length_filterMap_le _ _

/-! ### The map against the live processes -/

/-- Each key of the map is live, so the map is no larger than the live set. -/
theorem live_of_mem {past : List Firing} {s : ExecStart} (h : Tracks past s) {pid : BitVec 32} (hk : pid ∈ s) :
    Live pid past := by
  have hs := Finmap.lookup_isSome.mpr hk
  rw [h] at hs
  exact window_ne_nil_of_isSome hs

theorem keys_subset_livePids {past : List Firing} {s : ExecStart} (h : Tracks past s) : s.keys ⊆ livePids past :=
  fun _ hk => mem_livePids.mpr (live_of_mem h (Finmap.mem_keys.mp hk))

theorem notMem_handleExit (m : BitVec 64) (s : ExecStart) (f : Exit) (h : f.leader = true) :
    pidOf f.pidTgid ∉ (handleExit m s f).1 := by
  rw [handleExit_fst m s f h, Finmap.mem_erase]
  exact fun hk => hk.1 rfl

/-- Every live process is a key. -/
def Holding (past : List Firing) (s : ExecStart) : Prop := ∀ pid, Live pid past → pid ∈ s

/-- While the live processes fit, the map has room for each new one. -/
theorem exec_accepted {m : BitVec 64} {past : List Firing} {f : Exec} (hheld : Holding past (final (fire m) ∅ past))
    (hadm : Admits m past (.exec f)) (hfit : (livePids (past ++ [.exec f])).card ≤ maxEntries) :
    pidOf f.pidTgid ∈ final (fire m) ∅ past ∨ f.admitted = true := by
  by_cases hl : Live (pidOf f.pidTgid) past
  · exact Or.inl (hheld _ hl)
  · have hsub := Finset.card_le_card (keys_subset_livePids (tracks_after m past))
    have hcard := card_livePids_exec hl
    exact Or.inr (hadm (decide_eq_true (by omega)))

theorem holding_exec {past : List Firing} {s : ExecStart} (h : Holding past s) (m : BitVec 64) {f : Exec}
    (hacc : pidOf f.pidTgid ∈ s ∨ f.admitted = true) : Holding (past ++ [.exec f]) (handleExec m s f).1 := by
  intro pid hl
  rw [handleExec_fst, BpfMap.updateElem, if_pos hacc, Finmap.mem_insert]
  rcases live_exec.mp hl with hp | hl
  · exact Or.inl hp.symm
  · exact Or.inr (h pid hl)

theorem holding_exit {past : List Firing} {s : ExecStart} (h : Holding past s) (m : BitVec 64) (f : Exit) :
    Holding (past ++ [.exit f]) (handleExit m s f).1 := by
  intro pid hl
  obtain ⟨hx, hl⟩ := live_exit.mp hl
  cases hf : f.leader with
  | false =>
    rw [handleExit_of_not_leader hf]
    exact h pid hl
  | true =>
    rw [handleExit_fst m s f hf, Finmap.mem_erase]
    refine ⟨?_, h pid hl⟩
    rintro rfl
    simp [leaderExitOf, hf] at hx

/-- The kernel refuses only when the map is full, and the live processes fit. -/
def Fits (m : BitVec 64) (past : List Firing) (f : Firing) : Prop :=
  Admits m past f ∧ (livePids (past ++ [f])).card ≤ maxEntries

theorem holding_after {m : BitVec 64} {fs : List Firing} (h : Allowed (Fits m) fs) :
    Holding fs (final (fire m) ∅ fs) := by
  induction fs using List.reverseRecOn with
  | nil => exact fun pid hl => absurd rfl hl
  | append_singleton past f ih =>
    obtain ⟨hpast, hadm, hfit⟩ := (allowed_concat _ past f).mp h
    rw [final_concat]
    cases f with
    | exec f => exact holding_exec (ih hpast) m (exec_accepted (ih hpast) hadm hfit)
    | exit f => exact holding_exit (ih hpast) m f

theorem lookup_of_holding {past : List Firing} {s : ExecStart} (ht : Tracks past s) (h : Holding past s)
    {pid : BitVec 32} (hl : Live pid past) : s.lookup pid = latestExec pid past := by
  have hs := Finmap.lookup_isSome.mpr (h pid hl)
  rw [ht] at hs ⊢
  exact remembered_of_isSome hs

/-- In every reachable state each key is live; a leader's exit leaves its PID out
of the map on every path and in every state; and while at every moment at most
`maxEntries` processes are live, every update of `handle_exec` succeeds and each
live process is held with its latest exec. -/
theorem execStart_does_not_leak (m : BitVec 64) (fs : List Firing) :
    (∀ pid ∈ final (fire m) ∅ fs, Live pid fs) ∧
    (∀ (s : ExecStart) (f : Exit), f.leader = true → pidOf f.pidTgid ∉ (handleExit m s f).1) ∧
    (Allowed (Admits m) fs → (∀ past rest, fs = past ++ rest → (livePids past).card ≤ maxEntries) →
      (∀ past f rest, fs = past ++ .exec f :: rest →
        final (fire m) ∅ (past ++ [.exec f]) = (final (fire m) ∅ past).insert (pidOf f.pidTgid) f.ts) ∧
      ∀ pid, Live pid fs → pid ∈ final (fire m) ∅ fs ∧ (final (fire m) ∅ fs).lookup pid = latestExec pid fs) := by
  refine ⟨fun pid => live_of_mem (tracks_after m fs), notMem_handleExit m, fun hadm hfit => ?_⟩
  have hall : Allowed (Fits m) fs := by
    have hcard : Allowed (fun past f => (livePids (past ++ [f])).card ≤ maxEntries) fs :=
      allowed_of_split fun past f rest he => hfit (past ++ [f]) rest (by simp [he])
    exact allowed_and hadm hcard
  constructor
  · rintro past f rest rfl
    obtain ⟨hadm, hfit⟩ := hall.at
    have hacc := exec_accepted (holding_after hall.left) hadm hfit
    rw [final_concat]
    exact (handleExec_fst m _ f).trans (if_pos hacc)
  · intro pid hl
    exact ⟨holding_after hall pid hl, lookup_of_holding (tracks_after m fs) (holding_after hall) hl⟩

/-- A process that execs twice is held with its second exec. -/
theorem execStart_does_not_leak_reexec :
    (final (fire 0#64) ∅ [.exec (.plain 7 100), .exec (.plain 7 150)]).lookup 7#32 = some 150#64 := by
  have hadm : Allowed (Admits 0#64) [.exec (.plain 7 100), .exec (.plain 7 150)] :=
    ⟨fun _ => rfl, fun _ => rfl, trivial⟩
  refine (((execStart_does_not_leak 0#64 _).2.2 hadm ?_).2 7#32 (by decide)).2
  intro past rest he
  show _ ≤ 8192
  have hlen := congrArg List.length he
  have hcard := card_livePids_le past
  simp only [List.length_cons, List.length_nil, List.length_append] at hlen
  omega

end LibbpfBootstrap.Bootstrap
