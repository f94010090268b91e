import Mathlib.Data.List.Basic
import Mathlib.Data.Nat.Basic
import Mathlib.Logic.Function.Iterate
import Mathlib.Tactic.Common

/-! A log with many producers and one consumer. A producer reserves the next slot
and fills it later, so slots are filled in any order; the consumer takes them in
the order of the reservations and waits at the first one that is not filled. If
every producer fills its slot with what the reservation promised, the consumer
sees the promises in their order, however the producers overtake each other. -/

namespace LibbpfBootstrap.Kernel

variable {O : Type*}

/-- The slots reserved so far, `none` while they are being filled, and how many of
them the consumer has taken. -/
structure CommitLog (O : Type*) where
  slots : List (Option O)
  read : ℕ

namespace CommitLog

def empty : CommitLog O := ⟨[], 0⟩

def reserve (log : CommitLog O) : CommitLog O := { log with slots := log.slots ++ [none] }

/-- The slot that the next reservation gets. -/
def next (log : CommitLog O) : ℕ := log.slots.length

def commit (i : ℕ) (o : O) (log : CommitLog O) : CommitLog O := { log with slots := log.slots.set i (some o) }

/-- The consumer looks at its next slot, and takes the record if it is filled. -/
def take (log : CommitLog O) : CommitLog O × List O :=
  match log.slots[log.read]? with
  | some (some o) => ({ log with read := log.read + 1 }, [o])
  | _ => (log, [])

/-- Everything reserved has been taken. -/
def drained (log : CommitLog O) : Bool := log.read == log.slots.length

@[simp] theorem take_slots (log : CommitLog O) : log.take.1.slots = log.slots := by
  unfold take
  split <;> rfl

theorem unfilled_reserve {log : CommitLog O} {i : ℕ} (h : log.reserve.slots[i]? = some none) :
    log.slots[i]? = some none ∨ i = log.next := by
  by_cases hlt : i < log.slots.length
  · rw [reserve, List.getElem?_append_left hlt] at h
    exact Or.inl h
  · obtain ⟨hi, -⟩ := List.getElem?_eq_some_iff.mp h
    rw [reserve, List.length_append, List.length_singleton] at hi
    exact Or.inr (by rw [next]; omega)

theorem unfilled_commit {log : CommitLog O} {i j : ℕ} {o : O} (h : (log.commit i o).slots[j]? = some none) :
    j ≠ i ∧ log.slots[j]? = some none := by
  by_cases hij : i = j
  · subst hij
    rw [commit, List.getElem?_set_self'] at h
    cases hs : log.slots[i]? <;> simp [hs] at h
  · rw [commit, List.getElem?_set_ne hij] at h
    exact ⟨Ne.symm hij, h⟩

/-- Slot by slot, the log holds what was promised or nothing yet, and what was taken
are the first promises. -/
structure Keeps (promised taken : List O) (log : CommitLog O) : Prop where
  length : log.slots.length = promised.length
  held : ∀ (i : ℕ) (o : O), log.slots[i]? = some (some o) → promised[i]? = some o
  read : log.read ≤ promised.length
  taken : taken = promised.take log.read

theorem keeps_empty : Keeps [] [] (empty : CommitLog O) :=
  ⟨rfl, by simp [empty], Nat.zero_le _, rfl⟩

variable {promised taken : List O} {log : CommitLog O}

theorem Keeps.reserve (h : Keeps promised taken log) (o : O) : Keeps (promised ++ [o]) taken log.reserve where
  length := by simp [CommitLog.reserve, h.length]
  held i o' hi := by
    -- the slot just reserved holds nothing
    have hlt : i < log.slots.length := by
      by_contra hge
      rw [CommitLog.reserve, List.getElem?_append_right (not_lt.mp hge)] at hi
      cases hk : i - log.slots.length <;> simp [hk] at hi
    rw [CommitLog.reserve, List.getElem?_append_left hlt] at hi
    rw [List.getElem?_append_left (h.length ▸ hlt)]
    exact h.held i o' hi
  read := by
    rw [List.length_append]
    exact Nat.le_add_right_of_le h.read
  taken := by
    rw [CommitLog.reserve, List.take_append_of_le_length h.read]
    exact h.taken

/-- The slot of a reservation is the one its promise is kept for. -/
theorem Keeps.getElem?_next (h : Keeps promised taken log) (o : O) : (promised ++ [o])[log.next]? = some o := by
  rw [next, h.length, List.getElem?_append_right le_rfl, Nat.sub_self]
  rfl

theorem Keeps.commit (h : Keeps promised taken log) {i : ℕ} {o : O} (ho : promised[i]? = some o) :
    Keeps promised taken (log.commit i o) where
  length := by simp [CommitLog.commit, h.length]
  held j o' hj := by
    by_cases hij : i = j
    · subst hij
      rw [CommitLog.commit, List.getElem?_set_self'] at hj
      cases hs : log.slots[i]? with
      | none => simp [hs] at hj
      | some slot =>
        rw [hs, Option.map_eq_map, Option.map_some] at hj
        rw [← Option.some.inj (Option.some.inj hj)]
        exact ho
    · rw [CommitLog.commit, List.getElem?_set_ne hij] at hj
      exact h.held j o' hj
  read := h.read
  taken := h.taken

theorem Keeps.take (h : Keeps promised taken log) : Keeps promised (taken ++ log.take.2) log.take.1 := by
  unfold CommitLog.take
  split
  · rename_i o hs
    have ho := h.held log.read o hs
    obtain ⟨hlt, -⟩ := List.getElem?_eq_some_iff.mp ho
    refine ⟨h.length, h.held, hlt, ?_⟩
    rw [List.take_add_one, ho, h.taken]
    rfl
  · simpa using h

theorem Keeps.prefix_promised (h : Keeps promised taken log) : taken <+: promised := by
  rw [h.taken]
  exact List.take_prefix _ _

theorem Keeps.eq_of_drained (h : Keeps promised taken log) (hd : log.drained = true) : taken = promised := by
  have hread : log.read = promised.length := by
    rw [← h.length]
    exact beq_iff_eq.mp hd
  rw [h.taken, hread, List.take_length]

/-- When every slot is filled, the consumer never waits. -/
theorem read_take {log : CommitLog O} (hfull : none ∉ log.slots) (hread : log.read ≤ log.slots.length) :
    log.take.1.read = min (log.read + 1) log.slots.length := by
  unfold CommitLog.take
  rcases Nat.lt_or_eq_of_le hread with hlt | heq
  · cases hs : log.slots[log.read] with
    | none => exact absurd (hs ▸ List.getElem_mem hlt) hfull
    | some o =>
      rw [List.getElem?_eq_getElem hlt, hs]
      exact (Nat.min_eq_left hlt).symm
  · rw [List.getElem?_eq_none (Nat.le_of_eq heq.symm)]
    exact heq.trans (Nat.min_eq_right (by omega)).symm

theorem read_iterate_take {log : CommitLog O} (hfull : none ∉ log.slots) (hread : log.read ≤ log.slots.length) (n : ℕ) :
    ((fun l : CommitLog O => l.take.1)^[n] log).read = min (log.read + n) log.slots.length := by
  induction n generalizing log with
  | zero => exact (Nat.min_eq_left hread).symm
  | succ n ih =>
    have hstep := read_take hfull hread
    rw [Function.iterate_succ_apply, ih (by rwa [take_slots]) (by rw [take_slots, hstep]; exact Nat.min_le_right _ _),
      hstep, take_slots]
    omega

end CommitLog

end LibbpfBootstrap.Kernel
