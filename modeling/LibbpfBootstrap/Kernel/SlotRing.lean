import LibbpfBootstrap.Kernel.CommitLog
import LibbpfBootstrap.Kernel.RingBuf

/-! A ring of records of one size with many producers and one consumer. A producer
reserves the next cell when there is room, writes to it piece by piece while others
write to theirs, and commits; the consumer takes the cells in the order of the
reservations, and a cell that was taken is reserved again one lap later with what is
in it. However the producers interleave, the consumer gets what they would have
written one after the other: each record made from the one of the lap before. -/

namespace LibbpfBootstrap.Kernel

/-- The cells, and the log of the reservations. -/
structure SlotRing (len : ℕ) where
  cell : ℕ → CharBuf len
  log : CommitLog Unit

namespace SlotRing

variable {len : ℕ}

def empty : SlotRing len := ⟨fun _ _ => 0, .empty⟩

/-- Not all cells are waiting for the consumer. -/
def hasRoom (slots : ℕ) (r : SlotRing len) : Bool := decide (r.log.next < r.log.read + slots)

def reserve (r : SlotRing len) : SlotRing len := { r with log := r.log.reserve }

def write (slots i : ℕ) (w : CharBuf len → CharBuf len) (r : SlotRing len) : SlotRing len :=
  { r with cell := Function.update r.cell (i % slots) (w (r.cell (i % slots))) }

def commit (i : ℕ) (r : SlotRing len) : SlotRing len := { r with log := r.log.commit i () }

def take (slots : ℕ) (r : SlotRing len) : SlotRing len × List (CharBuf len) :=
  ({ r with log := r.log.take.1 }, r.log.take.2.map fun _ => r.cell (r.log.read % slots))

theorem write_cell_self (slots i : ℕ) (w : CharBuf len → CharBuf len) (r : SlotRing len) :
    (r.write slots i w).cell (i % slots) = w (r.cell (i % slots)) := Function.update_self _ _ _

theorem write_cell_of_ne {slots i j : ℕ} {w : CharBuf len → CharBuf len} {r : SlotRing len} (h : j ≠ i % slots) :
    (r.write slots i w).cell j = r.cell j := Function.update_of_ne h _ _

/-- Some writes, one after the other. -/
def applyAll (ws : List (CharBuf len → CharBuf len)) (b : CharBuf len) : CharBuf len := ws.foldl (fun b w => w b) b

/-- The ring keeps its promises: what a reservation has still to write makes the promised
record of its cell, as long as the cell is not reserved again. -/
structure Keeps (slots : ℕ) (promised taken : List (CharBuf len)) (todo : ℕ → List (CharBuf len → CharBuf len))
    (r : SlotRing len) : Prop where
  length : r.log.slots.length = promised.length
  read : r.log.read ≤ promised.length
  room : promised.length ≤ r.log.read + slots
  past : ∀ i < r.log.read, r.log.slots[i]? = some (some ())
  done : ∀ i : ℕ, r.log.slots[i]? = some (some ()) → todo i = []
  cell : ∀ (i : ℕ) (b : CharBuf len), promised[i]? = some b → promised.length ≤ i + slots →
    applyAll (todo i) (r.cell (i % slots)) = b
  fresh : ∀ j < slots, promised.length ≤ j → r.cell j = fun _ => 0
  taken : taken = promised.take r.log.read

theorem keeps_empty (slots : ℕ) (todo : ℕ → List (CharBuf len → CharBuf len)) : Keeps slots [] [] todo empty where
  length := rfl
  read := le_rfl
  room := Nat.zero_le _
  past i hi := absurd hi (Nat.not_lt_zero i)
  done i hi := by simp [empty, CommitLog.empty] at hi
  cell i b hi := by simp at hi
  fresh _ _ _ := rfl
  taken := rfl

section Steps

variable {slots : ℕ} {promised taken : List (CharBuf len)} {todo : ℕ → List (CharBuf len → CharBuf len)}
  {r : SlotRing len}

/-- A reservation that is not committed is not taken, and has its cell for itself. -/
theorem Keeps.open_bounds (h : Keeps slots promised taken todo r) {i : ℕ} (hi : r.log.slots[i]? = some none) :
    r.log.read ≤ i ∧ i < promised.length := by
  constructor
  · by_contra hlt
    have hpast := h.past i (not_le.mp hlt)
    rw [hi] at hpast
    cases hpast
  · obtain ⟨hlt, -⟩ := List.getElem?_eq_some_iff.mp hi
    exact h.length ▸ hlt

theorem Keeps.lt_of_hasRoom (h : Keeps slots promised taken todo r) (hroom : r.hasRoom slots = true) :
    promised.length < r.log.read + slots := by
  have hdec := of_decide_eq_true hroom
  rwa [CommitLog.next, h.length] at hdec

/-- The cell of the next reservation holds the record of the lap before. -/
theorem Keeps.found (h : Keeps slots promised taken todo r) (hroom : r.hasRoom slots = true) :
    r.cell (promised.length % slots) = RingBuf.found slots promised := by
  have hlt := h.lt_of_hasRoom hroom
  rw [RingBuf.found, RingBuf.foundAt]
  split_ifs with hfirst
  · rw [Nat.mod_eq_of_lt hfirst]
    exact h.fresh _ hfirst le_rfl
  · have hslots : slots ≤ promised.length := not_lt.mp hfirst
    have hprev : promised.length - slots < r.log.read := by omega
    have hin : promised.length - slots < promised.length := lt_of_lt_of_le hprev h.read
    have hcell := h.cell (promised.length - slots) _ (List.getElem?_eq_getElem hin) (by omega)
    rw [h.done _ (h.past _ hprev)] at hcell
    have hmod : promised.length % slots = (promised.length - slots) % slots := by
      conv_lhs => rw [← Nat.sub_add_cancel hslots]
      exact Nat.add_mod_right _ _
    rw [hmod, List.getD_eq_getElem?_getD, List.getElem?_eq_getElem hin]
    exact hcell

theorem Keeps.reserve (h : Keeps slots promised taken todo r) (hroom : r.hasRoom slots = true)
    (ws : List (CharBuf len → CharBuf len)) :
    Keeps slots (promised ++ [applyAll ws (RingBuf.found slots promised)]) taken (Function.update todo r.log.next ws)
      r.reserve := by
  have hnext : r.log.next = promised.length := h.length
  have hread := h.read
  have hold : ∀ {i : ℕ} {o : Option Unit}, i < promised.length →
      (r.reserve.log.slots[i]? = some o ↔ r.log.slots[i]? = some o) := by
    intro i o hi
    rw [SlotRing.reserve, CommitLog.reserve, List.getElem?_append_left (h.length.symm ▸ hi)]
  refine ⟨?_, ?_, ?_, ?_, ?_, ?_, ?_, ?_⟩
  · simp [SlotRing.reserve, CommitLog.reserve, h.length]
  · rw [List.length_append]
    exact Nat.le_add_right_of_le hread
  · rw [List.length_append, List.length_singleton]
    exact h.lt_of_hasRoom hroom
  · intro i hi
    exact (hold (lt_of_lt_of_le hi hread)).mpr (h.past i hi)
  · intro i hi
    have hin : i < promised.length := by
      obtain ⟨hlt, hget⟩ := List.getElem?_eq_some_iff.mp hi
      by_contra hge
      have hlast : i = r.log.slots.length := by
        rw [SlotRing.reserve, CommitLog.reserve, List.length_append, List.length_singleton] at hlt
        rw [h.length] at hlt ⊢
        omega
      subst hlast
      simp [SlotRing.reserve, CommitLog.reserve] at hget
    rw [Function.update_of_ne (by omega)]
    exact h.done i ((hold hin).mp hi)
  · intro i b hi hlap
    rw [List.length_append, List.length_singleton] at hlap
    by_cases hlast : i = promised.length
    · subst hlast
      rw [List.getElem?_append_right le_rfl, Nat.sub_self] at hi
      rw [← Option.some.inj hi, ← hnext, Function.update_self, hnext]
      exact congrArg (applyAll ws) (h.found hroom)
    · have hin : i < promised.length := by
        obtain ⟨hlen, -⟩ := List.getElem?_eq_some_iff.mp hi
        rw [List.length_append, List.length_singleton] at hlen
        omega
      rw [List.getElem?_append_left hin] at hi
      rw [Function.update_of_ne (by omega)]
      exact h.cell i b hi (by omega)
  · intro j hj hge
    rw [List.length_append] at hge
    exact h.fresh j hj (Nat.le_of_add_right_le hge)
  · exact h.taken.trans (List.take_append_of_le_length hread).symm

theorem Keeps.write (h : Keeps slots promised taken todo r) {i : ℕ} (hi : r.log.slots[i]? = some none)
    {w : CharBuf len → CharBuf len} {ws : List (CharBuf len → CharBuf len)} (hw : todo i = w :: ws) :
    Keeps slots promised taken (Function.update todo i ws) (r.write slots i w) := by
  obtain ⟨hge, hlt⟩ := h.open_bounds hi
  have hroom := h.room
  refine ⟨h.length, h.read, hroom, h.past, ?_, ?_, ?_, h.taken⟩
  · intro j hj
    have hne : j ≠ i := by
      rintro rfl
      rw [SlotRing.write, hi] at hj
      cases hj
    rw [Function.update_of_ne hne]
    exact h.done j hj
  · intro j b hj hlap
    by_cases hji : j = i
    · subst hji
      have hcell := h.cell j b hj hlap
      rw [hw] at hcell
      rw [Function.update_self, write_cell_self]
      exact hcell
    · -- two reservations of one lap are in different cells
      obtain ⟨hjlt, -⟩ := List.getElem?_eq_some_iff.mp hj
      have hmod : j % slots ≠ i % slots := by
        rcases lt_or_gt_of_ne hji with hlt' | hgt
        · exact (RingBuf.mod_ne_of_lt hlt' (by omega)).symm
        · exact RingBuf.mod_ne_of_lt hgt (by omega)
      rw [Function.update_of_ne hji, write_cell_of_ne hmod]
      exact h.cell j b hj hlap
  · intro j hj hjge
    have hmod : j ≠ i % slots := by
      rw [Nat.mod_eq_of_lt (by omega)]
      omega
    rw [write_cell_of_ne hmod]
    exact h.fresh j hj hjge

theorem Keeps.commit (h : Keeps slots promised taken todo r) {i : ℕ} (hi : todo i = []) :
    Keeps slots promised taken todo (r.commit i) := by
  refine ⟨?_, h.read, h.room, ?_, ?_, h.cell, h.fresh, h.taken⟩
  · rw [SlotRing.commit, CommitLog.commit, List.length_set]
    exact h.length
  · intro j hj
    by_cases hij : i = j
    · subst hij
      have hlt : i < r.log.slots.length := by
        rw [h.length]
        exact lt_of_lt_of_le hj h.read
      rw [SlotRing.commit, CommitLog.commit, List.getElem?_set_self hlt]
    · rw [SlotRing.commit, CommitLog.commit, List.getElem?_set_ne hij]
      exact h.past j hj
  · intro j hj
    by_cases hij : i = j
    · exact hij ▸ hi
    · rw [SlotRing.commit, CommitLog.commit, List.getElem?_set_ne hij] at hj
      exact h.done j hj

theorem Keeps.take (h : Keeps slots promised taken todo r) :
    Keeps slots promised (taken ++ (r.take slots).2) todo (r.take slots).1 := by
  cases hc : r.log.slots[r.log.read]? with
  | none =>
    simp only [SlotRing.take, CommitLog.take, hc, List.map_nil, List.append_nil]
    exact h
  | some slot =>
    cases slot with
    | none =>
      simp only [SlotRing.take, CommitLog.take, hc, List.map_nil, List.append_nil]
      exact h
    | some o =>
      have hlt : r.log.read < promised.length := by
        obtain ⟨hlen, -⟩ := List.getElem?_eq_some_iff.mp hc
        exact h.length ▸ hlen
      have hcell := h.cell r.log.read _ (List.getElem?_eq_getElem hlt) h.room
      rw [h.done _ hc] at hcell
      simp only [SlotRing.take, CommitLog.take, hc, List.map_singleton]
      refine ⟨h.length, hlt, h.room.trans (by dsimp only; omega), ?_, h.done, h.cell, h.fresh, ?_⟩
      · intro i hi
        rcases Nat.lt_succ_iff_lt_or_eq.mp hi with hi | rfl
        · exact h.past i hi
        · exact hc
      · rw [List.take_add_one, List.getElem?_eq_getElem hlt, ← hcell, h.taken]
        rfl

theorem Keeps.prefix_promised (h : Keeps slots promised taken todo r) : taken <+: promised := by
  rw [h.taken]
  exact List.take_prefix _ _

theorem Keeps.eq_of_drained (h : Keeps slots promised taken todo r) (hd : r.log.read = promised.length) :
    taken = promised := by
  rw [h.taken, hd, List.take_length]

end Steps

/-! ### Producers -/

section Held

variable {C W : Type*} [DecidableEq C] {slots : ℕ}

/-- Each producer holds at most one reservation, with what it has still to write, and each
reservation that is not committed is held by its owner. -/
structure Held (holds : C → Option (ℕ × List W)) (owner : ℕ → Option C) (todo : ℕ → List W) (log : CommitLog Unit) :
    Prop where
  held : ∀ c i ws, holds c = some (i, ws) → log.slots[i]? = some none ∧ owner i = some c ∧ todo i = ws
  owned : ∀ i : ℕ, log.slots[i]? = some none → ∃ c, owner i = some c ∧ holds c = some (i, todo i)

variable {holds : C → Option (ℕ × List W)} {owner : ℕ → Option C} {todo : ℕ → List W} {log : CommitLog Unit} {c : C}

omit [DecidableEq C] in
theorem Held.congr {log' : CommitLog Unit} (h : Held holds owner todo log) (hslots : log'.slots = log.slots) :
    Held holds owner todo log' := ⟨hslots ▸ h.held, hslots ▸ h.owned⟩

theorem Held.acquire (h : Held holds owner todo log) (hc : holds c = none) (ws : List W) :
    Held (Function.update holds c (some (log.next, ws))) (Function.update owner log.next (some c))
      (Function.update todo log.next ws) log.reserve := by
  have hnext : ∀ i : ℕ, log.slots[i]? = some none → i ≠ log.next := by
    intro i hi
    obtain ⟨hlt, -⟩ := List.getElem?_eq_some_iff.mp hi
    exact Nat.ne_of_lt hlt
  constructor
  · intro c' i ws' hc'
    by_cases hcc : c' = c
    · subst hcc
      rw [Function.update_self] at hc'
      cases hc'
      exact ⟨by simp [CommitLog.reserve, CommitLog.next], Function.update_self _ _ _, Function.update_self _ _ _⟩
    · rw [Function.update_of_ne hcc] at hc'
      obtain ⟨hi, ho, ht⟩ := h.held c' i ws' hc'
      obtain ⟨hlt, -⟩ := List.getElem?_eq_some_iff.mp hi
      rw [Function.update_of_ne (hnext i hi), Function.update_of_ne (hnext i hi)]
      exact ⟨(List.getElem?_append_left hlt).trans hi, ho, ht⟩
  · intro i hi
    rcases CommitLog.unfilled_reserve hi with hi | rfl
    · obtain ⟨c', ho, hc'⟩ := h.owned i hi
      have hcc : c' ≠ c := by
        rintro rfl
        rw [hc] at hc'
        cases hc'
      exact ⟨c', by rw [Function.update_of_ne (hnext i hi), ho],
        by rw [Function.update_of_ne hcc, Function.update_of_ne (hnext i hi), hc']⟩
    · exact ⟨c, Function.update_self _ _ _, by rw [Function.update_self, Function.update_self]⟩

theorem Held.progress (h : Held holds owner todo log) {i : ℕ} {ws : List W} (hc : holds c = some (i, ws))
    (ws' : List W) : Held (Function.update holds c (some (i, ws'))) owner (Function.update todo i ws') log := by
  obtain ⟨hi, ho, -⟩ := h.held c i ws hc
  constructor
  · intro c' j ws'' hc'
    by_cases hcc : c' = c
    · subst hcc
      rw [Function.update_self] at hc'
      cases hc'
      exact ⟨hi, ho, Function.update_self _ _ _⟩
    · rw [Function.update_of_ne hcc] at hc'
      obtain ⟨hj, hoj, htj⟩ := h.held c' j ws'' hc'
      have hij : j ≠ i := by
        rintro rfl
        rw [ho] at hoj
        exact hcc (Option.some.inj hoj).symm
      exact ⟨hj, hoj, by rw [Function.update_of_ne hij, htj]⟩
  · intro j hj
    obtain ⟨c', hoj, hc'⟩ := h.owned j hj
    by_cases hij : j = i
    · subst hij
      obtain rfl : c = c' := Option.some.inj (ho.symm.trans hoj)
      exact ⟨c, ho, by rw [Function.update_self, Function.update_self]⟩
    · have hcc : c' ≠ c := by
        rintro rfl
        rw [hc] at hc'
        exact hij (Prod.mk.inj (Option.some.inj hc')).1.symm
      exact ⟨c', hoj, by rw [Function.update_of_ne hcc, Function.update_of_ne hij, hc']⟩

theorem Held.release (h : Held holds owner todo log) {i : ℕ} {ws : List W} (hc : holds c = some (i, ws)) :
    Held (Function.update holds c none) owner todo (log.commit i ()) := by
  obtain ⟨-, ho, -⟩ := h.held c i ws hc
  constructor
  · intro c' j ws' hc'
    have hcc : c' ≠ c := by
      rintro rfl
      rw [Function.update_self] at hc'
      cases hc'
    rw [Function.update_of_ne hcc] at hc'
    obtain ⟨hj, hoj, htj⟩ := h.held c' j ws' hc'
    have hij : i ≠ j := by
      rintro rfl
      rw [ho] at hoj
      exact hcc (Option.some.inj hoj).symm
    exact ⟨(List.getElem?_set_ne hij).trans hj, hoj, htj⟩
  · intro j hj
    obtain ⟨hij, hopen⟩ := CommitLog.unfilled_commit hj
    obtain ⟨c', hoj, hc'⟩ := h.owned j hopen
    have hcc : c' ≠ c := by
      rintro rfl
      rw [hc] at hc'
      exact hij (Prod.mk.inj (Option.some.inj hc')).1.symm
    exact ⟨c', hoj, by rw [Function.update_of_ne hcc, hc']⟩

end Held

end SlotRing

end LibbpfBootstrap.Kernel
