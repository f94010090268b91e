import Mathlib.Data.List.Basic
import Mathlib.Data.Nat.Basic
import Mathlib.Tactic.Common

/-! Sequence files of the kernel. A read hands out what the last one left; if that is
nothing, it visits the objects that are still to come until it has as many bytes as
were asked for. It visits only so many of them: when nothing was written by then, the
caller is told to try again. If every visit writes nothing or as many bytes as a read
asks for, every read gets one whole record, and the reads get the records in order. -/

namespace LibbpfBootstrap.Kernel

/-- An open sequence file: what the visits share, the objects still to be visited, and
the bytes written and not read. -/
structure SeqFile (S V B : Type*) where
  state : S
  rest : List V
  pending : List B

namespace SeqFile

variable {S V B L : Type*}

inductive Answer (B : Type*)
  | again
  | data (bytes : List B)

section Read

variable (visit : S → V → S × List B) (size : ℕ)

/-- Visit at most `quota` objects, until `size` bytes are there. -/
def fill : ℕ → SeqFile S V B → SeqFile S V B
  | 0, f => f
  | quota + 1, f =>
    match f.rest with
    | [] => f
    | v :: vs =>
      if size ≤ f.pending.length then f
      else fill quota ⟨(visit f.state v).1, vs, f.pending ++ (visit f.state v).2⟩

def read (quota : ℕ) (f : SeqFile S V B) : SeqFile S V B × Answer B :=
  let f := if f.pending.isEmpty then fill visit size quota f else f
  if f.pending.isEmpty then (f, if f.rest.isEmpty then .data [] else .again)
  else ({ f with pending := f.pending.drop size }, .data (f.pending.take size))

end Read

/-- Each visit writes one record of the size of a read, or nothing; what is owed for an
object is seen in its record, whatever the visits share. -/
structure Whole (visit : S → V → S × List B) (size : ℕ) (owed : V → Option L) (view : List B → L) : Prop where
  pos : 0 < size
  writes : ∀ s v, ((visit s v).2 = [] ∧ owed v = none) ∨
    ((visit s v).2.length = size ∧ owed v = some (view (visit s v).2))

/-- What a read between records can do. -/
inductive Outcome (size : ℕ) (owed : V → Option L) (view : List B → L) (quota : ℕ) (f : SeqFile S V B) :
    SeqFile S V B × Answer B → Prop
  | again (f' : SeqFile S V B) (hpending : f'.pending = []) (howed : f.rest.filterMap owed = f'.rest.filterMap owed)
      (hshorter : f'.rest.length + quota = f.rest.length) : Outcome size owed view quota f (f', .again)
  | eof (f' : SeqFile S V B) (hrest : f'.rest = []) (hpending : f'.pending = [])
      (howed : f.rest.filterMap owed = []) : Outcome size owed view quota f (f', .data [])
  | record (f' : SeqFile S V B) (bytes : List B) (hsize : bytes.length = size) (hpending : f'.pending = [])
      (howed : f.rest.filterMap owed = view bytes :: f'.rest.filterMap owed)
      (hshorter : f'.rest.length < f.rest.length) : Outcome size owed view quota f (f', .data bytes)

section Whole

variable {visit : S → V → S × List B} {size : ℕ} {owed : V → Option L} {view : List B → L}

theorem fill_of_full (quota : ℕ) {f : SeqFile S V B} (h : size ≤ f.pending.length) : fill visit size quota f = f := by
  cases quota with
  | zero => rfl
  | succ quota =>
    rw [fill]
    split
    · rfl
    · rw [if_pos h]

theorem fill_whole (h : Whole visit size owed view) (quota : ℕ) (f : SeqFile S V B) (hp : f.pending = []) :
    ((fill visit size quota f).pending = [] ∧
        f.rest.filterMap owed = (fill visit size quota f).rest.filterMap owed ∧
        ((fill visit size quota f).rest = [] ∨ (fill visit size quota f).rest.length + quota = f.rest.length)) ∨
      ((fill visit size quota f).pending.length = size ∧
        f.rest.filterMap owed = view (fill visit size quota f).pending :: (fill visit size quota f).rest.filterMap owed ∧
        (fill visit size quota f).rest.length < f.rest.length) := by
  induction quota generalizing f with
  | zero => exact Or.inl ⟨hp, rfl, Or.inr rfl⟩
  | succ quota ih =>
    obtain ⟨s, rest, pending⟩ := f
    obtain rfl : pending = [] := hp
    cases rest with
    | nil => exact Or.inl ⟨rfl, rfl, Or.inl rfl⟩
    | cons v vs =>
      have hpos : ¬ size ≤ ([] : List B).length := not_le.mpr h.pos
      simp only [fill, if_neg hpos, List.nil_append]
      rcases h.writes s v with ⟨hnone, howed⟩ | ⟨hsize, howed⟩
      · -- nothing written: the next object is visited with what is left of the quota
        rw [hnone, List.filterMap_cons_none howed]
        rcases ih ⟨(visit s v).1, vs, []⟩ rfl with ⟨h1, h2, h3⟩ | ⟨h1, h2, h3⟩
        · refine Or.inl ⟨h1, h2, h3.imp_right fun h3 => ?_⟩
          rw [List.length_cons, ← h3]
          exact (Nat.add_assoc _ _ _).symm
        · exact Or.inr ⟨h1, h2, Nat.lt_succ_of_lt h3⟩
      · rw [fill_of_full quota (Nat.le_of_eq hsize.symm), List.filterMap_cons_some howed]
        exact Or.inr ⟨hsize, rfl, Nat.lt_succ_self _⟩

theorem read_whole (h : Whole visit size owed view) (quota : ℕ) (f : SeqFile S V B) (hp : f.pending = []) :
    Outcome size owed view quota f (read visit size quota f) := by
  have hpos := h.pos
  simp only [read, hp, List.isEmpty_nil, if_true]
  rcases fill_whole h quota f hp with ⟨h1, h2, h3⟩ | ⟨h1, h2, h3⟩
  · simp only [h1, List.isEmpty_nil, if_true]
    cases hrest : (fill visit size quota f).rest with
    | nil =>
      rw [hrest] at h2
      exact .eof _ hrest h1 h2
    | cons v vs => exact .again _ h1 h2 (h3.resolve_left (by simp [hrest]))
  · have hne : (fill visit size quota f).pending.isEmpty = false := by
      cases hpend : (fill visit size quota f).pending with
      | nil =>
        rw [hpend, List.length_nil] at h1
        omega
      | cons b bs => rfl
    simp only [hne, Bool.false_eq_true, if_false]
    rw [List.take_of_length_le (Nat.le_of_eq h1), List.drop_of_length_le (Nat.le_of_eq h1)]
    exact .record _ _ h1 rfl h2 h3

end Whole

end SeqFile

end LibbpfBootstrap.Kernel
