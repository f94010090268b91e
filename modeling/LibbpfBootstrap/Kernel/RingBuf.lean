import LibbpfBootstrap.Kernel.CString
import Mathlib.Data.List.GetD

/-! A ring buffer of bytes. A reservation takes a header of eight bytes and the
record, rounded up to eight, right behind the reservation before it and modulo
the size of the ring; the record is handed out with the bytes that are there.
When the size is a whole number of reservations, a record always meets the bytes
of the record one lap earlier, and of no other: the ring then amounts to the list
of the records submitted so far. -/

namespace LibbpfBootstrap.Kernel

/-! ### Fields of a record -/

namespace CharBuf

variable {m : ℕ}

/-- The `n` bytes at an offset. -/
def peek (off n : ℕ) (b : CharBuf m) : List UInt8 :=
  (List.range n).map fun i => if h : off + i < m then b ⟨off + i, h⟩ else 0

/-- Write bytes at an offset. -/
def poke (off : ℕ) (bs : List UInt8) (b : CharBuf m) : CharBuf m := fun i =>
  if off ≤ i.val then (bs[i.val - off]?).getD (b i) else b i

theorem peek_add (off n k : ℕ) (b : CharBuf m) : peek off (n + k) b = peek off n b ++ peek (off + n) k b := by
  simp only [peek, List.range_add, List.map_append, List.map_map]
  congr 1
  apply List.map_congr_left
  intro i _
  simp only [Function.comp_apply, Nat.add_assoc]

theorem poke_of_outside {off : ℕ} {bs : List UInt8} {b : CharBuf m} {i : Fin m}
    (h : i.val < off ∨ off + bs.length ≤ i.val) : poke off bs b i = b i := by
  unfold poke
  split_ifs with hi
  · rw [List.getElem?_eq_none (by omega), Option.getD_none]
  · rfl

theorem peek_poke_self {off n : ℕ} {bs : List UInt8} (b : CharBuf m) (hn : bs.length = n) (h : off + n ≤ m) :
    peek off n (poke off bs b) = bs := by
  subst hn
  apply List.ext_getElem
  · simp [peek]
  · intro i h₁ h₂
    have hi : off + i < m := by omega
    simp only [peek, List.getElem_map, List.getElem_range, dif_pos hi, poke]
    rw [if_pos (Nat.le_add_right off i), Nat.add_sub_cancel_left, List.getElem?_eq_getElem h₂, Option.getD_some]

/-- A field apart from the bytes written keeps its value. -/
theorem peek_poke_of_disjoint {off off' n : ℕ} {bs : List UInt8} (b : CharBuf m)
    (h : off' + n ≤ off ∨ off + bs.length ≤ off') : peek off' n (poke off bs b) = peek off' n b := by
  unfold peek
  apply List.map_congr_left
  intro i hi
  have hin : i < n := List.mem_range.mp hi
  split_ifs with him
  · apply poke_of_outside
    simp only
    omega
  · rfl

end CharBuf

/-! ### The bytes of the ring -/

/-- A ring buffer: the producer position, which only grows, and the data area. -/
structure RingBuf where
  producer : ℕ
  data : ℕ → UInt8

namespace RingBuf

/-- The header in front of every record. -/
abbrev Header := CharBuf 8

/-- A ring at its creation. -/
def empty : RingBuf := ⟨0, fun _ => 0⟩

/-- What a reservation for `len` bytes takes. -/
def stride (len : ℕ) : ℕ := 8 + (len + 7) / 8 * 8

/-- Write bytes from a position on, around the end of the data area. -/
def put (size : ℕ) : ℕ → List UInt8 → (ℕ → UInt8) → ℕ → UInt8
  | _, [], data => data
  | p, b :: bs, data => put size (p + 1) bs (Function.update data (p % size) b)

variable {size slots len : ℕ}

/-- The record of the reservation at a position. -/
def record (size len p : ℕ) (data : ℕ → UInt8) : CharBuf len := fun i => data ((p + 8 + i) % size)

/-- Reserve a record, fill it and submit it: the ring, the bytes that were found
in the reservation, and the record. -/
def submit (size : ℕ) (header : Header) (fill : CharBuf len → CharBuf len) (rb : RingBuf) :
    RingBuf × CharBuf len × CharBuf len :=
  let data := put size rb.producer (List.ofFn header) rb.data
  let found := record size len rb.producer data
  ({ producer := rb.producer + stride len
     data := put size (rb.producer + 8) (List.ofFn (fill found)) data }, found, fill found)

theorem put_of_outside {p j : ℕ} {bs : List UInt8} {data : ℕ → UInt8}
    (h : ∀ i < bs.length, j ≠ (p + i) % size) : put size p bs data j = data j := by
  induction bs generalizing p data with
  | nil => rfl
  | cons b bs ih =>
    have hp : j ≠ p % size := h 0 (Nat.succ_pos _)
    rw [put, ih, Function.update_of_ne hp]
    intro i hi
    rw [Nat.add_assoc, Nat.add_comm 1 i]
    exact h (i + 1) (Nat.succ_lt_succ hi)

/-- Two positions less than a lap apart are different bytes. -/
theorem mod_ne_of_lt {a b : ℕ} (h1 : a < b) (h2 : b < a + size) : b % size ≠ a % size := by
  intro he
  have hd : size ∣ b - a := Nat.dvd_of_mod_eq_zero (Nat.sub_mod_eq_zero_of_mod_eq he)
  have hle : size ≤ b - a := Nat.le_of_dvd (Nat.sub_pos_of_lt h1) hd
  omega

theorem put_apply {p i : ℕ} {bs : List UInt8} {data : ℕ → UInt8} (hi : i < bs.length) (hs : bs.length ≤ size) :
    put size p bs data ((p + i) % size) = bs[i] := by
  induction bs generalizing p i data with
  | nil => exact absurd hi (Nat.not_lt_zero i)
  | cons b bs ih =>
    rw [List.length_cons] at hs
    cases i with
    | zero =>
      rw [put, put_of_outside]
      · simp
      · intro k hk
        exact (mod_ne_of_lt (by omega) (by omega)).symm
    | succ i =>
      rw [put, show p + (i + 1) = p + 1 + i by omega, ih (Nat.lt_of_succ_lt_succ hi) (by omega)]
      rfl

theorem add_le_stride (len : ℕ) : 8 + len ≤ stride len := by
  unfold stride
  omega

/-! ### The ring as a list of records -/

/-- The bytes that the reservation number `n` finds: zeros on the first lap, the
record submitted one lap earlier from then on. -/
def foundAt (slots n : ℕ) (records : List (CharBuf len)) : CharBuf len :=
  if n < slots then fun _ => 0 else records.getD (n - slots) fun _ => 0

/-- The bytes that the next reservation finds. -/
def found (slots : ℕ) (records : List (CharBuf len)) : CharBuf len := foundAt slots records.length records

/-- Found bytes are zeros or those of a record submitted before. -/
theorem found_cases (slots : ℕ) (records : List (CharBuf len)) :
    (found slots records = fun _ => 0) ∨ found slots records ∈ records := by
  unfold found foundAt
  split_ifs with h
  · exact Or.inl rfl
  · rw [List.getD_eq_getElem?_getD]
    by_cases hr : records.length - slots < records.length
    · rw [List.getElem?_eq_getElem hr]
      exact Or.inr (List.getElem_mem hr)
    · rw [List.getElem?_eq_none (not_lt.mp hr)]
      exact Or.inl rfl

/-- The ring holds these records: it stands behind the last of them, and each of
the reservations of the coming lap will find what the list says. -/
structure Holds (size slots : ℕ) (records : List (CharBuf len)) (rb : RingBuf) : Prop where
  producer : rb.producer = stride len * records.length
  data : ∀ n, records.length ≤ n → n < records.length + slots →
    record size len (stride len * n) rb.data = foundAt slots n records

theorem holds_empty : Holds size slots ([] : List (CharBuf len)) empty where
  producer := rfl
  data n _ hn := by
    rw [List.length_nil, Nat.zero_add] at hn
    rw [foundAt, if_pos hn]
    rfl

/-- A reservation is not touched by what is written to another one of the same lap. -/
theorem record_put_of_apart {n m k : ℕ} {bs : List UInt8} {data : ℕ → UInt8} (hsize : size = stride len * slots)
    (hk : k + bs.length ≤ stride len) (h1 : n < m) (h2 : m < n + slots) :
    record size len (stride len * m) (put size (stride len * n + k) bs data) =
      record size len (stride len * m) data := by
  funext i
  apply put_of_outside
  intro j hj
  have hlen := add_le_stride len
  have hi := i.isLt
  have hle : stride len * (n + 1) ≤ stride len * m := Nat.mul_le_mul_left _ h1
  have hge : stride len * (m + 1) ≤ stride len * (n + slots) := Nat.mul_le_mul_left _ h2
  rw [Nat.mul_add] at hle hge
  rw [Nat.mul_add] at hge
  apply mod_ne_of_lt <;> omega

theorem record_put_header {p : ℕ} {header : Header} {data : ℕ → UInt8} (hs : 8 + len ≤ size) :
    record size len p (put size p (List.ofFn header) data) = record size len p data := by
  funext i
  apply put_of_outside
  intro j hj
  rw [List.length_ofFn] at hj
  have hi := i.isLt
  apply mod_ne_of_lt <;> omega

theorem record_put_self {p : ℕ} (r : CharBuf len) (data : ℕ → UInt8) (hs : 8 + len ≤ size) :
    record size len p (put size (p + 8) (List.ofFn r) data) = r := by
  funext i
  have hi : i.val < (List.ofFn r).length := by rw [List.length_ofFn]; exact i.isLt
  rw [record, put_apply hi (by rw [List.length_ofFn]; omega), List.getElem_ofFn]

theorem record_add_lap (p : ℕ) (data : ℕ → UInt8) : record size len (p + size) data = record size len p data := by
  funext i
  rw [record, record, show p + size + 8 + i.val = p + 8 + i.val + size by omega, Nat.add_mod_right]

section Lap

variable {records : List (CharBuf len)} {rb : RingBuf}

theorem stride_le_size (hsize : size = stride len * slots) (hslots : 0 < slots) : 8 + len ≤ size := by
  rw [hsize]
  exact (add_le_stride len).trans (Nat.le_mul_of_pos_right _ hslots)

theorem submit_found (hsize : size = stride len * slots) (hslots : 0 < slots) (h : Holds size slots records rb)
    (header : Header) (fill : CharBuf len → CharBuf len) :
    (submit size header fill rb).2 = (found slots records, fill (found slots records)) := by
  have hf : record size len rb.producer (put size rb.producer (List.ofFn header) rb.data) = found slots records := by
    rw [record_put_header (stride_le_size hsize hslots), h.producer]
    exact h.data records.length le_rfl (Nat.lt_add_of_pos_right hslots)
  simp only [submit, hf]

/-- A submission appends one record, made from the record one lap earlier. -/
theorem holds_submit (hsize : size = stride len * slots) (hslots : 0 < slots) (h : Holds size slots records rb)
    (header : Header) (fill : CharBuf len → CharBuf len) :
    Holds size slots (records ++ [fill (found slots records)]) (submit size header fill rb).1 := by
  have hr : (submit size header fill rb).2.2 = fill (found slots records) := by
    rw [submit_found hsize hslots h]
  have hlen := add_le_stride len
  constructor
  · rw [List.length_append, List.length_singleton, Nat.mul_succ, ← h.producer]
    rfl
  · intro n h1 h2
    rw [List.length_append, List.length_singleton] at h1 h2
    rw [← hr]
    simp only [submit, h.producer]
    -- the reservation just made is the last one of the coming lap
    by_cases hn : n = records.length + slots
    · have hlap : stride len * n = stride len * records.length + size := by rw [hn, Nat.mul_add, hsize]
      rw [hlap, record_add_lap, record_put_self _ _ (stride_le_size hsize hslots), foundAt, if_neg (by omega),
        List.getD_append_right _ _ _ _ (by omega), hn]
      simp
    · rw [record_put_of_apart hsize (by rw [List.length_ofFn]; exact hlen) h1 (by omega)]
      rw [← Nat.add_zero (stride len * records.length), record_put_of_apart hsize (by simp; omega) h1 (by omega),
        h.data n (by omega) (by omega)]
      unfold foundAt
      split_ifs with hlt
      · rfl
      · rw [List.getD_append _ _ _ _ (by omega)]

end Lap

end RingBuf

end LibbpfBootstrap.Kernel
