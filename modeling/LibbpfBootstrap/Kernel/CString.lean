import Mathlib.Data.List.GetD
import Mathlib.Data.List.OfFn
import Mathlib.Data.List.TakeWhile
import Mathlib.Data.Fintype.Basic
import Mathlib.Data.Fintype.Pi

/-! Character buffers of fixed size. A helper that copies a string cuts it to
fit, ends it with a NUL and leaves the bytes behind the terminator as they were;
a reader stops at the first NUL and so never sees them. -/

namespace LibbpfBootstrap.Kernel

/-- A buffer `char buf[n]`. -/
abbrev CharBuf (n : ℕ) := Fin n → UInt8

namespace CharBuf

variable {n : ℕ}

/-- Copy `s` with its terminator over the first bytes of a buffer. -/
def putStr (s : List UInt8) (old : CharBuf n) : CharBuf n := fun i =>
  if h : i.val < (s.take (n - 1)).length then (s.take (n - 1))[i.val]
  else if i.val = (s.take (n - 1)).length then 0 else old i

/-- What a reader of the buffer takes for its string. -/
def cstr (b : CharBuf n) : List UInt8 := (List.ofFn b).takeWhile (· ≠ 0)

theorem ofFn_putStr (hn : 0 < n) (s : List UInt8) (old : CharBuf n) :
    List.ofFn (putStr s old) =
      s.take (n - 1) ++ 0 :: (List.ofFn old).drop ((s.take (n - 1)).length + 1) := by
  have hl : (s.take (n - 1)).length ≤ n - 1 := List.length_take_le _ _
  apply List.ext_getElem
  · simp only [List.length_ofFn, List.length_append, List.length_cons, List.length_drop]
    omega
  · intro i h₁ h₂
    rw [List.getElem_ofFn, List.getElem_append]
    simp only [putStr]
    split_ifs with ha hb
    · rfl
    · simp [hb]
    · rw [List.getElem_cons, dif_neg (by omega), List.getElem_drop, List.getElem_ofFn]
      congr 1
      apply Fin.ext
      simp only
      omega

/-- Only the copied string is read back, whatever the buffer held before. -/
theorem cstr_putStr (hn : 0 < n) (s : List UInt8) (old : CharBuf n) :
    cstr (putStr s old) = (s.take (n - 1)).takeWhile (· ≠ 0) := by
  unfold cstr
  rw [ofFn_putStr hn, List.takeWhile_append]
  split_ifs with h
  · rw [List.takeWhile_cons_of_neg (by simp), List.append_nil]
    exact ((List.takeWhile_prefix _).eq_of_length h).symm
  · rfl

/-- In a buffer of zeros a string is followed by zeros only. -/
theorem putStr_zeros (s : List UInt8) :
    putStr s (fun _ => 0 : CharBuf n) = fun i => (s.take (n - 1)).getD i.val 0 := by
  funext i
  unfold putStr
  split_ifs with h₁ h₂
  · exact (List.getD_eq_getElem _ _ h₁).symm
  · exact (List.getD_eq_default _ _ (Nat.le_of_eq h₂.symm)).symm
  · exact (List.getD_eq_default _ _ (Nat.le_of_not_lt h₁)).symm

/-! ### Terminated buffers -/

/-- The bytes behind the first NUL. -/
def behind (b : CharBuf n) : List UInt8 := (List.ofFn b).drop (b.cstr.length + 1)

theorem eq_takeWhile_append {l : List UInt8} (h : 0 ∈ l) :
    l = l.takeWhile (· ≠ 0) ++ 0 :: l.drop ((l.takeWhile (· ≠ 0)).length + 1) := by
  induction l with
  | nil => cases h
  | cons a l ih =>
    by_cases ha : a = 0
    · simp [ha]
    · have hl : 0 ∈ l := by simpa [Ne.symm ha] using h
      conv_lhs => rw [ih hl]
      simp [ha]

theorem ofFn_of_terminated {b : CharBuf n} (h : ∃ i, b i = 0) : List.ofFn b = b.cstr ++ 0 :: b.behind :=
  eq_takeWhile_append (List.mem_ofFn.mpr h)

theorem ne_zero_of_mem_cstr {b : CharBuf n} {c : UInt8} (h : c ∈ b.cstr) : c ≠ 0 := by
  simpa using List.mem_takeWhile_imp h

theorem putStr_terminated (hn : 0 < n) (s : List UInt8) (old : CharBuf n) : ∃ i, putStr s old i = 0 := by
  rw [← List.mem_ofFn, ofFn_putStr hn]
  simp

/-- A string put where it stands already changes nothing. -/
theorem putStr_cstr {b : CharBuf n} (h : ∃ i, b i = 0) : putStr b.cstr b = b := by
  have hn : 0 < n := h.elim fun i _ => i.pos
  have hlen := congrArg List.length (ofFn_of_terminated h)
  simp only [List.length_ofFn, List.length_append, List.length_cons] at hlen
  have htake : b.cstr.take (n - 1) = b.cstr := List.take_of_length_le (by omega)
  apply List.ofFn_injective
  rw [ofFn_putStr hn, htake]
  exact (ofFn_of_terminated h).symm

end CharBuf

end LibbpfBootstrap.Kernel
