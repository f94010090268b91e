import Mathlib.Data.Int.Order.Basic
import Mathlib.Tactic.Common
import Mathlib.Data.List.TakeWhile
import Mathlib.Data.Nat.Digits.Defs

/-! The pieces of the C library that read and write text. Text is a list of
bytes. The conversions of `printf` are the decimal numerals and the padding to a
field width; `strtol` reads a numeral in base ten and clamps it to a `long` of
64 bits. -/

namespace LibbpfBootstrap.Libc

/-- The bytes of a string literal. -/
def ascii (s : String) : List UInt8 := s.toList.map fun c => UInt8.ofNat c.toNat

/-- The conversion `%u`. -/
def decimal (n : ℕ) : List UInt8 := (Nat.toDigits 10 n).map fun c => UInt8.ofNat c.toNat

/-- The conversion `%d`. -/
def signedDecimal : ℤ → List UInt8
  | .ofNat n => decimal n
  | .negSucc n => ascii "-" ++ decimal (n + 1)

/-- The conversion `%lx`. -/
def hexadecimal (n : ℕ) : List UInt8 := (Nat.toDigits 16 n).map fun c => UInt8.ofNat c.toNat

/-- The field width of `%-8s`. -/
def padRight (width : ℕ) (s : List UInt8) : List UInt8 :=
  s ++ List.replicate (width - s.length) 32

/-- An address of four bytes in dotted form. -/
def dotted (bs : List UInt8) : List UInt8 := (ascii ".").intercalate (bs.map fun b => decimal b.toNat)

theorem length_decimal_le {n e : ℕ} (he : 0 < e) (h : n < 10 ^ e) : (decimal n).length ≤ e := by
  rw [decimal, List.length_map]
  exact Nat.toDigits_length 10 n e he h

theorem length_decimal_byte (b : UInt8) : (decimal b.toNat).length ≤ 3 := by
  have := b.toNat_lt
  exact length_decimal_le (by decide) (by omega)

theorem dotted_four (a b c d : UInt8) :
    dotted [a, b, c, d] = decimal a.toNat ++ ascii "." ++ decimal b.toNat ++ ascii "." ++ decimal c.toNat ++
      ascii "." ++ decimal d.toNat := by
  simp [dotted, List.intercalate]

/-- A buffer of sixteen bytes is long enough for every address. -/
theorem length_dotted_four (a b c d : UInt8) : (dotted [a, b, c, d]).length ≤ 15 := by
  have hdot : (ascii ".").length = 1 := rfl
  have ha := length_decimal_byte a
  have hb := length_decimal_byte b
  have hc := length_decimal_byte c
  have hd := length_decimal_byte d
  simp only [dotted_four, List.length_append, hdot]
  omega

/-! ### Reading a number -/

def isSpace (c : UInt8) : Bool := c == 32 || (9 ≤ c && c ≤ 13)

def isDigit (c : UInt8) : Bool := 48 ≤ c && c ≤ 57

def longMax : ℤ := 9223372036854775807

def longMin : ℤ := -9223372036854775808

/-- The sign in front of the digits, and the rest. -/
def takeSign : List UInt8 → Bool × List UInt8
  | [] => (false, [])
  | c :: s => if c = 45 then (true, s) else if c = 43 then (false, s) else (false, c :: s)

def digitsValue (s : List UInt8) : ℕ := s.foldl (fun v c => 10 * v + (c.toNat - 48)) 0

/-- A value out of range becomes the nearest bound and sets `errno`. -/
def clampLong (v : ℤ) : ℤ × Bool :=
  if longMax < v then (longMax, true) else if v < longMin then (longMin, true) else (v, false)

/-- `strtol(arg, NULL, 10)`: the value, and whether `errno` is set. -/
def strtol (arg : List UInt8) : ℤ × Bool :=
  let s := takeSign (arg.dropWhile isSpace)
  let n := digitsValue (s.2.takeWhile isDigit)
  clampLong (if s.1 then -(n : ℤ) else n)

theorem clampLong_le (v : ℤ) : (clampLong v).1 ≤ longMax := by
  unfold clampLong
  split_ifs with h1 h2
  · exact le_rfl
  · show longMin ≤ longMax
    decide
  · exact not_lt.mp h1

theorem clampLong_of_mem {v : ℤ} (h1 : longMin ≤ v) (h2 : v ≤ longMax) : clampLong v = (v, false) := by
  rw [clampLong, if_neg (not_lt.mpr h2), if_neg (not_lt.mpr h1)]

theorem strtol_le (arg : List UInt8) : (strtol arg).1 ≤ longMax := clampLong_le _

theorem digitsValue_decimal (n : ℕ) : digitsValue (decimal n) = n := by
  have hfold : ∀ (l : List Char) (v : ℕ), (∀ c ∈ l, c.isDigit) →
      (l.map fun c => UInt8.ofNat c.toNat).foldl (fun v c => 10 * v + (c.toNat - 48)) v =
        Nat.ofDigitChars 10 l v := by
    intro l
    induction l with
    | nil => intro v _; rfl
    | cons c l ih =>
      intro v hl
      have hc : c.toNat ≤ 57 := by
        have := hl c (by simp)
        simp only [Char.isDigit, Bool.and_eq_true, decide_eq_true_eq] at this
        exact this.2
      rw [List.map_cons, List.foldl_cons, ih _ (fun d hd => hl d (by simp [hd])), Nat.ofDigitChars_cons,
        UInt8.toNat_ofNat_of_lt' (by show c.toNat < 256; omega)]
      rfl
  rw [digitsValue, decimal, hfold _ _ (fun c hc => Nat.isDigit_of_mem_toDigits (by decide) (by decide) hc),
    Nat.ofDigitChars_ten_toDigits]

theorem isDigit_of_mem_decimal {n : ℕ} {c : UInt8} (h : c ∈ decimal n) : isDigit c = true := by
  obtain ⟨d, hd, rfl⟩ := List.mem_map.mp h
  have hd := Nat.isDigit_of_mem_toDigits (by decide) (by decide) hd
  simp only [Char.isDigit, Bool.and_eq_true, decide_eq_true_eq] at hd
  have h1 : 48 ≤ d.toNat := hd.1
  have h2 : d.toNat ≤ 57 := hd.2
  have he : (UInt8.ofNat d.toNat).toNat = d.toNat := UInt8.toNat_ofNat_of_lt' (by show d.toNat < 256; omega)
  simp only [isDigit, Bool.and_eq_true, decide_eq_true_eq, UInt8.le_iff_toNat_le, he]
  exact ⟨h1, h2⟩

/-- A digit is neither a blank nor a sign. -/
theorem not_isSpace_of_isDigit {c : UInt8} (h : isDigit c = true) : isSpace c = false ∧ c ≠ 45 ∧ c ≠ 43 := by
  have hc : 48 ≤ c.toNat := by
    simp only [isDigit, Bool.and_eq_true, decide_eq_true_eq, UInt8.le_iff_toNat_le] at h
    exact h.1
  refine ⟨?_, ?_, ?_⟩
  · simp only [isSpace, Bool.or_eq_false_iff, beq_eq_false_iff_ne, Bool.and_eq_false_iff, decide_eq_false_iff_not,
      UInt8.le_iff_toNat_le]
    refine ⟨?_, Or.inr ?_⟩
    · rintro rfl
      exact absurd hc (by decide)
    · show ¬ c.toNat ≤ 13
      omega
  · rintro rfl
    exact absurd hc (by decide)
  · rintro rfl
    exact absurd hc (by decide)

/-- `strtol` reads digits, with or without a plus in front of them. -/
theorem strtol_digits {s : List UInt8} (hne : s ≠ []) (hs : s.all isDigit = true) :
    strtol s = clampLong (digitsValue s) ∧ strtol (43 :: s) = clampLong (digitsValue s) := by
  have htake : s.takeWhile isDigit = s := List.takeWhile_eq_self_iff.mpr (List.all_eq_true.mp hs)
  constructor
  · obtain ⟨c, t, rfl⟩ := List.exists_cons_of_ne_nil hne
    obtain ⟨hspace, hminus, hplus⟩ := not_isSpace_of_isDigit (List.all_eq_true.mp hs c List.mem_cons_self)
    simp only [strtol, List.dropWhile_cons_of_neg (by simp [hspace] : ¬ isSpace c = true), takeSign, if_neg hminus,
      if_neg hplus, htake, Bool.false_eq_true, if_false]
  · have hplus : ¬ isSpace 43 = true := by decide
    have hsign : takeSign (43 :: s) = (false, s) := by rw [takeSign, if_neg (by decide), if_pos rfl]
    simp only [strtol, List.dropWhile_cons_of_neg hplus, hsign, htake, Bool.false_eq_true, if_false]

/-- `strtol` reads back every numeral that fits a `long`. -/
theorem strtol_decimal (n : ℕ) (h : (n : ℤ) ≤ longMax) : strtol (decimal n) = ((n : ℤ), false) := by
  have hne : decimal n ≠ [] := by simp [decimal, Nat.toDigits_ne_nil]
  have hall : (decimal n).all isDigit = true := List.all_eq_true.mpr fun c hc => isDigit_of_mem_decimal hc
  have hmin : longMin ≤ (n : ℤ) := le_trans (by decide : longMin ≤ 0) (Int.natCast_nonneg n)
  rw [(strtol_digits hne hall).1, digitsValue_decimal, clampLong_of_mem hmin h]

end LibbpfBootstrap.Libc
