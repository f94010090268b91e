import LibbpfBootstrap.Libc.Format

/-! Reading text that was printed line by line: the lines of a text and what kind of line
each is, hexadecimal numbers at the beginning of a line, signed ones at its end, and columns. -/

namespace LibbpfBootstrap.Libc

/-! ### Lines -/

/-- The byte that ends a line. -/
abbrev newline : UInt8 := 10

/-- The lines of a text. What stands behind the last newline is not one. -/
def lines (text : List UInt8) : List (List UInt8) := (text.splitOn newline).dropLast

/-- The text fits into a line. -/
def OneLine (s : List UInt8) : Prop := newline ∉ s

instance (s : List UInt8) : Decidable (OneLine s) := inferInstanceAs (Decidable (newline ∉ s))

theorem OneLine.append {s t : List UInt8} (hs : OneLine s) (ht : OneLine t) : OneLine (s ++ t) := fun h =>
  (List.mem_append.mp h).elim hs ht

theorem OneLine.elim {α : Type*} {o : Option α} {d : List UInt8} {f : α → List UInt8} (hd : OneLine d)
    (hf : ∀ a ∈ o, OneLine (f a)) : OneLine (o.elim d f) := by
  cases o with
  | none => exact hd
  | some a => exact hf a rfl

/-- Bytes that are all of a sort to which the newline does not belong. -/
theorem oneLine_of_all {p : UInt8 → Bool} (hp : p newline = false) {s : List UInt8} (h : ∀ c ∈ s, p c = true) :
    OneLine s := by
  intro hmem
  rw [h newline hmem] at hp
  cases hp

theorem oneLine_decimal (n : ℕ) : OneLine (decimal n) := oneLine_of_all (by decide) fun _ => isDigit_of_mem_decimal

theorem oneLine_signedDecimal (v : ℤ) : OneLine (signedDecimal v) :=
  oneLine_of_all (by decide) fun _ => isNumeral_of_mem_signedDecimal

theorem lines_line {l : List UInt8} (h : OneLine l) (rest : List UInt8) :
    lines (l ++ newline :: rest) = l :: lines rest := by
  have hl : ∀ c ∈ l, (c == newline) = false := fun c hc => beq_eq_false_iff_ne.mpr fun he => h (he ▸ hc)
  rw [lines, List.splitOn, List.splitOnP_append_cons_of_forall_mem hl newline (beq_self_eq_true newline),
    List.dropLast_cons_of_ne_nil (List.splitOnP_ne_nil _ _)]
  rfl

section Reads

variable {K : Type*} {kind : List UInt8 → K} {s t : List UInt8} {ks ls : List K}

/-- The text is made of whole lines, of these kinds. -/
def Reads (kind : List UInt8 → K) (text : List UInt8) (ks : List K) : Prop :=
  ∀ rest, (lines (text ++ rest)).map kind = ks ++ (lines rest).map kind

theorem reads_nil : Reads kind [] [] := fun _ => rfl

theorem Reads.append (hs : Reads kind s ks) (ht : Reads kind t ls) : Reads kind (s ++ t) (ks ++ ls) := by
  intro rest
  rw [List.append_assoc, hs, ht, List.append_assoc]

theorem reads_line {l : List UInt8} (h : OneLine l) : Reads kind (l ++ [newline]) [kind l] := by
  intro rest
  rw [List.append_assoc, List.singleton_append, lines_line h]
  rfl

theorem Reads.flatMap {α : Type*} {as : List α} {text : α → List UInt8} {kinds : α → List K}
    (h : ∀ a ∈ as, Reads kind (text a) (kinds a)) : Reads kind (as.flatMap text) (as.flatMap kinds) := by
  induction as with
  | nil => exact reads_nil
  | cons a as ih =>
    rw [List.flatMap_cons, List.flatMap_cons]
    exact (h a List.mem_cons_self).append (ih fun b hb => h b (List.mem_cons_of_mem a hb))

theorem Reads.map_lines (h : Reads kind s ks) : (lines s).map kind = ks := by
  have hs := h []
  rwa [List.append_nil, show (lines []).map kind = [] from rfl, List.append_nil] at hs

end Reads

/-! ### Hexadecimal numbers -/

def isHexDigit (c : UInt8) : Bool := isDigit c || (97 ≤ c && c ≤ 102)

def hexDigitValue (c : UInt8) : ℕ := if isDigit c then c.toNat - 48 else c.toNat - 87

def hexValue (s : List UInt8) : ℕ := s.foldl (fun v c => 16 * v + hexDigitValue c) 0

/-- The digit of a number below sixteen. -/
def hexDigit (d : ℕ) : UInt8 := UInt8.ofNat d.digitChar.toNat

/-- The field width of `%016lx`. -/
def padZero (width : ℕ) (s : List UInt8) : List UInt8 := List.replicate (width - s.length) 48 ++ s

/-- What holds of the digits, and is kept when one is put behind a number, holds of every number. -/
theorem hexadecimal_induction {P : ℕ → List UInt8 → Prop} (one : ∀ d < 16, P d [hexDigit d])
    (more : ∀ n s, ∀ d < 16, P n s → P (16 * n + d) (s ++ [hexDigit d])) (n : ℕ) : P n (hexadecimal n) := by
  induction n using Nat.strong_induction_on with
  | _ n ih =>
    by_cases hn : n < 16
    · rw [hexadecimal, Nat.toDigits_of_lt_base hn]
      exact one n hn
    · have hrest := more (n / 16) _ (n % 16) (Nat.mod_lt n (by decide)) (ih (n / 16) (by omega))
      rw [Nat.div_add_mod] at hrest
      rw [hexadecimal, Nat.toDigits_of_base_le (by decide) (not_lt.mp hn), List.map_append]
      exact hrest

theorem hexDigit_spec : ∀ d < 16, isHexDigit (hexDigit d) = true ∧ hexDigitValue (hexDigit d) = d := by decide

theorem isHexDigit_of_mem_hexadecimal (n : ℕ) : ∀ c ∈ hexadecimal n, isHexDigit c = true := by
  induction n using hexadecimal_induction with
  | one d hd =>
    intro c hc
    rw [List.mem_singleton.mp hc]
    exact (hexDigit_spec d hd).1
  | more n s d hd ih =>
    intro c hc
    rcases List.mem_append.mp hc with hc | hc
    · exact ih c hc
    · rw [List.mem_singleton.mp hc]
      exact (hexDigit_spec d hd).1

theorem oneLine_hexadecimal (n : ℕ) : OneLine (hexadecimal n) :=
  oneLine_of_all (by decide) (isHexDigit_of_mem_hexadecimal n)

theorem hexValue_hexadecimal (n : ℕ) : hexValue (hexadecimal n) = n := by
  induction n using hexadecimal_induction with
  | one d hd => exact (Nat.zero_add _).trans (hexDigit_spec d hd).2
  | more n s d hd ih =>
    rw [hexValue, List.foldl_append]
    show 16 * hexValue s + hexDigitValue (hexDigit d) = 16 * n + d
    rw [ih, (hexDigit_spec d hd).2]

theorem hexValue_padZero (width : ℕ) (s : List UInt8) : hexValue (padZero width s) = hexValue s := by
  have hzero (k : ℕ) : (List.replicate k 48).foldl (fun v c => 16 * v + hexDigitValue c) 0 = 0 := by
    induction k with
    | zero => rfl
    | succ k ih => exact ih
  rw [hexValue, padZero, List.foldl_append, hzero, hexValue]

theorem OneLine.padZero {s : List UInt8} (h : OneLine s) (width : ℕ) : OneLine (padZero width s) :=
  OneLine.append (fun hmem => absurd (List.eq_of_mem_replicate hmem) (by decide)) h

theorem isHexDigit_of_mem_padZero (width : ℕ) {s : List UInt8} (h : ∀ c ∈ s, isHexDigit c = true) :
    ∀ c ∈ padZero width s, isHexDigit c = true := by
  intro c hc
  rcases List.mem_append.mp hc with hc | hc
  · rw [List.eq_of_mem_replicate hc]
    decide
  · exact h c hc

/-- A digit, or the letter of the mark `0x`. -/
def isHexByte (c : UInt8) : Bool := isHexDigit c || c == 120

/-- The number at the beginning of a line, with or without the mark. -/
def readHex (s : List UInt8) : ℕ := hexValue ((s.takeWhile isHexByte).filter isHexDigit)

theorem readHex_append {s : List UInt8} (hs : ∀ c ∈ s, isHexByte c = true) {c : UInt8} (hc : isHexByte c = false)
    (t : List UInt8) : readHex (s ++ c :: t) = hexValue (s.filter isHexDigit) := by
  rw [readHex, List.takeWhile_append_of_pos hs, List.takeWhile_cons_of_neg (by simp [hc]), List.append_nil]

/-! ### Signed numbers -/

def readSigned (s : List UInt8) : ℤ :=
  if s.head? = some 45 then -(digitsValue s.tail : ℤ) else digitsValue s

theorem readSigned_signedDecimal (v : ℤ) : readSigned (signedDecimal v) = v := by
  cases v with
  | ofNat n =>
    have hhead : (decimal n).head? ≠ some 45 := fun h => minus_notMem_decimal n (List.mem_of_mem_head? h)
    rw [signedDecimal, readSigned, if_neg hhead, digitsValue_decimal]
    rfl
  | negSucc n =>
    have hhead : (signedDecimal (.negSucc n)).head? = some 45 := rfl
    rw [readSigned, if_pos hhead]
    show -(digitsValue (decimal (n + 1)) : ℤ) = Int.negSucc n
    rw [digitsValue_decimal]
    rfl

/-- The number at the end of a text and what stands before it; the text is given from its end. -/
def splitSigned (r : List UInt8) : ℤ × List UInt8 :=
  (readSigned (r.takeWhile isNumeral).reverse, r.dropWhile isNumeral)

theorem splitSigned_reverse (v : ℤ) {r : List UInt8} (hr : Stops r) :
    splitSigned ((signedDecimal v).reverse ++ r) = (v, r) := by
  have hnum : ∀ c ∈ (signedDecimal v).reverse, isNumeral c = true := fun c hc =>
    isNumeral_of_mem_signedDecimal (List.mem_reverse.mp hc)
  obtain ⟨c, hc, hstop⟩ := hr
  cases r with
  | nil => cases hc
  | cons d r =>
    obtain rfl : d = c := Option.some.inj hc
    have hneg : ¬ isNumeral d = true := by simp [hstop]
    rw [splitSigned, List.takeWhile_append_of_pos hnum, List.dropWhile_append_of_pos hnum,
      List.takeWhile_cons_of_neg hneg, List.dropWhile_cons_of_neg hneg, List.append_nil, List.reverse_reverse,
      readSigned_signedDecimal]

/-! ### Columns -/

theorem OneLine.padRight {s : List UInt8} (h : OneLine s) (width : ℕ) : OneLine (padRight width s) :=
  h.append fun hmem => absurd (List.eq_of_mem_replicate hmem) (by decide)

/-- A column of a fixed width, and what stands behind the byte that ends it. -/
def column (width : ℕ) (s : List UInt8) : List UInt8 × List UInt8 := (s.take width, s.drop (width + 1))

end LibbpfBootstrap.Libc
