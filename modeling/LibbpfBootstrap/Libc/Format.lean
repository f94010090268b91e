import LibbpfBootstrap.Libc.Text

/-! Formatted lines and what can be read from them. A format has conversions of numbers
and at most one of a string, which may hold any bytes: in front of the string the
numbers are found from the beginning of the line, and behind it from the end. For this
no literal between two conversions may begin, or behind the string end, with a byte that
occurs in numbers. -/

namespace LibbpfBootstrap.Libc

/-! ### Numbers -/

def isNumeral (c : UInt8) : Bool := isDigit c || c == 45

theorem isNumeral_of_mem_signedDecimal {v : ℤ} {c : UInt8} (h : c ∈ signedDecimal v) : isNumeral c = true := by
  cases v with
  | ofNat n => exact Bool.or_eq_true_iff.mpr (Or.inl (isDigit_of_mem_decimal h))
  | negSucc n =>
    rcases List.mem_append.mp h with h | h
    · rw [List.mem_singleton.mp h]
      decide
    · exact Bool.or_eq_true_iff.mpr (Or.inl (isDigit_of_mem_decimal h))

theorem decimal_injective : Function.Injective decimal := fun m n h => by
  rw [← digitsValue_decimal m, h, digitsValue_decimal]

theorem minus_notMem_decimal (n : ℕ) : 45 ∉ decimal n := fun h => by
  have hdigit : isDigit 45 = false := by decide
  rw [isDigit_of_mem_decimal h] at hdigit
  cases hdigit

theorem signedDecimal_injective : Function.Injective signedDecimal := by
  intro u v h
  have hminus (n m : ℕ) : decimal n ≠ ascii "-" ++ decimal m := fun he =>
    minus_notMem_decimal n (he ▸ List.mem_append_left _ (List.mem_singleton_self 45))
  cases u with
  | ofNat m =>
    cases v with
    | ofNat n => exact congrArg _ (decimal_injective h)
    | negSucc n => exact absurd h (hminus m (n + 1))
  | negSucc m =>
    cases v with
    | ofNat n => exact absurd h.symm (hminus n (m + 1))
    | negSucc n => exact congrArg _ (Nat.succ_injective (decimal_injective (List.append_cancel_left h)))

/-! ### Literals and numbers in turn -/

/-- Nothing here belongs to a number that stands before it. -/
def Stops (s : List UInt8) : Prop := ∃ c ∈ s.head?, isNumeral c = false

instance (s : List UInt8) : Decidable (Stops s) := inferInstanceAs (Decidable (∃ c ∈ s.head?, isNumeral c = false))

theorem Stops.append {s : List UInt8} (h : Stops s) (t : List UInt8) : Stops (s ++ t) := by
  obtain ⟨c, hc, hn⟩ := h
  cases s with
  | nil => cases hc
  | cons d s => exact ⟨c, hc, hn⟩

/-- Where a number ends is seen from what follows it. -/
theorem append_inj_of_stops {n n' r r' : List UInt8} (hn : ∀ c ∈ n, isNumeral c = true)
    (hn' : ∀ c ∈ n', isNumeral c = true) (hr : Stops r) (hr' : Stops r') (h : n ++ r = n' ++ r') : n = n' ∧ r = r' := by
  have htake {n r : List UInt8} (hn : ∀ c ∈ n, isNumeral c = true) (hr : Stops r) :
      (n ++ r).takeWhile isNumeral = n := by
    obtain ⟨c, hc, hstop⟩ := hr
    cases r with
    | nil => cases hc
    | cons d r =>
      obtain rfl : d = c := Option.some.inj hc
      rw [List.takeWhile_append_of_pos hn, List.takeWhile_cons_of_neg (by simp [hstop]), List.append_nil]
  have he : n = n' := by rw [← htake hn hr, h, htake hn' hr']
  exact ⟨he, List.append_cancel_left (he ▸ h)⟩

/-- Numbers, each behind a literal. -/
def spell (num : ℤ → List UInt8) (lits : List (List UInt8)) (vs : List ℤ) : List UInt8 :=
  (List.zipWith (fun lit v => lit ++ num v) lits vs).flatten

/-- The first literal ends a number before it, or what comes behind the numbers does. -/
theorem stops_spell {num : ℤ → List UInt8} {lits : List (List UInt8)} {o : List UInt8} {vs : List ℤ}
    (hv : vs.length = lits.length) (hstop : ∀ lit ∈ lits ++ [o], Stops lit) (t : List UInt8) :
    Stops (spell num lits vs ++ (o ++ t)) := by
  cases lits with
  | nil => exact (hstop o (List.mem_singleton_self o)).append t
  | cons lit lits =>
    obtain ⟨v, vs, rfl⟩ := List.exists_cons_of_length_eq_add_one hv
    simp only [spell, List.zipWith_cons_cons, List.flatten_cons, List.append_assoc]
    exact (hstop lit List.mem_cons_self).append _

/-- The numbers can be read, and so can what comes behind them. -/
theorem spell_append_inj {num : ℤ → List UInt8} (hinj : Function.Injective num)
    (hnum : ∀ v, ∀ c ∈ num v, isNumeral c = true) {lits : List (List UInt8)} {o : List UInt8}
    (hstop : ∀ lit ∈ (lits ++ [o]).tail, Stops lit) {vs vs' : List ℤ} (hv : vs.length = lits.length)
    (hv' : vs'.length = lits.length) {t t' : List UInt8}
    (h : spell num lits vs ++ (o ++ t) = spell num lits vs' ++ (o ++ t')) : vs = vs' ∧ t = t' := by
  induction lits generalizing vs vs' with
  | nil =>
    obtain rfl := List.eq_nil_of_length_eq_zero hv
    obtain rfl := List.eq_nil_of_length_eq_zero hv'
    exact ⟨rfl, List.append_cancel_left h⟩
  | cons lit lits ih =>
    obtain ⟨v, vs, rfl⟩ := List.exists_cons_of_length_eq_add_one hv
    obtain ⟨v', vs', rfl⟩ := List.exists_cons_of_length_eq_add_one hv'
    have hv := Nat.succ_injective hv
    have hv' := Nat.succ_injective hv'
    simp only [spell, List.zipWith_cons_cons, List.flatten_cons, List.append_assoc] at h
    obtain ⟨hhead, hrest⟩ := append_inj_of_stops (hnum v) (hnum v') (stops_spell hv hstop t) (stops_spell hv' hstop t')
      (List.append_cancel_left h)
    obtain ⟨rfl, ht⟩ := ih (fun l hl => hstop l (List.mem_of_mem_tail hl)) hv hv' hrest
    rw [hinj hhead]
    exact ⟨rfl, ht⟩

/-! ### Lines -/

/-- A format: literals that stand before numbers; what stands before and behind the string;
and literals that stand behind numbers. -/
structure Format where
  front : List (List UInt8)
  opening : List UInt8
  closing : List UInt8
  back : List (List UInt8)

/-- The arguments of a format. -/
@[ext] structure Format.Args (f : Format) where
  front : List ℤ
  string : List UInt8
  back : List ℤ
  front_length : front.length = f.front.length
  back_length : back.length = f.back.length

def Format.line (f : Format) (a : f.Args) : List UInt8 :=
  spell signedDecimal f.front a.front ++ f.opening ++ a.string ++ f.closing ++
    (List.zipWith (fun lit v => signedDecimal v ++ lit) f.back a.back).flatten

/-- No literal that has to end a number looks like a part of it. -/
def Format.Readable (f : Format) : Prop :=
  (∀ lit ∈ (f.front ++ [f.opening]).tail, Stops lit) ∧ ∀ lit ∈ (f.closing :: f.back).dropLast, Stops lit.reverse

instance (f : Format) : Decidable f.Readable := inferInstanceAs (Decidable (_ ∧ _))

/-- The last part of a line, read from its end. -/
theorem reverse_back {lits : List (List UInt8)} {vs : List ℤ} (hv : vs.length = lits.length) :
    (List.zipWith (fun lit v => signedDecimal v ++ lit) lits vs).flatten.reverse =
      spell (fun v => (signedDecimal v).reverse) (lits.map List.reverse).reverse vs.reverse := by
  rw [List.reverse_flatten, spell, ← List.reverse_zipWith (by rw [List.length_map, hv]), List.map_zipWith, List.zipWith_map_left]
  simp only [List.reverse_append]

/-- The arguments can be read from the line. -/
theorem Format.line_inj {f : Format} (hf : f.Readable) {a b : f.Args} (h : f.line a = f.line b) : a = b := by
  obtain ⟨hfront, hback⟩ := hf
  have hstop : ∀ lit ∈ ((f.back.map List.reverse).reverse ++ [f.closing.reverse]).tail, Stops lit := by
    have hl : ((f.back.map List.reverse).reverse ++ [f.closing.reverse]).tail =
        ((f.closing :: f.back).dropLast.map List.reverse).reverse := by
      rw [List.map_dropLast, List.map_cons, ← List.tail_reverse, List.reverse_cons]
    intro lit hlit
    rw [hl, List.mem_reverse] at hlit
    obtain ⟨l, hl, rfl⟩ := List.mem_map.mp hlit
    exact hback l hl
  have hmirror {v : ℤ} : ∀ c ∈ (signedDecimal v).reverse, isNumeral c = true := fun c hc =>
    isNumeral_of_mem_signedDecimal (List.mem_reverse.mp hc)
  simp only [Format.line, List.append_assoc] at h
  obtain ⟨hnums, hrest⟩ := spell_append_inj signedDecimal_injective (fun _ _ => isNumeral_of_mem_signedDecimal) hfront
    a.front_length b.front_length h
  -- what is left is read from its end
  have hrest := congrArg List.reverse hrest
  simp only [List.reverse_append, reverse_back a.back_length, reverse_back b.back_length, List.append_assoc] at hrest
  have hlen {vs : List ℤ} (hv : vs.length = f.back.length) : vs.reverse.length = (f.back.map List.reverse).reverse.length := by
    rw [List.length_reverse, List.length_reverse, List.length_map, hv]
  obtain ⟨hnums', hstring⟩ := spell_append_inj (fun _ _ he => signedDecimal_injective (List.reverse_inj.mp he))
    (fun _ => hmirror) hstop (hlen a.back_length) (hlen b.back_length) hrest
  exact Format.Args.ext hnums (List.reverse_inj.mp hstring) (List.reverse_inj.mp hnums')

end LibbpfBootstrap.Libc
