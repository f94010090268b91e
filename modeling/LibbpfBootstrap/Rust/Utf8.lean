import Mathlib.Data.UInt
import Mathlib.Tactic.Common

/-! The conversion of bytes to text by `str::from_utf8` and `String::from_utf8_lossy`.
Text is its UTF-8 bytes. The bytes are read one by one, with the ranges of those
that are missing of the current character. The first conversion refuses bytes that
are not well formed; the second replaces the longest beginnings of a character that
are not completed by U+FFFD, one for each. -/

namespace LibbpfBootstrap.Rust

/-- U+FFFD. -/
def replacement : List UInt8 := [0xEF, 0xBF, 0xBD]

/-- The ranges of the bytes that complete a character after its first byte, unless no
character starts with it. -/
def tails (b : UInt8) : Option (List (UInt8 × UInt8)) :=
  if b < 0x80 then some []
  else if 0xC2 ≤ b ∧ b ≤ 0xDF then some [(0x80, 0xBF)]
  else if b = 0xE0 then some [(0xA0, 0xBF), (0x80, 0xBF)]
  else if b = 0xED then some [(0x80, 0x9F), (0x80, 0xBF)]
  else if 0xE1 ≤ b ∧ b ≤ 0xEF then some [(0x80, 0xBF), (0x80, 0xBF)]
  else if b = 0xF0 then some [(0x90, 0xBF), (0x80, 0xBF), (0x80, 0xBF)]
  else if 0xF1 ≤ b ∧ b ≤ 0xF3 then some [(0x80, 0xBF), (0x80, 0xBF), (0x80, 0xBF)]
  else if b = 0xF4 then some [(0x80, 0x8F), (0x80, 0xBF), (0x80, 0xBF)]
  else none

/-! ### Well-formed bytes -/

/-- The bytes complete the current character, and characters follow it. -/
def wellFormed : List (UInt8 × UInt8) → List UInt8 → Bool
  | missing, [] => missing.isEmpty
  | [], b :: bs =>
    match tails b with
    | none => false
    | some missing => wellFormed missing bs
  | (lo, hi) :: more, b :: bs => decide (lo ≤ b ∧ b ≤ hi) && wellFormed more bs

def fromUtf8 (bs : List UInt8) : Option (List UInt8) := if wellFormed [] bs then some bs else none

/-- No byte of ASCII completes a character. -/
def Open (missing : List (UInt8 × UInt8)) : Prop := ∀ r ∈ missing, 0x80 ≤ r.1

theorem tails_of_ascii {b : UInt8} (h : b < 0x80) : tails b = some [] := if_pos h

theorem open_tails {b : UInt8} {missing : List (UInt8 × UInt8)} (h : tails b = some missing) : Open missing := by
  unfold tails at h
  split_ifs at h <;> obtain rfl := Option.some.inj h <;> simp [Open]

theorem wellFormed_cons_ascii {b : UInt8} (h : b < 0x80) (bs : List UInt8) :
    wellFormed [] (b :: bs) = wellFormed [] bs := by
  rw [wellFormed, tails_of_ascii h]

/-- A byte of ASCII cuts the bytes in two that are well formed on their own. -/
theorem wellFormed_append_ascii {missing : List (UInt8 × UInt8)} (ho : Open missing) (as : List UInt8) {b : UInt8}
    (hb : b < 0x80) (bs : List UInt8) :
    wellFormed missing (as ++ b :: bs) = (wellFormed missing as && wellFormed [] bs) := by
  induction as generalizing missing with
  | nil =>
    cases missing with
    | nil => exact wellFormed_cons_ascii hb bs
    | cons r more =>
      -- the byte is below every range that may follow, so the character stays cut
      have hlo : ¬ r.1 ≤ b := UInt8.not_le.mpr (UInt8.lt_of_lt_of_le hb (ho r (by simp)))
      simp [wellFormed, hlo]
  | cons a as ih =>
    cases missing with
    | nil =>
      rw [List.cons_append, wellFormed, wellFormed]
      cases ht : tails a with
      | none => rfl
      | some missing => exact ih (open_tails ht)
    | cons r more =>
      rw [List.cons_append, wellFormed, wellFormed, ih fun r' hr => ho r' (by simp [hr]), Bool.and_assoc]

theorem wellFormed_of_ascii {bs : List UInt8} (h : ∀ b ∈ bs, b < 0x80) : wellFormed [] bs = true := by
  induction bs with
  | nil => rfl
  | cons b bs ih => rw [wellFormed_cons_ascii (h b (by simp)), ih fun c hc => h c (by simp [hc])]

/-! ### Replacement -/

/-- A byte between two characters; `next` reads on, with what is pending and what is
missing of the character. -/
def first (next : List UInt8 → List (UInt8 × UInt8) → List UInt8) (b : UInt8) : List UInt8 :=
  match tails b with
  | none => replacement ++ next [] []
  | some [] => b :: next [] []
  | some missing => next [b] missing

def lossy : List UInt8 → List (UInt8 × UInt8) → List UInt8 → List UInt8
  | pending, _, [] => if pending.isEmpty then [] else replacement
  | pending, missing, b :: bs =>
    match missing with
    | [] => first (fun p m => lossy p m bs) b
    | (lo, hi) :: more =>
      if lo ≤ b ∧ b ≤ hi then
        if more.isEmpty then pending ++ b :: lossy [] [] bs else lossy (pending ++ [b]) more bs
      else replacement ++ first (fun p m => lossy p m bs) b

def fromUtf8Lossy (bs : List UInt8) : List UInt8 := lossy [] [] bs

/-- Well-formed bytes are kept; a character is pending only while something of it is
missing. -/
theorem lossy_of_wellFormed {pending : List UInt8} {missing : List (UInt8 × UInt8)} {bs : List UInt8}
    (hp : missing = [] → pending = []) (h : wellFormed missing bs = true) :
    lossy pending missing bs = pending ++ bs := by
  induction bs generalizing pending missing with
  | nil =>
    have hm : missing = [] := by simpa [wellFormed] using h
    simp [lossy, hp hm]
  | cons b bs ih =>
    cases missing with
    | nil =>
      rw [wellFormed] at h
      rw [lossy, first, hp rfl]
      cases ht : tails b with
      | none => simp [ht] at h
      | some missing =>
        rw [ht] at h
        cases missing with
        | nil => exact congrArg (b :: ·) (ih (fun _ => rfl) h)
        | cons r more => exact ih (by simp) h
    | cons r more =>
      simp only [wellFormed, Bool.and_eq_true, decide_eq_true_eq] at h
      rw [lossy, if_pos h.1]
      cases more with
      | nil => exact congrArg (pending ++ b :: ·) (ih (fun _ => rfl) h.2)
      | cons r' more =>
        have hrest : lossy (pending ++ [b]) (r' :: more) bs = pending ++ [b] ++ bs := ih (by simp) h.2
        rw [List.isEmpty_cons, if_neg Bool.false_ne_true, hrest, List.append_assoc, List.singleton_append]

/-- ASCII text is itself, the NUL included. -/
theorem fromUtf8Lossy_of_ascii {bs : List UInt8} (h : ∀ b ∈ bs, b < 0x80) : fromUtf8Lossy bs = bs :=
  lossy_of_wellFormed (fun _ => rfl) (wellFormed_of_ascii h)

-- a character cut short is replaced, and the byte that cuts it is kept
example : fromUtf8Lossy [0xC3, 0xA9, 0xE2, 0x82, 0x41] = [0xC3, 0xA9, 0xEF, 0xBF, 0xBD, 0x41] := by decide

end LibbpfBootstrap.Rust
