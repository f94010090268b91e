import LibbpfBootstrap.Kernel.Helpers
import Mathlib.Logic.Equiv.Basic
import Mathlib.Data.Fin.Tuple.Basic

/-! Data as bytes in memory. A layout says how many bytes a value takes, how it is
written to them and how it is read back, and carries the proof that nothing is lost
in either direction. Layouts of words and characters are put together as the members
of a structure are: one behind the other, without gaps. -/

namespace LibbpfBootstrap.Kernel

/-- A value as `size` bytes; every string of that many bytes is one value. -/
structure Layout (T : Type*) where
  size : ℕ
  put : T → List UInt8
  get : List UInt8 → T
  length_put : ∀ t, (put t).length = size
  get_put : ∀ t, get (put t) = t
  put_get : ∀ bs, bs.length = size → put (get bs) = bs

namespace Layout

variable {A B : Type*}

def byte : Layout UInt8 where
  size := 1
  put b := [b]
  get bs := bs.headD 0
  length_put _ := rfl
  get_put _ := rfl
  put_get bs h := by
    obtain ⟨b, rfl⟩ := List.length_eq_one_iff.mp h
    rfl

theorem leNat_lt (bs : List UInt8) : leNat bs < 256 ^ bs.length := by
  induction bs with
  | nil => simp [leNat]
  | cons b bs ih =>
    have hb := b.toNat_lt
    rw [leNat, List.length_cons, pow_succ]
    omega

theorem leBytes_leNat (bs : List UInt8) : leBytes bs.length (leNat bs) = bs := by
  induction bs with
  | nil => rfl
  | cons b bs ih =>
    have hb := b.toNat_lt
    have hmod : (b.toNat + 256 * leNat bs) % 256 = b.toNat := by omega
    have hdiv : (b.toNat + 256 * leNat bs) / 256 = leNat bs := by omega
    rw [List.length_cons, leNat, leBytes, hmod, hdiv, ih, UInt8.ofNat_toNat]

theorem two_pow_eight_mul (n : ℕ) : 2 ^ (8 * n) = 256 ^ n := by
  rw [pow_mul, (by decide : (2 : ℕ) ^ 8 = 256)]

/-- A little-endian word of `n` bytes. -/
def word (n : ℕ) : Layout (BitVec (8 * n)) where
  size := n
  put x := leBytes n x.toNat
  get bs := BitVec.ofNat (8 * n) (leNat bs)
  length_put x := length_leBytes n x.toNat
  get_put x := by
    rw [leNat_leBytes, ← two_pow_eight_mul, Nat.mod_eq_of_lt x.isLt, BitVec.ofNat_toNat, BitVec.setWidth_eq]
  put_get bs h := by
    have hlt := leNat_lt bs
    rw [h, ← two_pow_eight_mul] at hlt
    rw [BitVec.toNat_ofNat, Nat.mod_eq_of_lt hlt, ← h, leBytes_leNat]

/-- Two members, one behind the other. -/
def seq (a : Layout A) (b : Layout B) : Layout (A × B) where
  size := a.size + b.size
  put t := a.put t.1 ++ b.put t.2
  get bs := (a.get (bs.take a.size), b.get (bs.drop a.size))
  length_put t := by rw [List.length_append, a.length_put, b.length_put]
  get_put t := by rw [List.take_left' (a.length_put t.1), List.drop_left' (a.length_put t.1), a.get_put, b.get_put]
  put_get bs h := by
    rw [a.put_get _ (by rw [List.length_take]; omega), b.put_get _ (by rw [List.length_drop]; omega),
      List.take_append_drop]

/-- The same bytes for a type that is in bijection. -/
def map (e : A ≃ B) (a : Layout A) : Layout B where
  size := a.size
  put t := a.put (e.symm t)
  get bs := e (a.get bs)
  length_put t := a.length_put _
  get_put t := by rw [a.get_put, Equiv.apply_symm_apply]
  put_get bs h := by rw [Equiv.symm_apply_apply, a.put_get bs h]

/-! ### Arrays -/

/-- The bytes of one element after the other. -/
def putAll (a : Layout A) {n : ℕ} (f : Fin n → A) : List UInt8 := (List.ofFn f).flatMap a.put

/-- The element at an index. -/
def getAll (a : Layout A) (n : ℕ) (bs : List UInt8) (i : Fin n) : A :=
  a.get ((bs.drop (a.size * i)).take a.size)

theorem putAll_succ (a : Layout A) {n : ℕ} (f : Fin (n + 1) → A) :
    a.putAll f = a.put (f 0) ++ a.putAll fun i => f i.succ := by
  rw [putAll, List.ofFn_succ, List.flatMap_cons]
  rfl

theorem getAll_succ (a : Layout A) {n : ℕ} (bs : List UInt8) (i : Fin n) :
    a.getAll (n + 1) bs i.succ = a.getAll n (bs.drop a.size) i := by
  rw [getAll, getAll, List.drop_drop, Fin.val_succ, Nat.mul_succ, Nat.add_comm]

theorem getAll_zero (a : Layout A) {n : ℕ} (bs : List UInt8) : a.getAll (n + 1) bs 0 = a.get (bs.take a.size) := by
  rw [getAll, Fin.val_zero, Nat.mul_zero, List.drop_zero]

theorem length_putAll (a : Layout A) {n : ℕ} (f : Fin n → A) : (a.putAll f).length = n * a.size := by
  induction n with
  | zero => simp [putAll]
  | succ n ih => rw [putAll_succ, List.length_append, a.length_put, ih, Nat.succ_mul, Nat.add_comm]

theorem getAll_putAll (a : Layout A) {n : ℕ} (f : Fin n → A) : a.getAll n (a.putAll f) = f := by
  induction n with
  | zero =>
    funext i
    exact i.elim0
  | succ n ih =>
    funext i
    have hlen := a.length_put (f 0)
    induction i using Fin.cases with
    | zero => rw [getAll_zero, putAll_succ, List.take_left' hlen, a.get_put]
    | succ i => rw [getAll_succ, putAll_succ, List.drop_left' hlen, ih]

theorem putAll_getAll (a : Layout A) {n : ℕ} (bs : List UInt8) (h : bs.length = n * a.size) :
    a.putAll (a.getAll n bs) = bs := by
  induction n generalizing bs with
  | zero => simpa [putAll] using (List.length_eq_zero_iff.mp (h.trans (Nat.zero_mul _))).symm
  | succ n ih =>
    rw [Nat.succ_mul] at h
    have hhead : (bs.take a.size).length = a.size := by
      rw [List.length_take]
      omega
    have htail : (fun i => a.getAll (n + 1) bs (Fin.succ i)) = a.getAll n (bs.drop a.size) :=
      funext fun i => getAll_succ a bs i
    rw [putAll_succ, getAll_zero, a.put_get _ hhead, htail, ih _ (by rw [List.length_drop]; omega),
      List.take_append_drop]

def array (n : ℕ) (a : Layout A) : Layout (Fin n → A) where
  size := n * a.size
  put f := a.putAll f
  get bs := a.getAll n bs
  length_put f := a.length_putAll f
  get_put f := a.getAll_putAll f
  put_get bs h := a.putAll_getAll bs h

end Layout

end LibbpfBootstrap.Kernel
