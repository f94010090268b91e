import LibbpfBootstrap.Kernel.CString
import Mathlib.Data.BitVec
import Mathlib.Tactic.Ring

/-! What the helpers of the kernel hand to a program: the halves of the current
thread's identity, numbers as little-endian bytes, and reads of user memory. A
read of user memory may fault at any byte; a faulting read returns zeros. -/

namespace LibbpfBootstrap.Kernel

/-- The upper half of `bpf_get_current_pid_tgid()`. -/
def pidOf (id : BitVec 64) : BitVec 32 := (id >>> 32).setWidth 32

/-- Its lower half. -/
def tidOf (id : BitVec 64) : BitVec 32 := id.setWidth 32

@[simp] theorem pidOf_append (pid tid : BitVec 32) : pidOf (pid ++ tid) = pid := by
  unfold pidOf
  grind

@[simp] theorem tidOf_append (pid tid : BitVec 32) : tidOf (pid ++ tid) = tid := by
  unfold tidOf
  grind

/-! ### Little-endian numbers -/

def leNat : List UInt8 → ℕ
  | [] => 0
  | b :: bs => b.toNat + 256 * leNat bs

/-- The first `n` bytes of a number. -/
def leBytes : ℕ → ℕ → List UInt8
  | 0, _ => []
  | n + 1, x => UInt8.ofNat (x % 256) :: leBytes n (x / 256)

@[simp] theorem length_leBytes (n x : ℕ) : (leBytes n x).length = n := by
  induction n generalizing x with
  | zero => rfl
  | succ n ih => rw [leBytes, List.length_cons, ih]

theorem leNat_leBytes (n x : ℕ) : leNat (leBytes n x) = x % 256 ^ n := by
  induction n generalizing x with
  | zero => simp [leBytes, leNat, Nat.mod_one]
  | succ n ih =>
    have hb : (UInt8.ofNat (x % 256)).toNat = x % 256 :=
      UInt8.toNat_ofNat_of_lt' (Nat.mod_lt x (by decide))
    rw [leBytes, leNat, ih, hb, pow_succ, mul_comm (256 ^ n), Nat.mod_mul]

theorem getD_leBytes {n i : ℕ} (x : ℕ) (hi : i < n) :
    (leBytes n x).getD i 0 = UInt8.ofNat (x / 256 ^ i % 256) := by
  induction n generalizing x i with
  | zero => omega
  | succ n ih =>
    cases i with
    | zero => rw [leBytes, List.getD_cons_zero, pow_zero, Nat.div_one]
    | succ i => rw [leBytes, List.getD_cons_succ, ih _ (by omega), Nat.div_div_eq_div_mul, pow_succ']

theorem leNat_replicate_zero (n : ℕ) : leNat (List.replicate n 0) = 0 := by
  induction n with
  | zero => rfl
  | succ n ih =>
    rw [List.replicate_succ, leNat, ih]
    rfl

/-! ### User memory -/

/-- The memory of a process at one moment, and the bytes that cannot be read then. -/
structure UserMemory where
  byte : BitVec 64 → UInt8
  faults : BitVec 64 → Bool

namespace UserMemory

variable (mem : UserMemory)

def bytesAt : ℕ → BitVec 64 → List UInt8
  | 0, _ => []
  | n + 1, a => mem.byte a :: bytesAt n (a + 1)

def readable : ℕ → BitVec 64 → Bool
  | 0, _ => true
  | n + 1, a => !mem.faults a && readable n (a + 1)

/-- `bpf_probe_read_user` of `n` bytes. -/
def probeReadUser (n : ℕ) (a : BitVec 64) : List UInt8 :=
  if mem.readable n a then mem.bytesAt n a else List.replicate n 0

/-- The number that stands in `n` bytes, zero where they cannot be read. -/
def number (n : ℕ) (a : BitVec 64) : ℕ := if mem.readable n a then leNat (mem.bytesAt n a) else 0

/-- The string at an address, cut after `n` bytes. -/
def strAt : ℕ → BitVec 64 → List UInt8
  | 0, _ => []
  | n + 1, a => if mem.byte a = 0 then [] else mem.byte a :: strAt n (a + 1)

/-- The bytes of the string and its terminator can be read, as far as `n` reach. -/
def strReadable : ℕ → BitVec 64 → Bool
  | 0, _ => true
  | n + 1, a => !mem.faults a && (mem.byte a == 0 || strReadable n (a + 1))

/-- `bpf_probe_read_user_str` into a buffer of `n` bytes. -/
def probeReadUserStr {n : ℕ} (a : BitVec 64) (old : CharBuf n) : CharBuf n :=
  if mem.strReadable n a then old.putStr (mem.strAt n a) else fun _ => 0

variable {mem}

theorem probeReadUser_of_readable {n : ℕ} {a : BitVec 64} (h : mem.readable n a = true) :
    mem.probeReadUser n a = mem.bytesAt n a := if_pos h

theorem leNat_probeReadUser (n : ℕ) (a : BitVec 64) : leNat (mem.probeReadUser n a) = mem.number n a := by
  unfold probeReadUser number
  split_ifs
  · rfl
  · exact leNat_replicate_zero n

theorem take_strAt (n k : ℕ) (a : BitVec 64) : (mem.strAt (n + k) a).take n = mem.strAt n a := by
  induction n generalizing a with
  | zero => rw [List.take_zero]; rfl
  | succ n ih =>
    rw [Nat.add_right_comm, strAt, strAt]
    split_ifs
    · rfl
    · rw [List.take_succ_cons, ih]

theorem takeWhile_strAt (n : ℕ) (a : BitVec 64) : (mem.strAt n a).takeWhile (· ≠ 0) = mem.strAt n a := by
  induction n generalizing a with
  | zero => rfl
  | succ n ih =>
    rw [strAt]
    split_ifs with h
    · rfl
    · rw [List.takeWhile_cons_of_pos (by simpa using h), ih]

theorem strReadable_of_no_faults (h : ∀ a, mem.faults a = false) (n : ℕ) (a : BitVec 64) :
    mem.strReadable n a = true := by
  induction n generalizing a with
  | zero => rfl
  | succ n ih => simp [strReadable, h a, ih]

/-- A string that can be read arrives as it is, cut to the room before the terminator. -/
theorem cstr_probeReadUserStr {n : ℕ} {a : BitVec 64} {old : CharBuf (n + 1)}
    (h : mem.strReadable (n + 1) a = true) : (mem.probeReadUserStr a old).cstr = mem.strAt n a := by
  rw [probeReadUserStr, if_pos h, CharBuf.cstr_putStr (Nat.succ_pos n), Nat.succ_sub_one,
    take_strAt n 1, takeWhile_strAt]

/-- Read into zeros, a string is followed by zeros. -/
theorem probeReadUserStr_zeros {n : ℕ} {a : BitVec 64} (h : mem.strReadable (n + 1) a = true) :
    mem.probeReadUserStr a (fun _ => 0 : CharBuf (n + 1)) = fun i => (mem.strAt n a).getD i.val 0 := by
  rw [probeReadUserStr, if_pos h, CharBuf.putStr_zeros, Nat.succ_sub_one, take_strAt n 1]

end UserMemory

end LibbpfBootstrap.Kernel
