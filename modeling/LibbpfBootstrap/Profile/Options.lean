import LibbpfBootstrap.Libc.Text
import Mathlib.Data.BitVec

/-! The event that the two `profile` programs ask for. Both take the frequency from the
option `-f` and fill a `struct perf_event_attr`; the C program reads the number with
`atoi` into an `int`, the Rust program as a `u64`. Every member that neither program
mentions is zero in both.

How the command line is cut into options is left to `getopt_long` and `clap`. They do not
always cut alike: of `-f=5` one takes `=5` for the number and the other `5`. -/

namespace LibbpfBootstrap.Profile.Options

open Libc

/-- An option on the command line. -/
inductive Opt
  | f (optarg : List UInt8)
  | swEvent
  | other
deriving DecidableEq

/-! ### The C program -/

/-- `(int) strtol(optarg, NULL, 10)`. -/
def atoi (optarg : List UInt8) : BitVec 32 := BitVec.ofInt 32 (strtol optarg).1

structure OptionsC where
  freq : BitVec 32
  swEvent : Bool
deriving DecidableEq

def atLeastOne (freq : BitVec 32) : BitVec 32 := if freq.toInt < 1 then 1#32 else freq

/-- The loop over `getopt_long`; nothing where the help is shown. -/
def getoptLong : List Opt → OptionsC → Option OptionsC
  | [], o => some o
  | .f optarg :: opts, o => getoptLong opts { o with freq := atLeastOne (atoi optarg) }
  | .swEvent :: opts, o => getoptLong opts { o with swEvent := true }
  | .other :: _, _ => none

def parseC (opts : List Opt) : Option OptionsC := getoptLong opts ⟨1#32, false⟩

/-! ### The Rust program -/

/-- The text without a plus in front. -/
def withoutPlus (s : List UInt8) : List UInt8 := if s.head? = some 43 then s.tail else s

/-- `u64::from_str`. -/
def u64FromStr (s : List UInt8) : Option (BitVec 64) :=
  let digits := withoutPlus s
  if digits ≠ [] ∧ digits.all isDigit ∧ digitsValue digits < 2 ^ 64 then some (BitVec.ofNat 64 (digitsValue digits))
  else none

/-- `struct Args`, as far as it concerns the event; there is no frequency if the option
was not given. -/
structure Args where
  freq : Option (BitVec 64)
  swEvent : Bool
deriving DecidableEq

/-- `if args.freq < 1 { 1 } else { args.freq }`, with the default of the option. -/
def Args.sampleFreq (a : Args) : BitVec 64 :=
  let freq := a.freq.getD 1#64
  if freq < 1#64 then 1#64 else freq

/-! ### The event -/

def perfTypeHardware : BitVec 32 := 0#32

def perfTypeSoftware : BitVec 32 := 1#32

def perfCountHwCpuCycles : BitVec 64 := 0#64

def perfCountSwCpuClock : BitVec 64 := 0#64

/-- The members of `struct perf_event_attr` that a program sets. The bit fields of the
kernel are one word; `freq` is the eleventh of them. -/
structure PerfEventAttr where
  type : BitVec 32
  size : BitVec 32
  config : BitVec 64
  sampleFreq : BitVec 64
  flags : BitVec 64
deriving DecidableEq

/-- In `main` of `profile.c`; the size is that of the structure in the headers. -/
def attrC (size : BitVec 32) (o : OptionsC) : PerfEventAttr where
  type := if o.swEvent then perfTypeSoftware else perfTypeHardware
  size := size
  config := if o.swEvent then perfCountSwCpuClock else perfCountHwCpuCycles
  sampleFreq := o.freq.signExtend 64
  flags := 1#64 <<< 10

/-- The sizes of the members of `perf_event_attr` in `syscall.rs`, which need no padding. -/
def attrMembers : List ℕ := [4, 4, 8, 8, 8, 8, 8, 4, 4, 8, 8, 8, 8, 4, 4, 8, 4, 2, 2, 4, 4]

/-- In `init_perf_monitor`; the size is that of the structure in `syscall.rs`. -/
def attrRust (a : Args) : PerfEventAttr where
  type := if a.swEvent then perfTypeSoftware else perfTypeHardware
  size := BitVec.ofNat 32 attrMembers.sum
  config := if a.swEvent then perfCountSwCpuClock else perfCountHwCpuCycles
  sampleFreq := a.sampleFreq
  flags := 1#64 <<< 10

/-- The programs ask for one event. The sizes tell the kernel which members there are, and
those of one structure alone are zero. -/
def SameEvent (a b : PerfEventAttr) : Prop :=
  a.type = b.type ∧ a.config = b.config ∧ a.sampleFreq = b.sampleFreq ∧ a.flags = b.flags

/-! ### Numbers -/

/-- What the Rust program can read, `strtol` reads as the nearest `long`. -/
theorem strtol_of_u64FromStr {s : List UInt8} {n : BitVec 64} (h : u64FromStr s = some n) :
    strtol s = clampLong n.toNat := by
  simp only [u64FromStr] at h
  split_ifs at h with hd
  obtain ⟨hne, hall, hlt⟩ := hd
  obtain rfl := Option.some.inj h
  obtain ⟨hplain, hsigned⟩ := strtol_digits hne hall
  rw [BitVec.toNat_ofNat, Nat.mod_eq_of_lt hlt]
  by_cases hplus : s.head? = some 43
  · have hs : s = 43 :: withoutPlus s := by
      rw [withoutPlus, if_pos hplus]
      exact (List.cons_head?_tail hplus).symm
    rwa [← hs] at hsigned
  · have hs : withoutPlus s = s := if_neg hplus
    rw [hs] at hplain ⊢
    exact hplain

/-- `atoi` keeps the numbers that fit an `int`. -/
theorem toInt_atoi {s : List UInt8} {n : BitVec 64} (h : u64FromStr s = some n) (hn : n.toNat < 2 ^ 31) :
    (atoi s).toInt = n.toNat := by
  have hmax : (n.toNat : ℤ) ≤ longMax := by
    unfold longMax
    omega
  have hmin : longMin ≤ (n.toNat : ℤ) := by
    unfold longMin
    omega
  rw [atoi, strtol_of_u64FromStr h, clampLong_of_mem hmin hmax, BitVec.toInt_ofInt, Int.bmod_eq_of_le (by omega) (by omega)]

theorem one_le_atLeastOne (freq : BitVec 32) : 1 ≤ (atLeastOne freq).toInt := by
  unfold atLeastOne
  split_ifs with h
  · decide
  · exact not_lt.mp h

/-- The frequency of the C program is a positive `int`. -/
theorem toNat_signExtend_freq {freq : BitVec 32} (h : 1 ≤ freq.toInt) :
    ((freq.signExtend 64).toNat : ℤ) = freq.toInt := by
  have hsame : (freq.signExtend 64).toInt = freq.toInt := BitVec.toInt_signExtend_of_le (by decide)
  have hcond := BitVec.toInt_eq_toNat_cond (freq.signExtend 64)
  split_ifs at hcond <;> omega

theorem toNat_one_max (freq : BitVec 64) : (if freq < 1#64 then 1#64 else freq).toNat = max 1 freq.toNat := by
  have h1 : (1#64).toNat = 1 := rfl
  have hlt : freq < 1#64 ↔ freq.toNat < 1 := BitVec.lt_def
  split_ifs with h
  · rw [hlt] at h
    omega
  · rw [hlt] at h
    omega

/-- The two programs make the same frequency of one text exactly if the number fits an `int`. -/
theorem freq_eq_iff {s : List UInt8} {n : BitVec 64} (h : u64FromStr s = some n) :
    (atLeastOne (atoi s)).signExtend 64 = (if n < 1#64 then 1#64 else n) ↔ n.toNat < 2 ^ 31 := by
  have hc := toNat_signExtend_freq (one_le_atLeastOne (atoi s))
  rw [← BitVec.toNat_inj, toNat_one_max]
  constructor
  · intro he
    have hlt : (atLeastOne (atoi s)).toInt < 2 ^ 31 := BitVec.toInt_lt
    omega
  · intro hn
    have hint := toInt_atoi h hn
    unfold atLeastOne at hc ⊢
    split_ifs at hc ⊢ with hlt
    · have h1 : ((1#32).signExtend 64).toNat = 1 := by decide
      omega
    · omega

/-! ### Command lines -/

/-- The texts given with `-f`. -/
def optargs (opts : List Opt) : List (List UInt8) :=
  opts.filterMap fun
    | .f optarg => some optarg
    | _ => none

/-- The other program has found the same options, `-f` at most once and then with the same
text, and has read the text as a number. -/
structure Agrees (opts : List Opt) (a : Args) : Prop where
  swEvent : a.swEvent = decide (.swEvent ∈ opts)
  freq : match a.freq with
    | none => optargs opts = []
    | some n => ∃ optarg, optargs opts = [optarg] ∧ u64FromStr optarg = some n

theorem swEvent_getoptLong {opts : List Opt} {o o' : OptionsC} (h : getoptLong opts o = some o') :
    o'.swEvent = (o.swEvent || decide (.swEvent ∈ opts)) := by
  induction opts generalizing o with
  | nil =>
    cases h
    simp
  | cons opt opts ih =>
    cases opt with
    | f optarg =>
      rw [ih h]
      simp
    | swEvent =>
      rw [ih h]
      simp
    | other => cases h

/-- The last frequency counts. -/
theorem freq_getoptLong {opts : List Opt} {o o' : OptionsC} (h : getoptLong opts o = some o') :
    o'.freq = (optargs opts).foldl (fun _ optarg => atLeastOne (atoi optarg)) o.freq := by
  induction opts generalizing o with
  | nil =>
    cases h
    rfl
  | cons opt opts ih =>
    cases opt with
    | f optarg => exact ih (o := { o with freq := atLeastOne (atoi optarg) }) h
    | swEvent => exact ih (o := { o with swEvent := true }) h
    | other => cases h

/-- On every command line in which both programs find the same options, they ask for the
same event exactly if the frequency fits an `int`. -/
theorem sameEvent_iff (opts : List Opt) (size : BitVec 32) (o : OptionsC) (a : Args) (hc : parseC opts = some o)
    (ha : Agrees opts a) :
    SameEvent (attrC size o) (attrRust a) ↔ (a.freq.getD 1#64).toNat < 2 ^ 31 := by
  have hsw : o.swEvent = a.swEvent := by rw [swEvent_getoptLong hc, ha.swEvent, Bool.false_or]
  have hfreq : o.freq.signExtend 64 = a.sampleFreq ↔ (a.freq.getD 1#64).toNat < 2 ^ 31 := by
    have hf := ha.freq
    rw [freq_getoptLong hc]
    unfold Args.sampleFreq
    cases hn : a.freq with
    | none =>
      simp only [hn] at hf
      rw [hf]
      decide
    | some n =>
      simp only [hn] at hf
      obtain ⟨optarg, hopt, hnum⟩ := hf
      rw [hopt]
      exact freq_eq_iff hnum
  rw [← hfreq]
  simp only [SameEvent, attrC, attrRust, hsw, true_and, and_true]

theorem sameEvent_thousand :
    parseC [.f (ascii "1000"), .swEvent] = some ⟨1000#32, true⟩ ∧
      Agrees [.f (ascii "1000"), .swEvent] ⟨some 1000#64, true⟩ ∧
      SameEvent (attrC 136#32 ⟨1000#32, true⟩) (attrRust ⟨some 1000#64, true⟩) := by
  have hc : parseC [.f (ascii "1000"), .swEvent] = some ⟨1000#32, true⟩ := by decide +kernel
  have ha : Agrees [.f (ascii "1000"), .swEvent] ⟨some 1000#64, true⟩ :=
    ⟨by decide, ascii "1000", rfl, by decide +kernel⟩
  exact ⟨hc, ha, (sameEvent_iff _ 136#32 _ _ hc ha).mpr (by decide)⟩

end LibbpfBootstrap.Profile.Options
