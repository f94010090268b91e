import Mathlib.Data.BitVec
import Mathlib.Data.List.OfFn
import Mathlib.Data.List.Zip
import Mathlib.Tactic.Common

/-! How the two `profile` programs show a sample. Both walk the two stacks, ask
blazesym for the symbols and print a line for each address and each inlined
frame. The C program marks an inlined frame by an input address of zero, the Rust
program by the lack of one; so they differ on an address zero that has a symbol.
Lines are taken apart from the task name, the form of numbers, the source
locations and the stream they go to. -/

namespace LibbpfBootstrap.Profile

/-! ### A sample -/

abbrev maxStackDepth : ℕ := 128

abbrev StackTrace := Fin maxStackDepth → BitVec 64

/-- What `bpf_get_stack` returns: an error, or the number of bytes it has written. -/
structure StackSize where
  sz : BitVec 32
  valid : sz.toInt ≤ 0 ∨ ∃ n ≤ maxStackDepth, sz.toInt = 8 * (n : ℤ)

/-- `struct stacktrace_event`, as `profile` fills it. -/
structure StacktraceEvent where
  pid : BitVec 32
  cpuId : BitVec 32
  kstackSz : StackSize
  ustackSz : StackSize
  kstack : StackTrace
  ustack : StackTrace

/-- `sizeof(struct stacktrace_event)`. -/
def eventSize : ℕ := 4 + 4 + 16 + 4 + 4 + 8 * maxStackDepth + 8 * maxStackDepth

/-! ### The symbolizer -/

/-- What is known of an address. -/
inductive Symbolized
  | unknown
  | sym (name : List UInt8) (addr offset : BitVec 64) (inlined : List (List UInt8))
  deriving DecidableEq

inductive Source
  | kernel
  | process (pid : BitVec 32)
  deriving DecidableEq

/-- blazesym: it fails as a whole or returns one result for each address. -/
structure Symbolizer where
  symbolize : Source → List (BitVec 64) → Option (List Symbolized)
  length_eq : ∀ src addrs syms, symbolize src addrs = some syms → syms.length = addrs.length

/-! ### The programs -/

inductive Line
  | header (pid cpuId : BitVec 32)
  | kernel | noKernelStack | userspace | noUserspaceStack
  | failed
  | noSymbol (inputAddr : BitVec 64)
  | newSymbol (inputAddr : BitVec 64) (name : List UInt8) (addr offset : BitVec 64)
  | inlined (name : List UInt8)
  | blank
  deriving DecidableEq

/-- The first `n` entries of a stack; to read more of them is an error. -/
def entries (stack : StackTrace) (n : ℕ) : Option (List (BitVec 64)) :=
  if n ≤ maxStackDepth then some ((List.ofFn stack).take n) else none

def printFrameC (name : List UInt8) (inputAddr addr offset : BitVec 64) : Line :=
  if inputAddr ≠ 0#64 then .newSymbol inputAddr name addr offset else .inlined name

def printFrameRust (name : List UInt8) : Option (BitVec 64 × BitVec 64 × BitVec 64) → Line
  | some (inputAddr, addr, offset) => .newSymbol inputAddr name addr offset
  | none => .inlined name

/-- One turn of the C loop. -/
def showEntryC (inputAddr : BitVec 64) : Option Symbolized → List Line
  | none => [.noSymbol inputAddr]
  | some .unknown => [.noSymbol inputAddr]
  | some (.sym name addr offset inlined) =>
    printFrameC name inputAddr addr offset :: inlined.map fun name => printFrameC name 0#64 0#64 0#64

/-- One turn of the Rust loop. -/
def showEntryRust (inputAddr : BitVec 64) : Symbolized → List Line
  | .unknown => [.noSymbol inputAddr]
  | .sym name addr offset inlined =>
    printFrameRust name (some (inputAddr, addr, offset)) :: inlined.map fun name => printFrameRust name none

/-- `stackSz` is an `int` that blazesym takes as a `size_t`. -/
def showStackTraceC (symbolizer : Symbolizer) (stack : StackTrace) (stackSz pid : BitVec 32) : Option (List Line) :=
  (entries stack (stackSz.signExtend 64).toNat).map fun addrs =>
    match symbolizer.symbolize (if pid ≠ 0#32 then .process pid else .kernel) addrs with
    | none => [.failed]
    | some syms => (List.range stackSz.toInt.toNat).flatMap fun i => showEntryC (addrs.getD i 0#64) syms[i]?

def showStackTraceRust (symbolizer : Symbolizer) (stack : List (BitVec 64)) (pid : BitVec 32) : List Line :=
  match symbolizer.symbolize (if pid = 0#32 then .kernel else .process pid) stack with
  | none => [.failed]
  | some syms => (stack.zip syms).flatMap fun p => showEntryRust p.1 p.2

/-- The common body of the two handlers; `showTrace` gets a stack, its size in bytes and
the process. -/
def handleSample (showTrace : StackTrace → BitVec 32 → BitVec 32 → Option (List Line)) (event : StacktraceEvent) :
    Option (ℕ × List Line) :=
  if event.kstackSz.sz.toInt ≤ 0 ∧ event.ustackSz.sz.toInt ≤ 0 then some (1, [])
  else do
    let kernel ← if 0 < event.kstackSz.sz.toInt then
        (showTrace event.kstack event.kstackSz.sz 0#32).map (.kernel :: ·) else some [.noKernelStack]
    let user ← if 0 < event.ustackSz.sz.toInt then
        (showTrace event.ustack event.ustackSz.sz event.pid).map (.userspace :: ·) else some [.noUserspaceStack]
    some (0, .header event.pid event.cpuId :: (kernel ++ user ++ [.blank]))

/-- The quotient of an `int` and a `size_t` is a `size_t`, and becomes an `int`. -/
def eventHandlerC (symbolizer : Symbolizer) (event : StacktraceEvent) : Option (ℕ × List Line) :=
  handleSample (fun stack sz pid => showStackTraceC symbolizer stack ((sz.signExtend 64 / 8#64).setWidth 32) pid) event

/-- `len` is the length of the data that the ring buffer hands over. -/
def eventHandlerRust (symbolizer : Symbolizer) (len : ℕ) (event : StacktraceEvent) : Option (ℕ × List Line) :=
  if len ≠ eventSize then some (1, [])
  else handleSample (fun stack sz pid =>
    (entries stack ((sz.signExtend 64).toNat / 8)).map fun addrs => showStackTraceRust symbolizer addrs pid) event

/-! ### What should be shown -/

/-- The addresses of a stack. -/
def addresses (stack : StackTrace) (size : StackSize) : List (BitVec 64) :=
  (List.ofFn stack).take (size.sz.toInt.toNat / 8)

/-- Process zero is the kernel. -/
def sourceOf (pid : BitVec 32) : Source := if pid = 0#32 then .kernel else .process pid

/-- An address without a symbol, or a new symbol and its inlined frames. -/
def entryLines (inputAddr : BitVec 64) : Symbolized → List Line
  | .unknown => [.noSymbol inputAddr]
  | .sym name addr offset inlined => .newSymbol inputAddr name addr offset :: inlined.map .inlined

def stackLines (symbolizer : Symbolizer) (pid : BitVec 32) (addrs : List (BitVec 64)) : List Line :=
  match symbolizer.symbolize (sourceOf pid) addrs with
  | none => [.failed]
  | some syms => (addrs.zip syms).flatMap fun p => entryLines p.1 p.2

/-- The status and the lines of a sample, from those of its stacks. -/
def sampleWith (event : StacktraceEvent) (kernel user : List Line) : ℕ × List Line :=
  if event.kstackSz.sz.toInt ≤ 0 ∧ event.ustackSz.sz.toInt ≤ 0 then (1, [])
  else (0, .header event.pid event.cpuId ::
    ((if 0 < event.kstackSz.sz.toInt then .kernel :: kernel else [.noKernelStack]) ++
      (if 0 < event.ustackSz.sz.toInt then .userspace :: user else [.noUserspaceStack]) ++ [.blank]))

def sampleLines (symbolizer : Symbolizer) (event : StacktraceEvent) : ℕ × List Line :=
  sampleWith event (stackLines symbolizer 0#32 (addresses event.kstack event.kstackSz))
    (stackLines symbolizer event.pid (addresses event.ustack event.ustackSz))

/-- Both programs show the sample, with the same status, and read no entry that is not
there. -/
def SameContent (symbolizer : Symbolizer) (event : StacktraceEvent) : Prop :=
  eventHandlerC symbolizer event = some (sampleLines symbolizer event) ∧
    eventHandlerRust symbolizer eventSize event = some (sampleLines symbolizer event)

/-- A stack has a symbol for an address zero. -/
def NamesZero (symbolizer : Symbolizer) (pid : BitVec 32) (addrs : List (BitVec 64)) : Prop :=
  ∃ syms, symbolizer.symbolize (sourceOf pid) addrs = some syms ∧ ∃ p ∈ addrs.zip syms, p.1 = 0#64 ∧ p.2 ≠ .unknown

/-- One of the stacks that are shown has one. -/
def ShowsZero (symbolizer : Symbolizer) (event : StacktraceEvent) : Prop :=
  (0 < event.kstackSz.sz.toInt ∧ NamesZero symbolizer 0#32 (addresses event.kstack event.kstackSz)) ∨
    (0 < event.ustackSz.sz.toInt ∧ NamesZero symbolizer event.pid (addresses event.ustack event.ustackSz))

/-! ### Sizes -/

theorem toNat_signExtend {x : BitVec 32} (h : 2 * x.toNat < 2 ^ 32) : (x.signExtend 64).toNat = x.toNat := by
  rw [BitVec.signExtend_eq_setWidth_of_msb_false (BitVec.msb_eq_false_iff_two_mul_lt.mpr h), BitVec.toNat_setWidth,
    Nat.mod_eq_of_lt (by omega)]

theorem toInt_eq_toNat {x : BitVec 32} (h : 2 * x.toNat < 2 ^ 32) : x.toInt = x.toNat := by
  rw [BitVec.toInt_eq_toNat_cond, if_pos h]

/-- The number of entries that a positive size stands for. -/
theorem StackSize.toNat_eq {v : StackSize} (h : 0 < v.sz.toInt) :
    ∃ n ≤ maxStackDepth, v.sz.toNat = 8 * n ∧ v.sz.toInt.toNat / 8 = n := by
  rcases v.valid with hn | ⟨n, hn, he⟩
  · omega
  · have hlt := v.sz.isLt
    have hcond := BitVec.toInt_eq_toNat_cond v.sz
    refine ⟨n, hn, ?_, by omega⟩
    split_ifs at hcond <;> omega

/-- The division of the C program goes through a `size_t` and back to an `int`. -/
theorem toNat_quotient {x : BitVec 32} {n : ℕ} (hx : x.toNat = 8 * n) (hn : n ≤ maxStackDepth) :
    ((x.signExtend 64 / 8#64).setWidth 32).toNat = n := by
  have hn : n ≤ 128 := hn
  have h8 : (8#64).toNat = 8 := rfl
  rw [BitVec.toNat_setWidth, BitVec.toNat_udiv, toNat_signExtend (by omega), hx, h8,
    Nat.mul_div_cancel_left n (by decide), Nat.mod_eq_of_lt (by omega)]

theorem entries_addresses (stack : StackTrace) {v : StackSize} {n : ℕ} (hn : n ≤ maxStackDepth)
    (hv : v.sz.toInt.toNat / 8 = n) : entries stack n = some (addresses stack v) := by
  rw [entries, if_pos hn, addresses, hv]

theorem length_addresses (stack : StackTrace) {v : StackSize} {n : ℕ} (hn : n ≤ maxStackDepth)
    (hv : v.sz.toInt.toNat / 8 = n) : (addresses stack v).length = n := by
  rw [addresses, hv, List.length_take, List.length_ofFn]
  exact min_eq_left hn

/-! ### The two loops -/

/-- A loop over indices that checks the count is a walk over the pairs. -/
theorem range_flatMap {α β γ : Type*} {as : List α} {bs : List β} (h : bs.length = as.length) (d : α)
    (f : α → Option β → List γ) :
    (List.range as.length).flatMap (fun i => f (as.getD i d) bs[i]?) = (as.zip bs).flatMap fun p => f p.1 (some p.2) := by
  rw [List.flatMap_def, List.flatMap_def]
  congr 1
  apply List.ext_getElem
  · simp [h]
  · intro i h₁ h₂
    have hi : i < as.length := by simpa using h₁
    simp [hi, h]

/-- What the C program shows of a stack. -/
def stackLinesC (symbolizer : Symbolizer) (pid : BitVec 32) (addrs : List (BitVec 64)) : List Line :=
  match symbolizer.symbolize (sourceOf pid) addrs with
  | none => [.failed]
  | some syms => (addrs.zip syms).flatMap fun p => showEntryC p.1 (some p.2)

theorem showStackTraceC_eq (symbolizer : Symbolizer) (stack : StackTrace) {v : StackSize} (h : 0 < v.sz.toInt)
    (pid : BitVec 32) :
    showStackTraceC symbolizer stack ((v.sz.signExtend 64 / 8#64).setWidth 32) pid =
      some (stackLinesC symbolizer pid (addresses stack v)) := by
  obtain ⟨n, hn, hnat, hv⟩ := StackSize.toNat_eq h
  have hq := toNat_quotient hnat hn
  have hn' : n ≤ 128 := hn
  have hsource : (if pid ≠ 0#32 then Source.process pid else .kernel) = sourceOf pid := by
    unfold sourceOf
    split_ifs <;> first | rfl | contradiction
  unfold showStackTraceC stackLinesC
  rw [toNat_signExtend (by omega), toInt_eq_toNat (by omega), hq, Int.toNat_natCast, entries_addresses stack hn hv,
    Option.map_some, hsource]
  congr 1
  cases hs : symbolizer.symbolize (sourceOf pid) (addresses stack v) with
  | none => rfl
  | some syms =>
    have hlen := symbolizer.length_eq _ _ _ hs
    dsimp only
    rw [← length_addresses stack hn hv]
    exact range_flatMap hlen 0#64 showEntryC

theorem showEntryRust_eq (inputAddr : BitVec 64) (s : Symbolized) :
    showEntryRust inputAddr s = entryLines inputAddr s := by
  cases s <;> rfl

theorem showStackTraceRust_eq (symbolizer : Symbolizer) (pid : BitVec 32) (addrs : List (BitVec 64)) :
    showStackTraceRust symbolizer addrs pid = stackLines symbolizer pid addrs := by
  unfold showStackTraceRust stackLines sourceOf
  simp only [showEntryRust_eq]

/-- A handler whose walks succeed assembles what they show. -/
theorem handleSample_eq {showTrace : StackTrace → BitVec 32 → BitVec 32 → Option (List Line)}
    {event : StacktraceEvent} {kernel user : List Line}
    (hk : 0 < event.kstackSz.sz.toInt → showTrace event.kstack event.kstackSz.sz 0#32 = some kernel)
    (hu : 0 < event.ustackSz.sz.toInt → showTrace event.ustack event.ustackSz.sz event.pid = some user) :
    handleSample showTrace event = some (sampleWith event kernel user) := by
  unfold handleSample sampleWith
  by_cases h : event.kstackSz.sz.toInt ≤ 0 ∧ event.ustackSz.sz.toInt ≤ 0
  · rw [if_pos h, if_pos h]
  · rw [if_neg h, if_neg h]
    by_cases hkp : 0 < event.kstackSz.sz.toInt <;> by_cases hup : 0 < event.ustackSz.sz.toInt
    · simp [hkp, hup, hk hkp, hu hup]
    · simp [hkp, hup, hk hkp]
    · simp [hkp, hup, hu hup]
    · simp [hkp, hup]

theorem eventHandlerC_eq (symbolizer : Symbolizer) (event : StacktraceEvent) :
    eventHandlerC symbolizer event =
      some (sampleWith event (stackLinesC symbolizer 0#32 (addresses event.kstack event.kstackSz))
        (stackLinesC symbolizer event.pid (addresses event.ustack event.ustackSz))) :=
  handleSample_eq (fun h => showStackTraceC_eq symbolizer event.kstack h 0#32)
    fun h => showStackTraceC_eq symbolizer event.ustack h event.pid

/-- The Rust program shows every sample as it should. -/
theorem eventHandlerRust_eq (symbolizer : Symbolizer) (event : StacktraceEvent) :
    eventHandlerRust symbolizer eventSize event = some (sampleLines symbolizer event) := by
  have htrace (stack : StackTrace) {v : StackSize} (h : 0 < v.sz.toInt) (pid : BitVec 32) :
      (entries stack ((v.sz.signExtend 64).toNat / 8)).map (fun addrs => showStackTraceRust symbolizer addrs pid) =
        some (stackLines symbolizer pid (addresses stack v)) := by
    obtain ⟨n, hn, hnat, hv⟩ := StackSize.toNat_eq h
    have hn' : n ≤ 128 := hn
    rw [toNat_signExtend (by omega), hnat, Nat.mul_div_cancel_left n (by decide), entries_addresses stack hn hv,
      Option.map_some, showStackTraceRust_eq]
  rw [eventHandlerRust, if_neg (not_not.mpr rfl)]
  exact handleSample_eq (fun h => htrace event.kstack h 0#32) fun h => htrace event.ustack h event.pid

/-! ### An address zero -/

theorem showEntryC_eq {inputAddr : BitVec 64} {s : Symbolized} (h : inputAddr = 0#64 → s = .unknown) :
    showEntryC inputAddr (some s) = entryLines inputAddr s := by
  cases s with
  | unknown => rfl
  | sym name addr offset inlined =>
    have hne : inputAddr ≠ 0#64 := fun h0 => by cases h h0
    simp [showEntryC, entryLines, printFrameC, hne]

theorem stackLinesC_eq {symbolizer : Symbolizer} {pid : BitVec 32} {addrs : List (BitVec 64)}
    (h : ¬ NamesZero symbolizer pid addrs) : stackLinesC symbolizer pid addrs = stackLines symbolizer pid addrs := by
  unfold stackLinesC stackLines
  cases hs : symbolizer.symbolize (sourceOf pid) addrs with
  | none => rfl
  | some syms =>
    refine List.flatMap_congr fun p hp => showEntryC_eq fun h0 => ?_
    by_contra hne
    exact h ⟨syms, hs, p, hp, h0, hne⟩

/-- The C program never shows a new symbol at address zero. -/
theorem newSymbol_zero_notMem (symbolizer : Symbolizer) (pid : BitVec 32) (addrs : List (BitVec 64))
    (name : List UInt8) (addr offset : BitVec 64) :
    Line.newSymbol 0#64 name addr offset ∉ stackLinesC symbolizer pid addrs := by
  unfold stackLinesC
  cases symbolizer.symbolize (sourceOf pid) addrs with
  | none => simp
  | some syms =>
    simp only [List.mem_flatMap, not_exists, not_and]
    rintro ⟨a, s⟩ -
    cases s with
    | unknown => simp [showEntryC]
    | sym name' addr' offset' inlined =>
      by_cases h0 : a = 0#64
      · simp [showEntryC, printFrameC, h0]
      · simp [showEntryC, printFrameC, h0, Ne.symm h0]

theorem newSymbol_zero_mem {symbolizer : Symbolizer} {pid : BitVec 32} {addrs : List (BitVec 64)}
    (h : NamesZero symbolizer pid addrs) :
    ∃ name addr offset, Line.newSymbol 0#64 name addr offset ∈ stackLines symbolizer pid addrs := by
  obtain ⟨syms, hs, ⟨a, s⟩, hp, rfl, hne⟩ := h
  cases s with
  | unknown => exact absurd rfl hne
  | sym name addr offset inlined =>
    refine ⟨name, addr, offset, ?_⟩
    rw [stackLines, hs]
    exact List.mem_flatMap.mpr ⟨_, hp, by simp [entryLines]⟩

/-- The symbols of a sample are those of its stacks. -/
theorem newSymbol_mem_sampleWith {event : StacktraceEvent} {kernel user : List Line} {inputAddr addr offset : BitVec 64}
    {name : List UInt8} :
    Line.newSymbol inputAddr name addr offset ∈ (sampleWith event kernel user).2 ↔
      (0 < event.kstackSz.sz.toInt ∧ Line.newSymbol inputAddr name addr offset ∈ kernel) ∨
        (0 < event.ustackSz.sz.toInt ∧ Line.newSymbol inputAddr name addr offset ∈ user) := by
  unfold sampleWith
  by_cases h : event.kstackSz.sz.toInt ≤ 0 ∧ event.ustackSz.sz.toInt ≤ 0
  · simp [h]
  · rw [if_neg h]
    by_cases hk : 0 < event.kstackSz.sz.toInt <;> by_cases hu : 0 < event.ustackSz.sz.toInt <;> simp [hk, hu]

theorem sampleWith_congr {event : StacktraceEvent} {kernel kernel' user user' : List Line}
    (hk : 0 < event.kstackSz.sz.toInt → kernel = kernel') (hu : 0 < event.ustackSz.sz.toInt → user = user') :
    sampleWith event kernel user = sampleWith event kernel' user' := by
  unfold sampleWith
  split_ifs with h hkp hup hup
  · rfl
  · rw [hk hkp, hu hup]
  · rw [hk hkp]
  · rw [hu hup]
  · rfl

theorem eventHandlerC_ne {symbolizer : Symbolizer} {event : StacktraceEvent} (h : ShowsZero symbolizer event) :
    eventHandlerC symbolizer event ≠ some (sampleLines symbolizer event) := by
  obtain ⟨name, addr, offset, hmem⟩ :
      ∃ name addr offset, Line.newSymbol 0#64 name addr offset ∈ (sampleLines symbolizer event).2 := by
    rcases h with ⟨hpos, hz⟩ | ⟨hpos, hz⟩
    · obtain ⟨name, addr, offset, hm⟩ := newSymbol_zero_mem hz
      exact ⟨name, addr, offset, newSymbol_mem_sampleWith.mpr (Or.inl ⟨hpos, hm⟩)⟩
    · obtain ⟨name, addr, offset, hm⟩ := newSymbol_zero_mem hz
      exact ⟨name, addr, offset, newSymbol_mem_sampleWith.mpr (Or.inr ⟨hpos, hm⟩)⟩
  rw [eventHandlerC_eq]
  intro he
  rw [← Option.some.inj he, newSymbol_mem_sampleWith] at hmem
  rcases hmem with ⟨-, hm⟩ | ⟨-, hm⟩ <;> exact newSymbol_zero_notMem _ _ _ _ _ _ hm

/-- The two programs show the same content of every sample, except exactly of those with
a symbol for an address zero. -/
theorem sameContent_iff (symbolizer : Symbolizer) (event : StacktraceEvent) :
    SameContent symbolizer event ↔ ¬ ShowsZero symbolizer event := by
  constructor
  · exact fun h hz => eventHandlerC_ne hz h.1
  · intro h
    refine ⟨?_, eventHandlerRust_eq symbolizer event⟩
    rw [eventHandlerC_eq]
    exact congrArg some (sampleWith_congr (fun hpos => stackLinesC_eq fun hz => h (Or.inl ⟨hpos, hz⟩))
      fun hpos => stackLinesC_eq fun hz => h (Or.inr ⟨hpos, hz⟩))

/-- A symbolizer that finds the symbol `v` at every address. -/
def Symbolizer.always : Symbolizer where
  symbolize _ addrs := some (addrs.map fun a => .sym [118] 0#64 a [])
  length_eq := by
    intro src addrs syms h
    rw [← Option.some.inj h, List.length_map]

/-- A kernel stack of one entry, zero. -/
def zeroSample : StacktraceEvent where
  pid := 1
  cpuId := 0
  kstackSz := ⟨8#32, Or.inr ⟨1, by decide, by decide⟩⟩
  ustackSz := ⟨-14#32, Or.inl (by decide)⟩
  kstack _ := 0#64
  ustack _ := 0#64

/-- The C program shows the symbol as an inlined frame. -/
theorem zeroSample_differs :
    eventHandlerC .always zeroSample =
        some (0, [.header 1 0, .kernel, .inlined [118], .noUserspaceStack, .blank]) ∧
      eventHandlerRust .always eventSize zeroSample =
        some (0, [.header 1 0, .kernel, .newSymbol 0#64 [118] 0#64 0#64, .noUserspaceStack, .blank]) ∧
      ¬ SameContent .always zeroSample := by
  have hC : eventHandlerC .always zeroSample =
      some (0, [.header 1 0, .kernel, .inlined [118], .noUserspaceStack, .blank]) := by decide
  have hRust : eventHandlerRust .always eventSize zeroSample =
      some (0, [.header 1 0, .kernel, .newSymbol 0#64 [118] 0#64 0#64, .noUserspaceStack, .blank]) := by decide
  refine ⟨hC, hRust, fun h => ?_⟩
  have hboth := h.1.trans h.2.symm
  rw [hC, hRust] at hboth
  exact absurd hboth (by decide)

end LibbpfBootstrap.Profile
