import LibbpfBootstrap.Kernel.Runs
import LibbpfBootstrap.Libc.Lines
import LibbpfBootstrap.Profile.TaskName

/-! The text that the two `profile` programs put on standard output, byte by byte: the
lines of `Profile.Render` with the name of the task, the numbers and the source locations.
One reader finds in the text of either program, for every sample that it shows, the task,
the process, the processor and the addresses of both stacks; only an address zero that has
a symbol is lost in the text of the C program. That the texts of blazesym and the names of
the tasks stay within a line is asked for where it is used. -/

namespace LibbpfBootstrap.Profile.Printed

open Kernel.Runs Libc

/-! ### Symbols with source locations -/

/-- What is known of an address. `I` is the form in which a program gets a location. -/
inductive Symbol (I : Type)
  | unknown
  | sym (name : List UInt8) (addr offset : BitVec 64) (codeInfo : I) (inlined : List (List UInt8 × I))

/-- blazesym: it fails with a text or returns one result for each address. -/
structure Blazesym (I : Type) where
  symbolize : Source → List (BitVec 64) → Except (List UInt8) (List (Symbol I))
  length_eq : ∀ src addrs syms, symbolize src addrs = .ok syms → syms.length = addrs.length

variable {I : Type}

def Symbol.plain : Symbol I → Symbolized
  | .unknown => .unknown
  | .sym name addr offset _ inlined => .sym name addr offset (inlined.map Prod.fst)

/-- The symbolizer of `Profile.Render`: without locations and the text of the error. -/
def Blazesym.plain (b : Blazesym I) : Symbolizer where
  symbolize src addrs := match b.symbolize src addrs with
    | .error _ => none
    | .ok syms => some (syms.map Symbol.plain)
  length_eq src addrs syms h := by
    cases hs : b.symbolize src addrs with
    | error err => simp [hs] at h
    | ok syms' =>
      rw [hs] at h
      rw [← Option.some.inj h, List.length_map, b.length_eq src addrs syms' hs]

/-- The texts in what is known of an address, where `texts` has those of a location. -/
def Symbol.texts (texts : I → List (List UInt8)) : Symbol I → List (List UInt8)
  | .unknown => []
  | .sym name _ _ codeInfo inlined => name :: (texts codeInfo ++ inlined.flatMap fun f => f.1 :: texts f.2)

/-- No text of a symbol or of a location has a newline. -/
def Blazesym.LineTexts (b : Blazesym I) (texts : I → List (List UInt8)) : Prop :=
  ∀ src addrs syms, b.symbolize src addrs = .ok syms → ∀ s ∈ syms, ∀ t ∈ s.texts texts, OneLine t

/-- No text of an error has a newline. -/
def Blazesym.LineErrors (b : Blazesym I) : Prop := ∀ src addrs err, b.symbolize src addrs = .error err → OneLine err

/-! ### The C program -/

/-- `blaze_symbolize_code_info`; its strings may be NULL. -/
structure CodeInfo where
  dir : Option (List UInt8)
  file : Option (List UInt8)
  line : BitVec 32

def CodeInfo.texts (codeInfo : CodeInfo) : List (List UInt8) := codeInfo.dir.toList ++ codeInfo.file.toList

/-- The location as both branches of `print_frame` print it, if they print one. -/
def CodeInfo.place : Option CodeInfo → Option (List UInt8)
  | some ⟨some dir, some file, line⟩ =>
    some (dir ++ ascii "/" ++ file ++ ascii ":" ++ decimal line.toNat)
  | some ⟨none, some file, line⟩ => some (file ++ ascii ":" ++ decimal line.toNat)
  | _ => none

def printFrameC (name : List UInt8) (inputAddr addr offset : BitVec 64) (codeInfo : Option CodeInfo) : List UInt8 :=
  if inputAddr ≠ 0#64 then
    padZero 16 (hexadecimal inputAddr.toNat) ++ ascii ": " ++ name ++ ascii " @ 0x" ++
      hexadecimal addr.toNat ++ ascii "+0x" ++ hexadecimal offset.toNat ++
      (CodeInfo.place codeInfo).elim [] (ascii " " ++ ·) ++ ascii "\n"
  else
    ascii "                " ++ ascii "  " ++ name ++
      (CodeInfo.place codeInfo).elim (ascii "[inlined]") (ascii "@ " ++ · ++ ascii " [inlined]") ++ ascii "\n"

/-- One turn of the loop. -/
def showEntryC (inputAddr : BitVec 64) : Option (Symbol CodeInfo) → List UInt8
  | some (.sym name addr offset codeInfo inlined) =>
    printFrameC name inputAddr addr offset (some codeInfo) ++
      inlined.flatMap fun f => printFrameC f.1 0#64 0#64 0#64 (some f.2)
  | _ => padZero 16 (hexadecimal inputAddr.toNat) ++ ascii ": <no-symbol>" ++ ascii "\n"

def showStackTraceC (b : Blazesym CodeInfo) (stack : StackTrace) (stackSz pid : BitVec 32) : Option (List UInt8) :=
  (entries stack (stackSz.signExtend 64).toNat).map fun addrs =>
    match b.symbolize (if pid ≠ 0#32 then .process pid else .kernel) addrs with
    | .error err => ascii "  failed to symbolize addresses: " ++ err ++ ascii "\n"
    | .ok syms => (List.range stackSz.toInt.toNat).flatMap fun i => showEntryC (addrs.getD i 0#64) syms[i]?

/-! ### The Rust program -/

/-- `CodeInfo` of blazesym, with its path as it is displayed. -/
structure RustCodeInfo where
  path : List UInt8
  line : Option (BitVec 32)
  column : Option (BitVec 16)

def RustCodeInfo.texts (codeInfo : Option RustCodeInfo) : List (List UInt8) :=
  (codeInfo.map RustCodeInfo.path).toList

def RustCodeInfo.place (codeInfo : RustCodeInfo) : List UInt8 :=
  match codeInfo.line, codeInfo.column with
  | some line, some col =>
    ascii " " ++ codeInfo.path ++ ascii ":" ++ decimal line.toNat ++ ascii ":" ++ decimal col.toNat
  | some line, none => ascii " " ++ codeInfo.path ++ ascii ":" ++ decimal line.toNat
  | none, _ => ascii " " ++ codeInfo.path

/-- The form `{:#016x}`, whose width counts the mark. -/
def marked (addr : BitVec 64) : List UInt8 := ascii "0x" ++ padZero 14 (hexadecimal addr.toNat)

def printFrameRust (name : List UInt8) (addrInfo : Option (BitVec 64 × BitVec 64 × BitVec 64))
    (codeInfo : Option RustCodeInfo) : List UInt8 :=
  match addrInfo with
  | some (inputAddr, addr, offset) =>
    marked inputAddr ++ ascii ": " ++ name ++ ascii " @ 0x" ++ hexadecimal addr.toNat ++ ascii "+0x" ++
      hexadecimal offset.toNat ++ codeInfo.elim [] RustCodeInfo.place ++ ascii "\n"
  | none =>
    ascii "                " ++ ascii "  " ++ name ++
      codeInfo.elim [] (fun info => ascii " @" ++ info.place) ++ ascii " [inlined]" ++ ascii "\n"

def showEntryRust (inputAddr : BitVec 64) : Symbol (Option RustCodeInfo) → List UInt8
  | .sym name addr offset codeInfo inlined =>
    printFrameRust name (some (inputAddr, addr, offset)) codeInfo ++
      inlined.flatMap fun f => printFrameRust f.1 none f.2
  | .unknown => marked inputAddr ++ ascii ": <no-symbol>" ++ ascii "\n"

/-- The error goes to standard error. -/
def showStackTraceRust (b : Blazesym (Option RustCodeInfo)) (stack : List (BitVec 64)) (pid : BitVec 32) :
    List UInt8 :=
  match b.symbolize (if pid = 0#32 then .kernel else .process pid) stack with
  | .error _ => []
  | .ok syms => (stack.zip syms).flatMap fun p => showEntryRust p.1 p.2

/-! ### The handlers -/

/-- The part of the output for one stack: its title and its trace, or a line that says it is missing. -/
def stackText (size : BitVec 32) (title missing : String) (trace : Option (List UInt8)) : Option (List UInt8) :=
  if 0 < size.toInt then trace.map (ascii title ++ ascii "\n" ++ ·) else some (ascii missing ++ ascii "\n")

/-- The common body of the two handlers. -/
def handleSample (header : List UInt8) (showTrace : StackTrace → BitVec 32 → BitVec 32 → Option (List UInt8))
    (event : StacktraceEvent) : Option (ℕ × List UInt8) :=
  if event.kstackSz.sz.toInt ≤ 0 ∧ event.ustackSz.sz.toInt ≤ 0 then some (1, [])
  else do
    let kernel ← stackText event.kstackSz.sz "Kernel:" "No Kernel Stack"
      (showTrace event.kstack event.kstackSz.sz 0#32)
    let user ← stackText event.ustackSz.sz "Userspace:" "No Userspace Stack"
      (showTrace event.ustack event.ustackSz.sz event.pid)
    some (0, header ++ (kernel ++ user ++ ascii "\n"))

/-- The header with its two numbers, `%d` of an unsigned field in C. -/
def header (name : List UInt8) (pid cpuId : ℤ) : List UInt8 :=
  ascii "COMM: " ++ name ++ ascii " (pid=" ++ signedDecimal pid ++ ascii ") @ CPU " ++ signedDecimal cpuId

def eventHandlerC (b : Blazesym CodeInfo) (e : TaskSample) : Option (ℕ × List UInt8) :=
  handleSample (header (nameC e) e.event.pid.toInt e.event.cpuId.toInt ++ ascii "\n")
    (fun stack sz pid => showStackTraceC b stack ((sz.signExtend 64 / 8#64).setWidth 32) pid) e.event

def eventHandlerRust (b : Blazesym (Option RustCodeInfo)) (len : ℕ) (e : TaskSample) : Option (ℕ × List UInt8) :=
  if len ≠ eventSize then some (1, [])
  else handleSample (header (nameRust e) e.event.pid.toNat e.event.cpuId.toNat ++ ascii "\n")
    (fun stack sz pid => (entries stack ((sz.signExtend 64).toNat / 8)).map fun addrs => showStackTraceRust b addrs pid)
    e.event

/-- The output of a handler that is called for one sample after the other. -/
def printed {E : Type*} (handler : E → Option (ℕ × List UInt8)) : List E → Option (List UInt8)
  | [] => some []
  | e :: es => do
    let (_, text) ← handler e
    let rest ← printed handler es
    some (text ++ rest)

/-! ### The reader -/

/-- What a line of the output is. -/
inductive Kind
  | header (name : List UInt8) (pid cpuId : ℤ)
  | kernel | userspace | absent
  | frame (addr : BitVec 64)
  | other
  | blank
  deriving DecidableEq

/-- The parts of a header, found from its end because the name may hold anything. -/
def readHeader (line : List UInt8) : Kind :=
  let (cpuId, r) := splitSigned line.reverse
  let (pid, r) := splitSigned (r.drop (ascii ") @ CPU ").length)
  .header ((r.drop (ascii " (pid=").length).reverse.drop (ascii "COMM: ").length) pid cpuId

/-- The first byte tells the lines apart. -/
def kind : List UInt8 → Kind
  | [] => .blank
  | c :: s =>
    if c = 32 then .other
    else if c = 67 then readHeader (c :: s)
    else if c = 75 then .kernel
    else if c = 85 then .userspace
    else if c = 78 then .absent
    else .frame (BitVec.ofNat 64 (readHex (c :: s)))

/-- What is seen of a sample: a stack is absent or has these addresses. -/
structure Seen where
  name : List UInt8
  pid : ℤ
  cpuId : ℤ
  kernel : Option (List (BitVec 64))
  user : Option (List (BitVec 64))
  deriving DecidableEq

/-- A further address, of the stack that was begun last. -/
def Seen.push (s : Seen) (addr : BitVec 64) : Seen :=
  match s.user with
  | some addrs => { s with user := some (addrs ++ [addr]) }
  | none => { s with kernel := s.kernel.map (· ++ [addr]) }

/-- The sample that is being read; an empty line ends it. -/
def readLine (s : Seen) : Kind → Seen × List Seen
  | .header name pid cpuId => (⟨name, pid, cpuId, none, none⟩, [])
  | .kernel => ({ s with kernel := some [] }, [])
  | .userspace => ({ s with user := some [] }, [])
  | .frame addr => (s.push addr, [])
  | .absent => (s, [])
  | .other => (s, [])
  | .blank => (s, [s])

def read (text : List UInt8) : List Seen := outputs readLine ⟨[], 0, 0, none, none⟩ ((lines text).map kind)

/-! ### The kinds of the lines -/

theorem not_mark_of_isHexByte {c : UInt8} (h : isHexByte c = true) : c ≠ 32 ∧ c ≠ 67 ∧ c ≠ 75 ∧ c ≠ 85 ∧ c ≠ 78 := by
  refine ⟨?_, ?_, ?_, ?_, ?_⟩ <;>
  · rintro rfl
    exact absurd h (by decide)

theorem kind_frame {p : List UInt8} (hne : p ≠ []) (hp : ∀ c ∈ p, isHexByte c = true) (t : List UInt8) :
    kind (p ++ 58 :: t) = .frame (BitVec.ofNat 64 (hexValue (p.filter isHexDigit))) := by
  have hread := readHex_append hp (by decide : isHexByte 58 = false) t
  obtain ⟨c, s, rfl⟩ := List.exists_cons_of_ne_nil hne
  obtain ⟨h1, h2, h3, h4, h5⟩ := not_mark_of_isHexByte (hp c List.mem_cons_self)
  rw [← hread, List.cons_append, kind, if_neg h1, if_neg h2, if_neg h3, if_neg h4, if_neg h5]

theorem kind_padZero (addr : BitVec 64) (t : List UInt8) :
    kind (padZero 16 (hexadecimal addr.toNat) ++ 58 :: t) = .frame addr := by
  have hdigits := isHexDigit_of_mem_padZero 16 (isHexDigit_of_mem_hexadecimal addr.toNat)
  have hne : padZero 16 (hexadecimal addr.toNat) ≠ [] := by
    intro h
    have hlen := congrArg List.length h
    rw [padZero, List.length_append, List.length_replicate, List.length_nil] at hlen
    omega
  rw [kind_frame hne (fun c hc => Bool.or_eq_true_iff.mpr (Or.inl (hdigits c hc))), List.filter_eq_self.mpr hdigits,
    hexValue_padZero, hexValue_hexadecimal, BitVec.ofNat_toNat, BitVec.setWidth_eq]

theorem kind_marked (addr : BitVec 64) (t : List UInt8) : kind (marked addr ++ 58 :: t) = .frame addr := by
  have hdigits := isHexDigit_of_mem_padZero 14 (isHexDigit_of_mem_hexadecimal addr.toNat)
  have hbytes : ∀ c ∈ marked addr, isHexByte c = true := by
    intro c hc
    rcases List.mem_append.mp hc with hc | hc
    · exact List.all_eq_true.mp (by decide : (ascii "0x").all isHexByte = true) c hc
    · exact Bool.or_eq_true_iff.mpr (Or.inl (hdigits c hc))
  have hfilter : (marked addr).filter isHexDigit = 48 :: padZero 14 (hexadecimal addr.toNat) := by
    rw [marked, List.filter_append, List.filter_eq_self.mpr hdigits]
    rfl
  have hzero : hexValue (48 :: padZero 14 (hexadecimal addr.toNat)) =
      hexValue (padZero 14 (hexadecimal addr.toNat)) := rfl
  rw [kind_frame (by simp [marked, ascii]) hbytes, hfilter, hzero, hexValue_padZero, hexValue_hexadecimal,
    BitVec.ofNat_toNat, BitVec.setWidth_eq]

theorem kind_header (name : List UInt8) (pid cpuId : ℤ) : kind (header name pid cpuId) = .header name pid cpuId := by
  have hcpu : Stops ((ascii ") @ CPU ").reverse ++ ((signedDecimal pid).reverse ++ ((ascii " (pid=").reverse ++
      (name.reverse ++ (ascii "COMM: ").reverse)))) := Stops.append (by decide) _
  have hpid : Stops ((ascii " (pid=").reverse ++ (name.reverse ++ (ascii "COMM: ").reverse)) :=
    Stops.append (by decide) _
  have hread : kind (header name pid cpuId) = readHeader (header name pid cpuId) := rfl
  rw [hread, readHeader, header]
  simp only [List.reverse_append, List.append_assoc, splitSigned_reverse cpuId hcpu,
    List.drop_left' (List.length_reverse), splitSigned_reverse pid hpid, List.reverse_reverse, List.drop_left]

/-! ### What is printed are the lines of `Profile.Render` -/

/-- The kinds of the lines that are printed for a line, where `failed` are those for a
stack without symbols. -/
def lineKinds (name : List UInt8) (number : BitVec 32 → ℤ) (failed : List Kind) : Line → List Kind
  | .header pid cpuId => [.header name (number pid) (number cpuId)]
  | .kernel => [.kernel]
  | .userspace => [.userspace]
  | .noKernelStack => [.absent]
  | .noUserspaceStack => [.absent]
  | .failed => failed
  | .noSymbol inputAddr => [.frame inputAddr]
  | .newSymbol inputAddr _ _ _ => [.frame inputAddr]
  | .inlined _ => [.other]
  | .blank => [.blank]

theorem reads_of_kind {l : List UInt8} {k : Kind} (hl : OneLine l) (hk : kind l = k) :
    Reads kind (l ++ ascii "\n") [k] := hk ▸ reads_line hl

section Frames

variable {name : List UInt8} (hname : OneLine name) (inputAddr addr offset : BitVec 64)

theorem oneLine_placeC {codeInfo : CodeInfo} (h : ∀ t ∈ codeInfo.texts, OneLine t) :
    ∀ place ∈ CodeInfo.place (some codeInfo), OneLine place := by
  intro place hplace
  match codeInfo with
  | ⟨none, none, _⟩ => cases hplace
  | ⟨some _, none, _⟩ => cases hplace
  | ⟨none, some file, line⟩ =>
    have hfile := h file (by simp [CodeInfo.texts])
    obtain rfl := Option.some.inj hplace
    exact (hfile.append (by decide)).append (oneLine_decimal _)
  | ⟨some dir, some file, line⟩ =>
    have hdir := h dir (by simp [CodeInfo.texts])
    have hfile := h file (by simp [CodeInfo.texts])
    obtain rfl := Option.some.inj hplace
    exact (((hdir.append (by decide)).append hfile).append (by decide)).append (oneLine_decimal _)

theorem oneLine_placeRust {codeInfo : RustCodeInfo} (h : OneLine codeInfo.path) : OneLine codeInfo.place := by
  have hpath : OneLine (ascii " " ++ codeInfo.path) := OneLine.append (by decide) h
  unfold RustCodeInfo.place
  split
  · exact (((hpath.append (by decide)).append (oneLine_decimal _)).append (by decide)).append (oneLine_decimal _)
  · exact (hpath.append (by decide)).append (oneLine_decimal _)
  · exact hpath

include hname

theorem reads_printFrameC {codeInfo : CodeInfo} (h : ∀ t ∈ codeInfo.texts, OneLine t) :
    Reads kind (printFrameC name inputAddr addr offset (some codeInfo))
      [if inputAddr ≠ 0#64 then .frame inputAddr else .other] := by
  unfold printFrameC
  split_ifs with hinput
  · apply reads_of_kind
    · have hplace : OneLine ((CodeInfo.place (some codeInfo)).elim [] (ascii " " ++ ·)) :=
        OneLine.elim (by decide) fun p hp => OneLine.append (by decide) (oneLine_placeC h p hp)
      have haddr : OneLine (padZero 16 (hexadecimal inputAddr.toNat)) := (oneLine_hexadecimal _).padZero 16
      exact ((((((haddr.append (by decide)).append hname).append (by decide)).append
        (oneLine_hexadecimal _)).append (by decide)).append (oneLine_hexadecimal _)).append hplace
    · simp only [List.append_assoc]
      exact kind_padZero inputAddr _
  · apply reads_of_kind
    · have hplace : OneLine ((CodeInfo.place (some codeInfo)).elim (ascii "[inlined]")
          (ascii "@ " ++ · ++ ascii " [inlined]")) :=
        OneLine.elim (by decide) fun p hp => (OneLine.append (by decide) (oneLine_placeC h p hp)).append (by decide)
      exact (OneLine.append (by decide) hname).append hplace
    · rfl

theorem reads_printFrameRust_new {codeInfo : Option RustCodeInfo}
    (h : ∀ t ∈ RustCodeInfo.texts codeInfo, OneLine t) :
    Reads kind (printFrameRust name (some (inputAddr, addr, offset)) codeInfo) [.frame inputAddr] := by
  apply reads_of_kind
  · have hplace : OneLine (codeInfo.elim [] RustCodeInfo.place) :=
      OneLine.elim (by decide) fun info hinfo => oneLine_placeRust (h _ (by simp [RustCodeInfo.texts, Option.mem_def.mp hinfo]))
    have haddr : OneLine (marked inputAddr) := OneLine.append (by decide) ((oneLine_hexadecimal _).padZero 14)
    exact ((((((haddr.append (by decide)).append hname).append (by decide)).append
      (oneLine_hexadecimal _)).append (by decide)).append (oneLine_hexadecimal _)).append hplace
  · simp only [List.append_assoc]
    exact kind_marked inputAddr _

theorem reads_printFrameRust_inlined {codeInfo : Option RustCodeInfo}
    (h : ∀ t ∈ RustCodeInfo.texts codeInfo, OneLine t) :
    Reads kind (printFrameRust name none codeInfo) [.other] := by
  apply reads_of_kind
  · have hplace : OneLine (codeInfo.elim [] fun info => ascii " @" ++ info.place) :=
      OneLine.elim (by decide) fun info hinfo => OneLine.append (by decide)
        (oneLine_placeRust (h _ (by simp [RustCodeInfo.texts, Option.mem_def.mp hinfo])))
    exact ((OneLine.append (by decide) hname).append hplace).append (by decide)
  · rfl

end Frames

section Traces

variable {task : List UInt8} {number : BitVec 32 → ℤ} {failed : List Kind}

theorem lineKinds_printFrameC (name : List UInt8) (inputAddr addr offset : BitVec 64) :
    lineKinds task number failed (Profile.printFrameC name inputAddr addr offset) =
      [if inputAddr ≠ 0#64 then .frame inputAddr else .other] := by
  unfold Profile.printFrameC
  split_ifs <;> rfl

/-- The texts of a symbol: its name, its location, and those of the inlined frames. -/
theorem lineTexts_sym {texts : I → List (List UInt8)} {n : List UInt8} {addr offset : BitVec 64} {codeInfo : I}
    {inlined : List (List UInt8 × I)}
    (h : ∀ t ∈ (Symbol.sym n addr offset codeInfo inlined).texts texts, OneLine t) :
    OneLine n ∧ (∀ t ∈ texts codeInfo, OneLine t) ∧
      ∀ f ∈ inlined, OneLine f.1 ∧ ∀ t ∈ texts f.2, OneLine t := by
  rw [Symbol.texts, List.forall_mem_cons, List.forall_mem_append] at h
  obtain ⟨hn, hinfo, hinlined⟩ := h
  refine ⟨hn, hinfo, fun f hf => List.forall_mem_cons.mp fun t ht => hinlined t ?_⟩
  exact List.mem_flatMap.mpr ⟨f, hf, ht⟩

theorem reads_showEntryC (inputAddr : BitVec 64) {s : Option (Symbol CodeInfo)}
    (h : ∀ sym ∈ s, ∀ t ∈ sym.texts CodeInfo.texts, OneLine t) :
    Reads kind (showEntryC inputAddr s)
      ((Profile.showEntryC inputAddr (s.map Symbol.plain)).flatMap (lineKinds task number failed)) := by
  have hnone : Reads kind (padZero 16 (hexadecimal inputAddr.toNat) ++ ascii ": <no-symbol>" ++ ascii "\n")
      [.frame inputAddr] :=
    reads_of_kind (((oneLine_hexadecimal _).padZero 16).append (by decide)) (kind_padZero inputAddr _)
  match s with
  | none => exact hnone
  | some .unknown => exact hnone
  | some (.sym name addr offset codeInfo inlined) =>
    obtain ⟨hname, hinfo, htexts⟩ := lineTexts_sym (h _ rfl)
    have hinlined : Reads kind (inlined.flatMap fun f => printFrameC f.1 0#64 0#64 0#64 (some f.2))
        (inlined.flatMap fun _ => [Kind.other]) :=
      Reads.flatMap fun f hf => reads_printFrameC (htexts f hf).1 0#64 0#64 0#64 (htexts f hf).2
    simp only [Option.map_some, Symbol.plain, Profile.showEntryC, List.flatMap_cons, List.flatMap_map,
      lineKinds_printFrameC]
    exact (reads_printFrameC hname inputAddr addr offset hinfo).append hinlined

theorem reads_showEntryRust (inputAddr : BitVec 64) {s : Symbol (Option RustCodeInfo)}
    (h : ∀ t ∈ s.texts RustCodeInfo.texts, OneLine t) :
    Reads kind (showEntryRust inputAddr s)
      ((Profile.showEntryRust inputAddr s.plain).flatMap (lineKinds task number failed)) := by
  cases s with
  | unknown =>
    have haddr : OneLine (marked inputAddr) := OneLine.append (by decide) ((oneLine_hexadecimal _).padZero 14)
    exact reads_of_kind (haddr.append (by decide)) (kind_marked inputAddr _)
  | sym name addr offset codeInfo inlined =>
    obtain ⟨hname, hinfo, htexts⟩ := lineTexts_sym h
    have hinlined : Reads kind (inlined.flatMap fun f => printFrameRust f.1 none f.2)
        (inlined.flatMap fun _ => [Kind.other]) :=
      Reads.flatMap fun f hf => reads_printFrameRust_inlined (htexts f hf).1 (htexts f hf).2
    simp only [Symbol.plain, Profile.showEntryRust, List.flatMap_cons, List.flatMap_map]
    exact (reads_printFrameRust_new hname inputAddr addr offset hinfo).append hinlined

/-- The C program prints the lines of a stack whenever it comes to an end. -/
theorem reads_showStackTraceC {b : Blazesym CodeInfo} (hb : b.LineTexts CodeInfo.texts) (herr : b.LineErrors)
    {stack : StackTrace} {stackSz pid : BitVec 32} {ls : List Line}
    (h : Profile.showStackTraceC b.plain stack stackSz pid = some ls) :
    ∃ text, showStackTraceC b stack stackSz pid = some text ∧
      Reads kind text (ls.flatMap (lineKinds task number [.other])) := by
  unfold Profile.showStackTraceC at h
  obtain ⟨addrs, haddrs, rfl⟩ := Option.map_eq_some_iff.mp h
  refine ⟨_, by rw [showStackTraceC, haddrs, Option.map_some], ?_⟩
  dsimp only [Blazesym.plain]
  cases hs : b.symbolize (if pid ≠ 0#32 then .process pid else .kernel) addrs with
  | error err => exact reads_of_kind (OneLine.append (by decide) (herr _ _ _ hs)) rfl
  | ok syms =>
    simp only [List.flatMap_assoc, List.getElem?_map]
    exact Reads.flatMap fun i _ => reads_showEntryC (addrs.getD i 0#64) fun sym hsym =>
      hb _ _ _ hs sym (List.mem_of_getElem? hsym)

theorem reads_showStackTraceRust {b : Blazesym (Option RustCodeInfo)} (hb : b.LineTexts RustCodeInfo.texts)
    (stack : List (BitVec 64)) (pid : BitVec 32) :
    Reads kind (showStackTraceRust b stack pid)
      ((Profile.showStackTraceRust b.plain stack pid).flatMap (lineKinds task number [])) := by
  unfold showStackTraceRust Profile.showStackTraceRust
  dsimp only [Blazesym.plain]
  cases hs : b.symbolize (if pid = 0#32 then .kernel else .process pid) stack with
  | error err => exact reads_nil
  | ok syms =>
    simp only [List.zip_map_right, List.flatMap_map, List.flatMap_assoc]
    exact Reads.flatMap fun p hp => reads_showEntryRust p.1 (hb _ _ _ hs p.2 (List.of_mem_zip hp).2)

theorem reads_stackText {size : BitVec 32} {title missing : String} {trace : Option (List UInt8)} {ls : List Line}
    (begun absent : Line) (htitle : Reads kind (ascii title ++ ascii "\n") (lineKinds task number failed begun))
    (hmissing : Reads kind (ascii missing ++ ascii "\n") (lineKinds task number failed absent))
    (h : 0 < size.toInt → ∃ text, trace = some text ∧ Reads kind text (ls.flatMap (lineKinds task number failed))) :
    ∃ text, stackText size title missing trace = some text ∧
      Reads kind text ((if 0 < size.toInt then begun :: ls else [absent]).flatMap (lineKinds task number failed)) := by
  unfold stackText
  split_ifs with hsz
  · obtain ⟨text, rfl, htext⟩ := h hsz
    exact ⟨ascii title ++ ascii "\n" ++ text, rfl, htitle.append htext⟩
  · refine ⟨ascii missing ++ ascii "\n", rfl, ?_⟩
    rw [List.flatMap_cons, List.flatMap_nil, List.append_nil]
    exact hmissing

/-- A handler prints the lines of a sample if it prints those of the stacks. -/
theorem reads_handleSample {head : List UInt8}
    (showText : StackTrace → BitVec 32 → BitVec 32 → Option (List UInt8)) (event : StacktraceEvent)
    {kernel user : List Line}
    (hhead : Reads kind head [.header task (number event.pid) (number event.cpuId)])
    (hk : 0 < event.kstackSz.sz.toInt → ∃ text, showText event.kstack event.kstackSz.sz 0#32 = some text ∧
      Reads kind text (kernel.flatMap (lineKinds task number failed)))
    (hu : 0 < event.ustackSz.sz.toInt → ∃ text, showText event.ustack event.ustackSz.sz event.pid = some text ∧
      Reads kind text (user.flatMap (lineKinds task number failed))) :
    ∃ text, handleSample head showText event = some ((sampleWith event kernel user).1, text) ∧
      Reads kind text ((sampleWith event kernel user).2.flatMap (lineKinds task number failed)) := by
  unfold handleSample sampleWith
  by_cases h : event.kstackSz.sz.toInt ≤ 0 ∧ event.ustackSz.sz.toInt ≤ 0
  · rw [if_pos h, if_pos h]
    exact ⟨[], rfl, reads_nil⟩
  · rw [if_neg h, if_neg h]
    obtain ⟨ktext, hktext, hkernel⟩ := reads_stackText .kernel .noKernelStack
      (reads_of_kind (by decide : OneLine (ascii "Kernel:")) rfl)
      (reads_of_kind (by decide : OneLine (ascii "No Kernel Stack")) rfl) hk
    obtain ⟨utext, hutext, huser⟩ := reads_stackText .userspace .noUserspaceStack
      (reads_of_kind (by decide : OneLine (ascii "Userspace:")) rfl)
      (reads_of_kind (by decide : OneLine (ascii "No Userspace Stack")) rfl) hu
    have hblank : Reads kind (ascii "\n") [.blank] := reads_line (by decide : OneLine [])
    refine ⟨head ++ (ktext ++ utext ++ ascii "\n"), by rw [hktext, hutext]; rfl, ?_⟩
    rw [List.flatMap_cons, List.flatMap_append, List.flatMap_append]
    exact hhead.append ((hkernel.append huser).append hblank)

theorem oneLine_header {name : List UInt8} (h : OneLine name) (pid cpuId : ℤ) : OneLine (header name pid cpuId) := by
  have hname : OneLine (ascii "COMM: " ++ name) := OneLine.append (by decide) h
  exact (((hname.append (by decide)).append (oneLine_signedDecimal pid)).append (by decide)).append
    (oneLine_signedDecimal cpuId)

/-- The C program prints the lines that it has in `Profile.Render`. -/
theorem reads_eventHandlerC {b : Blazesym CodeInfo} (hb : b.LineTexts CodeInfo.texts) (herr : b.LineErrors)
    {e : TaskSample} (h : OneLine (nameC e)) :
    ∃ st ls text, Profile.eventHandlerC b.plain e.event = some (st, ls) ∧ eventHandlerC b e = some (st, text) ∧
      Reads kind text (ls.flatMap (lineKinds (nameC e) BitVec.toInt [.other])) := by
  have hhead := reads_of_kind (oneLine_header h e.event.pid.toInt e.event.cpuId.toInt) (kind_header _ _ _)
  obtain ⟨text, htext, hreads⟩ := reads_handleSample
    (fun stack sz pid => showStackTraceC b stack ((sz.signExtend 64 / 8#64).setWidth 32) pid) e.event hhead
    (fun hpos => reads_showStackTraceC hb herr (showStackTraceC_eq b.plain e.event.kstack hpos 0#32))
    (fun hpos => reads_showStackTraceC hb herr (showStackTraceC_eq b.plain e.event.ustack hpos e.event.pid))
  exact ⟨_, _, text, eventHandlerC_eq b.plain e.event, htext, hreads⟩

theorem reads_eventHandlerRust {b : Blazesym (Option RustCodeInfo)} (hb : b.LineTexts RustCodeInfo.texts)
    {e : TaskSample} (h : OneLine (nameRust e)) :
    ∃ st ls text, Profile.eventHandlerRust b.plain eventSize e.event = some (st, ls) ∧
      eventHandlerRust b eventSize e = some (st, text) ∧
      Reads kind text (ls.flatMap (lineKinds (nameRust e) (fun v => v.toNat) [])) := by
  have htrace (stack : StackTrace) (v : StackSize) (hpos : 0 < v.sz.toInt) (pid : BitVec 32) :
      ∃ text, (entries stack ((v.sz.signExtend 64).toNat / 8)).map (fun addrs => showStackTraceRust b addrs pid) =
          some text ∧
        Reads kind text ((stackLines b.plain pid (addresses stack v)).flatMap
          (lineKinds (nameRust e) (fun v => v.toNat) [])) := by
    obtain ⟨n, hn, hnat, hv⟩ := StackSize.toNat_eq hpos
    have hn' : n ≤ 128 := hn
    rw [toNat_signExtend (by omega), hnat, Nat.mul_div_cancel_left n (by decide), entries_addresses stack hn hv,
      ← showStackTraceRust_eq]
    exact ⟨_, rfl, reads_showStackTraceRust hb _ pid⟩
  have hhead := reads_of_kind (oneLine_header h e.event.pid.toNat e.event.cpuId.toNat) (kind_header _ _ _)
  obtain ⟨text, htext, hreads⟩ := reads_handleSample
    (fun stack sz pid => (entries stack ((sz.signExtend 64).toNat / 8)).map fun addrs => showStackTraceRust b addrs pid)
    e.event hhead (fun hpos => htrace e.event.kstack e.event.kstackSz hpos 0#32)
    (fun hpos => htrace e.event.ustack e.event.ustackSz hpos e.event.pid)
  refine ⟨_, _, text, eventHandlerRust_eq b.plain e.event, ?_, hreads⟩
  rw [eventHandlerRust, if_neg (not_not.mpr rfl)]
  exact htext

end Traces

/-! ### Reading a sample -/

/-- Lines of a trace with these addresses, and lines of other frames among them. -/
inductive Traces : List Kind → List (BitVec 64) → Prop
  | nil : Traces [] []
  | frame {ks : List Kind} {addrs : List (BitVec 64)} (addr : BitVec 64) (h : Traces ks addrs) :
      Traces (.frame addr :: ks) (addr :: addrs)
  | other {ks : List Kind} {addrs : List (BitVec 64)} (h : Traces ks addrs) : Traces (.other :: ks) addrs

theorem Traces.append {ks ls : List Kind} {as bs : List (BitVec 64)} (h : Traces ks as) (h' : Traces ls bs) :
    Traces (ks ++ ls) (as ++ bs) := by
  induction h with
  | nil => exact h'
  | frame addr _ ih => exact ih.frame addr
  | other _ ih => exact ih.other

theorem Traces.flatMap {α : Type*} {xs : List α} {ks : α → List Kind} {as : α → List (BitVec 64)}
    (h : ∀ x ∈ xs, Traces (ks x) (as x)) : Traces (xs.flatMap ks) (xs.flatMap as) := by
  induction xs with
  | nil => exact .nil
  | cons x xs ih =>
    rw [List.flatMap_cons, List.flatMap_cons]
    exact (h x List.mem_cons_self).append (ih fun y hy => h y (List.mem_cons_of_mem x hy))

theorem readLine_trace {ks : List Kind} {addrs : List (BitVec 64)} (h : Traces ks addrs) (s : Seen) :
    final readLine s ks = addrs.foldl Seen.push s ∧ outputs readLine s ks = [] := by
  induction h generalizing s with
  | nil => exact ⟨rfl, rfl⟩
  | frame addr _ ih => exact ih (s.push addr)
  | other _ ih => exact ih s

/-- Addresses that are pushed one after the other, where `part` has the stack that they belong to. -/
theorem foldl_push {part : Option (List (BitVec 64)) → Seen}
    (hpart : ∀ as a, (part (some as)).push a = part (some (as ++ [a]))) (as bs : List (BitVec 64)) :
    bs.foldl Seen.push (part (some as)) = part (some (as ++ bs)) := by
  induction bs generalizing as with
  | nil => rw [List.append_nil, List.foldl_nil]
  | cons b bs ih => rw [List.foldl_cons, hpart, ih, List.append_assoc, List.singleton_append]

/-- What is seen of a sample if these addresses are seen of its stacks. -/
def seenWith (name : List UInt8) (number : BitVec 32 → ℤ) (event : StacktraceEvent) (kernel user : List (BitVec 64)) :
    Option Seen :=
  if NoStacks event then none
  else some
    { name := name
      pid := number event.pid
      cpuId := number event.cpuId
      kernel := if 0 < event.kstackSz.sz.toInt then some kernel else none
      user := if 0 < event.ustackSz.sz.toInt then some user else none }

section Sample

variable {name : List UInt8} {number : BitVec 32 → ℤ} {failed : List Kind} {kernel user : List Line}
  {kaddrs uaddrs : List (BitVec 64)}

/-- The part of the output for one stack gives that part of what is seen. -/
theorem read_part (part : Option (List (BitVec 64)) → Seen)
    (hpart : ∀ as a, (part (some as)).push a = part (some (as ++ [a]))) (begun : Kind)
    (hbegun : readLine (part none) begun = (part (some []), [])) {ks : List Kind} {addrs : List (BitVec 64)}
    (h : Traces ks addrs) (size : ℤ) :
    final readLine (part none) (if 0 < size then begun :: ks else [.absent]) =
        part (if 0 < size then some addrs else none) ∧
      outputs readLine (part none) (if 0 < size then begun :: ks else [.absent]) = [] := by
  split_ifs
  · obtain ⟨hfinal, hout⟩ := readLine_trace h (part (some []))
    rw [final_cons, outputs_cons, hbegun, hfinal, hout, foldl_push hpart]
    exact ⟨rfl, rfl⟩
  · exact ⟨rfl, rfl⟩

theorem read_sample (event : StacktraceEvent) (hk : Traces (kernel.flatMap (lineKinds name number failed)) kaddrs)
    (hu : Traces (user.flatMap (lineKinds name number failed)) uaddrs) (s : Seen) :
    outputs readLine s ((sampleWith event kernel user).2.flatMap (lineKinds name number failed)) =
      (seenWith name number event kaddrs uaddrs).toList := by
  by_cases h : event.kstackSz.sz.toInt ≤ 0 ∧ event.ustackSz.sz.toInt ≤ 0
  · rw [sampleWith, if_pos h, seenWith, if_pos (show NoStacks event from h)]
    rfl
  · have hkernel : (if 0 < event.kstackSz.sz.toInt then Line.kernel :: kernel else [.noKernelStack]).flatMap
        (lineKinds name number failed) = if 0 < event.kstackSz.sz.toInt then
          .kernel :: kernel.flatMap (lineKinds name number failed) else [.absent] := apply_ite _ _ _ _
    have huser : (if 0 < event.ustackSz.sz.toInt then Line.userspace :: user else [.noUserspaceStack]).flatMap
        (lineKinds name number failed) = if 0 < event.ustackSz.sz.toInt then
          .userspace :: user.flatMap (lineKinds name number failed) else [.absent] := apply_ite _ _ _ _
    let seen := Seen.mk name (number event.pid) (number event.cpuId)
    obtain ⟨hkf, hko⟩ := read_part (seen · none) (fun _ _ => rfl) .kernel rfl hk event.kstackSz.sz.toInt
    obtain ⟨huf, huo⟩ := read_part (seen (if 0 < event.kstackSz.sz.toInt then some kaddrs else none)) (fun _ _ => rfl)
      .userspace rfl hu event.ustackSz.sz.toInt
    rw [sampleWith, if_neg h, seenWith, if_neg (show ¬ NoStacks event from h), List.flatMap_cons, List.flatMap_append,
      List.flatMap_append, hkernel, huser]
    -- the header makes the reader forget what it has read before
    show outputs readLine (seen none none) (_ ++ _ ++ [.blank]) = _
    rw [outputs_append, outputs_append, final_append, hko, hkf, huo, huf]
    rfl

end Sample

/-! ### The addresses that are shown -/

/-- The addresses that the C program shows of a stack: none if it gets no symbols, and not
those that are zero and have one. -/
def shownC (symbolizer : Symbolizer) (pid : BitVec 32) (addrs : List (BitVec 64)) : List (BitVec 64) :=
  match symbolizer.symbolize (sourceOf pid) addrs with
  | none => []
  | some syms => (addrs.zip syms).filterMap fun p => if p.1 ≠ 0#64 ∨ p.2 = .unknown then some p.1 else none

/-- The addresses that the Rust program shows of a stack: all of them if it gets symbols. -/
def shownRust (symbolizer : Symbolizer) (pid : BitVec 32) (addrs : List (BitVec 64)) : List (BitVec 64) :=
  match symbolizer.symbolize (sourceOf pid) addrs with
  | none => []
  | some _ => addrs

section Shown

variable {name : List UInt8} {number : BitVec 32 → ℤ} {failed : List Kind}

/-- Inlined frames have no addresses. -/
theorem traces_inlined (names : List (List UInt8)) : Traces (names.flatMap fun _ => [.other]) [] := by
  induction names with
  | nil => exact .nil
  | cons _ names ih => exact ih.other

theorem traces_showEntryC (inputAddr : BitVec 64) (s : Symbolized) :
    Traces ((Profile.showEntryC inputAddr (some s)).flatMap (lineKinds name number failed))
      (if inputAddr ≠ 0#64 ∨ s = .unknown then some inputAddr else none).toList := by
  cases s with
  | unknown =>
    rw [if_pos (Or.inr rfl)]
    exact Traces.nil.frame inputAddr
  | sym n addr offset inlined =>
    simp only [Profile.showEntryC, List.flatMap_cons, List.flatMap_map, lineKinds_printFrameC]
    have hinlined := traces_inlined inlined
    by_cases h : inputAddr = 0#64
    · have hlost : ¬ (inputAddr ≠ 0#64 ∨ Symbolized.sym n addr offset inlined = .unknown) := by
        rintro (hne | he)
        · exact hne h
        · cases he
      rw [if_neg (not_not.mpr h), if_neg hlost]
      exact hinlined.other
    · rw [if_pos h, if_pos (Or.inl h)]
      exact hinlined.frame inputAddr

theorem traces_stackLinesC (symbolizer : Symbolizer) (pid : BitVec 32) (addrs : List (BitVec 64)) :
    Traces ((stackLinesC symbolizer pid addrs).flatMap (lineKinds name number [.other]))
      (shownC symbolizer pid addrs) := by
  unfold stackLinesC shownC
  cases symbolizer.symbolize (sourceOf pid) addrs with
  | none => exact Traces.nil.other
  | some syms =>
    dsimp only
    rw [List.flatMap_assoc, List.filterMap_eq_flatMap_toList]
    exact Traces.flatMap fun p _ => traces_showEntryC p.1 p.2

theorem traces_entryLines (inputAddr : BitVec 64) (s : Symbolized) :
    Traces ((entryLines inputAddr s).flatMap (lineKinds name number failed)) [inputAddr] := by
  cases s with
  | unknown => exact Traces.nil.frame inputAddr
  | sym n addr offset inlined =>
    rw [entryLines, List.flatMap_cons, List.flatMap_map]
    exact (traces_inlined inlined).frame inputAddr

theorem traces_stackLines (symbolizer : Symbolizer) (pid : BitVec 32) (addrs : List (BitVec 64)) :
    Traces ((stackLines symbolizer pid addrs).flatMap (lineKinds name number [])) (shownRust symbolizer pid addrs) := by
  unfold stackLines shownRust
  cases hs : symbolizer.symbolize (sourceOf pid) addrs with
  | none => exact Traces.nil
  | some syms =>
    have hzip : (addrs.zip syms).flatMap (fun p => [p.1]) = addrs := by
      rw [← List.map_eq_flatMap, List.map_fst_zip (symbolizer.length_eq _ _ _ hs).ge]
    dsimp only
    rw [List.flatMap_assoc]
    nth_rewrite 2 [← hzip]
    exact Traces.flatMap fun p _ => traces_entryLines p.1 p.2

end Shown

/-! ### Reading the whole output -/

/-- What is seen in the output is what is seen of the samples, one after the other. -/
theorem read_printed {E : Type*} {handler : E → Option (ℕ × List UInt8)} {seen : E → Option Seen} {es : List E}
    (h : ∀ e ∈ es, ∃ st text ks, handler e = some (st, text) ∧ Reads kind text ks ∧
      ∀ s, outputs readLine s ks = (seen e).toList) :
    (printed handler es).map read = some (es.filterMap seen) := by
  have hall : ∃ text ks, printed handler es = some text ∧ Reads kind text ks ∧
      ∀ s, outputs readLine s ks = es.filterMap seen := by
    induction es with
    | nil => exact ⟨[], [], rfl, reads_nil, fun _ => rfl⟩
    | cons e es ih =>
      obtain ⟨st, text, ks, htext, hreads, hseen⟩ := h e List.mem_cons_self
      obtain ⟨rest, ls, hrest, hreads', hseen'⟩ := ih fun e' he' => h e' (List.mem_cons_of_mem e he')
      refine ⟨text ++ rest, ks ++ ls, ?_, hreads.append hreads', fun s => ?_⟩
      · rw [printed, htext, Option.bind_eq_bind, Option.bind_some, hrest]
        rfl
      · rw [outputs_append, hseen, hseen', List.filterMap_eq_flatMap_toList, List.filterMap_eq_flatMap_toList,
          List.flatMap_cons]
  obtain ⟨text, ks, htext, hreads, hseen⟩ := hall
  rw [htext, Option.map_some, read, hreads.map_lines, hseen]

/-- What the C program shows of a sample. -/
def seenC (b : Blazesym CodeInfo) (e : TaskSample) : Option Seen :=
  seenWith e.comm.cstr BitVec.toInt e.event (shownC b.plain 0#32 (addresses e.event.kstack e.event.kstackSz))
    (shownC b.plain e.event.pid (addresses e.event.ustack e.event.ustackSz))

/-- What the Rust program shows of a sample. -/
def seenRust (b : Blazesym (Option RustCodeInfo)) (e : TaskSample) : Option Seen :=
  seenWith (nameRust e) (fun v => v.toNat) e.event
    (shownRust b.plain 0#32 (addresses e.event.kstack e.event.kstackSz))
    (shownRust b.plain e.event.pid (addresses e.event.ustack e.event.ustackSz))

/-- Every output of the C program can be read, where no text in it has a newline: it tells of
each sample with a stack the task, the process, the processor and the addresses. -/
theorem read_printedC (es : List (Blazesym CodeInfo × TaskSample)) (h : ∀ r ∈ es, OneLine r.2.comm.cstr)
    (hb : ∀ r ∈ es, r.1.LineTexts CodeInfo.texts ∧ r.1.LineErrors) :
    (printed (fun r => eventHandlerC r.1 r.2) es).map read = some (es.filterMap fun r => seenC r.1 r.2) := by
  refine read_printed fun r hr => ?_
  have hname : OneLine (nameC r.2) := nameC_eq r.2 ▸ h r hr
  obtain ⟨st, ls, text, hls, htext, hreads⟩ := reads_eventHandlerC (hb r hr).1 (hb r hr).2 hname
  refine ⟨st, text, _, htext, hreads, fun s => ?_⟩
  rw [eventHandlerC_eq] at hls
  obtain rfl : _ = ls := congrArg Prod.snd (Option.some.inj hls)
  rw [read_sample r.2.event (traces_stackLinesC r.1.plain _ _) (traces_stackLinesC r.1.plain _ _) s, nameC_eq]
  rfl

/-- A symbolizer that finds at every address the symbol `v` and the frame `w` inlined in it. -/
def Blazesym.always (codeInfo : I) : Blazesym I where
  symbolize _ addrs := .ok (addrs.map fun a =>
    .sym [118] a 0#64 codeInfo [([119], codeInfo)])
  length_eq := by
    intro src addrs syms h
    rw [← Except.ok.inj h, List.length_map]

theorem lineTexts_always {codeInfo : I} {texts : I → List (List UInt8)} (h : ∀ t ∈ texts codeInfo, OneLine t) :
    (Blazesym.always codeInfo).LineTexts texts := by
  intro src addrs syms hs s hsym t ht
  rw [← Except.ok.inj hs] at hsym
  obtain ⟨a, -, rfl⟩ := List.mem_map.mp hsym
  simp only [Symbol.texts, List.flatMap_cons, List.flatMap_nil, List.append_nil, List.mem_cons, List.mem_append] at ht
  rcases ht with rfl | ht | rfl | ht
  · decide
  · exact h t ht
  · decide
  · exact h t ht

theorem lineErrors_always (codeInfo : I) : (Blazesym.always codeInfo).LineErrors := by
  intro src addrs err hs
  cases hs

/-- A kernel stack with one address. -/
def kernelSample (name : List UInt8) (slot : Kernel.CharBuf taskCommLen) : TaskSample :=
  { sampleOf (.put name) slot with event := { zeroSample with kstack := fun _ => 0xffffffff81000000#64 } }

theorem read_printedC_bash :
    OneLine (kernelSample (ascii "bash") stale).comm.cstr ∧
      (printed (fun r => eventHandlerC r.1 r.2)
          [(Blazesym.always ⟨none, some (ascii "v.c"), 3#32⟩, kernelSample (ascii "bash") stale)]).map read =
        some [⟨ascii "bash", 1, 0, some [0xffffffff81000000#64], none⟩] := by
  refine ⟨by decide, (read_printedC _ (by decide) fun r hr => ?_).trans (by decide)⟩
  rw [List.mem_singleton.mp hr]
  exact ⟨lineTexts_always (by decide), lineErrors_always _⟩

/-- What the handler of the Rust program prints can be read, too, if what it takes for names
and the texts of blazesym stay within the line. -/
theorem read_printedRust (es : List (Blazesym (Option RustCodeInfo) × TaskSample))
    (h : ∀ r ∈ es, OneLine (nameRust r.2)) (hb : ∀ r ∈ es, r.1.LineTexts RustCodeInfo.texts) :
    (printed (fun r => eventHandlerRust r.1 eventSize r.2) es).map read =
      some (es.filterMap fun r => seenRust r.1 r.2) := by
  refine read_printed fun r hr => ?_
  obtain ⟨st, ls, text, hls, htext, hreads⟩ := reads_eventHandlerRust (hb r hr) (h r hr)
  refine ⟨st, text, _, htext, hreads, fun s => ?_⟩
  rw [eventHandlerRust_eq] at hls
  obtain rfl : _ = ls := congrArg Prod.snd (Option.some.inj hls)
  exact read_sample r.2.event (traces_stackLines r.1.plain _ _) (traces_stackLines r.1.plain _ _) s

theorem read_printedRust_unknown :
    OneLine (nameRust (kernelSample (ascii "bash") stale)) ∧
      (printed (fun r => eventHandlerRust r.1 eventSize r.2)
          [(Blazesym.always none, kernelSample (ascii "bash") stale)]).map read =
        some [⟨ascii "<unknown>", 1, 0, some [0xffffffff81000000#64], none⟩] := by
  refine ⟨by decide, (read_printedRust _ (by decide) fun r hr => ?_).trans (by decide)⟩
  rw [List.mem_singleton.mp hr]
  exact lineTexts_always (by decide)

/-- The name `bash` is printed with what its field held before, here newlines, and ten samples
more are seen than there are. -/
example : (printed (fun r => eventHandlerRust r.1 eventSize r.2)
    [(Blazesym.always none, kernelSample (ascii "bash") fun _ => newline)]).map (fun text => (read text).length) =
      some 11 := by
  decide

end LibbpfBootstrap.Profile.Printed
