import LibbpfBootstrap.Elf.Object
import LibbpfBootstrap.Libc.Text

/-! Where tracecon attaches its uprobes. `get_symbol_address` of `main.rs` takes the
first entry of the dynamic symbol table that has the name, and returns its virtual
address; `main` hands that to `attach_uprobe` as an offset in the file. The entry may
be an import, and the segment of a definition may be loaded at another address than
its offset. -/

namespace LibbpfBootstrap.Tracecon

open Elf Libc

/-! ### The program -/

/-- The files of a host: what `fs::read` and `object::File::parse` make of them. Errors
are their texts. -/
structure Files where
  read : List UInt8 → Option (List UInt8)
  parse : List UInt8 → Except (List UInt8) SharedObject

def Files.load (files : Files) (soPath : List UInt8) : Except (List UInt8) SharedObject :=
  match files.read soPath with
  | none => .error (ascii "could not read file `" ++ soPath ++ ascii "`")
  | some buffer => files.parse buffer

/-- `usize` has 64 bits. -/
def getSymbolAddress (files : Files) (soPath fnName : List UInt8) : Except (List UInt8) (BitVec 64) := do
  let file ← files.load soPath
  -- the search does not ask whether the entry is defined
  let found := file.dynamicSymbols.find? fun symbol =>
    match symbol.name with
    | some name => name == fnName
    | none => false
  match found with
  | none => .error (ascii "symbol not found")
  | some symbol => .ok symbol.address

inductive Prog
  | getaddrinfoEnter | getaddrinfoExit | tcpV4ConnectEnter | tcpV4ConnectExit
  deriving DecidableEq

inductive Attachment
  | uprobe (prog : Prog) (retprobe : Bool) (pid : ℤ) (path : List UInt8) (offset : BitVec 64)
  | kprobe (prog : Prog) (retprobe : Bool) (fn : List UInt8)
  deriving DecidableEq

/-- What `main` meets: whether the limit can be raised and the programs opened and
loaded, the files, and the attachments that are granted. -/
structure Host where
  loads : Bool
  files : Files
  grants : Attachment → Bool

/-- The attachments that are asked for, in turn, up to the first refusal. -/
def Host.attachAll (host : Host) : List Attachment → List Attachment
  | [] => []
  | a :: as => a :: if host.grants a then host.attachAll as else []

/-- What `main` asks to be attached. -/
def mainAttachments (host : Host) (glibc : List UInt8) : List Attachment :=
  if host.loads = false then []
  else
    match getSymbolAddress host.files glibc (ascii "getaddrinfo") with
    | .error _ => []
    | .ok address => host.attachAll
        [.uprobe .getaddrinfoEnter false (-1) glibc address, .uprobe .getaddrinfoExit true (-1) glibc address,
          .kprobe .tcpV4ConnectEnter false (ascii "tcp_v4_connect"),
          .kprobe .tcpV4ConnectExit true (ascii "tcp_v4_connect")]

/-! ### What it is for -/

/-- The uprobes are attached to the code of the named function: the value found for it
is the file offset of a definition, an import alone is an error, and `main` passes
the value on. -/
structure AttachesToCode (host : Host) (soPath fnName : List UInt8) (o : SharedObject) : Prop where
  offset : o.HasCode fnName →
    ∃ address, getSymbolAddress host.files soPath fnName = .ok address ∧ o.CodeAt fnName address.toNat
  undefined : o.OnlyUndefined fnName → ∃ text, getSymbolAddress host.files soPath fnName = .error text
  passed : ∀ prog retprobe pid path offset, .uprobe prog retprobe pid path offset ∈ mainAttachments host soPath →
    path = soPath ∧ getSymbolAddress host.files soPath (ascii "getaddrinfo") = .ok offset

/-- The first entry with the name, if there is one, is a definition, and it lies in a
segment that is loaded where it stands in the file. -/
def FirstAligned (o : SharedObject) (fnName : List UInt8) : Prop :=
  ∀ sym ∈ o.firstNamed fnName, sym.defined = true ∧
    ∃ seg ∈ o.segments, seg.Contains sym.address ∧ seg.offset = seg.vaddr

/-- At most one entry has the name, and if it is defined it lies in exactly one segment. -/
structure OnePlace (o : SharedObject) (fnName : List UInt8) : Prop where
  entry : ∀ sym ∈ o.dynamicSymbols, ∀ sym' ∈ o.dynamicSymbols,
    sym.name = some fnName → sym'.name = some fnName → sym = sym'
  segment : ∀ sym ∈ o.dynamicSymbols, sym.name = some fnName → sym.defined = true →
    ∃! seg, seg ∈ o.segments ∧ seg.Contains sym.address

/-! ### The search -/

theorem getSymbolAddress_eq {files : Files} {soPath : List UInt8} {o : SharedObject} (h : files.load soPath = .ok o)
    (fnName : List UInt8) :
    getSymbolAddress files soPath fnName =
      match o.firstNamed fnName with
      | none => .error (ascii "symbol not found")
      | some sym => .ok sym.address := by
  have hnamed : (fun symbol : Symbol => match symbol.name with | some name => name == fnName | none => false) =
      fun symbol => symbol.name == some fnName := by
    funext symbol
    cases symbol.name <;> rfl
  unfold getSymbolAddress SharedObject.firstNamed
  rw [h, hnamed]
  rfl

theorem mem_of_mem_attachAll {host : Host} {a : Attachment} {as : List Attachment} (h : a ∈ host.attachAll as) :
    a ∈ as := by
  induction as with
  | nil => exact h
  | cons b as ih =>
    rw [Host.attachAll] at h
    rcases List.mem_cons.mp h with rfl | h
    · exact List.mem_cons_self
    · split_ifs at h
      · exact List.mem_cons_of_mem b (ih h)
      · cases h

/-- `main` attaches its uprobes in the file that it searched, at what it found. -/
theorem uprobe_mem_mainAttachments {host : Host} {glibc path : List UInt8} {prog : Prog} {retprobe : Bool} {pid : ℤ}
    {offset : BitVec 64} (h : .uprobe prog retprobe pid path offset ∈ mainAttachments host glibc) :
    path = glibc ∧ getSymbolAddress host.files glibc (ascii "getaddrinfo") = .ok offset := by
  unfold mainAttachments at h
  split_ifs at h
  · cases h
  · cases ha : getSymbolAddress host.files glibc (ascii "getaddrinfo") with
    | error text =>
      rw [ha] at h
      cases h
    | ok address =>
      rw [ha] at h
      have hmem := mem_of_mem_attachAll h
      simp only [List.mem_cons, Attachment.uprobe.injEq, reduceCtorEq, List.not_mem_nil, or_false] at hmem
      rcases hmem with ⟨-, -, -, rfl, rfl⟩ | ⟨-, -, -, rfl, rfl⟩ <;> exact ⟨rfl, rfl⟩

theorem attachesToCode_of_firstAligned (host : Host) {soPath : List UInt8} {o : SharedObject}
    (h : host.files.load soPath = .ok o) {fnName : List UInt8} (hfirst : FirstAligned o fnName) :
    AttachesToCode host soPath fnName o := by
  have hget := getSymbolAddress_eq h fnName
  refine ⟨fun hc => ?_, fun hu => ?_, fun _ _ _ _ _ => uprobe_mem_mainAttachments⟩
  · cases hsym : o.firstNamed fnName with
    | none => exact absurd hc (SharedObject.not_hasCode_of_firstNamed hsym)
    | some sym =>
      rw [hsym] at hget
      obtain ⟨hmem, hname⟩ := SharedObject.mem_of_firstNamed hsym
      obtain ⟨hdef, seg, hseg, hin, halign⟩ := hfirst sym hsym
      exact ⟨sym.address, hget, sym, hmem, hname, hdef, seg, hseg, hin, (Segment.fileOffset_eq_iff hin).mpr halign⟩
  · cases hsym : o.firstNamed fnName with
    | none =>
      rw [hsym] at hget
      exact ⟨_, hget⟩
    | some sym =>
      obtain ⟨hmem, hname⟩ := SharedObject.mem_of_firstNamed hsym
      exact absurd (hu sym hmem hname) (by simp [(hfirst sym hsym).1])

/-- For a name with one entry in one segment nothing less will do. -/
theorem firstAligned_of_attachesToCode {host : Host} {soPath : List UInt8} {o : SharedObject}
    (h : host.files.load soPath = .ok o) {fnName : List UInt8} (hone : OnePlace o fnName)
    (ha : AttachesToCode host soPath fnName o) : FirstAligned o fnName := by
  intro sym hsym
  obtain ⟨hmem, hname⟩ := SharedObject.mem_of_firstNamed hsym
  have hget : getSymbolAddress host.files soPath fnName = .ok sym.address := by
    rw [getSymbolAddress_eq h fnName, Option.mem_def.mp hsym]
  have hdef : sym.defined = true := by
    by_contra hd
    obtain ⟨text, ht⟩ := ha.undefined fun s hs hn => by
      rw [hone.entry s hs sym hmem hn hname]
      simpa using hd
    rw [hget] at ht
    cases ht
  obtain ⟨seg, ⟨hseg, hin⟩, -⟩ := hone.segment sym hmem hname hdef
  obtain ⟨address, hok, s, hs, hn, -, seg', hseg', hin', hoff⟩ :=
    ha.offset ⟨_, sym, hmem, hname, hdef, seg, hseg, hin, rfl⟩
  obtain rfl : sym.address = address := Except.ok.inj (hget.symm.trans hok)
  obtain rfl := hone.entry s hs sym hmem hn hname
  exact ⟨hdef, seg', hseg', hin', (Segment.fileOffset_eq_iff hin').mp hoff⟩

/-- The uprobes are on the code of the function when the first entry with its name is a
definition in a segment loaded at its offset, and where the name has one entry in one
segment only then. -/
theorem attachesToCode_firstAligned (host : Host) {soPath : List UInt8} {o : SharedObject}
    (h : host.files.load soPath = .ok o) (fnName : List UInt8) :
    (FirstAligned o fnName → AttachesToCode host soPath fnName o) ∧
      (OnePlace o fnName → (AttachesToCode host soPath fnName o ↔ FirstAligned o fnName)) :=
  ⟨attachesToCode_of_firstAligned host h, fun hone =>
    ⟨firstAligned_of_attachesToCode h hone, attachesToCode_of_firstAligned host h⟩⟩

/-! ### Two libraries -/

/-- An object in every file of a host that grants everything. -/
def Host.having (o : SharedObject) : Host := ⟨true, ⟨fun _ => some [], fun _ => .ok o⟩, fun _ => true⟩

/-- A library whose text is loaded at `vaddr` and stands in the file at 0x1000. -/
def libcAt (vaddr : BitVec 64) : SharedObject where
  segments := [⟨0#64, 0#64, 0x1000#64⟩, ⟨0x1000#64, vaddr, 0x1000#64⟩]
  dynamicSymbols := [⟨none, true, 0x30#64⟩, ⟨some (ascii "getaddrinfo"), true, vaddr + 0x10#64⟩]

theorem libcAt_firstAligned : FirstAligned (libcAt 0x1000) (ascii "getaddrinfo") := by
  intro sym hsym
  obtain rfl : (⟨some (ascii "getaddrinfo"), true, 0x1010#64⟩ : Symbol) = sym := Option.some.inj hsym
  exact ⟨rfl, ⟨0x1000#64, 0x1000#64, 0x1000#64⟩, List.mem_cons_of_mem _ List.mem_cons_self, by decide, rfl⟩

theorem attachesToCode_aligned :
    AttachesToCode (.having (libcAt 0x1000)) (ascii "libc.so.6") (ascii "getaddrinfo") (libcAt 0x1000) :=
  (attachesToCode_firstAligned (.having (libcAt 0x1000)) rfl (ascii "getaddrinfo")).1 libcAt_firstAligned

/-- A library that imports the function and does not define it. -/
def importer : SharedObject where
  segments := [⟨0#64, 0#64, 0x1000#64⟩]
  dynamicSymbols := [⟨some (ascii "getaddrinfo"), false, 0#64⟩]

/-- A library loaded elsewhere than it stands gets its probes at an address that is no
offset of the function, and an import is taken for a function at zero. -/
theorem attachesToCode_fails :
    (mainAttachments (.having (libcAt 0x2000)) (ascii "libc.so.6")).head? =
        some (.uprobe .getaddrinfoEnter false (-1) (ascii "libc.so.6") 0x2010#64) ∧
      (libcAt 0x2000).CodeAt (ascii "getaddrinfo") 0x1010 ∧
      ¬ AttachesToCode (.having (libcAt 0x2000)) (ascii "libc.so.6") (ascii "getaddrinfo") (libcAt 0x2000) ∧
      getSymbolAddress (Host.having importer).files (ascii "libc.so.6") (ascii "getaddrinfo") = .ok 0#64 ∧
      ¬ AttachesToCode (.having importer) (ascii "libc.so.6") (ascii "getaddrinfo") importer := by
  have hcode : (libcAt 0x2000).CodeAt (ascii "getaddrinfo") 0x1010 := by decide
  refine ⟨rfl, hcode, fun h => ?_, rfl, fun h => ?_⟩
  · obtain ⟨address, hget, hat⟩ := h.offset ⟨_, hcode⟩
    cases hget
    exact absurd hat (by decide)
  · obtain ⟨text, hget⟩ := h.undefined (by decide)
    cases hget

end LibbpfBootstrap.Tracecon
