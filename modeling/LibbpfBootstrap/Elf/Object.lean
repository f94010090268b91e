import Mathlib.Data.BitVec
import Mathlib.Data.List.Basic
import Mathlib.Tactic.Common

/-! Shared objects, as far as a name leads to code. An entry of the dynamic symbol
table has a virtual address, and the loadable segment that the address lies in says
where in the file its bytes are. -/

namespace LibbpfBootstrap.Elf

/-- A loadable segment. -/
structure Segment where
  offset : BitVec 64
  vaddr : BitVec 64
  size : BitVec 64

/-- An entry of the dynamic symbol table; its name may be unreadable. -/
structure Symbol where
  name : Option (List UInt8)
  defined : Bool
  address : BitVec 64

structure SharedObject where
  segments : List Segment
  dynamicSymbols : List Symbol

namespace Segment

variable (seg : Segment)

def Contains (a : BitVec 64) : Prop := seg.vaddr.toNat ≤ a.toNat ∧ a.toNat < seg.vaddr.toNat + seg.size.toNat

instance (a : BitVec 64) : Decidable (seg.Contains a) := inferInstanceAs (Decidable (_ ∧ _))

/-- Where in the file the byte at an address of the segment is. -/
def fileOffset (a : BitVec 64) : ℕ := a.toNat - seg.vaddr.toNat + seg.offset.toNat

variable {seg}

/-- Addresses are file offsets exactly in a segment that is loaded where it stands. -/
theorem fileOffset_eq_iff {a : BitVec 64} (h : seg.Contains a) :
    seg.fileOffset a = a.toNat ↔ seg.offset = seg.vaddr := by
  have hle := h.1
  rw [fileOffset, ← BitVec.toNat_inj]
  omega

end Segment

namespace SharedObject

variable (o : SharedObject)

/-- The code of a defined entry with this name is at an offset of the file. -/
def CodeAt (name : List UInt8) (off : ℕ) : Prop :=
  ∃ sym ∈ o.dynamicSymbols, sym.name = some name ∧ sym.defined = true ∧
    ∃ seg ∈ o.segments, seg.Contains sym.address ∧ seg.fileOffset sym.address = off

instance (name : List UInt8) (off : ℕ) : Decidable (o.CodeAt name off) :=
  inferInstanceAs (Decidable (∃ sym ∈ o.dynamicSymbols, _))

/-- Some defined entry with this name lies in a segment. -/
def HasCode (name : List UInt8) : Prop := ∃ off, o.CodeAt name off

/-- No entry with this name is defined. -/
def OnlyUndefined (name : List UInt8) : Prop :=
  ∀ sym ∈ o.dynamicSymbols, sym.name = some name → sym.defined = false

instance (name : List UInt8) : Decidable (o.OnlyUndefined name) :=
  inferInstanceAs (Decidable (∀ sym ∈ o.dynamicSymbols, _))

/-- The first entry with this name, defined or not. -/
def firstNamed (name : List UInt8) : Option Symbol := o.dynamicSymbols.find? fun sym => sym.name == some name

variable {o} {name : List UInt8}

theorem mem_of_firstNamed {sym : Symbol} (h : o.firstNamed name = some sym) :
    sym ∈ o.dynamicSymbols ∧ sym.name = some name :=
  ⟨List.mem_of_find?_eq_some h, by simpa using List.find?_some h⟩

theorem firstNamed_eq_none : o.firstNamed name = none ↔ ∀ sym ∈ o.dynamicSymbols, sym.name ≠ some name := by
  simp [firstNamed]

/-- An object without an entry of the name has no code for it. -/
theorem not_hasCode_of_firstNamed (h : o.firstNamed name = none) : ¬ o.HasCode name := by
  rintro ⟨off, sym, hsym, hname, -⟩
  exact firstNamed_eq_none.mp h sym hsym hname

end SharedObject

end LibbpfBootstrap.Elf
