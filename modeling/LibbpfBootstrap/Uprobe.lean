import LibbpfBootstrap.Kernel.Runs
import LibbpfBootstrap.Libc.Text

/-! The traced loop of `uprobe.c`. The program calls two functions of its own again and
again, with growing arguments, and four probes report their entries and returns. The
probe at the entry of `uprobed_add` is attached to the process of `main`, the other three
to the binary, whoever runs it: processes that run it too show up in the trace, with the
return of a call of which the entry is missing.

The arguments are of type `int`. A result out of its range has no meaning in C, and the
square of the counter is the first to leave the range. -/

namespace LibbpfBootstrap.Uprobe

open Kernel.Runs Libc

def intMax : ℤ := 2147483647

def intMin : ℤ := -2147483648

/-- The value of an expression of type `int`. -/
def int (v : ℤ) : Option ℤ := if intMin ≤ v ∧ v ≤ intMax then some v else none

def uprobedAdd (a b : ℤ) : Option ℤ := int (a + b)

def uprobedSub (a b : ℤ) : Option ℤ := int (a - b)

/-! ### The probes -/

def uprobeAdd (a b : ℤ) : List UInt8 :=
  ascii "uprobed_add ENTRY: a = " ++ signedDecimal a ++ ascii ", b = " ++ signedDecimal b

def uretprobeAdd (ret : ℤ) : List UInt8 := ascii "uprobed_add EXIT: return = " ++ signedDecimal ret

def uprobeSub (a b : ℤ) : List UInt8 :=
  ascii "uprobed_sub ENTRY: a = " ++ signedDecimal a ++ ascii ", b = " ++ signedDecimal b

def uretprobeSub (ret : ℤ) : List UInt8 := ascii "uprobed_sub EXIT: return = " ++ signedDecimal ret

/-! ### The loop -/

/-- The body of the loop and the increment, in the process of the probes or in another:
the counter afterwards, and the lines. -/
def turn (own : Bool) (i : ℤ) : Option (ℤ × List (List UInt8)) := do
  let b ← int (i + 1)
  let sum ← uprobedAdd i b
  let square ← int (i * i)
  let difference ← uprobedSub square i
  let next ← int (i + 1)
  return (next, (if own then [uprobeAdd i b] else []) ++
    [uretprobeAdd sum, uprobeSub square i, uretprobeSub difference])

/-- A line of the trace, with the process that caused it. -/
structure Traced (P : Type*) where
  process : P
  text : List UInt8

variable {P : Type*} [DecidableEq P]

/-- The counters of the processes, as long as the program has a meaning. A step is a turn of one of them. -/
def step (own : P) : Option (P → ℤ) → P → Option (P → ℤ) × List (Traced P)
  | none, _ => (none, [])
  | some i, p =>
    match turn (p = own) (i p) with
    | none => (none, [])
    | some (next, lines) => (some (Function.update i p next), lines.map (⟨p, ·⟩))

/-- The counters when the probes are attached: another process may have begun before. -/
def start (began : P → ℕ) : Option (P → ℤ) := some fun p => began p

/-! ### One turn -/

/-- What the trace shows of a turn. -/
def turnLines (own : Bool) (i : ℕ) : List (List UInt8) :=
  (if own then [uprobeAdd i (i + 1)] else []) ++
    [uretprobeAdd (2 * i + 1), uprobeSub (i * i) i, uretprobeSub (i * i - i)]

section Runs

variable (own : P) {began : P → ℕ}

/-- What the trace shows of a process: its turns from one on, one after the other. -/
def shown (own p : P) (first n : ℕ) : List (Traced P) :=
  (List.range' first n).flatMap fun i => (turnLines (p = own) i).map (⟨p, ·⟩)

end Runs

end LibbpfBootstrap.Uprobe
