import LibbpfBootstrap.Bootstrap.Linear
import LibbpfBootstrap.Bootstrap.MinDuration
import LibbpfBootstrap.Libc.Lines

/-! The table that bootstrap puts on the screen: a header from `main` and a row from each
call of `handle_event`. Every row can be read again: the columns up to the name of the task
have a fixed width, a number that is wider than its column only shifts what comes behind it,
and the file name is the rest of the line. So the screen gives the account of the firings,
however the handlers interleave. Lost are the blanks at the end of a name and what a duration
has below a millisecond. Names and files are asked to have no newline. -/

namespace LibbpfBootstrap.Bootstrap

open Kernel Kernel.Runs Libc

/-- The time of day in a `struct tm`, with room for a leap second. -/
structure Tm where
  hour : Fin 24
  min : Fin 60
  sec : Fin 61

/-- `strftime` with the format `%H:%M:%S`. -/
def strftime (tm : Tm) : List UInt8 :=
  padZero 2 (decimal tm.hour) ++ ascii ":" ++ padZero 2 (decimal tm.min) ++ ascii ":" ++ padZero 2 (decimal tm.sec)

/-- The line that `main` prints before its loop. -/
def tableHeader : List UInt8 :=
  padRight 8 (ascii "TIME") ++ ascii " " ++ padRight 5 (ascii "EVENT") ++ ascii " " ++ padRight 16 (ascii "COMM") ++
    ascii " " ++ padRight 7 (ascii "PID") ++ ascii " " ++ padRight 7 (ascii "PPID") ++ ascii " " ++
    ascii "FILENAME/EXIT CODE"

/-- What is on the screen after `handle_event` was called at these times. -/
def table (calls : List (Tm × Event)) : List UInt8 :=
  tableHeader ++ newline :: calls.flatMap fun c => handleEvent (strftime c.1) c.2

/-! ### The reader -/

/-- Nothing in the record ends the line. -/
def Record.OneLine : Record → Prop
  | .exec _ _ comm filename => Libc.OneLine comm ∧ Libc.OneLine filename
  | .exit _ _ _ _ comm => Libc.OneLine comm

instance : DecidablePred Record.OneLine
  | .exec _ _ comm filename => inferInstanceAs (Decidable (Libc.OneLine comm ∧ Libc.OneLine filename))
  | .exit _ _ _ _ comm => inferInstanceAs (Decidable (Libc.OneLine comm))

namespace Interleaved

variable {C : Type*} [DecidableEq C]

/-- What is on the screen after a run, where `clock` has the times of the calls. -/
def screen (m : BitVec 64) (as : List (Action C)) (clock : ℕ → Tm) : List UInt8 :=
  table ((handled m as).zipIdx.map fun c => (clock c.2, c.1))

end Interleaved

end LibbpfBootstrap.Bootstrap
