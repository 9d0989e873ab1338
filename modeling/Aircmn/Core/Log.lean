import Aircmn.Core.Base
import Aircmn.Lib.Descriptors

/-!
# Logger

The functions of `cmn_log.c` that open, close and write the log, on the static
`struct logger` and the descriptors of the process. A descriptor belongs to
the logger from the `open` that obtained it to the `close` that gives it up,
and otherwise to the rest of the program, which opens and closes descriptors
of its own at any time.

What a line of the log says is not part of this: `_log` is the test on the
descriptor, the write, and the count of errors. `log_stderr` writes to
standard error and counts its errors too. A panic ends the program and is the
last call of a run.

A write that goes neither to standard error nor to a descriptor of the
logger, and a close of anything but a descriptor of the logger, are noted in
`strays`.

## Main definitions

* `Logger`: `struct logger`.
* `FdOwner`, `LogCall`, `LogKernel`: The descriptors, and stray calls.
* `isConsole`: The test on the name of the log.
* `logOpen`, `logClose`, `logReopen`, `log`: The operations.
* `LogWorld`, `LogAct`, `logAct`: A logger in a program.
-/

namespace Aircmn

open Descriptors

/-- `MAX_FILENAME_LEN`. -/
def maxFilenameLen : Nat := 256

/-- `LOG_EMERG`, the lowest level. -/
def logEmerg : Int32 := 0

/-- `LOG_VERBOSE`, the highest. -/
def logVerbose : Int32 := 7

/-- `STDERR_FILENO`. -/
def stderrFileno : Int32 := 2

/-- `struct logger`. -/
structure Logger where
  name : List UInt8
  level : Int32
  fd : Int32
  nerror : Int32

/-- Whose a descriptor is. -/
inductive FdOwner where
  | logger
  | other
deriving DecidableEq

/-- A call on a descriptor. -/
inductive LogCall where
  | write (fd : Int32)
  | close (fd : Int32)
deriving DecidableEq

/-- The descriptors of the process, and the stray calls of the logger. -/
structure LogKernel where
  table : Table FdOwner
  strays : List LogCall

/-- `open` has answered the logger with `ret`. -/
def kernelOpen (k : LogKernel) (ret : Int32) : LogKernel :=
  { k with table := opened k.table ret .logger }

/-- `close`, which is stray unless the logger owns the descriptor. -/
def kernelClose (k : LogKernel) (fd : Int32) : LogKernel :=
  { table := closed k.table fd
    strays := if k.table fd = some .logger then k.strays else k.strays ++ [.close fd] }

/-- `write`, for which standard error is anybody's. -/
def kernelWrite (k : LogKernel) (fd : Int32) : LogKernel :=
  if fd = stderrFileno ∨ k.table fd = some .logger then k
  else { k with strays := k.strays ++ [.write fd] }

/-- The text of `"console"`. -/
def consoleName : List UInt8 := [99, 111, 110, 115, 111, 108, 101]

/-- An empty name, or one that begins with `"console"`. -/
def isConsole (name : List UInt8) : Bool := name.isEmpty || consoleName.isPrefixOf name

/-- `_log_stderr`, its write having returned `n`. -/
def logStderr (l : Logger) (n : Int64) : Logger :=
  if n < 0 then { l with nerror := l.nerror + 1 } else l

/-- `log_open`. The name is `none` for a null pointer, `ret` is what `open`
    answers if it is called, and `n` what the write of `log_stderr` does. -/
def logOpen (k : LogKernel) (l : Logger) (level : Int32) (name : Option (List UInt8))
    (ret : Int32) (n : Int64) : Status × Logger × LogKernel :=
  match name with
  | none => (cmnError, l, k)
  | some name =>
    let l := { l with level := max logEmerg (min level logVerbose) }
    let l := { l with name := name.take (maxFilenameLen - 1) }
    if isConsole name then (0, { l with fd := stderrFileno }, k)
    else
      let k := kernelOpen k ret
      let l := { l with fd := ret }
      if l.fd < 0 then (cmnError, logStderr l n, k) else (0, l, k)

/-- `log_close`, which leaves `fd` as it is. -/
def logClose (k : LogKernel) (l : Logger) : LogKernel :=
  if l.fd ≠ stderrFileno then kernelClose k l.fd else k

/-- `log_reopen`: the file is closed before it is opened again. -/
def logReopen (k : LogKernel) (l : Logger) (ret : Int32) (n : Int64) : Logger × LogKernel :=
  if l.fd ≠ stderrFileno then
    let k := kernelClose k l.fd
    let k := kernelOpen k ret
    let l := { l with fd := ret }
    if l.fd < 0 then (logStderr l n, k) else (l, k)
  else (l, k)

/-- `_log`, its write, if there is one, having returned `n`. -/
def log (k : LogKernel) (l : Logger) (n : Int64) : Logger × LogKernel :=
  if l.fd < 0 then (l, k)
  else
    let k := kernelWrite k l.fd
    if n < 0 then ({ l with nerror := l.nerror + 1 }, k) else (l, k)

/-- The logger in a program. -/
structure LogWorld where
  logger : Logger
  kernel : LogKernel

/-- A call of the logger, with what the kernel does, or something the rest of
    the program does. -/
inductive LogAct where
  | openLog (level : Int32) (name : Option (List UInt8)) (ret : Int32) (n : Int64)
  | reopen (ret : Int32) (n : Int64)
  | close
  | log (n : Int64)
  | otherOpen (fd : Int32)
  | otherClose (fd : Int32)
deriving DecidableEq

/-- One step, unless the kernel cannot answer so. The rest of the program
    closes what is its own. -/
def logAct (w : LogWorld) : LogAct → Option LogWorld
  | .openLog level name ret n =>
    if Answer w.kernel.table ret then
      let r := logOpen w.kernel w.logger level name ret n
      some ⟨r.2.1, r.2.2⟩
    else none
  | .reopen ret n =>
    -- `open` comes after the close, so its number may be the one just closed.
    if Answer (logClose w.kernel w.logger).table ret then
      let r := logReopen w.kernel w.logger ret n
      some ⟨r.1, r.2⟩
    else none
  | .close => some ⟨w.logger, logClose w.kernel w.logger⟩
  | .log n =>
    let r := log w.kernel w.logger n
    some ⟨r.1, r.2⟩
  | .otherOpen fd =>
    if 0 ≤ fd ∧ w.kernel.table fd = none then
      some ⟨w.logger, { w.kernel with table := opened w.kernel.table fd .other }⟩
    else none
  | .otherClose fd =>
    if w.kernel.table fd = some .other then
      some ⟨w.logger, { w.kernel with table := closed w.kernel.table fd }⟩
    else none

/-- Program start: the static logger is zeroed. -/
def logWorld (table : Table FdOwner) : LogWorld := ⟨⟨[], 0, 0, 0⟩, ⟨table, []⟩⟩

end Aircmn
