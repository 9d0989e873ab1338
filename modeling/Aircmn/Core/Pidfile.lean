import Aircmn.Core.Text
import Mathlib.Logic.Function.Basic

/-!
# Pid Files

`cmn_pidfile.c`, on a file that is its content, or `none` while nothing has
the name. What the kernel does is given with a call: whether `stat` and `open`
succeed, and what becomes of the `write`, which may fail or stop early. A
`stat` of a name that nothing has always fails, and an `open` with `O_CREAT`
and `O_TRUNC` that succeeds leaves an empty file. What is logged is left out.

The second half is the same function one system call at a time, for processes
that are known by their pids and share the file. Each has opened the file for
itself, so the one `write` of a process goes to the beginning of the file.

## Main definitions

* `pidDecimal`, `pidText`: A pid with `%d`, and the bytes written for it.
* `PidOutcome`, `overwrite`: What the kernel does.
* `pidfileCreate`, `pidfileRemove`: The functions.
* `PidPoint`, `PidWorld`, `PidAct`, `pidAct`: Processes that create a pid
  file.
-/

namespace Aircmn

open Bytes Printer

/-- `MAX_PIDNAME_LEN`. -/
def maxPidnameLen : Nat := 64

/-- `"%d"`. -/
def pidDecimal (pid : Int32) : List UInt8 :=
  if pid < 0 then 45 :: decimal pid.toInt.natAbs else decimal pid.toInt.natAbs

/-- The first `pid_len` bytes of `p`, which was zeroed. -/
def pidText (pid : Int32) : List UInt8 :=
  let n := vsnprintf (fun _ => 0) 0 maxPidnameLen (pidDecimal pid)
  slice n.2 0 n.1.toNat

/-- Whether `stat` and `open` succeed, and after how many bytes the `write`
    stops if it does not fail. -/
structure PidOutcome where
  statOk : Bool
  openOk : Bool
  write : Option Nat

/-- A `write` at the beginning of a file that stops after `n` bytes. -/
def overwrite (content text : List UInt8) (n : Nat) : List UInt8 :=
  text.take n ++ content.drop (text.take n).length

/-- `pidfile_create`, with the file it leaves. -/
def pidfileCreate (file : Option (List UInt8)) (pid : Int32) (isReplace : Bool) (o : PidOutcome) :
    Status × Option (List UInt8) :=
  match file with
  | none => (cmnError, none)
  | some content =>
    if o.statOk = false then (cmnError, some content)
    else if 0 < content.length ∧ isReplace = false then (cmnError, some content)
    else if o.openOk = false then (cmnError, some content)
    else
      match o.write with
      | none => (cmnError, some [])
      | some n => (cmnOk, some (overwrite [] (pidText pid) n))

/-- `pidfile_remove`, with the file it leaves. -/
def pidfileRemove (file : Option (List UInt8)) (unlinkOk : Bool) : Option (List UInt8) :=
  if unlinkOk then none else file

/-- How far a process has come. -/
inductive PidPoint where
  | start
  | checked
  | opened
  | closing (ret : Status)
  | done (ret : Status)
deriving DecidableEq

/-- The pid file, if there is one, and where every process stands. -/
structure PidWorld where
  file : Option (List UInt8)
  points : Int32 → PidPoint

/-- A system call, with what the kernel does. -/
inductive PidAct where
  | stat (ok : Bool)
  | openFile (ok : Bool)
  | write (n : Option Nat)
  | close
deriving DecidableEq

/-- A process comes to a point. -/
def PidWorld.at (w : PidWorld) (pid : Int32) (point : PidPoint) : PidWorld :=
  { w with points := Function.update w.points pid point }

/-- The next system call of a process, unless its next call is another. -/
def pidAct (isReplace : Bool) (w : PidWorld) (i : Int32 × PidAct) : Option PidWorld :=
  match w.points i.1, i.2 with
  | .start, .stat ok =>
    match w.file with
    | none => some (w.at i.1 (.done cmnError))
    | some content =>
      if ok = false then some (w.at i.1 (.done cmnError))
      else if 0 < content.length ∧ isReplace = false then some (w.at i.1 (.done cmnError))
      else some (w.at i.1 .checked)
  | .checked, .openFile ok =>
    if ok = false then some (w.at i.1 (.done cmnError))
    else some ({ w with file := some [] }.at i.1 .opened)
  | .opened, .write none => some (w.at i.1 (.closing cmnError))
  | .opened, .write (some n) =>
    some ({ w with file := w.file.map (overwrite · (pidText i.1) n) }.at i.1 (.closing cmnOk))
  | .closing ret, .close => some (w.at i.1 (.done ret))
  | _, _ => none

/-- No process has begun. -/
def pidWorld (file : Option (List UInt8)) : PidWorld := ⟨file, fun _ => .start⟩

end Aircmn
