import Aircmn.Core.Text

/-!
# Lines of the Log

How `_log` and `_log_stderr` of `cmn_log.c` make a line: the pieces are printed
one behind the other with `len += _scnprintf(buf + len, size - len, ...)`, and
a newline takes the place of the zero behind the last one. Both buffers are
static, so they hold what the call before has left there.

`size` and `len` are `int`s, and their difference becomes a `size_t` in the
macros of `cmn_base.h`.

## Main definitions

* `logMaxLen`: The size of the buffer of `_log`.
* `LinePos`, `linePrint`: A position in a line, and the printing of a piece.
* `lineEnd`: The newline.
* `logLine`, `logStderrLine`: The lines.
-/

namespace Aircmn

open Bytes

/-- `LOG_MAX_LEN`. -/
def logMaxLen : Nat := 512

/-- The memory with the buffer, and `len`. -/
structure LinePos where
  mem : Mem
  len : Int32

/-- `len += _scnprintf(buf + len, size - len, ...)`. -/
def linePrint (buf : Nat) (size : Int32) (s : LinePos) (text : List UInt8) : LinePos :=
  let n := vscnprintf s.mem (buf + s.len.toInt).toNat (size - s.len).toInt64.toUInt64 text
  ⟨n.2, s.len + .ofInt n.1⟩

/-- `buf[len++] = '\n'`. -/
def lineEnd (buf : Nat) (s : LinePos) : LinePos :=
  ⟨memset s.mem (buf + s.len.toInt).toNat 10 1, s.len + 1⟩

/-- What `_log` writes: a head, if there is one, and a message. -/
def logLine (m : Mem) (buf : Nat) (head : Option (List UInt8)) (text : List UInt8) : LinePos :=
  let size : Int32 := .ofNat logMaxLen
  let s : LinePos := ⟨m, 0⟩
  let s :=
    match head with
    | some head => linePrint buf size s head
    | none => s
  lineEnd buf (linePrint buf size s text)

/-- What `_log_stderr` writes. -/
def logStderrLine (m : Mem) (buf : Nat) (text : List UInt8) : LinePos :=
  let size : Int32 := .ofNat (4 * logMaxLen)
  lineEnd buf (linePrint buf size ⟨m, 0⟩ text)

end Aircmn
