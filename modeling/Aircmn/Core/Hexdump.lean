import Aircmn.Core.Line
import Aircmn.Core.Log

/-!
# Hexadecimal Dump of a Log

`_log_hexdump` of `cmn_log.c`. The dump is printed into a buffer of eight times
`LOG_MAX_LEN` bytes and written at once.

The fields of a `HexState` are the memory with the buffer, and the variables
of the function: `len`, and `data`, `datalen` and `i` which the inner loops
move. The bytes to dump are in a memory of their own, and their number is not
negative. A value printed with `%08x` or `%02x` never has more digits than
that, being an `unsigned int` or an `unsigned char`.

A byte above 127 is a negative `char`, which `isprint` does not have to
accept; here it is unprintable, as it is in the C locale.

## Main definitions

* `hexDigit`, `hexDigits`, `hexGap`, `hexShown`: What is printed.
* `HexState`, `hexPrint`: A position in the dump, and the printing of a piece.
* `hexEach`, `hexBytes`, `hexPads`, `hexChars`: The inner loops.
* `hexRow`, `hexLoop`: The outer loop.
* `logHexdump`: `_log_hexdump`.

## Theorems

* `hexEach_moves`: Where a loop over the bytes of a row leaves its variables.
* `hexRow_moves`: A row moves on, so the outer loop ends.
-/

namespace Aircmn

open Bytes Printer

/-- The size of the buffer. -/
def hexBufSize : Nat := 8 * logMaxLen

/-- A digit of `%x`. -/
def hexDigit (d : Nat) : UInt8 := if d < 10 then UInt8.ofNat (48 + d) else UInt8.ofNat (87 + d)

/-- The last `w` hexadecimal digits of a number. -/
def hexDigits (w n : Nat) : List UInt8 :=
  (List.range w).map (fun j => hexDigit (n / 16 ^ (w - 1 - j) % 16))

/-- The blanks behind a byte. -/
def hexGap (i : Nat) : List UInt8 := if i = 7 then [32, 32] else [32]

/-- `isprint(*data) ? *data : '.'`. -/
def hexShown (c : UInt8) : UInt8 := if 32 ≤ c ∧ c ≤ 126 then c else 46

/-- The variables of `_log_hexdump`, with the memory that its buffer is in. -/
structure HexState where
  mem : Mem
  len : Int
  data : Nat
  datalen : Nat
  i : Nat

/-- `len += cmn_scnprintf(buf + len, size - len, ...)`. -/
def hexPrint (buf : Nat) (s : HexState) (text : List UInt8) : HexState :=
  let n := vscnprintf s.mem (buf + s.len.toNat) (.ofNat (hexBufSize - s.len.toNat)) text
  { s with mem := n.2, len := s.len + n.1 }

/-- A loop over the bytes of a row, with at most `k` rounds to go, that prints
    `text` for each of them. -/
def hexEach (buf : Nat) (src : Mem) (text : UInt8 → Nat → List UInt8) : Nat → HexState → HexState
  | 0, s => s
  | k + 1, s =>
    if s.datalen ≠ 0 then
      let c := src s.data
      let s := hexPrint buf s (text c s.i)
      hexEach buf src text k { s with data := s.data + 1, datalen := s.datalen - 1, i := s.i + 1 }
    else s

/-- The loop that prints `"%02x%s"`. -/
def hexBytes (buf : Nat) (src : Mem) (s : HexState) : HexState :=
  hexEach buf src (fun c i => hexDigits 2 c.toNat ++ hexGap i) 16 { s with i := 0 }

/-- The loop over the missing bytes of a row, with `k` rounds to go. -/
def hexPads (buf : Nat) : Nat → HexState → HexState
  | 0, s => s
  | k + 1, s =>
    let str := hexGap s.i
    let s := hexPrint buf s ([32, 32] ++ str)
    hexPads buf k { s with i := s.i + 1 }

/-- The loop that prints `"%c"`. -/
def hexChars (buf : Nat) (src : Mem) (s : HexState) : HexState :=
  hexEach buf src (fun c _ => [hexShown c]) 16 { s with i := 0 }

/-- The body of the outer loop. -/
def hexRow (buf : Nat) (src : Mem) (off : Int32) (s : HexState) : HexState :=
  let s := hexPrint buf s (hexDigits 8 off.toUInt32.toNat ++ [32, 32])
  let save := s.data
  let savelen := s.datalen
  let s := hexBytes buf src s
  let s := hexPads buf (16 - s.i) s
  let s := { s with data := save, datalen := savelen }
  let s := hexPrint buf s [32, 32, 124]
  let s := hexChars buf src s
  hexPrint buf s [124, 10]

/-- What the inner loops do to their variables. -/
structure HexMoves (s s' : HexState) (n : Nat) : Prop where
  data : s'.data = s.data + n
  datalen : s'.datalen = s.datalen - n
  i : s'.i = s.i + n

theorem hexEach_moves (buf : Nat) (src : Mem) (text : UInt8 → Nat → List UInt8) :
    ∀ (k : Nat) (s : HexState), HexMoves s (hexEach buf src text k s) (min k s.datalen) := by
  -- At most k rounds, and no more than there are bytes.
  intro k
  induction k with
  | zero =>
      intro s
      rw [Nat.zero_min]
      exact ⟨rfl, rfl, rfl⟩
  | succ k ih =>
      intro s
      by_cases hlen : s.datalen = 0
      · rw [hexEach, if_neg (not_not.mpr hlen), hlen, Nat.min_zero]
        exact ⟨rfl, by rw [hlen], rfl⟩
      · rw [hexEach, if_pos hlen]
        have hnext := ih { hexPrint buf s (text (src s.data) s.i) with
          data := s.data + 1, datalen := s.datalen - 1, i := s.i + 1 }
        -- The three counters move together, one for each byte that is printed.
        refine ⟨hnext.data.trans ?_, hnext.datalen.trans ?_, hnext.i.trans ?_⟩
        all_goals simp only
        all_goals omega

/-- A row takes up to sixteen bytes. -/
theorem hexRow_moves (buf : Nat) (src : Mem) (off : Int32) (s : HexState) :
    (hexRow buf src off s).data = s.data + min 16 s.datalen ∧
      (hexRow buf src off s).datalen = s.datalen - min 16 s.datalen :=
  -- The loop over the characters starts again where the row started.
  ⟨(hexEach_moves buf src _ 16 _).data, (hexEach_moves buf src _ 16 _).datalen⟩

/-- The outer loop. -/
def hexLoop (buf : Nat) (src : Mem) (off : Int32) (s : HexState) : HexState :=
  if s.datalen ≠ 0 ∧ s.len < (hexBufSize : Int) - 1 then
    hexLoop buf src (off + 16) (hexRow buf src off s)
  else s
termination_by s.datalen
decreasing_by
  rw [(hexRow_moves buf src off s).2]
  omega

/-- What `_log_hexdump` leaves. -/
structure HexdumpResult where
  logger : Logger
  kernel : LogKernel
  mem : Mem
  /-- The bytes of the final write, if the function comes to it. -/
  written : Option (List UInt8)

/-- `_log_hexdump`, its buffer being at `buf`. The write of the line that is
    logged first has returned `n₁`, the final write `n₂`. -/
def logHexdump (k : LogKernel) (l : Logger) (m : Mem) (buf : Nat) (src : Mem) (data datalen : Nat)
    (n₁ n₂ : Int64) : HexdumpResult :=
  if l.fd < 0 then ⟨l, k, m, none⟩
  else
    let r := log k l n₁
    let s := hexLoop buf src 0 ⟨m, 0, data, datalen, 0⟩
    let k := kernelWrite r.2 r.1.fd
    let l := if n₂ < 0 then { r.1 with nerror := r.1.nerror + 1 } else r.1
    ⟨l, k, s.mem, some (slice s.mem buf s.len.toNat)⟩

end Aircmn
