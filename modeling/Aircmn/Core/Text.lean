import Aircmn.Core.Base
import Aircmn.Lib.Numerals
import Aircmn.Lib.Printer

/-!
# Printing and Reading

The functions of `cmn_base.c` that print into a buffer and that read a number.
`_scnprintf` passes its arguments on to `_vscnprintf`. Both take a `size_t`
and compare and return an `int`, so what they answer depends on the low half
of the size alone. Formatting is done by the time they are called here; what
is formatted by `"%llu"` and `"%lld"` is the decimal digits of a number.

## Main definitions

* `vscnprintf`: `_vscnprintf`, after formatting.
* `decimal`, `decimalInt`: A number in decimal.
* `cmnAtol`: `cmn_atol`.

## Theorems

* `vscnprintf_stores`: What is stored does not depend on the answer.
* `vscnprintf_fits`: The answer for a size that is an `int`.
* `terminated_vsnprintf`: The string in the buffer.
* `decimal_length`, `decimal_noNul`, `decimal_eq`, `decimal_digits`: The digits of
  a number.
-/

namespace Aircmn

open Bytes CString Numerals Printer

/-- `_vscnprintf`, when formatting has given `text`. -/
def vscnprintf (m : Mem) (p : Nat) (size : UInt64) (text : List UInt8) : Int × Mem :=
  let n := vsnprintf m p size.toNat text
  if n.1 ≤ 0 then (0, n.2)
  else if n.1 < intOfSize size then n
  else (intOfSize (size - 1), n.2)

theorem vscnprintf_stores (m : Mem) (p : Nat) (size : UInt64) (text : List UInt8) :
    (vscnprintf m p size text).2 = (vsnprintf m p size.toNat text).2 := by
  rw [vscnprintf]
  split
  · rfl
  · split <;> rfl

/-- The answer is the number of bytes stored before the zero. -/
theorem vscnprintf_fits (m : Mem) (p : Nat) (size : UInt64) (text : List UInt8)
    (hsize : 0 < size.toNat ∧ size.toNat < 2 ^ 31) (htext : text.length < 2 ^ 31) :
    vscnprintf m p size text
      = (((min text.length (size.toNat - 1) : Nat) : Int), (vsnprintf m p size.toNat text).2) := by
  have hone : (size - 1).toNat = size.toNat - 1 :=
    UInt64.toNat_sub_of_le _ _ (UInt64.le_iff_toNat_le.mpr hsize.1)
  refine Prod.ext ?_ (vscnprintf_stores m p size text)
  rw [vscnprintf, vsnprintf_answer m p size.toNat text htext, intOfSize_of_lt size hsize.2,
    intOfSize_of_lt (size - 1) (by omega), hone]
  -- Nothing to print, a piece that fits, and one that is cut off.
  split
  · simp only
    omega
  · split
    · rw [vsnprintf_answer m p size.toNat text htext]
      omega
    · simp only
      omega

/-- The string that is left in the buffer. -/
theorem terminated_vsnprintf (m : Mem) (p size : Nat) (text : List UInt8) (hnul : 0 ∉ text) :
    terminated (slice (vsnprintf m p size text).2 p size) = text.take (size - 1) := by
  by_cases hsize : size = 0
  · rw [hsize]
    rfl
  · have hzero := vsnprintf_zero m p size text (Nat.pos_of_ne_zero hsize)
    have hprinted := printed_vsnprintf m m p size 0 [] text (printed_nil m p size)
    have htext := hprinted.text
    simp only [List.nil_append, Int.toNat_zero, Nat.add_zero, Nat.sub_zero] at htext
    generalize (vsnprintf m p size text).2 = m' at hzero htext ⊢
    generalize hk : min text.length (size - 1) = k at hzero htext
    -- Behind the text is its zero, and then whatever there was.
    have hsplit : slice m' p size
        = text.take (size - 1) ++ 0 :: slice m' (p + k + 1) (size - k - 1) := by
      have hone : slice m' (p + k) 1 = [0] := congrArg (fun c => [c]) hzero
      rw [show size = k + (1 + (size - k - 1)) by omega, slice_append, slice_append, hone, htext,
        show k + (1 + (size - k - 1)) - 1 = size - 1 by omega,
        show k + (1 + (size - k - 1)) - k - 1 = size - k - 1 by omega]
      rfl
    rw [hsplit]
    exact terminated_append _ _ (fun h0 => hnul (List.mem_of_mem_take h0))

/-- The digits of a number. -/
def decimal (n : Nat) : List UInt8 := (Nat.toDigits 10 n).map (fun c => UInt8.ofNat c.toNat)

/-- The digits of a number, behind a minus if it is negative. -/
def decimalInt (n : Int) : List UInt8 := if n < 0 then 45 :: decimal n.natAbs else decimal n.natAbs

theorem decimal_length (n k : Nat) (hk : 0 < k) (h : n < 10 ^ k) :
    0 < (decimal n).length ∧ (decimal n).length ≤ k := by
  rw [decimal, List.length_map]
  exact ⟨Nat.length_toDigits_pos, (Nat.length_toDigits_le_iff (by decide) hk).mpr h⟩

theorem decimal_noNul (n : Nat) : 0 ∉ decimal n := by
  intro h
  rcases List.mem_map.mp h with ⟨c, hc, hzero⟩
  have hdigit := Nat.isDigit_of_mem_toDigits (by decide) (by decide) hc
  simp only [Char.isDigit, Bool.and_eq_true, decide_eq_true_eq] at hdigit
  have hlo : 48 ≤ c.toNat := hdigit.1
  have hhi : c.toNat ≤ 57 := hdigit.2
  -- A digit is a byte, and not the first one.
  have hbyte := congrArg UInt8.toNat hzero
  rw [UInt8.toNat_ofNat', UInt8.toNat_zero] at hbyte
  omega

/-- The digit of a number below ten. -/
def digitByte (d : Nat) : UInt8 := UInt8.ofNat (48 + d)

theorem digitByte_digit : ∀ d, d < 10 →
    UInt8.ofNat (Nat.digitChar d).toNat = digitByte d ∧ isDigit (digitByte d) = true
      ∧ (digitByte d).toNat - 48 = d := by
  decide

/-- The last digit comes off the end. -/
theorem decimal_eq (n : Nat) :
    decimal n = if n < 10 then [digitByte n] else decimal (n / 10) ++ [digitByte (n % 10)] := by
  rw [decimal, Nat.toDigits_eq_if (by decide)]
  split
  · rename_i h
    rw [List.map_singleton, (digitByte_digit n h).1]
  · rw [List.map_append, List.map_singleton,
      (digitByte_digit (n % 10) (Nat.mod_lt n (by decide))).1]
    rfl

theorem decimal_digits (n : Nat) : ∀ c ∈ decimal n, isDigit c = true := by
  -- A number of one digit is that digit; a longer one ends in the digit of its remainder.
  induction n using Nat.strong_induction_on with
  | _ n ih =>
    intro c hc
    rw [decimal_eq] at hc
    split at hc
    · rename_i h
      rw [List.mem_singleton.mp hc]
      exact (digitByte_digit n h).2.1
    · rename_i h
      rcases List.mem_append.mp hc with hc | hc
      · exact ih (n / 10) (by omega) c hc
      · rw [List.mem_singleton.mp hc]
        exact (digitByte_digit (n % 10) (Nat.mod_lt n (by decide))).2.1

theorem decimalInt_length (n : Int) (k : Nat) (hk : 0 < k) (h : n.natAbs < 10 ^ k) :
    (decimalInt n).length ≤ k + 1 := by
  have hlen := (decimal_length n.natAbs k hk h).2
  rw [decimalInt]
  split
  · rw [List.length_cons]
    omega
  · omega

theorem decimalInt_noNul (n : Int) : 0 ∉ decimalInt n := by
  rw [decimalInt]
  split
  · rw [List.mem_cons, not_or]
    exact ⟨by decide, decimal_noNul _⟩
  · exact decimal_noNul _

/-- `cmn_atol`. What it logs is left out. -/
def cmnAtol (line : Str) : Int64 :=
  let r := strtoul line.bytes
  let value := r.value.toInt64
  if r.errno ≠ 0 ∧ r.rest ≠ [] then -1 else value

end Aircmn
