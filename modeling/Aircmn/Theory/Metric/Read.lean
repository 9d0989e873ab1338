import Aircmn.Core.Proc
import Aircmn.Theory.Metric.Print
import Aircmn.Theory.Text.Atol

/-!
# A Metric Reads Back

`metric_print` prints a counter as an unsigned number and a gauge as a signed
one, and `cmn_atol` reads a number with `strtoul` and hands it out as an
`int64_t`. The two fit together for all of the 64-bit values: `strtoul` wraps a
number with a minus, and the conversion wraps a number that is too big for an
`int64_t`, so the 64 bits that come back are those that were printed. A value
that `metric_update_val` has stored is read back whole even from a counter that
was given a negative number, which is printed with twenty digits.

## Theorems

* `digitsVal_decimal`: The digits of a number.
* `numeral_valueText`: The printed value is a numeral.
* `metric_reads_back`: The value that was stored is read back.
-/

namespace Aircmn

open Bytes CString Numerals

theorem digitsVal_decimal (n : Nat) : digitsVal (decimal n) = n := by
  -- A number of one digit stands for itself; the last digit of a longer one is its remainder.
  induction n using Nat.strong_induction_on with
  | _ n ih =>
    rw [decimal_eq]
    split
    · rename_i h
      rw [digitsVal, List.foldl_cons, List.foldl_nil, (digitByte_digit n h).2.2]
      omega
    · rename_i h
      -- The digits in front are those of n / 10, which is smaller.
      have hlast := (digitByte_digit (n % 10) (Nat.mod_lt n (by decide))).2.2
      have hrest := ih (n / 10) (by omega)
      rw [digitsVal] at hrest
      rw [digitsVal, List.foldl_append, hrest, List.foldl_cons, List.foldl_nil, hlast]
      omega

theorem numeral_decimal (neg : Bool) (sgn : List UInt8) (hsgn : IsSign neg sgn) (n : Nat) :
    Numeral (sgn ++ decimal n) neg n [] := by
  refine ⟨⟨[], sgn, decimal n, ?_, fun c hc => absurd hc List.not_mem_nil, hsgn, ?_,
    decimal_digits n, digitsVal_decimal n⟩, fun c hc => absurd hc (Option.not_mem_none c)⟩
  · rw [List.nil_append, List.append_nil]
  · have hpos := Nat.length_toDigits_pos (b := 10) (n := n)
    intro hnil
    rw [decimal, List.map_eq_nil_iff] at hnil
    rw [hnil] at hpos
    exact absurd hpos (by decide)

/-- The printed value is a numeral, which stands for the 64 bits. -/
theorem numeral_valueText (m : Metric) (htype : m.type ≠ .fpn) : ∃ neg n,
    Numeral m.valueText neg n [] ∧ n < 2 ^ 64
      ∧ (Int64.ofInt (signed neg n)).toUInt64 = m.bits := by
  -- A counter is below 2 ^ 64, and a gauge lies within an Int64.
  have hnat := UInt64.toNat_lt m.bits
  cases hm : m.type with
  | counter =>
      refine ⟨false, m.bits.toNat, ?_, hnat, ?_⟩
      · rw [Metric.valueText, hm]
        exact numeral_decimal false [] (Or.inl rfl) _
      · have hpos : signed false m.bits.toNat = (m.bits.toNat : Int) := rfl
        rw [hpos, Int64.ofInt_eq_ofNat, ← UInt64.toInt64_ofNat', UInt64.ofNat_toNat,
          UInt64.toUInt64_toInt64]
  -- A gauge may be negative, and then the digits are those of its absolute value.
  | gauge =>
      have hlt := Int64.toInt_lt m.bits.toInt64
      have hge := Int64.le_toInt m.bits.toInt64
      -- Read as an Int64 and stored again, the bits are the same.
      have hback : (Int64.ofInt m.bits.toInt64.toInt).toUInt64 = m.bits := by
        rw [Int64.ofInt_toInt, UInt64.toUInt64_toInt64]
      generalize hv : m.bits.toInt64.toInt = v at hlt hge hback
      have htext : m.valueText = decimalInt v := by rw [Metric.valueText, hm, hv]
      by_cases hneg : v < 0
      · refine ⟨true, v.natAbs, ?_, by omega, ?_⟩
        · rw [htext, decimalInt, if_pos hneg]
          exact numeral_decimal true [45] rfl _
        · have habs : signed true v.natAbs = v := by
            rw [signed, if_pos rfl]
            omega
          rw [habs, hback]
      · refine ⟨false, v.natAbs, ?_, by omega, ?_⟩
        · rw [htext, decimalInt, if_neg hneg]
          exact numeral_decimal false [] (Or.inl rfl) _
        · have habs : signed false v.natAbs = v := by
            rw [signed, if_neg Bool.false_ne_true]
            omega
          rw [habs, hback]
  -- Floating-point metrics are excluded.
  | fpn => exact absurd hm htype

/-- `cmn_atol` reads from `val_buf` the value that has been printed. -/
theorem cmnAtol_valBuf (m : Metric) (htype : m.type ≠ .fpn) :
    (cmnAtol m.valBuf).toUInt64 = m.bits := by
  rcases numeral_valueText m htype with ⟨neg, n, hnum, hlt, hbits⟩
  have hbytes : m.valBuf.bytes = m.valueText := by
    rw [valBuf_eq m htype]
    exact terminated_of_noNul _ (valueText_short m htype).2
  rw [← hbytes] at hnum
  rw [cmnAtol_numeral m.valBuf neg n [] hnum, if_neg (by omega), hbits]

/-- What a counter or gauge is updated to is read back from what it prints. -/
theorem metric_reads_back (m : Metric) (htype : m.type ≠ .fpn) (x : Int64) :
    cmnAtol (metricUpdateVal m (.int x)).valBuf = x := by
  -- The text that is printed is read back as the value it was printed from.
  have hread := cmnAtol_valBuf (metricUpdateVal m (.int x)) (by rwa [metricUpdateVal_type])
  -- metric_update_val keeps the type and sets the bits to those of the value.
  have hbits : (metricUpdateVal m (.int x)).bits = x.toUInt64 := by
    cases hm : m.type with
    | counter =>
        unfold metricUpdateVal
        rw [hm]
    | gauge =>
        unfold metricUpdateVal
        rw [hm]
    | fpn => exact absurd hm htype
  rw [hbits] at hread
  exact congrArg UInt64.toInt64 hread

/-- A counter given a negative number prints a large one. -/
theorem metric_reads_back_negative :
    cmnAtol (metricUpdateVal (counterOf 0) (.int (-3))).valBuf = -3 :=
  metric_reads_back (counterOf 0) (by decide) (-3)

end Aircmn
