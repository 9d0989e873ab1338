import Aircmn.Core.Metric

/-!
# Printing a Metric

What `metric_print` should report, the number of characters it has stored, and
exactly when it does. A number of 64 bits has at most twenty digits or a minus
and nineteen, so `val_buf` always holds all of it, and what is stored in the
caller's buffer is right for every size. The count is not. It is made of the
low half of the size, read as an `int`: a size of zero gives -1, which the
caller gets as `2 ^ 64 - 1`, and with a size of `2 ^ 31` or more a text that
fits can be taken for one that does not.

A text that does not fit is shorter than `2 ^ 31`, so then the size is an
`int` and the count is right.

## Main definitions

* `metricText`, `bufText`: What should be printed, and what is in a buffer.
* `MetricCounts`: What a call should do.
* `MetricSizeOk`: When it does.

## Theorems

* `valBuf_eq`: All of the value is printed.
* `vscnprintf_count_iff`: When the count is right.
* `metricPrint_stores`: What is stored.
* `metric_print_counts_iff`: The condition is exact.
* `metric_print_overcounts`: Two sizes for which it is not.
-/

namespace Aircmn

open Bytes CString Format Printer

/-- The name and the whole value, with the format. -/
def metricText (fmt : StrFormat 2) (m : Metric) : List UInt8 :=
  fmt.text [m.name, Str.ofBytes m.valueText]

/-- The characters in a buffer before the zero. -/
def bufText (mem : Mem) (buf : Nat) (nbuf : UInt64) : List UInt8 :=
  terminated (slice mem buf nbuf.toNat)

/-- What a call with answer `r.1` that leaves `r.2` should have done. -/
structure MetricCounts (fmt : StrFormat 2) (m : Metric) (buf : Nat) (nbuf : UInt64)
    (r : UInt64 × Mem) : Prop where
  count : r.1.toNat = (bufText r.2 buf nbuf).length
  bound : r.1 ≤ nbuf
  empty : nbuf = 0 → r.1 = 0
  complete : (metricText fmt m).length < nbuf.toNat → bufText r.2 buf nbuf = metricText fmt m

/-- There is nothing to print, or the buffer is not empty and the text of `n`
    characters does not fit it, or is shorter than the low half of its size. A
    text one below `2 ^ 31` also has its length for an answer when the low
    half is just `2 ^ 31`. -/
def MetricSizeOk (n : Nat) (nbuf : UInt64) : Prop :=
  n = 0 ∨ (nbuf ≠ 0 ∧ (nbuf.toNat ≤ n ∨ (n : Int) < intOfSize nbuf ∨
    (n + 1 = 2 ^ 31 ∧ intOfSize nbuf = -2 ^ 31)))

instance (n : Nat) (nbuf : UInt64) : Decidable (MetricSizeOk n nbuf) :=
  inferInstanceAs (Decidable (_ ∨ _))

theorem valueText_short (m : Metric) (htype : m.type ≠ .fpn) :
    m.valueText.length ≤ 20 ∧ 0 ∉ m.valueText := by
  cases hm : m.type with
  | counter =>
      have hlt := UInt64.toNat_lt m.bits
      rw [Metric.valueText, hm]
      exact ⟨(decimal_length _ 20 (by decide) (by omega)).2, decimal_noNul _⟩
  | gauge =>
      have hlt := Int64.toInt_lt m.bits.toInt64
      have hge := Int64.le_toInt m.bits.toInt64
      rw [Metric.valueText, hm]
      exact ⟨decimalInt_length _ 19 (by decide) (by omega), decimalInt_noNul _⟩
  | fpn => exact absurd hm htype

/-- All of the value is printed. -/
theorem valBuf_eq (m : Metric) (htype : m.type ≠ .fpn) : m.valBuf = Str.ofBytes m.valueText := by
  rcases valueText_short m htype with ⟨hlen, hnul⟩
  have hthirty : valuePrintLen.toNat = 30 := rfl
  have hbuf : terminated (slice (vscnprintf (fun _ => 0) 0 valuePrintLen m.valueText).2 0
      valuePrintLen.toNat) = terminated m.valueText := by
    rw [vscnprintf_stores, terminated_vsnprintf _ _ _ _ hnul,
      List.take_of_length_le (by omega), terminated_of_noNul _ hnul]
  simp only [Metric.valBuf, Str.ofBytes, hbuf]

/-- When the count is the number of bytes stored. -/
theorem vscnprintf_count_iff (mem : Mem) (buf : Nat) (nbuf : UInt64) (text : List UInt8)
    (htext : text.length < 2 ^ 31) :
    (UInt64.ofInt (vscnprintf mem buf nbuf text).1).toNat = min text.length (nbuf.toNat - 1) ↔
      MetricSizeOk text.length nbuf := by
  have hword : ∀ x : Int, (UInt64.ofInt x).toNat = (x % 2 ^ 64).toNat := fun x => by
    rw [UInt64.ofInt, UInt64.toNat_ofNat']
    omega
  have hzero : nbuf = 0 ↔ nbuf.toNat = 0 := UInt64.toNat_inj.symm
  have hone : (nbuf - 1).toNat = (2 ^ 64 - 1 + nbuf.toNat) % 2 ^ 64 := UInt64.toNat_sub nbuf 1
  have hsize := intOfSize_eq nbuf
  have hprev := intOfSize_eq (nbuf - 1)
  rw [vscnprintf, vsnprintf_answer _ _ _ _ htext, MetricSizeOk, ne_eq, hzero, hword]
  generalize hn : text.length = n at *
  -- The three ways through the function.
  by_cases hnone : n = 0
  · rw [if_pos (by omega)]
    omega
  · rw [if_neg (by omega)]
    by_cases hfits : (n : Int) < intOfSize nbuf
    · rw [if_pos hfits, vsnprintf_answer _ _ _ _ (by omega), hn]
      split at hsize <;> omega
    · rw [if_neg hfits]
      simp only
      split at hsize <;> split at hprev <;> omega

/-- What is stored is right for every size. -/
theorem metricPrint_stores (mem : Mem) (buf : Nat) (nbuf : UInt64) (fmt : StrFormat 2) (m : Metric)
    (htype : m.type ≠ .fpn) :
    bufText (metricPrint mem (some buf) nbuf fmt (some m)).2 buf nbuf
      = (metricText fmt m).take (nbuf.toNat - 1) := by
  simp only [bufText, metricPrint, valBuf_eq m htype, vscnprintf_stores]
  exact terminated_vsnprintf _ _ _ _ (text_noNul fmt _)

/-- A call reports what it has stored just in case the condition holds. -/
theorem metric_print_counts_iff (mem : Mem) (buf : Nat) (nbuf : UInt64) (fmt : StrFormat 2)
    (m : Metric) (htype : m.type ≠ .fpn) (hlen : (metricText fmt m).length < 2 ^ 31) :
    MetricCounts fmt m buf nbuf (metricPrint mem (some buf) nbuf fmt (some m)) ↔
      MetricSizeOk (metricText fmt m).length nbuf := by
  have hstores := metricPrint_stores mem buf nbuf fmt m htype
  have hcount := vscnprintf_count_iff mem buf nbuf (metricText fmt m) hlen
  -- What metric_print returns is the count of the vsnprintf it calls.
  have hreturn : (metricPrint mem (some buf) nbuf fmt (some m)).1
      = .ofInt (vscnprintf mem buf nbuf (metricText fmt m)).1 := by
    simp only [metricPrint, valBuf_eq m htype, metricText]
  rw [← hreturn, Nat.min_comm, ← List.length_take, ← hstores] at hcount
  rw [← hcount]
  generalize metricPrint mem (some buf) nbuf fmt (some m) = r at hstores ⊢
  -- The text in the buffer is at most nbuf - 1 bytes.
  have hshort : (bufText r.2 buf nbuf).length ≤ nbuf.toNat - 1 := by
    rw [hstores]
    exact List.length_take_le _ _
  refine ⟨fun h => h.count, fun h => ⟨h, ?_, ?_, ?_⟩⟩
  · exact UInt64.le_iff_toNat_le.mpr (by omega)
  · intro hzero
    -- With no buffer there is no text, so the count is 0 too.
    have hroom : nbuf.toNat = 0 := by
      rw [hzero]
      rfl
    exact UInt64.toNat_inj.mp (by rw [UInt64.toNat_zero]; omega)
  · intro hfits
    rw [hstores, List.take_of_length_le (by omega)]

/-- `"%s %s"`. -/
def twoStrings : StrFormat 2 := ⟨Str.ofBytes [37, 115, 32, 37, 115], _, rfl, rfl⟩

/-- A counter with the name `"n"`. -/
def counterOf (bits : UInt64) : Metric := ⟨Str.ofBytes [110], Str.ofBytes [], .counter, bits⟩

/-- A text of four characters in a buffer of three. -/
theorem metric_print_cut :
    MetricCounts twoStrings (counterOf 42) 100 3
      (metricPrint (fun _ => 0) (some 100) 3 twoStrings (some (counterOf 42))) :=
  (metric_print_counts_iff (fun _ => 0) 100 3 twoStrings (counterOf 42) (by decide)
    (by decide)).mpr (by decide)

/-- No buffer at all, and one of `2 ^ 31` bytes. -/
theorem metric_print_overcounts :
    (metricPrint (fun _ => 0) (some 100) 0 twoStrings (some (counterOf 42))).1
        = 18446744073709551615 ∧
      (metricPrint (fun _ => 0) (some 100) 2147483648 twoStrings (some (counterOf 42))).1
        = 2147483647 ∧
      ¬ MetricCounts twoStrings (counterOf 42) 100 0
        (metricPrint (fun _ => 0) (some 100) 0 twoStrings (some (counterOf 42))) := by
  have hnone : (metricPrint (fun _ => 0) (some 100) 0 twoStrings (some (counterOf 42))).1
      = 18446744073709551615 := by decide
  refine ⟨hnone, by decide +kernel, fun h => ?_⟩
  have hzero := h.empty rfl
  rw [hnone] at hzero
  exact absurd hzero (by decide)

end Aircmn
