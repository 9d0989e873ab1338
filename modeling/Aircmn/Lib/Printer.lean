import Aircmn.Lib.Bytes
import Mathlib.Data.List.GetD

/-!
# Printing into a Buffer

Text printed piece by piece into a buffer of a fixed size, each piece behind
the one before it, with a function that stores as much of the piece as fits,
ends it with a zero, and counts. As long as the position is moved by the
number of bytes that were stored, what is in the buffer is the whole text cut
off where the last byte, kept for the zero, begins. A piece that comes when
the buffer is full changes nothing.

## Main definitions

* `vsnprintf`: The store of a piece, after formatting.
* `Printed`: A buffer that holds a text as far as it fits.

## Theorems

* `vsnprintf_inside`, `vsnprintf_outside`, `vsnprintf_zero`: The bytes of a
  piece, and the zero behind them.
* `printed_nil`: Nothing printed yet.
* `printed_vsnprintf`: One more piece.
* `printed_full`: A full buffer holds every longer text too.
-/

namespace Printer

open Bytes

/-- `vsnprintf` to `p` with room for `size` bytes, when formatting has given
    `text`. The answer is the length of the text, or negative when that is not
    an `int`. -/
def vsnprintf (m : Mem) (p size : Nat) (text : List UInt8) : Int × Mem :=
  (if text.length < 2 ^ 31 then text.length else -1, if size = 0 then m else
    blit m p (min text.length (size - 1) + 1) (fun i => (text.take (size - 1)).getD i 0))

theorem vsnprintf_answer (m : Mem) (p size : Nat) (text : List UInt8) (h : text.length < 2 ^ 31) :
    (vsnprintf m p size text).1 = text.length :=
  if_pos h

theorem vsnprintf_inside (m : Mem) (p size i : Nat) (text : List UInt8) (hi : i < text.length)
    (hsize : i < size - 1) : (vsnprintf m p size text).2 (p + i) = text[i] := by
  have hpos : size ≠ 0 := by omega
  have htake : i < (text.take (size - 1)).length := by
    rw [List.length_take]
    omega
  simp only [vsnprintf, if_neg hpos]
  rw [blit_inside _ _ _ _ _ (by omega), List.getD_eq_getElem _ _ htake, List.getElem_take]

theorem vsnprintf_outside (m : Mem) (p size : Nat) (text : List UInt8) :
    SameOutside p (p + size) m (vsnprintf m p size text).2 := by
  intro x hx
  by_cases hsize : size = 0
  · simp only [vsnprintf, if_pos hsize]
  · simp only [vsnprintf, if_neg hsize]
    exact blit_outside _ _ _ _ _ (by omega)

/-- A zero ends what is stored. -/
theorem vsnprintf_zero (m : Mem) (p size : Nat) (text : List UInt8) (hsize : 0 < size) :
    (vsnprintf m p size text).2 (p + min text.length (size - 1)) = 0 := by
  simp only [vsnprintf, if_neg (Nat.ne_of_gt hsize)]
  rw [blit_inside _ _ _ _ _ (Nat.lt_succ_self _), List.getD_eq_default]
  rw [List.length_take, Nat.min_comm]

/-- The `size` bytes from `buf` on hold `T` as far as it fits, `len` is the
    position behind it, and nothing else has been stored since `m₀`. -/
structure Printed (m₀ : Mem) (buf size : Nat) (m : Mem) (len : Int) (T : List UInt8) : Prop where
  len_eq : len = (min T.length (size - 1) : Nat)
  text : slice m buf (min T.length (size - 1)) = T.take (size - 1)
  outside : SameOutside buf (buf + size) m₀ m

theorem printed_nil (m : Mem) (buf size : Nat) : Printed m buf size m 0 [] := by
  refine ⟨?_, ?_, sameOutside_refl _ _ _⟩
  · simp
  · simp [slice]

theorem printed_vsnprintf (m₀ m : Mem) (buf size : Nat) (len : Int) (T text : List UInt8)
    (h : Printed m₀ buf size m len T) :
    Printed m₀ buf size (vsnprintf m (buf + len.toNat) (size - len.toNat) text).2
      (len + (min text.length (size - len.toNat - 1) : Nat)) (T ++ text) := by
  have hlen : len.toNat = min T.length (size - 1) := by
    rw [h.len_eq, Int.toNat_natCast]
  -- Three parts: the length, the text that has been printed, and the frame.
  refine ⟨?_, ?_, ?_⟩
  · rw [h.len_eq, List.length_append, Int.toNat_natCast]
    omega
  · rw [hlen]
    refine List.ext_getElem (by simp [Nat.min_comm]) (fun i hi hi' => ?_)
    rw [slice_length, List.length_append] at hi
    rw [slice_getElem, List.getElem_take]
    -- A byte of the old text is kept, a byte behind it comes from this piece.
    by_cases hold : i < T.length
    · -- A byte of an earlier piece lies before the position.
      have hbyte : m (buf + i) = T[i] := by
        have hi'' : i < (slice m buf (min T.length (size - 1))).length := by
          rw [slice_length]
          omega
        have hget := slice_getElem m buf _ i hi''
        simp only [h.text, List.getElem_take] at hget
        exact hget.symm
      rw [List.getElem_append_left hold, ← hbyte]
      exact vsnprintf_outside _ _ _ _ _ (Or.inl (by omega))
    · rw [List.getElem_append_right (by omega), show buf + i
        = buf + min T.length (size - 1) + (i - T.length) by omega]
      exact vsnprintf_inside _ _ _ _ _ (by omega) (by omega)
  · rw [hlen]
    exact sameOutside_trans _ _ _ _ _ h.outside
      (sameOutside_mono _ _ _ _ _ _ (vsnprintf_outside _ _ _ _) (by omega) (by omega))

theorem printed_full (m₀ m : Mem) (buf size : Nat) (len : Int) (T text : List UInt8)
    (h : Printed m₀ buf size m len T) (hfull : size - 1 ≤ T.length) :
    Printed m₀ buf size m len (T ++ text) := by
  have hmin : min (T ++ text).length (size - 1) = min T.length (size - 1) := by
    rw [List.length_append]
    omega
  refine ⟨by rw [hmin, h.len_eq], ?_, h.outside⟩
  rw [hmin, h.text, List.take_append_of_le_length hfull]

/-- A text in rows, from where row `j` begins. -/
theorem rows_getElem? {α : Type*} (row : Nat → List α) (n j q : Nat) (hj : j < n)
    (hq : q < (row j).length) :
    ((List.range n).flatMap row)[((List.range j).flatMap row).length + q]? = (row j)[q]? := by
  have hsplit : List.range n = List.range j ++ j :: List.range' (j + 1) (n - j - 1) := by
    rw [List.range_eq_range', List.range_eq_range', ← List.range'_succ]
    have hjoin : List.range' 0 j ++ List.range' (0 + j) (n - j - 1 + 1)
        = List.range' 0 (j + (n - j - 1 + 1)) := List.range'_append_1
    rw [Nat.zero_add, show j + (n - j - 1 + 1) = n by omega] at hjoin
    exact hjoin.symm
  rw [hsplit, List.flatMap_append, List.getElem?_append_right (by omega),
    Nat.add_sub_cancel_left, List.flatMap_cons, List.getElem?_append_left hq]

end Printer
