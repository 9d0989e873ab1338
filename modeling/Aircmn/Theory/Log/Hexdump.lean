import Aircmn.Core.Hexdump
import Mathlib.Data.List.Range

/-!
# The Text of a Dump

`hexDump` is the canonical display of a string of bytes, a text without any
buffer. `_log_hexdump` prints the same text piece by piece, in two passes over
each row, and stops when its buffer is full. What is in the buffer is a prefix
of the text at every moment (`Printed`), so each inner loop needs only the
text it appends, and the outer loop, ending early, has nothing to append that
would have fit.

The offset is an `int` and wraps, but its last eight hexadecimal digits are
those of the offset that does not.

## Main definitions

* `hexCell`, `hexRowText`: A byte or its absence, and a row.
* `hexRows`, `hexDump`: The rows of a string of bytes, and all of them.
* `hexAt`, `charAt`: Where a byte stands in the two columns.

## Theorems

* `hexPrint_printed`: A piece.
* `hexEach_printed`, `hexPads_printed`, `hexChars_printed`: The inner loops.
* `hexRow_printed`, `hexLoop_printed`: A row, and the outer loop.
* `hexDump_row`, `hexDump_cell`, `hexDump_char`: The columns of the text.
* `log_hexdump_canonical`: What is written.
-/

namespace Aircmn

open Bytes Printer

/-- The two digits of byte `i` of a row, or blanks, with the blanks behind. -/
def hexCell (chunk : List UInt8) (i : Nat) : List UInt8 :=
  match chunk[i]? with
  | some c => hexDigits 2 c.toNat ++ hexGap i
  | none => [32, 32] ++ hexGap i

/-- The row of a canonical dump for the bytes `chunk` at `off`. -/
def hexRowText (off : Nat) (chunk : List UInt8) : List UInt8 :=
  hexDigits 8 off ++ [32, 32] ++ (List.range 16).flatMap (hexCell chunk) ++ [32, 32, 124] ++
    chunk.map hexShown ++ [124, 10]

/-- Row `r`, of the sixteen bytes from `16 * r` on, or as many as there are. -/
def hexDumpRow (bytes : List UInt8) (r : Nat) : List UInt8 :=
  hexRowText (16 * r) ((bytes.drop (16 * r)).take 16)

/-- How many rows there are, the last one perhaps not full. -/
def hexRows (bytes : List UInt8) : Nat := (bytes.length + 15) / 16

/-- The canonical display of `bytes`. -/
def hexDump (bytes : List UInt8) : List UInt8 :=
  (List.range (hexRows bytes)).flatMap (hexDumpRow bytes)

-- One row, "Hi" and a byte that is not printable.
example : hexDump [72, 105, 7] = hexDigits 8 0 ++ [32, 32, 52, 56, 32, 54, 57, 32, 48, 55, 32] ++
    List.replicate 40 32 ++ [32, 32, 124, 72, 105, 46, 124, 10] := by decide

theorem hexDigits_length (w n : Nat) : (hexDigits w n).length = w := by
  rw [hexDigits, List.length_map, List.length_range]

theorem hexGap_length (i : Nat) : (hexGap i).length = if i = 7 then 2 else 1 := by
  rw [hexGap]
  split <;> rfl

/-- A cell of a row has at most four characters. -/
theorem hexGap_append_length (ds : List UInt8) (hds : ds.length = 2) (i : Nat) :
    (ds ++ hexGap i).length = if i = 7 then 4 else 3 := by
  rw [List.length_append, hds, hexGap_length]
  split <;> rfl

theorem hexPrint_printed (m₀ : Mem) (buf : Nat) (s : HexState) (T text : List UInt8)
    (htext : text.length < 2 ^ 31) (h : Printed m₀ buf hexBufSize s.mem s.len T) :
    Printed m₀ buf hexBufSize (hexPrint buf s text).mem (hexPrint buf s text).len (T ++ text) := by
  have hnext := printed_vsnprintf m₀ s.mem buf hexBufSize s.len T text h
  have hbuf : hexBufSize = 4096 := by decide
  -- The text is still shorter than the buffer: Printed keeps len below its size.
  have hlen : s.len.toNat < hexBufSize := by
    rw [h.len_eq, Int.toNat_natCast]
    omega
  -- The room that is left fits in a size_t, so no number wraps in the call.
  have hsize : (UInt64.ofNat (hexBufSize - s.len.toNat)).toNat = hexBufSize - s.len.toNat := by
    rw [UInt64.toNat_ofNat', Nat.mod_eq_of_lt (by omega)]
  have hcount := vscnprintf_fits s.mem (buf + s.len.toNat) (.ofNat (hexBufSize - s.len.toNat)) text
    (by omega) htext
  rw [hsize] at hcount
  -- len moves by what vscnprintf counted, which is what it printed.
  simp only [hexPrint, hcount]
  exact hnext

theorem hexEach_printed (m₀ : Mem) (buf : Nat) (src : Mem) (text : UInt8 → Nat → List UInt8)
    (cell : Nat → List UInt8) (htext : ∀ c i, (text c i).length < 2 ^ 31) :
    ∀ (k : Nat) (s : HexState) (T : List UInt8), Printed m₀ buf hexBufSize s.mem s.len T →
      (∀ j, j < min k s.datalen → cell (s.i + j) = text (src (s.data + j)) (s.i + j)) →
      Printed m₀ buf hexBufSize (hexEach buf src text k s).mem (hexEach buf src text k s).len
        (T ++ (List.range' s.i (min k s.datalen)).flatMap cell) := by
  intro k
  induction k with
  | zero =>
      intro s T h _
      rw [Nat.zero_min, List.range'_zero, List.flatMap_nil, List.append_nil]
      exact h
  | succ k ih =>
      intro s T h hcell
      -- The loop ends with the data even if 16 cells have not been filled.
      by_cases hlen : s.datalen = 0
      · rw [hexEach, if_neg (not_not.mpr hlen), hlen, Nat.min_zero, List.range'_zero,
          List.flatMap_nil, List.append_nil]
        exact h
      · -- The first byte is printed, and the rest from where that has ended.
        have hfirst : cell s.i = text (src s.data) s.i := hcell 0 (by omega)
        rw [hexEach, if_pos hlen, show min (k + 1) s.datalen = min k (s.datalen - 1) + 1 by omega,
          List.range'_succ, List.flatMap_cons, ← List.append_assoc, hfirst]
        refine ih { hexPrint buf s (text (src s.data) s.i) with
          data := s.data + 1, datalen := s.datalen - 1, i := s.i + 1 } _
          (hexPrint_printed m₀ buf s T _ (htext _ _) h) (fun j hj => ?_)
        simp only at hj ⊢
        rw [Nat.add_assoc, Nat.add_assoc, Nat.add_comm 1 j]
        exact hcell (j + 1) (by omega)

theorem hexPads_printed (m₀ : Mem) (buf : Nat) (cell : Nat → List UInt8) :
    ∀ (k : Nat) (s : HexState) (T : List UInt8), Printed m₀ buf hexBufSize s.mem s.len T →
      (∀ j, j < k → cell (s.i + j) = [32, 32] ++ hexGap (s.i + j)) →
      Printed m₀ buf hexBufSize (hexPads buf k s).mem (hexPads buf k s).len
        (T ++ (List.range' s.i k).flatMap cell) := by
  intro k
  induction k with
  | zero =>
      intro s T h _
      rw [List.range'_zero, List.flatMap_nil, List.append_nil]
      exact h
  | succ k ih =>
      intro s T h hcell
      -- Padding cells are alike: two blanks and the gap.
      have hfirst : cell s.i = [32, 32] ++ hexGap s.i := hcell 0 (by omega)
      rw [hexPads, List.range'_succ, List.flatMap_cons, ← List.append_assoc, hfirst]
      have hshort : ([32, 32] ++ hexGap s.i).length < 2 ^ 31 := by
        rw [hexGap_append_length _ rfl]
        split <;> decide
      refine ih { hexPrint buf s ([32, 32] ++ hexGap s.i) with i := s.i + 1 } _
        (hexPrint_printed m₀ buf s T _ hshort h) (fun j hj => ?_)
      simp only
      rw [Nat.add_assoc, Nat.add_comm 1 j]
      -- The remaining cells are the same with the counter moved on by one.
      exact hcell (j + 1) (by omega)

theorem hexChars_printed (m₀ : Mem) (buf : Nat) (src : Mem) (s : HexState) (T : List UInt8)
    (h : Printed m₀ buf hexBufSize s.mem s.len T) :
    Printed m₀ buf hexBufSize (hexChars buf src s).mem (hexChars buf src s).len
      (T ++ (slice src s.data (min 16 s.datalen)).map hexShown) := by
  have hchars := hexEach_printed m₀ buf src (fun c _ => [hexShown c])
    (fun i => [hexShown (src (s.data + i))]) (fun _ _ => by rw [List.length_singleton]; decide) 16
    { s with i := 0 } T h (fun j _ => by simp only [Nat.zero_add])
  rw [slice, List.map_map, List.map_eq_flatMap, List.range_eq_range']
  exact hchars

/-- The last digits of a number are those of its remainder. -/
theorem hexDigits_mod (w n : Nat) : hexDigits w (n % 16 ^ w) = hexDigits w n := by
  refine List.map_congr_left (fun j hj => ?_)
  have hjw : j < w := List.mem_range.mp hj
  have hsplit : 16 ^ w = 16 ^ (w - 1 - j) * 16 ^ (j + 1) := by
    rw [← Nat.pow_add]
    congr 1
    omega
  have hdvd : 16 ∣ 16 ^ (j + 1) := Dvd.intro_left (16 ^ j) (Nat.pow_succ 16 j).symm
  rw [hsplit, Nat.mod_mul_right_div_self, Nat.mod_mod_of_dvd _ hdvd]

/-- What is not a byte of the row is blank, and with it a row has sixteen
    cells. -/
theorem hexCells_printed (m₀ : Mem) (buf : Nat) (src : Mem) (s : HexState) (T : List UInt8)
    (h : Printed m₀ buf hexBufSize s.mem s.len T) :
    let s' := hexBytes buf src s
    let s'' := hexPads buf (16 - s'.i) s'
    Printed m₀ buf hexBufSize s''.mem s''.len
      (T ++ (List.range 16).flatMap (hexCell (slice src s.data (min 16 s.datalen)))) := by
  intro s' s''
  -- The byte loop stops after 16 bytes or at the end of the data, and i has counted them.
  have hmoves : s'.i = min 16 s.datalen :=
    (hexEach_moves buf src _ 16 { s with i := 0 }).i.trans (Nat.zero_add _)
  -- The first cells are filled from the data, each with its two digits and its gap.
  have hbytes := hexEach_printed m₀ buf src (fun c i => hexDigits 2 c.toNat ++ hexGap i)
    (hexCell (slice src s.data (min 16 s.datalen))) (by
      intro c i
      rw [hexGap_append_length _ (hexDigits_length 2 _)]
      split <;> decide) 16 { s with i := 0 } T h (by
      intro j hj
      have hlen : j < (slice src s.data (min 16 s.datalen)).length := by
        rw [slice_length]
        exact hj
      rw [Nat.zero_add, hexCell, List.getElem?_eq_getElem hlen, slice_getElem])
  -- The cells past the end of the data are blank, where hexCell has no byte.
  have hpads := hexPads_printed m₀ buf (hexCell (slice src s.data (min 16 s.datalen))) (16 - s'.i)
    s' _ hbytes (by
      intro j _
      rw [hexCell, List.getElem?_eq_none (by rw [slice_length]; omega)])
  -- Together they are the sixteen cells, in order.
  have hjoin : List.range' 0 (min 16 s.datalen)
      ++ List.range' (0 + min 16 s.datalen) (16 - min 16 s.datalen) = List.range' 0 16 := by
    rw [List.range'_append_1, Nat.add_sub_cancel' (Nat.min_le_left _ _)]
  -- i starts at 0 in each row.
  rw [Nat.zero_add] at hjoin
  rw [hmoves, List.append_assoc, ← List.flatMap_append] at hpads
  rw [List.range_eq_range', ← hjoin]
  rw [← hmoves] at hpads ⊢
  exact hpads

theorem hexRow_printed (m₀ : Mem) (buf : Nat) (src : Mem) (off : Int32) (s : HexState)
    (T : List UInt8) (h : Printed m₀ buf hexBufSize s.mem s.len T) :
    Printed m₀ buf hexBufSize (hexRow buf src off s).mem (hexRow buf src off s).len
      (T ++ hexRowText off.toUInt32.toNat (slice src s.data (min 16 s.datalen))) := by
  -- The states between the five parts of a row.
  let s₁ := hexPrint buf s (hexDigits 8 off.toUInt32.toNat ++ [32, 32])
  let s₂ := hexBytes buf src s₁
  let s₃ := hexPads buf (16 - s₂.i) s₂
  let s₄ := hexPrint buf { s₃ with data := s.data, datalen := s.datalen } [32, 32, 124]
  have hoff := hexPrint_printed m₀ buf s T (hexDigits 8 off.toUInt32.toNat ++ [32, 32])
    (by rw [List.length_append, hexDigits_length]; decide) h
  have hcells := hexCells_printed m₀ buf src s₁ _ hoff
  have hbar := hexPrint_printed m₀ buf { s₃ with data := s.data, datalen := s.datalen } _
    [32, 32, 124] (by decide) hcells
  have hchars := hexChars_printed m₀ buf src s₄ _ hbar
  have hend := hexPrint_printed m₀ buf _ _ [124, 10] (by decide) hchars
  rw [hexRowText]
  simp only [← List.append_assoc] at hend ⊢
  exact hend

theorem hexDump_split (bytes : List UInt8) (r : Nat) (hr : r ≤ hexRows bytes) :
    hexDump bytes = (List.range r).flatMap (hexDumpRow bytes)
      ++ (List.range' r (hexRows bytes - r)).flatMap (hexDumpRow bytes) := by
  have hjoin : List.range' 0 r ++ List.range' (0 + r) (hexRows bytes - r)
      = List.range' 0 (hexRows bytes) := by
    rw [List.range'_append_1, Nat.add_sub_cancel' hr]
  rw [hexDump, List.range_eq_range', ← hjoin, List.flatMap_append, List.range_eq_range',
    Nat.zero_add]

/-- The outer loop before row `r`. The induction is on the rows to come. -/
theorem hexLoop_printed (m₀ : Mem) (buf : Nat) (src : Mem) (data datalen : Nat) :
    ∀ (n r : Nat) (off : Int32) (s : HexState), r + n = hexRows (slice src data datalen) →
      off.toUInt32.toNat = 16 * r % 2 ^ 32 → s.datalen = datalen - 16 * r →
      (s.datalen ≠ 0 → s.data = data + 16 * r) →
      Printed m₀ buf hexBufSize s.mem s.len
        ((List.range r).flatMap (hexDumpRow (slice src data datalen))) →
      Printed m₀ buf hexBufSize (hexLoop buf src off s).mem (hexLoop buf src off s).len
        (hexDump (slice src data datalen)) := by
  intro n
  induction n with
  | zero =>
      intro r off s hr _ hdatalen _ h
      have hnone : s.datalen = 0 := by
        simp only [hexRows, slice_length] at hr
        omega
      rw [hexLoop, if_neg (fun hc => hc.1 hnone), hexDump, ← hr]
      exact h
  | succ n ih =>
      intro r off s hr hoff hdatalen hdata h
      by_cases hfull : s.len < (hexBufSize : Int) - 1
      · have hsome : s.datalen ≠ 0 := by
          simp only [hexRows, slice_length] at hr
          omega
        rw [hexLoop, if_pos ⟨hsome, hfull⟩]
        have hmoves := hexRow_moves buf src off s
        have hrow := hexRow_printed m₀ buf src off s _ h
        -- If the offset has wrapped, its last eight digits have not noticed.
        have htext : hexRowText off.toUInt32.toNat (slice src s.data (min 16 s.datalen))
            = hexDumpRow (slice src data datalen) r := by
          rw [hexDumpRow, slice_drop_take, ← hdata hsome, ← hdatalen, hoff, hexRowText, hexRowText,
            show 2 ^ 32 = 16 ^ 8 by decide, hexDigits_mod]
        have hsucc : (List.range (r + 1)).flatMap (hexDumpRow (slice src data datalen))
            = (List.range r).flatMap (hexDumpRow (slice src data datalen))
              ++ hexDumpRow (slice src data datalen) r := by
          rw [List.range_succ, List.flatMap_append, List.flatMap_singleton]
        rw [htext, ← hsucc] at hrow
        refine ih (r + 1) (off + 16) (hexRow buf src off s) (by omega) ?_ ?_ ?_ hrow
        · rw [Int32.toUInt32_add, UInt32.toNat_add, hoff]
          have hsixteen : (16 : Int32).toUInt32.toNat = 16 := by decide
          omega
        · rw [hmoves.2, hdatalen]
          omega
        · intro hmore
          rw [hmoves.2] at hmore
          rw [hmoves.1, hdata hsome]
          omega
      · -- The buffer is full, and of what is left nothing would have fitted.
        rw [hexLoop, if_neg (fun hc => hfull hc.2), hexDump_split _ r (by omega)]
        have hlen := h.len_eq
        exact printed_full _ _ _ _ _ _ _ h (by omega)

theorem hexCell_length (chunk : List UInt8) (i : Nat) :
    (hexCell chunk i).length = if i = 7 then 4 else 3 := by
  rw [hexCell]
  split
  · exact hexGap_append_length _ (hexDigits_length 2 _) i
  · exact hexGap_append_length _ rfl i

/-- The cells before cell `j`. -/
theorem hexCells_length (chunk : List UInt8) : ∀ j : Nat,
    ((List.range j).flatMap (hexCell chunk)).length = 3 * j + if 8 ≤ j then 1 else 0 := by
  intro j
  induction j with
  | zero => rfl
  | succ j ih =>
      rw [List.range_succ, List.flatMap_append, List.flatMap_singleton, List.length_append, ih,
        hexCell_length]
      split <;> split <;> split <;> omega

/-- A row up to its cells, and up to its characters. -/
theorem hexRowText_heads (off : Nat) (chunk : List UInt8) :
    (hexDigits 8 off ++ [32, 32]).length = 10 ∧
      (hexDigits 8 off ++ [32, 32] ++ (List.range 16).flatMap (hexCell chunk)).length = 59 ∧
      (hexDigits 8 off ++ [32, 32] ++ (List.range 16).flatMap (hexCell chunk)
        ++ [32, 32, 124]).length = 62 := by
  have hcells := hexCells_length chunk 16
  rw [if_pos (by decide)] at hcells
  -- Eight digits and two blanks, then 16 cells of three bytes and one wider gap.
  have hhead : (hexDigits 8 off ++ [32, 32]).length = 10 := by
    rw [List.length_append, hexDigits_length]
    rfl
  refine ⟨hhead, ?_, ?_⟩
  · rw [List.length_append, hhead, hcells]
  · rw [List.length_append, List.length_append, hhead, hcells]
    rfl

theorem hexRowText_length (off : Nat) (chunk : List UInt8) :
    (hexRowText off chunk).length = 64 + chunk.length := by
  rw [hexRowText, List.length_append, List.length_append, (hexRowText_heads off chunk).2.2,
    List.length_map, List.length_cons, List.length_cons, List.length_nil]
  omega

theorem hexRowText_cells (off : Nat) (chunk : List UInt8) (p : Nat) (hp : p < 49) :
    (hexRowText off chunk)[10 + p]? = ((List.range 16).flatMap (hexCell chunk))[p]? := by
  rcases hexRowText_heads off chunk with ⟨hhead, hcells, _⟩
  rw [hexRowText, List.append_assoc, List.append_assoc, List.getElem?_append_left (by omega),
    List.getElem?_append_right (by omega), hhead, Nat.add_sub_cancel_left]

theorem hexRowText_chars (off : Nat) (chunk : List UInt8) (p : Nat) (hp : p < chunk.length) :
    (hexRowText off chunk)[62 + p]? = (chunk.map hexShown)[p]? := by
  have hbar := (hexRowText_heads off chunk).2.2
  rw [hexRowText, List.getElem?_append_left (by rw [List.length_append, List.length_map]; omega),
    List.getElem?_append_right (by omega), hbar, Nat.add_sub_cancel_left]

/-- Every row before one that has bytes is full. -/
theorem hexDump_row (bytes : List UInt8) (r q : Nat) (hr : 16 * r < bytes.length)
    (hq : q < (hexDumpRow bytes r).length) :
    (hexDump bytes)[80 * r + q]? = (hexDumpRow bytes r)[q]? := by
  -- Each full row has 80 bytes, so row r starts at 80 * r.
  have hfull : ∀ r' : Nat, 16 * r' ≤ bytes.length →
      ((List.range r').flatMap (hexDumpRow bytes)).length = 80 * r' := by
    intro r'
    induction r' with
    | zero =>
        intro _
        rfl
    | succ r' ih =>
        intro hr'
        rw [List.range_succ, List.flatMap_append, List.flatMap_singleton, List.length_append,
          ih (by omega), hexDumpRow, hexRowText_length, List.length_take, List.length_drop]
        omega
  rw [← hfull r (by omega)]
  -- The row that holds position q is r itself.
  refine rows_getElem? _ _ _ _ ?_ hq
  rw [hexRows]
  omega

/-- Where the two digits of byte `i` begin. -/
def hexAt (i : Nat) : Nat := 80 * (i / 16) + (10 + (3 * (i % 16) + if 8 ≤ i % 16 then 1 else 0))

/-- Where the character of byte `i` is. -/
def charAt (i : Nat) : Nat := 80 * (i / 16) + (62 + i % 16)

theorem hexChunk_getElem? (bytes : List UInt8) (i : Nat) :
    ((bytes.drop (16 * (i / 16))).take 16)[i % 16]? = bytes[i]? := by
  rw [List.getElem?_take_of_lt (Nat.mod_lt _ (by decide)), List.getElem?_drop, Nat.div_add_mod]

theorem hexDump_cell (bytes : List UInt8) (i q : Nat) (hi : i < bytes.length) (hq : q < 2) :
    (hexDump bytes)[hexAt i + q]? = (hexDigits 2 bytes[i].toNat)[q]? := by
  generalize hchunk : (bytes.drop (16 * (i / 16))).take 16 = chunk
  have hcell : hexCell chunk (i % 16) = hexDigits 2 bytes[i].toNat ++ hexGap (i % 16) := by
    rw [hexCell, ← hchunk, hexChunk_getElem?, List.getElem?_eq_getElem hi]
  have hmod : i % 16 < 16 := Nat.mod_lt _ (by decide)
  have hq' : q < (hexCell chunk (i % 16)).length := by
    rw [hexCell_length]
    split <;> omega
  have hp : 3 * (i % 16) + (if 8 ≤ i % 16 then 1 else 0) + q < 49 := by
    split <;> omega
  have hrow : hexDumpRow bytes (i / 16) = hexRowText (16 * (i / 16)) chunk := by
    rw [hexDumpRow, hchunk]
  -- The digit in its cell, the cell in its row, the row in the dump.
  have hget := rows_getElem? (hexCell chunk) 16 (i % 16) q hmod hq'
  rw [hexCells_length, hcell, List.getElem?_append_left (by simpa [hexDigits] using hq)] at hget
  rw [hexAt, Nat.add_assoc, Nat.add_assoc 10, hexDump_row bytes _ _ (by omega) (by
    rw [hrow, hexRowText_length]
    omega), hrow, hexRowText_cells _ _ _ hp, hget]

theorem hexDump_char (bytes : List UInt8) (i : Nat) (hi : i < bytes.length) :
    (hexDump bytes)[charAt i]? = some (hexShown bytes[i]) := by
  generalize hchunk : (bytes.drop (16 * (i / 16))).take 16 = chunk
  have hget : chunk[i % 16]? = some bytes[i] := by
    rw [← hchunk, hexChunk_getElem?, List.getElem?_eq_getElem hi]
  have hlen : i % 16 < chunk.length := (List.getElem?_eq_some_iff.mp hget).1
  have hrow : hexDumpRow bytes (i / 16) = hexRowText (16 * (i / 16)) chunk := by
    rw [hexDumpRow, hchunk]
  rw [charAt, hexDump_row bytes _ _ (by omega) (by
    rw [hrow, hexRowText_length]
    omega), hrow, hexRowText_chars _ _ _ hlen, List.getElem?_map, hget, Option.map_some]

/-- No two bytes share a place. -/
theorem hexAt_lt (i j : Nat) (h : i < j) : hexAt i + 2 ≤ hexAt j ∧ charAt i < charAt j := by
  simp only [hexAt, charAt]
  split <;> split <;> omega

/-- What `_log_hexdump` writes is the canonical display of its bytes, cut off
    one byte before the end of the buffer. Up to there each byte is in each
    column, at a place of its own, and only the buffer is stored to. -/
theorem log_hexdump_canonical (k : LogKernel) (l : Logger) (m : Mem) (buf : Nat) (src : Mem)
    (data datalen : Nat) (n₁ n₂ : Int64) :
    let r := logHexdump k l m buf src data datalen n₁ n₂
    let shown := (hexDump (slice src data datalen)).take (8 * logMaxLen - 1)
    r.written = (if l.fd < 0 then none else some shown) ∧
      SameOutside buf (buf + 8 * logMaxLen) m r.mem ∧
      (∀ i, i < datalen →
        (∀ q, q < 2 → hexAt i + q < shown.length →
          shown[hexAt i + q]? = (hexDigits 2 (src (data + i)).toNat)[q]?) ∧
        (charAt i < shown.length → shown[charAt i]? = some (hexShown (src (data + i))))) ∧
      (∀ i j, i < j → hexAt i + 2 ≤ hexAt j ∧ charAt i < charAt j) := by
  intro r shown
  have hloop := hexLoop_printed m buf src data datalen (hexRows (slice src data datalen)) 0 0
    ⟨m, 0, data, datalen, 0⟩ (Nat.zero_add _) rfl (by simp) (fun _ => by simp) (printed_nil _ _ _)
  have hwritten : r.written = if l.fd < 0 then none else some shown := by
    simp only [r, logHexdump]
    split
    · rfl
    · have hlen : (hexLoop buf src 0 ⟨m, 0, data, datalen, 0⟩).len.toNat
          = min (hexDump (slice src data datalen)).length (hexBufSize - 1) := by
        rw [hloop.len_eq, Int.toNat_natCast]
      simp only [hlen, hloop.text]
      rfl
  have houtside : SameOutside buf (buf + 8 * logMaxLen) m r.mem := by
    simp only [r, logHexdump]
    split
    · exact sameOutside_refl _ _ _
    · exact hloop.outside
  have hbyte : ∀ (i : Nat) (hi : i < (slice src data datalen).length),
      (slice src data datalen)[i] = src (data + i) := fun i hi => slice_getElem _ _ _ _ hi
  -- Within what is shown the dump has not been cut.
  have hshown : ∀ p, p < shown.length → shown[p]? = (hexDump (slice src data datalen))[p]? := by
    intro p hp
    have hmin : shown.length ≤ 8 * logMaxLen - 1 := List.length_take_le _ _
    exact List.getElem?_take_of_lt (Nat.lt_of_lt_of_le hp hmin)
  refine ⟨hwritten, houtside, fun i hi => ?_, hexAt_lt⟩
  have hi' : i < (slice src data datalen).length := by rw [slice_length]; exact hi
  refine ⟨fun q hq hin => ?_, fun hin => ?_⟩
  · rw [hshown _ hin, hexDump_cell _ i q hi' hq, hbyte]
  · rw [hshown _ hin, hexDump_char _ i hi', hbyte]

end Aircmn
