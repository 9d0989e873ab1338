import Aircmn.Theory.Log.Hexdump

/-!
# Reading a Dump

The column of digits says where every byte stands (`hexAt`), so a dump can be
read: from the place of each byte in turn, until there are no two digits there.
What comes back is what was dumped. A dump that was cut off at the end of its
buffer gives back the bytes whose digits are in it, which are 818, so nothing is
lost of what is not longer than that.

Reading stops at the right place because a byte that is missing in the last row
has blanks, and because a row that is full is the last one if no byte follows.

## Main definitions

* `hexVal`, `readCell`, `readDump`: Reading.
* `hexRoom`: The bytes that fit.

## Theorems

* `readCells_drop`: Reading up to where there are no digits.
* `hexDump_pad`, `hexDump_full`: Behind the last byte.
* `readCell_dump`, `readCell_end`: A byte, and the end.
* `readCell_take`, `readCell_cut`, `readDump_take`: A dump that was cut off.
* `hexdump_reads_back`: A dump gives back what was dumped.
-/

namespace Aircmn

open Bytes Printer

/-- The value of a digit. -/
def hexVal (c : UInt8) : Option Nat :=
  if 48 ≤ c ∧ c ≤ 57 then some (c.toNat - 48)
  else if 97 ≤ c ∧ c ≤ 102 then some (c.toNat - 87)
  else none

/-- Byte `i`, if its digits are there. -/
def readCell (dump : List UInt8) (i : Nat) : Option UInt8 :=
  match dump[hexAt i]?.bind hexVal, dump[hexAt i + 1]?.bind hexVal with
  | some a, some b => some (UInt8.ofNat (16 * a + b))
  | _, _ => none

/-- At most `k` bytes, from byte `i` on. -/
def readCells (dump : List UInt8) : Nat → Nat → List UInt8
  | 0, _ => []
  | k + 1, i =>
    match readCell dump i with
    | some c => c :: readCells dump k (i + 1)
    | none => []

/-- The bytes that a dump shows. -/
def readDump (dump : List UInt8) : List UInt8 := readCells dump dump.length 0

/-- The bytes whose digits fit the buffer of `_log_hexdump`. -/
def hexRoom : Nat := 818

theorem hexVal_hexDigit : ∀ d, d < 16 → hexVal (hexDigit d) = some d := by decide

/-- A byte takes at least one place. -/
theorem readCell_inside (dump : List UInt8) (i : Nat) (c : UInt8) (h : readCell dump i = some c) :
    i < dump.length := by
  by_contra hlong
  have hplace : dump.length ≤ hexAt i := by
    simp only [hexAt]
    omega
  rw [readCell, List.getElem?_eq_none hplace] at h
  cases h

theorem hexAt_room (i : Nat) : hexAt i + 1 < 8 * logMaxLen - 1 ↔ i < hexRoom := by
  simp only [hexAt, logMaxLen, hexRoom]
  split <;> omega

/-- Reading takes every byte up to the first without digits. -/
theorem readCells_drop (dump bytes : List UInt8)
    (hcell : ∀ i, i < bytes.length → readCell dump i = bytes[i]?)
    (hend : readCell dump bytes.length = none) : ∀ k i, i ≤ bytes.length → bytes.length ≤ k + i →
    readCells dump k i = bytes.drop i := by
  -- The reader stops at the first position that has no cell, which hend says is the end.
  intro k
  induction k with
  | zero =>
      intro i _ hk
      rw [List.drop_eq_nil_of_le (by omega)]
      rfl
  | succ k ih =>
      intro i hi hk
      rcases Nat.lt_or_eq_of_le hi with hlt | rfl
      -- A cell in front is read, and the rest from the next position on.
      · rw [readCells, hcell i hlt, List.getElem?_eq_getElem hlt, List.drop_eq_getElem_cons hlt]
        exact congrArg (bytes[i] :: ·) (ih (i + 1) hlt (by omega))
      · rw [readCells, hend, List.drop_length]

section Dump

variable (bytes : List UInt8)

theorem readCell_dump (i : Nat) (hi : i < bytes.length) :
    readCell (hexDump bytes) i = some bytes[i] := by
  have hlt := bytes[i].toNat_lt
  -- Each of the two digits of a cell is read back as it was printed.
  have hdigit : ∀ q, q < 2 → (hexDigits 2 bytes[i].toNat)[q]?.bind hexVal
      = some (bytes[i].toNat / 16 ^ (1 - q) % 16) := by
    intro q hq
    simp only [hexDigits, List.getElem?_map, List.getElem?_range hq, Option.map_some,
      Option.bind_some]
    exact hexVal_hexDigit _ (Nat.mod_lt _ (by decide))
  -- The two digits are the first two bytes of the cell.
  have hfirst := hexDump_cell bytes i 0 hi (by decide)
  have hsecond := hexDump_cell bytes i 1 hi (by decide)
  rw [Nat.add_zero] at hfirst
  rw [readCell, hfirst, hsecond, hdigit 0 (by decide), hdigit 1 (by decide)]
  simp only [Nat.sub_zero, Nat.pow_one, Nat.sub_self, Nat.pow_zero, Nat.div_one]
  -- Two digits make the byte again.
  rw [show 16 * (bytes[i].toNat / 16 % 16) + bytes[i].toNat % 16 = bytes[i].toNat by omega,
    UInt8.ofNat_toNat]

/-- Behind the last byte of a row that is not full there are blanks. -/
theorem hexDump_pad (h : bytes.length % 16 ≠ 0) :
    (hexDump bytes)[hexAt bytes.length]? = some 32 := by
  -- The last row is short, so a padding cell stands where the next byte would be.
  generalize hchunk : (bytes.drop (16 * (bytes.length / 16))).take 16 = chunk
  have hcell : hexCell chunk (bytes.length % 16) = [32, 32] ++ hexGap (bytes.length % 16) := by
    rw [hexCell, ← hchunk, hexChunk_getElem?, List.getElem?_eq_none (Nat.le_refl _)]
  have hrow : hexDumpRow bytes (bytes.length / 16)
      = hexRowText (16 * (bytes.length / 16)) chunk := by
    rw [hexDumpRow, hchunk]
  have hmod : bytes.length % 16 < 16 := Nat.mod_lt _ (by decide)
  have hp : 3 * (bytes.length % 16) + (if 8 ≤ bytes.length % 16 then 1 else 0) + 0 < 49 := by
    split <;> omega
  -- The padding starts after bytes.length mod 16 cells of the row.
  have hget := rows_getElem? (hexCell chunk) 16 (bytes.length % 16) 0 hmod (by
    rw [hexCell_length]
    split <;> omega)
  rw [hexCells_length, hcell, Nat.add_zero] at hget
  rw [Nat.add_zero] at hp
  -- Position of the padding within its row, and of the row within the dump.
  rw [hexAt, hexDump_row bytes _ _ (by omega) (by
    rw [hrow, hexRowText_length]
    omega), hrow, hexRowText_cells _ _ _ hp]
  exact hget

/-- A dump of full rows. -/
theorem hexDump_full (h : bytes.length % 16 = 0) : (hexDump bytes).length ≤ hexAt bytes.length := by
  -- With a full last row there is no padding and the dump ends before the next position.
  have hrows : hexRows bytes = bytes.length / 16 := by
    rw [hexRows]
    omega
  have hlength : ∀ r ≤ bytes.length / 16,
      ((List.range r).flatMap (hexDumpRow bytes)).length ≤ 80 * r := by
    intro r
    induction r with
    | zero => exact fun _ => Nat.le_refl 0
    | succ r ih =>
        intro hr
        have hbefore := ih (by omega)
        rw [List.range_succ, List.flatMap_append, List.flatMap_singleton, List.length_append,
          hexDumpRow, hexRowText_length, List.length_take, List.length_drop]
        omega
  -- Every row has at most 80 bytes, and hexAt of the end lies past all of them.
  have hall := hlength _ (Nat.le_refl _)
  rw [hexDump, hrows, hexAt]
  omega

theorem readCell_end : readCell (hexDump bytes) bytes.length = none := by
  rw [readCell]
  by_cases h : bytes.length % 16 = 0
  · rw [List.getElem?_eq_none (hexDump_full bytes h)]
    rfl
  · rw [hexDump_pad bytes h]
    rfl

/-- A dump that has been cut off has the digits of the bytes that fit. -/
theorem readCell_take (i : Nat) (hi : i < hexRoom) :
    readCell ((hexDump bytes).take (8 * logMaxLen - 1)) i = readCell (hexDump bytes) i := by
  have hroom := (hexAt_room i).mpr hi
  rw [readCell, readCell, List.getElem?_take_of_lt hroom, List.getElem?_take_of_lt (by omega)]

/-- And those of no others. -/
theorem readCell_cut : readCell ((hexDump bytes).take (8 * logMaxLen - 1)) hexRoom = none := by
  have hroom := mt (hexAt_room hexRoom).mp (Nat.lt_irrefl _)
  have hle := List.length_take_le (8 * logMaxLen - 1) (hexDump bytes)
  generalize (hexDump bytes).take (8 * logMaxLen - 1) = shown at hle ⊢
  have hsecond : shown[hexAt hexRoom + 1]? = none := List.getElem?_eq_none (by omega)
  rw [readCell, hsecond]
  cases shown[hexAt hexRoom]?.bind hexVal <;> rfl

theorem readDump_take :
    readDump ((hexDump bytes).take (8 * logMaxLen - 1)) = bytes.take hexRoom := by
  have hlen : (bytes.take hexRoom).length = min hexRoom bytes.length := List.length_take
  -- Each byte is where it is looked for, and then there are no more digits.
  have hcell : ∀ i, i < (bytes.take hexRoom).length →
      readCell ((hexDump bytes).take (8 * logMaxLen - 1)) i = (bytes.take hexRoom)[i]? := by
    intro i hi
    rw [hlen] at hi
    rw [readCell_take bytes i (by omega), readCell_dump bytes i (by omega),
      List.getElem?_take_of_lt (by omega), List.getElem?_eq_getElem]
  have hend : readCell ((hexDump bytes).take (8 * logMaxLen - 1)) (bytes.take hexRoom).length
      = none := by
    rw [hlen]
    rcases Nat.lt_or_ge bytes.length hexRoom with hshort | hlong
    · rw [Nat.min_eq_right (Nat.le_of_lt hshort), readCell_take bytes _ hshort]
      exact readCell_end bytes
    · rw [Nat.min_eq_left hlong]
      exact readCell_cut bytes
  -- The reader tries no more cells than the text has bytes.
  have hlong : (bytes.take hexRoom).length ≤ ((hexDump bytes).take (8 * logMaxLen - 1)).length := by
    rcases Nat.eq_zero_or_pos (bytes.take hexRoom).length with hzero | hpos
    · rw [hzero]
      exact Nat.zero_le _
    · have hlast := hcell ((bytes.take hexRoom).length - 1) (by omega)
      rw [List.getElem?_eq_getElem (by omega)] at hlast
      have hinside := readCell_inside _ _ _ hlast
      omega
  exact readCells_drop _ _ hcell hend _ 0 (Nat.zero_le _) hlong

end Dump

/-- What the function writes. -/
theorem logHexdump_written (k : LogKernel) (l : Logger) (m : Mem) (buf : Nat) (src : Mem)
    (data datalen : Nat) (n₁ n₂ : Int64) (hfd : ¬ l.fd < 0) :
    (logHexdump k l m buf src data datalen n₁ n₂).written
      = some ((hexDump (slice src data datalen)).take (8 * logMaxLen - 1)) := by
  have hloop := hexLoop_printed m buf src data datalen (hexRows (slice src data datalen)) 0 0
    ⟨m, 0, data, datalen, 0⟩ (Nat.zero_add _) rfl (by simp) (fun _ => by simp) (printed_nil _ _ _)
  have hlen : (hexLoop buf src 0 ⟨m, 0, data, datalen, 0⟩).len.toNat
      = min (hexDump (slice src data datalen)).length (hexBufSize - 1) := by
    rw [hloop.len_eq, Int.toNat_natCast]
  rw [logHexdump, if_neg hfd]
  simp only [hlen, hloop.text]
  rfl

/-- What is dumped is read back from what is written, up to the bytes that fit. -/
theorem hexdump_reads_back (k : LogKernel) (l : Logger) (m : Mem) (buf : Nat) (src : Mem)
    (data datalen : Nat) (n₁ n₂ : Int64) (hfd : ¬ l.fd < 0) :
    (logHexdump k l m buf src data datalen n₁ n₂).written.map readDump
      = some ((slice src data datalen).take hexRoom) := by
  rw [logHexdump_written k l m buf src data datalen n₁ n₂ hfd, Option.map_some, readDump_take]

/-- Eight bytes, of which none is printable. -/
theorem hexdump_reads_back_small :
    (logHexdump ⟨fun _ => none, []⟩ ⟨[], 0, 2, 0⟩ (fun _ => 0) 0 (fun i => .ofNat i) 250 8 0
        0).written.map readDump
      = some [250, 251, 252, 253, 254, 255, 0, 1] :=
  (hexdump_reads_back _ _ _ _ _ _ _ _ _ (by decide)).trans (by decide)

end Aircmn
