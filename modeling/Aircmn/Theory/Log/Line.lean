import Aircmn.Core.Line

/-!
# Pieces of a Line

`len += _scnprintf(buf + len, size - len, ...)`, repeated. The pieces are
joined and cut off at the size of the buffer, and `len` follows the last byte
that is stored. It never leaves the buffer: when the buffer is full one byte
is left, for the zero, and a further piece finds a size of one and adds
nothing. Since `len` and `size` are `int`s this is where no difference or sum
of them wraps, and where the conversion to `size_t` gives what it should.

A line of the log is two pieces at most, so its newline is stored at an index
of its buffer.

## Main definitions

* `LinePrinted`: The pieces printed so far.
* `LineWritten`: A line with its newline.

## Theorems

* `linePrint_printed`, `linePrint_run`: One more piece, and a run of them.
* `lineEnd_written`, `logLine_written`: The newline, and the line of the log.
* `line_print_concatenates`: Any number of pieces, and the lines of the log.
-/

namespace Aircmn

open Bytes Printer

/-- The pieces `texts` have been printed into the buffer: `len` is an index of
    it, the bytes before it are those of the pieces, and after a piece the byte
    there is zero. -/
structure LinePrinted (m₀ : Mem) (buf : Nat) (size : Int32) (s : LinePos)
    (texts : List (List UInt8)) : Prop where
  nonneg : 0 ≤ s.len
  below : s.len ≤ size - 1
  len_eq : s.len.toInt = min (size.toInt - 1) texts.flatten.length
  text : slice s.mem buf s.len.toInt.toNat = texts.flatten.take s.len.toInt.toNat
  zero : texts ≠ [] → s.mem (buf + s.len.toInt.toNat) = 0
  outside : SameOutside buf (buf + size.toInt.toNat) m₀ s.mem

/-- The line is what has been printed and a newline, both in the buffer. -/
structure LineWritten (m₀ : Mem) (buf size : Nat) (s : LinePos) (text : List UInt8) : Prop where
  newline : 1 ≤ s.len.toInt ∧ s.len.toInt ≤ size
  line : slice s.mem buf s.len.toInt.toNat = text.take (size - 1) ++ [10]
  outside : SameOutside buf (buf + size) m₀ s.mem

theorem linePrint_printed (m₀ : Mem) (buf : Nat) (size : Int32) (s : LinePos)
    (T text : List UInt8) (hsize : 0 < size.toInt) (htext : text.length < 2 ^ 31)
    (h : Printed m₀ buf size.toInt.toNat s.mem s.len.toInt T) :
    Printed m₀ buf size.toInt.toNat (linePrint buf size s text).mem
        (linePrint buf size s text).len.toInt (T ++ text) ∧
      (linePrint buf size s text).mem (buf + (linePrint buf size s text).len.toInt.toNat) = 0 := by
  have hlen := h.len_eq
  have hbound := Int32.toInt_lt size
  -- The room that is left is the difference, and there is some.
  have hdiff : (size - s.len).toInt = size.toInt - s.len.toInt :=
    int32_sub_toInt size s.len (by omega) (by omega)
  have hroom : (size - s.len).toInt64.toUInt64.toNat = size.toInt.toNat - s.len.toInt.toNat := by
    have hconv := sizeOfInt_of_nonneg (size - s.len) (by omega)
    rw [hdiff] at hconv
    rw [sizeOfInt] at hconv
    omega
  have hplace : ((buf : Int) + s.len.toInt).toNat = buf + s.len.toInt.toNat := by omega
  have hfits := vscnprintf_fits s.mem (buf + s.len.toInt.toNat)
    (size - s.len).toInt64.toUInt64 text (by omega) htext
  rw [hroom] at hfits
  generalize hcount : min text.length (size.toInt.toNat - s.len.toInt.toNat - 1) = count at hfits
  have hsum : (s.len + .ofInt count).toInt = s.len.toInt + count := by
    have hofInt := Int32.toInt_ofInt_of_le (n := count) (by omega) (by omega)
    rw [int32_add_toInt _ _ (by omega) (by omega) (by omega), hofInt]
  have hnext := printed_vsnprintf m₀ s.mem buf size.toInt.toNat s.len.toInt T text h
  have hzero := vsnprintf_zero s.mem (buf + s.len.toInt.toNat)
    (size.toInt.toNat - s.len.toInt.toNat) text (by omega)
  rw [hcount] at hnext hzero
  simp only [linePrint, hplace, hfits, hsum]
  refine ⟨hnext, ?_⟩
  rwa [show (s.len.toInt + count).toNat = s.len.toInt.toNat + count by omega, ← Nat.add_assoc]

/-- A run of pieces. The induction is on the pieces to come. -/
theorem linePrint_run (m₀ : Mem) (buf : Nat) (size : Int32) (hsize : 0 < size.toInt) :
    ∀ (texts : List (List UInt8)) (s : LinePos) (T : List UInt8),
      (∀ t ∈ texts, t.length < 2 ^ 31) →
      Printed m₀ buf size.toInt.toNat s.mem s.len.toInt T →
      let s' := texts.foldl (linePrint buf size) s
      Printed m₀ buf size.toInt.toNat s'.mem s'.len.toInt (T ++ texts.flatten) ∧
        (texts ≠ [] ∨ s.mem (buf + s.len.toInt.toNat) = 0 →
          s'.mem (buf + s'.len.toInt.toNat) = 0) := by
  intro texts
  -- Each print goes on where the one before has stopped, so the texts stand in one line.
  induction texts with
  | nil =>
      intro s T _ h
      rw [List.flatten_nil, List.append_nil]
      exact ⟨h, fun hzero => hzero.resolve_left (not_not.mpr rfl)⟩
  | cons text texts ih =>
      intro s T htexts h
      -- The first print, and from its position on the rest.
      rcases linePrint_printed m₀ buf size s T text hsize (htexts text List.mem_cons_self) h
        with ⟨hnext, hzero⟩
      rcases ih (linePrint buf size s text) (T ++ text)
        (fun t ht => htexts t (List.mem_cons_of_mem text ht)) hnext with ⟨hend, hlast⟩
      rw [List.flatten_cons, ← List.append_assoc]
      exact ⟨hend, fun _ => hlast (Or.inr hzero)⟩

theorem lineEnd_written (m₀ : Mem) (buf : Nat) (size : Int32) (s : LinePos) (T : List UInt8)
    (hsize : 0 < size.toInt) (h : Printed m₀ buf size.toInt.toNat s.mem s.len.toInt T) :
    LineWritten m₀ buf size.toInt.toNat (lineEnd buf s) T := by
  have hlen := h.len_eq
  have hbound := Int32.toInt_lt size
  have hsucc : (s.len + 1).toInt = s.len.toInt + 1 :=
    int32_add_toInt s.len 1 (by omega) (by decide) (by rw [Int32.toInt_one]; omega)
  have hplace : ((buf : Int) + s.len.toInt).toNat = buf + s.len.toInt.toNat := by omega
  refine ⟨?_, ?_, ?_⟩
  · simp only [lineEnd, hsucc]
    omega
  · have hcut : slice s.mem buf s.len.toInt.toNat = T.take (size.toInt.toNat - 1) := by
      rw [← h.text, hlen, Int.toNat_natCast]
    -- The newline is behind what is printed.
    have hten : slice (blit s.mem (buf + s.len.toInt.toNat) 1 (fun _ => 10))
        (buf + s.len.toInt.toNat) 1 = [10] :=
      congrArg (fun c => [c]) (blit_inside _ _ _ 0 _ Nat.one_pos)
    simp only [lineEnd, hsucc, hplace]
    rw [show (s.len.toInt + 1).toNat = s.len.toInt.toNat + 1 by omega, slice_append, ← hcut,
      memset, hten, slice_blit_of_disjoint _ _ _ _ _ _ (Or.inr (Nat.le_refl _))]
  · simp only [lineEnd, hplace]
    exact sameOutside_trans _ _ _ _ _ h.outside
      (sameOutside_blit _ _ _ _ _ _ (by omega) (by omega))

/-- The lines of the log are one piece or two. -/
theorem logLine_written (m : Mem) (buf : Nat) (head : Option (List UInt8)) (text : List UInt8)
    (hhead : ∀ t ∈ head, t.length < 2 ^ 31) (htext : text.length < 2 ^ 31) :
    LineWritten m buf logMaxLen (logLine m buf head text) (head.getD [] ++ text) := by
  have hpos : 0 < (Int32.ofNat logMaxLen).toInt := by decide
  -- The line starts empty.
  have hnil := printed_nil m buf (Int32.ofNat logMaxLen).toInt.toNat
  -- The end of a line is the same with a head in front of it and without one.
  have hend : ∀ (s : LinePos) (T : List UInt8),
      Printed m buf (Int32.ofNat logMaxLen).toInt.toNat s.mem s.len.toInt T →
      LineWritten m buf logMaxLen (lineEnd buf (linePrint buf (.ofNat logMaxLen) s text))
        (T ++ text) := fun s T h =>
    lineEnd_written m buf _ _ _ hpos (linePrint_printed m buf _ s T text hpos htext h).1
  cases head with
  | none => exact hend ⟨m, 0⟩ [] hnil
  | some t =>
      exact hend _ t (linePrint_printed m buf _ ⟨m, 0⟩ [] t hpos (hhead t rfl) hnil).1

theorem logStderrLine_written (m : Mem) (buf : Nat) (text : List UInt8)
    (htext : text.length < 2 ^ 31) :
    LineWritten m buf (4 * logMaxLen) (logStderrLine m buf text) text := by
  have hpos : 0 < (Int32.ofNat (4 * logMaxLen)).toInt := by decide
  have hnil := printed_nil m buf (Int32.ofNat (4 * logMaxLen)).toInt.toNat
  exact lineEnd_written m buf _ _ _ hpos
    (linePrint_printed m buf _ ⟨m, 0⟩ [] text hpos htext hnil).1

/-- Printing pieces one behind the other joins them and cuts them off at the
    size of the buffer, and a line of the log is ended inside its buffer. -/
theorem line_print_concatenates (m : Mem) (buf : Nat) (size : Int32) (hsize : 1 ≤ size)
    (texts : List (List UInt8)) (htexts : ∀ t ∈ texts, t.length < 2 ^ 31) :
    (∀ done, done <+: texts →
      LinePrinted m buf size (done.foldl (linePrint buf size) ⟨m, 0⟩) done) ∧
    (∀ head text, (∀ t ∈ head, t.length < 2 ^ 31) → text.length < 2 ^ 31 →
      LineWritten m buf logMaxLen (logLine m buf head text) (head.getD [] ++ text) ∧
        LineWritten m buf (4 * logMaxLen) (logStderrLine m buf text) text) := by
  -- Every prefix of the prints is a run of its own, and the two whole lines are one print each.
  refine ⟨fun done hdone => ?_, fun head text hhead htext =>
    ⟨logLine_written m buf head text hhead htext, logStderrLine_written m buf text htext⟩⟩
  have hpos : 0 < size.toInt := Int32.le_iff_toInt_le.mp hsize
  rcases linePrint_run m buf size hpos done ⟨m, 0⟩ []
    (fun t ht => htexts t (hdone.mem ht)) (printed_nil m buf _) with ⟨hprinted, hzero⟩
  -- The position starts at 0, so the texts are all that is there.
  rw [List.nil_append] at hprinted
  generalize done.foldl (linePrint buf size) ⟨m, 0⟩ = s at hprinted hzero
  have hlen := hprinted.len_eq
  have hone : (size - 1).toInt = size.toInt - 1 :=
    int32_sub_toInt size 1 (by decide) (by rw [Int32.toInt_one]; omega)
  refine ⟨?_, ?_, by omega, ?_, fun hne => hzero (Or.inl hne), hprinted.outside⟩
  · exact Int32.le_iff_toInt_le.mpr (by rw [Int32.toInt_zero]; omega)
  · exact Int32.le_iff_toInt_le.mpr (by omega)
  -- What has been counted is what was printed, up to one byte below the size.
  · have hcount : s.len.toInt.toNat = min done.flatten.length (size.toInt.toNat - 1) := by omega
    rw [hcount, hprinted.text, List.take_eq_take_iff]
    omega

/-- Three pieces for a buffer of four bytes, the second of which fills it. -/
theorem line_print_three :
    LinePrinted (fun _ => 7) 100 4
        ([[97], [98, 99, 100], [101]].foldl (linePrint 100 4) ⟨fun _ => 7, 0⟩)
        [[97], [98, 99, 100], [101]] ∧
      LineWritten (fun _ => 7) 100 logMaxLen (logLine (fun _ => 7) 100 (some [91, 93]) [104, 105])
        [91, 93, 104, 105] := by
  have hrun := line_print_concatenates (fun _ => 7) 100 4 (by decide)
    [[97], [98, 99, 100], [101]] (by decide)
  exact ⟨hrun.1 _ (List.prefix_refl _), (hrun.2 (some [91, 93]) [104, 105] (by decide)
    (by decide)).1⟩

end Aircmn
