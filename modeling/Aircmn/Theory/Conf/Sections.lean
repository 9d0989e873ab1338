import Aircmn.Lib.Streams
import Aircmn.Theory.Conf.Lookup

/-!
# Sections of a File

A file is the text before a section, the section, and what follows from the
next section on. Its chunks fall into the same three parts. The lines of the
section are chunks of their own if they fit the buffer, and the first chunk
that follows starts with a bracket, because the line it is from does.

So what the loop examines in a file can be said of the parts. The text before
the section is examined by itself, unless one of its chunks opens the section,
and then nothing is examined from the header on.

## Main definitions

* `sectionLines`, `textBefore`: A section, and the text before it.
* `beforeOf`, `sectionOf`: The two as files.

## Theorems

* `sectionLines_divide`, `cfgChunks_split`: The three parts, in lines and in
  chunks.
* `textBefore_append`, `textBefore_self`, `textBefore_section`: The parts of
  files put together from parts.
* `cfgExamined_append`, `cfgExamined_stop`, `cfgExamined_section`: What is
  examined in the parts.
-/

namespace Aircmn

open CString

/-- The header of a section, and its lines up to the next section. -/
def sectionLines (sectionName : Str) (lines : List (List UInt8)) : List (List UInt8) :=
  match lines.dropWhile (fun line => !isHeaderOf sectionName line) with
  | [] => []
  | header :: rest => header :: rest.takeWhile (fun line => !opensSection line)

/-- The text before the header of a section, or the whole file if there is
    none. -/
def textBefore (sectionName : Str) (file : List UInt8) : List UInt8 :=
  ((fileLines file).takeWhile (fun line => !isHeaderOf sectionName line)).flatten

/-- Either no line is the header, or the section starts with one that is. -/
theorem sectionLines_cases (sectionName : Str) (lines : List (List UInt8)) :
    (lines.dropWhile (fun line => !isHeaderOf sectionName line) = [] ∧
        sectionLines sectionName lines = []) ∨
      ∃ header rest, isHeaderOf sectionName header = true ∧
        lines.dropWhile (fun line => !isHeaderOf sectionName line) = header :: rest ∧
        sectionLines sectionName lines
          = header :: rest.takeWhile (fun line => !opensSection line) := by
  have hfirst := List.head?_dropWhile_not (fun line => !isHeaderOf sectionName line) lines
  unfold sectionLines
  -- Either no line names the section, or the first that does opens it.
  cases hdrop : lines.dropWhile (fun line => !isHeaderOf sectionName line) with
  | nil => exact Or.inl ⟨rfl, rfl⟩
  | cons header rest =>
      rw [hdrop] at hfirst
      exact Or.inr ⟨header, rest, (Bool.not_eq_false' _).mp hfirst, rfl, rfl⟩

theorem sectionBody_eq (sectionName : Str) (lines : List (List UInt8)) :
    sectionBody sectionName lines = (sectionLines sectionName lines).tail := by
  unfold sectionBody
  rcases sectionLines_cases sectionName lines with
    ⟨hdrop, hnone⟩ | ⟨header, rest, _, hdrop, hlines⟩
  · rw [hdrop, hnone]
    rfl
  · rw [hdrop, hlines]
    rfl

/-- The lines before a section, its own, and those from the next section on. -/
theorem sectionLines_divide (sectionName : Str) (lines : List (List UInt8)) :
    ∃ after, lines = lines.takeWhile (fun line => !isHeaderOf sectionName line)
        ++ (sectionLines sectionName lines ++ after) ∧
      (∀ line ∈ after.head?, opensSection line = true) ∧
      (sectionLines sectionName lines = [] → after = []) := by
  have hlines := List.takeWhile_append_dropWhile
    (p := fun line => !isHeaderOf sectionName line) (l := lines)
  rcases sectionLines_cases sectionName lines with
    ⟨hdrop, hnone⟩ | ⟨header, rest, _, hdrop, hsection⟩
  -- No header: the section is empty and so is what would follow it.
  · rw [hdrop] at hlines
    rw [hnone]
    exact ⟨[], hlines.symm, (fun _ h => absurd h.symm (Option.some_ne_none _)), fun _ => rfl⟩
  · rw [hdrop] at hlines
    rw [hsection]
    -- The section ends before the next line that opens one, and the rest of the file follows.
    refine ⟨rest.dropWhile (fun line => !opensSection line), ?_, fun line hline => ?_,
      fun h => absurd h (List.cons_ne_nil _ _)⟩
    · rw [List.cons_append, List.takeWhile_append_dropWhile]
      exact hlines.symm
    · have hstop := List.head?_dropWhile_not (fun line => !opensSection line) rest
      rw [hline] at hstop
      exact (Bool.not_eq_false' _).mp hstop

/-- A text before a section ends with a newline. -/
theorem wholeLines_before (sectionName : Str) (file : List UInt8)
    (h : sectionLines sectionName (fileLines file) ≠ []) :
    WholeLines (textBefore sectionName file) := by
  rcases sectionLines_divide sectionName (fileLines file) with ⟨after, hlines, _⟩
  rcases fileLines_split _ _ _ hlines with ⟨_, _, hwhole⟩
  exact hwhole (fun hnil => h (List.append_eq_nil_iff.mp hnil).1)

/-- The header of a section is a line that opens one. -/
theorem sectionLines_opens (sectionName : Str) (lines after : List (List UInt8))
    (h : ∀ line ∈ after.head?, opensSection line = true) :
    ∀ line ∈ (sectionLines sectionName lines ++ after).head?, opensSection line = true := by
  rcases sectionLines_cases sectionName lines with
    ⟨_, hnone⟩ | ⟨header, rest, hheader, _, hlines⟩
  · rw [hnone]
    exact h
  · intro line hline
    rw [hlines] at hline
    rw [← Option.mem_some_iff.mp hline]
    rcases isHeaderOf_opens sectionName header hheader with ⟨tail, htail⟩
    rw [htail]
    rfl

theorem forall_not_header (sectionName : Str) (lines : List (List UInt8))
    (h : ∀ line ∈ lines, isHeaderOf sectionName line = false) :
    ∀ line ∈ lines, (!isHeaderOf sectionName line) = true :=
  fun line hline => (Bool.not_eq_true' _).mpr (h line hline)

section Before

variable (sectionName : Str) (before : List UInt8)
  (hbefore : ∀ line ∈ fileLines before, isHeaderOf sectionName line = false)

include hbefore

theorem textBefore_append (text : List UInt8) (hwhole : WholeLines before) :
    textBefore sectionName (before ++ text) = before ++ textBefore sectionName text ∧
      sectionLines sectionName (fileLines (before ++ text))
        = sectionLines sectionName (fileLines text) := by
  have hother := forall_not_header sectionName _ hbefore
  unfold textBefore sectionLines
  rw [fileLines_append before text hwhole, List.takeWhile_append_of_pos hother,
    List.dropWhile_append_of_pos hother, List.flatten_append, fileLines_flatten]
  exact ⟨rfl, rfl⟩

theorem textBefore_self :
    textBefore sectionName before = before ∧ sectionLines sectionName (fileLines before) = [] := by
  have hother := forall_not_header sectionName _ hbefore
  unfold textBefore sectionLines
  rw [List.takeWhile_eq_self_iff.mpr hother, List.dropWhile_eq_nil_iff.mpr hother,
    fileLines_flatten]
  exact ⟨rfl, rfl⟩

end Before

theorem textBefore_noHeader (sectionName : Str) (file line : List UInt8)
    (h : line ∈ fileLines (textBefore sectionName file)) : isHeaderOf sectionName line = false := by
  rcases sectionLines_divide sectionName (fileLines file) with ⟨after, hlines, _⟩
  rcases fileLines_split _ _ _ hlines with ⟨hbefore, _⟩
  rw [textBefore, hbefore] at h
  have hother := List.mem_takeWhile_imp (p := fun line => !isHeaderOf sectionName line) h
  exact (Bool.not_eq_true' _).mp hother

/-- The text before the section of a file, without the rest of it. -/
def beforeOf (sectionName file : Str) : Str where
  bytes := textBefore sectionName file.bytes
  noNul := by
    rcases sectionLines_divide sectionName (fileLines file.bytes) with ⟨after, hlines, _⟩
    have hfile := fileLines_flatten file.bytes
    rw [hlines, List.flatten_append] at hfile
    exact fun hzero => file.noNul (hfile ▸ List.mem_append_left _ hzero)

/-- The section of a file, without the rest of it. -/
def sectionOf (sectionName file : Str) : Str where
  bytes := (sectionLines sectionName (fileLines file.bytes)).flatten
  noNul := by
    rcases sectionLines_divide sectionName (fileLines file.bytes) with ⟨after, hlines, _⟩
    have hfile := fileLines_flatten file.bytes
    rw [hlines, List.flatten_append, List.flatten_append] at hfile
    exact fun hzero => file.noNul
      (hfile ▸ List.mem_append_right _ (List.mem_append_left _ hzero))

/-- The lines of a section are a file of their own, with nothing before the
    section. -/
theorem textBefore_section (sectionName file : Str) :
    textBefore sectionName (sectionOf sectionName file).bytes = [] ∧
      sectionLines sectionName (fileLines (sectionOf sectionName file).bytes)
        = sectionLines sectionName (fileLines file.bytes) := by
  -- Cut to its own section, a file has no other line left before it or after it.
  have hown : fileLines (sectionOf sectionName file).bytes
      = sectionLines sectionName (fileLines file.bytes) := by
    rcases sectionLines_divide sectionName (fileLines file.bytes) with ⟨after, hlines, _⟩
    rcases fileLines_split _ _ _ hlines with ⟨_, hfrom, _⟩
    exact (fileLines_split _ _ _ hfrom).1
  -- Either there is no such section and nothing is left, or what is left starts with its header.
  unfold textBefore
  rw [hown]
  rcases sectionLines_cases sectionName (fileLines file.bytes) with
    ⟨_, hlines⟩ | ⟨header, rest, hheader, _, hlines⟩
  · rw [hlines]
    exact ⟨rfl, rfl⟩
  -- The header is the first line of the file, and nothing stands before it.
  · have hstop : ¬ (!isHeaderOf sectionName header) = true := by
      rw [hheader]
      exact Bool.false_ne_true
    rw [hlines]
    unfold sectionLines
    rw [List.takeWhile_cons, if_neg hstop, List.dropWhile_cons, if_neg hstop]
    simp only [List.takeWhile_takeWhile, and_self, Bool.decide_eq_true, List.flatten_nil]

theorem cfgChunks_append (s t : List UInt8) (hs : WholeLines s) :
    cfgChunks (s ++ t) = cfgChunks s ++ cfgChunks t := by
  have hchunks : fgetsAll (maxPathLen + 1) (s ++ t)
      = fgetsAll (maxPathLen + 1) s ++ fgetsAll (maxPathLen + 1) t := fgetsAll_append 511 s t hs
  rw [cfgChunks, hchunks, List.map_append]
  rfl

/-- The chunks of a file that is divided between two lines. -/
theorem cfgChunks_divide (s : List UInt8) (ls ls' : List (List UInt8))
    (h : fileLines s = ls ++ ls') :
    cfgChunks s = cfgChunks ls.flatten ++ cfgChunks ls'.flatten := by
  rcases fileLines_split ls ls' s h with ⟨_, _, hwhole⟩
  have hs := fileLines_flatten s
  rw [h, List.flatten_append] at hs
  cases ls' with
  | nil =>
      rw [List.flatten_nil, List.append_nil] at hs
      rw [hs, List.flatten_nil]
      exact (List.append_nil _).symm
  | cons l ls' => rw [← hs, cfgChunks_append _ _ (hwhole (List.cons_ne_nil l ls'))]

/-- The first chunk of lines of which the first opens a section does. -/
theorem cfgChunks_opens (ls : List (List UInt8)) (h : ∀ line ∈ ls.head?, opensSection line = true) :
    ∀ chunk ∈ (cfgChunks ls.flatten).head?, opensSection chunk = true := by
  -- The only chunk that can open a section is the first of a line, and a line that opens one starts
  -- with [.
  intro chunk hchunk
  cases ls with
  | nil => exact absurd hchunk.symm (Option.some_ne_none _)
  | cons line ls =>
      rcases List.head?_eq_some_iff.mp (beq_iff_eq.mp (h line rfl)) with ⟨rest, hline⟩
      -- The first chunk of that line starts with the same byte.
      rcases fgetsAll_head 511 91 (rest ++ ls.flatten) with ⟨first, chunks, hchunks⟩
      have hhead : (cfgChunks (line :: ls).flatten).head? = some (91 :: terminated first) := by
        rw [List.flatten_cons, hline, cfgChunks]
        exact congrArg (fun chunks => (chunks.map terminated).head?) hchunks
      rw [hhead, Option.mem_some_iff] at hchunk
      rw [← hchunk]
      rfl

/-- The chunks of a file are those before the section, the lines of the
    section, and chunks of which the first opens another section. -/
theorem cfgChunks_split (sectionName : Str) (file : Str)
    (h : ∀ line ∈ sectionLines sectionName (fileLines file.bytes), line.length ≤ maxPathLen) :
    ∃ after, cfgChunks file.bytes = cfgChunks (textBefore sectionName file.bytes)
        ++ (sectionLines sectionName (fileLines file.bytes) ++ after) ∧
      (∀ chunk ∈ after.head?, opensSection chunk = true) ∧
      (sectionLines sectionName (fileLines file.bytes) = [] → after = []) := by
  -- The cut into lines is done for the whole file and then carried over to the chunks.
  rcases sectionLines_divide sectionName (fileLines file.bytes) with
    ⟨after, hlines, hopens, hnone⟩
  rcases fileLines_split _ _ _ hlines with ⟨_, hfrom, _⟩
  rcases fileLines_split _ _ _ hfrom with ⟨hsection, _, _⟩
  refine ⟨cfgChunks after.flatten, ?_, cfgChunks_opens after hopens, fun hnil => ?_⟩
  -- Within the limits every line of the section is one chunk of its own.
  · have hchunks := cfgChunks_lines _ (sectionOf sectionName file).noNul (hsection.symm ▸ h)
    rw [sectionOf, hsection] at hchunks
    rw [cfgChunks_divide _ _ _ hlines, cfgChunks_divide _ _ _ hfrom, hchunks]
    rfl
  · rw [hnone hnil]
    rfl

/-- Without a header the loop examines bracketed lines with an equals sign. -/
theorem cfgExamined_noHeader (sectionName : Str) (lines : List (List UInt8))
    (h : ∀ line ∈ lines, isHeaderOf sectionName line = false) :
    cfgExamined sectionName lines
      = lines.filter (fun line => opensSection line && line.contains 61) := by
  have hother := forall_not_header sectionName _ h
  unfold cfgExamined sectionBody
  rw [List.takeWhile_eq_self_iff.mpr hother, List.dropWhile_eq_nil_iff.mpr hother, List.tail_nil,
    List.takeWhile_nil, List.filter_nil, List.append_nil]

/-- Lines before the section are examined on their own. -/
theorem cfgExamined_append (sectionName : Str) (before lines : List (List UInt8))
    (h : ∀ line ∈ before, isHeaderOf sectionName line = false) :
    cfgExamined sectionName (before ++ lines)
      = cfgExamined sectionName before ++ cfgExamined sectionName lines := by
  have hother := forall_not_header sectionName _ h
  rw [cfgExamined_noHeader sectionName before h]
  unfold cfgExamined sectionBody
  rw [List.takeWhile_append_of_pos hother, List.dropWhile_append_of_pos hother,
    List.filter_append, List.append_assoc]

theorem cfgExamined_header (sectionName : Str) (header : List UInt8) (lines : List (List UInt8))
    (h : isHeaderOf sectionName header = true) :
    cfgExamined sectionName (header :: lines)
      = (lines.takeWhile (fun line => !opensSection line)).filter isEntry := by
  have hstop : ¬ (!isHeaderOf sectionName header) = true := by
    rw [h]
    exact Bool.false_ne_true
  unfold cfgExamined sectionBody
  rw [List.takeWhile_cons, List.dropWhile_cons, if_neg hstop, if_neg hstop, List.filter_nil,
    List.nil_append, List.tail_cons]

/-- If the section was opened, nothing is examined from the next section on. -/
theorem cfgExamined_stop (sectionName : Str) (before lines : List (List UInt8))
    (header : List UInt8) (hmem : header ∈ before) (hheader : isHeaderOf sectionName header = true)
    (hopens : ∀ line ∈ lines.head?, opensSection line = true) :
    cfgExamined sectionName (before ++ lines) = cfgExamined sectionName before := by
  induction before with
  | nil => exact absurd hmem List.not_mem_nil
  | cons line before ih =>
      -- The first header among them decides where the examined lines start.
      by_cases hline : isHeaderOf sectionName line = true
      · rw [List.cons_append, cfgExamined_header _ _ _ hline, cfgExamined_header _ _ _ hline,
          takeWhile_append_stop _ _ _ (fun l hl => (Bool.not_eq_false' _).mpr (hopens l hl))]
      · -- The header that opened it comes later.
        have hrest : header ∈ before := by
          rcases List.mem_cons.mp hmem with heq | hrest
          · exact absurd (heq ▸ hheader) hline
          · exact hrest
        have hother : ∀ l ∈ [line], isHeaderOf sectionName l = false := fun l hl => by
          rw [List.mem_singleton.mp hl]
          exact Bool.eq_false_iff.mpr hline
        have happend := cfgExamined_append sectionName [line] before hother
        have happend' := cfgExamined_append sectionName [line] (before ++ lines) hother
        rw [List.singleton_append] at happend happend'
        rw [List.cons_append, happend', ih hrest, happend]

/-- The section itself is examined entry by entry. -/
theorem cfgExamined_section (sectionName : Str) (lines after : List (List UInt8))
    (hopens : ∀ line ∈ after.head?, opensSection line = true)
    (hnone : sectionLines sectionName lines = [] → after = []) :
    cfgExamined sectionName (sectionLines sectionName lines ++ after)
      = (sectionBody sectionName lines).filter isEntry := by
  -- What is examined of the section is its body, filtered to the entries.
  rw [sectionBody_eq]
  rcases sectionLines_cases sectionName lines with
    ⟨_, hlines⟩ | ⟨header, rest, hheader, _, hlines⟩
  · rw [hnone hlines, hlines]
    rfl
  · rw [hlines, List.cons_append, cfgExamined_header _ _ _ hheader,
      -- The lines after the section are cut off where the next header stands.
      takeWhile_append_stop _ _ _ (fun l hl => (Bool.not_eq_false' _).mpr (hopens l hl)),
      List.takeWhile_takeWhile]
    simp only [and_self, Bool.decide_eq_true, List.tail_cons]

end Aircmn
