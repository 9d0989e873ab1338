import Aircmn.Lib.CString

/-!
# Streams Read in Parts

A text that ends with a newline can be read apart from what follows it. Its
lines come before the lines that follow, and `fgets` reads its chunks before
it reads any of what follows, even where a line is too long for the buffer,
because a chunk ends after each newline.

So a file can be divided between two of its lines, and the chunks of the two
parts are the chunks of the file.

## Main definitions

* `WholeLines`: A text is empty or ends with a newline.

## Theorems

* `fileLines_append`, `fgetsAll_append`: The lines and the chunks of a text
  and of what follows it.
* `fileLines_cons`: The first line, and the others.
* `fileLines_split`: The lines of a file up to a line, and from it on.
* `fgetsAll_head`: The first chunk begins as the stream does.
-/

namespace CString

/-- The text is empty or ends with a newline. -/
def WholeLines (s : List UInt8) : Prop := s = [] ∨ s.getLast? = some 10

theorem wholeLines_tail (c : UInt8) (s : List UInt8) (h : WholeLines (c :: s)) :
    WholeLines s := by
  rcases h with h | h
  · exact absurd h (List.cons_ne_nil c s)
  · cases s with
    | nil => exact Or.inl rfl
    | cons d s => exact Or.inr (by rwa [List.getLast?_cons_cons] at h)

/-- A text of whole lines goes on after a character that is not a newline. -/
theorem wholeLines_next (c : UInt8) (s : List UInt8) (h : WholeLines (c :: s)) (hc : c ≠ 10) :
    s ≠ [] := by
  rintro rfl
  rcases h with h | h
  · exact absurd h (List.cons_ne_nil c [])
  · exact hc (Option.some.inj h)

theorem wholeLines_append (s t : List UInt8) (hs : WholeLines s) (ht : WholeLines t) :
    WholeLines (s ++ t) := by
  rcases ht with hnil | hlast
  · rwa [hnil, List.append_nil]
  · exact Or.inr (by rw [List.getLast?_append, hlast, Option.some_or])

theorem fileLines_append : ∀ (s t : List UInt8), WholeLines s →
    fileLines (s ++ t) = fileLines s ++ fileLines t := by
  intro s t
  -- A text that ends its last line leaves nothing for the next text to go on with.
  induction s with
  | nil =>
      intro _
      rfl
  | cons c s ih =>
      intro hs
      -- The tail of a text that ends its lines does the same.
      have hrest := ih (wholeLines_tail c s hs)
      rw [List.cons_append, fileLines, fileLines]
      by_cases hc : c = 10
      · rw [if_pos hc, if_pos hc, hrest, List.cons_append]
      · rw [if_neg hc, if_neg hc]
        cases hlines : fileLines s with
        -- The text has a further line, so fileLines is not empty here.
        | nil => exact absurd (fileLines_eq_nil s hlines) (wholeLines_next c s hs hc)
        | cons l ls =>
            rw [hlines, List.cons_append] at hrest
            rw [hrest, List.cons_append]

/-- A file with a first line is this line, and the others after it. -/
theorem fileLines_cons : ∀ (s l : List UInt8) (ls : List (List UInt8)), fileLines s = l :: ls →
    s = l ++ ls.flatten ∧ fileLines ls.flatten = ls ∧ fileLines l = [l] ∧
      (ls ≠ [] → WholeLines l) := by
  -- Four statements at once, as all four follow from the same first line.
  intro s
  induction s with
  | nil =>
      intro l ls h
      exact absurd h.symm (List.cons_ne_nil l ls)
  | cons c s ih =>
      intro l ls h
      have hflatten := fileLines_flatten (c :: s)
      rw [h, List.flatten_cons] at hflatten
      refine ⟨hflatten.symm, ?_⟩
      rw [fileLines] at h
      -- A newline makes c a line by itself; any other byte joins the line that the rest starts
      -- with.
      by_cases hc : c = 10
      · rw [if_pos hc, List.cons.injEq] at h
        rcases h with ⟨hl, hls⟩
        subst hl hc
        rw [← hls, fileLines_flatten]
        exact ⟨rfl, rfl, fun _ => Or.inr rfl⟩
      · rw [if_neg hc] at h
        cases hlines : fileLines s with
        | nil =>
            rw [hlines, List.cons.injEq] at h
            rcases h with ⟨hl, hls⟩
            rw [← hl, ← hls, fileLines, if_neg hc]
            -- Without a newline the rest is the last line and there is no further one.
            exact ⟨rfl, rfl, fun h => absurd rfl h⟩
        | cons l' ls' =>
            rw [hlines, List.cons.injEq] at h
            rcases h with ⟨hl, hls⟩
            rcases ih l' ls' hlines with ⟨_, hrest, hline, hwhole⟩
            rw [← hl, ← hls, fileLines, if_neg hc, hline]
            refine ⟨hrest, rfl, fun hne => ?_⟩
            -- The first line of the rest ends in a newline, and c joined it.
            rcases hwhole hne with hnil | hlast
            · rw [hnil] at hline
              exact absurd hline.symm (List.cons_ne_nil _ _)
            · cases l' with
              | nil => exact absurd hlast.symm (Option.some_ne_none _)
              | cons d l' => exact Or.inr (by rw [List.getLast?_cons_cons, hlast])

/-- A file can be divided between two of its lines. -/
theorem fileLines_split : ∀ (ls ls' : List (List UInt8)) (s : List UInt8),
    fileLines s = ls ++ ls' →
    fileLines ls.flatten = ls ∧ fileLines ls'.flatten = ls' ∧
      (ls' ≠ [] → WholeLines ls.flatten) := by
  intro ls
  -- The two lists are cut line by line, each line from the text that follows it.
  induction ls with
  | nil =>
      intro ls' s h
      rw [List.nil_append] at h
      rw [← h, fileLines_flatten]
      exact ⟨rfl, rfl, fun _ => Or.inl rfl⟩
  | cons l ls ih =>
      intro ls' s h
      rcases fileLines_cons s l (ls ++ ls') h with ⟨_, hrest, hline, hwhole⟩
      rcases ih ls' _ hrest with ⟨hls, hls', hend⟩
      rw [List.flatten_cons]
      -- With nothing left, l may be the last line and need not end in a newline.
      by_cases hnil : ls ++ ls' = []
      · rcases List.append_eq_nil_iff.mp hnil with ⟨hnil, hnil'⟩
        rw [hnil, hnil', List.flatten_nil, List.append_nil]
        exact ⟨hline, rfl, fun h => absurd rfl h⟩
      -- With lines after it, l is a whole line, and the three statements go through.
      · rw [fileLines_append l _ (hwhole hnil), hline, hls]
        refine ⟨rfl, hls', fun hne => ?_⟩
        exact wholeLines_append l _ (hwhole hnil) (hend hne)

/-- The first chunk begins as the stream does. -/
theorem fgetsAll_head (k : Nat) (c : UInt8) (s : List UInt8) :
    ∃ chunk rest, fgetsAll (k + 2) (c :: s) = (c :: chunk) :: rest := by
  rw [fgetsAll_cons, fgetsChunk]
  by_cases hc : c = 10
  · rw [if_pos hc, hc]
    exact ⟨[], _, rfl⟩
  · rw [if_neg hc]
    exact ⟨_, _, rfl⟩

/-- A chunk of a text of whole lines does not go beyond it. -/
theorem fgetsChunk_whole : ∀ (k : Nat) (s t : List UInt8), WholeLines s → s ≠ [] →
    fgetsChunk k (s ++ t) = ((fgetsChunk k s).1, (fgetsChunk k s).2 ++ t) ∧
      WholeLines (fgetsChunk k s).2 := by
  intro k
  induction k with
  | zero =>
      intro s t hs _
      exact ⟨rfl, hs⟩
  | succ k ih =>
      intro s t hs hne
      cases s with
      | nil => exact absurd rfl hne
      | cons c s =>
          rw [List.cons_append, fgetsChunk, fgetsChunk]
          -- The chunk ends before t starts: either at a newline or because k is used up.
          by_cases hc : c = 10
          · rw [if_pos hc, if_pos hc]
            exact ⟨rfl, wholeLines_tail c s hs⟩
          · rw [if_neg hc, if_neg hc]
            -- A line that goes on is read from the same text, so the chunk takes the same bytes.
            rcases ih s t (wholeLines_tail c s hs) (wholeLines_next c s hs hc) with ⟨hchunk, hrest⟩
            exact ⟨by rw [hchunk], hrest⟩

/-- A text of whole lines is read before what follows it. -/
theorem fgetsAll_append (k : Nat) (s t : List UInt8) (hs : WholeLines s) :
    fgetsAll (k + 2) (s ++ t) = fgetsAll (k + 2) s ++ fgetsAll (k + 2) t := by
  -- What is left after a chunk is a shorter text of whole lines.
  induction hlen : s.length using Nat.strongRecOn generalizing s with
  | _ n ih =>
      cases s with
      | nil => rfl
      | cons c s =>
          have hprogress := fgetsChunk_progress k c s
          rcases fgetsChunk_whole (k + 1) (c :: s) t hs (List.cons_ne_nil c s) with ⟨hchunk, hrest⟩
          rw [List.length_cons] at hlen
          rw [List.cons_append] at hchunk
          rw [List.cons_append, fgetsAll_cons, fgetsAll_cons, hchunk,
            ih _ (by omega) _ hrest rfl, List.cons_append]

end CString
