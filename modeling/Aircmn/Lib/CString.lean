import Mathlib.Data.List.DropRight

/-!
# Zero-Terminated Strings

The string functions of the C library, on lists of bytes. A string is the
bytes before its terminating zero, so a string function applied to a buffer
sees the buffer up to its first zero, `terminated`. Comparison without regard
to case is that of the ASCII alphabet.

A `CharBuf` is a character array of a fixed size. A store that does not fit
has no result, which is how a program that must not overrun a buffer is told
from one that does.

A stream is read by `fgets` in chunks that end after a newline, or when the
buffer is full. If no line is too long for the buffer the chunks are the
lines.

## Main definitions

* `Str`, `Str.append`: A string.
* `terminated`, `Str.ofBytes`: The string in a buffer.
* `strcasecmp`, `strncasecmp`, `strchr`: The functions of `string.h`.
* `CharBuf`: A character array, with `CharBuf.zeroed`, `CharBuf.write` and
  `CharBuf.strncpy`.
* `fgets`, `fgetsAll`: Reading a stream.
* `fileLines`: The lines of a file, each with its newline.
* `trim`: A leading and a trailing run removed.

## Theorems

* `strcasecmp_eq_zero`, `strncasecmp_eq_zero`: When the comparisons say equal.
* `strchr_none`, `strchr_some`: What lies before and after a character.
* `terminated_zero`: Where a string in a buffer ends.
* `store_fits`, `store_overruns`: A string and its zero stored in a buffer.
* `fgetsLoop_length`: How long a chunk can be.
* `fgetsAll_cons`: The first call, and the others.
* `fileLines_flatten`: The lines are the whole file.
* `fileLines_lines`: A file that is written in lines.
* `fgetsAll_lines`: The chunks are the lines.
* `trim_eq_take`: The remaining interval, by the lengths of the runs.
* `trim_eq_dropWhile`, `trim_trim`: Either run first, and trimming again.
-/

namespace CString

/-- A string, without its terminating zero. -/
structure Str where
  bytes : List UInt8
  noNul : 0 ∉ bytes

/-- The bytes of a buffer up to the first zero. -/
def terminated (b : List UInt8) : List UInt8 := b.takeWhile (fun c => c != 0)

/-- `tolower` in the C locale. -/
def toLower (c : UInt8) : UInt8 := if 65 ≤ c ∧ c ≤ 90 then c + 32 else c

/-- `strcasecmp`, of strings without their ends. -/
def strcasecmp : List UInt8 → List UInt8 → Int
  | [], [] => 0
  | [], b :: _ => -(toLower b).toNat
  | a :: _, [] => (toLower a).toNat
  | a :: s, b :: t =>
    if toLower a = toLower b then strcasecmp s t
    else (toLower a).toNat - (toLower b).toNat

/-- `strncasecmp`, of at most `n` characters. -/
def strncasecmp : List UInt8 → List UInt8 → Nat → Int
  | _, _, 0 => 0
  | [], [], _ + 1 => 0
  | [], b :: _, _ + 1 => -(toLower b).toNat
  | a :: _, [], _ + 1 => (toLower a).toNat
  | a :: s, b :: t, n + 1 =>
    if toLower a = toLower b then strncasecmp s t n
    else (toLower a).toNat - (toLower b).toNat

/-- The index of the first occurrence of a character. -/
def strchr : List UInt8 → UInt8 → Option Nat
  | [], _ => none
  | b :: s, c => if b = c then some 0 else (strchr s c).map (· + 1)

/-- A character array of `n` bytes. -/
structure CharBuf (n : Nat) where
  bytes : List UInt8
  length_eq : bytes.length = n

/-- A character array declared with the initialiser `{0}`. -/
def CharBuf.zeroed (n : Nat) : CharBuf n := ⟨List.replicate n 0, List.length_replicate⟩

/-- Store bytes from index `i` on, if they fit. -/
def CharBuf.write {n : Nat} (b : CharBuf n) (i : Nat) (s : List UInt8) : Option (CharBuf n) :=
  if h : i + s.length ≤ n then
    some ⟨b.bytes.take i ++ (s ++ b.bytes.drop (i + s.length)), by
      have hlen := b.length_eq
      rw [List.length_append, List.length_append, List.length_take, List.length_drop]
      omega⟩
  else none

/-- `strncpy` stores exactly `k` bytes, padding a shorter source with zeros. -/
def CharBuf.strncpy {n : Nat} (b : CharBuf n) (src : List UInt8) (k : Nat) : Option (CharBuf n) :=
  b.write 0 (src.take k ++ List.replicate (k - src.length) 0)

/-- The string in a character array. -/
def CharBuf.str {n : Nat} (b : CharBuf n) : List UInt8 := terminated b.bytes

/-- At most `k` bytes of a stream, up to and including a newline, and the rest. -/
def fgetsChunk : Nat → List UInt8 → List UInt8 × List UInt8
  | 0, s => ([], s)
  | _ + 1, [] => ([], [])
  | k + 1, c :: s =>
    if c = 10 then ([c], s) else (c :: (fgetsChunk k s).1, (fgetsChunk k s).2)

/-- `fgets` into a buffer of `n` bytes, one of which is the terminating zero. -/
def fgets (n : Nat) (s : List UInt8) : Option (List UInt8 × List UInt8) :=
  if s = [] then none else some (fgetsChunk (n - 1) s)

/-- The chunks of the first calls of `fgets`. -/
def fgetsLoop (n : Nat) : Nat → List UInt8 → List (List UInt8)
  | 0, _ => []
  | calls + 1, s =>
    match fgets n s with
    | none => []
    | some (chunk, rest) => chunk :: fgetsLoop n calls rest

/-- The chunks of all the calls of `fgets` until it returns a null pointer. -/
def fgetsAll (n : Nat) (s : List UInt8) : List (List UInt8) := fgetsLoop n s.length s

/-- The lines of a file. -/
def fileLines : List UInt8 → List (List UInt8)
  | [] => []
  | c :: s =>
    if c = 10 then [c] :: fileLines s
    else
      match fileLines s with
      | [] => [[c]]
      | l :: ls => (c :: l) :: ls

/-- The longest leading run of `lead` and the longest trailing run of `trail`
    removed. -/
def trim (lead trail : UInt8 → Bool) (s : List UInt8) : List UInt8 :=
  (s.dropWhile lead).rdropWhile trail

theorem terminated_of_noNul (s : List UInt8) (h : 0 ∉ s) : terminated s = s := by
  refine List.takeWhile_eq_self_iff.mpr (fun c hc => ?_)
  simp only [bne_iff_ne, ne_eq]
  exact fun hzero => h (hzero ▸ hc)

theorem noNul_terminated (b : List UInt8) : 0 ∉ terminated b := by
  intro h
  have hne := List.mem_takeWhile_imp h
  simp only [bne_self_eq_false, Bool.false_eq_true] at hne

/-- The string that a buffer holds. -/
def Str.ofBytes (b : List UInt8) : Str := ⟨terminated b, noNul_terminated b⟩

/-- Two strings joined are a string. -/
def Str.append (s t : Str) : Str where
  bytes := s.bytes ++ t.bytes
  noNul := fun hzero => (List.mem_append.mp hzero).elim s.noNul t.noNul

theorem terminated_append (s t : List UInt8) (h : 0 ∉ s) : terminated (s ++ 0 :: t) = s := by
  induction s with
  | nil => rfl
  | cons c s ih =>
      have hc : (c != 0) = true := by
        rw [bne_iff_ne]
        exact fun hzero => h (hzero ▸ List.mem_cons_self)
      rw [List.cons_append, terminated, List.takeWhile_cons, if_pos hc]
      exact congrArg _ (ih (fun hs => h (List.mem_cons_of_mem c hs)))

/-- A string that is shorter than its buffer ends with a zero. -/
theorem terminated_zero (b : List UInt8) (h : (terminated b).length < b.length) :
    b[(terminated b).length]? = some 0 := by
  induction b with
  | nil => exact absurd h (Nat.lt_irrefl 0)
  | cons c b ih =>
      rw [terminated, List.takeWhile_cons] at h ⊢
      by_cases hc : (c != 0) = true
      · rw [if_pos hc, List.length_cons] at h ⊢
        rw [List.getElem?_cons_succ]
        exact ih (Nat.lt_of_succ_lt_succ h)
      · rw [if_neg hc, List.length_nil, List.getElem?_cons_zero]
        exact congrArg some (by simpa using hc)

theorem toLower_toNat_ne (c : UInt8) (h : c ≠ 0) : (toLower c).toNat ≠ 0 := by
  have hc : c.toNat ≠ 0 := fun hc => h (UInt8.toNat_inj.mp hc)
  unfold toLower
  -- A capital plus 32 does not wrap.
  by_cases hupper : 65 ≤ c ∧ c ≤ 90
  · rw [if_pos hupper, UInt8.toNat_add, show (32 : UInt8).toNat = 32 from rfl]
    have hhi : c.toNat ≤ 90 := UInt8.le_iff_toNat_le.mp hupper.2
    omega
  · rwa [if_neg hupper]

/-- A character below the small letters has no other form. -/
theorem eq_of_toLower (c d : UInt8) (h : toLower c = d) (hd : d.toNat < 97) : c = d := by
  unfold toLower at h
  by_cases hupper : 65 ≤ c ∧ c ≤ 90
  · rw [if_pos hupper] at h
    have hlo : 65 ≤ c.toNat := UInt8.le_iff_toNat_le.mp hupper.1
    have hhi : c.toNat ≤ 90 := UInt8.le_iff_toNat_le.mp hupper.2
    have hsum := congrArg UInt8.toNat h
    rw [UInt8.toNat_add, show (32 : UInt8).toNat = 32 from rfl] at hsum
    omega
  · rwa [if_neg hupper] at h

theorem toNat_sub_ne (a b : UInt8) (h : a ≠ b) : (a.toNat - b.toNat : Int) ≠ 0 := by
  intro hzero
  exact h (UInt8.toNat_inj.mp (by omega))

theorem strcasecmp_eq_zero : ∀ (s t : List UInt8), 0 ∉ s → 0 ∉ t →
    (strcasecmp s t = 0 ↔ s.map toLower = t.map toLower) := by
  intro s
  induction s with
  | nil =>
      intro t _ ht
      cases t with
      | nil => exact ⟨fun _ => rfl, fun _ => rfl⟩
      | cons b t =>
          -- The longer string goes on with a character, not with its zero.
          have hb := toLower_toNat_ne b (fun hb => ht (hb ▸ List.mem_cons_self))
          simp only [strcasecmp, List.map_nil, List.map_cons, reduceCtorEq, iff_false]
          omega
  | cons a s ih =>
      intro t hs ht
      cases t with
      | nil =>
          have ha := toLower_toNat_ne a (fun ha => hs (ha ▸ List.mem_cons_self))
          simp only [strcasecmp, List.map_nil, List.map_cons, reduceCtorEq, iff_false]
          omega
      | cons b t =>
          rw [strcasecmp, List.map_cons, List.map_cons, List.cons.injEq]
          by_cases hab : toLower a = toLower b
          · rw [if_pos hab, ih t (fun h => hs (List.mem_cons_of_mem a h))
              (fun h => ht (List.mem_cons_of_mem b h))]
            exact (and_iff_right hab).symm
          · rw [if_neg hab]
            exact iff_of_false (toNat_sub_ne _ _ hab) (fun h => hab h.1)

/-- The comparison of all of `s` with as much of `t`. -/
theorem strncasecmp_eq_zero : ∀ (s t : List UInt8), 0 ∉ s →
    (strncasecmp s t s.length = 0 ↔ (t.take s.length).map toLower = s.map toLower) := by
  intro s
  induction s with
  | nil =>
      intro t _
      simp only [List.length_nil, strncasecmp, List.take_zero, List.map_nil]
  | cons a s ih =>
      intro t hs
      cases t with
      | nil =>
          -- The string ends before `s.length` characters were compared.
          have ha := toLower_toNat_ne a (fun ha => hs (ha ▸ List.mem_cons_self))
          simp only [List.length_cons, strncasecmp, List.take_nil, List.map_nil, List.map_cons,
            reduceCtorEq, iff_false]
          omega
      | cons b t =>
          rw [List.length_cons, strncasecmp, List.take_succ_cons, List.map_cons, List.map_cons,
            List.cons.injEq]
          by_cases hab : toLower a = toLower b
          · rw [if_pos hab, ih t (fun h => hs (List.mem_cons_of_mem a h))]
            exact (and_iff_right hab.symm).symm
          · rw [if_neg hab]
            exact iff_of_false (toNat_sub_ne _ _ hab) (fun h => hab h.1.symm)

theorem strchr_none (s : List UInt8) (c : UInt8) : strchr s c = none ↔ c ∉ s := by
  induction s with
  | nil => exact iff_of_true rfl List.not_mem_nil
  | cons b s ih =>
      rw [strchr, List.mem_cons, not_or]
      by_cases hb : b = c
      · rw [if_pos hb]
        exact iff_of_false (fun h => nomatch h) (fun h => h.1 hb.symm)
      · rw [if_neg hb, Option.map_eq_none_iff, ih]
        exact (and_iff_right (fun h => hb h.symm)).symm

/-- What lies before the first occurrence, and what lies after it. -/
theorem strchr_some : ∀ (s : List UInt8) (c : UInt8) (p : Nat), strchr s c = some p →
    s.take p = s.takeWhile (fun b => b != c) ∧
      s.drop (p + 1) = (s.dropWhile (fun b => b != c)).tail := by
  intro s
  induction s with
  | nil =>
      intro c p h
      exact absurd h (fun h => nomatch h)
  | cons b s ih =>
      intro c p h
      rw [strchr] at h
      -- Either the scan ends at this byte, or it goes on and every index moves by one.
      by_cases hb : b = c
      · rw [if_pos hb, Option.some.injEq] at h
        have hstop : ¬ (b != c) = true := by rw [bne_iff_ne, not_not]; exact hb
        subst h
        rw [List.takeWhile_cons, List.dropWhile_cons, if_neg hstop, if_neg hstop]
        exact ⟨rfl, rfl⟩
      · rw [if_neg hb, Option.map_eq_some_iff] at h
        rcases h with ⟨q, hq, hp⟩
        -- The byte is passed over, so it stays in front on both sides.
        have hgo : (b != c) = true := bne_iff_ne.mpr hb
        rcases ih c q hq with ⟨htake, hdrop⟩
        subst hp
        rw [List.takeWhile_cons, List.dropWhile_cons, if_pos hgo, if_pos hgo,
          List.take_succ_cons, List.drop_succ_cons, htake, hdrop]
        exact ⟨rfl, rfl⟩

/-- A string and its zero, stored in a buffer with room for both. -/
theorem store_fits {n : Nat} (b : CharBuf n) (s : List UInt8) (hs : 0 ∉ s) (hlen : s.length < n) :
    ∃ b', (b.strncpy s s.length).bind (fun b => b.write s.length [0]) = some b' ∧ b'.str = s := by
  -- `strncpy` is told the length of its source and has nothing to pad.
  have hpad : s.take s.length ++ List.replicate (s.length - s.length) 0 = s := by
    rw [List.take_length, Nat.sub_self, List.replicate_zero, List.append_nil]
  rw [CharBuf.strncpy, hpad, CharBuf.write, dif_pos (by omega), Option.bind_some, CharBuf.write,
    dif_pos (by rw [List.length_singleton]; omega)]
  refine ⟨_, rfl, ?_⟩
  simp only [CharBuf.str, List.take_zero, List.nil_append, List.take_left, List.singleton_append]
  exact terminated_append s _ hs

/-- A string that leaves no room for its zero. -/
theorem store_overruns {n : Nat} (b : CharBuf n) (s : List UInt8) (hlen : n ≤ s.length) :
    (b.strncpy s s.length).bind (fun b => b.write s.length [0]) = none := by
  refine Option.bind_eq_none_iff.mpr (fun b' _ => ?_)
  -- Whether or not the string fit, its zero does not.
  rw [CharBuf.write, dif_neg (by rw [List.length_singleton]; omega)]

theorem fgetsChunk_nil (k : Nat) : fgetsChunk k [] = ([], []) := by
  cases k with
  | zero => rfl
  | succ k => rfl

theorem fgetsChunk_append : ∀ (k : Nat) (s : List UInt8),
    (fgetsChunk k s).1 ++ (fgetsChunk k s).2 = s := by
  intro k
  induction k with
  | zero =>
      intro s
      rfl
  | succ k ih =>
      intro s
      cases s with
      | nil => rfl
      | cons c s =>
          rw [fgetsChunk]
          -- A newline ends the chunk and is its last byte; what follows stays in the stream.
          by_cases hc : c = 10
          · rw [if_pos hc]
            rfl
          · rw [if_neg hc, List.cons_append, ih s]

theorem fgetsChunk_length : ∀ (k : Nat) (s : List UInt8), (fgetsChunk k s).1.length ≤ k := by
  intro k
  induction k with
  | zero =>
      intro s
      exact Nat.le_refl 0
  | succ k ih =>
      intro s
      cases s with
      | nil => exact Nat.zero_le _
      | cons c s =>
          rw [fgetsChunk]
          -- A newline ends the chunk with k + 1 bytes still allowed.
          by_cases hc : c = 10
          · rw [if_pos hc, List.length_singleton]
            omega
          · rw [if_neg hc, List.length_cons]
            exact Nat.succ_le_succ (ih s)

/-- No chunk is longer than the buffer allows. -/
theorem fgetsLoop_length (n : Nat) : ∀ (calls : Nat) (s : List UInt8),
    ∀ chunk ∈ fgetsLoop n calls s, chunk.length ≤ n - 1 := by
  intro calls
  induction calls with
  | zero =>
      intro s chunk hchunk
      exact absurd hchunk List.not_mem_nil
  | succ calls ih =>
      intro s chunk hchunk
      rw [fgetsLoop, fgets] at hchunk
      -- An exhausted stream ends the loop with no further chunk.
      by_cases hs : s = []
      · rw [if_pos hs] at hchunk
        exact absurd hchunk List.not_mem_nil
      · rw [if_neg hs] at hchunk
        rcases List.mem_cons.mp hchunk with hfirst | hrest
        · rw [hfirst]
          exact fgetsChunk_length (n - 1) s
        -- The rest of the stream is read by one call fewer.
        · exact ih _ chunk hrest

/-- A call that finds something reads at least one byte. -/
theorem fgetsChunk_progress (k : Nat) (c : UInt8) (s : List UInt8) :
    (fgetsChunk (k + 1) (c :: s)).2.length ≤ s.length := by
  rw [fgetsChunk]
  by_cases hc : c = 10
  · rw [if_pos hc]
  · rw [if_neg hc]
    have hlen := congrArg List.length (fgetsChunk_append k s)
    rw [List.length_append] at hlen
    simp only
    omega

/-- The calls that `fgetsAll` makes are enough. -/
theorem fgetsLoop_enough (k : Nat) : ∀ (calls calls' : Nat) (s : List UInt8), s.length ≤ calls →
    s.length ≤ calls' → fgetsLoop (k + 2) calls s = fgetsLoop (k + 2) calls' s := by
  intro calls
  induction calls with
  | zero =>
      -- With no calls allowed the bound leaves no bytes either, and any loop stops on an empty
      -- stream.
      intro calls' s h _
      rw [List.eq_nil_of_length_eq_zero (Nat.le_zero.mp h)]
      cases calls' with
      | zero => rfl
      | succ calls' => rfl
  | succ calls ih =>
      intro calls' s h h'
      cases s with
      | nil =>
          cases calls' with
          | zero => rfl
          | succ calls' => rfl
      | cons c s =>
          -- fgets takes at least one byte, so what is left is shorter than the calls that are left.
          have hprogress := fgetsChunk_progress k c s
          rw [List.length_cons] at h h'
          cases calls' with
          | zero => omega
          | succ calls' =>
              rw [fgetsLoop, fgetsLoop, fgets, if_neg (List.cons_ne_nil c s)]
              simp only [show k + 2 - 1 = k + 1 from rfl]
              rw [ih calls' _ (by omega) (by omega)]

/-- The first call of `fgets`, and the others. -/
theorem fgetsAll_cons (k : Nat) (c : UInt8) (s : List UInt8) :
    fgetsAll (k + 2) (c :: s) = (fgetsChunk (k + 1) (c :: s)).1
      :: fgetsAll (k + 2) (fgetsChunk (k + 1) (c :: s)).2 := by
  have hprogress := fgetsChunk_progress k c s
  rw [fgetsAll, List.length_cons, fgetsLoop, fgets, if_neg (List.cons_ne_nil c s)]
  simp only [show k + 2 - 1 = k + 1 from rfl]
  rw [fgetsLoop_enough k _ _ _ hprogress (Nat.le_refl _), fgetsAll]

theorem fileLines_eq_nil (s : List UInt8) (h : fileLines s = []) : s = [] := by
  cases s with
  | nil => rfl
  | cons c s =>
      rw [fileLines] at h
      by_cases hc : c = 10
      · rw [if_pos hc] at h
        exact absurd h (fun h => nomatch h)
      · rw [if_neg hc] at h
        cases hs : fileLines s with
        | nil => rw [hs] at h; exact absurd h (fun h => nomatch h)
        | cons l ls => rw [hs] at h; exact absurd h (fun h => nomatch h)

theorem fileLines_flatten (s : List UInt8) : (fileLines s).flatten = s := by
  induction s with
  | nil => rfl
  | cons c s ih =>
      rw [fileLines]
      -- Every byte of s ends up in one line: a newline ends its own, any other byte opens the next
      -- line or joins it.
      by_cases hc : c = 10
      · rw [if_pos hc, List.flatten_cons, ih]
        rfl
      · rw [if_neg hc]
        cases hs : fileLines s with
        -- The last line, which no newline has ended.
        | nil =>
            rw [fileLines_eq_nil s hs]
            rfl
        | cons l ls =>
            rw [hs, List.flatten_cons] at ih
            rw [List.flatten_cons, List.cons_append, ih]

/-- Lines written one behind the other. -/
theorem fileLines_lines (ls : List (List UInt8)) (h : ∀ l ∈ ls, 10 ∉ l) :
    fileLines (ls.map (· ++ [10])).flatten = ls.map (· ++ [10]) := by
  -- One line with no newline of its own comes back as one line.
  have hline : ∀ (l s : List UInt8), 10 ∉ l →
      fileLines (l ++ [10] ++ s) = (l ++ [10]) :: fileLines s := by
    intro l s hl
    induction l with
    | nil => exact if_pos rfl
    | cons c l ih =>
        rw [List.mem_cons, not_or] at hl
        rw [List.cons_append, List.cons_append, fileLines, if_neg (Ne.symm hl.1), ih hl.2]
  induction ls with
  | nil => rfl
  | cons l ls ih =>
      rw [List.map_cons, List.flatten_cons, hline l _ (h l List.mem_cons_self),
        ih (fun l' hl' => h l' (List.mem_cons_of_mem l hl'))]

/-- A first line that fits is what `fgets` reads. -/
theorem fgetsChunk_line : ∀ (s : List UInt8) (k : Nat) (l : List UInt8) (ls : List (List UInt8)),
    fileLines s = l :: ls → l.length ≤ k →
    (fgetsChunk k s).1 = l ∧ fileLines (fgetsChunk k s).2 = ls := by
  intro s
  induction s with
  | nil =>
      intro k l ls h _
      exact absurd h (fun h => nomatch h)
  | cons c s ih =>
      intro k l ls h hlen
      rw [fileLines] at h
      by_cases hc : c = 10
      · rw [if_pos hc, List.cons.injEq] at h
        rcases h with ⟨hl, hls⟩
        subst hl
        cases k with
        | zero => exact absurd hlen (by rw [List.length_singleton]; omega)
        | succ k =>
            rw [fgetsChunk, if_pos hc]
            exact ⟨by rw [hc], hls⟩
      · rw [if_neg hc] at h
        cases hs : fileLines s with
        | nil =>
            -- The last line of a file may have no newline.
            rw [hs, List.cons.injEq] at h
            rcases h with ⟨hl, hls⟩
            subst hl
            cases k with
            | zero => exact absurd hlen (by rw [List.length_singleton]; omega)
            | succ k =>
                rw [fgetsChunk, if_neg hc, fileLines_eq_nil s hs, fgetsChunk_nil]
                exact ⟨rfl, hls⟩
        | cons l' ls' =>
            rw [hs, List.cons.injEq] at h
            rcases h with ⟨hl, hls⟩
            subst hl
            rw [List.length_cons] at hlen
            cases k with
            | zero => exact absurd hlen (by omega)
            | succ k =>
                rcases ih k l' ls' hs (by omega) with ⟨hchunk, hrest⟩
                rw [fgetsChunk, if_neg hc]
                exact ⟨by rw [hchunk], by rw [hrest, hls]⟩

/-- If every line fits the buffer, the chunks are the lines. -/
theorem fgetsAll_lines (k : Nat) (s : List UInt8) (h : ∀ l ∈ fileLines s, l.length ≤ k + 1) :
    fgetsAll (k + 2) s = fileLines s := by
  induction hlen : s.length using Nat.strongRecOn generalizing s with
  | _ n ih =>
      cases s with
      | nil => rfl
      | cons c s =>
          have hprogress := fgetsChunk_progress k c s
          rw [List.length_cons] at hlen
          rw [fgetsAll_cons]
          cases hlines : fileLines (c :: s) with
          | nil => exact absurd (fileLines_eq_nil _ hlines) (List.cons_ne_nil c s)
          | cons l ls =>
              rw [hlines] at h
              -- The first chunk is the first line, and the rest is the others.
              rcases fgetsChunk_line (c :: s) (k + 1) l ls hlines (h l List.mem_cons_self)
                with ⟨hchunk, hrest⟩
              rw [hchunk, ih _ (by omega) _
                (fun l' hl' => h l' (List.mem_cons_of_mem l (hrest ▸ hl'))) rfl, hrest]

theorem takeWhile_take {α : Type} (p : α → Bool) : ∀ (s : List α) (k : Nat),
    (s.take k).takeWhile p = (s.takeWhile p).take k := by
  intro s
  induction s with
  | nil =>
      intro k
      rw [List.take_nil, List.takeWhile_nil, List.take_nil]
  | cons a s ih =>
      -- Once k bytes are taken nothing is left to pass the test.
      intro k
      cases k with
      | zero => rfl
      | succ k =>
          rw [List.take_succ_cons, List.takeWhile_cons, List.takeWhile_cons]
          by_cases ha : p a = true
          · rw [if_pos ha, if_pos ha, List.take_succ_cons, ih]
          · rw [if_neg ha, if_neg ha, List.take_nil]

theorem takeWhile_append_stop {α : Type} (p : α → Bool) (xs ys : List α)
    (h : ∀ y ∈ ys.head?, p y = false) : (xs ++ ys).takeWhile p = xs.takeWhile p := by
  induction xs with
  | nil =>
      cases ys with
      | nil => rfl
      | cons y ys =>
          rw [List.nil_append, List.takeWhile_cons_of_neg (by simp [h y rfl]), List.takeWhile_nil]
  | cons x xs ih => rw [List.cons_append, List.takeWhile_cons, List.takeWhile_cons, ih]

theorem dropWhile_eq_drop {α : Type} (p : α → Bool) (s : List α) :
    s.dropWhile p = s.drop (s.takeWhile p).length := by
  have hsplit := List.takeWhile_append_dropWhile (p := p) (l := s)
  have hdrop := congrArg (List.drop (s.takeWhile p).length) hsplit
  rwa [List.drop_left] at hdrop

/-- What is left between the two runs. If they meet, nothing is. -/
theorem trim_eq_take (lead trail : UInt8 → Bool) (s : List UInt8) :
    trim lead trail s = (s.drop (s.takeWhile lead).length).take
      (s.length - (s.takeWhile lead).length - (s.reverse.takeWhile trail).length) := by
  -- The trailing run of what is left is that of `s`, cut off at the leading run.
  have hrun : ((s.drop (s.takeWhile lead).length).reverse.takeWhile trail).length
      = min (s.length - (s.takeWhile lead).length) (s.reverse.takeWhile trail).length := by
    rw [List.reverse_drop, takeWhile_take, List.length_take]
  rw [trim, dropWhile_eq_drop, List.rdropWhile, dropWhile_eq_drop, hrun, List.reverse_drop,
    List.reverse_reverse, List.length_reverse, List.length_drop]
  congr 1
  omega

/-- It does not matter which of the runs is removed first. -/
theorem trim_eq_dropWhile (lead trail : UInt8 → Bool) (s : List UInt8) :
    trim lead trail s = (s.rdropWhile trail).dropWhile lead := by
  have hkept : s.rdropWhile trail = s.take (s.length - (s.reverse.takeWhile trail).length) := by
    rw [List.rdropWhile, dropWhile_eq_drop, List.reverse_drop, List.reverse_reverse,
      List.length_reverse]
  rw [trim_eq_take, hkept, dropWhile_eq_drop, takeWhile_take, List.length_take, List.drop_take]
  -- The runs leave something between them, or they meet.
  rcases Nat.le_total (s.takeWhile lead).length
    (s.length - (s.reverse.takeWhile trail).length) with hle | hle
  · rw [Nat.min_eq_right hle, Nat.sub_right_comm]
  · rw [Nat.min_eq_left hle, Nat.sub_self, Nat.sub_right_comm, Nat.sub_eq_zero_of_le hle,
      List.take_zero, List.take_zero]

/-- A trimmed string begins and ends with characters that stay. -/
theorem trim_trim (lead trail : UInt8 → Bool) (s : List UInt8) :
    trim lead trail (trim lead trail s) = trim lead trail s := by
  have hlead : (trim lead trail s).dropWhile lead = trim lead trail s := by
    rw [trim_eq_dropWhile, List.dropWhile_idempotent]
  have htrail : (trim lead trail s).rdropWhile trail = trim lead trail s := by
    rw [trim, List.rdropWhile_idempotent]
  rw [trim, hlead, htrail]

theorem noNul_trim (lead trail : UInt8 → Bool) (s : List UInt8) (h : 0 ∉ s) :
    0 ∉ trim lead trail s := by
  rw [trim_eq_take]
  exact fun hmem => h (List.mem_of_mem_drop (List.mem_of_mem_take hmem))

end CString
