import Aircmn.Theory.Conf.Lines
import Mathlib.Data.List.GetD

/-!
# Trimming a Token

`cfg_token_copy` scans its source from both ends, for different characters: a
newline is skipped at the end and not at the beginning. Each loop stops behind
the run it skips, so the indices are the lengths of the two runs, and `i <= j`
fails just when the trailing run is everything.

The indices are `int`s. The lookups pass parts of a buffer of
`MAX_PATH_LEN + 1` bytes, and for every string whose length is an `int` the
loops do what `cfgTokenCopy` says.

## Main definitions

* `tokenTrim`: The trailing run removed, and then the leading one.

## Theorems

* `tokenLead_eq`, `tokenTrail_eq`: Where the loops stop.
* `cfgTokenCopyLoops_eq`: The loops and the lengths of the runs agree.
* `cfgTokenCopyLoops_chunk`: So they do in the lookups.
* `cfgTokenCopyLoops_copies`: What is copied.
* `cfg_token_copy_trims`: Trimming, once and again.
-/

namespace Aircmn

open CString

/-- The trailing blanks, tabs and newlines removed, and then the leading
    blanks and tabs. -/
def tokenTrim (s : List UInt8) : List UInt8 := (s.rdropWhile isBlankOrNewline).dropWhile isBlank

/-- The first loop before index `i`. -/
theorem tokenLead_eq (src : List UInt8) (hlen : src.length < 2 ^ 31) :
    ∀ (k : Nat) (i : Int32), 0 ≤ i.toInt → i.toInt ≤ src.length → src.length ≤ i.toInt + k →
      (tokenLead src (.ofNat src.length) k i).toInt
        = i.toInt + ((src.drop i.toInt.toNat).takeWhile isBlank).length := by
  have hsize : (Int32.ofNat src.length).toInt = src.length :=
    Int32.toInt_ofInt_of_le (n := src.length) (by omega) (by omega)
  -- At the end of the string no blank is left to skip.
  have hend : ∀ i : Int32, i.toInt = src.length →
      i.toInt = i.toInt + ((src.drop i.toInt.toNat).takeWhile isBlank).length := by
    intro i hi
    rw [List.drop_eq_nil_of_le (by omega), List.takeWhile_nil, List.length_nil]
    omega
  intro k
  induction k with
  | zero =>
      intro i _ hle hk
      exact hend i (by omega)
  | succ k ih =>
      intro i hlo hle hk
      rw [tokenLead]
      by_cases hlt : i < .ofNat src.length
      · have hin : i.toInt.toNat < src.length := by
          have hltInt := Int32.lt_iff_toInt_lt.mp hlt
          omega
        rw [if_pos hlt, List.getD_eq_getElem _ _ hin, List.drop_eq_getElem_cons hin,
          List.takeWhile_cons]
        by_cases hblank : isBlank src[i.toInt.toNat] = true
        · have hnext : (i + 1).toInt = i.toInt + 1 :=
            int32_add_toInt i 1 hlo (by decide) (by rw [Int32.toInt_one]; omega)
          rw [if_pos hblank, if_pos hblank, List.length_cons, ih (i + 1) (by omega) (by omega)
            (by omega), hnext, show (i.toInt + 1).toNat = i.toInt.toNat + 1 by omega]
          omega
        · rw [if_neg hblank, if_neg hblank, List.length_nil]
          omega
      · rw [if_neg hlt]
        refine hend i ?_
        have hge : ¬ i.toInt < (Int32.ofNat src.length).toInt :=
          fun h => hlt (Int32.lt_iff_toInt_lt.mpr h)
        omega

/-- The second loop before index `j`. -/
theorem tokenTrail_eq (src : List UInt8) :
    ∀ (k : Nat) (j : Int32), -1 ≤ j.toInt → j.toInt < src.length → j.toInt < k →
      (tokenTrail src k j).toInt
        = j.toInt - ((src.take (j.toInt + 1).toNat).reverse.takeWhile isBlankOrNewline).length := by
  -- And none is left before the beginning.
  have hend : ∀ j : Int32, j.toInt = -1 → j.toInt
      = j.toInt - ((src.take (j.toInt + 1).toNat).reverse.takeWhile isBlankOrNewline).length := by
    intro j hj
    rw [hj]
    rfl
  intro k
  induction k with
  | zero =>
      intro j hlo _ hk
      exact hend j (by omega)
  | succ k ih =>
      intro j hlo hhi hk
      rw [tokenTrail]
      by_cases hle : 0 ≤ j
      · have hpos : 0 ≤ j.toInt := Int32.le_iff_toInt_le.mp hle
        have hin : j.toInt.toNat < src.length := by omega
        rw [if_pos hle, List.getD_eq_getElem _ _ hin,
          show (j.toInt + 1).toNat = j.toInt.toNat + 1 by omega,
          List.take_succ_eq_append_getElem hin, List.reverse_append, List.reverse_singleton,
          List.singleton_append, List.takeWhile_cons]
        by_cases hblank : isBlankOrNewline src[j.toInt.toNat] = true
        · have hprev : (j - 1).toInt = j.toInt - 1 :=
            int32_sub_toInt j 1 (by decide) (by rw [Int32.toInt_one]; omega)
          rw [if_pos hblank, if_pos hblank, List.length_cons, ih (j - 1) (by omega) (by omega)
            (by omega), hprev, show (j.toInt - 1 + 1).toNat = j.toInt.toNat by omega]
          omega
        · rw [if_neg hblank, if_neg hblank, List.length_nil]
          omega
      · rw [if_neg hle]
        refine hend j ?_
        have hneg : ¬ 0 ≤ j.toInt := fun h => hle (Int32.le_iff_toInt_le.mpr h)
        omega

/-- On strings whose length is an `int` the loops find the runs. -/
theorem cfgTokenCopyLoops_eq {n : Nat} (dst : CharBuf n) (src : Str)
    (hlen : src.bytes.length < 2 ^ 31) :
    cfgTokenCopyLoops dst src = cfgTokenCopy dst src.bytes := by
  have hsize : (Int32.ofNat src.bytes.length).toInt = src.bytes.length :=
    Int32.toInt_ofInt_of_le (n := src.bytes.length) (by omega) (by omega)
  have hlast : (Int32.ofNat src.bytes.length - 1).toInt = src.bytes.length - 1 := by
    rw [int32_sub_toInt _ 1 (by decide) (by rw [Int32.toInt_one]; omega), hsize, Int32.toInt_one]
  -- The first loop starts at the beginning, and the second at the last byte.
  have hlead := tokenLead_eq src.bytes hlen src.bytes.length 0 (Int.le_refl 0)
    (by rw [Int32.toInt_zero]; omega) (by rw [Int32.toInt_zero]; omega)
  have htrail := tokenTrail_eq src.bytes src.bytes.length (.ofNat src.bytes.length - 1)
    (by omega) (by omega) (by omega)
  rw [Int32.toInt_zero, Int.toNat_zero, List.drop_zero, Int.zero_add] at hlead
  rw [hlast, show ((src.bytes.length : Int) - 1 + 1).toNat = src.bytes.length by omega,
    List.take_length] at htrail
  rw [cfgTokenCopyLoops, cfgTokenCopy]
  generalize tokenLead src.bytes (.ofNat src.bytes.length) src.bytes.length 0 = i at hlead ⊢
  generalize tokenTrail src.bytes src.bytes.length (.ofNat src.bytes.length - 1) = j at htrail ⊢
  simp only [← hlead, ← htrail]
  by_cases hij : i ≤ j
  · have hij' := Int32.le_iff_toInt_le.mp hij
    have hdiff : (j - i).toInt = j.toInt - i.toInt := int32_sub_toInt j i (by omega) (by omega)
    have hcount : (j - i + 1).toInt = j.toInt - i.toInt + 1 := by
      rw [int32_add_toInt _ 1 (by omega) (by decide) (by rw [Int32.toInt_one]; omega), hdiff,
        Int32.toInt_one]
    rw [if_pos hij, if_pos hij', sizeOfInt_of_nonneg _ (by omega), hcount]
  · rw [if_neg hij, if_neg (fun h => hij (Int32.le_iff_toInt_le.mpr h))]

theorem tokenTrim_eq (s : List UInt8) : tokenTrim s = iniTrim s :=
  (trim_eq_dropWhile isBlank isBlankOrNewline s).symm

theorem tokenTrim_length (s : List UInt8) : (tokenTrim s).length ≤ s.length :=
  Nat.le_trans (List.dropWhile_suffix _).length_le (List.rdropWhile_prefix _ _).length_le

/-- The lookups copy parts of a chunk, and a chunk fits their buffer. -/
theorem cfgTokenCopyLoops_chunk {n : Nat} (dst : CharBuf n) (file chunk : List UInt8) (part : Str)
    (hchunk : chunk ∈ cfgChunks file) (hpart : part.bytes <:+: chunk) :
    cfgTokenCopyLoops dst part = cfgTokenCopy dst part.bytes := by
  rcases List.mem_map.mp hchunk with ⟨line, hline, hterminated⟩
  have hlong := fgetsLoop_length (maxPathLen + 1) _ file line hline
  have hcut : chunk.length ≤ line.length := by
    rw [← hterminated]
    exact (List.takeWhile_prefix _).length_le
  have hpartLen := hpart.length_le
  have hmax : maxPathLen = 512 := rfl
  exact cfgTokenCopyLoops_eq dst part (by omega)

/-- The loops copy the trimmed text. -/
theorem cfgTokenCopyLoops_copies {n : Nat} (dst : CharBuf n) (src : Str)
    (hlen : src.bytes.length < 2 ^ 31) (hroom : (tokenTrim src.bytes).length < n) :
    ∃ b, cfgTokenCopyLoops dst src = some b ∧ b.str = tokenTrim src.bytes := by
  rw [cfgTokenCopyLoops_eq dst src hlen, tokenTrim_eq]
  rw [tokenTrim_eq] at hroom
  exact cfgTokenCopy_fits dst src.bytes src.noNul hroom

/-- Copying a token trims it and ends it with a zero, and copying the result
    gives it again. -/
theorem cfg_token_copy_trims {n : Nat} (dst : CharBuf n) (src : Str)
    (hlen : src.bytes.length < 2 ^ 31) (hroom : (tokenTrim src.bytes).length < n) :
    ∃ b, cfgTokenCopyLoops dst src = some b ∧ b.str = tokenTrim src.bytes ∧
      b.bytes[b.str.length]? = some 0 ∧ b.str.length ≤ src.bytes.length ∧
      ∀ (k : Nat) (dst' : CharBuf k), b.str.length < k →
        ∃ b', cfgTokenCopyLoops dst' (Str.ofBytes b.bytes) = some b' ∧ b'.str = b.str := by
  -- The copy is the trimmed text, which has no leading or trailing blanks.
  rcases cfgTokenCopyLoops_copies dst src hlen hroom with ⟨b, hcopy, hstr⟩
  have hshort := tokenTrim_length src.bytes
  refine ⟨b, hcopy, hstr, ?_, by rw [hstr]; exact hshort, fun k dst' hk => ?_⟩
  · exact terminated_zero b.bytes (by rw [b.length_eq, ← CharBuf.str, hstr]; exact hroom)
  -- Trimming it once more changes nothing.
  · have hagain : tokenTrim (Str.ofBytes b.bytes).bytes = b.str := by
      have hself : (Str.ofBytes b.bytes).bytes = iniTrim src.bytes := by
        rw [← tokenTrim_eq, ← hstr]
        rfl
      rw [tokenTrim_eq, hself, iniTrim, iniTrim, trim_trim, hstr, tokenTrim_eq, iniTrim]
    rcases cfgTokenCopyLoops_copies dst' (Str.ofBytes b.bytes)
      (by rw [show (Str.ofBytes b.bytes).bytes = b.str from rfl, hstr]; omega)
      (by rw [hagain]; exact hk) with ⟨b', hcopy', hstr'⟩
    exact ⟨b', hcopy', hstr'.trans hagain⟩

/-- A token of blanks and newlines, with a newline in front that stays. -/
theorem cfg_token_copy_newline :
    ∃ b, cfgTokenCopyLoops (.zeroed 4) (Str.ofBytes [32, 10, 97, 9, 10]) = some b ∧
      b.str = [10, 97] := by
  rcases cfg_token_copy_trims (.zeroed 4) (Str.ofBytes [32, 10, 97, 9, 10]) (by decide) (by decide)
    with ⟨b, hcopy, hstr, _⟩
  exact ⟨b, hcopy, by rw [hstr]; decide⟩

end Aircmn
