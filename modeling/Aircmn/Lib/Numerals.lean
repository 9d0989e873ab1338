import Aircmn.Lib.CString
import Mathlib.Algebra.Group.Nat.Defs

/-!
# Decimal Numerals

The numerals that the C library reads: white space, a sign that may be left
out, and digits. `strtoul` reads the longest numeral a string begins with and
says where it ends. Its result is unsigned, so a sign negates modulo the word
size, and digits that denote too much give the largest word and an error.

`Numeral` describes the same strings without an order of reading. A string
begins with at most one numeral that is not followed by another digit, so the
description determines what `strtoul` returns.

## Main definitions

* `isSpace`, `isDigit`, `digitsVal`: Characters, and the value of digits.
* `Strtoul`, `strtoul`: The function, with base ten.
* `Numeral`: A string that begins with a numeral.

## Theorems

* `numeral_scan`: The scans find the parts of a numeral.
* `strtoul_numeral`: What is returned for a string that begins with a numeral.
* `strtoul_none`: What is returned for any other.
* `numeral_unique`: A string begins with one numeral.
-/

namespace Numerals

open CString

/-- `isspace` in the C locale. -/
def isSpace (c : UInt8) : Bool := c == 32 || (9 ≤ c && c ≤ 13)

/-- A decimal digit. -/
def isDigit (c : UInt8) : Bool := 48 ≤ c && c ≤ 57

/-- The number that digits denote, the first being the highest. -/
def digitsVal (ds : List UInt8) : Nat := ds.foldl (fun n d => 10 * n + (d.toNat - 48)) 0

/-- `ERANGE`. -/
def erange : Int32 := 34

/-- What `strtoul` returns, where it has stopped, and `errno`. -/
structure Strtoul where
  value : UInt64
  rest : List UInt8
  errno : Int32
deriving DecidableEq

/-- A sign, and what is behind it. -/
def splitSign (s : List UInt8) : Bool × List UInt8 :=
  match s with
  | c :: t => if c = 45 then (true, t) else if c = 43 then (false, t) else (false, s)
  | [] => (false, [])

/-- The word for a number with a sign, and `errno`. -/
def strtoulWord (neg : Bool) (n : Nat) : UInt64 × Int32 :=
  if 2 ^ 64 ≤ n then (.ofNat (2 ^ 64 - 1), erange)
  else (if neg then -.ofNat n else .ofNat n, 0)

/-- `strtoul` with base ten and words of 64 bits, `errno` being zero before. -/
def strtoul (s : List UInt8) : Strtoul :=
  let r := splitSign (s.dropWhile isSpace)
  let ds := r.2.takeWhile isDigit
  if ds = [] then ⟨0, s, 0⟩
  else
    let word := strtoulWord r.1 (digitsVal ds)
    ⟨word.1, r.2.dropWhile isDigit, word.2⟩

/-- The sign of a numeral, which may be nothing or a plus. -/
def IsSign (neg : Bool) (sgn : List UInt8) : Prop :=
  if neg then sgn = [45] else sgn = [] ∨ sgn = [43]

/-- The string is a numeral and a rest that does not go on with a digit. -/
structure Numeral (s : List UInt8) (neg : Bool) (n : Nat) (rest : List UInt8) : Prop where
  split : ∃ sp sgn ds, s = sp ++ (sgn ++ (ds ++ rest)) ∧ (∀ c ∈ sp, isSpace c = true) ∧
    IsSign neg sgn ∧ ds ≠ [] ∧ (∀ c ∈ ds, isDigit c = true) ∧ digitsVal ds = n
  stops : ∀ c ∈ rest.head?, isDigit c = false

theorem isSpace_of_digit (c : UInt8) (h : isDigit c = true) :
    isSpace c = false ∧ c ≠ 45 ∧ c ≠ 43 := by
  simp only [isDigit, Bool.and_eq_true, decide_eq_true_eq] at h
  have hlo : 48 ≤ c.toNat := UInt8.le_iff_toNat_le.mp h.1
  have hne : ∀ d : UInt8, d.toNat < 48 → c ≠ d := fun d hd hc => by
    rw [hc] at hlo
    omega
  refine ⟨?_, hne 45 (by decide), hne 43 (by decide)⟩
  simp only [isSpace, Bool.or_eq_false_iff, beq_eq_false_iff_ne, Bool.and_eq_false_iff,
    decide_eq_false_iff_not]
  refine ⟨hne 32 (by decide), Or.inr (fun hle => ?_)⟩
  have hhi : c.toNat ≤ 13 := UInt8.le_iff_toNat_le.mp hle
  omega

theorem takeWhile_append_all {α : Type} (p : α → Bool) (xs ys : List α)
    (hxs : ∀ x ∈ xs, p x = true) (hys : ∀ y ∈ ys.head?, p y = false) :
    (xs ++ ys).takeWhile p = xs ∧ (xs ++ ys).dropWhile p = ys := by
  have htake := (takeWhile_append_stop p xs ys hys).trans (List.takeWhile_eq_self_iff.mpr hxs)
  exact ⟨htake, by rw [dropWhile_eq_drop, htake, List.drop_left]⟩

/-- A sign before digits is taken off, and only a sign is. -/
theorem splitSign_digits (neg : Bool) (sgn ds t : List UInt8) (hsgn : IsSign neg sgn)
    (hne : ds ≠ []) (hds : ∀ c ∈ ds, isDigit c = true) :
    splitSign (sgn ++ (ds ++ t)) = (neg, ds ++ t) := by
  -- A digit is no sign, so splitSign takes the sign and stops.
  cases ds with
  | nil => exact absurd rfl hne
  | cons d ds =>
      have hd := isSpace_of_digit d (hds d List.mem_cons_self)
      cases neg with
      | true =>
          rw [(hsgn : sgn = [45])]
          rfl
      | false =>
          -- Without a minus the sign is empty or a plus.
          rcases (hsgn : sgn = [] ∨ sgn = [43]) with hnil | hplus
          · rw [hnil, List.nil_append, List.cons_append, splitSign, if_neg hd.2.1, if_neg hd.2.2]
          · rw [hplus]
            rfl

/-- The white space before a sign and digits ends with them. -/
theorem sign_head (neg : Bool) (sgn ds t : List UInt8) (hsgn : IsSign neg sgn) (hne : ds ≠ [])
    (hds : ∀ c ∈ ds, isDigit c = true) : ∀ c ∈ (sgn ++ (ds ++ t)).head?, isSpace c = false := by
  intro c hc
  -- The first byte that is looked at is the sign or the first digit, and neither is a space.
  cases ds with
  | nil => exact absurd rfl hne
  | cons d ds =>
      cases neg with
      -- The signs are 45 and 43, and neither is a space.
      | true =>
          rw [(hsgn : sgn = [45])] at hc
          rw [← Option.some.inj hc]
          rfl
      | false =>
          rcases (hsgn : sgn = [] ∨ sgn = [43]) with hnil | hplus
          · rw [hnil] at hc
            rw [← Option.some.inj hc]
            exact (isSpace_of_digit d (hds d List.mem_cons_self)).1
          · rw [hplus] at hc
            rw [← Option.some.inj hc]
            rfl

/-- Each scan stops where the description has its next part. -/
theorem numeral_scan (s : List UInt8) (neg : Bool) (n : Nat) (rest : List UInt8)
    (h : Numeral s neg n rest) : ∃ ds, ds ≠ [] ∧ digitsVal ds = n ∧
      splitSign (s.dropWhile isSpace) = (neg, ds ++ rest) ∧
      (ds ++ rest).takeWhile isDigit = ds ∧ (ds ++ rest).dropWhile isDigit = rest := by
  rcases h.split with ⟨sp, sgn, ds, hs, hsp, hsgn, hne, hds, hval⟩
  have hspace := (takeWhile_append_all isSpace sp (sgn ++ (ds ++ rest)) hsp
    (sign_head neg sgn ds rest hsgn hne hds)).2
  refine ⟨ds, hne, hval, ?_, takeWhile_append_all isDigit ds rest hds h.stops⟩
  rw [hs, hspace, splitSign_digits neg sgn ds rest hsgn hne hds]

theorem strtoul_numeral (s : List UInt8) (neg : Bool) (n : Nat) (rest : List UInt8)
    (h : Numeral s neg n rest) :
    strtoul s = ⟨(strtoulWord neg n).1, rest, (strtoulWord neg n).2⟩ := by
  rcases numeral_scan s neg n rest h with ⟨ds, hne, hval, hsplit, htake, hdrop⟩
  rw [strtoul, hsplit]
  simp only [htake, hdrop, if_neg hne, hval]

theorem numeral_unique (s : List UInt8) (neg neg' : Bool) (n n' : Nat) (rest rest' : List UInt8)
    (h : Numeral s neg n rest) (h' : Numeral s neg' n' rest') :
    neg = neg' ∧ n = n' ∧ rest = rest' := by
  rcases numeral_scan s neg n rest h with ⟨ds, _, hval, hsplit, htake, hdrop⟩
  rcases numeral_scan s neg' n' rest' h' with ⟨ds', _, hval', hsplit', htake', hdrop'⟩
  rcases Prod.mk.inj (hsplit.symm.trans hsplit') with ⟨hneg, htext⟩
  rw [htext] at htake hdrop
  exact ⟨hneg, by rw [← hval, ← hval', htake.symm.trans htake'], hdrop.symm.trans hdrop'⟩

theorem splitSign_split (s : List UInt8) :
    ∃ sgn, IsSign (splitSign s).1 sgn ∧ s = sgn ++ (splitSign s).2 := by
  cases s with
  | nil => exact ⟨[], Or.inl rfl, rfl⟩
  -- A sign is at most one byte, and the rest is left as it is.
  | cons c t =>
      rw [splitSign]
      by_cases hminus : c = 45
      · rw [if_pos hminus]
        exact ⟨[45], rfl, by rw [hminus]; rfl⟩
      · rw [if_neg hminus]
        by_cases hplus : c = 43
        · rw [if_pos hplus]
          exact ⟨[43], Or.inr rfl, by rw [hplus]; rfl⟩
        · rw [if_neg hplus]
          exact ⟨[], Or.inl rfl, rfl⟩

/-- What the scans have found is a numeral, if there are digits. -/
theorem numeral_of_digits (s : List UInt8)
    (h : (splitSign (s.dropWhile isSpace)).2.takeWhile isDigit ≠ []) :
    ∃ neg n rest, Numeral s neg n rest := by
  rcases splitSign_split (s.dropWhile isSpace) with ⟨sgn, hsgn, hsplit⟩
  refine ⟨_, _, (splitSign (s.dropWhile isSpace)).2.dropWhile isDigit,
    ⟨s.takeWhile isSpace, sgn, _, ?_, fun c hc => List.mem_takeWhile_imp hc, hsgn, h,
      fun c hc => List.mem_takeWhile_imp hc, rfl⟩, ?_⟩
  · rw [List.takeWhile_append_dropWhile, ← hsplit, List.takeWhile_append_dropWhile]
  · intro c hc
    have hnot := List.head?_dropWhile_not isDigit (splitSign (s.dropWhile isSpace)).2
    rw [Option.mem_def.mp hc] at hnot
    simpa using hnot

theorem strtoul_none (s : List UInt8) (h : ∀ neg n rest, ¬ Numeral s neg n rest) :
    strtoul s = ⟨0, s, 0⟩ := by
  rw [strtoul]
  refine if_pos (Classical.byContradiction (fun hne => ?_))
  rcases numeral_of_digits s hne with ⟨neg, n, rest, hnum⟩
  exact h neg n rest hnum

end Numerals
