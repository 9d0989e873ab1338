import Aircmn.Core.Text

/-!
# Reading a Number

What `cmn_atol` should accept, the decimal numerals of the numbers that an
`int64_t` can hold, and exactly when it does what it should. It asks for an
error of `strtoul` and for characters behind the number at once, where either
would do. Digits that are too many are an error, and the word that `strtoul`
gives for them happens to be -1 as an `int64_t`. All else that should be
refused is not an error of `strtoul`: characters behind the number, no number
at all, and numbers from `2 ^ 63` on, which are numbers of an unsigned word.

So a text that should be refused is refused just when its word is -1, and that
is when the digits do not fit a word, or denote -1 or `2 ^ 64 - 1`.

## Main definitions

* `signed`: A number with its sign.
* `Denotes`: The whole text is a decimal number.
* `AtolExact`: What `cmn_atol` should do.
* `AtolMeets`: When it does.

## Theorems

* `strtoulWord_int64`: The word for a number, as an `int64_t`.
* `cmnAtol_numeral`, `cmnAtol_none`, `cmnAtol_held`: What is returned.
* `cmnAtol_refuses_iff`: When -1 is.
* `cmn_atol_exact_iff`: The condition is exact.
* `cmn_atol_misses`: Three ways to miss.
-/

namespace Aircmn

open CString Numerals

/-- A number and its sign. -/
def signed (neg : Bool) (n : Nat) : Int := if neg then -n else n

/-- The whole text is white space, a sign and digits, and denotes `v`. -/
def Denotes (s : List UInt8) (v : Int) : Prop :=
  ∃ sp sgn ds neg, s = sp ++ (sgn ++ ds) ∧ (∀ c ∈ sp, isSpace c = true) ∧ IsSign neg sgn ∧
    ds ≠ [] ∧ (∀ c ∈ ds, isDigit c = true) ∧ v = signed neg (digitsVal ds)

/-- The value can be held in an `int64_t`. -/
def InInt64 (v : Int) : Prop := -2 ^ 63 ≤ v ∧ v < 2 ^ 63

/-- Numbers that can be held are returned, and everything else is refused. -/
def AtolExact (line : Str) : Prop :=
  (∀ v, Denotes line.bytes v → InInt64 v → (cmnAtol line).toInt = v) ∧
    ((¬ ∃ v, Denotes line.bytes v ∧ InInt64 v) → cmnAtol line = -1)

/-- The whole text is a number that can be held, or it begins with one that
    does not fit a word or whose word is -1. -/
def AtolMeets (line : Str) : Prop :=
  (∃ v, Denotes line.bytes v ∧ InInt64 v) ∨
    ∃ neg n rest, Numeral line.bytes neg n rest ∧
      (2 ^ 64 ≤ n ∨ signed neg n = -1 ∨ signed neg n = 2 ^ 64 - 1)

theorem denotes_iff (s : List UInt8) (v : Int) :
    Denotes s v ↔ ∃ neg n, Numeral s neg n [] ∧ v = signed neg n := by
  constructor
  · rintro ⟨sp, sgn, ds, neg, hs, hsp, hsgn, hne, hds, hv⟩
    refine ⟨neg, digitsVal ds, ⟨⟨sp, sgn, ds, ?_, hsp, hsgn, hne, hds, rfl⟩, ?_⟩, hv⟩
    · rw [List.append_nil, hs]
    · exact fun c hc => absurd hc (Option.not_mem_none c)
  · rintro ⟨neg, n, hnum, hv⟩
    rcases hnum.split with ⟨sp, sgn, ds, hs, hsp, hsgn, hne, hds, hval⟩
    rw [List.append_nil] at hs
    exact ⟨sp, sgn, ds, neg, hs, hsp, hsgn, hne, hds, by rw [hval, hv]⟩

/-- The word for a number, read as an `int64_t`. -/
theorem strtoulWord_int64 (neg : Bool) (n : Nat) :
    (strtoulWord neg n).1.toInt64
      = if 2 ^ 64 ≤ n then -1 else Int64.ofInt (signed neg n) := by
  rw [strtoulWord]
  -- At 2 ^ 64 and above strtoul saturates, and as an Int64 the limit is -1.
  by_cases hbig : 2 ^ 64 ≤ n
  · rw [if_pos hbig, if_pos hbig]
    rfl
  · rw [if_neg hbig, if_neg hbig]
    -- Below it the value is the number, or its negation if there is a minus.
    cases neg with
    | true =>
        have hneg : signed true n = -(n : Int) := rfl
        rw [if_pos rfl, UInt64.toInt64_neg, UInt64.toInt64_ofNat', hneg, Int64.ofInt_neg,
          Int64.ofInt_eq_ofNat]
    | false =>
        have hpos : signed false n = (n : Int) := rfl
        rw [if_neg Bool.false_ne_true, UInt64.toInt64_ofNat', hpos, Int64.ofInt_eq_ofNat]

/-- Characters behind digits that are too many change nothing. -/
theorem cmnAtol_numeral (line : Str) (neg : Bool) (n : Nat) (rest : List UInt8)
    (h : Numeral line.bytes neg n rest) :
    cmnAtol line = if 2 ^ 64 ≤ n then -1 else Int64.ofInt (signed neg n) := by
  have hword := strtoulWord_int64 neg n
  have herrno : (strtoulWord neg n).2 = if 2 ^ 64 ≤ n then erange else 0 := by
    rw [strtoulWord]
    split <;> rfl
  simp only [cmnAtol, strtoul_numeral line.bytes neg n rest h, hword, herrno]
  by_cases hbig : 2 ^ 64 ≤ n
  · rw [if_pos hbig, if_pos hbig, ite_self]
  · rw [if_neg hbig, if_neg hbig, if_neg (fun hc => hc.1 rfl)]

theorem cmnAtol_none (line : Str) (h : ∀ neg n rest, ¬ Numeral line.bytes neg n rest) :
    cmnAtol line = 0 := by
  simp only [cmnAtol, strtoul_none line.bytes h]
  exact if_neg (fun hc => hc.1 rfl)

theorem signed_bounds (neg : Bool) (n : Nat) (h : n < 2 ^ 64) :
    -2 ^ 64 < signed neg n ∧ signed neg n < 2 ^ 64 := by
  cases neg with
  | true =>
      rw [show signed true n = -(n : Int) from rfl]
      omega
  | false =>
      rw [show signed false n = (n : Int) from rfl]
      omega

theorem natAbs_signed (neg : Bool) (n : Nat) : (signed neg n).natAbs = n := by
  cases neg with
  | true => exact Int.natAbs_neg n
  | false => rfl

/-- A number is returned if it can be held. -/
theorem cmnAtol_held (line : Str) (neg : Bool) (n : Nat) (rest : List UInt8)
    (h : Numeral line.bytes neg n rest) (hheld : InInt64 (signed neg n)) :
    (cmnAtol line).toInt = signed neg n := by
  have habs := natAbs_signed neg n
  rw [cmnAtol_numeral line neg n rest h, if_neg (by have := hheld.1; have := hheld.2; omega)]
  exact Int64.toInt_ofInt_of_le hheld.1 hheld.2

/-- A text that begins with a number is refused for its digits or its word. -/
theorem cmnAtol_refuses_iff (line : Str) (neg : Bool) (n : Nat) (rest : List UInt8)
    (h : Numeral line.bytes neg n rest) :
    cmnAtol line = -1 ↔ 2 ^ 64 ≤ n ∨ signed neg n = -1 ∨ signed neg n = 2 ^ 64 - 1 := by
  rw [cmnAtol_numeral line neg n rest h]
  by_cases hbig : 2 ^ 64 ≤ n
  · rw [if_pos hbig]
    exact iff_of_true rfl (Or.inl hbig)
  · rw [if_neg hbig]
    have hbounds := signed_bounds neg n (Nat.lt_of_not_le hbig)
    constructor
    · intro hminus
      -- The word is the number modulo its size.
      have hmod : (signed neg n).bmod (2 ^ 64) = -1 := by
        have hint := congrArg Int64.toInt hminus
        rwa [Int64.toInt_ofInt] at hint
      have hdvd : ((2 ^ 64 : Nat) : Int) ∣ (signed neg n).bmod (2 ^ 64) - signed neg n :=
        Int.dvd_bmod_sub_self
      rw [hmod] at hdvd
      omega
    · rintro (hlarge | hone | hlast)
      · exact absurd hlarge hbig
      · rw [hone]
        rfl
      · rw [hlast]
        rfl

/-- A text that begins with a number, by its parts. -/
theorem denotes_numeral (line : Str) (neg : Bool) (n : Nat) (rest : List UInt8)
    (h : Numeral line.bytes neg n rest) (v : Int) :
    Denotes line.bytes v ↔ rest = [] ∧ v = signed neg n := by
  rw [denotes_iff]
  constructor
  · rintro ⟨neg', n', hnum, hv⟩
    rcases numeral_unique _ _ _ _ _ _ _ h hnum with ⟨hneg, hn, hrest⟩
    exact ⟨hrest, by rw [hv, hneg, hn]⟩
  · rintro ⟨hrest, hv⟩
    rw [hrest] at h
    exact ⟨neg, n, h, hv⟩

/-- `cmn_atol` does what it should just in case the condition holds. -/
theorem cmn_atol_exact_iff (line : Str) : AtolExact line ↔ AtolMeets line := by
  by_cases hbegins : ∃ neg n rest, Numeral line.bytes neg n rest
  · rcases hbegins with ⟨neg, n, rest, hnum⟩
    have hdenotes := denotes_numeral line neg n rest hnum
    have hrefuses := cmnAtol_refuses_iff line neg n rest hnum
    have hheld : (∃ v, Denotes line.bytes v ∧ InInt64 v) ↔ rest = [] ∧ InInt64 (signed neg n) := by
      constructor
      · rintro ⟨v, hv, hin⟩
        rcases (hdenotes v).mp hv with ⟨hrest, hval⟩
        exact ⟨hrest, hval ▸ hin⟩
      · rintro ⟨hrest, hin⟩
        exact ⟨_, (hdenotes _).mpr ⟨hrest, rfl⟩, hin⟩
    have hword : (∃ neg' n' rest', Numeral line.bytes neg' n' rest' ∧
        (2 ^ 64 ≤ n' ∨ signed neg' n' = -1 ∨ signed neg' n' = 2 ^ 64 - 1)) ↔ cmnAtol line = -1 := by
      constructor
      · rintro ⟨neg', n', rest', hnum', hminus⟩
        exact (cmnAtol_refuses_iff line neg' n' rest' hnum').mpr hminus
      · exact fun hminus => ⟨neg, n, rest, hnum, hrefuses.mp hminus⟩
    -- What can be held is always returned, so only the refusals count.
    have hreturns : ∀ v, Denotes line.bytes v → InInt64 v → (cmnAtol line).toInt = v := by
      intro v hv hin
      rw [((hdenotes v).mp hv).2] at hin ⊢
      exact cmnAtol_held line neg n rest hnum hin
    rw [AtolExact, AtolMeets, hword]
    exact ⟨fun h => Classical.or_iff_not_imp_left.mpr h.2,
      fun h => ⟨hreturns, Classical.or_iff_not_imp_left.mp h⟩⟩
  · have hnone : ∀ neg n rest, ¬ Numeral line.bytes neg n rest :=
      fun neg n rest h => hbegins ⟨neg, n, rest, h⟩
    have hsilent : ¬ ∃ v, Denotes line.bytes v ∧ InInt64 v := by
      rintro ⟨v, hv, _⟩
      rcases (denotes_iff _ v).mp hv with ⟨neg, n, hnum, _⟩
      exact hnone neg n [] hnum
    refine iff_of_false (fun h => ?_) (fun h => ?_)
    · -- Without a number the answer is zero.
      have hzero := h.2 hsilent
      rw [cmnAtol_none line hnone] at hzero
      exact absurd hzero (by decide)
    · rcases h with hheld | ⟨neg, n, rest, hnum, _⟩
      · exact hsilent hheld
      · exact hnone neg n rest hnum

/-- `"12a"`. -/
def trailingLetter : Str := Str.ofBytes [49, 50, 97]

/-- Characters behind a number, no number, and one that is too large. -/
theorem cmn_atol_misses :
    (cmnAtol trailingLetter = 12 ∧ ¬ AtolExact trailingLetter) ∧ cmnAtol (Str.ofBytes []) = 0 ∧
      cmnAtol (Str.ofBytes (decimal (2 ^ 63))) = Int64.minValue := by
  have hnum : Numeral trailingLetter.bytes false 12 [97] := by
    refine ⟨⟨[], [], [49, 50], rfl, List.forall_mem_nil _, Or.inl rfl, List.cons_ne_nil _ _,
      List.all_eq_true.mp rfl, rfl⟩, fun c hc => ?_⟩
    rw [← Option.some.inj hc]
    rfl
  refine ⟨⟨by decide, fun h => ?_⟩, by decide, by decide⟩
  -- It is not a number as a whole, and should have been refused.
  have hminus : cmnAtol trailingLetter = -1 := h.2 (by
    rintro ⟨v, hv, _⟩
    exact List.cons_ne_nil _ _ ((denotes_numeral _ _ _ _ hnum v).mp hv).1)
  exact absurd hminus (by decide)

end Aircmn
