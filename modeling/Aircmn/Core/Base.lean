import Mathlib.Tactic.Ring

/-!
# Status Codes and Integer Conversions

What every container shares: the codes of `cmn.h` that its functions return,
and the conversions C applies without being asked when an `int32_t` element
size meets unsigned arithmetic.

An element size is declared `int32_t` and used in two ways. Multiplied by a
`uint32_t` index it is converted to `uint32_t`, so the product is taken modulo
`2 ^ 32`. Passed to `memcpy` through `cmn_memcpy` it is converted to `size_t`,
which sign-extends. Both conversions are the identity on a positive size, and
`elemBytes` is the natural number they then agree on.

The other way, a `size_t` that becomes an `int` keeps its low 32 bits only.

## Main definitions

* `Status`: The return code of a function.
* `cmnOk`, `cmnError`, `cmnNokey`, `cmnEmem`, `cmnEagain`, `cmnParameter`: The
  codes.
* `sizeOfInt`, `intOfSize`: An `int32_t` as a `size_t`, and a `size_t` as an
  `int`.
* `elemBytes`: A positive element size as a number of bytes.

## Theorems

* `toUInt32_toNat_of_pos`, `sizeOfInt_of_pos`: Both conversions keep a
  positive size.
* `mul_toNat_of_fits`: A product below the word size is the true product.
* `intOfSize_eq`, `intOfSize_of_lt`: The low half, read as an `int`.
* `int32_add_toInt`, `int32_sub_toInt`: Sums and differences of `int`s that do
  not wrap.
-/

namespace Aircmn

/-- The `int` a function returns. -/
abbrev Status := Int

/-- `CMN_OK`. -/
def cmnOk : Status := 0

/-- `CMN_ERROR`. -/
def cmnError : Status := -1

/-- `CMN_NOKEY`. -/
def cmnNokey : Status := -2

/-- `CMN_EMEM`. -/
def cmnEmem : Status := -3

/-- `CMN_EAGAIN`. -/
def cmnEagain : Status := -4

/-- `CMN_PARAMETER`. -/
def cmnParameter : Status := -8

/-- An `int32_t` passed where a `size_t` is expected. -/
def sizeOfInt (x : Int32) : Nat := x.toInt64.toUInt64.toNat

/-- A `size_t` converted to `int`. -/
def intOfSize (n : UInt64) : Int := n.toUInt32.toInt32.toInt

/-- The number of bytes a positive element size stands for. -/
def elemBytes (x : Int32) : Nat := x.toInt.toNat

theorem toUInt32_toNat_of_pos (x : Int32) (h : 0 < x.toInt) :
    x.toUInt32.toNat = elemBytes x := by
  have hle : 0 ≤ x := Int32.le_iff_toInt_le.mpr (by rw [Int32.toInt_zero]; omega)
  rw [Int32.toNat_toUInt32_of_le hle]
  rfl

theorem sizeOfInt_of_nonneg (x : Int32) (h : 0 ≤ x.toInt) : sizeOfInt x = x.toInt.toNat := by
  have hle : 0 ≤ x.toInt64 := by
    refine Int64.le_iff_toInt_le.mpr ?_
    rw [Int32.toInt_toInt64, Int64.toInt_zero]
    exact h
  rw [sizeOfInt, Int64.toNat_toUInt64_of_le hle]
  exact congrArg Int.toNat (Int32.toInt_toInt64 x)

theorem sizeOfInt_of_pos (x : Int32) (h : 0 < x.toInt) : sizeOfInt x = elemBytes x :=
  sizeOfInt_of_nonneg x (Int.le_of_lt h)

theorem elemBytes_pos (x : Int32) (h : 0 < x.toInt) : 0 < elemBytes x := by
  unfold elemBytes
  omega

/-- An index times an element size is the true product as long as the product
    fits a word. -/
theorem mul_toNat_of_fits (x : Int32) (i : UInt32) (h : 0 < x.toInt)
    (hfit : elemBytes x * i.toNat < 2 ^ 32) :
    (x.toUInt32 * i).toNat = elemBytes x * i.toNat := by
  rw [UInt32.toNat_mul, toUInt32_toNat_of_pos x h, Nat.mod_eq_of_lt hfit]

theorem intOfSize_eq (n : UInt64) :
    intOfSize n = if n.toNat % 2 ^ 32 < 2 ^ 31 then ((n.toNat % 2 ^ 32 : Nat) : Int)
      else (n.toNat % 2 ^ 32 : Nat) - 2 ^ 32 := by
  have hbits : intOfSize n = n.toUInt32.toBitVec.toInt := rfl
  rw [hbits, BitVec.toInt_eq_toNat_cond, UInt32.toNat_toBitVec, UInt64.toNat_toUInt32]
  split <;> split <;> omega

theorem intOfSize_of_lt (n : UInt64) (h : n.toNat < 2 ^ 31) : intOfSize n = n.toNat := by
  rw [intOfSize_eq, Nat.mod_eq_of_lt (by omega), if_pos h]

theorem int32_add_toInt (x y : Int32) (hx : 0 ≤ x.toInt) (hy : 0 ≤ y.toInt)
    (hsum : x.toInt + y.toInt < 2 ^ 31) : (x + y).toInt = x.toInt + y.toInt := by
  rw [Int32.toInt_add]
  exact Int.bmod_eq_of_le (by omega) (by omega)

theorem int32_sub_toInt (x y : Int32) (hy : 0 ≤ y.toInt) (hyx : y.toInt - 2 ^ 31 ≤ x.toInt) :
    (x - y).toInt = x.toInt - y.toInt := by
  have hx := Int32.toInt_lt x
  rw [Int32.toInt_sub]
  exact Int.bmod_eq_of_le (by omega) (by omega)

end Aircmn
