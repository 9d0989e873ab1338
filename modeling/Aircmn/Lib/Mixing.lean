import Mathlib.Data.Fintype.EquivFin
import Mathlib.Logic.Function.Basic

/-!
# Mixing Words

A hash goes over its input and mixes one piece after another into a state. If
no two states become one when the same piece is mixed in, and no two pieces
make the same of one state, then inputs that differ in one piece only are told
apart, however long they are. That is a property of a fold and does not depend
on what the pieces are.

The steps are made of a few operations on words that lose nothing. Adding or
taking the exclusive or of a fixed word can be undone, and so can a
multiplication by a word with an inverse. A rotation moves bits. A word and its
own right shift, put together by an exclusive or, determine the word from its
highest bit down.

## Theorems

* `xorShift_injective`, `rotate_injective`, `mul_injective`, `add_injective`,
  `xor_injective`, `xor_left_injective`: Operations that lose nothing.
* `threeBytes_inj`: Bytes put into a word.
* `foldl_state_injective`, `foldl_one_iff`, `foldl_map_one_iff`: A hash of many
  pieces.
* `bijective_of_injective`: Words are finite.
-/

namespace Mixing

open Function

section Words

/-- A difference that its own shift leaves as it is has no highest bit. -/
theorem eq_zero_of_shift {w : Nat} (d : BitVec w) (s : Nat) (hs : 0 < s) (h : d = d >>> s) :
    d = 0 := by
  -- Each bit repeats s places further on, and so every multiple of s further on.
  have hstep : ∀ i, d.getLsbD i = d.getLsbD (s + i) := by
    intro i
    have hi := congrArg (fun b : BitVec w => b.getLsbD i) h
    rwa [BitVec.getLsbD_ushiftRight] at hi
  have hmany : ∀ k i, d.getLsbD i = d.getLsbD (k * s + i) := by
    intro k
    induction k with
    | zero =>
        intro i
        rw [Nat.zero_mul, Nat.zero_add]
    | succ k ih =>
        intro i
        rw [hstep i, ih (s + i), Nat.succ_mul, Nat.add_assoc]
  refine BitVec.eq_of_getLsbD_eq (fun i _ => ?_)
  -- Far enough on there are no bits left, so none was set.
  have hfar : w ≤ w * s + i := Nat.le_add_right_of_le (Nat.le_mul_of_pos_right w hs)
  rw [hmany w i, BitVec.getLsbD_of_ge d _ hfar]
  exact BitVec.getLsbD_zero.symm

theorem bitvec_xorShift {w : Nat} (x y : BitVec w) (s : Nat) (hs : 0 < s)
    (h : x ^^^ (x >>> s) = y ^^^ (y >>> s)) : x = y := by
  have hd : x ^^^ y = (x ^^^ y) >>> s := by
    rw [BitVec.ushiftRight_xor_distrib]
    have hx : x ^^^ y = (x ^^^ (x >>> s)) ^^^ (y ^^^ (y >>> s)) ^^^ ((x >>> s) ^^^ (y >>> s)) := by
      ac_nf
      simp
    rw [hx, h, BitVec.xor_self, BitVec.zero_xor]
  exact BitVec.xor_eq_zero_iff.mp (eq_zero_of_shift _ s hs hd)

theorem bitvec_rotate {w : Nat} (x y : BitVec w) (r : Nat)
    (h : x.rotateLeft r = y.rotateLeft r) : x = y := by
  have hbit : ∀ k, (x.rotateLeft r).getLsbD k = (y.rotateLeft r).getLsbD k :=
    fun k => congrArg (fun b : BitVec w => b.getLsbD k) h
  simp only [BitVec.getLsbD_rotateLeft] at hbit
  refine BitVec.eq_of_getLsbD_eq (fun i hi => ?_)
  have hr : r % w < w := Nat.mod_lt r (by omega)
  -- Bit `i` has gone up by `r`, around the end if there was no room.
  by_cases hroom : i + r % w < w
  · have hup := hbit (i + r % w)
    have hnot : ¬ i + r % w < r % w := by omega
    simpa only [hnot, hroom, decide_false, decide_true, cond_false, Bool.true_and,
      Nat.add_sub_cancel] using hup
  · have haround := hbit (i + r % w - w)
    have hlow : i + r % w - w < r % w := by omega
    have hfrom : w - r % w + (i + r % w - w) = i := by omega
    simpa only [hlow, decide_true, cond_true, hfrom] using haround

end Words

theorem xorShift_injective (s : UInt32) (hs : 0 < s.toNat) (hlt : s.toNat < 32) :
    Injective (fun x : UInt32 => x ^^^ (x >>> s)) := by
  intro x y h
  have hb := congrArg UInt32.toBitVec h
  simp only [UInt32.toBitVec_xor, UInt32.toBitVec_shiftRight, BitVec.ushiftRight_eq'] at hb
  refine UInt32.toBitVec_inj.mp (bitvec_xorShift _ _ _ ?_ hb)
  rw [BitVec.toNat_umod]
  exact Nat.lt_of_lt_of_eq hs (Nat.mod_eq_of_lt hlt).symm

theorem rotate_injective (r : UInt32) (hr : 0 < r.toNat) (hlt : r.toNat < 32) :
    Injective (fun x : UInt32 => (x <<< r) ||| (x >>> (32 - r))) := by
  -- The two shifts together are a rotation of the 32 bits, as 32 - r is the other amount.
  have hrot : ∀ x : UInt32, ((x <<< r) ||| (x >>> (32 - r))).toBitVec
      = x.toBitVec.rotateLeft r.toNat := by
    intro x
    have hback : ((32 : UInt32) - r).toNat = 32 - r.toNat :=
      UInt32.toNat_sub_of_le 32 r (UInt32.le_iff_toNat_le.mpr (Nat.le_of_lt hlt))
    have hleft : (r.toBitVec % 32).toNat = r.toNat := Nat.mod_eq_of_lt hlt
    have hright : (((32 : UInt32) - r).toBitVec % 32).toNat = 32 - r.toNat := by
      rw [BitVec.toNat_umod]
      change ((32 : UInt32) - r).toNat % 32 = 32 - r.toNat
      rw [hback]
      exact Nat.mod_eq_of_lt (by omega)
    rw [BitVec.rotateLeft_def, Nat.mod_eq_of_lt hlt, UInt32.toBitVec_or, UInt32.toBitVec_shiftLeft,
      UInt32.toBitVec_shiftRight, BitVec.shiftLeft_eq', BitVec.ushiftRight_eq', hleft, hright]
  -- Rotations are undone by rotating back.
  intro x y h
  have hb := congrArg UInt32.toBitVec h
  simp only [hrot] at hb
  exact UInt32.toBitVec_inj.mp (bitvec_rotate _ _ _ hb)

theorem mul_injective (c d : UInt32) (hcd : c * d = 1) : Injective (fun x : UInt32 => x * c) := by
  intro x y h
  have hd := congrArg (· * d) h
  simpa only [UInt32.mul_assoc, hcd, UInt32.mul_one] using hd

theorem add_injective (c : UInt32) : Injective (fun x : UInt32 => x + c) := fun x y h =>
  UInt32.add_right_inj c |>.mp (by simpa only [UInt32.add_comm c] using h)

theorem xor_injective (c : UInt32) : Injective (fun x : UInt32 => x ^^^ c) := by
  intro x y h
  have hc := congrArg (· ^^^ c) h
  simpa only [UInt32.xor_assoc, UInt32.xor_self, UInt32.xor_zero] using hc

theorem xor_left_injective (c : UInt32) : Injective (fun x : UInt32 => c ^^^ x) := by
  intro x y h
  refine xor_injective c ?_
  simpa only [UInt32.xor_comm c] using h

/-- Where the bits of a byte go when it is moved into a word. -/
theorem shiftedByte_bit (x : UInt8) (s : UInt32) (hs : s.toNat < 32) (k : Nat) (hk : k < 32) :
    (x.toUInt32 <<< s).toBitVec.getLsbD k
      = (decide (s.toNat ≤ k) && x.toBitVec.getLsbD (k - s.toNat)) := by
  have hmod : (s.toBitVec % 32).toNat = s.toNat := Nat.mod_eq_of_lt hs
  rw [UInt32.toBitVec_shiftLeft, BitVec.shiftLeft_eq', hmod, BitVec.getLsbD_shiftLeft,
    UInt8.toBitVec_toUInt32, BitVec.getLsbD_setWidth]
  have hback : k - s.toNat < 32 := by omega
  by_cases hlow : k < s.toNat
  · have hnot : ¬ s.toNat ≤ k := by omega
    simp only [hlow, hnot, decide_true, decide_false, Bool.not_true, Bool.and_false,
      Bool.false_and]
  · have hup : s.toNat ≤ k := by omega
    simp only [hk, hlow, hup, hback, decide_true, decide_false, Bool.not_false, Bool.true_and]

/-- Three bytes put into a word can be read off it. -/
theorem threeBytes_inj (x y z x' y' z' : UInt8)
    (h : (x.toUInt32 <<< 16) ^^^ (y.toUInt32 <<< 8) ^^^ (z.toUInt32 <<< 0)
      = (x'.toUInt32 <<< 16) ^^^ (y'.toUInt32 <<< 8) ^^^ (z'.toUInt32 <<< 0)) :
    x = x' ∧ y = y' ∧ z = z' := by
  have hbits : ∀ (a b c : UInt8) (k : Nat), k < 32 →
      ((a.toUInt32 <<< 16) ^^^ (b.toUInt32 <<< 8) ^^^ (c.toUInt32 <<< 0)).toBitVec.getLsbD k
        = ((decide (16 ≤ k) && a.toBitVec.getLsbD (k - 16))
          ^^ (decide (8 ≤ k) && b.toBitVec.getLsbD (k - 8)) ^^ c.toBitVec.getLsbD k) := by
    intro a b c k hk
    rw [UInt32.toBitVec_xor, UInt32.toBitVec_xor, BitVec.getLsbD_xor, BitVec.getLsbD_xor,
      shiftedByte_bit a 16 (by decide) k hk, shiftedByte_bit b 8 (by decide) k hk,
      shiftedByte_bit c 0 (by decide) k hk]
    rfl
  have hsame : ∀ k, k < 32 → ((decide (16 ≤ k) && x.toBitVec.getLsbD (k - 16))
        ^^ (decide (8 ≤ k) && y.toBitVec.getLsbD (k - 8)) ^^ z.toBitVec.getLsbD k)
      = ((decide (16 ≤ k) && x'.toBitVec.getLsbD (k - 16))
        ^^ (decide (8 ≤ k) && y'.toBitVec.getLsbD (k - 8)) ^^ z'.toBitVec.getLsbD k) := by
    intro k hk
    rw [← hbits x y z k hk, ← hbits x' y' z' k hk, h]
  have hbyte : ∀ (b : UInt8) (k : Nat), 8 ≤ k → b.toBitVec.getLsbD k = false :=
    fun b k hk => BitVec.getLsbD_of_ge _ k hk
  -- Below 8, from 8 on and from 16 on, one byte alone has bits.
  have hread : ∀ j, j < 8 → x.toBitVec.getLsbD j = x'.toBitVec.getLsbD j
      ∧ y.toBitVec.getLsbD j = y'.toBitVec.getLsbD j
      ∧ z.toBitVec.getLsbD j = z'.toBitVec.getLsbD j := by
    intro j hj
    have hlow := hsame j (by omega)
    have hmid := hsame (8 + j) (by omega)
    have hhigh := hsame (16 + j) (by omega)
    have h8 : ¬ 8 ≤ j := by omega
    have h16 : ¬ 16 ≤ j := by omega
    have h816 : ¬ 16 ≤ 8 + j := by omega
    have h168 : 8 ≤ 16 + j := by omega
    have hover : 8 ≤ 16 + j - 8 := by omega
    simp only [h8, h16, decide_false, Bool.false_and, Bool.false_xor] at hlow
    simp only [h816, hbyte _ (8 + j) (by omega), Nat.le_add_right, Nat.add_sub_cancel_left,
      decide_true, decide_false, Bool.false_and, Bool.true_and, Bool.false_xor,
      Bool.xor_false] at hmid
    simp only [h168, hbyte _ (16 + j) (by omega), hbyte _ (16 + j - 8) hover, Nat.le_add_right,
      Nat.add_sub_cancel_left, decide_true, Bool.true_and, Bool.xor_false] at hhigh
    exact ⟨hhigh, hmid, hlow⟩
  exact ⟨UInt8.toBitVec_inj.mp (BitVec.eq_of_getLsbD_eq (fun j hj => (hread j hj).1)),
    UInt8.toBitVec_inj.mp (BitVec.eq_of_getLsbD_eq (fun j hj => (hread j hj).2.1)),
    UInt8.toBitVec_inj.mp (BitVec.eq_of_getLsbD_eq (fun j hj => (hread j hj).2.2))⟩

/-- A word goes to every word if it goes to no word twice. -/
theorem bijective_of_injective (f : UInt32 → UInt32) (h : Injective f) : Bijective f := by
  have hfinite : Finite UInt32 :=
    Finite.of_injective UInt32.toFin (fun x y hxy => UInt32.toFin_inj.mp hxy)
  exact Finite.injective_iff_bijective.mp h

section Fold

variable {σ β : Type} (step : σ → β → σ)

/-- A hash of the same pieces loses no state. -/
theorem foldl_state_injective (hstate : ∀ b, Injective (fun s => step s b)) :
    ∀ l : List β, Injective (fun s => l.foldl step s) := by
  intro l
  induction l with
  | nil => exact injective_id
  | cons b l ih => exact ih.comp (hstate b)

/-- Inputs that differ in one piece. -/
theorem foldl_one_iff (hstate : ∀ b, Injective (fun s => step s b))
    (hpiece : ∀ s, Injective (step s)) (l r : List β) (b b' : β) (s : σ) :
    (l ++ b :: r).foldl step s = (l ++ b' :: r).foldl step s ↔ b = b' := by
  rw [List.foldl_append, List.foldl_append, List.foldl_cons, List.foldl_cons]
  exact (foldl_state_injective step hstate r).eq_iff.trans (hpiece _).eq_iff

/-- The same for pieces found at positions. -/
theorem foldl_map_one_iff {ι : Type} (hstate : ∀ b, Injective (fun s => step s b))
    (hpiece : ∀ s, Injective (step s)) (l : List ι) (hl : l.Nodup) (f g : ι → β) (i : ι)
    (hi : i ∈ l) (hsame : ∀ j ∈ l, j ≠ i → f j = g j) (s : σ) :
    (l.map f).foldl step s = (l.map g).foldl step s ↔ f i = g i := by
  rcases List.append_of_mem hi with ⟨before, after, rfl⟩
  have hleft : ∀ j ∈ before, f j = g j := fun j hj => hsame j (List.mem_append_left _ hj)
    (fun hji => (List.nodup_append.mp hl).2.2 j hj i List.mem_cons_self hji)
  have hright : ∀ j ∈ after, f j = g j := fun j hj =>
    hsame j (List.mem_append_right _ (List.mem_cons_of_mem _ hj))
      (fun hji => (List.nodup_cons.mp (List.nodup_append.mp hl).2.1).1 (hji ▸ hj))
  rw [List.map_append, List.map_append, List.map_cons, List.map_cons,
    List.map_congr_left hleft, List.map_congr_left hright]
  exact foldl_one_iff step hstate hpiece _ _ _ _ s

end Fold

end Mixing
