import Aircmn.Core.Hash
import Aircmn.Lib.Mixing

/-!
# What MurmurHash3 Keeps Apart

A hash of 32 bits cannot keep all keys apart, but which collisions it can have
is not arbitrary. Every operation of `hash_murmur3_32` loses nothing: a word of
the key is multiplied by odd constants and rotated, the state takes the
exclusive or with it, is rotated, multiplied by five and moved, and `fmix32`
ends with shifts and odd multiplications again. So a state is never lost, and
neither is a word that meets a known state.

Two results follow for keys of one length. Keys that differ in one aligned
group of four bytes only, or in the bytes after the last whole group only, have
different hashes. And for every key the seed and the hash determine one
another, so each hash is reached from exactly one seed.

The loop counts up from minus the number of blocks, with addresses relative to
the end of the blocks, and the `switch` puts the last bytes together with
shifts. Both are first brought to words at positions of the key.

## Theorems

* `murmurBlocks_eq`, `murmurTail_eq`: The loop and the `switch`.
* `hashMurmur3_32_out`: The word the hash leaves at `out`.
* `fmix32_injective`, `murmurStep_state`, `murmurStep_word`: Nothing is lost.
* `murmur_tells_apart`: Keys that differ in one group.
* `murmur_seed_bijective`: The seed and the hash.
-/

namespace Aircmn

open Bytes Mixing Function

/-- A byte after the whole blocks, zero beyond the key. -/
def restByte (m : Mem) (tail rest i : Nat) : UInt32 :=
  (if i < rest then m (tail + i) else 0).toUInt32

/-- The bytes after the whole blocks, as the `switch` puts them together. -/
def murmurRest (m : Mem) (tail rest : Nat) : UInt32 :=
  (restByte m tail rest 2 <<< 16) ^^^ (restByte m tail rest 1 <<< 8)
    ^^^ (restByte m tail rest 0 <<< 0)

section Injective

theorem rotl32_injective (r : UInt32) (hr : 0 < r.toNat) (hlt : r.toNat < 32) :
    Injective (fun x => rotl32 x r) :=
  rotate_injective r hr hlt

theorem murmurWord_injective : Injective murmurWord := by
  have h1 := mul_injective murmurC1 0xdee13bb1 (by decide)
  have h2 := mul_injective murmurC2 0x56ed309b (by decide)
  exact h2.comp ((rotl32_injective 15 (by decide) (by decide)).comp h1)

theorem fmix32_injective : Injective fmix32 := by
  have hfirst := xorShift_injective 16 (by decide) (by decide)
  have hsecond := xorShift_injective 13 (by decide) (by decide)
  have h1 := mul_injective 0x85ebca6b 0xa5cb9243 (by decide)
  have h2 := mul_injective 0xc2b2ae35 0x7ed1b41d (by decide)
  exact hfirst.comp (h2.comp (hsecond.comp (h1.comp hfirst)))

/-- What a block does to the state after the word has met it. -/
theorem murmurTurn_injective : Injective (fun h : UInt32 => rotl32 h 13 * 5 + 0xe6546b64) :=
  (add_injective 0xe6546b64).comp
    ((mul_injective 5 0xcccccccd (by decide)).comp
      (rotl32_injective 13 (by decide) (by decide)))

theorem murmurStep_state (k1 : UInt32) : Injective (fun h1 => murmurStep h1 k1) :=
  murmurTurn_injective.comp (xor_injective (murmurWord k1))

theorem murmurStep_word (h1 : UInt32) : Injective (murmurStep h1) :=
  murmurTurn_injective.comp ((xor_left_injective h1).comp murmurWord_injective)

end Injective

section Parts

/-- The words of the key, block by block. -/
theorem murmurBlocks_eq (m : Mem) (key n : Nat) (h1 : UInt32) :
    murmurBlocks m (key + n * 4) n h1
      = ((List.range n).map (fun b => load32 m (key + 4 * b))).foldl murmurStep h1 := by
  rw [murmurBlocks, List.foldl_map, List.foldl_map]
  refine List.foldl_ext _ _ _ (fun h b _ => ?_)
  have haddr : (((key + n * 4 : Nat) : Int) + 4 * (-(n : Int) + b)).toNat = key + 4 * b := by
    omega
  rw [getblock32, haddr]

/-- One case of the `switch`. -/
theorem murmurCase (m : Mem) (tail rest i n : Nat) (k1 s : UInt32) (hn : n = i + 1) :
    (if n ≤ rest then k1 ^^^ ((m (tail + i)).toUInt32 <<< s) else k1)
      = k1 ^^^ (restByte m tail rest i <<< s) := by
  rw [restByte]
  by_cases h : i < rest
  · rw [if_pos h, if_pos (by omega)]
  · have hzero : (0 : UInt8).toUInt32 = 0 := rfl
    rw [if_neg h, if_neg (by omega), hzero, UInt32.zero_shiftLeft, UInt32.xor_zero]

theorem murmurTail_eq (m : Mem) (tail rest : Nat) (h1 : UInt32) :
    murmurTail m tail rest h1 = h1 ^^^ murmurWord (murmurRest m tail rest) := by
  -- The tail is one word, added byte by byte; the cases fold into it.
  rw [murmurTail, murmurCase m tail rest 2 3 _ _ rfl, murmurCase m tail rest 1 2 _ _ rfl,
    UInt32.zero_xor]
  -- The word is mixed into the state only if a byte is left.
  by_cases h : 1 ≤ rest
  · have hlast : restByte m tail rest 0 = (m tail).toUInt32 := by
      rw [restByte, if_pos (show 0 < rest from h), Nat.add_zero]
    rw [if_pos h, murmurRest, hlast, UInt32.shiftLeft_zero]
  -- With no byte left all three are 0, and so is the word they make.
  · -- Nothing is left, and the word zero stays zero.
    have hzero : ∀ i, restByte m tail rest i = 0 := by
      intro i
      rw [restByte, if_neg (by omega)]
      rfl
    have hword : murmurWord 0 = 0 := by decide
    rw [if_neg h, murmurRest, hzero, hzero, hzero, UInt32.zero_shiftLeft, UInt32.zero_shiftLeft,
      UInt32.zero_shiftLeft, UInt32.xor_self, UInt32.xor_self, hword, UInt32.xor_zero]

/-- The bytes can be read off the word they were put together to. -/
theorem murmurRest_eq_iff (m m' : Mem) (tail tail' rest : Nat) (hrest : rest < 4) :
    murmurRest m tail rest = murmurRest m' tail' rest
      ↔ ∀ i, i < rest → m (tail + i) = m' (tail' + i) := by
  -- The three bytes stand apart in the word, so it tells them all.
  constructor
  · intro h i hi
    rcases threeBytes_inj _ _ _ _ _ _ h with ⟨h2, h1, h0⟩
    obtain rfl | rfl | rfl : i = 0 ∨ i = 1 ∨ i = 2 := by omega
    · rwa [if_pos hi, if_pos hi] at h0
    · rwa [if_pos hi, if_pos hi] at h1
    · rwa [if_pos hi, if_pos hi] at h2
  -- Equal bytes give equal words, whatever memory they come from.
  · intro h
    have hbyte : ∀ i, restByte m tail rest i = restByte m' tail' rest i := by
      intro i
      rw [restByte, restByte]
      split
      · rename_i hi
        rw [h i hi]
      · rfl
    rw [murmurRest, murmurRest, hbyte, hbyte, hbyte]

end Parts

section Whole

theorem len_div (len : Int32) (hlen : 0 ≤ len.toInt) :
    (len / 4).toInt.toNat = len.toInt.toNat / 4 := by
  have hmin : len ≠ Int32.minValue := by
    rintro rfl
    exact absurd hlen (by decide)
  have hfour : (4 : Int32).toInt = 4 := rfl
  rw [Int32.toInt_div_of_ne_left _ _ hmin, hfour, Int.tdiv_eq_ediv_of_nonneg hlen]
  omega

theorem len_and (len : Int32) (hlen : 0 ≤ len.toInt) :
    (len &&& 3).toInt.toNat = len.toInt.toNat % 4 := by
  have hand : (len &&& 3).toBitVec.toNat = len.toBitVec.toNat % 4 := by
    rw [Int32.toBitVec_and, BitVec.toNat_and]
    exact Nat.and_two_pow_sub_one_eq_mod _ 2
  have hlow : (len &&& 3).toInt = (len &&& 3).toBitVec.toNat :=
    BitVec.toInt_eq_toNat_of_lt (by omega)
  have hsame : len.toInt = len.toBitVec.toNat := by
    have hbits : len.toInt = len.toBitVec.toInt := rfl
    rw [hbits, BitVec.toInt_eq_toNat_cond] at hlen ⊢
    split at hlen <;> omega
  omega

/-- The word left at `out`, from the words at positions of the key. -/
theorem hashMurmur3_32_out (m : Mem) (key out : Nat) (len : Int32) (seed : UInt32)
    (hlen : 0 ≤ len.toInt) :
    load32 (hashMurmur3_32 m key len seed out) out
      = fmix32 (((List.range (len.toInt.toNat / 4)).map (fun b => load32 m (key + 4 * b))).foldl
          murmurStep seed
        ^^^ murmurWord (murmurRest m (key + len.toInt.toNat / 4 * 4) (len.toInt.toNat % 4))
        ^^^ len.toUInt32) := by
  rw [hashMurmur3_32, load32_store32_self, len_div len hlen, len_and len hlen, murmurBlocks_eq,
    murmurTail_eq]

section OneGroup

variable (m m' : Mem) (key key' b n : Nat)
  (hsame : ∀ i, i < n → i / 4 ≠ b → m (key + i) = m' (key' + i))

include hsame

theorem words_agree (j : Nat) (hj : j < n / 4) (hjb : j ≠ b) :
    load32 m (key + 4 * j) = load32 m' (key' + 4 * j) := by
  refine (load32_eq_iff _ _ _ _).mpr (fun i hi => ?_)
  rw [Nat.add_assoc, Nat.add_assoc]
  exact hsame (4 * j + i) (by omega) (by omega)

theorem rests_agree (hb : n / 4 ≠ b) : murmurRest m (key + n / 4 * 4) (n % 4)
    = murmurRest m' (key' + n / 4 * 4) (n % 4) := by
  refine (murmurRest_eq_iff _ _ _ _ _ (Nat.mod_lt n (by decide))).mpr (fun i hi => ?_)
  rw [Nat.add_assoc, Nat.add_assoc]
  exact hsame (n / 4 * 4 + i) (by omega) (by omega)

theorem keys_agree_word (hb : b < n / 4) : (∀ i, i < n → m (key + i) = m' (key' + i))
    ↔ load32 m (key + 4 * b) = load32 m' (key' + 4 * b) := by
  rw [load32_eq_iff]
  constructor
  · intro h i hi
    rw [Nat.add_assoc, Nat.add_assoc]
    exact h (4 * b + i) (by omega)
  · intro h i hi
    by_cases hib : i / 4 = b
    · have hi' := h (i % 4) (Nat.mod_lt i (by decide))
      rwa [Nat.add_assoc, Nat.add_assoc, ← hib, Nat.div_add_mod] at hi'
    · exact hsame i hi hib

theorem keys_agree_rest (hb : ¬ b < n / 4) : (∀ i, i < n → m (key + i) = m' (key' + i))
    ↔ murmurRest m (key + n / 4 * 4) (n % 4) = murmurRest m' (key' + n / 4 * 4) (n % 4) := by
  rw [murmurRest_eq_iff _ _ _ _ _ (Nat.mod_lt n (by decide))]
  constructor
  · intro h i hi
    rw [Nat.add_assoc, Nat.add_assoc]
    exact h (n / 4 * 4 + i) (by omega)
  · intro h i hi
    by_cases hib : i / 4 = n / 4
    · have hi' := h (i % 4) (by omega)
      have hpos : n / 4 * 4 + i % 4 = i := by omega
      rwa [Nat.add_assoc, Nat.add_assoc, hpos] at hi'
    · exact hsame i hi (by omega)

end OneGroup

/-- Keys of one length that differ in one aligned group of four bytes only have
    different hashes. -/
theorem murmur_tells_apart (m m' : Mem) (key key' out out' b : Nat) (len : Int32) (seed : UInt32)
    (hlen : 0 ≤ len.toInt)
    (hsame : ∀ i, i < len.toInt.toNat → i / 4 ≠ b → m (key + i) = m' (key' + i)) :
    load32 (hashMurmur3_32 m key len seed out) out
        = load32 (hashMurmur3_32 m' key' len seed out') out'
      -- Everything the hash does after the blocks is one-to-one, so only the blocks and the tail
      -- matter.
      ↔ slice m key len.toInt.toNat = slice m' key' len.toInt.toNat := by
  rw [slice_eq_iff, hashMurmur3_32_out m key out len seed hlen,
    hashMurmur3_32_out m' key' out' len seed hlen, fmix32_injective.eq_iff,
    (xor_injective _).eq_iff]
  -- Whether the position that differs is in a block or behind them decides which of the two tells
  -- it.
  generalize len.toInt.toNat = n at hsame
  by_cases hb : b < n / 4
  · -- One block, whose word goes into a state that both keys share.
    have hone := foldl_map_one_iff murmurStep murmurStep_state murmurStep_word (List.range (n / 4))
      List.nodup_range (fun j => load32 m (key + 4 * j)) (fun j => load32 m' (key' + 4 * j)) b
      (List.mem_range.mpr hb)
      (fun j hj => words_agree m m' key key' b n hsame j (List.mem_range.mp hj)) seed
    rw [rests_agree m m' key key' b n hsame (by omega), (xor_injective _).eq_iff, hone,
      keys_agree_word m m' key key' b n hsame hb]
  · -- The bytes after the blocks, which meet the same state.
    have hblocks : (List.range (n / 4)).map (fun j => load32 m (key + 4 * j))
        = (List.range (n / 4)).map (fun j => load32 m' (key' + 4 * j)) := by
      refine List.map_congr_left (fun j hj => ?_)
      have hlt := List.mem_range.mp hj
      exact words_agree m m' key key' b n hsame j hlt (by omega)
    rw [hblocks, (xor_left_injective _).eq_iff, murmurWord_injective.eq_iff,
      keys_agree_rest m m' key key' b n hsame hb]

/-- Two keys of seven bytes, one byte apart. -/
theorem murmur_tells_apart_small :
    load32 (hashMurmur3_32 (fun i => UInt8.ofNat i) 0 7 5 100) 100
      ≠ load32 (hashMurmur3_32 (fun i => if i = 5 then 9 else UInt8.ofNat i) 0 7 5 200) 200 := by
  refine mt (murmur_tells_apart _ _ 0 0 100 200 1 7 5 (by decide) ?_).mp (by decide)
  intro i _ hi
  have hfive : i ≠ 5 := by
    rintro rfl
    exact hi rfl
  rw [Nat.zero_add, if_neg hfive]

/-- For every key, each hash comes from exactly one seed. -/
theorem murmur_seed_bijective (m : Mem) (key out : Nat) (len : Int32) (hlen : 0 ≤ len.toInt) :
    Bijective (fun seed => load32 (hashMurmur3_32 m key len seed out) out) := by
  refine bijective_of_injective _ (fun seed seed' h => ?_)
  rw [hashMurmur3_32_out m key out len seed hlen,
    hashMurmur3_32_out m key out len seed' hlen] at h
  exact foldl_state_injective murmurStep murmurStep_state _
    (xor_injective _ (xor_injective _ (fmix32_injective h)))

theorem murmur_seed_bijective_small : Bijective (fun seed =>
    load32 (hashMurmur3_32 (fun i => UInt8.ofNat i) 0 7 seed 100) 100) :=
  murmur_seed_bijective _ 0 100 7 (by decide)

end Whole

end Aircmn
