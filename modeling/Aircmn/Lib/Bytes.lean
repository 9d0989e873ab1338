import Mathlib.Tactic.Ring

/-!
# Byte Memories

A flat memory addressed by natural numbers, with the reads and writes a C
program performs on it: fixed-width little-endian words, block copies, block
fills, and slices.

Every write is one shape, `blit`: an interval of addresses replaced by the
values of a function, everything else untouched. Words, copies and fills are
`blit` with a particular source, so there is one frame lemma for each way of
reading rather than one for each pair of a read and a write. A proof unfolds
the write it sees to `blit` and the reads pass through it, the disjointness of
the two intervals being arithmetic.

Addresses do not wrap. A region a program owns lies inside an address space
that is larger than it, and the offsets a program computes with fixed-width
arithmetic are turned into natural numbers before they are added to a base.

## Main definitions

* `Mem`: A memory, one byte per address.
* `blit`: An interval of addresses overwritten by a function.
* `memcpy`, `memset`: The block copy and the block fill.
* `leNat`, `leByte`: Little-endian reading and writing of a number.
* `load32`, `store32`, `load64`, `store64`: Fixed-width words.
* `slice`: A run of bytes as a list.
* `SameOutside`, `SameOn`: Two memories agree off an interval, or on one.

## Theorems

* `blit_inside`, `blit_outside`: A byte read through a write.
* `leNat_of_leByte`: The bytes of a number read back as the number.
* `leNat_inj`, `load32_eq_iff`, `load32_bytes`: A number and its bytes.
* `load32_blit_of_disjoint`, `load64_blit_of_disjoint`,
  `slice_blit_of_disjoint`: Reads that miss the interval written.
* `load32_store32_self`, `load64_store64_self`, `slice_memcpy_self`: Reads of
  exactly the interval written.
* `slice_append`, `slice_drop_take`: Parts of a slice.
* `sameOutside_trans`: Two writes inside an interval stay inside it.
* `cell_inside`, `cells_disjoint`: Where the cells of an array lie.
-/

namespace Bytes

/-- A memory: one byte at every address. -/
abbrev Mem := Nat → UInt8

/-- The `n` addresses from `a` on take the values of `f`. -/
def blit (m : Mem) (a n : Nat) (f : Nat → UInt8) : Mem :=
  fun i => if a ≤ i ∧ i < a + n then f (i - a) else m i

/-- Copy `n` bytes from address `s` of `src` to address `a`. -/
def memcpy (m : Mem) (a : Nat) (src : Mem) (s n : Nat) : Mem :=
  blit m a n (fun i => src (s + i))

/-- Fill `n` bytes from address `a` on with `c`. -/
def memset (m : Mem) (a : Nat) (c : UInt8) (n : Nat) : Mem :=
  blit m a n (fun _ => c)

theorem blit_inside (m : Mem) (a n i : Nat) (f : Nat → UInt8) (h : i < n) :
    blit m a n f (a + i) = f i := by
  unfold blit
  rw [if_pos ⟨by omega, by omega⟩, Nat.add_sub_cancel_left]

theorem blit_outside (m : Mem) (a n i : Nat) (f : Nat → UInt8) (h : i < a ∨ a + n ≤ i) :
    blit m a n f i = m i := by
  unfold blit
  rw [if_neg (by omega)]

/-- The number held little-endian in the `k` bytes from `a` on. -/
def leNat (m : Mem) (a : Nat) : Nat → Nat
  | 0 => 0
  | k + 1 => (m a).toNat + 256 * leNat m (a + 1) k

/-- Byte `i` of the little-endian form of `v`. -/
def leByte (v i : Nat) : UInt8 := UInt8.ofNat (v / 256 ^ i)

theorem leNat_congr (m m' : Mem) : ∀ (k a : Nat), (∀ i, i < k → m' (a + i) = m (a + i)) →
    leNat m' a k = leNat m a k := by
  intro k
  induction k with
  | zero =>
      intro a _
      rfl
  | succ n ih =>
      intro a h
      -- The low byte and the number from the next address on agree.
      have hhead : m' a = m a := h 0 (by omega)
      have htail : leNat m' (a + 1) n = leNat m (a + 1) n := by
        refine ih (a + 1) (fun i hi => ?_)
        have hnext := h (i + 1) (by omega)
        rwa [show a + (i + 1) = a + 1 + i by omega] at hnext
      rw [leNat, leNat, hhead, htail]

/-- A number further on is a number of the memory from there on. -/
theorem leNat_from (m : Mem) (a : Nat) : ∀ (k b : Nat),
    leNat m (a + b) k = leNat (fun i => m (a + i)) b k := by
  intro k
  induction k with
  | zero =>
      intro b
      rfl
  | succ n ih =>
      intro b
      rw [leNat, leNat, Nat.add_assoc, ih (b + 1)]

/-- The bytes of a number, read back, give the number, as far as they reach. -/
theorem leNat_of_leByte (m : Mem) : ∀ (k a v : Nat), (∀ i, i < k → m (a + i) = leByte v i) →
    leNat m a k = v % 256 ^ k := by
  intro k
  induction k with
  | zero =>
      intro a v _
      rw [leNat, Nat.pow_zero, Nat.mod_one]
  | succ n ih =>
      intro a v h
      have hhead : m a = UInt8.ofNat v := by
        have h0 := h 0 (by omega)
        rwa [leByte, Nat.pow_zero, Nat.div_one, Nat.add_zero] at h0
      -- The remaining bytes are those of the quotient by one digit.
      have htail : leNat m (a + 1) n = v / 256 % 256 ^ n := by
        refine ih (a + 1) (v / 256) (fun i hi => ?_)
        have hnext := h (i + 1) (by omega)
        rw [show a + (i + 1) = a + 1 + i by omega] at hnext
        rw [hnext, leByte, leByte, Nat.div_div_eq_div_mul, Nat.pow_succ, Nat.mul_comm]
      -- A digit and a quotient below `256 ^ n` make a number below the product.
      have hpow : 256 ^ (n + 1) = 256 * 256 ^ n := Nat.pow_succ'
      rw [leNat, hhead, htail, hpow, Nat.mod_mul, UInt8.toNat_ofNat']

theorem leNat_lt (m : Mem) : ∀ (k a : Nat), leNat m a k < 256 ^ k := by
  intro k
  induction k with
  | zero =>
      intro a
      exact Nat.one_pos
  | succ n ih =>
      intro a
      have hbyte := UInt8.toNat_lt (m a)
      have hrest := ih (a + 1)
      rw [leNat, Nat.pow_succ]
      omega

/-- A number determines the bytes it is held in. -/
theorem leNat_inj (m m' : Mem) : ∀ (k a a' : Nat), leNat m a k = leNat m' a' k →
    ∀ i, i < k → m (a + i) = m' (a' + i) := by
  intro k
  induction k with
  | zero =>
      intro a a' _ i hi
      omega
  | succ n ih =>
      intro a a' h i hi
      -- Each byte is below 256, so the two sums can only be equal digit by digit.
      have hbyte := UInt8.toNat_lt (m a)
      have hbyte' := UInt8.toNat_lt (m' a')
      rw [leNat, leNat] at h
      cases i with
      | zero =>
          rw [Nat.add_zero, Nat.add_zero]
          exact UInt8.toNat_inj.mp (by omega)
      -- The byte at i comes from the part above the first byte, read one place further on.
      | succ i =>
          have hrest := ih (a + 1) (a' + 1) (by omega) i (by omega)
          rwa [Nat.add_assoc, Nat.add_assoc, Nat.add_comm 1 i] at hrest

/-- The 32-bit word at an address. -/
def load32 (m : Mem) (a : Nat) : UInt32 := UInt32.ofNat (leNat m a 4)

/-- Store a 32-bit word. -/
def store32 (m : Mem) (a : Nat) (v : UInt32) : Mem := blit m a 4 (leByte v.toNat)

/-- The 64-bit word at an address. -/
def load64 (m : Mem) (a : Nat) : UInt64 := UInt64.ofNat (leNat m a 8)

/-- Store a 64-bit word. -/
def store64 (m : Mem) (a : Nat) (v : UInt64) : Mem := blit m a 8 (leByte v.toNat)

/-- The `n` bytes from an address on, as a list. -/
def slice (m : Mem) (a n : Nat) : List UInt8 := (List.range n).map (fun i => m (a + i))

@[simp]
theorem slice_length (m : Mem) (a n : Nat) : (slice m a n).length = n := by
  rw [slice, List.length_map, List.length_range]

theorem slice_getElem (m : Mem) (a n i : Nat) (h : i < (slice m a n).length) :
    (slice m a n)[i] = m (a + i) := by
  simp only [slice, List.getElem_map, List.getElem_range]

theorem slice_eq_iff (m m' : Mem) (a a' n : Nat) :
    slice m a n = slice m' a' n ↔ ∀ i, i < n → m (a + i) = m' (a' + i) := by
  rw [slice, slice, List.map_inj_left]
  exact ⟨fun h i hi => h i (List.mem_range.mpr hi), fun h i hi => h i (List.mem_range.mp hi)⟩

theorem slice_append (m : Mem) (a n k : Nat) :
    slice m a (n + k) = slice m a n ++ slice m (a + n) k := by
  rw [slice, List.range_add, List.map_append, List.map_map]
  refine congrArg (slice m a n ++ ·) (List.map_congr_left (fun i _ => ?_))
  rw [Function.comp_apply, Nat.add_assoc]

theorem slice_drop_take (m : Mem) (a n i k : Nat) :
    ((slice m a n).drop i).take k = slice m (a + i) (min k (n - i)) := by
  refine List.ext_getElem (by simp) (fun j hj hj' => ?_)
  rw [List.getElem_take, List.getElem_drop, slice_getElem, slice_getElem, Nat.add_assoc]

theorem load32_toNat (m : Mem) (a : Nat) : (load32 m a).toNat = leNat m a 4 := by
  rw [load32, UInt32.toNat_ofNat', Nat.mod_eq_of_lt]
  exact leNat_lt m 4 a

/-- A word is the sum of its bytes, each moved to its place. -/
theorem load32_bytes (m : Mem) (a : Nat) : load32 m a = ((m a).toUInt32 <<< 0)
    + ((m (a + 1)).toUInt32 <<< 8) + ((m (a + 2)).toUInt32 <<< 16)
    + ((m (a + 3)).toUInt32 <<< 24) := by
  refine UInt32.toNat_inj.mp ?_
  have hbyte := fun i => UInt8.toNat_lt (m (a + i))
  have h0 := hbyte 0
  have h1 := hbyte 1
  have h2 := hbyte 2
  have h3 := hbyte 3
  rw [Nat.add_zero] at h0
  simp [load32_toNat, leNat, Nat.shiftLeft_eq, Nat.add_assoc]
  omega

theorem load32_eq_iff (m m' : Mem) (a a' : Nat) :
    load32 m a = load32 m' a' ↔ ∀ i, i < 4 → m (a + i) = m' (a' + i) := by
  refine ⟨fun h => leNat_inj m m' 4 a a' ?_, fun h => ?_⟩
  · rw [← load32_toNat, ← load32_toNat, h]
  · have h0 := h 0 (by omega)
    rw [Nat.add_zero, Nat.add_zero] at h0
    rw [load32_bytes, load32_bytes, h0, h 1 (by omega), h 2 (by omega), h 3 (by omega)]

theorem load32_congr (m m' : Mem) (a : Nat) (h : ∀ i, i < 4 → m' (a + i) = m (a + i)) :
    load32 m' a = load32 m a := by
  rw [load32, load32, leNat_congr m m' 4 a h]

theorem load64_congr (m m' : Mem) (a : Nat) (h : ∀ i, i < 8 → m' (a + i) = m (a + i)) :
    load64 m' a = load64 m a := by
  rw [load64, load64, leNat_congr m m' 8 a h]

theorem slice_congr (m m' : Mem) (a a' n : Nat) (h : ∀ i, i < n → m' (a' + i) = m (a + i)) :
    slice m' a' n = slice m a n := by
  refine List.map_congr_left (fun i hi => ?_)
  exact h i (List.mem_range.mp hi)

theorem load32_blit_of_disjoint (m : Mem) (a n b : Nat) (f : Nat → UInt8)
    (h : a + n ≤ b ∨ b + 4 ≤ a) : load32 (blit m a n f) b = load32 m b :=
  load32_congr m _ b (fun i hi => blit_outside m a n (b + i) f (by omega))

theorem load64_blit_of_disjoint (m : Mem) (a n b : Nat) (f : Nat → UInt8)
    (h : a + n ≤ b ∨ b + 8 ≤ a) : load64 (blit m a n f) b = load64 m b :=
  load64_congr m _ b (fun i hi => blit_outside m a n (b + i) f (by omega))

theorem slice_blit_of_disjoint (m : Mem) (a n b k : Nat) (f : Nat → UInt8)
    (h : a + n ≤ b ∨ b + k ≤ a) : slice (blit m a n f) b k = slice m b k :=
  slice_congr m _ b b k (fun i hi => blit_outside m a n (b + i) f (by omega))

@[simp]
theorem load32_store32_self (m : Mem) (a : Nat) (v : UInt32) : load32 (store32 m a v) a = v := by
  -- All four bytes read are bytes of the word written.
  have hread : leNat (store32 m a v) a 4 = v.toNat % 256 ^ 4 :=
    leNat_of_leByte _ 4 a v.toNat (fun i hi => blit_inside m a 4 i _ hi)
  have hlt := v.toNat_lt
  rw [load32, hread, Nat.mod_eq_of_lt (by omega), UInt32.ofNat_toNat]

@[simp]
theorem load64_store64_self (m : Mem) (a : Nat) (v : UInt64) : load64 (store64 m a v) a = v := by
  have hread : leNat (store64 m a v) a 8 = v.toNat % 256 ^ 8 :=
    leNat_of_leByte _ 8 a v.toNat (fun i hi => blit_inside m a 8 i _ hi)
  have hlt := v.toNat_lt
  rw [load64, hread, Nat.mod_eq_of_lt (by omega), UInt64.ofNat_toNat]

theorem load32_store32_of_disjoint (m : Mem) (a b : Nat) (v : UInt32)
    (h : a + 4 ≤ b ∨ b + 4 ≤ a) : load32 (store32 m a v) b = load32 m b :=
  load32_blit_of_disjoint m a 4 b _ h

theorem load64_store64_of_disjoint (m : Mem) (a b : Nat) (v : UInt64)
    (h : a + 8 ≤ b ∨ b + 8 ≤ a) : load64 (store64 m a v) b = load64 m b :=
  load64_blit_of_disjoint m a 8 b _ h

/-- A word of zero bytes is zero. -/
theorem load64_zero (m : Mem) (a : Nat) (h : ∀ i, i < 8 → m (a + i) = 0) : load64 m a = 0 := by
  have hread : leNat m a 8 = 0 % 256 ^ 8 := by
    refine leNat_of_leByte m 8 a 0 (fun i hi => ?_)
    rw [h i hi, leByte, Nat.zero_div]
    rfl
  rw [load64, hread, Nat.zero_mod]
  rfl

theorem slice_memcpy_self (m : Mem) (a n : Nat) (src : Mem) (s : Nat) :
    slice (memcpy m a src s n) a n = slice src s n :=
  slice_congr src _ s a n (fun i hi => blit_inside m a n i _ hi)

/-- Two memories agree at every address off the interval `[lo, hi)`. -/
def SameOutside (lo hi : Nat) (m m' : Mem) : Prop :=
  ∀ i, i < lo ∨ hi ≤ i → m' i = m i

theorem sameOutside_refl (lo hi : Nat) (m : Mem) : SameOutside lo hi m m :=
  fun _ _ => rfl

theorem sameOutside_trans (lo hi : Nat) (m m' m'' : Mem) (h1 : SameOutside lo hi m m')
    (h2 : SameOutside lo hi m' m'') : SameOutside lo hi m m'' :=
  fun i hi => (h2 i hi).trans (h1 i hi)

theorem sameOutside_mono (lo hi lo' hi' : Nat) (m m' : Mem) (h : SameOutside lo hi m m')
    (hlo : lo' ≤ lo) (hhi : hi ≤ hi') : SameOutside lo' hi' m m' :=
  fun i hi => h i (by omega)

/-- A write stays inside every interval that holds it. -/
theorem sameOutside_blit (lo hi : Nat) (m : Mem) (a n : Nat) (f : Nat → UInt8)
    (hlo : lo ≤ a) (hhi : a + n ≤ hi) : SameOutside lo hi m (blit m a n f) :=
  fun i hi => blit_outside m a n i f (by omega)

/-- Two memories agree on the interval `[lo, hi)`. -/
def SameOn (lo hi : Nat) (m m' : Mem) : Prop :=
  ∀ i, lo ≤ i → i < hi → m' i = m i

theorem sameOn_refl (lo hi : Nat) (m : Mem) : SameOn lo hi m m :=
  fun _ _ _ => rfl

theorem sameOn_trans (lo hi : Nat) (m m' m'' : Mem) (h1 : SameOn lo hi m m')
    (h2 : SameOn lo hi m' m'') : SameOn lo hi m m'' :=
  fun i hlo hhi => (h2 i hlo hhi).trans (h1 i hlo hhi)

theorem sameOn_symm (lo hi : Nat) (m m' : Mem) (h : SameOn lo hi m m') : SameOn lo hi m' m :=
  fun i hlo hhi => (h i hlo hhi).symm

theorem sameOn_mono (lo hi lo' hi' : Nat) (m m' : Mem) (h : SameOn lo hi m m')
    (hlo : lo ≤ lo') (hhi : hi' ≤ hi) : SameOn lo' hi' m m' :=
  fun i hlo' hhi' => h i (by omega) (by omega)

/-- What changes only inside one interval is unchanged on another. -/
theorem sameOn_of_sameOutside (lo hi lo' hi' : Nat) (m m' : Mem) (h : SameOutside lo' hi' m m')
    (hapart : hi ≤ lo' ∨ hi' ≤ lo) : SameOn lo hi m m' :=
  fun i hlo hhi => h i (by omega)

/-- The same write to two memories keeps them in agreement. -/
theorem sameOn_blit (lo hi : Nat) (m m' : Mem) (a n : Nat) (f : Nat → UInt8)
    (h : SameOn lo hi m m') : SameOn lo hi (blit m a n f) (blit m' a n f) := by
  intro i hlo hhi
  unfold blit
  rw [h i hlo hhi]

theorem load32_sameOn (lo hi : Nat) (m m' : Mem) (a : Nat) (h : SameOn lo hi m m')
    (hlo : lo ≤ a) (hhi : a + 4 ≤ hi) : load32 m' a = load32 m a :=
  load32_congr m m' a (fun _ _ => h _ (by omega) (by omega))

theorem load64_sameOn (lo hi : Nat) (m m' : Mem) (a : Nat) (h : SameOn lo hi m m')
    (hlo : lo ≤ a) (hhi : a + 8 ≤ hi) : load64 m' a = load64 m a :=
  load64_congr m m' a (fun _ _ => h _ (by omega) (by omega))

theorem slice_sameOn (lo hi : Nat) (m m' : Mem) (a n : Nat) (h : SameOn lo hi m m')
    (hlo : lo ≤ a) (hhi : a + n ≤ hi) : slice m' a n = slice m a n :=
  slice_congr m m' a a n (fun _ _ => h _ (by omega) (by omega))

/-- Cell `i` of an array of `n` cells of width `w` ends inside it. -/
theorem cell_inside (w i n : Nat) (h : i < n) : w * i + w ≤ w * n := by
  rw [← Nat.mul_succ]
  exact Nat.mul_le_mul_left w h

/-- Different cells of an array do not overlap. -/
theorem cells_disjoint (w i j : Nat) (h : i ≠ j) : w * i + w ≤ w * j ∨ w * j + w ≤ w * i := by
  rcases Nat.lt_or_gt_of_ne h with hlt | hgt
  · exact Or.inl (cell_inside w i j hlt)
  · exact Or.inr (cell_inside w j i hgt)

end Bytes
