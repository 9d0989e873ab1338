import Mathlib.Data.List.Basic
import Aircmn.Core.Hash

/-!
# What Jenkins' Hash Depends On

`jhash` goes over its key in groups of twelve bytes. All groups but the last
are read as words, and the last is put together byte by byte in a `switch`,
because it may be short. Read as words as well, with zeros where the key ends,
it gives the same three words, so the hash is one fold over zero-padded groups
with a different step for the last. The length enters nowhere but in the word
the state starts with, where it is added to `initval`.

Two results follow. `jhash_1word` and `jhash_2words` are `jhash` on the words'
bytes, so that one hash table can be searched through either. And a key with
zeros appended within its last group has the hash of the key alone under an
`initval` that is larger by as many: length and seed are not told apart.

## Main definitions

* `padded`: A memory with zeros from an address on.
* `jhashAdd`, `jhashGroups`: Three words added to the state, and the groups
  before the last.

## Theorems

* `jhashLoop_eq`, `jhashTail_eq`, `jhash_eq`, `jhash_short`: The hash as a fold
  over words.
* `jhash_words`: The forms for one word and for two.
* `jhash_padding`: Zeros at the end of a key.
-/

namespace Aircmn

open Bytes

/-- A memory with zeros from `e` on. -/
def padded (m : Mem) (e : Nat) : Mem := fun i => if i < e then m i else 0

/-- The words of the group at `k` added to the state. -/
def jhashAdd (m : Mem) (k : Nat) (s : Jwords) : Jwords :=
  ⟨s.a + load32 m k, s.b + load32 m (k + 4), s.c + load32 m (k + 8)⟩

/-- `r` groups from `key` on, each mixed. -/
def jhashGroups (m : Mem) (key r : Nat) (s : Jwords) : Jwords :=
  (List.range r).foldl (fun s g => jhashMix (jhashAdd m (key + 12 * g) s)) s

theorem jhashGroups_succ (m : Mem) (key r : Nat) (s : Jwords) :
    jhashGroups m key (r + 1) s = jhashGroups m (key + 12) r (jhashMix (jhashAdd m key s)) := by
  rw [jhashGroups, jhashGroups, List.range_succ_eq_map, List.foldl_cons, List.foldl_map]
  refine List.foldl_ext _ _ _ (fun s g _ => ?_)
  rw [Nat.mul_succ, Nat.add_comm (12 * g), ← Nat.add_assoc]

theorem jhashAdd_congr (m m' : Mem) (k k' : Nat) (s : Jwords)
    (h : ∀ i, i < 12 → m (k + i) = m' (k' + i)) : jhashAdd m k s = jhashAdd m' k' s := by
  have hword : ∀ j, j ≤ 8 → load32 m (k + j) = load32 m' (k' + j) := by
    intro j hj
    refine (load32_eq_iff _ _ _ _).mpr (fun i hi => ?_)
    rw [Nat.add_assoc, Nat.add_assoc]
    exact h (j + i) (by omega)
  have h0 := hword 0 (by omega)
  rw [Nat.add_zero, Nat.add_zero] at h0
  rw [jhashAdd, jhashAdd, h0, hword 4 (by omega), hword 8 (by omega)]

theorem jhashGroups_congr (m m' : Mem) (key key' r : Nat) (s : Jwords)
    (h : ∀ i, i < 12 * r → m (key + i) = m' (key' + i)) :
    jhashGroups m key r s = jhashGroups m' key' r s := by
  rw [jhashGroups, jhashGroups]
  refine List.foldl_ext _ _ _ (fun s g hg => ?_)
  have hlt := List.mem_range.mp hg
  refine congrArg jhashMix (jhashAdd_congr m m' _ _ s (fun i hi => ?_))
  rw [Nat.add_assoc, Nat.add_assoc]
  exact h (12 * g + i) (by omega)

/-- The loop leaves the last group, which is never empty unless the key is. -/
theorem jhashLoop_eq (m : Mem) : ∀ (r key : Nat) (length : UInt32) (s : Jwords),
    r = (length.toNat - 1) / 12 →
    jhashLoop m key length s
      = (key + 12 * r, UInt32.ofNat (length.toNat - 12 * r), jhashGroups m key r s) := by
  intro r
  induction r with
  | zero =>
      -- Up to twelve bytes are left to the `switch`.
      intro key length s hr
      have hshort : ¬ length > 12 := by
        intro hlong
        have hlt : (12 : UInt32).toNat < length.toNat := UInt32.lt_iff_toNat_lt.mp hlong
        have htwelve : (12 : UInt32).toNat = 12 := rfl
        omega
      rw [jhashLoop, dif_neg hshort, Nat.mul_zero, Nat.add_zero, Nat.sub_zero, UInt32.ofNat_toNat]
      rfl
  | succ r ih =>
      intro key length s hr
      have htwelve : (12 : UInt32).toNat = 12 := rfl
      have hlong : length > 12 := UInt32.lt_iff_toNat_lt.mpr (by omega)
      have hless : (length - 12).toNat = length.toNat - 12 :=
        UInt32.toNat_sub_of_le _ _ (UInt32.le_iff_toNat_le.mpr (by omega))
      have hkey : key + 12 + 12 * r = key + 12 * (r + 1) := by omega
      have hleft : length.toNat - 12 - 12 * r = length.toNat - 12 * (r + 1) := by omega
      rw [jhashLoop, dif_pos hlong, ih (key + 12) (length - 12) _ (by omega), hless, hkey, hleft,
        jhashGroups_succ]
      rfl

/-- One case of the `switch`, taken or not. -/
theorem jhashCase_eq (m : Mem) (length n : UInt32) (k i : Nat) (shift word : UInt32)
    (hn : n.toNat = i + 1) : jhashCase m length n (k + i) shift word
      = word + ((padded m (k + length.toNat) (k + i)).toUInt32 <<< shift) := by
  rw [jhashCase, padded]
  by_cases h : i < length.toNat
  · rw [if_pos (UInt32.le_iff_toNat_le.mpr (by omega)), if_pos (by omega)]
  · have hnot : ¬ n ≤ length := fun hle => h (by
      have := UInt32.le_iff_toNat_le.mp hle
      omega)
    have hzero : (0 : UInt8).toUInt32 = 0 := rfl
    rw [if_neg hnot, if_neg (by omega), hzero, UInt32.zero_shiftLeft, UInt32.add_zero]

/-- Four bytes added to a word from the highest down. -/
theorem add_bytes (m : Mem) (k : Nat) (word : UInt32) :
    word + ((m (k + 3)).toUInt32 <<< 24) + ((m (k + 2)).toUInt32 <<< 16)
      + ((m (k + 1)).toUInt32 <<< 8) + ((m k).toUInt32 <<< 0) = word + load32 m k := by
  rw [load32_bytes]
  generalize (m k).toUInt32 <<< 0 = b0
  generalize (m (k + 1)).toUInt32 <<< 8 = b1
  generalize (m (k + 2)).toUInt32 <<< 16 = b2
  generalize (m (k + 3)).toUInt32 <<< 24 = b3
  ac_rfl

theorem jhashTail_eq (m : Mem) (k : Nat) (length : UInt32) (s : Jwords) (h : 0 < length.toNat) :
    jhashTail m k length s = jhashFinal (jhashAdd (padded m (k + length.toNat)) k s) := by
  -- A key that is not empty takes the case of its last group.
  have hone : 1 ≤ length := UInt32.le_iff_toNat_le.mpr h
  have hcase := jhashCase_eq m length
  -- The padded memory reads 0 behind the key, so a full word can be read there.
  have ha := add_bytes (padded m (k + length.toNat)) k s.a
  have hb := add_bytes (padded m (k + length.toNat)) (k + 4) s.b
  have hc := add_bytes (padded m (k + length.toNat)) (k + 8) s.c
  have hfirst : ∀ word, jhashCase m length 1 k 0 word
      = word + ((padded m (k + length.toNat) k).toUInt32 <<< 0) :=
    fun word => hcase 1 k 0 0 word rfl
  simp only [Nat.add_assoc, Nat.reduceAdd] at hb hc
  -- The cases fall through from 12 to 1, adding one byte each.
  rw [jhashTail, if_pos hone, hcase 12 k 11 _ _ rfl, hcase 11 k 10 _ _ rfl, hcase 10 k 9 _ _ rfl,
    hcase 9 k 8 _ _ rfl, hcase 8 k 7 _ _ rfl, hcase 7 k 6 _ _ rfl, hcase 6 k 5 _ _ rfl,
    hcase 5 k 4 _ _ rfl, hcase 4 k 3 _ _ rfl, hcase 3 k 2 _ _ rfl, hcase 2 k 1 _ _ rfl,
    hfirst, ha, hb, hc]
  rfl

/-- The hash of a key that is not empty. -/
theorem jhash_eq (m : Mem) (key : Nat) (length initval start : UInt32) (r : Nat)
    (h : 0 < length.toNat) (hr : r = (length.toNat - 1) / 12)
    (hstart : start = jhashInitval + length + initval) :
    jhash m key length initval = (jhashFinal (jhashAdd (padded m (key + length.toNat))
      (key + 12 * r) (jhashGroups m key r ⟨start, start, start⟩))).c := by
  have hleft : (UInt32.ofNat (length.toNat - 12 * r)).toNat = length.toNat - 12 * r := by
    rw [UInt32.toNat_ofNat', Nat.mod_eq_of_lt (by omega)]
  have hend : key + 12 * r + (length.toNat - 12 * r) = key + length.toNat := by omega
  rw [jhash, ← hstart, jhashLoop_eq m r key length _ hr,
    jhashTail_eq _ _ _ _ (by rw [hleft]; omega), hleft,
    hend]

theorem load32_padded (m : Mem) (e k : Nat) :
    (k + 4 ≤ e → load32 (padded m e) k = load32 m k) ∧ (e ≤ k → load32 (padded m e) k = 0) := by
  constructor
  · intro h
    refine (load32_eq_iff _ _ _ _).mpr (fun i hi => ?_)
    rw [padded, if_pos (by omega)]
  · intro h
    have hzero : load32 (fun _ => 0) k = 0 := by
      rw [load32_bytes]
      decide
    rw [← hzero]
    refine (load32_eq_iff _ _ _ _).mpr (fun i hi => ?_)
    rw [padded, if_neg (by omega)]

/-- A key of words that is shorter than a group. -/
theorem jhash_short (m : Mem) (key : Nat) (length initval start : UInt32) (h : 0 < length.toNat)
    (hshort : length.toNat ≤ 12) (hstart : start = jhashInitval + length + initval) :
    jhash m key length initval
      = (jhashFinal (jhashAdd (padded m (key + length.toNat)) key ⟨start, start, start⟩)).c := by
  rw [jhash_eq m key length initval start 0 h (by omega) hstart]
  rfl

/-- `jhash_1word` and `jhash_2words` on the words of a key of four and of eight
    bytes. -/
theorem jhash_words (m : Mem) (key : Nat) (initval : UInt32) :
    jhash1word (load32 m key) initval = jhash m key 4 initval
      ∧ jhash2words (load32 m key) (load32 m (key + 4)) initval = jhash m key 8 initval := by
  -- The start value is the same sum in another order.
  have hmove : ∀ x y : UInt32, x + y + initval = initval + x + y := by
    intro x y
    ac_rfl
  constructor
  · have hfour : (4 : UInt32).toNat = 4 := rfl
    -- One word is a key of four bytes, and its length is shifted into the start value.
    have hstart : initval + jhashInitval + ((1 : UInt32) <<< 2) = jhashInitval + 4 + initval :=
      (hmove _ _).symm
    rw [jhash_short m key 4 initval _ (by decide) (by decide) rfl, jhash1word, jhashNwords, hstart,
      -- The key ends after the first word, so the two others are 0.
      jhashAdd, hfour, (load32_padded m _ _).1 (Nat.le_refl _),
      (load32_padded m _ _).2 (Nat.le_refl _), (load32_padded m _ _).2 (by omega)]
    simp only [UInt32.add_comm]
  · have height : (8 : UInt32).toNat = 8 := rfl
    have hstart : initval + jhashInitval + ((2 : UInt32) <<< 2) = jhashInitval + 8 + initval :=
      (hmove _ _).symm
    rw [jhash_short m key 8 initval _ (by decide) (by decide) rfl, jhash2words, jhashNwords, hstart,
      -- With two words only the third is 0.
      jhashAdd, height, (load32_padded m _ _).1 (by omega), (load32_padded m _ _).1 (by omega),
      (load32_padded m _ _).2 (Nat.le_refl _)]
    simp only [UInt32.add_comm]

/-- Zeros appended within the last group are no different from a larger
    `initval`. -/
theorem jhash_padding (m m' : Mem) (key key' : Nat) (l l' initval : UInt32) (hl : 0 < l.toNat)
    (hle : l.toNat ≤ l'.toNat) (hgroup : (l'.toNat - 1) / 12 = (l.toNat - 1) / 12)
    (hsame : ∀ i, i < l.toNat → m (key + i) = m' (key' + i))
    (hzero : ∀ i, l.toNat ≤ i → i < l'.toNat → m' (key' + i) = 0) :
    jhash m' key' l' initval = jhash m key l (initval + (l' - l)) := by
  have hstart : jhashInitval + l' + initval = jhashInitval + l + (initval + (l' - l)) := by
    have hl' : l' = l + (l' - l) := by rw [UInt32.add_comm, UInt32.sub_add_cancel]
    generalize l' - l = d at *
    rw [hl']
    ac_rfl
  rw [jhash_eq m' key' l' initval _ _ (by omega) rfl rfl,
    jhash_eq m key l (initval + (l' - l)) _ _ hl rfl hstart, hgroup]
  generalize hr : (l.toNat - 1) / 12 = r
  rw [jhashGroups_congr m m' key key' r _ (fun i hi => hsame i (by omega))]
  refine congrArg (fun s => (jhashFinal s).c) (jhashAdd_congr _ _ _ _ _ (fun i hi => ?_))
  -- A byte of the last group, of the key, of the zeros after it, or beyond both.
  rw [padded, padded, Nat.add_assoc, Nat.add_assoc]
  by_cases hin : 12 * r + i < l.toNat
  · rw [if_pos (by omega), if_pos (by omega), hsame _ hin]
  · rw [if_neg (show ¬ key + (12 * r + i) < key + l.toNat by omega)]
    by_cases hin' : 12 * r + i < l'.toNat
    · rw [if_pos (by omega), hzero _ (by omega) hin']
    · rw [if_neg (by omega)]

/-- A key of three bytes, and the same with two zeros after it. -/
theorem jhash_padding_small :
    jhash (fun i => if i < 3 then UInt8.ofNat (i + 1) else 0) 0 5 7
      = jhash (fun i => UInt8.ofNat (i + 1)) 0 3 (7 + (5 - 3)) := by
  refine jhash_padding _ _ 0 0 3 5 7 (by decide) (by decide) (by decide) ?_ ?_
  · intro i hi
    have hlt : i < 3 := hi
    rw [Nat.zero_add, if_pos hlt]
  · intro i hi _
    have hle : 3 ≤ i := hi
    rw [Nat.zero_add, if_neg (by omega)]

end Aircmn
