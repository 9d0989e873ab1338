import Aircmn.Core.Shm
import Aircmn.Theory.Sms.Layout
import Mathlib.Order.Bounds.Basic

/-!
# Rounding to the Alignment

`ALIGN_BLOCK_SIZE` adds to a size its own remainder modulo eight, where
rounding up would add what is missing to the next multiple. The two agree when
the remainder is zero or four, so a size comes out aligned just in case it was
a multiple of four. The same sum, written out, is in `shm_create`.

An offset is the sum of the sizes before it, so the offsets are right when all
block sizes are multiples of four. That they are all right for other block
sizes can happen, two misplaced sizes making up for each other, but then the
sizes themselves are wrong.

## Main definitions

* `BaseConfig.allocSize`: The size of a block, as the source computes it.
* `SmsAligned`: What the layout is meant to be.
* `ShmRounded`: What `shm_create` is meant to do to the size.

## Theorems

* `alignBlockSize_dvd_iff`, `alignBlockSize_least`: When the macro aligns.
* `eight_dvd_spans`: Sums of aligned sizes.
* `smsTable_aligned_iff`: When the layout is aligned.
* `int32_round_dvd_iff`: When the sum in `shm_create` is.
* `shmCreate_keyed`, `shmCreate_key`: The size and the key that are stored.
* `shm_rounded_iff`: When `shm_create` rounds.
* `block_rounding_aligns_iff`: Both together.
* `block_rounding_off`: A block of 17 bytes and a segment of 17.
-/

namespace Aircmn

open Bytes

/-- `array_alloc_size` or `ring_alloc_size`. -/
def BaseConfig.allocSize (c : BaseConfig) : UInt32 :=
  if c.type = smsRecordTypeArray then arrayAllocSize c.cap c.elemSize.toInt32
  else ringAllocSize c.cap c.elemSize.toInt32

/-- Offsets and sizes of the buckets are multiples of eight, each size is the
    least one that has room for its block, and the headers and the three areas
    of the segment lie on multiples of eight. -/
structure SmsAligned (g : SmsGeom) (root : Nat) (m : Mem) : Prop where
  offset : ∀ i, i < g.cfgs.length → 8 ∣ smsOffset m root i
  size : ∀ i, i < g.cfgs.length → 8 ∣ smsSize m root i
  least : ∀ i (h : i < g.cfgs.length),
    IsLeast {s | 8 ∣ s ∧ g.cfgs[i].allocSize.toNat ≤ s} (smsSize m root i)
  header : ∀ i (h : i < g.cfgs.length),
    ∃ p, 8 ∣ p ∧ ContainerFresh m (root + p) g.cfgs[i] ∧ p = smsOffset m root i
  statistics : 8 ∣ (baseStatisticOffset m root).toNat
  data : 8 ∣ (baseDataOffset m root).toNat
  dataSize : 8 ∣ (baseDataSize m root).toNat

/-- Once `shm_create` has a key, the size it stores is a multiple of eight, and
    after a failed `shmget` another call stores the same. -/
def ShmRounded (shm : CmnShm) : Prop :=
  ∀ ftok shmget st shm', shmCreate ftok shmget shm = (st, shm') → 0 < shm'.key →
    8 ∣ shm'.size.toInt ∧
      (shm'.sid < 0 → ∀ ftok' shmget', (shmCreate ftok' shmget' shm').2.size = shm'.size)

theorem alignBlockSize_dvd_iff (d : Nat) : 8 ∣ alignBlockSize d ↔ 4 ∣ d := by
  unfold alignBlockSize
  omega

/-- On a multiple of four the macro rounds up. -/
theorem alignBlockSize_least (d : Nat) (h : 4 ∣ d) :
    IsLeast {s | 8 ∣ s ∧ d ≤ s} (alignBlockSize d) := by
  refine ⟨⟨(alignBlockSize_dvd_iff d).mpr h, Nat.le_add_right _ _⟩, fun s hs => ?_⟩
  have hdvd := hs.1
  have hle := hs.2
  unfold alignBlockSize
  omega

theorem BaseConfig.allocSize_toNat (c : BaseConfig) (h : c.blockBytes < 2 ^ 32) :
    c.allocSize.toNat = c.blockBytes := by
  unfold BaseConfig.allocSize
  split
  all_goals exact arrayAllocSize_toNat c h

theorem eight_dvd_spans (cfgs : List BaseConfig) (h : ∀ c ∈ cfgs, 8 ∣ c.span) : 8 ∣ spans cfgs := by
  induction cfgs with
  | nil => exact Nat.dvd_zero 8
  | cons c cfgs ih =>
      rw [spans_cons]
      exact Nat.dvd_add (h c List.mem_cons_self)
        (ih (fun d hd => h d (List.mem_cons_of_mem c hd)))

theorem smsTable_aligned_iff (g : SmsGeom) (root : Nat) (m : Mem) (h : SmsTable g root m) :
    SmsAligned g root m ↔ ∀ c ∈ g.cfgs, 4 ∣ c.allocSize.toNat := by
  -- Offsets and sizes are the sums of the rounded blocks.
  have hoffset : ∀ i, i < g.cfgs.length → smsOffset m root i = 896 + spans (g.cfgs.take i) :=
    fun i hi => (h.buckets i hi).offset
  have hsize : ∀ i (hi : i < g.cfgs.length),
      smsSize m root i = alignBlockSize g.cfgs[i].allocSize.toNat := by
    intro i hi
    rw [BaseConfig.allocSize_toNat _ (g.fits _ (List.getElem_mem hi))]
    exact (h.buckets i hi).size
  -- d + d % 8 is divisible by 8 just when d is divisible by 4, block by block.
  constructor
  · intro haligned c hc
    rcases List.getElem_of_mem hc with ⟨i, hi, hci⟩
    rw [← hci, ← alignBlockSize_dvd_iff, ← hsize i hi]
    exact haligned.size i hi
  · intro hfour
    -- The span of a bucket is its rounded size, divisible by 8 under the condition.
    have height : ∀ c ∈ g.cfgs, 8 ∣ c.span := by
      intro c hc
      rw [BaseConfig.span, alignBlockSize_dvd_iff, ← c.allocSize_toNat (g.fits c hc)]
      exact hfour c hc
    -- Each bucket starts at 896 plus the spans before it, and 896 is divisible too.
    have hoffset' : ∀ i, i < g.cfgs.length → 8 ∣ smsOffset m root i := by
      intro i hi
      rw [hoffset i hi]
      exact Nat.dvd_add (by decide)
        (eight_dvd_spans _ (fun c hc => height c (List.mem_of_mem_take hc)))
    -- The fields of SmsAligned one after the other, the last four being constants.
    refine ⟨hoffset', ?_, ?_, ?_, ?_, ?_, ?_⟩
    · intro i hi
      rw [hsize i hi, alignBlockSize_dvd_iff]
      exact hfour _ (List.getElem_mem hi)
    · intro i hi
      rw [hsize i hi]
      exact alignBlockSize_least _ (hfour _ (List.getElem_mem hi))
    · intro i hi
      refine ⟨_, hoffset' i hi, ?_, rfl⟩
      rw [hoffset i hi]
      exact (h.buckets i hi).fresh
    · rw [h.statisticOffset]
      decide
    · rw [h.dataOffset]
      decide
    · rw [h.dataSize]
      exact eight_dvd_spans _ height

/-- The sum of `shm_create`, which wraps at `2 ^ 32`, a multiple of eight. -/
theorem int32_round_dvd_iff (x : Int32) : 8 ∣ (x + x % 8).toInt ↔ 4 ∣ x.toInt := by
  have hwrap : (2 ^ 32 : Int) ∣ (x + x % 8).toInt - (x.toInt + (x % 8).toInt) := by
    rw [Int32.toInt_add]
    exact Int.dvd_bmod_sub_self
  -- The remainder is signed, and differs from the size by a multiple of eight.
  have hrem : 8 * x.toInt.tdiv 8 + (x % 8).toInt = x.toInt := by
    rw [Int32.toInt_mod]
    exact Int.mul_tdiv_add_tmod x.toInt 8
  omega

/-- A call of `shm_create` that has a key, or finds one, stores the rounded
    size, whatever `shmget` answers. -/
theorem shmCreate_keyed (ftok : List UInt8 → Int32) (shmget : Int32 → Int32 → Int32)
    (shm : CmnShm) (hkey : 0 < (shmCreate ftok shmget shm).2.key) :
    (shmCreate ftok shmget shm).2.size = shm.size + shm.size % 8 := by
  rcases shmCreate_cases ftok shmget shm with ⟨key, sid, _, _, _, hcreate⟩
  rw [hcreate] at hkey ⊢
  by_cases hno : key ≤ 0
  · rw [if_pos hno] at hkey
    exact absurd hno (Int32.not_le.mpr hkey)
  · rw [if_neg hno]

theorem shmCreate_key (ftok : List UInt8 → Int32) (shmget : Int32 → Int32 → Int32) (shm : CmnShm)
    (h : 0 < shm.key ∨ 0 < ftok shm.filename) : 0 < (shmCreate ftok shmget shm).2.key := by
  rcases shmCreate_cases ftok shmget shm with ⟨key, sid, hold, hnew, _, hcreate⟩
  have hkey : 0 < key := by
    by_cases hno : shm.key ≤ 0
    · rw [hnew hno]
      exact h.resolve_left (Int32.not_lt.mpr hno)
    · rw [hold (Int32.not_le.mp hno)]
      exact Int32.not_le.mp hno
  rw [hcreate, if_neg (Int32.not_le.mpr hkey)]
  exact hkey

/-- A multiple of eight is rounded to itself. -/
theorem int32_round_self (x : Int32) (h : 8 ∣ x.toInt) : x + x % 8 = x := by
  have hrem : x % 8 = 0 := by
    rw [← Int32.toInt_inj, Int32.toInt_mod]
    exact Int.tmod_eq_zero_of_dvd h
  rw [hrem, Int32.add_zero]

theorem shm_rounded_iff (shm : CmnShm) : ShmRounded shm ↔ 4 ∣ shm.size.toInt := by
  constructor
  · intro hrounded
    -- A kernel that has a key for every file, and a segment.
    have hkey := shmCreate_key (fun _ => 1) (fun _ _ => 0) shm (Or.inr (by decide))
    have hsize := shmCreate_keyed (fun _ => 1) (fun _ _ => 0) shm hkey
    generalize hcreate : shmCreate (fun _ => 1) (fun _ _ => 0) shm = r at hkey hsize
    have hdvd := (hrounded _ _ r.1 r.2 hcreate hkey).1
    rw [hsize] at hdvd
    exact (int32_round_dvd_iff _).mp hdvd
  · intro hfour ftok shmget st shm' hcreate hkey
    have hsize := shmCreate_keyed ftok shmget shm
    rw [hcreate] at hsize
    have hdvd : 8 ∣ shm'.size.toInt := by
      rw [hsize hkey, int32_round_dvd_iff]
      exact hfour
    refine ⟨hdvd, fun _ ftok' shmget' => ?_⟩
    rw [shmCreate_keyed ftok' shmget' shm' (shmCreate_key ftok' shmget' shm' (Or.inl hkey)),
      int32_round_self _ hdvd]

/-- The layout that `sms_init` makes is aligned just in case every block size
    is a multiple of four, and `shm_create` rounds just in case the size it is
    given is one. -/
theorem block_rounding_aligns_iff (g : SmsGeom) (m : Mem) (root : Nat) (pid : Int32)
    (date : UInt64) (shm : CmnShm) :
    (SmsAligned g root (smsInit m root (some g.cfgs) g.cfgCount pid date).2 ↔
        ∀ c ∈ g.cfgs, 4 ∣ c.allocSize.toNat) ∧
      (ShmRounded shm ↔ 4 ∣ shm.size.toInt) :=
  ⟨smsTable_aligned_iff g root _ (smsInit_table m g root pid date).1, shm_rounded_iff shm⟩

/-- An array of one byte, with a block of 17 bytes. -/
def oddBlock : SmsGeom where
  cfgs := [⟨false, fun _ => 0, 1, 0, 1⟩]
  count := by decide
  fits := by decide

/-- A size of 17 is rounded to 18, and, by `shm_create` called again, to 20. -/
theorem block_rounding_off :
    (∃ start, smsInit (fun _ => 0) 0 (some oddBlock.cfgs) oddBlock.cfgCount 1 2 = (cmnOk, start) ∧
      smsSize start 0 0 = 18 ∧ ¬ SmsAligned oddBlock 0 start) ∧
    (∃ shm, shmCreate (fun _ => 1) (fun _ _ => -1) ⟨[], shmNull, 0, 17, 1⟩ = (cmnError, shm) ∧
      shm.size = 18 ∧ (shmCreate (fun _ => 1) (fun _ _ => -1) shm).2.size = 20) ∧
    ¬ ShmRounded ⟨[], shmNull, 0, 17, 1⟩ := by
  -- The layout is read off the table; the block of 17 bytes is rounded to 18.
  have htable := (smsInit_table (fun _ => 0) oddBlock 0 1 2).1
  rw [smsInit_eq] at htable
  refine ⟨⟨_, smsInit_eq _ oddBlock 0 1 2, ?_, ?_⟩, ⟨_, rfl, by decide, by decide⟩, ?_⟩
  · exact (htable.buckets 0 (by decide)).size
  · rw [smsTable_aligned_iff oddBlock 0 _ htable]
    decide
  · rw [shm_rounded_iff]
    decide

end Aircmn
