import Aircmn.Core.Sms

/-!
# Sizes of a Segment

The arithmetic of the layout. A bucket takes its block size rounded by
`ALIGN_BLOCK_SIZE`, and the data area is the sum of what its buckets take. The
source computes this four times: as an `int64_t` in each of the two size
functions, as a `uint64_t` offset into the segment, and as a `uint64_t`
position in the data area. Each of them gives the natural number here.

An `SmsGeom` is a list of configurations that the callers promise: at most
eight, each with a block size that fits 32 bits. Under it nothing wraps, the
largest segment being a few times `2 ^ 32`.

## Main definitions

* `BaseConfig.blockBytes`, `BaseConfig.slots`: The size of a block and the
  slots it has room for.
* `BaseConfig.span`, `spans`: The room one bucket takes, and several.
* `SmsGeom`: Configurations that fit.

## Theorems

* `arrayAllocSize_toNat`: The block size loses no bits.
* `spans_take_succ`, `spans_take_le`: Sums over the first buckets.
* `SmsGeom.spans_lt`: The data area fits a signed 64-bit integer.
* `smsCalcLoop_toInt`: The loop of the size functions.
* `smsCalcDataSize_toNat`, `smsCalcSize_toInt`: The size functions.
-/

namespace Aircmn

/-- Header and slots, the latter one more than the capacity. -/
def BaseConfig.blockBytes (c : BaseConfig) : Nat := 16 + c.elemSize.toNat * (c.cap.toNat + 1)

/-- The number of slots a container of the configured type uses. -/
def BaseConfig.slots (c : BaseConfig) : Nat :=
  if c.type = smsRecordTypeArray then c.cap.toNat else c.cap.toNat + 1

/-- The room a bucket takes in the data area. -/
def BaseConfig.span (c : BaseConfig) : Nat := alignBlockSize c.blockBytes

/-- The room a list of buckets takes. -/
def spans (cfgs : List BaseConfig) : Nat := (cfgs.map BaseConfig.span).sum

/-- The configurations of a segment. -/
structure SmsGeom where
  cfgs : List BaseConfig
  count : cfgs.length ≤ smsMaxBucketNum
  fits : ∀ c ∈ cfgs, c.blockBytes < 2 ^ 32

/-- `cfg_count`. -/
def SmsGeom.cfgCount (g : SmsGeom) : Int32 := Int32.ofNat g.cfgs.length

theorem SmsGeom.counted (g : SmsGeom) : cfgsCounted g.cfgs g.cfgCount = g.cfgs := by
  have hcount := g.count
  unfold smsMaxBucketNum at hcount
  rw [cfgsCounted, SmsGeom.cfgCount, Int32.toInt_ofNat_of_lt (by omega), Int.toNat_natCast,
    List.take_length]

theorem SmsGeom.bucketNum (g : SmsGeom) : g.cfgCount.toUInt32.toNat = g.cfgs.length := by
  have hlt : g.cfgs.length < UInt32.size := Nat.lt_of_le_of_lt g.count (by decide)
  rw [SmsGeom.cfgCount, Int32.toUInt32_ofNat', UInt32.toNat_ofNat_of_lt' hlt]

/-- The slots lie within the block. -/
theorem BaseConfig.slots_le (c : BaseConfig) : 16 + c.elemSize.toNat * c.slots ≤ c.blockBytes := by
  have hslots : c.slots ≤ c.cap.toNat + 1 := by
    unfold BaseConfig.slots
    split
    all_goals omega
  have hmul : c.elemSize.toNat * c.slots ≤ c.elemSize.toNat * (c.cap.toNat + 1) :=
    Nat.mul_le_mul_left _ hslots
  unfold BaseConfig.blockBytes
  omega

theorem BaseConfig.blockBytes_le_span (c : BaseConfig) : c.blockBytes ≤ c.span := by
  unfold BaseConfig.span alignBlockSize
  omega

theorem BaseConfig.span_lt (c : BaseConfig) (h : c.blockBytes < 2 ^ 32) :
    c.span < 2 ^ 32 + 8 := by
  unfold BaseConfig.span alignBlockSize
  omega

/-- No bit of the block size is lost: an element size of zero makes the
    product zero, and a positive one bounds the number of slots. -/
theorem arrayAllocSize_toNat (c : BaseConfig) (h : c.blockBytes < 2 ^ 32) :
    (arrayAllocSize c.cap c.elemSize.toInt32).toNat = c.blockBytes := by
  have hprod : (c.elemSize * (c.cap + 1)).toNat = c.elemSize.toNat * (c.cap.toNat + 1) := by
    rw [UInt32.toNat_mul, UInt32.toNat_add, UInt32.toNat_one]
    unfold BaseConfig.blockBytes at h
    -- With elements of no size the number of slots may wrap.
    by_cases hzero : c.elemSize.toNat = 0
    · rw [hzero, Nat.zero_mul, Nat.zero_mul, Nat.zero_mod]
    · have hslots : c.cap.toNat + 1 ≤ c.elemSize.toNat * (c.cap.toNat + 1) :=
        Nat.le_mul_of_pos_left _ (Nat.pos_of_ne_zero hzero)
      rw [Nat.mod_eq_of_lt (show c.cap.toNat + 1 < 2 ^ 32 by omega),
        Nat.mod_eq_of_lt (by omega)]
  unfold BaseConfig.blockBytes at h ⊢
  rw [arrayAllocSize, UInt32.toUInt32_toInt32, UInt64.toNat_toUInt32, UInt64.toNat_add,
    UInt32.toNat_toUInt64, hprod, show (16 : UInt64).toNat = 16 from rfl]
  omega

/-- The rounded block size as the size of a bucket. -/
theorem alignAlloc_toNat (c : BaseConfig) (h : c.blockBytes < 2 ^ 32) :
    (alignBlockSize (arrayAllocSize c.cap c.elemSize.toInt32).toUInt64).toNat = c.span := by
  unfold BaseConfig.span alignBlockSize
  rw [UInt64.toNat_add, UInt64.toNat_mod, UInt32.toNat_toUInt64, arrayAllocSize_toNat c h,
    show (8 : UInt64).toNat = 8 from rfl]
  omega

theorem toInt_toInt64_of_lt (x : UInt64) (h : x.toNat < 2 ^ 63) : x.toInt64.toInt = x.toNat :=
  BitVec.toInt_eq_toNat_of_lt (show 2 * x.toNat < 2 ^ 64 by omega)

theorem int64_add (a b : Int64) (hlo : 0 ≤ a.toInt) (hlo' : 0 ≤ b.toInt)
    (hhi : a.toInt + b.toInt < 2 ^ 63) : (a + b).toInt = a.toInt + b.toInt := by
  rw [Int64.toInt_add]
  exact Int.bmod_eq_of_le (by omega) (by omega)

/-- The rounded block size as a term of a total. -/
theorem alignAlloc_toInt (c : BaseConfig) (h : c.blockBytes < 2 ^ 32) :
    (alignBlockSize (arrayAllocSize c.cap c.elemSize.toInt32).toUInt64.toInt64).toInt
      = c.span := by
  have halloc : (arrayAllocSize c.cap c.elemSize.toInt32).toUInt64.toInt64.toInt
      = c.blockBytes := by
    rw [toInt_toInt64_of_lt _ (by rw [UInt32.toNat_toUInt64, arrayAllocSize_toNat c h]; omega),
      UInt32.toNat_toUInt64, arrayAllocSize_toNat c h]
  -- The remainder is signed, of a number that is not negative.
  have hmod : ((arrayAllocSize c.cap c.elemSize.toInt32).toUInt64.toInt64 % 8).toInt
      = (c.blockBytes % 8 : Nat) := by
    rw [Int64.toInt_mod, halloc]
    rfl
  unfold BaseConfig.span alignBlockSize
  rw [int64_add _ _ (by omega) (by omega) (by omega), halloc, hmod]
  rfl

theorem spans_cons (c : BaseConfig) (cfgs : List BaseConfig) :
    spans (c :: cfgs) = c.span + spans cfgs := rfl

theorem spans_append (xs ys : List BaseConfig) : spans (xs ++ ys) = spans xs + spans ys := by
  rw [spans, spans, spans, List.map_append, List.sum_append_nat]

theorem spans_take_succ (cfgs : List BaseConfig) (i : Nat) (h : i < cfgs.length) :
    spans (cfgs.take (i + 1)) = spans (cfgs.take i) + cfgs[i].span := by
  rw [List.take_succ_eq_append_getElem h, spans_append]
  rfl

theorem spans_take_le (cfgs : List BaseConfig) (i : Nat) : spans (cfgs.take i) ≤ spans cfgs := by
  conv_rhs => rw [← List.take_append_drop i cfgs]
  rw [spans_append]
  omega

/-- The first buckets take no more room than more of them. -/
theorem spans_take_mono (cfgs : List BaseConfig) (i j : Nat) (h : i ≤ j) :
    spans (cfgs.take i) ≤ spans (cfgs.take j) := by
  have hle := spans_take_le (cfgs.take j) i
  rwa [List.take_take, Nat.min_eq_left h] at hle

theorem spans_le (cfgs : List BaseConfig) (hfits : ∀ c ∈ cfgs, c.blockBytes < 2 ^ 32) :
    spans cfgs ≤ cfgs.length * (2 ^ 32 + 8) := by
  induction cfgs with
  | nil => exact Nat.zero_le _
  | cons c cfgs ih =>
      have hc := c.span_lt (hfits c List.mem_cons_self)
      have hrest := ih (fun d hd => hfits d (List.mem_cons_of_mem c hd))
      rw [spans_cons, List.length_cons, Nat.succ_mul]
      omega

theorem SmsGeom.spans_lt (g : SmsGeom) : spans g.cfgs < 2 ^ 36 := by
  have hle := spans_le g.cfgs g.fits
  have hcount := g.count
  unfold smsMaxBucketNum at hcount
  omega

theorem smsCalcLoop_toInt : ∀ (cfgs : List BaseConfig) (total : Int64),
    (∀ c ∈ cfgs, c.blockBytes < 2 ^ 32) → 0 ≤ total.toInt →
    total.toInt + spans cfgs < 2 ^ 63 →
    (smsCalcLoop cfgs total).toInt = total.toInt + spans cfgs := by
  intro cfgs
  induction cfgs with
  | nil =>
      intro total _ _ _
      exact (Int.add_zero _).symm
  | cons c cfgs ih =>
      intro total hfits hlo hhi
      -- The running total stays below `2 ^ 63`, so no sum wraps.
      have hterm := alignAlloc_toInt c (hfits c List.mem_cons_self)
      rw [spans_cons] at hhi ⊢
      have hsum := int64_add total _ hlo (by rw [hterm]; omega) (by rw [hterm]; omega)
      rw [hterm] at hsum
      have hrest := ih _ (fun d hd => hfits d (List.mem_cons_of_mem c hd))
        (by rw [hsum]; omega) (by rw [hsum]; omega)
      rw [hsum] at hrest
      -- Both branches of the loop add the same term.
      have hround : smsCalcLoop (c :: cfgs) total = smsCalcLoop cfgs
          (total + alignBlockSize (arrayAllocSize c.cap c.elemSize.toInt32).toUInt64.toInt64) :=
        ite_self _
      rw [hround, hrest]
      omega

theorem smsCalcDataSize_toNat (g : SmsGeom) :
    (smsCalcDataSize (some g.cfgs) g.cfgCount).toUInt64.toNat = spans g.cfgs := by
  have hlt := g.spans_lt
  have hint : (smsCalcLoop g.cfgs 0).toInt = spans g.cfgs := by
    rw [smsCalcLoop_toInt g.cfgs 0 g.fits (Int.le_refl 0)
      (by rw [Int64.toInt_zero]; omega), Int64.toInt_zero, Int.zero_add]
  have hle : 0 ≤ smsCalcLoop g.cfgs 0 :=
    Int64.le_iff_toInt_le.mpr (by rw [Int64.toInt_zero, hint]; omega)
  rw [smsCalcDataSize, g.counted, Int64.toNat_toUInt64_of_le hle]
  exact (congrArg Int.toNat hint).trans (Int.toNat_natCast _)

/-- The segment is the two structures and the data area. -/
theorem smsCalcSize_toInt (g : SmsGeom) :
    (smsCalcSize g.cfgs g.cfgCount).toInt = 896 + spans g.cfgs := by
  have hlt := g.spans_lt
  have hbase : (0 + alignBlockSize (Int64.ofNat sizeofBase)
      + alignBlockSize (Int64.ofNat sizeofStatistics)).toInt = 896 := by decide
  rw [smsCalcSize, g.counted, smsCalcLoop_toInt g.cfgs _ g.fits (by rw [hbase]; omega)
    (by rw [hbase]; omega), hbase]

end Aircmn
