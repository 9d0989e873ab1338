import Aircmn.Theory.Sms.Layout

/-!
# Bucket Counts

`sms_init` is told how many configurations there are and checks nothing about
it. The tables of the segment have eight entries, the count is an `int`, and
the field it is stored to is a `uint32_t`. A count above eight lets the loop
run past both tables, and a negative one lets it not run at all, but is stored
as a number above two billion, which is how many buckets the reports then look
at.

Within the tables the rounds of the loop keep out of each other's entries. The
container of a bucket comes after those of the buckets before it, as long as
their sizes do not wrap to nothing, so the header of the first container is
safe if the first size leaves room for it.

A round is judged on every memory it could find, so that storing the same bytes
again does not count as keeping out.

## Main definitions

* `smsLoopStart`: The memory when the loop starts.
* `RoundApart`: A round keeps out of the other entries and of the first header.
* `SmsRounds`: A condition on every round of the loop.
* `SmsInBounds`: What initialisation is to keep to.
* `SmsCountOk`: The condition.

## Theorems

* `smsInitLoop_below`: The loop stores nothing below the table of buckets.
* `roundApart_of_room`, `room_of_roundApart`: When a round keeps out.
* `smsRounds_inTables`: The rounds of a loop that stays in the tables.
* `sms_count_iff`: Initialisation is in bounds exactly if the count is.
* `sms_count_three`: Three buckets.
* `sms_count_nine`: Nine buckets, and less than none.
-/

namespace Aircmn

open Bytes

/-- The memory when the loop starts. -/
def smsLoopStart (m : Mem) (root : Nat) (cfg : List BaseConfig) (cfgCount : Int32) (pid : Int32)
    (date : UInt64) : Mem :=
  store32 (memset (smsInitBase m root (some cfg) cfgCount pid date) (baseStatisticalArea root) 0
    sizeofStatistics) (baseStatisticalArea root + 4) cfgCount.toUInt32

theorem smsInit_some (m : Mem) (root : Nat) (cfg : List BaseConfig) (cfgCount pid : Int32)
    (date : UInt64) : smsInit m root (some cfg) cfgCount pid date
      = (cmnOk, smsInitLoop (baseDataArea root) (baseStatisticalArea root)
          (cfgsCounted cfg cfgCount) 0
          (baseDataOffset (smsLoopStart m root cfg cfgCount pid date) root) 0
          (smsLoopStart m root cfg cfgCount pid date)) := rfl

/-- A round stores nothing below the table of buckets, whatever its number and
    wherever its container. -/
theorem smsRound_below (m : Mem) (root i : Nat) (c : BaseConfig) (offset : UInt64) (P x : Nat)
    (hx : x < root + 128) : smsRound m root i c offset P x = m x := by
  exact smsRound_outside m root i c offset P x (by omega) (by omega) (by omega)

theorem smsInitLoop_below (root x : Nat) (hx : x < root + 128) : ∀ (cfgs : List BaseConfig)
    (i : Nat) (offset position : UInt64) (m : Mem),
    smsInitLoop (baseDataArea root) (baseStatisticalArea root) cfgs i offset position m x
      = m x := by
  intro cfgs
  induction cfgs with
  | nil =>
      intro i offset position m
      rfl
  | cons c rest ih =>
      intro i offset position m
      rcases smsInitLoop_cons root i c rest offset position m with ⟨size, _, hloop⟩
      rw [hloop, ih, smsRound_below m root i c offset _ x hx]

/-- The count is recorded as it is given. -/
theorem smsInit_bucketNum (m : Mem) (root : Nat) (cfg : List BaseConfig) (cfgCount pid : Int32)
    (date : UInt64) :
    statBucketNum (smsInit m root (some cfg) cfgCount pid date).2 (baseStatisticalArea root)
      = cfgCount.toUInt32 := by
  rw [smsInit_some]
  have hstart : statBucketNum (smsLoopStart m root cfg cfgCount pid date)
      (baseStatisticalArea root) = cfgCount.toUInt32 := load32_store32_self _ _ _
  rw [← hstart]
  refine load32_congr _ _ _ (fun k hk => smsInitLoop_below root _ ?_ _ _ _ _ _)
  unfold baseStatisticalArea sizeofBase
  omega

/-- Round `i` changes no other entry of the two tables, and only the first
    round the header of the first container. -/
structure RoundApart (root i : Nat) (c : BaseConfig) (offset position : UInt64) : Prop where
  bucket : ∀ m j, j < smsMaxBucketNum → j ≠ i →
    SameOn (statBucket (baseStatisticalArea root) j)
      (statBucket (baseStatisticalArea root) j + sizeofBucket) m
      (smsRound m root i c offset position.toNat)
  cfg : ∀ m j, j < smsMaxBucketNum → j ≠ i →
    SameOn (statCfg (baseStatisticalArea root) j)
      (statCfg (baseStatisticalArea root) j + sizeofBaseConfig) m
      (smsRound m root i c offset position.toNat)
  header : i ≠ 0 → ∀ m, SameOn (baseDataArea root) (baseDataArea root + ringHdrSize) m
    (smsRound m root i c offset position.toNat)

theorem roundApart_of_room (root i : Nat) (c : BaseConfig) (offset position : UInt64)
    (hi : i < smsMaxBucketNum) (hroom : i ≠ 0 → 16 ≤ position.toNat) :
    RoundApart root i c offset position := by
  unfold smsMaxBucketNum at hi
  -- The round stores in the entry and the configuration of bucket i and in the header of its
  -- container.
  refine ⟨fun m j hj hij x hlo hhi => ?_, fun m j hj hij x hlo hhi => ?_,
    fun hne m x hlo hhi => ?_⟩
  · rw [statBucket_eq] at hlo hhi
    unfold sizeofBucket at hhi
    unfold smsMaxBucketNum at hj
    exact smsRound_outside m root i c offset _ x (by omega) (by omega) (by omega)
  · rw [statCfg_eq] at hlo hhi
    unfold sizeofBaseConfig at hhi
    unfold smsMaxBucketNum at hj
    exact smsRound_outside m root i c offset _ x (by omega) (by omega) (by omega)
  -- A round after the first has to start behind the header of the first bucket.
  · have hpos := hroom hne
    rw [baseDataArea_eq] at hlo hhi
    unfold ringHdrSize at hhi
    exact smsRound_outside m root i c offset _ x (by omega) (by omega) (by omega)

/-- The first byte of a container set up does not depend on the memory. -/
theorem containerSetup_first (m m' : Mem) (p : Nat) (c : BaseConfig) :
    containerSetup m p c p = containerSetup m' p c p := by
  unfold containerSetup
  by_cases htype : c.type = smsRecordTypeArray
  · simp [htype, arraySetup, store32, blit]
  · simp [htype, ringSetup, store32, blit]

theorem room_of_roundApart (root i : Nat) (c : BaseConfig) (offset position : UInt64)
    (hi : i < smsMaxBucketNum) (hne : i ≠ 0) (h : RoundApart root i c offset position) :
    16 ≤ position.toNat := by
  unfold smsMaxBucketNum at hi
  refine Nat.le_of_not_lt (fun hlt => ?_)
  -- On a memory with another byte in its place the first byte changes.
  have hsame := h.header hne
    (fun _ => containerSetup (fun _ => 0) (root + 896 + position.toNat) c
      (root + 896 + position.toNat) + 1) (root + 896 + position.toNat)
    (by rw [baseDataArea_eq]; omega) (by rw [baseDataArea_eq]; unfold ringHdrSize; omega)
  rw [smsRound, memcpy, blit_outside _ _ _ _ _ (by omega), smsPlaced,
    containerSetup_first _ (fun _ => 0)] at hsame
  exact absurd hsame (by simp)

/-- A condition on every round of the loop from bucket `i` on: its number, its
    configuration, and the offset and position it finds. -/
def SmsRounds (root : Nat) (Q : Nat → BaseConfig → UInt64 → UInt64 → Prop) :
    List BaseConfig → Nat → UInt64 → UInt64 → Mem → Prop
  | [], _, _, _, _ => True
  | c :: rest, i, offset, position, m =>
    let size := bucketSize (smsPlaced m root i c offset position.toNat)
      (statBucket (baseStatisticalArea root) i)
    Q i c offset position ∧
      SmsRounds root Q rest (i + 1) (offset + size) (position + size)
        (smsRound m root i c offset position.toNat)

/-- A round is within the tables and keeps out of the others' entries. -/
def InTables (root i : Nat) (c : BaseConfig) (offset position : UInt64) : Prop :=
  i < smsMaxBucketNum ∧ RoundApart root i c offset position

theorem BaseConfig.taken_lt (c : BaseConfig) : c.taken.toNat < 2 ^ 33 := by
  have hlt := (arrayAllocSize c.cap c.elemSize.toInt32).toNat_lt
  rw [BaseConfig.taken, alignBlockSize, UInt64.toNat_add, UInt64.toNat_mod,
    UInt32.toNat_toUInt64, show (8 : UInt64).toNat = 8 from rfl]
  omega

/-- The rounds after the first keep out of its header if it has room. -/
theorem smsRounds_inTables (root : Nat) : ∀ (cfgs : List BaseConfig) (i : Nat)
    (offset position : UInt64) (m : Mem), i + cfgs.length ≤ smsMaxBucketNum →
    (i ≠ 0 → 16 ≤ position.toNat) →
    (i = 0 → ∀ c rest, cfgs = c :: rest → rest ≠ [] → 16 ≤ (position + c.taken).toNat) →
    position.toNat + cfgs.length * 2 ^ 33 < 2 ^ 64 →
    SmsRounds root (InTables root) cfgs i offset position m := by
  intro cfgs
  induction cfgs with
  | nil =>
      intro i offset position m _ _ _ _
      trivial
  | cons c rest ih =>
      intro i offset position m hcount hroom hfirst hlt
      rw [List.length_cons] at hcount hlt
      have hi : i < smsMaxBucketNum := by omega
      have htaken := c.taken_lt
      have hnext : (position + c.taken).toNat = position.toNat + c.taken.toNat := by
        rw [UInt64.toNat_add]
        omega
      refine ⟨⟨hi, roundApart_of_room root i c offset position hi hroom⟩, ?_⟩
      rw [smsPlaced_size m root i c offset _ hi]
      -- The last round has no successor to leave room for.
      cases hrest : rest with
      | nil => trivial
      | cons d rest' =>
          rw [← hrest]
          refine ih (i + 1) _ _ _ (by omega) (fun _ => ?_) (fun hc => absurd hc (by omega))
            (by omega)
          by_cases hzero : i = 0
          · exact hfirst hzero c rest rfl (by rw [hrest]; exact List.cons_ne_nil d rest')
          · have hpos := hroom hzero
            omega

/-- The recorded count is that of the configurations and at most eight, and so
    is every index that the loop and the reports use; and the rounds of the
    loop keep out of each other's entries and of the first header. -/
structure SmsInBounds (root : Nat) (cfg : List BaseConfig) (cfgCount : Int32) (start m : Mem) :
    Prop where
  bucketNum : (statBucketNum m (baseStatisticalArea root)).toNat = cfg.length
  bounded : cfg.length ≤ smsMaxBucketNum
  rounds : SmsRounds root (InTables root) (cfgsCounted cfg cfgCount) 0
    (baseDataOffset start root) 0 start
  reported : ∀ i, i < (statBucketNum m (baseStatisticalArea root)).toNat → i < smsMaxBucketNum

/-- The count is between zero and eight, and the first of several buckets takes
    as much as a header. -/
structure SmsCountOk (cfg : List BaseConfig) (cfgCount : Int32) : Prop where
  nonneg : 0 ≤ cfgCount.toInt
  bounded : cfgCount.toInt ≤ smsMaxBucketNum
  room : ∀ c rest, cfg = c :: rest → rest ≠ [] → 16 ≤ c.taken.toNat

/-- A signed count and the number that is recorded for it. -/
theorem count_toUInt32 (x : Int32) :
    x.toInt = if 2 * x.toUInt32.toNat < 2 ^ 32 then (x.toUInt32.toNat : Int)
      else (x.toUInt32.toNat : Int) - 2 ^ 32 :=
  BitVec.toInt_eq_toNat_cond x.toBitVec

theorem smsInBounds_iff (m : Mem) (root : Nat) (cfg : List BaseConfig) (cfgCount pid : Int32)
    (date : UInt64) (hlen : cfg.length = cfgCount.toInt.toNat) :
    SmsInBounds root cfg cfgCount (smsLoopStart m root cfg cfgCount pid date)
        (smsInit m root (some cfg) cfgCount pid date).2
      ↔ SmsCountOk cfg cfgCount := by
  -- The stored count is the argument cut to 32 bits, and below the limit the same number.
  have hnum := smsInit_bucketNum m root cfg cfgCount pid date
  have hcount := count_toUInt32 cfgCount
  have hlt := cfgCount.toUInt32.toNat_lt
  -- The loop runs over the whole list, as its length is the count.
  have hall : cfgsCounted cfg cfgCount = cfg := by
    rw [cfgsCounted, ← hlen, List.take_length]
  constructor
  -- From the layout back to the count, and from the count to the layout.
  · intro h
    have hbound := h.bounded
    have hsame := h.bucketNum
    rw [hnum] at hsame
    unfold smsMaxBucketNum at hbound
    refine ⟨?_, ?_, fun c rest hcfg hrest => ?_⟩
    · split at hcount <;> omega
    · unfold smsMaxBucketNum
      split at hcount <;> omega
    -- Without room the second round would start inside the header of the first bucket.
    · -- The second round starts where the first bucket ends.
      have hrounds := h.rounds
      rw [hall, hcfg] at hrounds
      cases rest with
      | nil => exact absurd rfl hrest
      | cons d rest =>
          have hsecond := hrounds.2.1
          simp only [smsPlaced_size _ root 0 c _ _ (by decide : 0 < smsMaxBucketNum),
            UInt64.zero_add] at hsecond
          exact room_of_roundApart root 1 d _ _ hsecond.1 (by decide) hsecond.2
  · intro h
    have hlo := h.nonneg
    have hhi := h.bounded
    unfold smsMaxBucketNum at hhi
    -- A negative count would be cut to a number above the limit, so it is excluded.
    have hsame : cfgCount.toUInt32.toNat = cfg.length := by
      split at hcount <;> omega
    have hle : cfg.length ≤ smsMaxBucketNum := by
      unfold smsMaxBucketNum
      omega
    refine ⟨by rw [hnum, hsame], hle, ?_, fun i hi => ?_⟩
    · rw [hall]
      refine smsRounds_inTables root cfg 0 _ 0 _ (by omega) (fun hc => absurd rfl hc)
        (fun _ c rest hcfg hrest => ?_) ?_
      · rw [UInt64.zero_add]
        exact h.room c rest hcfg hrest
      · rw [UInt64.toNat_zero]
        omega
    · rw [hnum, hsame] at hi
      exact Nat.lt_of_lt_of_le hi hle

/-- `sms_init` returns an error or stays inside its tables exactly if it is
    given no configurations or a count that is in range, the first of several
    buckets taking as much as a header. -/
theorem sms_count_iff (m : Mem) (root : Nat) (cfg : Option (List BaseConfig))
    (cfgCount pid : Int32) (date : UInt64)
    (hlen : ∀ l, cfg = some l → l.length = cfgCount.toInt.toNat) :
    ((smsInit m root cfg cfgCount pid date).1 ≠ cmnOk ∨
        ∃ l, cfg = some l ∧ SmsInBounds root l cfgCount (smsLoopStart m root l cfgCount pid date)
          (smsInit m root cfg cfgCount pid date).2)
      ↔ ∀ l, cfg = some l → SmsCountOk l cfgCount := by
  -- Without configurations sms_init answers CMN_PARAMETER and lays out nothing.
  cases cfg with
  | none =>
      refine iff_of_true (Or.inl ?_) (fun l hl => nomatch hl)
      change cmnParameter ≠ cmnOk
      decide
  | some l =>
      have hiff := smsInBounds_iff m root l cfgCount pid date (hlen l rfl)
      constructor
      -- With configurations it never answers an error, so the layout is what is asked for.
      · rintro (herror | ⟨l', hl', hbounds⟩) l'' hl''
        · exact absurd (by rw [smsInit_some]) herror
        · rw [← Option.some.inj hl''] at *
          rw [← Option.some.inj hl'] at hbounds
          exact hiff.mp hbounds
      · intro hok
        exact Or.inr ⟨l, rfl, hiff.mpr (hok l rfl)⟩

/-- Configurations of rings of one element of four bytes. -/
def rings (n : Nat) : List BaseConfig := List.replicate n ⟨false, fun _ => 0, 2, 1, 4⟩

theorem sms_count_three :
    (smsInit (fun _ => 9) 64 (some (rings 3)) 3 1 2).1 ≠ cmnOk ∨
      ∃ l, some (rings 3) = some l ∧
        SmsInBounds 64 l 3 (smsLoopStart (fun _ => 9) 64 l 3 1 2)
          (smsInit (fun _ => 9) 64 (some (rings 3)) 3 1 2).2 := by
  refine (sms_count_iff (fun _ => 9) 64 (some (rings 3)) 3 1 2 (fun l hl => ?_)).mpr
    (fun l hl => ?_)
  · rw [← Option.some.inj hl]
    decide
  · rw [← Option.some.inj hl]
    refine ⟨by decide, by decide, fun c rest hcfg _ => ?_⟩
    rw [← (List.cons.inj hcfg).1]
    decide

/-- With nine buckets nine are recorded, and with a count of minus one
    `2 ^ 32 - 1` are. -/
theorem sms_count_nine :
    (¬ ((smsInit (fun _ => 0) 0 (some (rings 9)) 9 1 2).1 ≠ cmnOk ∨
      ∃ l, some (rings 9) = some l ∧
        SmsInBounds 0 l 9 (smsLoopStart (fun _ => 0) 0 l 9 1 2)
          (smsInit (fun _ => 0) 0 (some (rings 9)) 9 1 2).2)) ∧
    ¬ ((smsInit (fun _ => 0) 0 (some []) (-1) 1 2).1 ≠ cmnOk ∨
      ∃ l, some [] = some l ∧
        SmsInBounds 0 l (-1) (smsLoopStart (fun _ => 0) 0 l (-1) 1 2)
          (smsInit (fun _ => 0) 0 (some []) (-1) 1 2).2) := by
  refine ⟨?_, ?_⟩
  · rintro (herror | ⟨l, hl, hbounds⟩)
    · exact herror (by rw [smsInit_some])
    · have hbound := hbounds.bounded
      rw [← Option.some.inj hl] at hbound
      exact absurd hbound (by decide)
  · rintro (herror | ⟨l, hl, hbounds⟩)
    · exact herror (by rw [smsInit_some])
    · have hnum := hbounds.bucketNum
      rw [← Option.some.inj hl, smsInit_bucketNum] at hnum
      exact absurd hnum (by decide)

end Aircmn
