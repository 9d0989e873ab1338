import Aircmn.Theory.Sms.Sizes

/-!
# Layout of a Segment

What `sms_init` leaves in memory. The loop over the buckets writes in three
places at once, the table of buckets, the table of configurations, and the
data area, and fills each of them from the front. `Settled` is the set of
addresses that round `i` and the later ones stay away from: the three parts
filled so far, and everything past the end of the segment. What a round
writes lies in the part it settles, so it is still there at the end.

## Main definitions

* `containerSetup`: `array_setup` or `ring_setup`.
* `ContainerFresh`: The header of a container just set up.
* `BaseConfig.headerBytes`: The part of a header that is stored.
* `BucketAt`: An entry of the table of buckets, with its container.
* `BaseConfig.taken`: What a bucket takes, as the loop computes it.
* `Settled`: Addresses that are finished.
* `SmsTable`, `SmsLayout`: The tables and the layout of a whole segment.

## Theorems

* `smsRound_outside`, `smsRound_settled`, `smsRound_bucket`: What one round
  does.
* `smsInitLoop_buckets`: What the loop does.
* `smsInit_table`: The tables that `sms_init` leaves.
* `sms_init_layout`: The layout it leaves.
-/

namespace Aircmn

open Bytes

/-- The container a configuration asks for, set up at `p`. -/
def containerSetup (m : Mem) (p : Nat) (c : BaseConfig) : Mem :=
  if c.type = smsRecordTypeArray then arraySetup m p c.cap c.elemSize.toInt32
  else ringSetup m p c.cap c.elemSize.toInt32

/-- The header at `p` is that of an empty container of a configuration. -/
def ContainerFresh (m : Mem) (p : Nat) (c : BaseConfig) : Prop :=
  if c.type = smsRecordTypeArray then
    arrayNelem m p = 0 ∧ arrayNalloc m p = c.cap ∧ arraySize m p = c.elemSize.toInt32
  else
    ringElemSize m p = c.elemSize.toInt32 ∧ ringCap m p = c.cap ∧ ringRpos m p = 0 ∧
      ringWpos m p = 0

/-- The bytes of a header that `array_setup` or `ring_setup` stores. -/
def BaseConfig.headerBytes (c : BaseConfig) : Nat := if c.type = smsRecordTypeArray then 12 else 16

/-- Entry `i` of the table of buckets describes a bucket of configuration `c`
    that starts at offset `start`, where its container is. -/
structure BucketAt (m : Mem) (root i : Nat) (c : BaseConfig) (start : Nat) : Prop where
  index : bucketIndex m (statBucket (baseStatisticalArea root) i) = UInt32.ofNat (i + 1)
  type : bucketType m (statBucket (baseStatisticalArea root) i) = c.type
  cap : bucketCap m (statBucket (baseStatisticalArea root) i) = c.cap
  status : bucketStatus m (statBucket (baseStatisticalArea root) i) = 1
  offset : (bucketOffset m (statBucket (baseStatisticalArea root) i)).toNat = start
  size : (bucketSize m (statBucket (baseStatisticalArea root) i)).toNat = c.span
  fresh : ContainerFresh m (root + start) c

/-- Addresses that no round from `i` on writes, `P` bytes of the data area
    being filled and `E` to be filled. -/
def Settled (root i P E x : Nat) : Prop :=
  x < root + 128 + 80 * i ∨ (root + 768 ≤ x ∧ x < root + 768 + 16 * i) ∨
    (root + 896 ≤ x ∧ x < root + 896 + P) ∨ root + 896 + E ≤ x

theorem statBucket_eq (root i : Nat) :
    statBucket (baseStatisticalArea root) i = root + 128 + 80 * i := by
  unfold statBucket baseStatisticalArea sizeofBase sizeofBucket
  omega

theorem statCfg_eq (root i : Nat) :
    statCfg (baseStatisticalArea root) i = root + 768 + 16 * i := by
  unfold statCfg baseStatisticalArea sizeofBase sizeofBaseConfig
  omega

theorem baseDataArea_eq (root : Nat) : baseDataArea root = root + 896 := by
  unfold baseDataArea sizeofBase sizeofStatistics
  omega

theorem headerBytes_le (c : BaseConfig) : c.headerBytes ≤ 16 := by
  unfold BaseConfig.headerBytes
  split
  all_goals omega

/-- A container is set up by storing the first part of its header. -/
theorem containerSetup_outside (m : Mem) (p : Nat) (c : BaseConfig) (x : Nat)
    (hx : x < p ∨ p + c.headerBytes ≤ x) : containerSetup m p c x = m x := by
  unfold BaseConfig.headerBytes at hx
  unfold containerSetup
  by_cases htype : c.type = smsRecordTypeArray
  · rw [if_pos htype] at hx ⊢
    simp (disch := omega) only [arraySetup, store32, blit_outside]
  · rw [if_neg htype] at hx ⊢
    simp (disch := omega) only [ringSetup, store32, blit_outside]

theorem containerSetup_fresh (m : Mem) (p : Nat) (c : BaseConfig) :
    ContainerFresh (containerSetup m p c) p c := by
  unfold ContainerFresh containerSetup
  by_cases htype : c.type = smsRecordTypeArray
  · rw [if_pos htype, if_pos htype]
    refine ⟨?_, ?_, ?_⟩
    all_goals simp (disch := omega) only [arraySetup, arrayNelem, arrayNalloc, arraySize,
      load32_store32_of_disjoint, load32_store32_self, Int32.toInt32_toUInt32]
  · rw [if_neg htype, if_neg htype]
    refine ⟨?_, ?_, ?_, ?_⟩
    all_goals simp (disch := omega) only [ringSetup, ringElemSize, ringCap, ringRpos, ringWpos,
      load32_store32_of_disjoint, load32_store32_self, Int32.toInt32_toUInt32]

/-- The header is all that a fresh container depends on. -/
theorem containerFresh_congr (m m' : Mem) (p : Nat) (c : BaseConfig) (h : ContainerFresh m p c)
    (hsame : ∀ x, p ≤ x → x < p + 16 → m' x = m x) : ContainerFresh m' p c := by
  -- Four words, of which each container uses those at the same offsets.
  have hword : ∀ off, off + 4 ≤ 16 → load32 m' (p + off) = load32 m (p + off) :=
    fun off hoff => load32_congr m m' _ (fun i hi => hsame _ (by omega) (by omega))
  unfold ContainerFresh at h ⊢
  by_cases htype : c.type = smsRecordTypeArray
  · rw [if_pos htype] at h ⊢
    unfold arrayNelem arrayNalloc arraySize at h ⊢
    rwa [hword 4 (by omega), hword 8 (by omega), show load32 m' p = load32 m p from
      hword 0 (by omega)]
  · rw [if_neg htype] at h ⊢
    unfold ringElemSize ringCap ringRpos ringWpos at h ⊢
    rwa [hword 4 (by omega), hword 8 (by omega), hword 12 (by omega),
      show load32 m' p = load32 m p from hword 0 (by omega)]

/-- An entry and its container survive every write outside of them. -/
theorem bucketAt_congr (m m' : Mem) (root i : Nat) (c : BaseConfig) (start : Nat)
    (h : BucketAt m root i c start)
    (hentry : ∀ x, root + 128 + 80 * i ≤ x → x < root + 128 + 80 * i + 32 → m' x = m x)
    (hblock : ∀ x, root + start ≤ x → x < root + start + 16 → m' x = m x) :
    BucketAt m' root i c start := by
  -- The entry of bucket i and its header are all that a bucket is said by.
  have hword : ∀ off, off + 4 ≤ 32 →
      load32 m' (root + 128 + 80 * i + off) = load32 m (root + 128 + 80 * i + off) :=
    fun off hoff => load32_congr m m' _ (fun k hk => hentry _ (by omega) (by omega))
  have hdword : ∀ off, off + 8 ≤ 32 →
      load64 m' (root + 128 + 80 * i + off) = load64 m (root + 128 + 80 * i + off) :=
    fun off hoff => load64_congr m m' _ (fun k hk => hentry _ (by omega) (by omega))
  -- The other fields are read from the same words.
  refine ⟨(hword 0 (by omega)).trans h.index, ?_, (hword 8 (by omega)).trans h.cap,
    (hword 12 (by omega)).trans h.status, ?_, ?_, containerFresh_congr m m' _ c h.fresh hblock⟩
  · exact (congrArg UInt32.toInt32 (hword 4 (by omega))).trans h.type
  · exact (congrArg UInt64.toNat (hdword 16 (by omega))).trans h.offset
  · exact (congrArg UInt64.toNat (hdword 24 (by omega))).trans h.size

/-- Memory when a round has written the entry of its bucket. -/
def smsEntry (m : Mem) (b i : Nat) (c : BaseConfig) (offset : UInt64) : Mem :=
  store64 (store64 (smsBucketFields m b i c) (b + 24)
    (alignBlockSize (arrayAllocSize c.cap c.elemSize.toInt32).toUInt64)) (b + 16) offset

theorem smsEntry_outside (m : Mem) (b i : Nat) (c : BaseConfig) (offset : UInt64) (x : Nat)
    (hx : x < b ∨ b + 32 ≤ x) : smsEntry m b i c offset x = m x := by
  simp (disch := omega) only [smsEntry, smsBucketFields, store32, store64, blit_outside]

theorem smsEntry_index (m : Mem) (b i : Nat) (c : BaseConfig) (offset : UInt64) :
    bucketIndex (smsEntry m b i c offset) b = UInt32.ofNat (i + 1) := by
  simp (disch := omega) only [bucketIndex, smsEntry, store64, smsBucketFields,
    load32_blit_of_disjoint, load32_store32_of_disjoint, load32_store32_self]

theorem smsEntry_type (m : Mem) (b i : Nat) (c : BaseConfig) (offset : UInt64) :
    bucketType (smsEntry m b i c offset) b = c.type := by
  simp (disch := omega) only [bucketType, smsEntry, store64, smsBucketFields,
    load32_blit_of_disjoint, load32_store32_of_disjoint, load32_store32_self,
    Int32.toInt32_toUInt32]

theorem smsEntry_cap (m : Mem) (b i : Nat) (c : BaseConfig) (offset : UInt64) :
    bucketCap (smsEntry m b i c offset) b = c.cap := by
  simp (disch := omega) only [bucketCap, smsEntry, store64, smsBucketFields,
    load32_blit_of_disjoint, load32_store32_of_disjoint, load32_store32_self]

theorem smsEntry_status (m : Mem) (b i : Nat) (c : BaseConfig) (offset : UInt64) :
    bucketStatus (smsEntry m b i c offset) b = 1 := by
  simp (disch := omega) only [bucketStatus, smsEntry, store64, smsBucketFields,
    load32_blit_of_disjoint, load32_store32_self]

theorem smsEntry_offset (m : Mem) (b i : Nat) (c : BaseConfig) (offset : UInt64) :
    bucketOffset (smsEntry m b i c offset) b = offset :=
  load64_store64_self _ _ _

theorem smsEntry_size (m : Mem) (b i : Nat) (c : BaseConfig) (offset : UInt64) :
    bucketSize (smsEntry m b i c offset) b
      = alignBlockSize (arrayAllocSize c.cap c.elemSize.toInt32).toUInt64 := by
  rw [bucketSize, smsEntry, store64, load64_blit_of_disjoint _ _ _ _ _ (by omega)]
  exact load64_store64_self _ _ _

theorem smsBucketBlock_eq (m : Mem) (b block i : Nat) (c : BaseConfig) (offset : UInt64) :
    smsBucketBlock (smsBucketFields m b i c) b block c offset
      = containerSetup (smsEntry m b i c offset) block c := by
  unfold smsBucketBlock containerSetup
  by_cases htype : c.type = smsRecordTypeArray
  · rw [if_pos (beq_iff_eq.mpr htype), if_pos htype]
    rfl
  · rw [if_neg (fun hc => htype (beq_iff_eq.mp hc)), if_neg htype]
    rfl

/-- Memory when a round has set up its container, `P` bytes of the data area
    being filled before. -/
def smsPlaced (m : Mem) (root i : Nat) (c : BaseConfig) (offset : UInt64) (P : Nat) : Mem :=
  containerSetup (smsEntry m (root + 128 + 80 * i) i c offset) (root + 896 + P) c

/-- Memory after a round. -/
def smsRound (m : Mem) (root i : Nat) (c : BaseConfig) (offset : UInt64) (P : Nat) : Mem :=
  memcpy (smsPlaced m root i c offset P) (root + 768 + 16 * i) c.image 0 16

/-- The rounded block size of a configuration, as the loop computes it. -/
def BaseConfig.taken (c : BaseConfig) : UInt64 :=
  alignBlockSize (arrayAllocSize c.cap c.elemSize.toInt32).toUInt64

/-- A container set up in the data area leaves the entries of the table, which
    end before it. -/
theorem smsPlaced_entry (m : Mem) (root i : Nat) (c : BaseConfig) (offset : UInt64) (P : Nat)
    (hi : i < smsMaxBucketNum) (off k : Nat) (hoff : off + k ≤ 32) (j : Nat) (hj : j < k) :
    smsPlaced m root i c offset P (root + 128 + 80 * i + off + j)
      = smsEntry m (root + 128 + 80 * i) i c offset (root + 128 + 80 * i + off + j) := by
  unfold smsMaxBucketNum at hi
  exact containerSetup_outside _ _ c _ (by omega)

/-- The size recorded for a bucket, which the round reads back. -/
theorem smsPlaced_size (m : Mem) (root i : Nat) (c : BaseConfig) (offset : UInt64) (P : Nat)
    (hi : i < smsMaxBucketNum) :
    bucketSize (smsPlaced m root i c offset P) (statBucket (baseStatisticalArea root) i)
      = c.taken := by
  rw [statBucket_eq, BaseConfig.taken, ← smsEntry_size m (root + 128 + 80 * i) i c offset]
  exact load64_congr _ _ _ (smsPlaced_entry m root i c offset P hi 24 8 (by omega))

theorem smsPlaced_bucket (m : Mem) (root i : Nat) (c : BaseConfig) (offset : UInt64) (P : Nat)
    (hi : i < smsMaxBucketNum) (hfits : c.blockBytes < 2 ^ 32) (hoffset : offset.toNat = 896 + P) :
    BucketAt (smsPlaced m root i c offset P) root i c (896 + P) := by
  have hword : ∀ off, off + 4 ≤ 32 → load32 (smsPlaced m root i c offset P)
      (root + 128 + 80 * i + off)
        -- The entry is read back field by field, as the bucket placed after it stores elsewhere.
        = load32 (smsEntry m (root + 128 + 80 * i) i c offset) (root + 128 + 80 * i + off) :=
    fun off hoff => load32_congr _ _ _ (smsPlaced_entry m root i c offset P hi off 4 hoff)
  refine ⟨?_, ?_, ?_, ?_, ?_, ?_, ?_⟩
  · rw [statBucket_eq]
    exact (hword 0 (by omega)).trans (smsEntry_index m _ i c offset)
  · rw [statBucket_eq]
    exact (congrArg UInt32.toInt32 (hword 4 (by omega))).trans (smsEntry_type m _ i c offset)
  · rw [statBucket_eq]
    exact (hword 8 (by omega)).trans (smsEntry_cap m _ i c offset)
  · rw [statBucket_eq]
    exact (hword 12 (by omega)).trans (smsEntry_status m _ i c offset)
  · rw [statBucket_eq, ← hoffset]
    refine congrArg UInt64.toNat
      (Eq.trans ?_ (smsEntry_offset m (root + 128 + 80 * i) i c offset))
    exact load64_congr _ _ _ (smsPlaced_entry m root i c offset P hi 16 8 (by omega))
  -- Its size is the rounded block, and its container is fresh from the setup.
  · rw [smsPlaced_size m root i c offset P hi]
    exact alignAlloc_toNat c hfits
  · rw [← Nat.add_assoc]
    exact containerSetup_fresh _ _ c

theorem smsRound_bucket (m : Mem) (root i : Nat) (c : BaseConfig) (offset : UInt64) (P : Nat)
    (hi : i < smsMaxBucketNum) (hfits : c.blockBytes < 2 ^ 32) (hoffset : offset.toNat = 896 + P) :
    BucketAt (smsRound m root i c offset P) root i c (896 + P) := by
  have hbefore := smsPlaced_bucket m root i c offset P hi hfits hoffset
  unfold smsMaxBucketNum at hi
  -- The copy of the configuration is in neither place.
  have hcopy : ∀ x, x < root + 768 + 16 * i ∨ root + 768 + 16 * i + 16 ≤ x →
      smsRound m root i c offset P x = smsPlaced m root i c offset P x := by
    intro x hx
    rw [smsRound, memcpy, blit_outside _ _ _ _ _ hx]
  exact bucketAt_congr _ _ root i c _ hbefore (fun x _ _ => hcopy x (by omega))
    (fun x _ _ => hcopy x (by omega))

/-- What a round changes: its entry, its container's header, its
    configuration. -/
theorem smsRound_outside (m : Mem) (root i : Nat) (c : BaseConfig) (offset : UInt64) (P x : Nat)
    (hentry : x < root + 128 + 80 * i ∨ root + 128 + 80 * i + 32 ≤ x)
    (hheader : x < root + 896 + P ∨ root + 896 + P + c.headerBytes ≤ x)
    (hcfg : x < root + 768 + 16 * i ∨ root + 768 + 16 * i + 16 ≤ x) :
    smsRound m root i c offset P x = m x := by
  -- From the last write to the first: configuration, container, entry.
  rw [smsRound, memcpy, blit_outside _ _ _ _ _ hcfg, smsPlaced,
    containerSetup_outside _ _ c x hheader, smsEntry_outside _ _ _ _ _ _ hentry]

theorem smsRound_settled (m : Mem) (root i : Nat) (c : BaseConfig) (offset : UInt64)
    (P E x : Nat) (hi : i < smsMaxBucketNum) (hE : P + c.span ≤ E) (hx : Settled root i P E x) :
    smsRound m root i c offset P x = m x := by
  have hspan := c.blockBytes_le_span
  have hbytes := headerBytes_le c
  unfold BaseConfig.blockBytes at hspan
  unfold smsMaxBucketNum at hi
  unfold Settled at hx
  exact smsRound_outside m root i c offset P x (by omega) (by omega) (by omega)

/-- What a round settles stays settled. -/
theorem settled_next (root i P E x : Nat) (c : BaseConfig) (hx : Settled root i P E x) :
    Settled root (i + 1) (P + c.span) E x := by
  unfold Settled at *
  omega

/-- A round of the loop, and the rest of it, which goes on from the size that
    the round has recorded. -/
theorem smsInitLoop_cons (root i : Nat) (c : BaseConfig) (rest : List BaseConfig)
    (offset position : UInt64) (m : Mem) :
    ∃ size : UInt64, (i < smsMaxBucketNum → size = c.taken) ∧
      smsInitLoop (baseDataArea root) (baseStatisticalArea root) (c :: rest) i offset position m
        = smsInitLoop (baseDataArea root) (baseStatisticalArea root) rest (i + 1) (offset + size)
          (position + size) (smsRound m root i c offset position.toNat) := by
  refine ⟨_, smsPlaced_size m root i c offset position.toNat, ?_⟩
  rw [smsInitLoop]
  simp only [smsBucketBlock_eq, statBucket_eq, statCfg_eq, baseDataArea_eq, sizeofBaseConfig]
  rfl

/-- The loop writes nothing that is settled, and leaves an entry and a
    container for every bucket, each starting where the one before ends. -/
theorem smsInitLoop_buckets (root E : Nat) : ∀ (cfgs : List BaseConfig) (i : Nat)
    (offset position : UInt64) (m : Mem), i + cfgs.length ≤ smsMaxBucketNum →
    (∀ c ∈ cfgs, c.blockBytes < 2 ^ 32) → offset.toNat = 896 + position.toNat →
    position.toNat + spans cfgs ≤ E → E < 2 ^ 36 →
    (∀ x, Settled root i position.toNat E x →
      smsInitLoop (baseDataArea root) (baseStatisticalArea root) cfgs i offset position m x
        = m x) ∧
    ∀ k (hk : k < cfgs.length),
      BucketAt (smsInitLoop (baseDataArea root) (baseStatisticalArea root) cfgs i offset position m)
        root (i + k) cfgs[k] (896 + position.toNat + spans (cfgs.take k)) := by
  intro cfgs
  induction cfgs with
  | nil =>
      intro i offset position m _ _ _ _ _
      exact ⟨fun _ _ => rfl, fun k hk => absurd hk (Nat.not_lt_zero k)⟩
  | cons c rest ih =>
      intro i offset position m hcount hfits hoffset hE hlt
      rw [List.length_cons] at hcount
      rw [spans_cons] at hE
      have hi : i < smsMaxBucketNum := by omega
      have hc := hfits c List.mem_cons_self
      rcases smsInitLoop_cons root i c rest offset position m with ⟨size, htaken, hloop⟩
      have hsize : size.toNat = c.span := by
        rw [htaken hi]
        exact alignAlloc_toNat c hc
      -- Offset and position advance together, and neither wraps.
      have hpos : (position + size).toNat = position.toNat + c.span := by
        rw [UInt64.toNat_add, hsize]
        omega
      have hoff : (offset + size).toNat = 896 + (position + size).toNat := by
        rw [hpos, UInt64.toNat_add, hsize, hoffset]
        omega
      rcases ih (i + 1) (offset + size) (position + size)
        (smsRound m root i c offset position.toNat) (by omega)
        (fun d hd => hfits d (List.mem_cons_of_mem c hd)) hoff (by omega) hlt with
        ⟨hsettled, hbuckets⟩
      rw [hpos] at hsettled hbuckets
      rw [hloop]
      refine ⟨fun x hx => ?_, fun k hk => ?_⟩
      · rw [hsettled x (settled_next root i _ E x c hx),
          smsRound_settled m root i c offset _ E x hi (by omega) hx]
      · cases k with
        | zero =>
            -- The first entry and its container are settled by their round.
            have hfirst := smsRound_bucket m root i c offset position.toNat hi hc hoffset
            have hspan := c.blockBytes_le_span
            unfold BaseConfig.blockBytes at hspan
            rw [show spans ((c :: rest).take 0) = 0 from rfl, Nat.add_zero, Nat.add_zero]
            refine bucketAt_congr _ _ root i c _ hfirst (fun x hlo hhi => ?_)
              (fun x hlo hhi => ?_)
            all_goals refine hsettled x ?_
            all_goals unfold Settled
            · exact Or.inl (by omega)
            · exact Or.inr (Or.inr (Or.inl ⟨by omega, by omega⟩))
        | succ k =>
            -- The others are those of the rest of the loop.
            have hnext := hbuckets k (Nat.lt_of_succ_lt_succ hk)
            rw [List.take_succ_cons, spans_cons, List.getElem_cons_succ]
            rwa [show i + 1 + k = i + (k + 1) by omega, show 896 + (position.toNat + c.span)
              + spans (rest.take k) = 896 + position.toNat + (c.span + spans (rest.take k))
              by omega] at hnext

/-- Memory when the loop starts. -/
def smsBefore (m : Mem) (g : SmsGeom) (root : Nat) (pid : Int32) (date : UInt64) : Mem :=
  store32 (memset (smsInitBase m root (some g.cfgs) g.cfgCount pid date) (root + 120) 0 776)
    (root + 124) g.cfgCount.toUInt32

theorem smsInit_eq (m : Mem) (g : SmsGeom) (root : Nat) (pid : Int32) (date : UInt64) :
    smsInit m root (some g.cfgs) g.cfgCount pid date
      = (cmnOk, smsInitLoop (baseDataArea root) (baseStatisticalArea root) g.cfgs 0
          (baseDataOffset (smsBefore m g root pid date) root) 0
          (smsBefore m g root pid date)) := by
  have hstat : baseStatisticalArea root = root + 120 := by
    unfold baseStatisticalArea sizeofBase
    omega
  simp only [smsInit, smsInitStatistics, g.counted, hstat, smsBefore, sizeofStatistics,
    Nat.add_assoc, Nat.reduceAdd]

theorem smsBefore_outside (m : Mem) (g : SmsGeom) (root : Nat) (pid : Int32) (date : UInt64) :
    SameOutside root (root + 896) m (smsBefore m g root pid date) := by
  intro x hx
  simp (disch := omega) only [smsBefore, smsInitBase, sizeofBase, memset, store32, store64,
    blit_outside]

/-- The header of the segment when the loop starts. -/
theorem smsBefore_base (m : Mem) (g : SmsGeom) (root : Nat) (pid : Int32) (date : UInt64) :
    let m' := smsBefore m g root pid date
    baseTotalSize m' root = 0 ∧ baseStatisticOffset m' root = 120 ∧ baseDataOffset m' root = 896 ∧
      baseDataSize m' root = (smsCalcDataSize (some g.cfgs) g.cfgCount).toUInt64 ∧
      statBucketNum m' (baseStatisticalArea root) = g.cfgCount.toUInt32 := by
  -- Clearing what is behind the base leaves the base as it was.
  have hread : ∀ off, off + 8 ≤ 120 → load64 (smsBefore m g root pid date) (root + off)
      = load64 (smsInitBase m root (some g.cfgs) g.cfgCount pid date) (root + off) := by
    intro off hoff
    simp (disch := omega) only [smsBefore, store32, memset, load64_blit_of_disjoint]
  refine ⟨(hread 80 (by omega)).trans ?_, (hread 88 (by omega)).trans ?_,
    (hread 104 (by omega)).trans ?_, (hread 112 (by omega)).trans ?_, ?_⟩
  · -- `total_size` is cleared and not stored to again.
    simp (disch := omega) only [smsInitBase, store32, load64_blit_of_disjoint,
      load64_store64_of_disjoint]
    refine load64_zero _ _ (fun i hi => ?_)
    rw [Nat.add_assoc, memset, blit_inside _ _ _ _ _ (by unfold sizeofBase; omega)]
  -- The fields are those that smsInitBase has stored, each at its own offset.
  · simp (disch := omega) only [smsInitBase, load64_store64_of_disjoint, load64_store64_self]
    decide
  · simp (disch := omega) only [smsInitBase, load64_store64_self]
    decide
  · simp (disch := omega) only [smsInitBase, load64_store64_of_disjoint, load64_store64_self]
  -- The number of buckets is stored last, behind the base.
  · rw [statBucketNum, show baseStatisticalArea root + 4 = root + 124 by
      unfold baseStatisticalArea sizeofBase; omega]
    exact load32_store32_self _ _ _

/-- The tables of a segment: the header, and one entry for each bucket, with
    the offset and the size its configuration asks for. -/
structure SmsTable (g : SmsGeom) (root : Nat) (m : Mem) : Prop where
  totalSize : baseTotalSize m root = 0
  statisticOffset : (baseStatisticOffset m root).toNat = 120
  dataOffset : (baseDataOffset m root).toNat = 896
  dataSize : (baseDataSize m root).toNat = spans g.cfgs
  bucketNum : (statBucketNum m (baseStatisticalArea root)).toNat = g.cfgs.length
  buckets : ∀ i (h : i < g.cfgs.length),
    BucketAt m root i g.cfgs[i] (896 + spans (g.cfgs.take i))

theorem smsInit_table (m : Mem) (g : SmsGeom) (root : Nat) (pid : Int32) (date : UInt64) :
    SmsTable g root (smsInit m root (some g.cfgs) g.cfgCount pid date).2 ∧
      SameOutside root (root + 896 + spans g.cfgs) m
        (smsInit m root (some g.cfgs) g.cfgCount pid date).2 := by
  rcases smsBefore_base m g root pid date with ⟨htotal, hstat, hdata, hsize, hnum⟩
  have hbefore := smsBefore_outside m g root pid date
  rcases smsInitLoop_buckets root (spans g.cfgs) g.cfgs 0
    (baseDataOffset (smsBefore m g root pid date) root) 0 (smsBefore m g root pid date)
    (by rw [Nat.zero_add]; exact g.count) g.fits (by rw [hdata]; rfl)
    (by rw [UInt64.toNat_zero, Nat.zero_add]) g.spans_lt with ⟨hsettled, hbuckets⟩
  rw [smsInit_eq]
  simp only
  generalize smsInitLoop (baseDataArea root) (baseStatisticalArea root) g.cfgs 0
    (baseDataOffset (smsBefore m g root pid date) root) 0 (smsBefore m g root pid date) = m'
    at hsettled hbuckets ⊢
  -- The header is settled before the first round.
  have hheader : ∀ x, x < root + 128 → m' x = smsBefore m g root pid date x :=
    fun x hx => hsettled x (Or.inl (by omega))
  have hfield : ∀ off, off + 8 ≤ 120 →
      load64 m' (root + off) = load64 (smsBefore m g root pid date) (root + off) :=
    fun off hoff => load64_congr _ _ _ (fun i hi => hheader _ (by omega))
  refine ⟨⟨?_, ?_, ?_, ?_, ?_, ?_⟩, ?_⟩
  · exact (hfield 80 (by omega)).trans htotal
  · exact congrArg UInt64.toNat ((hfield 88 (by omega)).trans hstat)
  · exact congrArg UInt64.toNat ((hfield 104 (by omega)).trans hdata)
  · rw [← smsCalcDataSize_toNat g, ← hsize]
    exact congrArg UInt64.toNat (hfield 112 (by omega))
  · rw [← g.bucketNum, ← hnum]
    refine congrArg UInt32.toNat (load32_congr _ _ _ (fun i hi => hheader _ ?_))
    unfold baseStatisticalArea sizeofBase
    omega
  · intro i hi
    have hbucket := hbuckets i hi
    rwa [UInt64.toNat_zero, Nat.zero_add] at hbucket
  · intro x hx
    rw [hsettled x (by unfold Settled; omega), hbefore x (by omega)]

/-- The recorded offset of bucket `i`. -/
def smsOffset (m : Mem) (root i : Nat) : Nat :=
  (bucketOffset m (statBucket (baseStatisticalArea root) i)).toNat

/-- The recorded size of bucket `i`. -/
def smsSize (m : Mem) (root i : Nat) : Nat :=
  (bucketSize m (statBucket (baseStatisticalArea root) i)).toNat

/-- The layout of a segment, as the recorded offsets and sizes give it. -/
structure SmsLayout (g : SmsGeom) (root : Nat) (m : Mem) : Prop where
  statisticArea : baseStatisticalArea root = root + (baseStatisticOffset m root).toNat
  dataArea : baseDataArea root = root + (baseDataOffset m root).toNat
  /-- The two structures and the data area do not overlap. -/
  areas : sizeofBase ≤ (baseStatisticOffset m root).toNat ∧
    (baseStatisticOffset m root).toNat + sizeofStatistics ≤ (baseDataOffset m root).toNat
  bucketNum : (statBucketNum m (baseStatisticalArea root)).toNat = g.cfgs.length
  first : 0 < g.cfgs.length → smsOffset m root 0 = (baseDataOffset m root).toNat
  next : ∀ i, i + 1 < g.cfgs.length →
    smsOffset m root (i + 1) = smsOffset m root i + smsSize m root i
  last : ∀ i, i + 1 = g.cfgs.length → smsOffset m root i + smsSize m root i
    = (baseDataOffset m root).toNat + (baseDataSize m root).toNat
  ordered : ∀ i j, i < j → j < g.cfgs.length →
    smsOffset m root i + smsSize m root i ≤ smsOffset m root j
  inside : ∀ i, i < g.cfgs.length → (baseDataOffset m root).toNat ≤ smsOffset m root i ∧
    smsOffset m root i + smsSize m root i
      ≤ (baseDataOffset m root).toNat + (baseDataSize m root).toNat
  /-- The segment has the size that `sms_calc_size` computes. -/
  total : ((baseDataOffset m root).toNat + (baseDataSize m root).toNat : Int)
    = (smsCalcSize g.cfgs g.cfgCount).toInt
  fresh : ∀ i (h : i < g.cfgs.length), ContainerFresh m (root + smsOffset m root i) g.cfgs[i]
  room : ∀ i (h : i < g.cfgs.length),
    16 + g.cfgs[i].elemSize.toNat * g.cfgs[i].slots ≤ smsSize m root i

theorem smsTable_layout (g : SmsGeom) (root : Nat) (m : Mem) (h : SmsTable g root m) :
    SmsLayout g root m := by
  have hoffset : ∀ i, i < g.cfgs.length → smsOffset m root i = 896 + spans (g.cfgs.take i) :=
    fun i hi => (h.buckets i hi).offset
  -- A bucket ends where the sum over one more bucket says.
  have hend : ∀ i, i < g.cfgs.length →
      smsOffset m root i + smsSize m root i = 896 + spans (g.cfgs.take (i + 1)) := by
    intro i hi
    have hsize : smsSize m root i = g.cfgs[i].span := (h.buckets i hi).size
    rw [hoffset i hi, hsize, spans_take_succ g.cfgs i hi, Nat.add_assoc]
  refine ⟨?_, ?_, ?_, h.bucketNum, ?_, ?_, ?_, ?_, ?_, ?_, ?_, ?_⟩
  · rw [h.statisticOffset]
    unfold baseStatisticalArea sizeofBase
    omega
  · rw [h.dataOffset, baseDataArea_eq]
  · rw [h.statisticOffset, h.dataOffset]
    decide
  · intro hpos
    rw [hoffset 0 hpos, h.dataOffset]
    rfl
  · intro i hi
    rw [hoffset (i + 1) hi, hend i (by omega)]
  · intro i hi
    rw [hend i (by omega), hi, List.take_length, h.dataOffset, h.dataSize]
  · intro i j hij hj
    have hmono := spans_take_mono g.cfgs (i + 1) j hij
    rw [hend i (by omega), hoffset j hj]
    omega
  · intro i hi
    have hle := spans_take_le g.cfgs (i + 1)
    rw [hend i hi, hoffset i hi, h.dataOffset, h.dataSize]
    omega
  · rw [smsCalcSize_toInt g, h.dataOffset, h.dataSize]
    rfl
  · intro i hi
    rw [hoffset i hi]
    exact (h.buckets i hi).fresh
  · intro i hi
    have hslots := g.cfgs[i].slots_le
    have hspan := g.cfgs[i].blockBytes_le_span
    rw [show smsSize m root i = g.cfgs[i].span from (h.buckets i hi).size]
    omega

/-- `sms_init` lays out a segment of exactly the size that `sms_calc_size`
    computes, and writes nothing outside of it. -/
theorem sms_init_layout (g : SmsGeom) (m : Mem) (root : Nat) (pid : Int32) (date : UInt64) :
    (smsInit m root (some g.cfgs) g.cfgCount pid date).1 = cmnOk ∧
      SmsLayout g root (smsInit m root (some g.cfgs) g.cfgCount pid date).2 ∧
      SameOutside root (root + (smsCalcSize g.cfgs g.cfgCount).toInt.toNat) m
        (smsInit m root (some g.cfgs) g.cfgCount pid date).2 := by
  rcases smsInit_table m g root pid date with ⟨htable, houtside⟩
  refine ⟨?_, smsTable_layout g root _ htable, ?_⟩
  · rw [smsInit_eq]
  · rwa [smsCalcSize_toInt, show ((896 : Int) + spans g.cfgs).toNat = 896 + spans g.cfgs by omega,
      ← Nat.add_assoc]

end Aircmn
