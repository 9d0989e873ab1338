import Aircmn.Lib.Machine
import Aircmn.Theory.Array.Block
import Aircmn.Theory.Ring.Block
import Aircmn.Theory.Sms.Layout

/-!
# Buckets of a Segment

The containers of a segment in use. An operation names a bucket and is run on
the container at the recorded offset of that bucket. Whatever it does stays in
the block of its bucket and depends on that block only, so the blocks evolve
as if they were alone: the bytes of one bucket after a run are those after the
run of its own operations.

The recorded offsets are read anew by every operation. That they still are
what `sms_init` recorded is part of the invariant.

## Main definitions

* `BucketOp`, `BucketOut`, `bucketStep`: The operations on a container.
* `BucketOp.Allowed`: The operations fit for a bucket.
* `BucketHeld`: The invariant of one bucket.
* `smsStep`, `SmsAllowed`: The operations on a segment.
* `SmsHeld`: The invariant.

## Theorems

* `bucketStep_block`: An operation stays in its block.
* `bucketStep_local`: An operation depends on its block only.
* `smsStep_frame`, `smsStep_held`: What an operation does to a segment.
* `smsRun_held`: The invariant over a run.
* `sms_buckets_isolated`: Isolation over whole runs.
* `sms_two_buckets_run`: An array and a ring, in turns.
-/

namespace Aircmn

open Bytes

/-- A call on the container of a bucket. -/
inductive BucketOp where
  | arrayPush (elem : Mem)
  | arrayPop
  | arrayAdd (elem : Mem) (idx : UInt32)
  | ringPush (elem : Mem)
  | ringPop (elem : Bool)
  | ringFlush

/-- What a call returns, and what it delivers: `array_pop` the bytes at the
    address it returns, `ring_pop` the bytes it copies out. -/
inductive BucketOut where
  | returned (status : Status)
  | element (bytes : List UInt8)
  | delivered (status : Status) (bytes : Option (List UInt8))
  | flushed
deriving DecidableEq

/-- The code, on the container at `p`. -/
def bucketStep (p : Nat) (m : Mem) : BucketOp → Mem × BucketOut
  | .arrayPush elem => ((arrayPush m p elem).2, .returned (arrayPush m p elem).1)
  | .arrayPop =>
    ((arrayPop m p).2, .element (slice (arrayPop m p).2 (arrayPop m p).1
      (sizeOfInt (arraySize (arrayPop m p).2 p))))
  | .arrayAdd elem idx => ((arrayAdd m p elem idx).2, .returned (arrayAdd m p elem idx).1)
  | .ringPush elem => ((ringPush m p elem).2, .returned (ringPush m p elem).1)
  | .ringPop elem =>
    ((ringPop m p elem).2.2, .delivered (ringPop m p elem).1 (ringPop m p elem).2.1)
  | .ringFlush => (ringFlush m p, .flushed)

/-- The operation is one on a container of the configured type, the array to
    pop from is not empty, and an index to store at is at most the capacity. -/
def BucketOp.Allowed (c : BaseConfig) (m : Mem) (p : Nat) : BucketOp → Prop
  | .arrayPush _ => c.type = smsRecordTypeArray
  | .arrayPop => c.type = smsRecordTypeArray ∧ arrayNelem m p ≠ 0
  | .arrayAdd _ idx => c.type = smsRecordTypeArray ∧ idx ≤ c.cap
  | .ringPush _ => c.type ≠ smsRecordTypeArray
  | .ringPop _ => c.type ≠ smsRecordTypeArray
  | .ringFlush => c.type ≠ smsRecordTypeArray

instance (c : BaseConfig) (m : Mem) (p : Nat) : ∀ op : BucketOp, Decidable (op.Allowed c m p)
  | .arrayPush _ => inferInstanceAs (Decidable (c.type = smsRecordTypeArray))
  | .arrayPop => inferInstanceAs (Decidable (c.type = smsRecordTypeArray ∧ arrayNelem m p ≠ 0))
  | .arrayAdd _ idx => inferInstanceAs (Decidable (c.type = smsRecordTypeArray ∧ idx ≤ c.cap))
  | .ringPush _ => inferInstanceAs (Decidable (c.type ≠ smsRecordTypeArray))
  | .ringPop _ => inferInstanceAs (Decidable (c.type ≠ smsRecordTypeArray))
  | .ringFlush => inferInstanceAs (Decidable (c.type ≠ smsRecordTypeArray))

/-- The element size is a positive `int32_t`. -/
def BaseConfig.Sized (c : BaseConfig) : Prop := 1 ≤ c.elemSize.toNat ∧ c.elemSize.toNat < 2 ^ 31

instance (c : BaseConfig) : Decidable c.Sized := inferInstanceAs (Decidable (_ ∧ _))

theorem BaseConfig.Sized.toInt (c : BaseConfig) (h : c.Sized) :
    c.elemSize.toInt32.toInt = c.elemSize.toNat :=
  BitVec.toInt_eq_toNat_of_lt (show 2 * c.elemSize.toNat < 2 ^ 32 by have := h.2; omega)

theorem BaseConfig.Sized.elemBytes (c : BaseConfig) (h : c.Sized) :
    elemBytes c.elemSize.toInt32 = c.elemSize.toNat := by
  unfold Aircmn.elemBytes
  rw [h.toInt, Int.toNat_natCast]

/-- The ring of a configuration. -/
def BaseConfig.ringGeom (c : BaseConfig) (hsize : c.Sized) (hfits : c.blockBytes < 2 ^ 32) :
    RingGeom where
  elemSize := c.elemSize.toInt32
  cap := c.cap
  pos := by rw [hsize.toInt]; have := hsize.1; omega
  fits := by rw [hsize.elemBytes]; exact hfits

/-- The array of a configuration, whose block has one slot to spare. -/
def BaseConfig.arrayGeom (c : BaseConfig) (hsize : c.Sized) (hfits : c.blockBytes < 2 ^ 32) :
    ArrayGeom where
  n := c.cap
  size := c.elemSize.toInt32
  pos := by rw [hsize.toInt]; have := hsize.1; omega
  fits := by
    have hmul : c.elemSize.toNat * c.cap.toNat ≤ c.elemSize.toNat * (c.cap.toNat + 1) :=
      Nat.mul_le_mul_left _ (Nat.le_succ _)
    unfold BaseConfig.blockBytes at hfits
    unfold arrayHdrSize
    rw [hsize.elemBytes]
    omega

theorem ringGeom_bytes (c : BaseConfig) (hsize : c.Sized) (hfits : c.blockBytes < 2 ^ 32) :
    (c.ringGeom hsize hfits).bytes = c.blockBytes := by
  unfold RingGeom.bytes RingGeom.width RingGeom.slots BaseConfig.blockBytes
  rw [show (c.ringGeom hsize hfits).elemSize = c.elemSize.toInt32 from rfl, hsize.elemBytes]
  rfl

theorem arrayGeom_bytes (c : BaseConfig) (hsize : c.Sized) (hfits : c.blockBytes < 2 ^ 32) :
    (c.arrayGeom hsize hfits).bytes ≤ c.blockBytes := by
  have hmul := Nat.mul_le_mul_left c.elemSize.toNat (Nat.le_succ c.cap.toNat)
  unfold ArrayGeom.bytes ArrayGeom.width BaseConfig.blockBytes arrayHdrSize
  rw [show (c.arrayGeom hsize hfits).size = c.elemSize.toInt32 from rfl, hsize.elemBytes,
    show (c.arrayGeom hsize hfits).n = c.cap from rfl]
  exact Nat.add_le_add_left hmul 16

section Bucket

variable (c : BaseConfig) (hsize : c.Sized) (hfits : c.blockBytes < 2 ^ 32)

/-- The header of a bucket is that of the container it was set up for. -/
def BucketHeld (m : Mem) (p : Nat) : Prop :=
  if c.type = smsRecordTypeArray then ArrayAt (c.arrayGeom hsize hfits) m p
  else RingPlaced (c.ringGeom hsize hfits) m p

theorem bucketHeld_fresh (m : Mem) (p : Nat) (h : ContainerFresh m p c) :
    BucketHeld c hsize hfits m p := by
  unfold ContainerFresh at h
  unfold BucketHeld
  by_cases htype : c.type = smsRecordTypeArray
  · rw [if_pos htype] at h ⊢
    exact ⟨h.2.2, h.2.1, by rw [h.1]; exact Nat.zero_le _⟩
  · rw [if_neg htype] at h ⊢
    refine ⟨0, 0, h.1, h.2.1, ?_, ?_⟩
    · rw [h.2.2.1, Nat.zero_mod]
      rfl
    · rw [h.2.2.2, Nat.zero_mod]
      rfl

/-- The invariant of a bucket is about its header. -/
theorem bucketHeld_congr (m m' : Mem) (p : Nat) (h : BucketHeld c hsize hfits m p)
    (hsame : SameOn p (p + 16) m m') : BucketHeld c hsize hfits m' p := by
  have hword : ∀ off, off + 4 ≤ 16 → load32 m' (p + off) = load32 m (p + off) :=
    fun off hoff => load32_sameOn _ _ m m' _ hsame (by omega) (by omega)
  unfold BucketHeld at h ⊢
  by_cases htype : c.type = smsRecordTypeArray
  · rw [if_pos htype] at h ⊢
    exact arrayAt_congr _ m m' p h hword
  · rw [if_neg htype] at h ⊢
    rcases h with ⟨R, W, h⟩
    exact ⟨R, W, ringAt_congr _ m m' p R W h hword⟩

theorem bucketStep_block (m : Mem) (p : Nat) (op : BucketOp) (h : BucketHeld c hsize hfits m p)
    (hop : op.Allowed c m p) : BucketHeld c hsize hfits (bucketStep p m op).1 p ∧
      SameOutside p (p + c.blockBytes) m (bucketStep p m op).1 := by
  have harray : ∀ m', SameOutside p (p + (c.arrayGeom hsize hfits).bytes) m m' →
      SameOutside p (p + c.blockBytes) m m' := by
    intro m' hm'
    have hle := arrayGeom_bytes c hsize hfits
    exact sameOutside_mono _ _ _ _ m m' hm' (Nat.le_refl p) (by omega)
  rw [← ringGeom_bytes c hsize hfits] at harray ⊢
  unfold BucketHeld at h ⊢
  -- Each operation comes with the type of its container.
  cases op with
  | arrayPush elem =>
      have htype : c.type = smsRecordTypeArray := hop
      rw [if_pos htype] at h ⊢
      rcases arrayPush_block _ m p elem h with ⟨hat, hout⟩
      exact ⟨hat, harray _ hout⟩
  | arrayPop =>
      rw [if_pos hop.1] at h ⊢
      rcases arrayPop_block _ m p h hop.2 with ⟨hat, hout, _⟩
      exact ⟨hat, harray _ hout⟩
  | arrayAdd elem idx =>
      rw [if_pos hop.1] at h ⊢
      rcases arrayAdd_block _ m p elem idx h hop.2 with ⟨hat, hout⟩
      exact ⟨hat, harray _ hout⟩
  | ringPush elem =>
      have htype : ¬ c.type = smsRecordTypeArray := hop
      rw [if_neg htype] at h ⊢
      simp only [bucketStep]
      exact ringPush_block _ m p elem h
  | ringPop elem =>
      have htype : ¬ c.type = smsRecordTypeArray := hop
      rw [if_neg htype] at h ⊢
      simp only [bucketStep]
      exact ringPop_block _ m p elem h
  | ringFlush =>
      have htype : ¬ c.type = smsRecordTypeArray := hop
      rw [if_neg htype] at h ⊢
      exact ringFlush_block _ m p h

/-- Memories that agree on an interval around the block still do so after the
    same operation, and it answers alike. -/
theorem bucketStep_local (m m' : Mem) (p hi : Nat) (op : BucketOp)
    (h : BucketHeld c hsize hfits m p) (hop : op.Allowed c m p) (hhi : p + c.blockBytes ≤ hi)
    (hsame : SameOn p hi m m') :
    (bucketStep p m op).2 = (bucketStep p m' op).2 ∧
      SameOn p hi (bucketStep p m op).1 (bucketStep p m' op).1 := by
  have hhdr : p + 16 ≤ hi := by
    unfold BaseConfig.blockBytes at hhi
    omega
  unfold BucketHeld at h
  cases op with
  | arrayPush elem =>
      rcases arrayPush_local _ _ m m' p hsame (Nat.le_refl p) hhdr elem with ⟨hst, hmem⟩
      exact ⟨congrArg BucketOut.returned hst.symm, hmem⟩
  | arrayPop =>
      rw [if_pos hop.1] at h
      rcases arrayPop_local _ _ m m' p hsame (Nat.le_refl p) hhdr with ⟨hptr, hmem⟩
      -- The address returned is that of a slot, which is in the block.
      rcases arrayPop_block _ m p h hop.2 with ⟨hat, _, i, hi, haddr⟩
      have hin := (c.arrayGeom hsize hfits).slot_inside i hi
      have hle := arrayGeom_bytes c hsize hfits
      refine ⟨?_, hmem⟩
      simp only [bucketStep, hptr, haddr,
        arraySize_local _ _ _ _ p hmem (Nat.le_refl p) hhdr, hat.size,
        sizeOfInt_of_pos _ (c.arrayGeom hsize hfits).pos]
      unfold ArrayGeom.width at *
      rw [slice_sameOn _ _ _ _ _ _ hmem (by omega) (by omega)]
  | arrayAdd elem idx =>
      rcases arrayAdd_local _ _ m m' p hsame (Nat.le_refl p) hhdr elem idx with ⟨hst, hmem⟩
      exact ⟨congrArg BucketOut.returned hst.symm, hmem⟩
  | ringPush elem =>
      rcases ringPush_local _ _ m m' p hsame (Nat.le_refl p) hhdr elem with ⟨hst, hmem⟩
      simp only [bucketStep]
      exact ⟨congrArg BucketOut.returned hst.symm, hmem⟩
  | ringPop elem =>
      have htype : ¬ c.type = smsRecordTypeArray := hop
      rw [if_neg htype] at h
      rcases ringPop_local _ _ m m' p hsame (Nat.le_refl p) hhdr _ elem h
        (by rw [ringGeom_bytes]; exact hhi) with ⟨hst, hbytes, hmem⟩
      simp only [bucketStep, hst, hbytes]
      exact ⟨trivial, hmem⟩
  | ringFlush =>
      exact ⟨rfl, ringFlush_local _ _ m m' p hsame (Nat.le_refl p) hhdr⟩

/-- What is allowed is decided by the header. -/
theorem allowed_local (m m' : Mem) (p : Nat) (op : BucketOp) (hop : op.Allowed c m p)
    (hsame : SameOn p (p + 16) m m') : op.Allowed c m' p := by
  cases op with
  | arrayPop =>
      have hnelem := arrayNelem_local _ _ m m' p hsame (Nat.le_refl _) (Nat.le_refl _)
      exact ⟨hop.1, by rw [hnelem]; exact hop.2⟩
  | _ => exact hop

end Bucket

/-- An operation on a bucket, whose offset is read from the table. -/
def smsStep (root : Nat) (m : Mem) (i : Nat × BucketOp) : Mem × BucketOut :=
  bucketStep (root + smsOffset m root i.1) m i.2

/-- The bucket exists, and the operation is fit for it. -/
def SmsAllowed (g : SmsGeom) (root : Nat) (m : Mem) (i : Nat × BucketOp) : Prop :=
  ∃ h : i.1 < g.cfgs.length, i.2.Allowed g.cfgs[i.1] m (root + smsOffset m root i.1)

instance (g : SmsGeom) (root : Nat) (m : Mem) (i : Nat × BucketOp) :
    Decidable (SmsAllowed g root m i) :=
  inferInstanceAs (Decidable (∃ h : i.1 < g.cfgs.length,
    i.2.Allowed g.cfgs[i.1] m (root + smsOffset m root i.1)))

/-- The offset `sms_init` records for bucket `i`. -/
def SmsGeom.start (g : SmsGeom) (i : Nat) : Nat := 896 + spans (g.cfgs.take i)

theorem SmsGeom.start_ge (g : SmsGeom) (i : Nat) : 896 ≤ g.start i :=
  Nat.le_add_right _ _

/-- The ranges of different buckets do not overlap. -/
theorem SmsGeom.apart (g : SmsGeom) (i j : Nat) (hi : i < g.cfgs.length) (hj : j < g.cfgs.length)
    (hne : i ≠ j) :
    g.start i + g.cfgs[i].span ≤ g.start j ∨ g.start j + g.cfgs[j].span ≤ g.start i := by
  have hnext : ∀ k (hk : k < g.cfgs.length), g.start k + g.cfgs[k].span = g.start (k + 1) := by
    intro k hk
    unfold SmsGeom.start
    rw [spans_take_succ g.cfgs k hk, Nat.add_assoc]
  have hmono : ∀ k l, k ≤ l → g.start k ≤ g.start l :=
    fun k l hkl => Nat.add_le_add_left (spans_take_mono g.cfgs k l hkl) 896
  rw [hnext i hi, hnext j hj]
  rcases Nat.lt_or_gt_of_ne hne with hlt | hgt
  · exact Or.inl (hmono (i + 1) j hlt)
  · exact Or.inr (hmono (j + 1) i hgt)

section Segment

variable (g : SmsGeom) (hsized : ∀ c ∈ g.cfgs, c.Sized) (root : Nat)

/-- The recorded offsets are those of the layout, and every bucket has its
    container. -/
structure SmsHeld (m : Mem) : Prop where
  offsets : ∀ i, i < g.cfgs.length → smsOffset m root i = g.start i
  held : ∀ i (h : i < g.cfgs.length), BucketHeld g.cfgs[i] (hsized _ (List.getElem_mem h))
    (g.fits _ (List.getElem_mem h)) m (root + g.start i)

theorem smsTable_held (m : Mem) (h : SmsTable g root m) : SmsHeld g hsized root m :=
  ⟨fun i hi => (h.buckets i hi).offset,
    fun i hi => bucketHeld_fresh _ _ _ m _ (h.buckets i hi).fresh⟩

theorem smsStep_eq (m : Mem) (i : Nat × BucketOp) (h : SmsHeld g hsized root m)
    (hi : i.1 < g.cfgs.length) : smsStep root m i = bucketStep (root + g.start i.1) m i.2 := by
  rw [smsStep, h.offsets i.1 hi]

theorem smsAllowed_at (m : Mem) (i : Nat × BucketOp) (h : SmsHeld g hsized root m)
    (hop : SmsAllowed g root m i) :
    ∃ hi : i.1 < g.cfgs.length, i.2.Allowed g.cfgs[i.1] m (root + g.start i.1) := by
  rcases hop with ⟨hi, hop⟩
  rw [h.offsets i.1 hi] at hop
  exact ⟨hi, hop⟩

theorem smsStep_frame (m : Mem) (i : Nat × BucketOp) (h : SmsHeld g hsized root m)
    (hi : i.1 < g.cfgs.length) (hop : SmsAllowed g root m i) :
    SameOutside (root + g.start i.1) (root + g.start i.1 + g.cfgs[i.1].span) m
      (smsStep root m i).1 := by
  rcases smsAllowed_at g hsized root m i h hop with ⟨_, hallowed⟩
  have hspan := g.cfgs[i.1].blockBytes_le_span
  rw [smsStep_eq g hsized root m i h hi]
  exact sameOutside_mono _ _ _ _ _ _ (bucketStep_block _ _ _ m _ i.2 (h.held i.1 hi) hallowed).2
    (Nat.le_refl _) (by omega)

/-- An operation leaves the two structures alone. -/
theorem smsStep_tables (m : Mem) (i : Nat × BucketOp) (h : SmsHeld g hsized root m)
    (hop : SmsAllowed g root m i) : SameOn root (root + 896) m (smsStep root m i).1 := by
  rcases smsAllowed_at g hsized root m i h hop with ⟨hi, _⟩
  have hge := g.start_ge i.1
  exact sameOn_of_sameOutside _ _ _ _ _ _ (smsStep_frame g hsized root m i h hi hop)
    (Or.inl (by omega))

theorem smsStep_held (m : Mem) (i : Nat × BucketOp) (h : SmsHeld g hsized root m)
    (hop : SmsAllowed g root m i) : SmsHeld g hsized root (smsStep root m i).1 := by
  have htables := smsStep_tables g hsized root m i h hop
  have hcount := g.count
  unfold smsMaxBucketNum at hcount
  -- The operation is on a bucket that is there, and an allowed one.
  rcases smsAllowed_at g hsized root m i h hop with ⟨hi, hallowed⟩
  have hframe := smsStep_frame g hsized root m i h hi hop
  refine ⟨fun k hk => ?_, fun k hk => ?_⟩
  · rw [← h.offsets k hk]
    refine congrArg UInt64.toNat (load64_sameOn _ _ _ _ _ htables ?_ ?_)
    all_goals rw [statBucket_eq]
    -- The table is in the region that no operation touches.
    all_goals omega
  -- The bucket that was used keeps its container; the others keep their bytes.
  · by_cases hki : k = i.1
    · subst hki
      rw [smsStep_eq g hsized root m i h hi]
      exact (bucketStep_block _ _ _ m _ i.2 (h.held i.1 hi) hallowed).1
    · have hapart := g.apart k i.1 hk hi hki
      have hspan := g.cfgs[k].blockBytes_le_span
      unfold BaseConfig.blockBytes at hspan
      exact bucketHeld_congr _ _ _ m _ _ (h.held k hk)
        (sameOn_of_sameOutside _ _ _ _ _ _ hframe (by omega))

/-- The run keeps the invariant and the two structures. -/
theorem smsRun_held (m : Mem) (ops : List (Nat × BucketOp)) (h : SmsHeld g hsized root m)
    (hok : Machine.Along (smsStep root) (SmsAllowed g root) m ops) :
    SmsHeld g hsized root (Machine.run (smsStep root) m ops).1 ∧
      SameOn root (root + 896) m (Machine.run (smsStep root) m ops).1 :=
  Machine.run_invariant_along (smsStep root) (SmsAllowed g root)
    (fun m' => SmsHeld g hsized root m' ∧ SameOn root (root + 896) m m')
    (fun m' i hm' hop => ⟨smsStep_held g hsized root m' i hm'.1 hop,
      sameOn_trans _ _ _ _ _ hm'.2 (smsStep_tables g hsized root m' i hm'.1 hop)⟩)
    ops m ⟨h, sameOn_refl _ _ m⟩ hok

/-- The range of bucket `j` goes through a run as if the operations on other
    buckets were not there. -/
theorem smsRun_project (m : Mem) (ops : List (Nat × BucketOp)) (j : Nat)
    (hj : j < g.cfgs.length) (h : SmsHeld g hsized root m)
    (hok : Machine.Along (smsStep root) (SmsAllowed g root) m ops) :
    Machine.answersTo (fun i => i.1 == j) ops (Machine.run (smsStep root) m ops).2
        = (Machine.run (smsStep root) m (ops.filter (fun i => i.1 == j))).2 ∧
      SmsHeld g hsized root (Machine.run (smsStep root) m (ops.filter (fun i => i.1 == j))).1 ∧
      SameOn (root + g.start j) (root + g.start j + g.cfgs[j].span)
        (Machine.run (smsStep root) m ops).1
        (Machine.run (smsStep root) m (ops.filter (fun i => i.1 == j))).1 := by
  have hspan := g.cfgs[j].blockBytes_le_span
  refine Machine.run_project (smsStep root) (SmsAllowed g root) (SmsHeld g hsized root)
    (fun m m' => SmsHeld g hsized root m' ∧
      SameOn (root + g.start j) (root + g.start j + g.cfgs[j].span) m m')
    (fun i => i.1 == j) (fun s i hs hop => smsStep_held g hsized root s i hs hop) ?_ ?_ ops m m h
    hok ⟨h, sameOn_refl _ _ m⟩
  · -- An operation on the bucket finds the same block in both runs.
    rintro s t ⟨k, op⟩ hmine hs hop ⟨ht, hsame⟩
    have hkj : k = j := beq_iff_eq.mp hmine
    subst hkj
    rcases smsAllowed_at g hsized root s _ hs hop with ⟨_, hallowed⟩
    have hheader : SameOn (root + g.start k) (root + g.start k + 16) s t := by
      unfold BaseConfig.blockBytes at hspan
      exact fun x hlo hhi => hsame x hlo (by omega)
    have hop' : SmsAllowed g root t (k, op) := by
      refine ⟨hj, ?_⟩
      rw [ht.offsets k hj]
      exact allowed_local _ s t _ op hallowed hheader
    -- Both runs find the same bytes in the bucket, and its operations read nothing else.
    have hlocal := bucketStep_local _ _ _ s t _ _ op (hs.held k hj) hallowed
      (Nat.add_le_add_left hspan _) hsame
    rw [smsStep_eq g hsized root s _ hs hj, smsStep_eq g hsized root t _ ht hj]
    refine ⟨hlocal.1, ?_, hlocal.2⟩
    rw [← smsStep_eq g hsized root t _ ht hj]
    -- The bytes it leaves are the same in both runs too.
    exact smsStep_held g hsized root t _ ht hop'
  · -- An operation on another bucket stays out of this one.
    rintro s t ⟨k, op⟩ hmine hs hop ⟨ht, hsame⟩
    have hkj : ¬ k = j := by
      intro hc
      rw [hc, beq_self_eq_true] at hmine
      exact absurd hmine (by decide)
    rcases smsAllowed_at g hsized root s _ hs hop with ⟨hk, _⟩
    have hapart := g.apart j k hj hk (fun hc => hkj hc.symm)
    have hframe := smsStep_frame g hsized root s _ hs hk hop
    simp only at hframe
    refine ⟨ht, sameOn_trans _ _ _ s _ (sameOn_symm _ _ _ _ ?_) hsame⟩
    exact sameOn_of_sameOutside _ _ _ _ _ _ hframe (by omega)

end Segment

/-- Buckets are isolated: in every state that a run of operations reaches from
    a segment just initialised, an operation on a bucket writes only in the
    recorded range of that bucket, the two structures are as they were, and
    every bucket holds the bytes, and has given the answers, of the operations
    on it alone. -/
theorem sms_buckets_isolated (g : SmsGeom) (hsized : ∀ c ∈ g.cfgs, c.Sized) (root : Nat)
    (m₀ : Mem) (pid : Int32) (date : UInt64) (start : Mem) (ops : List (Nat × BucketOp))
    (hstart : smsInit m₀ root (some g.cfgs) g.cfgCount pid date = (cmnOk, start))
    (hok : Machine.Along (smsStep root) (SmsAllowed g root) start ops) :
    (∀ i, SmsAllowed g root (Machine.run (smsStep root) start ops).1 i →
      SameOutside (root + smsOffset start root i.1)
        (root + smsOffset start root i.1 + smsSize start root i.1)
        (Machine.run (smsStep root) start ops).1
        (smsStep root (Machine.run (smsStep root) start ops).1 i).1) ∧
      SameOn root (root + (baseDataOffset start root).toNat) start
        (Machine.run (smsStep root) start ops).1 ∧
      ∀ j, j < g.cfgs.length →
        SameOn (root + smsOffset start root j)
          (root + smsOffset start root j + smsSize start root j)
          (Machine.run (smsStep root) start ops).1
          (Machine.run (smsStep root) start (ops.filter (fun i => i.1 == j))).1 ∧
        Machine.answersTo (fun i => i.1 == j) ops (Machine.run (smsStep root) start ops).2
          = (Machine.run (smsStep root) start (ops.filter (fun i => i.1 == j))).2 := by
  have htable := (smsInit_table m₀ g root pid date).1
  rw [hstart] at htable
  have hheld := smsTable_held g hsized root start htable
  -- The sizes in the table are those of the configurations.
  have hsize : ∀ j (hj : j < g.cfgs.length), smsSize start root j = g.cfgs[j].span :=
    fun j hj => (htable.buckets j hj).size
  rcases smsRun_held g hsized root start ops hheld hok with ⟨hend, htables⟩
  refine ⟨fun i hop => ?_, ?_, fun j hj => ?_⟩
  -- Each operation is bounded by the span of its own bucket.
  · rcases hop with ⟨hi, hallowed⟩
    rw [hheld.offsets i.1 hi, hsize i.1 hi]
    exact smsStep_frame g hsized root _ i hend hi ⟨hi, hallowed⟩
  · rw [htable.dataOffset]
    exact htables
  -- The run of one bucket alone is the run of all with its own operations only.
  · rcases smsRun_project g hsized root start ops j hj hheld hok with ⟨hanswers, _, hrange⟩
    rw [hheld.offsets j hj, hsize j hj]
    exact ⟨hrange, hanswers⟩

/-- An array of two elements of three bytes and a ring of one of four. -/
def arrayAndRing : SmsGeom where
  cfgs := [⟨false, fun _ => 0, 1, 2, 3⟩, ⟨true, fun _ => 0, 2, 1, 4⟩]
  count := by decide
  fits := by decide

/-- Pushes to both, a store past the count of the array, and a pop. -/
def inTurns : List (Nat × BucketOp) :=
  [(0, .arrayPush (fun _ => 5)), (1, .ringPush (fun _ => 6)), (0, .arrayAdd (fun _ => 7) 1),
    (1, .ringPush (fun _ => 8)), (1, .ringPop true), (0, .arrayPush (fun _ => 9))]

theorem inTurns_allowed (root : Nat) (m : Mem) :
    Machine.Along (smsStep root) (SmsAllowed arrayAndRing root) m inTurns := by
  have hring : (2 : Int32) ≠ smsRecordTypeArray := by decide
  exact ⟨⟨by decide, rfl⟩, ⟨by decide, hring⟩, ⟨by decide, rfl, by decide⟩,
    ⟨by decide, hring⟩, ⟨by decide, hring⟩, ⟨by decide, rfl⟩, trivial⟩

/-- The ring answers as if the array were not there. -/
theorem sms_two_buckets_run :
    ∃ start, smsInit (fun _ => 9) 64 (some arrayAndRing.cfgs) arrayAndRing.cfgCount 1 2
        = (cmnOk, start) ∧
      Machine.answersTo (fun i => i.1 == 1) inTurns (Machine.run (smsStep 64) start inTurns).2
        = (Machine.run (smsStep 64) start
            [(1, .ringPush (fun _ => 6)), (1, .ringPush (fun _ => 8)), (1, .ringPop true)]).2 := by
  refine ⟨_, smsInit_eq (fun _ => 9) arrayAndRing 64 1 2, ?_⟩
  exact ((sms_buckets_isolated arrayAndRing (by decide) 64 (fun _ => 9) 1 2 _ inTurns
    (smsInit_eq (fun _ => 9) arrayAndRing 64 1 2) (inTurns_allowed 64 _)).2.2 1 (by decide)).2

end Aircmn
