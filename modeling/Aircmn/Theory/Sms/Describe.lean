import Aircmn.Theory.Sms.Users

/-!
# A Segment Describes Itself

A process that attaches to a segment has only the address it got. What it needs
to find the containers and to use them rightly, it reads from the two
structures: how many buckets there are, and for each its place and the
configuration it was made from, which `sms_init` copies next to the table.

Reading back what was written is a round trip through the bytes of the segment.
The configurations are copied one a round, and no later round writes to them;
then nothing that the processes do reaches the two structures. So what a process
reads is the same whenever it attaches. What it finds at the place it has read
is a container of the configured type, capacity and element size, since no
operation on a container changes these words of its header.

## Main definitions

* `BucketFacts`: What is to be known of a bucket.
* `smsDescription`: What the segment says.
* `SmsGeom.facts`: What the caller of `sms_init` asked for.
* `ContainerOf`: The header of a container of a configuration.

## Theorems

* `image_isLock`, `image_type`, `image_cap`, `image_elemSize`: The bytes of a
  configuration.
* `smsInitLoop_cfgs`: The configurations after the loop.
* `smsRuns_container`: The container of a bucket in use.
* `sms_describes_itself`: The round trip, at any time.
-/

namespace Aircmn

open Bytes

/-- What is to be known of a bucket: its entry in the table, and its
    configuration. -/
structure BucketFacts where
  index : UInt32
  type : Int32
  cap : UInt32
  status : UInt32
  offset : Nat
  size : Nat
  isLock : Bool
  cfgType : Int32
  cfgCap : UInt32
  cfgElemSize : UInt32
deriving DecidableEq

/-- The table entry at `b` and the configuration at `a`. -/
def bucketFacts (m : Mem) (b a : Nat) : BucketFacts where
  index := bucketIndex m b
  type := bucketType m b
  cap := bucketCap m b
  status := bucketStatus m b
  offset := (bucketOffset m b).toNat
  size := (bucketSize m b).toNat
  isLock := m a != 0
  cfgType := (load32 m (a + 4)).toInt32
  cfgCap := load32 m (a + 8)
  cfgElemSize := load32 m (a + 12)

/-- What the segment says of its buckets. -/
def smsDescription (m : Mem) (root : Nat) : List BucketFacts :=
  let stat := baseStatisticalArea root
  (List.range (statBucketNum m stat).toNat).map
    (fun i => bucketFacts m (statBucket stat i) (statCfg stat i))

/-- What was asked for, bucket `i` starting where the ones before it end. -/
def SmsGeom.facts (g : SmsGeom) (i : Nat) (h : i < g.cfgs.length) : BucketFacts where
  index := UInt32.ofNat (i + 1)
  type := g.cfgs[i].type
  cap := g.cfgs[i].cap
  status := 1
  offset := g.start i
  size := g.cfgs[i].span
  isLock := g.cfgs[i].isLock
  cfgType := g.cfgs[i].type
  cfgCap := g.cfgs[i].cap
  cfgElemSize := g.cfgs[i].elemSize

section Image

variable (c : BaseConfig)

theorem image_isLock : (c.image 0 != 0) = c.isLock := by
  simp (disch := omega) only [BaseConfig.image, store32, blit_outside]
  rw [show (0 : Nat) = 0 + 0 from rfl, blit_inside _ _ _ _ _ Nat.zero_lt_one]
  cases c.isLock <;> rfl

theorem image_type : (load32 c.image 4).toInt32 = c.type := by
  simp (disch := omega) only [BaseConfig.image, load32_store32_of_disjoint, load32_store32_self,
    Int32.toInt32_toUInt32]

theorem image_cap : load32 c.image 8 = c.cap := by
  simp (disch := omega) only [BaseConfig.image, load32_store32_of_disjoint, load32_store32_self]

theorem image_elemSize : load32 c.image 12 = c.elemSize := by
  simp only [BaseConfig.image, load32_store32_self]

end Image

/-- The bytes at `a` are those of the configuration. -/
def CfgAt (m : Mem) (a : Nat) (c : BaseConfig) : Prop := ∀ x, x < 16 → m (a + x) = c.image x

theorem cfgAt_congr (m m' : Mem) (a : Nat) (c : BaseConfig) (h : CfgAt m a c)
    (hsame : ∀ x, a ≤ x → x < a + 16 → m' x = m x) : CfgAt m' a c := by
  intro x hx
  rw [hsame (a + x) (by omega) (by omega), h x hx]

theorem cfgAt_load (m : Mem) (a off : Nat) (c : BaseConfig) (h : CfgAt m a c)
    (hoff : off + 4 ≤ 16) : load32 m (a + off) = load32 c.image off := by
  rw [load32, leNat_from m a 4 off]
  exact load32_congr c.image (fun i => m (a + i)) off (fun i hi => h (off + i) (by omega))

/-- The round of a bucket leaves its configuration. -/
theorem smsRound_cfg (m : Mem) (root i : Nat) (c : BaseConfig) (offset : UInt64) (P : Nat) :
    CfgAt (smsRound m root i c offset P) (root + 768 + 16 * i) c := by
  intro x hx
  rw [smsRound, memcpy, blit_inside _ _ _ _ _ hx, Nat.zero_add]

/-- The configurations after the loop, from bucket `i` on. -/
theorem smsInitLoop_cfgs (root E : Nat) : ∀ (cfgs : List BaseConfig) (i : Nat)
    (offset position : UInt64) (m : Mem), i + cfgs.length ≤ smsMaxBucketNum →
    (∀ c ∈ cfgs, c.blockBytes < 2 ^ 32) → offset.toNat = 896 + position.toNat →
    position.toNat + spans cfgs ≤ E → E < 2 ^ 36 →
    ∀ k (hk : k < cfgs.length),
      CfgAt (smsInitLoop (baseDataArea root) (baseStatisticalArea root) cfgs i offset position m)
        (root + 768 + 16 * (i + k)) cfgs[k] := by
  intro cfgs
  induction cfgs with
  | nil =>
      intro i offset position m _ _ _ _ _ k hk
      exact absurd hk (Nat.not_lt_zero k)
  | cons c rest ih =>
      intro i offset position m hcount hfits hoffset hE hlt k hk
      rw [List.length_cons] at hcount
      rw [spans_cons] at hE
      have hrest : ∀ d ∈ rest, d.blockBytes < 2 ^ 32 :=
        fun d hd => hfits d (List.mem_cons_of_mem c hd)
      rcases smsInitLoop_cons root i c rest offset position m with ⟨size, htaken, hloop⟩
      have hsize : size.toNat = c.span := by
        rw [htaken (by omega)]
        exact alignAlloc_toNat c (hfits c List.mem_cons_self)
      have hpos : (position + size).toNat = position.toNat + c.span := by
        rw [UInt64.toNat_add, hsize]
        omega
      have hoff : (offset + size).toNat = 896 + (position + size).toNat := by
        rw [hpos, UInt64.toNat_add, hsize, hoffset]
        omega
      rw [hloop]
      cases k with
      | zero =>
          -- What the round has copied is settled when the next one begins.
          have hsettled := (smsInitLoop_buckets root E rest (i + 1) (offset + size)
            (position + size) (smsRound m root i c offset position.toNat) (by omega) hrest hoff
            (by omega) hlt).1
          refine cfgAt_congr _ _ _ c (smsRound_cfg m root i c offset position.toNat)
            (fun x hlo hhi => hsettled x ?_)
          unfold Settled
          exact Or.inr (Or.inl ⟨by omega, by omega⟩)
      | succ k =>
          have hnext := ih (i + 1) (offset + size) (position + size)
            (smsRound m root i c offset position.toNat) (by omega) hrest hoff (by omega) hlt k
            (Nat.lt_of_succ_lt_succ hk)
          rwa [show i + 1 + k = i + (k + 1) by omega] at hnext

/-- The configurations after `sms_init`. -/
theorem smsInit_cfgs (m : Mem) (g : SmsGeom) (root : Nat) (pid : Int32) (date : UInt64) (k : Nat)
    (hk : k < g.cfgs.length) :
    CfgAt (smsInit m root (some g.cfgs) g.cfgCount pid date).2 (root + 768 + 16 * k)
      g.cfgs[k] := by
  have hdata := (smsBefore_base m g root pid date).2.2.1
  have hcfgs := smsInitLoop_cfgs root (spans g.cfgs) g.cfgs 0
    (baseDataOffset (smsBefore m g root pid date) root) 0 (smsBefore m g root pid date)
    (by rw [Nat.zero_add]; exact g.count) g.fits (by rw [hdata]; rfl)
    (by rw [UInt64.toNat_zero, Nat.zero_add]) g.spans_lt k hk
  rw [Nat.zero_add] at hcfgs
  rw [smsInit_eq]
  exact hcfgs

/-- What is read of bucket `k` where its entry and its configuration are. -/
theorem bucketFacts_eq (g : SmsGeom) (m : Mem) (root k : Nat) (hk : k < g.cfgs.length)
    (hbucket : BucketAt m root k g.cfgs[k] (g.start k))
    (hcfg : CfgAt m (statCfg (baseStatisticalArea root) k) g.cfgs[k]) :
    bucketFacts m (statBucket (baseStatisticalArea root) k)
      (statCfg (baseStatisticalArea root) k) = g.facts k hk := by
  have hfirst : (m (statCfg (baseStatisticalArea root) k) != 0) = g.cfgs[k].isLock := by
    rw [← image_isLock g.cfgs[k], ← hcfg 0 (by decide), Nat.add_zero]
  rw [bucketFacts, SmsGeom.facts, hbucket.index, hbucket.type, hbucket.cap, hbucket.status,
    hbucket.offset, hbucket.size, hfirst, cfgAt_load m _ 4 _ hcfg (by decide),
    cfgAt_load m _ 8 _ hcfg (by decide), cfgAt_load m _ 12 _ hcfg (by decide), image_type,
    image_cap, image_elemSize]

/-- The entry of a bucket is in the two structures, except for its container. -/
theorem facts_congr (m m' : Mem) (root k : Nat) (hk : k < smsMaxBucketNum)
    (hsame : SameOn root (root + 896) m m') :
    bucketFacts m' (statBucket (baseStatisticalArea root) k)
        (statCfg (baseStatisticalArea root) k)
      = bucketFacts m (statBucket (baseStatisticalArea root) k)
        (statCfg (baseStatisticalArea root) k) := by
  unfold smsMaxBucketNum at hk
  -- Everything that a description reads lies in the two tables.
  have hword : ∀ a, root ≤ a → a + 4 ≤ root + 896 → load32 m' a = load32 m a :=
    fun a hlo hhi => load32_sameOn _ _ m m' a hsame hlo hhi
  have hdword : ∀ a, root ≤ a → a + 8 ≤ root + 896 → load64 m' a = load64 m a :=
    fun a hlo hhi => load64_sameOn _ _ m m' a hsame hlo hhi
  rw [statBucket_eq, statCfg_eq]
  simp (disch := omega) only [bucketFacts, bucketIndex, bucketType, bucketCap, bucketStatus,
    bucketOffset, bucketSize, hword, hdword]
  rw [hsame _ (by omega) (by omega)]

/-- The header at `p` is that of a container of the configured type, capacity
    and element size, and what it counts is in range. -/
def ContainerOf (m : Mem) (p : Nat) (c : BaseConfig) : Prop :=
  if c.type = smsRecordTypeArray then
    arrayNalloc m p = c.cap ∧ arraySize m p = c.elemSize.toInt32 ∧ arrayNelem m p ≤ c.cap
  else
    ringCap m p = c.cap ∧ ringElemSize m p = c.elemSize.toInt32 ∧ ringRpos m p ≤ c.cap ∧
      ringWpos m p ≤ c.cap

/-- The header of a bucket in use. -/
theorem smsRuns_container (g : SmsGeom) (hsized : ∀ c ∈ g.cfgs, c.Sized) (root : Nat)
    (w : SmsWorld) (h : SmsRuns g hsized root w) (i : Nat) (hi : i < g.cfgs.length) :
    ContainerOf w.mem (root + g.start i) g.cfgs[i] := by
  unfold ContainerOf
  by_cases htype : g.cfgs[i].type = smsRecordTypeArray
  · have hheld := h.arrays i hi htype
    rw [BucketHeld, if_pos htype] at hheld
    rw [if_pos htype]
    exact ⟨hheld.nalloc, hheld.size, UInt32.le_iff_toNat_le.mpr hheld.nelem_le⟩
  · rcases h.rings i hi htype with ⟨R, hR⟩
    have hheader := hR.header
    rw [if_neg htype]
    -- A position is a remainder by the number of slots, which is one more than the capacity.
    refine ⟨hheader.cap, hheader.elemSize, UInt32.le_iff_toNat_le.mpr ?_,
      UInt32.le_iff_toNat_le.mpr ?_⟩
    · exact hheader.rpos ▸ Nat.le_of_lt_succ ((g.ring hsized i hi).mod_lt _)
    · exact hheader.wpos ▸ Nat.le_of_lt_succ ((g.ring hsized i hi).mod_lt _)

/-- Whenever a process attaches to a segment, what it reads from the two
    structures is what `sms_init` was asked for: every bucket with its place
    and its configuration, whatever the processes at the buckets have done. At
    the place it reads is the header of a container of that configuration. -/
theorem sms_describes_itself (g : SmsGeom) (hsized : ∀ c ∈ g.cfgs, c.Sized) (root : Nat)
    (m₀ : Mem) (pid : Int32) (date : UInt64) (start : Mem) (acts : List SmsAct) (w : SmsWorld)
    (hstart : smsInit m₀ root (some g.cfgs) g.cfgCount pid date = (cmnOk, start))
    (hrun : Machine.steps (smsAct g root) ⟨start, fun _ => RingUsers.fresh⟩ acts = some w) :
    smsDescription w.mem root = List.ofFn (fun i : Fin g.cfgs.length => g.facts i i.isLt) ∧
    ∀ i (h : i < g.cfgs.length), ContainerOf w.mem (root + smsOffset w.mem root i) g.cfgs[i] := by
  have htable := (smsInit_table m₀ g root pid date).1
  -- The offsets come from the table, the container from the invariant of the run.
  have hcfgs := smsInit_cfgs m₀ g root pid date
  rw [hstart] at htable hcfgs
  rcases smsRuns_run g hsized root start acts w htable hrun with ⟨hruns, hsame⟩
  -- The containers are where the table says, in the last state.
  refine ⟨?_, fun i hi => by
    rw [hruns.offsets i hi]
    exact smsRuns_container g hsized root w hruns i hi⟩
  -- The number of buckets is read back from the region, where no step has stored.
  have hnum : (statBucketNum w.mem (baseStatisticalArea root)).toNat = g.cfgs.length := by
    rw [← htable.bucketNum]
    refine congrArg UInt32.toNat (load32_sameOn _ _ _ _ _ hsame ?_ ?_)
    all_goals unfold baseStatisticalArea sizeofBase
    all_goals omega
  have hcount := g.count
  simp only [smsDescription, hnum]
  -- Both sides are lists of the same length, compared at each place.
  refine List.ext_getElem (by simp) (fun k hk hk' => ?_)
  simp only [List.length_map, List.length_range] at hk
  simp only [List.getElem_map, List.getElem_range, List.getElem_ofFn]
  rw [facts_congr start w.mem root k (by omega) hsame]
  -- The facts of bucket k are read from the table, and the configuration beside it.
  refine bucketFacts_eq g start root k hk (htable.buckets k hk) ?_
  rw [statCfg_eq]
  exact hcfgs k hk

/-- Two rings and an array in use. -/
theorem sms_describes_three :
    ∃ start w, smsInit (fun _ => 9) 64 (some ringsAndArray.cfgs) ringsAndArray.cfgCount 1 2
        = (cmnOk, start) ∧
      Machine.steps (smsAct ringsAndArray 64) ⟨start, fun _ => RingUsers.fresh⟩ threeInTurns
        = some w ∧
      smsDescription w.mem 64
        = List.ofFn (fun i : Fin ringsAndArray.cfgs.length => ringsAndArray.facts i i.isLt) ∧
      ∀ i (h : i < ringsAndArray.cfgs.length),
        ContainerOf w.mem (64 + smsOffset w.mem 64 i) ringsAndArray.cfgs[i] := by
  have hstart := smsInit_eq (fun _ => 9) ringsAndArray 64 1 2
  have hsome := threeInTurns_runs
  -- The layout is evaluated, and the run from there is given.
  rw [hstart] at hsome
  rcases Option.isSome_iff_exists.mp hsome with ⟨w, hw⟩
  exact ⟨_, w, hstart, hw,
    sms_describes_itself ringsAndArray (by decide) 64 (fun _ => 9) 1 2 _ threeInTurns w hstart hw⟩

end Aircmn
