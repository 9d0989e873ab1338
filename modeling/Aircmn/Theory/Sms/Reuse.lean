import Aircmn.Theory.Sms.Report

/-!
# A Segment Used Again

Whether what `sms_init` leaves depends on what the memory held before. Both
tables are cleared as a whole before anything is stored in them, so after that
two runs on different memories agree on them, and go on to agree, since every
round of the loop makes the same stores in both. The headers lie in the data
area, which is not cleared. `ring_setup` stores all four fields of a ring,
`array_setup` three of the four of an array, and the fourth, `status`, is
still what was there.

`headerBytes` is how much of a header is stored. What lies in the data area
outside of that is untouched by the whole of `sms_init`, which is where the
two runs differ, and what a report reads where it looks for a container.

## Main definitions

* `HeaderSame`: Two containers with the same header.
* `SmsSame`: Two segments with the same tables and headers.
* `SmsReproducible`: Every memory gives the same segment.
* `SummaryReproducible`: Every memory gives the same summary.

## Theorems

* `smsBefore_sameOn`, `smsInitLoop_sameOn`: The tables.
* `smsInit_untouched`: What is left of the data area.
* `smsReproducible_iff`: When the segment is reproducible.
* `smsReport_last`: The last line of a report.
* `summaryReproducible_iff`: When the summary is.
* `sms_init_reproducible_iff`: Both together.
* `sms_init_keeps_status`: An array in a segment used before.
-/

namespace Aircmn

open Bytes

/-- The fields of the container at `p` in `m` are those of the one at `p'` in
    `m'`. -/
def HeaderSame (m m' : Mem) (p p' : Nat) (c : BaseConfig) : Prop :=
  if c.type = smsRecordTypeArray then
    arrayNelem m' p' = arrayNelem m p ∧ arrayNalloc m' p' = arrayNalloc m p ∧
      arraySize m' p' = arraySize m p ∧ arrayStatus m' p' = arrayStatus m p
  else
    ringElemSize m' p' = ringElemSize m p ∧ ringCap m' p' = ringCap m p ∧
      ringRpos m' p' = ringRpos m p ∧ ringWpos m' p' = ringWpos m p

/-- The whole of `struct base` and `struct statistics` are the same, and every
    field of every header. -/
structure SmsSame (g : SmsGeom) (root : Nat) (m m' : Mem) : Prop where
  base : SameOn root (root + sizeofBase) m m'
  statistics : SameOn (baseStatisticalArea root) (baseStatisticalArea root + sizeofStatistics) m m'
  headers : ∀ i (h : i < g.cfgs.length),
    HeaderSame m m' (root + smsOffset m root i) (root + smsOffset m' root i) g.cfgs[i]

/-- `sms_init` leaves the same whatever the memory held before. -/
def SmsReproducible (g : SmsGeom) (root : Nat) (pid : Int32) (date : UInt64) : Prop :=
  ∀ m m', SmsSame g root (smsInit m root (some g.cfgs) g.cfgCount pid date).2
    (smsInit m' root (some g.cfgs) g.cfgCount pid date).2

/-- So does what `sms_summary` says after it. -/
def SummaryReproducible (g : SmsGeom) (root : Nat) (pid : Int32) (date : UInt64) : Prop :=
  ∀ m m', smsSummary (smsInit m root (some g.cfgs) g.cfgCount pid date).2 (some root)
    = smsSummary (smsInit m' root (some g.cfgs) g.cfgCount pid date).2 (some root)

/-- The tables are cleared, and then the same is stored in them. -/
theorem smsBefore_sameOn (m m' : Mem) (g : SmsGeom) (root : Nat) (pid : Int32) (date : UInt64) :
    SameOn root (root + 896) (smsBefore m g root pid date) (smsBefore m' g root pid date) := by
  -- The base itself is set to 0 and then stored field by field, the same on any memory.
  have hbase : SameOn root (root + 120) (smsInitBase m root (some g.cfgs) g.cfgCount pid date)
      (smsInitBase m' root (some g.cfgs) g.cfgCount pid date) := by
    unfold smsInitBase
    iterate 6 refine sameOn_blit _ _ _ _ _ _ _ ?_
    -- Up to its size everything is 0 or has been stored since.
    intro x hlo hhi
    rw [← Nat.add_sub_cancel' hlo, memset, memset, blit_inside _ _ _ _ _ (by
      unfold sizeofBase; omega), blit_inside _ _ _ _ _ (by unfold sizeofBase; omega)]
  refine sameOn_blit _ _ _ _ _ _ _ (fun x hlo hhi => ?_)
  -- The statistics follow the base, and are cleared the same way.
  by_cases hx : x < root + 120
  · rw [memset, memset, blit_outside _ _ _ _ _ (Or.inl hx), blit_outside _ _ _ _ _ (Or.inl hx)]
    exact hbase x hlo hx
  · rw [← Nat.add_sub_cancel' (Nat.le_of_not_lt hx), memset, memset,
      blit_inside _ _ _ _ _ (by omega), blit_inside _ _ _ _ _ (by omega)]

theorem containerSetup_sameOn (lo hi : Nat) (m m' : Mem) (p : Nat) (c : BaseConfig)
    (h : SameOn lo hi m m') : SameOn lo hi (containerSetup m p c) (containerSetup m' p c) := by
  unfold containerSetup
  by_cases htype : c.type = smsRecordTypeArray
  · rw [if_pos htype, if_pos htype]
    iterate 3 refine sameOn_blit _ _ _ _ _ _ _ ?_
    exact h
  · rw [if_neg htype, if_neg htype]
    iterate 4 refine sameOn_blit _ _ _ _ _ _ _ ?_
    exact h

/-- A round makes the same stores whatever memory it is on. -/
theorem smsRound_sameOn (lo hi : Nat) (m m' : Mem) (root i : Nat) (c : BaseConfig)
    (offset : UInt64) (P : Nat) (h : SameOn lo hi m m') :
    SameOn lo hi (smsRound m root i c offset P) (smsRound m' root i c offset P) := by
  unfold smsRound smsPlaced
  refine sameOn_blit _ _ _ _ _ _ _ (containerSetup_sameOn _ _ _ _ _ c ?_)
  unfold smsEntry smsBucketFields
  iterate 6 refine sameOn_blit _ _ _ _ _ _ _ ?_
  exact h

theorem smsInitLoop_sameOn (lo hi root : Nat) : ∀ (cfgs : List BaseConfig) (i : Nat)
    (offset position : UInt64) (m m' : Mem), i + cfgs.length ≤ smsMaxBucketNum →
    SameOn lo hi m m' →
    SameOn lo hi
      (smsInitLoop (baseDataArea root) (baseStatisticalArea root) cfgs i offset position m)
      (smsInitLoop (baseDataArea root) (baseStatisticalArea root) cfgs i offset position m') := by
  intro cfgs
  induction cfgs with
  | nil =>
      intro i offset position m m' _ h
      exact h
  | cons c rest ih =>
      intro i offset position m m' hcount h
      rw [List.length_cons] at hcount
      -- The size a round reads back is the one it has stored.
      rcases smsInitLoop_cons root i c rest offset position m with ⟨size, htaken, hloop⟩
      rcases smsInitLoop_cons root i c rest offset position m' with ⟨size', htaken', hloop'⟩
      rw [hloop, hloop', htaken (by omega), htaken' (by omega)]
      exact ih _ _ _ _ _ (by omega) (smsRound_sameOn _ _ _ _ root i c offset _ h)

theorem smsInit_sameOn (m m' : Mem) (g : SmsGeom) (root : Nat) (pid : Int32) (date : UInt64) :
    SameOn root (root + 896) (smsInit m root (some g.cfgs) g.cfgCount pid date).2
      (smsInit m' root (some g.cfgs) g.cfgCount pid date).2 := by
  have hbefore := smsBefore_sameOn m m' g root pid date
  rw [smsInit_eq, smsInit_eq, show baseDataOffset (smsBefore m' g root pid date) root
    = baseDataOffset (smsBefore m g root pid date) root from
      load64_sameOn _ _ _ _ _ hbefore (by omega) (by omega)]
  exact smsInitLoop_sameOn root _ root g.cfgs 0 _ _ _ _ (by rw [Nat.zero_add]; exact g.count)
    hbefore

/-- An address of the data area that is in no header. -/
def InNoHeader (root : Nat) (cfgs : List BaseConfig) (P x : Nat) : Prop :=
  ∀ k (h : k < cfgs.length), x < root + 896 + P + spans (cfgs.take k) ∨
    root + 896 + P + spans (cfgs.take k) + cfgs[k].headerBytes ≤ x

theorem inNoHeader_cons (root : Nat) (c : BaseConfig) (rest : List BaseConfig) (P x : Nat)
    (h : InNoHeader root (c :: rest) P x) :
    (x < root + 896 + P ∨ root + 896 + P + c.headerBytes ≤ x) ∧
      InNoHeader root rest (P + c.span) x := by
  refine ⟨h 0 (Nat.succ_pos _), fun k hk => ?_⟩
  have hnext := h (k + 1) (Nat.succ_lt_succ hk)
  rw [List.take_succ_cons, spans_cons, List.getElem_cons_succ] at hnext
  omega

theorem smsInitLoop_untouched (root x : Nat) (hdata : root + 896 ≤ x) :
    ∀ (cfgs : List BaseConfig) (i : Nat) (offset position : UInt64) (m : Mem),
    i + cfgs.length ≤ smsMaxBucketNum → (∀ c ∈ cfgs, c.blockBytes < 2 ^ 32) →
    position.toNat + spans cfgs < 2 ^ 36 → InNoHeader root cfgs position.toNat x →
    smsInitLoop (baseDataArea root) (baseStatisticalArea root) cfgs i offset position m x
      = m x := by
  -- No round stores at x: not its first header, and no later one.
  intro cfgs
  induction cfgs with
  | nil =>
      intro i offset position m _ _ _ _
      rfl
  | cons c rest ih =>
      intro i offset position m hcount hfits hlt hx
      rw [List.length_cons] at hcount
      rw [spans_cons] at hlt
      rcases inNoHeader_cons root c rest position.toNat x hx with ⟨hfirst, hrest⟩
      rcases smsInitLoop_cons root i c rest offset position m with ⟨size, htaken, hloop⟩
      have hsize : size.toNat = c.span := by
        rw [htaken (by omega)]
        exact alignAlloc_toNat c (hfits c List.mem_cons_self)
      have hpos : (position + size).toNat = position.toNat + c.span := by
        rw [UInt64.toNat_add, hsize]
        omega
      -- The second bucket starts where the first ends.
      rw [← hpos] at hrest
      rw [hloop, ih _ _ _ _ (by omega) (fun d hd => hfits d (List.mem_cons_of_mem c hd))
        -- Entry i is one of the eight in the table.
        (by omega) hrest]
      have hi : i < 8 := by
        unfold smsMaxBucketNum at hcount
        omega
      exact smsRound_outside m root i c offset _ x (by omega) hfirst (by omega)

theorem smsInit_untouched (m : Mem) (g : SmsGeom) (root : Nat) (pid : Int32) (date : UInt64)
    (x : Nat) (hdata : root + 896 ≤ x) (hx : InNoHeader root g.cfgs 0 x) :
    (smsInit m root (some g.cfgs) g.cfgCount pid date).2 x = m x := by
  rw [smsInit_eq]
  simp only
  rw [smsInitLoop_untouched root x hdata g.cfgs 0 _ 0 _ (by rw [Nat.zero_add]; exact g.count)
    g.fits (by rw [UInt64.toNat_zero, Nat.zero_add]; exact g.spans_lt) hx]
  exact smsBefore_outside m g root pid date x (Or.inr hdata)

/-- A word of the data area that is in no header. -/
theorem smsInit_word (m : Mem) (g : SmsGeom) (root : Nat) (pid : Int32) (date : UInt64)
    (p : Nat) (hdata : root + 896 ≤ p) (hp : ∀ i, i < 4 → InNoHeader root g.cfgs 0 (p + i)) :
    load32 (smsInit m root (some g.cfgs) g.cfgCount pid date).2 p = load32 m p :=
  load32_congr _ _ _ (fun i hi => smsInit_untouched m g root pid date _ (by omega) (hp i hi))

theorem headerBytes_le_span (c : BaseConfig) : c.headerBytes ≤ 16 ∧ 16 ≤ c.span := by
  have hspan := c.blockBytes_le_span
  unfold BaseConfig.blockBytes at hspan
  exact ⟨headerBytes_le c, by omega⟩

/-- The buckets before the `i`-th end where it begins. -/
theorem spans_take_lt (cfgs : List BaseConfig) (k i : Nat) (hk : k < cfgs.length) (h : k < i) :
    spans (cfgs.take k) + cfgs[k].span ≤ spans (cfgs.take i) := by
  rw [← spans_take_succ cfgs k hk]
  exact spans_take_mono cfgs (k + 1) i h

/-- The fourth word of the header of an array. -/
theorem status_inNoHeader (root : Nat) (cfgs : List BaseConfig) (i t : Nat) (hi : i < cfgs.length)
    (htype : cfgs[i].type = smsRecordTypeArray) (ht : t < 4) :
    InNoHeader root cfgs 0 (root + (896 + spans (cfgs.take i)) + 12 + t) := by
  intro k hk
  -- Byte t of the status lies in bucket i; the header of any other bucket is elsewhere.
  rcases Nat.lt_trichotomy k i with hki | hki | hki
  -- Buckets before i end before it starts.
  · have hend := spans_take_lt cfgs k i hk hki
    have hbytes := headerBytes_le_span cfgs[k]
    omega
  -- In bucket i the header is the array's own 12 bytes, and status is behind them.
  · have hbytes : cfgs[k].headerBytes = 12 := by
      subst hki
      rw [BaseConfig.headerBytes, if_pos htype]
    rw [hbytes, hki]
    omega
  -- Buckets after i start where its span ends.
  · have hend := spans_take_lt cfgs i k hi hki
    have hbytes := headerBytes_le_span cfgs[i]
    omega

/-- Every address past the last header. -/
theorem last_inNoHeader (root : Nat) (cfgs : List BaseConfig) (l x : Nat) (hl : l + 1 = cfgs.length)
    (hx : root + 896 + spans (cfgs.take l) + 16 ≤ x) : InNoHeader root cfgs 0 x := by
  intro k hk
  have hmono := spans_take_mono cfgs k l (by omega)
  have hbytes := headerBytes_le_span cfgs[k]
  omega

theorem smsInit_offset (m : Mem) (g : SmsGeom) (root : Nat) (pid : Int32) (date : UInt64) (i : Nat)
    (hi : i < g.cfgs.length) :
    smsOffset (smsInit m root (some g.cfgs) g.cfgCount pid date).2 root i
      = 896 + spans (g.cfgs.take i) :=
  ((smsInit_table m g root pid date).1.buckets i hi).offset

/-- Memories of zeros and of ones. -/
def allBytes (b : UInt8) : Mem := fun _ => b

theorem smsReproducible_iff (g : SmsGeom) (root : Nat) (pid : Int32) (date : UInt64) :
    SmsReproducible g root pid date ↔ ∀ c ∈ g.cfgs, c.type ≠ smsRecordTypeArray := by
  constructor
  · intro hsame c hc htype
    rcases List.getElem_of_mem hc with ⟨i, hi, hci⟩
    have harray : g.cfgs[i].type = smsRecordTypeArray := by rwa [hci]
    -- The status of the array is read back from both memories.
    have hstatus : ∀ b, load32 (smsInit (allBytes b) root (some g.cfgs) g.cfgCount pid date).2
        (root + (896 + spans (g.cfgs.take i)) + 12) = load32 (allBytes b) 0 :=
      fun b => smsInit_word _ g root pid date _ (by omega)
        (fun t ht => status_inNoHeader root g.cfgs i t hi harray ht)
    have hheader := (hsame (allBytes 0) (allBytes 1)).headers i hi
    rw [HeaderSame, if_pos harray, smsInit_offset _ g root pid date i hi,
      smsInit_offset _ g root pid date i hi] at hheader
    have hword := hheader.2.2.2
    rw [arrayStatus, arrayStatus, hstatus 0, hstatus 1] at hword
    exact absurd hword (by decide)
  · intro hrings m m'
    have htables := smsInit_sameOn m m' g root pid date
    refine ⟨fun x hlo hhi => htables x hlo (by unfold sizeofBase at hhi; omega),
      fun x hlo hhi => htables x ?_ ?_, fun i hi => ?_⟩
    · unfold baseStatisticalArea at hlo
      omega
    · unfold baseStatisticalArea sizeofBase sizeofStatistics at hhi
      omega
    · -- `ring_setup` stores every field.
      have hring := hrings _ (List.getElem_mem hi)
      have hfresh := ((smsInit_table m g root pid date).1.buckets i hi).fresh
      have hfresh' := ((smsInit_table m' g root pid date).1.buckets i hi).fresh
      rw [ContainerFresh, if_neg hring] at hfresh hfresh'
      rw [HeaderSame, if_neg hring, smsInit_offset m g root pid date i hi,
        smsInit_offset m' g root pid date i hi, hfresh.1, hfresh.2.1, hfresh.2.2.1,
        hfresh.2.2.2, hfresh'.1, hfresh'.2.1, hfresh'.2.2.1, hfresh'.2.2.2]
      exact ⟨rfl, rfl, rfl, rfl⟩

/-- What a report says of a container ends with the fourth word of its
    header. -/
theorem smsReportBucket_last (m : Mem) (root b : Nat) (hstatus : bucketStatus m b = 1) :
    ∃ format, (smsReportBucket m root b).getLast?
      = some ⟨format, .word (load32 m (smsReportedAt m root b + 12))⟩ := by
  have hne : ¬ (bucketStatus m b == 0) = true := by
    rw [hstatus]
    decide
  rw [smsReportBucket, if_neg hne, smsReportContainer]
  by_cases htype : (bucketType m b == smsRecordTypeArray) = true
  · rw [if_pos htype]
    exact ⟨_, by simp [arrayStatus]; rfl⟩
  · rw [if_neg htype]
    exact ⟨_, by simp [ringWpos]; rfl⟩

/-- So does a report. -/
theorem smsReport_last (m : Mem) (root l : Nat)
    (hnum : (statBucketNum m (baseStatisticalArea root)).toNat = l + 1)
    (hstatus : bucketStatus m (statBucket (baseStatisticalArea root) l) = 1) :
    ∃ format, (smsReport m root).getLast?
      = some ⟨format, .word (load32 m (smsLooksAt m root l + 12))⟩ := by
  rcases smsReportBucket_last m root _ hstatus with ⟨format, hlast⟩
  refine ⟨format, ?_⟩
  rw [smsReport, hnum, List.range_succ, List.flatMap_append, List.flatMap_singleton,
    ← List.append_assoc, List.getLast?_append, hlast]
  rfl

theorem smsReport_empty (m : Mem) (root : Nat)
    (hnum : (statBucketNum m (baseStatisticalArea root)).toNat = 0) :
    smsReport m root = smsReportBase m root := by
  rw [smsReport, hnum, List.range_zero, List.flatMap_nil, List.append_nil]

/-- The first lines of a report are about the tables. -/
theorem smsReportBase_sameOn (root : Nat) (m m' : Mem) (h : SameOn root (root + 896) m m') :
    smsReportBase m' root = smsReportBase m root := by
  have hstat : baseStatisticalArea root = root + 120 := by
    unfold baseStatisticalArea sizeofBase
    omega
  have hword : ∀ off, off + 4 ≤ 896 → load32 m' (root + off) = load32 m (root + off) :=
    fun off hoff => load32_sameOn _ _ _ _ _ h (by omega) (by omega)
  have hdword : ∀ off, off + 8 ≤ 896 → load64 m' (root + off) = load64 m (root + off) :=
    fun off hoff => load64_sameOn _ _ _ _ _ h (by omega) (by omega)
  rw [smsReportBase, smsReportBase, hstat]
  simp only [basePid, baseDate, baseTotalSize, statIndex, statBucketNum, Nat.add_assoc,
    Nat.reduceAdd, hdword 72 (by omega), hdword 80 (by omega), hword 120 (by omega),
    hword 124 (by omega), show load32 m' root = load32 m root from hword 0 (by omega)]

theorem summaryReproducible_iff (g : SmsGeom) (root : Nat) (pid : Int32) (date : UInt64) :
    SummaryReproducible g root pid date ↔ g.cfgs = [] := by
  constructor
  · intro hsame
    by_contra hne
    rcases Nat.exists_eq_succ_of_ne_zero (List.length_pos_iff.mpr hne).ne' with ⟨l, hl⟩
    -- The last container is looked for beyond all headers, and the last line
    -- is read back from both memories.
    have hlast : ∀ b, ∃ format,
        (smsReport (smsInit (allBytes b) root (some g.cfgs) g.cfgCount pid date).2 root).getLast?
          = some ⟨format, .word (load32 (allBytes b) 0)⟩ := by
      intro b
      have htable := (smsInit_table (allBytes b) g root pid date).1
      have hbucket := htable.buckets l (by omega)
      rcases smsReport_last _ root l (by rw [htable.bucketNum, hl]) hbucket.status with
        ⟨format, hline⟩
      refine ⟨format, hline.trans ?_⟩
      rw [smsLooksAt, smsReportedAt, hbucket.offset, smsInit_word _ g root pid date _ (by
        unfold sizeofBase; omega) (fun t ht => last_inNoHeader root g.cfgs l _ hl.symm (by
        unfold sizeofBase; omega))]
      rfl
    rcases hlast 0 with ⟨format, hzeros⟩
    rcases hlast 1 with ⟨format', hones⟩
    have hreports := congrArg (fun r => r.2.getLast?) (hsame (allBytes 0) (allBytes 1))
    simp only [smsSummary, hzeros, hones, Option.some.injEq, ReportLine.mk.injEq,
      ReportArg.word.injEq] at hreports
    exact absurd hreports.2 (by decide)
  · intro hnil m m'
    have hnone : g.cfgs.length = 0 := List.length_eq_zero_iff.mpr hnil
    have hnum := (smsInit_table m g root pid date).1.bucketNum.trans hnone
    have hnum' := (smsInit_table m' g root pid date).1.bucketNum.trans hnone
    rw [smsSummary, smsSummary, smsReport_empty _ root hnum, smsReport_empty _ root hnum',
      smsReportBase_sameOn root _ _ (smsInit_sameOn m m' g root pid date)]

/-- After `sms_init` the tables and the headers are the same whatever the
    memory held before just in case no bucket is an array. A summary reads no
    header where it is, and is the same just in case there are no buckets. -/
theorem sms_init_reproducible_iff (g : SmsGeom) (root : Nat) (pid : Int32) (date : UInt64) :
    (SmsReproducible g root pid date ↔ ∀ c ∈ g.cfgs, c.type ≠ smsRecordTypeArray) ∧
      (SummaryReproducible g root pid date ↔ g.cfgs = []) :=
  ⟨smsReproducible_iff g root pid date, summaryReproducible_iff g root pid date⟩

/-- An array of one word. -/
def oneArray : SmsGeom where
  cfgs := [⟨false, fun _ => 0, 1, 1, 4⟩]
  count := by decide
  fits := by decide

/-- In a fresh segment of zeros the status of the array is zero, and in one
    that held ones it is what was there. -/
theorem sms_init_keeps_status :
    (∃ start, smsInit (allBytes 0) 0 (some oneArray.cfgs) oneArray.cfgCount 1 2 = (cmnOk, start) ∧
      arrayStatus start (smsOffset start 0 0) = 0) ∧
    (∃ start, smsInit (allBytes 1) 0 (some oneArray.cfgs) oneArray.cfgCount 1 2 = (cmnOk, start) ∧
      arrayStatus start (smsOffset start 0 0) = 0x01010101) ∧
    ¬ SmsReproducible oneArray 0 1 2 := by
  -- The layout stores nothing where status stands, so what was there before shows up in it.
  have hstatus : ∀ b, ∃ start,
      smsInit (allBytes b) 0 (some oneArray.cfgs) oneArray.cfgCount 1 2 = (cmnOk, start) ∧
        arrayStatus start (smsOffset start 0 0) = (load32 (allBytes b) 0).toInt32 := by
    intro b
    refine ⟨(smsInit (allBytes b) 0 (some oneArray.cfgs) oneArray.cfgCount 1 2).2,
      by rw [smsInit_eq], ?_⟩
    rw [smsInit_offset (allBytes b) oneArray 0 1 2 0 (by decide), ← Nat.zero_add (896 + _),
      arrayStatus, smsInit_word _ oneArray 0 1 2 _ (by omega)
        (fun t ht => status_inNoHeader 0 oneArray.cfgs 0 t (by decide) rfl ht)]
    rfl
  refine ⟨hstatus 0, hstatus 1, ?_⟩
  -- Two memories that differ only there are laid out differently, which is what reproducible
  -- denies.
  rw [smsReproducible_iff]
  decide

end Aircmn
