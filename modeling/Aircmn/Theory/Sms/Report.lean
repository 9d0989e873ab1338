import Aircmn.Theory.Sms.Buckets

/-!
# Reports on a Segment

`sms_summary` and `sms_info` look for the container of a bucket at
`root + b->offset`. The offset is in bytes, but `root` is a pointer to
`struct base`, so the address is 120 times too far from `root`, as
`smsReportedAt` computes it. `sms_init_statistics` goes through `char *`. The
two agree only on offset zero, which no bucket has. And nothing in the source
stores `total_size` after `sms_init` has cleared it.

`smsIntended` is what a report would say if it read the containers where they
are and knew the size of the segment. No report is that, in whatever state the
containers are.

## Main definitions

* `smsIntended`: The report as it was meant.
* `smsLooksAt`: Where a report looks for a container.
* `ReportFaithful`: What a report is meant to be.
* `ReportAstray`: What it is.

## Theorems

* `smsReportedAt_astray`: The address is never that of the container.
* `smsReport_ne_intended`: The total size is never that of the segment.
* `smsReport_astray`: Both, while the two structures are as they were.
* `sms_reports_astray`: Both, in every reachable state.
* `sms_report_one_ring`: A segment of one ring.
* `sms_report_in_turns`: A segment in use.
-/

namespace Aircmn

open Bytes

/-- The first lines of a report, with the size that was asked for. -/
def smsIntendedBase (g : SmsGeom) (m : Mem) (root : Nat) : List ReportLine :=
  [⟨">> Base pid [%d] :\n", .word (basePid m root).toUInt32⟩,
    ⟨">> Base name [%s] :\n", .chars (baseName root)⟩,
    ⟨">> Base date [%ld] :\n", .dword (baseDate m root)⟩,
    ⟨">> Base total_size [%ld] :\n", .dword (smsCalcSize g.cfgs g.cfgCount).toUInt64⟩,
    ⟨">>>> Statistics index [%d] :\n", .word (statIndex m (baseStatisticalArea root))⟩,
    ⟨">>>> Statistics bucket_num [%d] :\n", .word (statBucketNum m (baseStatisticalArea root))⟩]

/-- A bucket reported on with its container read where it is. -/
def smsIntendedBucket (m : Mem) (root b : Nat) : List ReportLine :=
  if bucketStatus m b == 0 then []
  else
    [⟨">>>>>> Bucket index [%d] :\n", .word (bucketIndex m b)⟩,
      ⟨">>>>>> Bucket cap [%d] :\n", .word (bucketCap m b)⟩,
      ⟨">>>>>> Bucket offset [%ld] :\n", .dword (bucketOffset m b)⟩,
      ⟨">>>>>> Bucket size [%ld] :\n", .dword (bucketSize m b)⟩]
      ++ smsReportContainer m (bucketType m b) (root + (bucketOffset m b).toNat)

/-- The report as it was meant. -/
def smsIntended (g : SmsGeom) (m : Mem) (root : Nat) : List ReportLine :=
  smsIntendedBase g m root
    ++ (List.range (statBucketNum m (baseStatisticalArea root)).toNat).flatMap
      (fun i => smsIntendedBucket m root (statBucket (baseStatisticalArea root) i))

/-- Where the reports on `m` look for the container of bucket `i`. -/
def smsLooksAt (m : Mem) (root i : Nat) : Nat :=
  smsReportedAt m root (statBucket (baseStatisticalArea root) i)

/-- The reports on `m` look for every container where `sms_init` placed it,
    inside the segment, and say what they are meant to say. -/
structure ReportFaithful (g : SmsGeom) (root : Nat) (start m : Mem) : Prop where
  placed : ∀ i, i < g.cfgs.length → smsLooksAt m root i = root + smsOffset start root i
  inside : ∀ i, i < g.cfgs.length → root ≤ smsLooksAt m root i ∧
    (smsLooksAt m root i + 16 : Int) ≤ root + (smsCalcSize g.cfgs g.cfgCount).toInt
  summary : smsSummary m (some root) = (cmnOk, smsIntended g m root)
  info : smsInfo m (some root) true = (cmnOk, smsIntended g m root)

/-- The reports on `m` look for no container where it is, and neither says
    what it is meant to say. -/
structure ReportAstray (g : SmsGeom) (root : Nat) (start m : Mem) : Prop where
  misplaced : ∀ i, i < g.cfgs.length → smsLooksAt m root i ≠ root + smsOffset start root i
  summary : (smsSummary m (some root)).2 ≠ smsIntended g m root
  info : (smsInfo m (some root) true).2 ≠ smsIntended g m root

theorem reportAstray_not_faithful (g : SmsGeom) (root : Nat) (start m : Mem)
    (h : ReportAstray g root start m) : ¬ ReportFaithful g root start m :=
  fun hf => h.summary (congrArg Prod.snd hf.summary)

/-- An offset that is not zero is scaled to another address. -/
theorem smsReportedAt_astray (m : Mem) (root b : Nat) (hpos : 0 < (bucketOffset m b).toNat) :
    smsReportedAt m root b ≠ root + (bucketOffset m b).toNat := by
  unfold smsReportedAt sizeofBase
  omega

/-- A report that finds no total size is not the one that was meant. -/
theorem smsReport_ne_intended (g : SmsGeom) (m : Mem) (root : Nat)
    (htotal : baseTotalSize m root = 0) : smsReport m root ≠ smsIntended g m root := by
  intro heq
  -- The fourth line has the total size.
  have hline := congrArg (fun lines => lines[3]?) heq
  simp only [smsReport, smsReportBase, smsIntended, smsIntendedBase, List.cons_append,
    List.getElem?_cons_succ, List.getElem?_cons_zero, Option.some.injEq, ReportLine.mk.injEq,
    true_and, ReportArg.dword.injEq, htotal] at hline
  have hcalc := smsCalcSize_toInt g
  have hzero : (smsCalcSize g.cfgs g.cfgCount).toUInt64.toInt64.toInt = 0 := by
    rw [← hline]
    rfl
  rw [Int64.toInt64_toUInt64, hcalc] at hzero
  omega

/-- A report on any memory whose tables are those of a segment just
    initialised. -/
theorem smsReport_astray (g : SmsGeom) (root : Nat) (start m : Mem) (htable : SmsTable g root start)
    (hsame : SameOn root (root + 896) start m) : ReportAstray g root start m := by
  have hcount := g.count
  unfold smsMaxBucketNum at hcount
  have htotal : baseTotalSize m root = 0 := by
    rw [← htable.totalSize]
    exact load64_sameOn _ _ _ _ _ hsame (by omega) (by omega)
  have hreport := smsReport_ne_intended g m root htotal
  refine ⟨fun i hi => ?_, hreport, hreport⟩
  -- The table of buckets is in the part that has not changed.
  have hoffset : bucketOffset m (statBucket (baseStatisticalArea root) i)
      = bucketOffset start (statBucket (baseStatisticalArea root) i) := by
    refine load64_sameOn _ _ _ _ _ hsame ?_ ?_
    all_goals rw [statBucket_eq]
    all_goals omega
  have hpos : 0 < (bucketOffset m (statBucket (baseStatisticalArea root) i)).toNat := by
    rw [hoffset, (htable.buckets i hi).offset]
    omega
  have hastray := smsReportedAt_astray m root _ hpos
  rwa [hoffset] at hastray

/-- No report is faithful: not while the two structures are as `sms_init` left
    them, so in particular not after any run of operations on the buckets. -/
theorem sms_reports_astray (g : SmsGeom) (root : Nat) (m₀ start : Mem) (pid : Int32)
    (date : UInt64)
    (hstart : smsInit m₀ root (some g.cfgs) g.cfgCount pid date = (cmnOk, start)) :
    (∀ m, SameOn root (root + (baseDataOffset start root).toNat) start m →
      ReportAstray g root start m ∧ ¬ ReportFaithful g root start m) ∧
      ∀ ops, (∀ c ∈ g.cfgs, c.Sized) →
        Machine.Along (smsStep root) (SmsAllowed g root) start ops →
        ReportAstray g root start (Machine.run (smsStep root) start ops).1 ∧
          ¬ ReportFaithful g root start (Machine.run (smsStep root) start ops).1 := by
  have htable := (smsInit_table m₀ g root pid date).1
  rw [hstart] at htable
  -- With the tables unchanged the report multiplies the offset by 120, whatever else is stored.
  have hall : ∀ m, SameOn root (root + 896) start m →
      ReportAstray g root start m ∧ ¬ ReportFaithful g root start m :=
    fun m hsame => ⟨smsReport_astray g root start m htable hsame,
      reportAstray_not_faithful g root start m (smsReport_astray g root start m htable hsame)⟩
  rw [htable.dataOffset]
  -- No operation on a bucket reaches the tables, so this is every run.
  refine ⟨hall, fun ops hsized hok => hall _ ?_⟩
  exact (smsRun_held g hsized root start ops (smsTable_held g hsized root start htable) hok).2

/-- A ring of one element of four bytes. -/
def oneRing : SmsGeom where
  cfgs := [⟨false, fun _ => 0, 2, 1, 4⟩]
  count := by decide
  fits := by decide

/-- The segment has 920 bytes and its ring is at offset 896, and the reports
    look for it at offset 107520. -/
theorem sms_report_one_ring :
    ∃ start, smsInit (fun _ => 0) 0 (some oneRing.cfgs) oneRing.cfgCount 1 2 = (cmnOk, start) ∧
      smsOffset start 0 0 = 896 ∧ smsLooksAt start 0 0 = 107520 ∧
      (smsCalcSize oneRing.cfgs oneRing.cfgCount).toInt = 920 ∧ baseTotalSize start 0 = 0 ∧
      ¬ ReportFaithful oneRing 0 start start := by
  -- The offset is 896 in the table; the report looks 107520 bytes on.
  have htable := (smsInit_table (fun _ => 0) oneRing 0 1 2).1
  rw [smsInit_eq] at htable ⊢
  have hoffset := (htable.buckets 0 (by decide)).offset
  refine ⟨_, rfl, hoffset, ?_, by decide, htable.totalSize, ?_⟩
  · unfold smsLooksAt smsReportedAt
    rw [hoffset]
    rfl
  · exact reportAstray_not_faithful _ _ _ _
      (smsReport_astray oneRing 0 _ _ htable (sameOn_refl _ _ _))

/-- Neither report on a segment in use is faithful. -/
theorem sms_report_in_turns :
    ∃ start, smsInit (fun _ => 9) 64 (some arrayAndRing.cfgs) arrayAndRing.cfgCount 1 2
        = (cmnOk, start) ∧
      ReportAstray arrayAndRing 64 start (Machine.run (smsStep 64) start inTurns).1 :=
  ⟨_, smsInit_eq (fun _ => 9) arrayAndRing 64 1 2,
    ((sms_reports_astray arrayAndRing 64 (fun _ => 9) _ 1 2
      (smsInit_eq (fun _ => 9) arrayAndRing 64 1 2)).2 inTurns (by decide)
      (inTurns_allowed 64 _)).1⟩

end Aircmn
