import Aircmn.Core.Array
import Aircmn.Core.Ring

/-!
# Shared-Memory Segment

The functions of `sms_bucket.c`, on the memory of a segment whose `struct base`
is at `root`. The sizes and offsets of the structures are those of a 64-bit
platform with 8-byte `time_t`, `size_t` and pointers and a mutex of 40 bytes:

* `struct base` takes 120 bytes: `pid` at 0, `name` at 4, `date` at 72,
  `total_size` at 80, `statistic_offset` at 88, `statistic_size` at 96,
  `data_offset` at 104, `data_size` at 112.
* `struct bucket` takes 80 bytes: `index` at 0, `type` at 4, `cap` at 8,
  `status` at 12, `offset` at 16, `size` at 24, then `sync_lock` and
  `data_area`.
* `struct base_config` takes 16 bytes: `is_lock` at 0, `type` at 4, `cap` at 8,
  `elem_size` at 12.
* `struct statistics` takes 776 bytes: `index` at 0, `bucket_num` at 4,
  `buckets` at 8, `cfgs` at 648.

The configurations are the caller's array, `cfg` being `none` for a null
pointer. What `getpid` and `time` return are arguments. A report is the list
of lines handed to `fprintf` or `log_notice`, each with its format and its
argument.

## Main definitions

* `sizeofBase`, `sizeofBucket`, `sizeofBaseConfig`, `sizeofStatistics`: Sizes.
* `alignBlockSize`: `ALIGN_BLOCK_SIZE`.
* `BaseConfig`: A configuration, and `BaseConfig.image` its bytes.
* `smsCalcDataSize`, `smsCalcSize`: The sizes asked for.
* `smsInitStatistics`, `smsInit`: Initialisation.
* `smsReportedAt`: Where a report looks for the header of a bucket.
* `smsSummary`, `smsInfo`: The reports.
-/

namespace Aircmn

open Bytes

/-- `SMS_MAX_BUCKET_NUM`. -/
def smsMaxBucketNum : Nat := 8

/-- `SMS_RECORD_TYPE_ARRAY`; a bucket of any other type is a ring. -/
def smsRecordTypeArray : Int32 := 1

/-- `sizeof(struct base)`. -/
def sizeofBase : Nat := 120

/-- `sizeof(struct bucket)`. -/
def sizeofBucket : Nat := 80

/-- `sizeof(struct base_config)`. -/
def sizeofBaseConfig : Nat := 16

/-- `sizeof(struct statistics)`. -/
def sizeofStatistics : Nat := 776

/-- `ALIGN_BLOCK_SIZE`, a macro used at several integer types. -/
def alignBlockSize {α : Type} [Add α] [Mod α] [OfNat α 8] (d : α) : α := d + d % 8

/-- `BASE_STATISTICAL_AREA`. -/
def baseStatisticalArea (main : Nat) : Nat := main + sizeofBase + sizeofBase % 8

/-- `BASE_DATA_AREA`. -/
def baseDataArea (main : Nat) : Nat :=
  main + sizeofBase + sizeofBase % 8 + sizeofStatistics + sizeofStatistics % 8

/-- `pid` of the base. -/
def basePid (m : Mem) (root : Nat) : Int32 := (load32 m root).toInt32

/-- The address of its `name`. -/
def baseName (root : Nat) : Nat := root + 4

/-- Its `date`. -/
def baseDate (m : Mem) (root : Nat) : UInt64 := load64 m (root + 72)

/-- Its `total_size`. -/
def baseTotalSize (m : Mem) (root : Nat) : UInt64 := load64 m (root + 80)

/-- Its `statistic_offset`. -/
def baseStatisticOffset (m : Mem) (root : Nat) : UInt64 := load64 m (root + 88)

/-- Its `data_offset`. -/
def baseDataOffset (m : Mem) (root : Nat) : UInt64 := load64 m (root + 104)

/-- Its `data_size`. -/
def baseDataSize (m : Mem) (root : Nat) : UInt64 := load64 m (root + 112)

/-- `index` of the statistics. -/
def statIndex (m : Mem) (stat : Nat) : UInt32 := load32 m stat

/-- Their `bucket_num`. -/
def statBucketNum (m : Mem) (stat : Nat) : UInt32 := load32 m (stat + 4)

/-- `&stat->buckets[i]`. -/
def statBucket (stat i : Nat) : Nat := stat + 8 + sizeofBucket * i

/-- `&stat->cfgs[i]`. -/
def statCfg (stat i : Nat) : Nat := stat + 648 + sizeofBaseConfig * i

/-- `index` of a bucket, from 1 on. -/
def bucketIndex (m : Mem) (b : Nat) : UInt32 := load32 m b

/-- Its `type`. -/
def bucketType (m : Mem) (b : Nat) : Int32 := (load32 m (b + 4)).toInt32

/-- Its `cap`. -/
def bucketCap (m : Mem) (b : Nat) : UInt32 := load32 m (b + 8)

/-- Its `status`: 1 once it has been set up. -/
def bucketStatus (m : Mem) (b : Nat) : UInt32 := load32 m (b + 12)

/-- Its `offset`, from the base on. -/
def bucketOffset (m : Mem) (b : Nat) : UInt64 := load64 m (b + 16)

/-- Its `size`, with what rounds it up. -/
def bucketSize (m : Mem) (b : Nat) : UInt64 := load64 m (b + 24)

/-- `struct base_config`. The padding is whatever the caller's three bytes
    after `is_lock` hold. -/
structure BaseConfig where
  isLock : Bool
  padding : Mem
  type : Int32
  cap : UInt32
  elemSize : UInt32

/-- The bytes of a configuration. -/
def BaseConfig.image (c : BaseConfig) : Mem :=
  let m := blit c.padding 0 1 (fun _ => if c.isLock then 1 else 0)
  let m := store32 m 4 c.type.toUInt32
  let m := store32 m 8 c.cap
  store32 m 12 c.elemSize

/-- The configurations a loop over `cfg_count` of them reads. -/
def cfgsCounted (cfg : List BaseConfig) (cfgCount : Int32) : List BaseConfig :=
  cfg.take cfgCount.toInt.toNat

/-- The loop of `sms_calc_data_size` and of `sms_calc_size`. -/
def smsCalcLoop : List BaseConfig → Int64 → Int64
  | [], total => total
  | c :: rest, total =>
    if c.type == smsRecordTypeArray then
      let offset := (arrayAllocSize c.cap c.elemSize.toInt32).toUInt64.toInt64
      smsCalcLoop rest (total + alignBlockSize offset)
    else
      let offset := (ringAllocSize c.cap c.elemSize.toInt32).toUInt64.toInt64
      smsCalcLoop rest (total + alignBlockSize offset)

/-- `sms_calc_data_size`. -/
def smsCalcDataSize (cfg : Option (List BaseConfig)) (cfgCount : Int32) : Int64 :=
  match cfg with
  | none => Int64.ofInt cmnParameter
  | some cfg => smsCalcLoop (cfgsCounted cfg cfgCount) 0

/-- `sms_calc_size`. -/
def smsCalcSize (cfg : List BaseConfig) (cfgCount : Int32) : Int64 :=
  let baseSize : Int64 := Int64.ofNat sizeofBase
  let total := 0 + alignBlockSize baseSize
  let staticSize : Int64 := Int64.ofNat sizeofStatistics
  let total := total + alignBlockSize staticSize
  smsCalcLoop (cfgsCounted cfg cfgCount) total

/-- The first four stores of a round of the loop of `sms_init_statistics`. -/
def smsBucketFields (m : Mem) (b i : Nat) (c : BaseConfig) : Mem :=
  let m := store32 m b (UInt32.ofNat (i + 1))
  let m := store32 m (b + 4) c.type.toUInt32
  let m := store32 m (b + 8) c.cap
  store32 m (b + 12) 1

/-- The size, the offset and the container of a bucket, whose block is at
    `block`. -/
def smsBucketBlock (m : Mem) (b block : Nat) (c : BaseConfig) (offset : UInt64) : Mem :=
  if c.type == smsRecordTypeArray then
    let allocSize := (arrayAllocSize c.cap c.elemSize.toInt32).toUInt64
    let m := store64 m (b + 24) (alignBlockSize allocSize)
    let m := store64 m (b + 16) offset
    arraySetup m block c.cap c.elemSize.toInt32
  else
    let allocSize := (ringAllocSize c.cap c.elemSize.toInt32).toUInt64
    let m := store64 m (b + 24) (alignBlockSize allocSize)
    let m := store64 m (b + 16) offset
    ringSetup m block c.cap c.elemSize.toInt32

/-- The loop of `sms_init_statistics`, from bucket `i` on. -/
def smsInitLoop (data stat : Nat) : List BaseConfig → Nat → UInt64 → UInt64 → Mem → Mem
  | [], _, _, _, m => m
  | c :: rest, i, offset, position, m =>
    let b := statBucket stat i
    let m := smsBucketFields m b i c
    let m := smsBucketBlock m b (data + position.toNat) c offset
    let size := bucketSize m b
    let m := memcpy m (statCfg stat i) c.image 0 sizeofBaseConfig
    smsInitLoop data stat rest (i + 1) (offset + size) (position + size) m

/-- `sms_init_statistics`, which sets up the containers too. -/
def smsInitStatistics (m : Mem) (root : Nat) (cfg : Option (List BaseConfig))
    (cfgCount : Int32) : Status × Mem :=
  match cfg with
  | none => (cmnParameter, m)
  | some cfg =>
    let data := baseDataArea root
    let stat := baseStatisticalArea root
    let m := memset m stat 0 sizeofStatistics
    let m := store32 m (stat + 4) cfgCount.toUInt32
    (cmnOk, smsInitLoop data stat (cfgsCounted cfg cfgCount) 0 (baseDataOffset m root) 0 m)

/-- The stores of `sms_init` to `struct base`. -/
def smsInitBase (m : Mem) (root : Nat) (cfg : Option (List BaseConfig)) (cfgCount : Int32)
    (pid : Int32) (date : UInt64) : Mem :=
  let m := memset m root 0 sizeofBase
  let m := store32 m root pid.toUInt32
  let m := store64 m (root + 72) date
  let baseSize : Int64 := Int64.ofNat sizeofBase
  let staticSize : Int64 := Int64.ofNat sizeofStatistics
  let m := store64 m (root + 88) (alignBlockSize baseSize).toUInt64
  let m := store64 m (root + 96) (alignBlockSize staticSize).toUInt64
  let m := store64 m (root + 112) (smsCalcDataSize cfg cfgCount).toUInt64
  store64 m (root + 104) (alignBlockSize baseSize + alignBlockSize staticSize).toUInt64

/-- `sms_init`. -/
def smsInit (m : Mem) (root : Nat) (cfg : Option (List BaseConfig)) (cfgCount : Int32)
    (pid : Int32) (date : UInt64) : Status × Mem :=
  smsInitStatistics (smsInitBase m root cfg cfgCount pid date) root cfg cfgCount

/-- The argument of a line of a report. -/
inductive ReportArg where
  | word (v : UInt32)
  | dword (v : UInt64)
  | chars (ptr : Nat)
  | text (s : String)
deriving DecidableEq

/-- A line of a report. -/
structure ReportLine where
  format : String
  arg : ReportArg
deriving DecidableEq

/-- `root + b->offset`, where `root` is a pointer to `struct base`. -/
def smsReportedAt (m : Mem) (root b : Nat) : Nat := root + sizeofBase * (bucketOffset m b).toNat

/-- What a report says of the container at `p`. -/
def smsReportContainer (m : Mem) (type : Int32) (p : Nat) : List ReportLine :=
  if type == smsRecordTypeArray then
    [⟨">>>>>> Bucket type [%s] :\n", .text "array"⟩,
      ⟨">>>>>>>> array nalloc [%d] :\n", .word (arrayNalloc m p)⟩,
      ⟨">>>>>>>> array nelem [%d] :\n", .word (arrayNelem m p)⟩,
      ⟨">>>>>>>> array size [%d] :\n", .word (arraySize m p).toUInt32⟩,
      ⟨">>>>>>>> array status [%d] :\n", .word (arrayStatus m p).toUInt32⟩]
  else
    [⟨">>>>>> Bucket type [%s] :\n", .text "ring"⟩,
      ⟨">>>>>>>> ring nalloc [%d] :\n", .word (ringCap m p)⟩,
      ⟨">>>>>>>> ring elem_size [%d] :\n", .word (ringElemSize m p).toUInt32⟩,
      ⟨">>>>>>>> ring rpos [%d] :\n", .word (ringRpos m p)⟩,
      ⟨">>>>>>>> ring wpos [%d] :\n", .word (ringWpos m p)⟩]

/-- What a report says of a bucket, if it has been set up. -/
def smsReportBucket (m : Mem) (root b : Nat) : List ReportLine :=
  if bucketStatus m b == 0 then []
  else
    [⟨">>>>>> Bucket index [%d] :\n", .word (bucketIndex m b)⟩,
      ⟨">>>>>> Bucket cap [%d] :\n", .word (bucketCap m b)⟩,
      ⟨">>>>>> Bucket offset [%ld] :\n", .dword (bucketOffset m b)⟩,
      ⟨">>>>>> Bucket size [%ld] :\n", .dword (bucketSize m b)⟩]
      ++ smsReportContainer m (bucketType m b) (smsReportedAt m root b)

/-- What a report says first. -/
def smsReportBase (m : Mem) (root : Nat) : List ReportLine :=
  [⟨">> Base pid [%d] :\n", .word (basePid m root).toUInt32⟩,
    ⟨">> Base name [%s] :\n", .chars (baseName root)⟩,
    ⟨">> Base date [%ld] :\n", .dword (baseDate m root)⟩,
    ⟨">> Base total_size [%ld] :\n", .dword (baseTotalSize m root)⟩,
    ⟨">>>> Statistics index [%d] :\n", .word (statIndex m (baseStatisticalArea root))⟩,
    ⟨">>>> Statistics bucket_num [%d] :\n", .word (statBucketNum m (baseStatisticalArea root))⟩]

/-- The lines both reports consist of. -/
def smsReport (m : Mem) (root : Nat) : List ReportLine :=
  let stat := baseStatisticalArea root
  smsReportBase m root
    ++ (List.range (statBucketNum m stat).toNat).flatMap
      (fun i => smsReportBucket m root (statBucket stat i))

/-- `sms_summary`, the lines going to its stream. -/
def smsSummary (m : Mem) (root : Option Nat) : Status × List ReportLine :=
  match root with
  | none => (cmnParameter, [])
  | some root => (cmnOk, smsReport m root)

/-- `sms_info`, the lines going to the log when `LOG_NOTICE` is loggable. -/
def smsInfo (m : Mem) (root : Option Nat) (loggable : Bool) : Status × List ReportLine :=
  match root with
  | none => (cmnParameter, [])
  | some root => (cmnOk, if loggable then smsReport m root else [])

end Aircmn
