import Aircmn.Core.Text
import Aircmn.Lib.Format

/-!
# Metrics

`struct metric` of `cmn_metric.h`, the macros that update one and count in it,
and `metric_reset` and `metric_print` of `cmn_metric.c`. The value is a union of
a `uint64_t`, an `int64_t` and a `double`, kept here as its 64 bits; the type of
the metric says how they are read.

`metric_print` prints the value into a buffer of its own and passes that, as a
string, to a format of the caller with two conversions.

## Main definitions

* `MetricType`, `Metric`: `struct metric`.
* `MetricVal`, `metricUpdateVal`: `metric_update_val`.
* `metricIncrN`, `metricDecrN`: The macros that count.
* `metricReset`: `metric_reset`.
* `doubleText`, `Metric.valueText`: A value printed.
* `metricPrint`: `metric_print`.
-/

namespace Aircmn

open Bytes CString Format

/-- `enum metric_type`. -/
inductive MetricType where
  | counter
  | gauge
  | fpn
deriving DecidableEq

/-- `struct metric`, with the bits of its union. -/
structure Metric where
  name : Str
  desc : Str
  type : MetricType
  bits : UInt64

/-- A value of an integer type, or the bits of a `double`. -/
inductive MetricVal where
  | int (x : Int64)
  | double (bits : UInt64)

/-- `metric_update_val`. -/
def metricUpdateVal (m : Metric) (v : MetricVal) : Metric :=
  match m.type, v with
  | .counter, .int x => { m with bits := x.toUInt64 }
  | .counter, .double d => { m with bits := (Float.ofBits d).toUInt64 }
  | .gauge, .int x => { m with bits := x.toUInt64 }
  | .gauge, .double d => { m with bits := (Float.ofBits d).toInt64.toUInt64 }
  | .fpn, .int x => { m with bits := (Float.ofInt x.toInt).toBits }
  | .fpn, .double d => { m with bits := d }

/-- `metric_incr_n`, which does nothing to a floating-point metric. -/
def metricIncrN (m : Metric) (delta : UInt64) : Metric :=
  match m.type with
  | .counter => { m with bits := m.bits + delta }
  | .gauge => { m with bits := m.bits + delta }
  | .fpn => m

/-- `metric_decr_n`, for gauges only. -/
def metricDecrN (m : Metric) (delta : UInt64) : Metric :=
  match m.type with
  | .gauge => { m with bits := m.bits - delta }
  | _ => m

/-- The body of the loop of `metric_reset`. The bits of `0.0` are zero too. -/
def metricZero (m : Metric) : Metric :=
  match m.type with
  | .counter => { m with bits := 0 }
  | .gauge => { m with bits := 0 }
  | .fpn => { m with bits := 0 }

/-- `metric_reset` of the metrics at `sarr`. -/
def metricReset (sarr : Option (List Metric)) (n : UInt32) : Option (List Metric) :=
  match sarr with
  | none => none
  | some ms => if n = 0 then some ms
    else some ((ms.take n.toNat).map metricZero ++ ms.drop n.toNat)

/-- `VALUE_PRINT_LEN`. -/
def valuePrintLen : UInt64 := 30

/-- The last six digits of a number. -/
def sixDigits (n : Nat) : List UInt8 :=
  let ds := decimal (n % 10 ^ 6)
  List.replicate (6 - ds.length) 48 ++ ds

/-- `"%f"`, of a `double` with the given bits. -/
def doubleText (bits : UInt64) : List UInt8 :=
  let exponent := (bits >>> 52 &&& 2047).toNat
  let fraction := bits.toNat % 2 ^ 52
  let sign := if bits >>> 63 = 1 then [45] else []
  if exponent = 2047 then sign ++ if fraction = 0 then [105, 110, 102] else [110, 97, 110]
  else
    -- The value is this multiple of `2 ^ (exponent - 1075)`.
    let significand := if exponent = 0 then 2 * fraction else 2 ^ 52 + fraction
    let scaled := significand * 2 ^ exponent * 10 ^ 6
    -- Millionths, rounded half to even.
    let down := scaled / 2 ^ 1075
    let left := 2 * (scaled % 2 ^ 1075)
    let millionths :=
      if 2 ^ 1075 < left ∨ (left = 2 ^ 1075 ∧ down % 2 = 1) then down + 1 else down
    sign ++ decimal (millionths / 10 ^ 6) ++ [46] ++ sixDigits millionths

/-- The value of a metric, with `"%llu"`, `"%lld"` or `"%f"`. -/
def Metric.valueText (m : Metric) : List UInt8 :=
  match m.type with
  | .counter => decimal m.bits.toNat
  | .gauge => decimalInt m.bits.toInt64.toInt
  | .fpn => doubleText m.bits

/-- What `val_buf` holds, as a string. -/
def Metric.valBuf (m : Metric) : Str :=
  Str.ofBytes (slice (vscnprintf (fun _ => 0) 0 valuePrintLen m.valueText).2 0 valuePrintLen.toNat)

/-- `metric_print`. A null pointer is `none`. -/
def metricPrint (mem : Mem) (buf : Option Nat) (nbuf : UInt64) (fmt : StrFormat 2)
    (m : Option Metric) : UInt64 × Mem :=
  match m, buf with
  | some m, some buf =>
    let r := vscnprintf mem buf nbuf (fmt.text [m.name, m.valBuf])
    (.ofInt r.1, r.2)
  | _, _ => (0, mem)

end Aircmn
