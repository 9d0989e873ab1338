import Aircmn.Core.Metric
import Mathlib.Logic.Function.Basic

/-!
# Process Metrics

The functions of `mon_proc.c`. Every `struct proc_metrics` has the metrics
that `PROC_METRIC` of `mon_proc.h` declares, with the types it declares, and
an update keeps the types. The structures are at addresses, and the program
has as many of them as it likes.

A call comes with what it reads: the clock, and for an update the pid and what
`getrusage` answers. A clock that is read later does not show less. What is
logged is left out, and with it all that `is_proc_init` decides.

## Main definitions

* `ProcField`, `procMetricType`, `procMetricName`, `procMetricDesc`:
  `PROC_METRIC`.
* `ProcMetrics`, `procMetricsInit`: `struct proc_metrics`.
* `RUsage`, `ProcObs`: What an update reads.
* `procUpdates`, `procUpdate`: The sequence of `UPDATE_VAL`s.
* `ProcWorld`, `procinfoCreate`, `procinfoDestroy`, `procinfoUpdate`,
  `procinfoUpdateMetrics`: The functions.
* `ProcAct`, `procAct`: Calls of a program.

## Theorems

* `metricUpdateVal_type`: An update keeps the type.
-/

namespace Aircmn

open CString

/-- The metrics that `PROC_METRIC` declares. -/
inductive ProcField where
  | pid
  | time
  | uptime
  | ruStime
  | ruUtime
  | ruMaxrss
  | ruIxrss
  | ruIdrss
  | ruIsrss
  | ruMinflt
  | ruMajflt
  | ruNswap
  | ruInblock
  | ruOublock
  | ruMsgsnd
  | ruMsgrcv
  | ruNsignals
  | ruNvcsw
  | ruNivcsw
deriving DecidableEq

/-- The type of a field in `PROC_METRIC`. -/
def procMetricType : ProcField → MetricType
  | .pid => .gauge
  | .time => .counter
  | .uptime => .counter
  | .ruStime => .fpn
  | .ruUtime => .fpn
  | .ruMaxrss => .gauge
  | .ruIxrss => .gauge
  | .ruIdrss => .gauge
  | .ruIsrss => .gauge
  | .ruMinflt => .counter
  | .ruMajflt => .counter
  | .ruNswap => .counter
  | .ruInblock => .counter
  | .ruOublock => .counter
  | .ruMsgsnd => .counter
  | .ruMsgrcv => .counter
  | .ruNsignals => .counter
  | .ruNvcsw => .counter
  | .ruNivcsw => .counter

/-- Its name. -/
def procMetricName : ProcField → String
  | .pid => "pid"
  | .time => "time"
  | .uptime => "uptime"
  | .ruStime => "ru_stime"
  | .ruUtime => "ru_utime"
  | .ruMaxrss => "ru_maxrss"
  | .ruIxrss => "ru_ixrss"
  | .ruIdrss => "ru_idrss"
  | .ruIsrss => "ru_isrss"
  | .ruMinflt => "ru_minflt"
  | .ruMajflt => "ru_majflt"
  | .ruNswap => "ru_nswap"
  | .ruInblock => "ru_inblock"
  | .ruOublock => "ru_oublock"
  | .ruMsgsnd => "ru_msgsnd"
  | .ruMsgrcv => "ru_msgrcv"
  | .ruNsignals => "ru_nsignals"
  | .ruNvcsw => "ru_nvcsw"
  | .ruNivcsw => "ru_nivcsw"

/-- Its description. -/
def procMetricDesc : ProcField → String
  | .pid => "pid of current process"
  | .time => "unix time in seconds"
  | .uptime => "process uptime in seconds"
  | .ruStime => "system CPU time"
  | .ruUtime => "user CPU time"
  | .ruMaxrss => "max RSS size"
  | .ruIxrss => "text memory size"
  | .ruIdrss => "data memory size"
  | .ruIsrss => "stack memory size"
  | .ruMinflt => "pagefalut w/o I/O"
  | .ruMajflt => "pagefalut w/ I/O"
  | .ruNswap => "# times swapped"
  | .ruInblock => "real FS input"
  | .ruOublock => "real FS output"
  | .ruMsgsnd => "# IPC messages sent"
  | .ruMsgrcv => "# IPC messages received"
  | .ruNsignals => "# signals delivered"
  | .ruNvcsw => "# voluntary CS"
  | .ruNivcsw => "# involuntary CS"

/-- `struct proc_metrics`, with the types that are declared. -/
structure ProcMetrics where
  metric : ProcField → Metric
  declared : ∀ f, (metric f).type = procMetricType f

/-- The structure as `METRIC_INIT` makes it. -/
def procMetricsInit : ProcMetrics where
  metric f := ⟨Str.ofBytes (procMetricName f).toUTF8.toList,
    Str.ofBytes (procMetricDesc f).toUTF8.toList, procMetricType f, 0⟩
  declared _ := rfl

theorem metricUpdateVal_type (m : Metric) (v : MetricVal) :
    (metricUpdateVal m v).type = m.type := by
  unfold metricUpdateVal
  split
  all_goals rfl

/-- `UPDATE_VAL`, the base not being a null pointer. -/
def ProcMetrics.updateVal (p : ProcMetrics) (f : ProcField) (v : MetricVal) : ProcMetrics where
  metric := Function.update p.metric f (metricUpdateVal (p.metric f) v)
  declared g := by
    by_cases hg : g = f
    · rw [hg, Function.update_self, metricUpdateVal_type]
      exact p.declared f
    · rw [Function.update_of_ne hg]
      exact p.declared g

/-- `struct rusage`. -/
structure RUsage where
  utimeSec : Int64
  utimeUsec : Int64
  stimeSec : Int64
  stimeUsec : Int64
  maxrss : Int64
  ixrss : Int64
  idrss : Int64
  isrss : Int64
  minflt : Int64
  majflt : Int64
  nswap : Int64
  inblock : Int64
  oublock : Int64
  msgsnd : Int64
  msgrcv : Int64
  nsignals : Int64
  nvcsw : Int64
  nivcsw : Int64

/-- What an update reads. -/
structure ProcObs where
  pid : Int32
  nowtime : Int64
  usage : RUsage

/-- `sec + usec * TIME_USEC`. -/
def cpuSeconds (sec usec : Int64) : MetricVal :=
  .double (Float.ofInt sec.toInt + Float.ofInt usec.toInt * 0.000001).toBits

/-- The updates in their order, `uptime` being `g_proc_uptime`. -/
def procUpdates (o : ProcObs) (uptime : Int64) : List (ProcField × MetricVal) :=
  [(.pid, .int o.pid.toInt64),
    (.time, .int (o.nowtime - uptime)),
    (.uptime, .int o.nowtime),
    (.ruUtime, cpuSeconds o.usage.utimeSec o.usage.utimeUsec),
    (.ruStime, cpuSeconds o.usage.stimeSec o.usage.stimeUsec),
    (.ruMaxrss, .int o.usage.maxrss),
    (.ruIxrss, .int o.usage.ixrss),
    (.ruIdrss, .int o.usage.idrss),
    (.ruIsrss, .int o.usage.isrss),
    (.ruMinflt, .int o.usage.minflt),
    (.ruMajflt, .int o.usage.majflt),
    (.ruNswap, .int o.usage.nswap),
    (.ruInblock, .int o.usage.inblock),
    (.ruOublock, .int o.usage.oublock),
    (.ruMsgsnd, .int o.usage.msgsnd),
    (.ruMsgrcv, .int o.usage.msgrcv),
    (.ruNsignals, .int o.usage.nsignals),
    (.ruNvcsw, .int o.usage.nvcsw),
    (.ruNivcsw, .int o.usage.nivcsw)]

/-- All the updates, in order. -/
def procUpdate (p : ProcMetrics) (o : ProcObs) (uptime : Int64) : ProcMetrics :=
  (procUpdates o uptime).foldl (fun p u => p.updateVal u.1 u.2) p

/-- The static variables of `mon_proc.c`, the structures of the program, and
    what the clock has shown last. -/
structure ProcWorld where
  isProcInit : Bool
  gProcUptime : Int64
  gProcMetrics : Option Nat
  store : Nat → ProcMetrics
  clock : Int64

/-- `procinfo_create` at time `now`. -/
def procinfoCreate (w : ProcWorld) (metrics : Option Nat) (now : Int64) : ProcWorld :=
  { w with gProcMetrics := metrics, isProcInit := true, gProcUptime := now }

/-- `procinfo_destroy`. -/
def procinfoDestroy (w : ProcWorld) : ProcWorld :=
  { w with gProcMetrics := none, isProcInit := false, gProcUptime := 0 }

/-- The text that the two updates share. -/
def procUpdateAt (w : ProcWorld) (base : Option Nat) (o : ProcObs) : ProcWorld :=
  match base with
  | none => w
  | some a => { w with store := Function.update w.store a (procUpdate (w.store a) o w.gProcUptime) }

/-- `procinfo_update`, of the metrics given to `procinfo_create`. -/
def procinfoUpdate (w : ProcWorld) (o : ProcObs) : ProcWorld := procUpdateAt w w.gProcMetrics o

/-- `procinfo_update_metrics`, of those that are given. -/
def procinfoUpdateMetrics (w : ProcWorld) (m : Option Nat) (o : ProcObs) : ProcWorld :=
  procUpdateAt w m o

/-- A call, with what it reads. -/
inductive ProcAct where
  | create (metrics : Option Nat) (now : Int64)
  | destroy
  | update (o : ProcObs)
  | updateMetrics (m : Option Nat) (o : ProcObs)

/-- One call, unless the clock would have gone back. -/
def procAct (w : ProcWorld) : ProcAct → Option ProcWorld
  | .create metrics now =>
    if w.clock ≤ now then some (procinfoCreate { w with clock := now } metrics now) else none
  | .destroy => some (procinfoDestroy w)
  | .update o =>
    if w.clock ≤ o.nowtime then some (procinfoUpdate { w with clock := o.nowtime } o) else none
  | .updateMetrics m o =>
    if w.clock ≤ o.nowtime then some (procinfoUpdateMetrics { w with clock := o.nowtime } m o)
    else none

/-- Program start. -/
def procWorld (store : Nat → ProcMetrics) (clock : Int64) : ProcWorld :=
  ⟨false, 0, none, store, clock⟩

end Aircmn
