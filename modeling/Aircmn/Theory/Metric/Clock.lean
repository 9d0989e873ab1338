import Aircmn.Core.Proc
import Aircmn.Lib.Monitor

/-!
# Clock Metrics of a Process

`PROC_METRIC` declares `time` as the unix time and `uptime` as the time since
process info was set up. Both updates compute the two numbers and store each
in the metric of the other. The two updates agree with each other, and the
start time they share is kept in step with the last `procinfo_create` over
every run, so what is wrong is the two metrics alone: they are right only where
the numbers are equal, after a `procinfo_create` at time zero.

What has been set up is known from the calls alone: the last `procinfo_create`
and its time, unless a `procinfo_destroy` has come after it. A ghost follows it
along a run, and the static variables are compared with the ghost.

## Main definitions

* `ProcSetUp`, `procSetUp`: What has been set up, and when.
* `ClockRight`: The two metrics after an update.
* `ProcRight`: What a call should do.
* `ProcPermits`: When it does.
* `ProcFollows`: The static variables and what has been set up.

## Theorems

* `procUpdate_metric`: Every metric is updated once.
* `procAct_follows`: A call keeps the variables in step.
* `procAct_same`: The two updates agree.
* `procAct_right_iff`: When a call does what it should.
* `proc_clock_right_iff`: The condition is exact for runs.
* `proc_clock_swapped`: A run in which the metrics are wrong.
-/

namespace Aircmn

open Machine

/-- The argument of the last `procinfo_create`, and its time. -/
structure ProcSetUp where
  metrics : Option Nat
  start : Int64
deriving DecidableEq

/-- What is set up after a call. -/
def procSetUp (q : Option ProcSetUp) : ProcAct → Option ProcSetUp
  | .create metrics now => some ⟨metrics, now⟩
  | .destroy => none
  | .update _ => q
  | .updateMetrics _ _ => q

/-- Calls, and what has been set up. -/
def procWatched : ProcWorld × Option ProcSetUp → ProcAct → Option (ProcWorld × Option ProcSetUp) :=
  withGhost procAct (fun _ q act => procSetUp q act)

/-- `time` holds the time, and `uptime` what has passed since the start. -/
def ClockRight (p : ProcMetrics) (now start : Int64) : Prop :=
  (p.metric .time).bits = now.toUInt64 ∧ (p.metric .uptime).bits = (now - start).toUInt64

/-- The two clock metrics are equal. -/
def ClockSame (p p' : ProcMetrics) : Prop :=
  (p.metric .time).bits = (p'.metric .time).bits ∧
    (p.metric .uptime).bits = (p'.metric .uptime).bits

/-- An update made while process info is set up leaves the metrics it writes
    right, and `procinfo_update_metrics` writes what `procinfo_update` would
    write into the registered metrics. -/
def ProcRight (s : ProcWorld × Option ProcSetUp) (act : ProcAct) : Prop :=
  ∀ w, procAct s.1 act = some w →
    match act with
    | .create _ _ => True
    | .destroy => True
    | .update o => ∀ set a, s.2 = some set → set.metrics = some a →
        ClockRight (w.store a) o.nowtime set.start
    | .updateMetrics m o => ∀ set a, s.2 = some set → m = some a →
        ClockRight (w.store a) o.nowtime set.start ∧
          ∀ r w', set.metrics = some r → procAct s.1 (.update o) = some w' →
            ClockSame (w.store a) (w'.store r)

/-- An update that writes metrics comes after a `procinfo_create` at time
    zero. -/
def ProcPermits (q : Option ProcSetUp) : ProcAct → Prop
  | .create _ _ => True
  | .destroy => True
  | .update _ => ∀ set a, q = some set → set.metrics = some a → set.start = 0
  | .updateMetrics m _ => ∀ set a, q = some set → m = some a → set.start = 0

/-- The ghost is what has been set up, and so are the static variables. -/
structure ProcFollows (s : ProcWorld × Option ProcSetUp) (q : Option ProcSetUp) : Prop where
  ghost : s.2 = q
  init : s.1.isProcInit = q.isSome
  start : ∀ set, q = some set → s.1.gProcUptime = set.start ∧ s.1.gProcMetrics = set.metrics
  none : q = none → s.1.gProcUptime = 0 ∧ s.1.gProcMetrics = Option.none

theorem metricUpdateVal_counter (m : Metric) (x : Int64) (h : m.type = .counter) :
    (metricUpdateVal m (.int x)).bits = x.toUInt64 := by
  unfold metricUpdateVal
  rw [h]

/-- An update leaves the other metrics alone. -/
theorem foldl_updateVal_other (f : ProcField) : ∀ (us : List (ProcField × MetricVal))
    (p : ProcMetrics), f ∉ us.map Prod.fst →
      (us.foldl (fun p u => p.updateVal u.1 u.2) p).metric f = p.metric f := by
  intro us
  induction us with
  | nil =>
      intro p _
      rfl
  | cons u us ih =>
      intro p hf
      rw [List.map_cons, List.mem_cons, not_or] at hf
      rw [List.foldl_cons, ih _ hf.2]
      exact Function.update_of_ne hf.1 _ _

theorem foldl_updateVal_metric (f : ProcField) (v : MetricVal) :
    ∀ (us : List (ProcField × MetricVal)) (p : ProcMetrics), (us.map Prod.fst).Nodup →
      (f, v) ∈ us →
      (us.foldl (fun p u => p.updateVal u.1 u.2) p).metric f = metricUpdateVal (p.metric f) v := by
  intro us
  -- Each metric is updated at most once, and an update of another one leaves it alone.
  induction us with
  | nil =>
      intro p _ h
      exact absurd h List.not_mem_nil
  | cons u us ih =>
      intro p hnodup h
      rw [List.map_cons, List.nodup_cons] at hnodup
      rw [List.foldl_cons]
      rcases List.mem_cons.mp h with hfirst | hrest
      · -- No later update is of the same metric.
        rw [← hfirst] at hnodup ⊢
        rw [foldl_updateVal_other f us _ hnodup.1]
        exact Function.update_self f _ _
      -- The update of f comes later, so the first one is of another metric.
      · have hne : f ≠ u.1 := fun hf => hnodup.1 (hf ▸ List.mem_map_of_mem hrest)
        rw [ih _ hnodup.2 hrest]
        exact congrArg (metricUpdateVal · v) (Function.update_of_ne hne _ _)

/-- Every metric is updated once. -/
theorem procUpdate_metric (p : ProcMetrics) (o : ProcObs) (uptime : Int64) (f : ProcField)
    (v : MetricVal) (h : (f, v) ∈ procUpdates o uptime) :
    (procUpdate p o uptime).metric f = metricUpdateVal (p.metric f) v := by
  have hnodup : ((procUpdates o uptime).map Prod.fst).Nodup := by
    rw [procUpdates]
    simp only [List.map_cons, List.map_nil]
    decide
  exact foldl_updateVal_metric f v _ p hnodup h

/-- The two numbers are in each other's metric. -/
theorem procUpdate_clock (p : ProcMetrics) (o : ProcObs) (uptime : Int64) :
    ((procUpdate p o uptime).metric .time).bits = (o.nowtime - uptime).toUInt64 ∧
      ((procUpdate p o uptime).metric .uptime).bits = o.nowtime.toUInt64 := by
  have htime := procUpdate_metric p o uptime .time (.int (o.nowtime - uptime))
    (List.mem_cons_of_mem _ List.mem_cons_self)
  have huptime := procUpdate_metric p o uptime .uptime (.int o.nowtime)
    (List.mem_cons_of_mem _ (List.mem_cons_of_mem _ List.mem_cons_self))
  rw [htime, huptime]
  exact ⟨metricUpdateVal_counter _ _ (p.declared .time),
    metricUpdateVal_counter _ _ (p.declared .uptime)⟩

theorem clockRight_iff (p : ProcMetrics) (o : ProcObs) (start : Int64) :
    ClockRight (procUpdate p o start) o.nowtime start ↔ start = 0 := by
  rcases procUpdate_clock p o start with ⟨htime, huptime⟩
  rw [ClockRight, htime, huptime]
  constructor
  · rintro ⟨hsame, _⟩
    have hwords : o.nowtime - start = o.nowtime := congrArg UInt64.toInt64 hsame
    exact Int64.left_eq_add.mp (Int64.sub_eq_iff_eq_add.mp hwords)
  · intro hzero
    rw [hzero, Int64.sub_zero]
    exact ⟨rfl, rfl⟩

/-- What an update through `base` leaves there. -/
theorem procUpdateAt_store (w : ProcWorld) (a : Nat) (o : ProcObs) :
    (procUpdateAt w (some a) o).store a = procUpdate (w.store a) o w.gProcUptime :=
  Function.update_self a _ _

/-- An update leaves the static variables alone. -/
theorem procUpdateAt_statics (w : ProcWorld) (base : Option Nat) (o : ProcObs) :
    (procUpdateAt w base o).isProcInit = w.isProcInit ∧
      (procUpdateAt w base o).gProcUptime = w.gProcUptime ∧
      (procUpdateAt w base o).gProcMetrics = w.gProcMetrics := by
  cases base with
  | none => exact ⟨rfl, rfl, rfl⟩
  | some a => exact ⟨rfl, rfl, rfl⟩

/-- Both updates write through a pointer, with the shared start time. -/
theorem procAct_update (w w' : ProcWorld) (o : ProcObs)
    (h : procAct w (.update o) = some w') :
    w' = procUpdateAt { w with clock := o.nowtime } w.gProcMetrics o := by
  rw [procAct, Option.ite_none_right_eq_some] at h
  exact (Option.some.inj h.2).symm

theorem procAct_updateMetrics (w w' : ProcWorld) (m : Option Nat) (o : ProcObs)
    (h : procAct w (.updateMetrics m o) = some w') :
    w' = procUpdateAt { w with clock := o.nowtime } m o := by
  rw [procAct, Option.ite_none_right_eq_some] at h
  exact (Option.some.inj h.2).symm

/-- A call keeps the variables in step with what has been set up. -/
theorem procAct_follows (s s' : ProcWorld × Option ProcSetUp) (q : Option ProcSetUp)
    (act : ProcAct) (h : ProcFollows s q) (hstep : procWatched s act = some s') :
    ProcFollows s' (procSetUp q act) := by
  rcases (withGhost_eq_some _ _ _ _ act).mp hstep with ⟨hact, hghost⟩
  rw [h.ghost] at hghost
  -- An update stores into metrics and changes nothing that is followed.
  have hkeeps : ∀ base o, s'.1 = procUpdateAt { s.1 with clock := o.nowtime } base o →
      s'.2 = q → ProcFollows s' q := by
    intro base o hs' hq
    rcases procUpdateAt_statics { s.1 with clock := o.nowtime } base o with ⟨hinit, hstart, hmet⟩
    refine ⟨hq, ?_, fun set hset => ?_, fun hnone => ?_⟩
    · rw [hs', hinit]
      exact h.init
    · rw [hs', hstart, hmet]
      exact h.start set hset
    · rw [hs', hstart, hmet]
      exact h.none hnone
  cases act with
  | create metrics now =>
      rw [procAct, Option.ite_none_right_eq_some] at hact
      have hs' := Option.some.inj hact.2
      refine ⟨hghost, ?_, fun set hset => ?_, fun hnone => ?_⟩
      · rw [← hs']
        rfl
      · rw [← hs', ← Option.some.inj hset]
        exact ⟨rfl, rfl⟩
      · cases hnone
  | destroy =>
      rw [procAct, Option.some.injEq] at hact
      refine ⟨hghost, ?_, fun set hset => ?_, fun _ => ?_⟩
      · rw [← hact]
        rfl
      · cases hset
      · rw [← hact]
        exact ⟨rfl, rfl⟩
  | update o => exact hkeeps s.1.gProcMetrics o (procAct_update s.1 s'.1 o hact) hghost
  | updateMetrics m o => exact hkeeps m o (procAct_updateMetrics s.1 s'.1 m o hact) hghost

/-- What the two updates leave where they write. -/
theorem procAct_writes (s : ProcWorld × Option ProcSetUp) (set : ProcSetUp) (o : ProcObs)
    (h : ProcFollows s (some set)) :
    (∀ a w, set.metrics = some a → procAct s.1 (.update o) = some w →
      ∃ p, w.store a = procUpdate p o set.start) ∧
    (∀ a w, procAct s.1 (.updateMetrics (some a) o) = some w →
      ∃ p, w.store a = procUpdate p o set.start) := by
  rcases h.start set rfl with ⟨hstart, hmet⟩
  refine ⟨fun a w ha hw => ⟨s.1.store a, ?_⟩, fun a w hw => ⟨s.1.store a, ?_⟩⟩
  · rw [procAct_update s.1 w o hw, hmet, ha, procUpdateAt_store, hstart]
  · rw [procAct_updateMetrics s.1 w (some a) o hw, procUpdateAt_store, hstart]

/-- What an update leaves is right only after a start at zero, whichever update
    it is. -/
theorem procAct_clock (s : ProcWorld × Option ProcSetUp) (set : ProcSetUp) (o : ProcObs)
    (h : ProcFollows s (some set)) :
    (∀ a w, set.metrics = some a → procAct s.1 (.update o) = some w →
      (ClockRight (w.store a) o.nowtime set.start ↔ set.start = 0)) ∧
    (∀ a w, procAct s.1 (.updateMetrics (some a) o) = some w →
      (ClockRight (w.store a) o.nowtime set.start ↔ set.start = 0)) := by
  -- Both ways in store the same two values, and the clock is judged from these.
  rcases procAct_writes s set o h with ⟨hregistered, hpassed⟩
  refine ⟨fun a w ha hw => ?_, fun a w hw => ?_⟩
  · rcases hregistered a w ha hw with ⟨p, hp⟩
    rw [hp]
    exact clockRight_iff p o set.start
  · rcases hpassed a w hw with ⟨p, hp⟩
    rw [hp]
    exact clockRight_iff p o set.start

/-- The two updates leave the same, whether or not it is right. -/
theorem procAct_same (s : ProcWorld × Option ProcSetUp) (set : ProcSetUp) (o : ProcObs)
    (h : ProcFollows s (some set)) (a r : Nat) (w w' : ProcWorld)
    (hw : procAct s.1 (.updateMetrics (some a) o) = some w) (hr : set.metrics = some r)
    (hw' : procAct s.1 (.update o) = some w') : ClockSame (w.store a) (w'.store r) := by
  rcases procAct_writes s set o h with ⟨hregistered, hpassed⟩
  rcases hpassed a w hw with ⟨p, hp⟩
  rcases hregistered r w' hr hw' with ⟨p', hp'⟩
  rcases procUpdate_clock p o set.start with ⟨htime, huptime⟩
  rcases procUpdate_clock p' o set.start with ⟨htime', huptime'⟩
  rw [hp, hp']
  exact ⟨htime.trans htime'.symm, huptime.trans huptime'.symm⟩

/-- A call does what it should just in case it is permitted. -/
theorem procAct_right_iff (s s' : ProcWorld × Option ProcSetUp) (q : Option ProcSetUp)
    (act : ProcAct) (h : ProcFollows s q) (hstep : procWatched s act = some s') :
    ProcRight s act ↔ ProcPermits q act := by
  have hact := ((withGhost_eq_some _ _ _ _ act).mp hstep).1
  -- Only the updates are judged, and only while something is set up: `h` then
  -- says that the start time they read is that of the last `procinfo_create`.
  cases act with
  | create metrics now => exact iff_of_true (fun _ _ => trivial) trivial
  | destroy => exact iff_of_true (fun _ _ => trivial) trivial
  | update o =>
      constructor
      · intro hright set a hset ha
        rw [hset] at h
        have hclock := hright s'.1 hact set a h.ghost ha
        exact ((procAct_clock s set o h).1 a s'.1 ha hact).mp hclock
      · intro hpermits w hw set a hset ha
        rw [h.ghost] at hset
        rw [hset] at h
        exact ((procAct_clock s set o h).1 a w ha hw).mpr (hpermits set a hset ha)
  | updateMetrics m o =>
      constructor
      · intro hright set a hset hm
        rw [hset] at h
        rw [hm] at hact hright
        have hclock := (hright s'.1 hact set a h.ghost rfl).1
        exact ((procAct_clock s set o h).2 a s'.1 hact).mp hclock
      · intro hpermits w hw set a hset hm
        rw [h.ghost] at hset
        rw [hset] at h
        rw [hm] at hw
        exact ⟨((procAct_clock s set o h).2 a w hw).mpr (hpermits set a hset hm),
          fun r w' hr hw' => procAct_same s set o h a r w w' hw hr hw'⟩

theorem procWorld_follows (store : Nat → ProcMetrics) (clock : Int64) :
    ProcFollows (procWorld store clock, none) none where
  ghost := rfl
  init := rfl
  start := fun _ hset => by cases hset
  none := fun _ => ⟨rfl, rfl⟩

/-- Every update of a run does what it should just in case every call is
    permitted. -/
theorem proc_clock_right_iff (store : Nat → ProcMetrics) (clock : Int64) (acts : List ProcAct)
    (w : ProcWorld) (hrun : steps procAct (procWorld store clock) acts = some w) :
    AlongSteps procWatched ProcRight (procWorld store clock, none) acts ↔
      Orderly procSetUp ProcPermits none acts := by
  rcases steps_withGhost procAct (fun _ q act => procSetUp q act) acts _ w none hrun with ⟨q, hq⟩
  exact alongSteps_iff_orderly procWatched ProcRight procSetUp ProcPermits ProcFollows
    (fun s q act s' h hstep => procAct_follows s s' q act h hstep)
    (fun s q act s' h hstep => procAct_right_iff s s' q act h hstep) acts _ (w, q) none
    (procWorld_follows store clock) hq

/-- What an update reads when nothing has been used. -/
def idleObs (pid : Int32) (now : Int64) : ProcObs where
  pid := pid
  nowtime := now
  usage := ⟨0, 0, 0, 0, 0, 0, 0, 0, 0, 0, 0, 0, 0, 0, 0, 0, 0, 0⟩

/-- Process info that is set up when the clock shows zero, and metrics that
    are not registered. -/
theorem proc_clock_from_zero :
    AlongSteps procWatched ProcRight (procWorld (fun _ => procMetricsInit) 0, none)
      [.create (some 1) 0, .update (idleObs 7 30), .updateMetrics (some 2) (idleObs 7 45),
        .destroy, .updateMetrics (some 2) (idleObs 7 60)] := by
  refine (proc_clock_right_iff _ _ _ _ rfl).mpr ⟨trivial, ?_, ?_, trivial, ?_, trivial⟩
  · intro set a hset _
    rw [← Option.some.inj hset]
  · intro set a hset _
    rw [← Option.some.inj hset]
  · -- Nothing is set up when the last update comes.
    intro set a hset _
    cases hset

/-- Process info is set up at 100 and updated at 130. -/
def swappedRun : List ProcAct := [.create (some 1) 100, .update (idleObs 7 130)]

/-- The time says 30, and the uptime 130. -/
theorem proc_clock_swapped :
    ∃ w, steps procAct (procWorld (fun _ => procMetricsInit) 0) swappedRun = some w ∧
      ((w.store 1).metric .time).bits = 30 ∧ ((w.store 1).metric .uptime).bits = 130 ∧
      ¬ AlongSteps procWatched ProcRight (procWorld (fun _ => procMetricsInit) 0, none)
        swappedRun := by
  refine ⟨_, rfl, rfl, rfl, fun h => ?_⟩
  have hright : ProcRight _ (.update (idleObs 7 130)) := (h.2 _ rfl).1
  have hclock := hright _ rfl ⟨some 1, 100⟩ 1 rfl rfl
  exact absurd hclock.1 (by decide)

end Aircmn
