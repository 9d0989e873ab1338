import Aircmn.Lib.Machine
import Aircmn.Theory.Metric.Read

/-!
# Threads That Count

`metric_incr_n` and `metric_decr_n` look at the type of the metric, which does
not change, and then do a single atomic addition or subtraction, or nothing. So
a program of several threads that count in the same array of metrics is an
interleaving of their operations. Additions of 64-bit words commute, also with
subtractions and also when they wrap, so the outcome does not depend on the
interleaving: a metric ends as the sum of what all threads have added to it less
what they have taken away. No update is lost, a decrement never takes anything
from a counter, and a floating-point metric is never counted in.

The array starts from a `metric_reset`, and the sums are read back from what the
metrics print.

## Main definitions

* `MetricOp`, `metricOp`: A macro on one metric of the array.
* `MetricOp.share`, `countTotal`: What an operation, and a program, contribute
  to a metric.

## Theorems

* `metricOp_getElem`: One operation.
* `metricOp_comm`: Operations commute.
* `metricReset_getElem`: The array after `metric_reset`.
* `metric_counts`: What is read back after any interleaving.
-/

namespace Aircmn

open CString Machine

/-- A macro that counts, on the metric `i` of an array. -/
inductive MetricOp where
  | incr (i : Nat) (delta : UInt64)
  | decr (i : Nat) (delta : UInt64)
deriving DecidableEq

/-- One update of one metric. -/
def metricOp (ms : List Metric) : MetricOp → List Metric
  | .incr i delta => ms.modify i (metricIncrN · delta)
  | .decr i delta => ms.modify i (metricDecrN · delta)

/-- What the operation adds to metric `i`, which has the given type. -/
def MetricOp.share (type : MetricType) (i : Nat) : MetricOp → UInt64
  | .incr j delta => if j = i ∧ type ≠ .fpn then delta else 0
  | .decr j delta => if j = i ∧ type = .gauge then -delta else 0

/-- What the operations add to metric `i`. -/
def countTotal (type : MetricType) (i : Nat) (ops : List MetricOp) : UInt64 :=
  ops.foldl (fun total op => total + op.share type i) 0

/-- A metric with something added to its bits. -/
def Metric.add (m : Metric) (delta : UInt64) : Metric := { m with bits := m.bits + delta }

theorem metricIncrN_eq (m : Metric) (delta : UInt64) :
    metricIncrN m delta = m.add (if m.type ≠ .fpn then delta else 0) := by
  cases m with
  | mk name desc type bits => cases type <;> simp [metricIncrN, Metric.add]

theorem metricDecrN_eq (m : Metric) (delta : UInt64) :
    metricDecrN m delta = m.add (if m.type = .gauge then -delta else 0) := by
  cases m with
  | mk name desc type bits => cases type <;> simp [metricDecrN, Metric.add, UInt64.sub_eq_add_neg]

theorem metricOp_getElem (ms : List Metric) (op : MetricOp) (i : Nat) :
    (metricOp ms op)[i]? = ms[i]?.map (fun m => m.add (op.share m.type i)) := by
  -- An update of another metric adds nothing.
  have hzero : ∀ m : Metric, m.add 0 = m := by
    intro m
    rw [Metric.add, UInt64.add_zero]
  cases op with
  | incr j delta =>
      rw [metricOp, List.getElem?_modify]
      refine congrArg (fun f => ms[i]?.map f) (funext (fun m => ?_))
      rw [MetricOp.share]
      split
      · rename_i hj
        rw [metricIncrN_eq]
        simp only [hj, true_and]
      · rename_i hj
        rw [if_neg (fun hc => hj hc.1), hzero]
  | decr j delta =>
      rw [metricOp, List.getElem?_modify]
      refine congrArg (fun f => ms[i]?.map f) (funext (fun m => ?_))
      rw [MetricOp.share]
      split
      · rename_i hj
        rw [metricDecrN_eq]
        simp only [hj, true_and]
      · rename_i hj
        rw [if_neg (fun hc => hj hc.1), hzero]

theorem metric_add_add (m : Metric) (x y : UInt64) : (m.add x).add y = m.add (x + y) := by
  rw [Metric.add, Metric.add, Metric.add, UInt64.add_assoc]

/-- Two operations, in either order. -/
theorem metricOp_comm (ms : List Metric) (op op' : MetricOp) :
    metricOp (metricOp ms op) op' = metricOp (metricOp ms op') op := by
  refine List.ext_getElem? (fun i => ?_)
  rw [metricOp_getElem, metricOp_getElem, metricOp_getElem, metricOp_getElem, Option.map_map,
    Option.map_map]
  refine congrArg (fun f => ms[i]?.map f) (funext (fun m => ?_))
  simp only [Function.comp_apply, metric_add_add]
  exact congrArg m.add (UInt64.add_comm _ _)

/-- A program of one thread. -/
theorem metricOps_getElem (i : Nat) : ∀ (ops : List MetricOp) (ms : List Metric),
    (ops.foldl metricOp ms)[i]? = ms[i]?.map (fun m => m.add (countTotal m.type i ops)) := by
  intro ops
  -- The total grows with the run, so the induction is at its end.
  induction ops using List.reverseRecOn with
  | nil =>
      intro ms
      have hzero : (fun m : Metric => m.add (countTotal m.type i [])) = id := by
        refine funext (fun m => ?_)
        rw [countTotal, List.foldl_nil, Metric.add, UInt64.add_zero]
        rfl
      rw [List.foldl_nil, hzero, Option.map_id]
      rfl
  | append_singleton ops op ih =>
      intro ms
      rw [List.foldl_append, List.foldl_cons, List.foldl_nil, metricOp_getElem, ih ms,
        Option.map_map]
      -- Adding the total so far and then one operation is adding the longer total.
      refine congrArg (fun f => ms[i]?.map f) (funext (fun m => ?_))
      rw [Function.comp_apply, metric_add_add, countTotal, countTotal, List.foldl_append]
      rfl

/-- Nothing is ever added to a floating-point metric. -/
theorem countTotal_fpn (i : Nat) (ops : List MetricOp) : countTotal .fpn i ops = 0 := by
  have hshare : ∀ op : MetricOp, op.share .fpn i = 0 := by
    intro op
    cases op with
    | incr j delta => exact if_neg (fun hc => hc.2 rfl)
    | decr j delta => exact if_neg (fun hc => nomatch hc.2)
  rw [countTotal]
  induction ops with
  | nil => rfl
  | cons op ops ih => rw [List.foldl_cons, hshare, UInt64.add_zero, ih]

theorem metricZero_eq (m : Metric) : metricZero m = { m with bits := 0 } := by
  cases m with
  | mk name desc type bits => cases type <;> rfl

/-- What `metric_reset` does to the metrics it is told of. -/
theorem metricReset_getElem (ms ms' : List Metric) (n : UInt32) (i : Nat) (hi : i < n.toNat)
    (h : metricReset (some ms) n = some ms') :
    ms'[i]? = ms[i]?.map (fun m => { m with bits := 0 }) := by
  -- There is an entry i below n, so metric_reset does not return at once.
  have hn : n ≠ 0 := by
    rintro rfl
    exact absurd hi (Nat.not_lt_zero i)
  simp only [metricReset, if_neg hn, Option.some.injEq] at h
  rw [← h]
  -- Within the list the entries are reset; past it there are none.
  by_cases hlen : i < ms.length
  · rw [List.getElem?_append_left (by rw [List.length_map, List.length_take]; omega),
      List.getElem?_map, List.getElem?_take_of_lt hi]
    exact congrArg (fun f => ms[i]?.map f) (funext metricZero_eq)
  · rw [List.getElem?_eq_none (l := ms) (by omega), Option.map_none]
    refine List.getElem?_eq_none ?_
    rw [List.length_append, List.length_map, List.length_take, List.length_drop]
    omega

/-- After a `metric_reset` and any interleaving of threads that count, every
    counter and gauge prints what the threads have added up, and the
    floating-point metrics are still zero. -/
theorem metric_counts (ms ms' : List Metric) (n : UInt32) (progs : List (List MetricOp))
    (tr : List MetricOp) (hreset : metricReset (some ms) n = some ms')
    (htr : Interleaves progs tr) (i : Nat) (hi : i < n.toNat) (m : Metric) (hm : ms[i]? = some m) :
    ∃ m', (tr.foldl metricOp ms')[i]? = some m' ∧ m'.name = m.name ∧ m'.desc = m.desc
      ∧ m'.type = m.type
      ∧ (m.type ≠ .fpn → (cmnAtol m'.valBuf).toUInt64 = countTotal m.type i progs.flatten)
      ∧ (m.type = .fpn → m'.bits = 0) := by
  -- The threads might as well have run one after the other.
  have hend := metricOps_getElem i progs.flatten ms'
  rw [← foldl_interleaves metricOp metricOp_comm progs tr htr ms',
    metricReset_getElem ms ms' n i hi hreset, hm] at hend
  refine ⟨({ m with bits := 0 } : Metric).add (countTotal m.type i progs.flatten), hend, rfl, rfl,
    rfl, fun htype => ?_, fun htype => ?_⟩
  · have hread := cmnAtol_valBuf
      (({ m with bits := 0 } : Metric).add (countTotal m.type i progs.flatten)) htype
    exact hread.trans (UInt64.zero_add _)
  · rw [htype, countTotal_fpn]
    rfl

/-- Two threads, one of which takes more from a gauge than the other adds. -/
theorem metric_counts_small : ∃ m',
    ([.incr 1 5, .decr 1 7, .decr 0 1, .incr 0 2] : List MetricOp).foldl metricOp
      [counterOf 0, { counterOf 0 with type := .gauge }] = [counterOf 2, m']
      ∧ (cmnAtol m'.valBuf).toUInt64 = -2 := by
  have htr : Interleaves [[.incr 1 5, .incr 0 2], [.decr 1 7, .decr 0 1]]
      ([.incr 1 5, .decr 1 7, .decr 0 1, .incr 0 2] : List MetricOp) :=
    .step [] _ _ [_] _ (.step [_] _ _ [] _ (.step [_] _ _ [] _ (.step [] _ _ [_] _
      (.done _ (by simp)))))
  rcases metric_counts
    [counterOf 9, { counterOf 4 with type := .gauge }] _ 2 _ _ rfl htr 1 (by decide) _ rfl with
    ⟨m', hm', _, _, _, hread, _⟩
  refine ⟨m', ?_, (hread (by decide)).trans (by decide)⟩
  cases hm'
  rfl

end Aircmn
