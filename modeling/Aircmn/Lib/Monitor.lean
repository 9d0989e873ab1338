import Aircmn.Lib.Machine

/-!
# Properties of Every State of a Run

A machine that may refuse goes through a state for every prefix of a run.
`Throughout` says that a property holds in all of them. There are two ways to
come by it. An invariant gives it, when every operation meets a condition in
the state it finds; `AlongSteps` is that condition. And a monitor gives it
exactly: an automaton that reads the operations alone, without the state of
the machine, and permits some of them. If the machine has the property after
every permitted operation and loses it after any other, then it has the
property throughout a run just in case the monitor permits the whole run, so
the property of the machine has become a property of the operations.

A ghost is state that is computed along a run and that no operation reads. A
machine has the same runs with a ghost beside it as without.

## Main definitions

* `Throughout`: A property of every state of a run.
* `AlongSteps`: A condition on every operation, judged in the state it meets.
* `Orderly`: Every operation is permitted by a monitor.
* `withGhost`: A machine with a ghost beside it.

## Theorems

* `throughout_nil`, `throughout_cons`: The states of a run, one by one.
* `alongSteps_cons`: A condition on every operation, one by one.
* `throughout_of_along`: An invariant, and what follows from it.
* `along_of_final`: Damage that nothing repairs.
* `throughout_iff_orderly`, `alongSteps_iff_orderly`: A monitor that is exact.
* `steps_withGhost`: A ghost goes along with every run.
-/

namespace Machine

variable {σ μ γ ι : Type}

/-- The property holds in every state the run goes through. -/
def Throughout (step : σ → ι → Option σ) (P : σ → Prop) (s : σ) (is : List ι) : Prop :=
  ∀ pre t, pre <+: is → steps step s pre = some t → P t

theorem throughout_nil (step : σ → ι → Option σ) (P : σ → Prop) (s : σ) :
    Throughout step P s [] ↔ P s := by
  constructor
  · exact fun h => h [] s (List.prefix_refl _) rfl
  · intro h pre t hpre ht
    rw [List.prefix_nil.mp hpre, steps, Option.some.injEq] at ht
    rwa [← ht]

theorem throughout_cons (step : σ → ι → Option σ) (P : σ → Prop) (s s' : σ) (i : ι)
    (is : List ι) (hstep : step s i = some s') :
    Throughout step P s (i :: is) ↔ P s ∧ Throughout step P s' is := by
  constructor
  -- A prefix of the longer run is empty, or it starts with the step taken and goes on along the
  -- rest.
  · intro h
    refine ⟨h [] s (List.nil_prefix) rfl, fun pre t hpre ht => ?_⟩
    refine h (i :: pre) t ((List.prefix_cons_inj i).mpr hpre) ?_
    rw [steps, hstep, Option.bind_some, ht]
  · rintro ⟨hs, hrest⟩ pre t hpre ht
    cases pre with
    | nil =>
        rw [steps, Option.some.injEq] at ht
        rwa [← ht]
    | cons j pre =>
        rcases List.cons_prefix_cons.mp hpre with ⟨hj, htail⟩
        rw [hj, steps, hstep, Option.bind_some] at ht
        exact hrest pre t htail ht

/-- Every operation of the run meets the condition in the state it finds. -/
def AlongSteps (step : σ → ι → Option σ) (P : σ → ι → Prop) : σ → List ι → Prop
  | _, [] => True
  | s, i :: is => P s i ∧ ∀ s', step s i = some s' → AlongSteps step P s' is

theorem alongSteps_cons (step : σ → ι → Option σ) (P : σ → ι → Prop) (s s' : σ) (i : ι)
    (is : List ι) (hstep : step s i = some s') :
    AlongSteps step P s (i :: is) ↔ P s i ∧ AlongSteps step P s' is := by
  refine and_congr_right (fun _ => ⟨fun h => h s' hstep, fun h s'' hs'' => ?_⟩)
  rwa [← Option.some.inj (hstep.symm.trans hs'')]

instance decidableAlongSteps (step : σ → ι → Option σ) (P : σ → ι → Prop)
    [∀ s i, Decidable (P s i)] : ∀ (is : List ι) (s : σ), Decidable (AlongSteps step P s is)
  | [], _ => inferInstanceAs (Decidable True)
  | i :: is, s =>
    match h : step s i with
    | none => decidable_of_iff (P s i)
        ⟨fun hP => ⟨hP, fun _ hs' => absurd (h.symm.trans hs').symm (Option.some_ne_none _)⟩,
          fun hP => hP.1⟩
    | some s' =>
      have := decidableAlongSteps step P is s'
      decidable_of_iff _ (alongSteps_cons step P s s' i is h).symm

theorem throughout_of_along (step : σ → ι → Option σ) (P : σ → ι → Prop) (Inv Q : σ → Prop)
    (hQ : ∀ s, Inv s → Q s) (hstep : ∀ s i s', Inv s → P s i → step s i = some s' → Inv s') :
    ∀ (is : List ι) (s : σ), Inv s → AlongSteps step P s is → Throughout step Q s is := by
  intro is
  -- The condition is met step by step, so the invariant reaches every prefix.
  induction is with
  | nil =>
      intro s hs _
      exact (throughout_nil step Q s).mpr (hQ s hs)
  | cons i is ih =>
      intro s hs hP pre t hpre ht
      -- The empty prefix is the start; any other begins with the step that is checked.
      cases pre with
      | nil =>
          rw [steps, Option.some.injEq] at ht
          rw [← ht]
          exact hQ s hs
      | cons j pre =>
          rcases List.cons_prefix_cons.mp hpre with ⟨hj, htail⟩
          rw [hj] at ht
          rcases Option.bind_eq_some_iff.mp ht with ⟨s', hs', hrest⟩
          exact ih s' (hstep s i s' hs hP.1 hs') (hP.2 s' hs') pre t htail hrest

/-- If an operation that does not meet the condition does damage that nothing
    repairs, a run without damage in the end met the condition throughout. -/
theorem along_of_final (step : σ → ι → Option σ) (P : σ → ι → Prop) (Inv Bad : σ → Prop)
    (hstep : ∀ s i s', Inv s → P s i → step s i = some s' → Inv s')
    (hbreak : ∀ s i s', Inv s → ¬ P s i → step s i = some s' → Bad s')
    (hbad : ∀ s i s', Bad s → step s i = some s' → Bad s') :
    ∀ (is : List ι) (s t : σ), Inv s → steps step s is = some t → ¬ Bad t →
      AlongSteps step P s is := by
  -- A step that broke the condition would leave a bad state that nothing repairs.
  intro is
  induction is with
  | nil =>
      intro s t _ _ _
      trivial
  | cons i is ih =>
      intro s t hs hrun hend
      rcases Option.bind_eq_some_iff.mp hrun with ⟨s', hs', hrest⟩
      have hmeets : P s i := by
        -- Had this step broken the condition, the bad state would last to the end of the run.
        by_contra hno
        exact hend (steps_invariant_along step (fun _ => True) Bad
          (fun s i s' h _ hi => hbad s i s' h hi) is s' t (hbreak s i s' hs hno hs')
          (fun _ _ => trivial) hrest)
      exact (alongSteps_cons step P s s' i is hs').mpr
        ⟨hmeets, ih s' t (hstep s i s' hs hmeets hs') hrest hend⟩

/-- Every operation of the run is permitted by the monitor. -/
def Orderly (next : μ → ι → μ) (ok : μ → ι → Prop) : μ → List ι → Prop
  | _, [] => True
  | q, i :: is => ok q i ∧ Orderly next ok (next q i) is

instance decidableOrderly (next : μ → ι → μ) (ok : μ → ι → Prop) [∀ q i, Decidable (ok q i)] :
    ∀ (is : List ι) (q : μ), Decidable (Orderly next ok q is)
  | [], _ => inferInstanceAs (Decidable True)
  | i :: is, q =>
    have := decidableOrderly next ok is (next q i)
    inferInstanceAs (Decidable (ok q i ∧ Orderly next ok (next q i) is))

/-- If the property holds where monitor and machine stand in their relation,
    which a permitted operation keeps, and is lost by any other operation,
    then the runs with the property throughout are those the monitor
    permits. -/
theorem throughout_iff_orderly (step : σ → ι → Option σ) (next : μ → ι → μ)
    (ok : μ → ι → Prop) (Rel : σ → μ → Prop) (P : σ → Prop) (hP : ∀ s q, Rel s q → P s)
    (hok : ∀ s q i s', Rel s q → ok q i → step s i = some s' → Rel s' (next q i))
    (hbad : ∀ s q i s', Rel s q → ¬ ok q i → step s i = some s' → ¬ P s') :
    ∀ (is : List ι) (s t : σ) (q : μ), Rel s q → steps step s is = some t →
      (Throughout step P s is ↔ Orderly next ok q is) := by
  intro is
  induction is with
  | nil =>
      intro s _ q hrel _
      exact (throughout_nil step P s).trans (iff_of_true (hP s q hrel) trivial)
  | cons i is ih =>
      intro s t q hrel hrun
      rcases Option.bind_eq_some_iff.mp hrun with ⟨s', hs', hrest⟩
      rw [throughout_cons step P s s' i is hs', Orderly]
      constructor
      · rintro ⟨_, hall⟩
        -- The state after the operation has the property, so it was permitted.
        have hfirst : P s' := hall [] s' List.nil_prefix rfl
        have hperm : ok q i := by
          by_contra hno
          exact hbad s q i s' hrel hno hs' hfirst
        exact ⟨hperm, (ih s' t _ (hok s q i s' hrel hperm hs') hrest).mp hall⟩
      · rintro ⟨hperm, hrun'⟩
        exact ⟨hP s q hrel, (ih s' t _ (hok s q i s' hrel hperm hs') hrest).mpr hrun'⟩

/-- A monitor that follows the machine and judges every operation as it is
    judged in the state it finds. -/
theorem alongSteps_iff_orderly (step : σ → ι → Option σ) (P : σ → ι → Prop) (next : μ → ι → μ)
    (ok : μ → ι → Prop) (Rel : σ → μ → Prop)
    (hnext : ∀ s q i s', Rel s q → step s i = some s' → Rel s' (next q i))
    (hjudge : ∀ s q i s', Rel s q → step s i = some s' → (P s i ↔ ok q i)) :
    ∀ (is : List ι) (s t : σ) (q : μ), Rel s q → steps step s is = some t →
      (AlongSteps step P s is ↔ Orderly next ok q is) := by
  -- The monitor and the condition are judged at the same state, one step after the other.
  intro is
  induction is with
  | nil =>
      intro s _ q _ _
      exact Iff.rfl
  | cons i is ih =>
      intro s t q hrel hrun
      rcases Option.bind_eq_some_iff.mp hrun with ⟨s', hs', hrest⟩
      rw [alongSteps_cons step P s s' i is hs', Orderly, hjudge s q i s' hrel hs',
        ih s' t _ (hnext s q i s' hrel hs') hrest]

/-- A machine with a ghost, which every accepted operation updates. -/
def withGhost (step : σ → ι → Option σ) (ghost : σ → γ → ι → γ) (s : σ × γ) (i : ι) :
    Option (σ × γ) :=
  (step s.1 i).map (fun s' => (s', ghost s.1 s.2 i))

theorem withGhost_eq_some (step : σ → ι → Option σ) (ghost : σ → γ → ι → γ) (s t : σ × γ) (i : ι) :
    withGhost step ghost s i = some t ↔ step s.1 i = some t.1 ∧ t.2 = ghost s.1 s.2 i := by
  rw [withGhost, Option.map_eq_some_iff]
  constructor
  · rintro ⟨s', hs', ht⟩
    rw [← ht]
    exact ⟨hs', rfl⟩
  · rintro ⟨hs', hghost⟩
    exact ⟨t.1, hs', by rw [← hghost]⟩

theorem steps_withGhost (step : σ → ι → Option σ) (ghost : σ → γ → ι → γ) :
    ∀ (is : List ι) (s t : σ) (q : γ), steps step s is = some t →
      ∃ q', steps (withGhost step ghost) (s, q) is = some (t, q') := by
  -- The ghost never stops a step, so it runs along any run.
  intro is
  induction is with
  | nil =>
      intro s t q h
      rw [steps, Option.some.injEq] at h
      exact ⟨q, by rw [steps, h]⟩
  | cons i is ih =>
      intro s t q h
      rcases Option.bind_eq_some_iff.mp h with ⟨s', hs', hrest⟩
      rcases ih s' t (ghost s q i) hrest with ⟨q', hq'⟩
      have hstep : withGhost step ghost (s, q) i = some (s', ghost s q i) :=
        (withGhost_eq_some step ghost _ _ i).mpr ⟨hs', rfl⟩
      exact ⟨q', by rw [steps, hstep, Option.bind_some, hq']⟩

end Machine
