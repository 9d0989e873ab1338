import Mathlib.Tactic.Ring

/-!
# Runs of a State Machine

A machine takes one operation at a time and answers it. `run` feeds it a list
of operations and keeps the answers. An invariant is proved for one operation
and holds after any list of them; two machines that answer alike while a
relation between their states is kept answer alike for ever, which is how an
implementation is shown to refine an abstract object. A part of the state that
some operations neither read nor write goes through a run without them.

Operations that may be refused are the second shape. `steps` is a run that
stops at the first refusal, so a schedule of two threads is a list of actions,
each naming the thread that moves, and an interleaving the threads cannot
perform is simply a list with no final state. `Along` states a condition on
every operation of a run, each judged in the state it meets.

## Main definitions

* `run`: Feeding a machine a list of operations.
* `Along`: A condition met by every operation of a run.
* `answersTo`: The answers to some of the operations.
* `steps`: Feeding a machine that may refuse.
* `Interleaves`: Threads taking turns.

## Theorems

* `run_append`, `run_append_answers`, `along_append`, `steps_append`: Runs of
  two parts.
* `along_and`, `along_mono`, `along_of_split`: Conditions on every operation.
* `run_invariant_along`: An invariant kept by the operations that meet a
  condition.
* `run_refines_along`, `run_refines`: Machines related by a simulation answer
  alike.
* `run_project`: A part of the state that only some operations touch.
* `steps_invariant_along`: An invariant kept by every accepted operation
  that meets a condition.
* `steps_project_along`, `steps_project`: A part of the state with operations of
  its own.
* `interleaves_perm`, `foldl_interleaves`: Steps that commute.
-/

namespace Machine

variable {σ τ ι ο : Type}

/-- Feed a list of operations to a machine, keeping the answers. -/
def run (step : σ → ι → σ × ο) : σ → List ι → σ × List ο
  | s, [] => (s, [])
  | s, i :: is => ((run step (step s i).1 is).1, (step s i).2 :: (run step (step s i).1 is).2)

/-- Every operation of the run meets the condition in the state it finds. -/
def Along (step : σ → ι → σ × ο) (P : σ → ι → Prop) : σ → List ι → Prop
  | _, [] => True
  | s, i :: is => P s i ∧ Along step P (step s i).1 is

instance decidableAlong (step : σ → ι → σ × ο) (P : σ → ι → Prop) [∀ s i, Decidable (P s i)] :
    ∀ (is : List ι) (s : σ), Decidable (Along step P s is)
  | [], _ => inferInstanceAs (Decidable True)
  | i :: is, s =>
    have := decidableAlong step P is (step s i).1
    inferInstanceAs (Decidable (P s i ∧ Along step P (step s i).1 is))

theorem along_of_forall (step : σ → ι → σ × ο) (P : σ → ι → Prop) (h : ∀ s i, P s i) :
    ∀ (is : List ι) (s : σ), Along step P s is := by
  intro is
  induction is with
  | nil =>
      intro s
      trivial
  | cons i is ih =>
      intro s
      exact ⟨h s i, ih _⟩

/-- A run of two parts is the one after the other. -/
theorem run_append (step : σ → ι → σ × ο) : ∀ (is js : List ι) (s : σ),
    (run step s (is ++ js)).1 = (run step (run step s is).1 js).1 := by
  intro is js
  induction is with
  | nil =>
      intro s
      rfl
  | cons i is ih =>
      intro s
      exact ih (step s i).1

/-- The answers of a run of two parts. -/
theorem run_append_answers (step : σ → ι → σ × ο) : ∀ (is js : List ι) (s : σ),
    (run step s (is ++ js)).2 = (run step s is).2 ++ (run step (run step s is).1 js).2 := by
  intro is js
  induction is with
  | nil =>
      intro s
      rfl
  | cons i is ih =>
      intro s
      rw [List.cons_append, run, run, ih, List.cons_append]

theorem along_append (step : σ → ι → σ × ο) (P : σ → ι → Prop) (js : List ι) :
    ∀ (is : List ι) (s : σ),
      Along step P s (is ++ js) ↔ Along step P s is ∧ Along step P (run step s is).1 js := by
  intro is
  induction is with
  | nil =>
      intro s
      exact (and_iff_right trivial).symm
  | cons i is ih =>
      intro s
      rw [List.cons_append, Along, Along, run, ih, and_assoc]

theorem along_and (step : σ → ι → σ × ο) (P Q : σ → ι → Prop) : ∀ (is : List ι) (s : σ),
    Along step P s is → Along step Q s is → Along step (fun s i => P s i ∧ Q s i) s is := by
  intro is
  induction is with
  | nil =>
      intro s _ _
      trivial
  | cons i is ih =>
      intro s hP hQ
      exact ⟨⟨hP.1, hQ.1⟩, ih _ hP.2 hQ.2⟩

theorem along_mono (step : σ → ι → σ × ο) (P Q : σ → ι → Prop) (h : ∀ s i, P s i → Q s i) :
    ∀ (is : List ι) (s : σ), Along step P s is → Along step Q s is := by
  intro is
  induction is with
  | nil =>
      intro s _
      trivial
  | cons i is ih =>
      intro s hP
      exact ⟨h s i hP.1, ih _ hP.2⟩

/-- Each operation of the run, with the operations before it. -/
theorem along_of_split (step : σ → ι → σ × ο) (P : σ → ι → Prop) : ∀ (is : List ι) (s : σ),
    (∀ pre i post, is = pre ++ i :: post → P (run step s pre).1 i) → Along step P s is := by
  intro is
  induction is with
  | nil =>
      intro s _
      trivial
  | cons i is ih =>
      intro s h
      refine ⟨h [] i is rfl, ih _ (fun pre j post hsplit => ?_)⟩
      exact h (i :: pre) j post (by rw [hsplit, List.cons_append])

theorem run_invariant_along (step : σ → ι → σ × ο) (P : σ → ι → Prop) (Inv : σ → Prop)
    (hstep : ∀ s i, Inv s → P s i → Inv (step s i).1) : ∀ (is : List ι) (s : σ),
    Inv s → Along step P s is → Inv (run step s is).1 := by
  intro is
  induction is with
  | nil =>
      intro s hs _
      exact hs
  | cons i is ih =>
      intro s hs hP
      exact ih _ (hstep s i hs hP.1) hP.2

/-- Machines related by a simulation answer alike, and stay related, as long
    as the operations meet the condition the simulation needs. -/
theorem run_refines_along (step : σ → ι → σ × ο) (spec : τ → ι → τ × ο) (P : σ → ι → Prop)
    (Rel : σ → τ → Prop)
    (hstep : ∀ s t i, Rel s t → P s i →
      (step s i).2 = (spec t i).2 ∧ Rel (step s i).1 (spec t i).1) :
    ∀ (is : List ι) (s : σ) (t : τ), Rel s t → Along step P s is →
      (run step s is).2 = (run spec t is).2 ∧ Rel (run step s is).1 (run spec t is).1 := by
  intro is
  induction is with
  | nil =>
      intro s t hrel _
      exact ⟨rfl, hrel⟩
  | cons i is ih =>
      intro s t hrel hP
      -- The first answers agree, and the simulation goes on from related states.
      rcases hstep s t i hrel hP.1 with ⟨hout, hnext⟩
      rcases ih _ _ hnext hP.2 with ⟨houts, hend⟩
      exact ⟨by rw [run, run, hout, houts], hend⟩

/-- A simulation that needs no condition. -/
theorem run_refines (step : σ → ι → σ × ο) (spec : τ → ι → τ × ο) (Rel : σ → τ → Prop)
    (hstep : ∀ s t i, Rel s t → (step s i).2 = (spec t i).2 ∧ Rel (step s i).1 (spec t i).1)
    (is : List ι) (s : σ) (t : τ) (hrel : Rel s t) :
    (run step s is).2 = (run spec t is).2 ∧ Rel (run step s is).1 (run spec t is).1 :=
  run_refines_along step spec (fun _ _ => True) Rel (fun s t i h _ => hstep s t i h) is s t hrel
    (along_of_forall step _ (fun _ _ => trivial) is s)

/-- The answers to the operations that satisfy `mine`. -/
def answersTo (mine : ι → Bool) : List ι → List ο → List ο
  | i :: is, o :: os => if mine i then o :: answersTo mine is os else answersTo mine is os
  | _, _ => []

/-- If one side of the state is touched by its own operations only, and they
    look at nothing else, then that side goes through a run as if the other
    operations were not there. -/
theorem run_project (step : σ → ι → σ × ο) (P : σ → ι → Prop) (Inv : σ → Prop)
    (Agree : σ → σ → Prop) (mine : ι → Bool)
    (hinv : ∀ s i, Inv s → P s i → Inv (step s i).1)
    (hmine : ∀ s t i, mine i = true → Inv s → P s i → Agree s t →
      (step s i).2 = (step t i).2 ∧ Agree (step s i).1 (step t i).1)
    (hother : ∀ s t i, mine i = false → Inv s → P s i → Agree s t → Agree (step s i).1 t) :
    ∀ (is : List ι) (s t : σ), Inv s → Along step P s is → Agree s t →
      answersTo mine is (run step s is).2 = (run step t (is.filter mine)).2 ∧
        Agree (run step s is).1 (run step t (is.filter mine)).1 := by
  intro is
  induction is with
  | nil =>
      intro s t _ _ hagree
      exact ⟨rfl, hagree⟩
  | cons i is ih =>
      intro s t hs hP hagree
      have hnext := hinv s i hs hP.1
      cases hi : mine i with
      | true =>
          -- Both runs take the operation.
          rcases hmine s t i hi hs hP.1 hagree with ⟨hout, hstep⟩
          rcases ih _ _ hnext hP.2 hstep with ⟨houts, hend⟩
          rw [run, answersTo, if_pos hi, houts, List.filter_cons_of_pos hi, run, hout]
          exact ⟨rfl, hend⟩
      | false =>
          -- The filtered run stays where it is.
          rcases ih _ t hnext hP.2 (hother s t i hi hs hP.1 hagree) with ⟨houts, hend⟩
          have hneg : ¬ mine i = true := by rw [hi]; exact Bool.false_ne_true
          rw [run, answersTo, if_neg hneg, houts, List.filter_cons_of_neg hneg]
          exact ⟨rfl, hend⟩

/-- Feed a list of operations to a machine that may refuse; the run has no
    final state if one of them is refused. -/
def steps (step : σ → ι → Option σ) : σ → List ι → Option σ
  | s, [] => some s
  | s, i :: is => (step s i).bind (fun s' => steps step s' is)

theorem steps_append (step : σ → ι → Option σ) (js : List ι) : ∀ (is : List ι) (s : σ),
    steps step s (is ++ js) = (steps step s is).bind (fun t => steps step t js) := by
  intro is
  induction is with
  | nil =>
      intro s
      rfl
  | cons i is ih =>
      intro s
      rw [List.cons_append, steps, steps, Option.bind_assoc]
      exact congrArg _ (funext ih)

theorem steps_invariant_along (step : σ → ι → Option σ) (P : ι → Prop) (Inv : σ → Prop)
    (hstep : ∀ s i s', Inv s → P i → step s i = some s' → Inv s') : ∀ (is : List ι) (s s' : σ),
    Inv s → (∀ i ∈ is, P i) → steps step s is = some s' → Inv s' := by
  intro is
  induction is with
  | nil =>
      intro s s' hs _ h
      rw [steps, Option.some.injEq] at h
      rwa [← h]
  | cons i is ih =>
      intro s s' hs hP h
      -- A run with a final state has accepted its first operation.
      rcases Option.bind_eq_some_iff.mp h with ⟨t, ht, hrest⟩
      exact ih t s' (hstep s i t hs (hP i List.mem_cons_self) ht)
        (fun j hj => hP j (List.mem_cons_of_mem i hj)) hrest

/-- A part of the state that only some operations touch runs on its own: what
    it makes of the whole run is what it makes of its own operations. -/
theorem steps_project_along {κ : Type} (step : σ → ι → Option σ) (part : τ → κ → Option τ)
    (mine : ι → Option κ) (P : ι → Prop) (Rel : σ → τ → Prop)
    (hmine : ∀ s t i k s', mine i = some k → P i → Rel s t → step s i = some s' →
      ∃ t', part t k = some t' ∧ Rel s' t')
    (hother : ∀ s t i s', mine i = none → P i → Rel s t → step s i = some s' → Rel s' t) :
    ∀ (is : List ι) (s s' : σ) (t : τ), Rel s t → (∀ i ∈ is, P i) → steps step s is = some s' →
      ∃ t', steps part t (is.filterMap mine) = some t' ∧ Rel s' t' := by
  -- The relation holds at the start and is carried over each step: followed if the step is the
  -- part's own, kept if it is not.
  intro is
  induction is with
  | nil =>
      intro s s' t hrel _ h
      rw [steps, Option.some.injEq] at h
      exact ⟨t, rfl, h ▸ hrel⟩
  | cons i is ih =>
      intro s s' t hrel hP h
      have hi := hP i List.mem_cons_self
      have hrest : ∀ j ∈ is, P j := fun j hj => hP j (List.mem_cons_of_mem i hj)
      rcases Option.bind_eq_some_iff.mp h with ⟨u, hu, hsteps⟩
      -- A step of the others leaves the part where it is.
      cases hmi : mine i with
      | none =>
          rw [List.filterMap_cons_none hmi]
          exact ih u s' t (hother s t i u hmi hi hrel hu) hrest hsteps
      | some k =>
          rcases hmine s t i k u hmi hi hrel hu with ⟨t₁, ht₁, hrel₁⟩
          rcases ih u s' t₁ hrel₁ hrest hsteps with ⟨t', ht', hrel'⟩
          refine ⟨t', ?_, hrel'⟩
          rw [List.filterMap_cons_some hmi, steps, ht₁, Option.bind_some, ht']

/-- A part that needs no condition. -/
theorem steps_project {κ : Type} (step : σ → ι → Option σ) (part : τ → κ → Option τ)
    (mine : ι → Option κ) (Rel : σ → τ → Prop)
    (hmine : ∀ s t i k s', mine i = some k → Rel s t → step s i = some s' →
      ∃ t', part t k = some t' ∧ Rel s' t')
    (hother : ∀ s t i s', mine i = none → Rel s t → step s i = some s' → Rel s' t)
    (is : List ι) (s s' : σ) (t : τ) (hrel : Rel s t) (h : steps step s is = some s') :
    ∃ t', steps part t (is.filterMap mine) = some t' ∧ Rel s' t' :=
  steps_project_along step part mine (fun _ => True) Rel
    (fun s t i k s' hk _ hr hs => hmine s t i k s' hk hr hs)
    (fun s t i s' hk _ hr hs => hother s t i s' hk hr hs) is s s' t hrel (fun _ _ => trivial) h

section Interleavings

variable {α : Type}

/-- The programs of several threads, run one step of one thread at a time. -/
inductive Interleaves : List (List α) → List α → Prop
  | done (progs : List (List α)) (h : ∀ p ∈ progs, p = []) : Interleaves progs []
  | step (before : List (List α)) (a : α) (p : List α) (after : List (List α)) (tr : List α)
      (h : Interleaves (before ++ p :: after) tr) :
      Interleaves (before ++ (a :: p) :: after) (a :: tr)

/-- The steps are those of the threads. -/
theorem interleaves_perm (progs : List (List α)) (tr : List α) (h : Interleaves progs tr) :
    tr.Perm progs.flatten := by
  induction h with
  | done progs h =>
      rw [List.flatten_eq_nil_iff.mpr h]
  | step before a p after tr _ ih =>
      rw [List.flatten_append, List.flatten_cons, List.cons_append]
      rw [List.flatten_append, List.flatten_cons] at ih
      exact (ih.cons a).trans List.perm_middle.symm

/-- Steps that commute make of every interleaving what they make of the threads
    run one after the other. -/
theorem foldl_interleaves (step : σ → α → σ)
    (hcomm : ∀ s a b, step (step s a) b = step (step s b) a)
    (progs : List (List α)) (tr : List α) (h : Interleaves progs tr) (s : σ) :
    tr.foldl step s = progs.flatten.foldl step s :=
  (interleaves_perm progs tr h).foldl_eq' (fun a _ b _ t => hcomm t a b) s

end Interleavings

end Machine
