import Mathlib.Logic.Function.Basic
import Mathlib.Data.List.Nodup

/-!
# Holdings

Objects hold resources: a descriptor, blocks of memory, whatever has to be given
back once. `Holds` says that what is owned is what some object holds, and that
nothing is held twice. An object that holds nothing may take resources that are
not owned, and an object may give back all that it holds; both keep the
holdings in order. When no object holds anything any more, nothing is owned, so
a leak and a resource given back twice are both excluded by the one invariant.

## Main definitions

* `Holds`: What is owned is held once.

## Theorems

* `holds_nothing`: Before anything is held.
* `holds_update`: An object comes to hold something else.
* `holds_take`, `holds_give`: An object takes, and gives all of it back.
* `holds_add`, `holds_drop`: An object takes and gives back one thing.
* `holds_owned`, `holds_empty`: What is held is owned, and nothing else.
* `given_back`, `holds_congr`: What is owned does not change.
-/

namespace Holdings

variable {ι ρ : Type}

/-- What is owned is what the objects hold, each thing once. -/
structure Holds (owned : ρ → Prop) (held : ι → List ρ) : Prop where
  owned : ∀ r, owned r ↔ ∃ i, r ∈ held i
  nodup : ∀ i, (held i).Nodup
  apart : ∀ i j r, r ∈ held i → r ∈ held j → i = j

variable (owned owned' : ρ → Prop) (held : ι → List ρ)

theorem holds_nothing (h : ∀ r, ¬ owned r) : Holds owned (fun _ : ι => []) := by
  refine ⟨fun r => ⟨fun hr => absurd hr (h r), ?_⟩, fun _ => List.nodup_nil, ?_⟩
  · rintro ⟨_, hr⟩
    exact absurd hr List.not_mem_nil
  · intro _ _ _ hr
    exact absurd hr List.not_mem_nil

theorem holds_owned (h : Holds owned held) (i : ι) : ∀ r ∈ held i, owned r :=
  fun r hr => (h.owned r).mpr ⟨i, hr⟩

/-- When no object holds anything, nothing is owned. -/
theorem holds_empty (h : Holds owned held) (hnone : ∀ i, held i = []) : ∀ r, ¬ owned r := by
  intro r hr
  rcases (h.owned r).mp hr with ⟨i, hi⟩
  rw [hnone i] at hi
  exact List.not_mem_nil hi

/-- What was obtained and has been given back makes no difference. -/
theorem given_back (r : ρ) (hr : ¬ owned r) (taken : ρ → Prop)
    (htaken : ∀ x, taken x ↔ owned x ∨ x = r) (hgiven : ∀ x, owned' x ↔ taken x ∧ x ≠ r) (x : ρ) :
    owned' x ↔ owned x := by
  rw [hgiven, htaken]
  constructor
  · rintro ⟨hx | hx, hne⟩
    · exact hx
    · exact absurd hx hne
  · intro hx
    refine ⟨Or.inl hx, ?_⟩
    rintro rfl
    exact hr hx

/-- What is owned does not change. -/
theorem holds_congr (h : Holds owned held) (howned : ∀ r, owned' r ↔ owned r) :
    Holds owned' held :=
  ⟨fun r => (howned r).trans (h.owned r), h.nodup, h.apart⟩

section Changes

variable [DecidableEq ι]

/-- What is owned changes with what one object holds. -/
theorem holds_update (h : Holds owned held) (i : ι) (rs : List ρ) (hnodup : rs.Nodup)
    (hfree : ∀ r ∈ rs, owned r → r ∈ held i)
    (howned : ∀ r, owned' r ↔ (owned r ∧ r ∉ held i) ∨ r ∈ rs) :
    Holds owned' (Function.update held i rs) := by
  -- Three conditions: what is owned, what is held at most once, and what no two objects hold.
  refine ⟨fun r => ?_, fun j => ?_, fun j k r hj hk => ?_⟩
  · rw [howned, h.owned]
    constructor
    -- A resource that was held elsewhere still is; what is new is in rs.
    · rintro (⟨⟨j, hj⟩, hno⟩ | hr)
      · refine ⟨j, ?_⟩
        have hji : j ≠ i := by
          rintro rfl
          exact hno hj
        rwa [Function.update_of_ne hji]
      · exact ⟨i, by rwa [Function.update_self]⟩
    · rintro ⟨j, hj⟩
      by_cases hji : j = i
      · rw [hji, Function.update_self] at hj
        exact Or.inr hj
      · rw [Function.update_of_ne hji] at hj
        exact Or.inl ⟨⟨j, hj⟩, fun hi => hji (h.apart j i r hj hi)⟩
  -- rs has no repetitions, and the others have not changed.
  · by_cases hji : j = i
    · rwa [hji, Function.update_self]
    · rw [Function.update_of_ne hji]
      exact h.nodup j
  · -- Something taken is not held by an object that has not changed.
    have hother : ∀ l, l ≠ i → r ∈ rs → r ∉ held l := fun l hl hr hheld =>
      hl (h.apart l i r hheld (hfree r hr ((h.owned r).mpr ⟨l, hheld⟩)))
    -- Both other objects keep what they had, so only i can clash.
    by_cases hji : j = i <;> by_cases hki : k = i
    · rw [hji, hki]
    · rw [hji, Function.update_self] at hj
      rw [Function.update_of_ne hki] at hk
      exact absurd hk (hother k hki hj)
    · rw [hki, Function.update_self] at hk
      rw [Function.update_of_ne hji] at hj
      exact absurd hj (hother j hji hk)
    · rw [Function.update_of_ne hji] at hj
      rw [Function.update_of_ne hki] at hk
      exact h.apart j k r hj hk

theorem holds_take (h : Holds owned held) (i : ι) (hi : held i = []) (rs : List ρ)
    (hnodup : rs.Nodup) (hfree : ∀ r ∈ rs, ¬ owned r) (howned : ∀ r, owned' r ↔ owned r ∨ r ∈ rs) :
    Holds owned' (Function.update held i rs) := by
  refine holds_update owned owned' held h i rs hnodup
    (fun r hr ho => absurd ho (hfree r hr)) (fun r => ?_)
  rw [howned, hi]
  simp only [List.not_mem_nil, not_false_eq_true, and_true]

/-- An object takes one thing more. -/
theorem holds_add (h : Holds owned held) (i : ι) (r : ρ) (hr : ¬ owned r)
    (howned : ∀ x, owned' x ↔ owned x ∨ x = r) :
    Holds owned' (Function.update held i (r :: held i)) := by
  have hmine := holds_owned owned held h i
  -- Adding one resource is taking over a list that starts with it.
  refine holds_update owned owned' held h i _ ?_ (fun x hx ho => ?_) (fun x => ?_)
  · exact List.nodup_cons.mpr ⟨fun hi => hr (hmine r hi), h.nodup i⟩
  · rcases List.mem_cons.mp hx with rfl | hx
    · exact absurd ho hr
    · exact hx
  · rw [howned, List.mem_cons]
    -- x is owned by i as soon as it is r or was there before.
    constructor
    · rintro (ho | rfl)
      · by_cases hx : x ∈ held i
        · exact Or.inr (Or.inr hx)
        · exact Or.inl ⟨ho, hx⟩
      · exact Or.inr (Or.inl rfl)
    · rintro (⟨ho, _⟩ | rfl | hx)
      · exact Or.inl ho
      · exact Or.inr rfl
      · exact Or.inl (hmine x hx)

/-- An object gives the last thing back that it has taken. -/
theorem holds_drop (h : Holds owned held) (i : ι) (r : ρ) (rest : List ρ)
    (hi : held i = r :: rest) (howned : ∀ x, owned' x ↔ owned x ∧ x ≠ r) :
    Holds owned' (Function.update held i rest) := by
  have hnodup := h.nodup i
  have hmine := holds_owned owned held h i
  rw [hi, List.nodup_cons] at hnodup
  rw [hi] at hmine
  -- Dropping one is taking over the list without it.
  refine holds_update owned owned' held h i _ hnodup.2 (fun x hx _ => ?_) (fun x => ?_)
  · rw [hi]
    exact List.mem_cons_of_mem _ hx
  · rw [howned, hi, List.mem_cons]
    constructor
    -- What is dropped is r alone; the rest is held as it was.
    · rintro ⟨ho, hne⟩
      by_cases hx : x ∈ rest
      · exact Or.inr hx
      · exact Or.inl ⟨ho, fun hc => hc.elim hne hx⟩
    · rintro (⟨ho, hno⟩ | hx)
      · exact ⟨ho, fun hc => hno (Or.inl hc)⟩
      · refine ⟨hmine x (List.mem_cons_of_mem _ hx), ?_⟩
        rintro rfl
        exact hnodup.1 hx

theorem holds_give (h : Holds owned held) (i : ι) (howned : ∀ r, owned' r ↔ owned r ∧ r ∉ held i) :
    Holds owned' (Function.update held i []) := by
  refine holds_update owned owned' held h i [] List.nodup_nil
    (fun r hr => absurd hr List.not_mem_nil) (fun r => ?_)
  rw [howned]
  simp only [List.not_mem_nil, or_false]

end Changes

end Holdings
