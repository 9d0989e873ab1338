import Mathlib.Logic.Function.Basic
import Mathlib.Data.List.Nodup

/-!
# Chains of Links

An intrusive list keeps its links inside its elements. Whatever leads to an
element is a slot: the head of the list has one, and every element has one
that leads on. So a chain starts at a slot, each element is linked to the slot
before it and goes on from its own, and the chain stops at the slot of its last
element, or where it started if there is none. Inserting and removing are the
same everywhere in a chain, at the head as in the middle, since both happen
between a slot and what follows it.

What a link is, is a parameter. It may be a pointer in the slot, or that and a
pointer back to the slot in the element. A chain is kept by any change that
keeps its links, and the slots its links start from are all but the last.

A walk follows pointers until one is null. It needs a bound to be a function,
and with a bound that is large enough it finds the chain. If the chain changes
on the way, what there is to say is said about the elements that have not been
met yet.

## Main definitions

* `Store`, `Store.set`: A memory of pointers.
* `Linked`: A chain from a slot.
* `lastSlot`, `sources`: Where it stops, and where its links start.
* `Path`, `walk`: Following pointers until one is null.
* `walkSafe`: Following them while they change.

## Theorems

* `linked_append`, `linked_congr`: Parts of a chain, and changes that keep it.
* `lastSlot_append`, `lastSlot_mem`: The slots of a chain.
* `lastSlot_not_mem_sources`: No link starts at the last slot.
* `walk_of_path`, `walkSafe_of_inv`: A walk that is long enough.
-/

namespace Links

/-- A pointer at every address. -/
abbrev Store := Nat → Nat

/-- One pointer is assigned. -/
def Store.set (s : Store) (a v : Nat) : Store := Function.update s a v

@[simp]
theorem set_self (s : Store) (a v : Nat) : s.set a v a = v := Function.update_self _ _ _

theorem set_other (s : Store) (a v c : Nat) (h : c ≠ a) : s.set a v c = s c :=
  Function.update_of_ne h _ _

theorem set_apply (s : Store) (a v c : Nat) : s.set a v c = if c = a then v else s c :=
  Function.update_apply _ _ _ _

section Chain

variable {α β : Type} (link : β → α → Prop) (slot : α → β)

/-- From slot `a` on, each element is linked to the slot before it. -/
def Linked : β → List α → Prop
  | _, [] => True
  | a, x :: xs => link a x ∧ Linked (slot x) xs

/-- The slot at which a chain from `a` stops. -/
def lastSlot : β → List α → β
  | a, [] => a
  | _, x :: xs => lastSlot (slot x) xs

/-- The slots from which the links of a chain start. -/
def sources : β → List α → List β
  | _, [] => []
  | a, x :: xs => a :: sources (slot x) xs

theorem lastSlot_append : ∀ (xs ys : List α) (a : β),
    lastSlot slot a (xs ++ ys) = lastSlot slot (lastSlot slot a xs) ys := by
  intro xs ys
  induction xs with
  | nil =>
      intro a
      rfl
  | cons x xs ih =>
      intro a
      exact ih (slot x)

theorem linked_append : ∀ (xs ys : List α) (a : β),
    Linked link slot a (xs ++ ys) ↔
      Linked link slot a xs ∧ Linked link slot (lastSlot slot a xs) ys := by
  intro xs ys
  induction xs with
  | nil =>
      intro a
      exact (and_iff_right trivial).symm
  | cons x xs ih =>
      intro a
      rw [List.cons_append, Linked, Linked, lastSlot, ih, and_assoc]

theorem lastSlot_mem : ∀ (xs : List α) (a : β),
    lastSlot slot a xs = a ∨ ∃ x ∈ xs, lastSlot slot a xs = slot x := by
  intro xs
  induction xs with
  | nil =>
      intro a
      exact Or.inl rfl
  | cons x xs ih =>
      intro a
      rcases ih (slot x) with hfirst | ⟨y, hy, hlast⟩
      · exact Or.inr ⟨x, List.mem_cons_self, hfirst⟩
      · exact Or.inr ⟨y, List.mem_cons_of_mem x hy, hlast⟩

theorem sources_mem : ∀ (xs : List α) (a b : β), b ∈ sources slot a xs →
    b = a ∨ ∃ x ∈ xs, b = slot x := by
  intro xs
  -- The sources are the slot at a and then the slot of each element but the last.
  induction xs with
  | nil =>
      intro a b hb
      exact absurd hb List.not_mem_nil
  | cons x xs ih =>
      intro a b hb
      rcases List.mem_cons.mp hb with hfirst | hrest
      · exact Or.inl hfirst
      -- A source of the rest of the list is the slot of x or of a later element.
      · rcases ih (slot x) b hrest with hslot | ⟨y, hy, hslot⟩
        · exact Or.inr ⟨x, List.mem_cons_self, hslot⟩
        · exact Or.inr ⟨y, List.mem_cons_of_mem x hy, hslot⟩

/-- No link of a chain starts at its last slot. -/
theorem lastSlot_not_mem_sources (hinj : Function.Injective slot) : ∀ (xs : List α) (a : β),
    xs.Nodup → (∀ x ∈ xs, slot x ≠ a) → lastSlot slot a xs ∉ sources slot a xs := by
  intro xs
  induction xs with
  | nil =>
      intro a _ _
      exact List.not_mem_nil
  -- The induction is on the list, with the slot at a moving to that of x.
  | cons x xs ih =>
      intro a hnodup hne
      rcases List.nodup_cons.mp hnodup with ⟨hx, hrest⟩
      -- Slots of different elements differ, so only x itself could come back.
      have hslots : ∀ y ∈ xs, slot y ≠ slot x := fun y hy hslot => hx (hinj hslot ▸ hy)
      rw [lastSlot, sources, List.mem_cons, not_or]
      refine ⟨?_, ih (slot x) hrest hslots⟩
      -- The last slot is that of x or of a later element, neither of which is a.
      rcases lastSlot_mem slot xs (slot x) with hfirst | ⟨y, hy, hlast⟩
      · rw [hfirst]
        exact hne x List.mem_cons_self
      · rw [hlast]
        exact hne y (List.mem_cons_of_mem x hy)

/-- A change that keeps the links keeps the chain. -/
theorem linked_congr (link' : β → α → Prop) : ∀ (xs : List α) (a : β),
    (∀ b ∈ sources slot a xs, ∀ x ∈ xs, link b x → link' b x) →
    Linked link slot a xs → Linked link' slot a xs := by
  intro xs
  induction xs with
  | nil =>
      intro a _ _
      trivial
  | cons x xs ih =>
      intro a hkeeps h
      refine ⟨hkeeps a List.mem_cons_self x List.mem_cons_self h.1, ih (slot x) ?_ h.2⟩
      exact fun b hb y hy => hkeeps b (List.mem_cons_of_mem a hb) y (List.mem_cons_of_mem x hy)

end Chain

/-- From `p`, the pointers lead through `xs` and then to null. -/
def Path (next : Nat → Nat) : Nat → List Nat → Prop
  | p, [] => p = 0
  | p, x :: xs => p = x ∧ x ≠ 0 ∧ Path next (next x) xs

/-- Follow pointers until one is null. -/
def walk (next : Nat → Nat) : Nat → Nat → Option (List Nat)
  | 0, _ => none
  | k + 1, p => if p = 0 then some [] else (walk next k (next p)).map (p :: ·)

theorem walk_of_path (next : Nat → Nat) : ∀ (xs : List Nat) (k p : Nat), xs.length < k →
    Path next p xs → walk next k p = some xs := by
  -- Fuel for one step more than the list has, and the path decides every step of the walk.
  intro xs
  induction xs with
  | nil =>
      intro k p hk h
      cases k with
      | zero => exact absurd hk (Nat.not_lt_zero _)
      | succ k => exact if_pos h
  | cons x xs ih =>
      intro k p hk h
      rcases h with ⟨hp, hne, hrest⟩
      cases k with
      | zero => exact absurd hk (Nat.not_lt_zero _)
      -- With an element left the walk goes one step and the path moves on to the next.
      | succ k =>
          rw [hp, walk, if_neg hne, ih k (next x) (Nat.lt_of_succ_lt_succ hk) hrest]
          rfl

/-- Follow pointers with a body that may change what they are kept in. Each
    pointer is read before the body runs. -/
def walkSafe {σ : Type} (next : σ → Nat → Nat) (body : σ → Nat → σ) :
    Nat → σ → Nat → Option (σ × List Nat)
  | 0, _, _ => none
  | k + 1, s, p =>
    if p = 0 then some (s, [])
    else (walkSafe next body k (body s p) (next s p)).map (fun r => (r.1, p :: r.2))

/-- An invariant about what is left to be met. -/
theorem walkSafe_of_inv {σ : Type} (next : σ → Nat → Nat) (body : σ → Nat → σ)
    (Inv : List Nat → σ → Prop)
    (hstep : ∀ x xs s, Inv (x :: xs) s →
      x ≠ 0 ∧ next s x = xs.head?.getD 0 ∧ Inv xs (body s x)) :
    ∀ (xs : List Nat) (k : Nat) (s : σ), xs.length < k → Inv xs s →
      ∃ s', walkSafe next body k s (xs.head?.getD 0) = some (s', xs) ∧ Inv [] s' := by
  -- The invariant is tied to the list that is still to be walked, which shrinks by one in each
  -- round.
  intro xs
  induction xs with
  | nil =>
      intro k s hk h
      cases k with
      | zero => exact absurd hk (Nat.not_lt_zero _)
      | succ k => exact ⟨s, if_pos rfl, h⟩
  | cons x xs ih =>
      intro k s hk h
      -- Before the body runs, the next element has been read.
      rcases hstep x xs s h with ⟨hne, hnext, hrest⟩
      cases k with
      | zero => exact absurd hk (Nat.not_lt_zero _)
      | succ k =>
          rcases ih k (body s x) (Nat.lt_of_succ_lt_succ hk) hrest with ⟨s', hwalk, hend⟩
          refine ⟨s', ?_, hend⟩
          rw [List.head?_cons, Option.getD_some, walkSafe, if_neg hne, hnext, hwalk]
          rfl

end Links
