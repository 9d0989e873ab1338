import Aircmn.Core.Queue

/-!
# Sequences under Heads

What the lists and tail queues are for: every head that has been initialised
has a sequence of elements. No element is in two sequences or twice in one.
The macros for all four structures are described here at once, on the
sequences alone; which structure has which macros is the table at the
beginning of `cmn_queue.h`.

An operation is legal if a program may perform it. A new element must not be
in any sequence, and an element that is named must be in the sequence of the
head that is named with it. Two heads that are named must be different.

Where heads and elements lie in memory is a layout. An entry or a head has one
pointer or two, depending on the structure, and no two of them overlap. So a
pointer belongs to one head or to one element, and a change to a sequence that
writes to what belongs to it leaves all others alone.

## Main definitions

* `QueueKind`, `QueueKind.has`: The structures, and their macros.
* `Queues`, `queueSpec`: The sequences, and what an operation does to them.
* `Layout`, `InHead`, `InEntry`: Where heads and elements lie.
* `Layout.Covers`, `Layout.Outside`: The bytes of a layout.
* `Queues.Apart`: No element is shared.
* `QueueLegal`: What a program may do.

## Theorems

* `afterElm_split`, `beforeElm_split`, `dropAfter_split`, `erase_split`: The
  operations in the middle of a sequence.
* `apart_set`: A new sequence for one head.
* `apart_insert`, `apart_remove`, `apart_concat`, `apart_swap`: The changes
  that operations make.
* `entry_unique`, `head_unique`, `head_entry_ne`: Whose a pointer is.
* `inHead_covers`, `inEntry_covers`: The bytes of a pointer.
-/

namespace Aircmn

open Links

/-- The four structures of `cmn_queue.h`. -/
inductive QueueKind where
  | slist
  | stailq
  | list
  | tailq
deriving DecidableEq

/-- The head has the address of the last slot. -/
def QueueKind.tail : QueueKind → Bool
  | .slist => false
  | .stailq => true
  | .list => false
  | .tailq => true

/-- An element has the address of the slot before it. -/
def QueueKind.dbl : QueueKind → Bool
  | .slist => false
  | .stailq => false
  | .list => true
  | .tailq => true

/-- The bytes of a head. -/
def QueueKind.headSize (k : QueueKind) : Nat := if k.tail then 16 else 8

/-- The bytes of the links of an element. -/
def QueueKind.entrySize (k : QueueKind) : Nat := if k.dbl then 16 else 8

/-- Whether the structure has the macro. -/
def QueueKind.has (k : QueueKind) : QueueOp → Bool
  | .init _ => true
  | .insertHead _ _ => true
  | .insertTail _ _ => k.tail
  | .insertAfter _ _ _ => true
  | .insertBefore _ _ _ => k.dbl
  | .removeHead _ => !k.dbl
  | .removeAfter _ _ => !k.dbl
  | .remove _ _ => true
  | .concat _ _ => true
  | .swap _ _ => true
  | .empty _ => true
  | .first _ => true
  | .next _ _ => true
  | .last _ => k.tail
  | .lastFast _ => k.tail && k.dbl
  | .prev _ _ => k.dbl
  | .prevFast _ _ => k.tail && k.dbl
  | .foreach _ => true
  | .foreachFrom _ _ => true
  | .foreachReverse _ => k.tail && k.dbl
  | .foreachReverseFrom _ _ => k.tail && k.dbl

/-- The sequence of every head that has been initialised. -/
abbrev Queues := Nat → Option (List Nat)

/-- The sequence of a head, or nothing if there is none. -/
def Queues.elems (q : Queues) (h : Nat) : List Nat := (q h).getD []

/-- A head is given a sequence. -/
def Queues.set (q : Queues) (h : Nat) (xs : List Nat) : Queues := Function.update q h (some xs)

/-- `x` put behind `y`. -/
def afterElm (y x : Nat) : List Nat → List Nat
  | [] => []
  | z :: zs => if z = y then z :: x :: zs else z :: afterElm y x zs

/-- `x` put before `y`. -/
def beforeElm (y x : Nat) : List Nat → List Nat
  | [] => []
  | z :: zs => if z = y then x :: z :: zs else z :: beforeElm y x zs

/-- The element behind `y` taken out. -/
def dropAfter (y : Nat) : List Nat → List Nat
  | [] => []
  | z :: zs => if z = y then z :: zs.tail else z :: dropAfter y zs

/-- The elements from `x` on, or all of them. -/
def fromElm (x : Nat) (xs : List Nat) : List Nat := if x = 0 then xs else xs.dropWhile (· ≠ x)

/-- The first of some elements, or null. -/
def headOr (xs : List Nat) : Nat := xs.head?.getD 0

/-- What an operation does to the sequences, and what it answers. -/
def queueSpec (q : Queues) : QueueOp → Queues × QueueAns
  | .init h => (q.set h [], .done)
  | .insertHead h x => (q.set h (x :: q.elems h), .done)
  | .insertTail h x => (q.set h (q.elems h ++ [x]), .done)
  | .insertAfter h y x => (q.set h (afterElm y x (q.elems h)), .done)
  | .insertBefore h y x => (q.set h (beforeElm y x (q.elems h)), .done)
  | .removeHead h => (q.set h (q.elems h).tail, .done)
  | .removeAfter h y => (q.set h (dropAfter y (q.elems h)), .done)
  | .remove h x => (q.set h ((q.elems h).erase x), .done)
  | .concat h h' => ((q.set h' []).set h (q.elems h ++ q.elems h'), .done)
  | .swap h h' => (((q.set h []).set h' (q.elems h)).set h (q.elems h'), .done)
  | .empty h => (q, .flag (q.elems h).isEmpty)
  | .first h => (q, .ptr (headOr (q.elems h)))
  | .next h x => (q, .ptr (headOr ((q.elems h).dropWhile (· ≠ x)).tail))
  | .last h => (q, .ptr (headOr (q.elems h).reverse))
  | .lastFast h => (q, .ptr (headOr (q.elems h).reverse))
  | .prev h x => (q, .ptr (headOr ((q.elems h).takeWhile (· ≠ x)).reverse))
  | .prevFast h x => (q, .ptr (headOr ((q.elems h).takeWhile (· ≠ x)).reverse))
  | .foreach h => (q, .seq (q.elems h))
  | .foreachFrom h x => (q, .seq (fromElm x (q.elems h)))
  | .foreachReverse h => (q, .seq (q.elems h).reverse)
  | .foreachReverseFrom h x => (q, .seq (fromElm x (q.elems h).reverse))

/-- Where the field is in an element, and which addresses are those of heads
    and elements. -/
structure Layout (k : QueueKind) where
  off : Nat
  head : Nat → Prop
  elem : Nat → Prop
  elem_ne : ∀ x, elem x → x ≠ 0
  heads : ∀ h h', head h → head h' → h ≠ h' → h + k.headSize ≤ h' ∨ h' + k.headSize ≤ h
  elems : ∀ x y, elem x → elem y → x ≠ y → x + k.entrySize ≤ y ∨ y + k.entrySize ≤ x
  both : ∀ h x, head h → elem x → h + k.headSize ≤ x + off ∨ x + off + k.entrySize ≤ h

/-- The pointers of a head. -/
def InHead (k : QueueKind) (h c : Nat) : Prop := c = h ∨ (k.tail = true ∧ c = h + 8)

/-- The pointers of an element. -/
def InEntry (k : QueueKind) (off x c : Nat) : Prop :=
  c = x + off ∨ (k.dbl = true ∧ c = x + off + 8)

/-- The byte at `a` is one of a head or of the links of an element. -/
def Layout.Covers {k : QueueKind} (L : Layout k) (a : Nat) : Prop :=
  (∃ h, L.head h ∧ h ≤ a ∧ a < h + k.headSize) ∨
    ∃ x, L.elem x ∧ x + L.off ≤ a ∧ a < x + L.off + k.entrySize

/-- The pointer at `c` has no byte in common with them. -/
def Layout.Outside {k : QueueKind} (L : Layout k) (c : Nat) : Prop :=
  ∀ a, c ≤ a → a < c + 8 → ¬ L.Covers a

/-- The element is in no sequence. -/
def Queues.Free (q : Queues) (x : Nat) : Prop := ∀ h, x ∉ q.elems h

/-- Heads and elements are where they may be, and no element is shared. -/
structure Queues.Apart {k : QueueKind} (L : Layout k) (q : Queues) : Prop where
  head : ∀ h xs, q h = some xs → L.head h
  elem : ∀ h, ∀ x ∈ q.elems h, L.elem x
  nodup : ∀ h, (q.elems h).Nodup
  once : ∀ h h' x, x ∈ q.elems h → x ∈ q.elems h' → h = h'

/-- What a program may ask of the sequences. -/
def QueueFits {k : QueueKind} (L : Layout k) (q : Queues) : QueueOp → Prop
  | .init h => L.head h
  | .insertHead h x => (q h).isSome ∧ L.elem x ∧ q.Free x
  | .insertTail h x => (q h).isSome ∧ L.elem x ∧ q.Free x
  | .insertAfter h y x => y ∈ q.elems h ∧ L.elem x ∧ q.Free x
  | .insertBefore h y x => y ∈ q.elems h ∧ L.elem x ∧ q.Free x
  | .removeHead h => q.elems h ≠ []
  | .removeAfter h y => ∃ l z r, q.elems h = l ++ y :: z :: r
  | .remove h x => x ∈ q.elems h
  | .concat h h' => (q h).isSome ∧ (q h').isSome ∧ h ≠ h'
  | .swap h h' => (q h).isSome ∧ (q h').isSome ∧ h ≠ h'
  | .empty h => (q h).isSome
  | .first h => (q h).isSome
  | .next h x => x ∈ q.elems h
  | .last h => (q h).isSome
  | .lastFast h => (q h).isSome
  | .prev h x => x ∈ q.elems h
  | .prevFast h x => x ∈ q.elems h
  | .foreach h => (q h).isSome
  | .foreachFrom h x => (q h).isSome ∧ (x = 0 ∨ x ∈ q.elems h)
  | .foreachReverse h => (q h).isSome
  | .foreachReverseFrom h x => (q h).isSome ∧ (x = 0 ∨ x ∈ q.elems h)

/-- What a program may do, and loops run to the end: no sequence has as many
    elements as they have rounds. -/
def QueueLegal {k : QueueKind} (L : Layout k) (fuel : Nat) (q : Queues) (op : QueueOp) : Prop :=
  k.has op = true ∧ QueueFits L q op ∧ ∀ h, (q.elems h).length < fuel

theorem afterElm_split (y x : Nat) (l r : List Nat) (hl : y ∉ l) :
    afterElm y x (l ++ y :: r) = l ++ y :: x :: r := by
  induction l with
  | nil => exact if_pos rfl
  | cons z l ih =>
      rw [List.mem_cons, not_or] at hl
      rw [List.cons_append, afterElm, if_neg (Ne.symm hl.1), ih hl.2, List.cons_append]

theorem beforeElm_split (y x : Nat) (l r : List Nat) (hl : y ∉ l) :
    beforeElm y x (l ++ y :: r) = l ++ x :: y :: r := by
  induction l with
  | nil => exact if_pos rfl
  | cons z l ih =>
      rw [List.mem_cons, not_or] at hl
      rw [List.cons_append, beforeElm, if_neg (Ne.symm hl.1), ih hl.2, List.cons_append]

theorem dropAfter_split (y z : Nat) (l r : List Nat) (hl : y ∉ l) :
    dropAfter y (l ++ y :: z :: r) = l ++ y :: r := by
  induction l with
  | nil => exact if_pos rfl
  | cons w l ih =>
      rw [List.mem_cons, not_or] at hl
      rw [List.cons_append, dropAfter, if_neg (Ne.symm hl.1), ih hl.2, List.cons_append]

theorem erase_split (x : Nat) (l r : List Nat) (hl : x ∉ l) :
    (l ++ x :: r).erase x = l ++ r := by
  rw [List.erase_append_right _ hl, List.erase_cons_head]

theorem takeDrop_split (x : Nat) (l r : List Nat) (hl : x ∉ l) :
    (l ++ x :: r).takeWhile (· ≠ x) = l ∧ (l ++ x :: r).dropWhile (· ≠ x) = x :: r := by
  have hall : ∀ z ∈ l, decide (z ≠ x) = true := fun z hz =>
    decide_eq_true (fun hzx => hl (hzx ▸ hz))
  rw [List.takeWhile_append_of_pos hall, List.dropWhile_append_of_pos hall]
  simp only [ne_eq, not_true_eq_false, decide_false, List.takeWhile_cons, List.dropWhile_cons,
    Bool.false_eq_true, if_false, List.append_nil, and_self]

@[simp]
theorem queues_set_self (q : Queues) (h : Nat) (xs : List Nat) : q.set h xs h = some xs :=
  Function.update_self _ _ _

theorem queues_set_other (q : Queues) (h h' : Nat) (xs : List Nat) (hne : h' ≠ h) :
    q.set h xs h' = q h' :=
  Function.update_of_ne hne _ _

theorem elems_of_some (q : Queues) (h : Nat) (xs : List Nat) (hq : q h = some xs) :
    q.elems h = xs := by
  rw [Queues.elems, hq, Option.getD_some]

theorem some_elems (q : Queues) (h : Nat) (hq : (q h).isSome = true) : q h = some (q.elems h) := by
  rcases Option.isSome_iff_exists.mp hq with ⟨xs, hxs⟩
  rw [elems_of_some q h xs hxs, hxs]

/-- A head with an element has been initialised. -/
theorem isSome_of_mem (q : Queues) (h x : Nat) (hx : x ∈ q.elems h) : (q h).isSome = true := by
  cases hq : q h with
  | none =>
      rw [Queues.elems, hq] at hx
      exact absurd hx List.not_mem_nil
  | some xs => rfl

@[simp]
theorem elems_set_self (q : Queues) (h : Nat) (xs : List Nat) : (q.set h xs).elems h = xs :=
  elems_of_some _ h xs (queues_set_self q h xs)

theorem elems_set_other (q : Queues) (h h' : Nat) (xs : List Nat) (hne : h' ≠ h) :
    (q.set h xs).elems h' = q.elems h' := by
  rw [Queues.elems, queues_set_other q h h' xs hne, Queues.elems]

section Apart

variable {k : QueueKind} {L : Layout k}

/-- A new sequence for one head, of elements it had and elements that were
    free. -/
theorem apart_set (q : Queues) (h : Nat) (xs : List Nat) (hq : q.Apart L) (hhead : L.head h)
    (hnodup : xs.Nodup) (hmem : ∀ x ∈ xs, x ∈ q.elems h ∨ (L.elem x ∧ q.Free x)) :
    (q.set h xs).Apart L := by
  -- An element of the new queue was in this queue or in none.
  have hnew : ∀ h' x, x ∈ xs → x ∈ q.elems h' → h' = h := by
    intro h' x hx hx'
    rcases hmem x hx with hold | hfree
    · exact hq.once h' h x hx' hold
    · exact absurd hx' (hfree.2 h')
  -- Four conditions, each for the queue that has changed and for the others.
  refine ⟨fun h' ys hys => ?_, fun h' x hx => ?_, fun h' => ?_, fun h₁ h₂ x hx₁ hx₂ => ?_⟩
  · by_cases hh : h' = h
    · rw [hh]
      exact hhead
    · rw [queues_set_other q h h' xs hh] at hys
      exact hq.head h' ys hys
  · by_cases hh : h' = h
    · rw [hh, elems_set_self] at hx
      rcases hmem x hx with hold | hfree
      · exact hq.elem h x hold
      · exact hfree.1
    · rw [elems_set_other q h h' xs hh] at hx
      exact hq.elem h' x hx
  · by_cases hh : h' = h
    · rw [hh, elems_set_self]
      exact hnodup
    · rw [elems_set_other q h h' xs hh]
      exact hq.nodup h'
  · by_cases hh₁ : h₁ = h
    · by_cases hh₂ : h₂ = h
      · rw [hh₁, hh₂]
      · rw [hh₁, elems_set_self] at hx₁
        rw [elems_set_other q h h₂ xs hh₂] at hx₂
        exact absurd (hnew h₂ x hx₁ hx₂) hh₂
    · rw [elems_set_other q h h₁ xs hh₁] at hx₁
      by_cases hh₂ : h₂ = h
      · rw [hh₂, elems_set_self] at hx₂
        exact absurd (hnew h₁ x hx₂ hx₁) hh₁
      · rw [elems_set_other q h h₂ xs hh₂] at hx₂
        exact hq.once h₁ h₂ x hx₁ hx₂

theorem head_of_isSome (q : Queues) (h : Nat) (hq : q.Apart L) (hsome : (q h).isSome = true) :
    L.head h :=
  hq.head h (q.elems h) (some_elems q h hsome)

theorem apart_insert (q : Queues) (h x : Nat) (l r : List Nat) (hq : q.Apart L)
    (hhead : L.head h) (hlr : q.elems h = l ++ r) (hx : L.elem x) (hfree : q.Free x) :
    (q.set h (l ++ x :: r)).Apart L := by
  have hnodup := hq.nodup h
  have hnot := hfree h
  rw [hlr] at hnodup hnot
  refine apart_set q h _ hq hhead (List.nodup_middle.mpr (List.nodup_cons.mpr ⟨hnot, hnodup⟩)) ?_
  intro y hy
  rcases List.mem_cons.mp (List.perm_middle.mem_iff.mp hy) with hyx | hold
  · rw [hyx]
    exact Or.inr ⟨hx, hfree⟩
  · rw [hlr]
    exact Or.inl hold

theorem apart_remove (q : Queues) (h x : Nat) (l r : List Nat) (hq : q.Apart L)
    (hhead : L.head h) (hlr : q.elems h = l ++ x :: r) : (q.set h (l ++ r)).Apart L := by
  have hnodup := hq.nodup h
  rw [hlr] at hnodup
  refine apart_set q h _ hq hhead (List.nodup_cons.mp (List.nodup_middle.mp hnodup)).2 ?_
  intro y hy
  rw [hlr]
  exact Or.inl (List.perm_middle.mem_iff.mpr (List.mem_cons_of_mem x hy))

/-- A sequence that is let go of is free. -/
theorem free_of_mem (q : Queues) (h x : Nat) (hq : q.Apart L) (hx : x ∈ q.elems h) :
    (q.set h []).Free x := by
  intro h' hx'
  by_cases hh : h' = h
  · rw [hh, elems_set_self] at hx'
    exact absurd hx' List.not_mem_nil
  · rw [elems_set_other q h h' [] hh] at hx'
    exact hh (hq.once h' h x hx' hx)

theorem apart_clear (q : Queues) (h : Nat) (hq : q.Apart L) (hhead : L.head h) :
    (q.set h []).Apart L :=
  apart_set q h [] hq hhead List.nodup_nil (fun _ hx => absurd hx List.not_mem_nil)

theorem apart_concat (q : Queues) (h h' : Nat) (hq : q.Apart L) (hhead : L.head h)
    (hhead' : L.head h') (hne : h ≠ h') :
    ((q.set h' []).set h (q.elems h ++ q.elems h')).Apart L := by
  have hdisj : ∀ x ∈ q.elems h, x ∉ q.elems h' := fun x hx hx' => hne (hq.once h h' x hx hx')
  refine apart_set _ h _ (apart_clear q h' hq hhead') hhead
    (List.nodup_append'.mpr ⟨hq.nodup h, hq.nodup h', hdisj⟩) (fun x hx => ?_)
  rcases List.mem_append.mp hx with hmine | hother
  · rw [elems_set_other q h' h [] hne]
    exact Or.inl hmine
  · exact Or.inr ⟨hq.elem h' x hother, free_of_mem q h' x hq hother⟩

/-- The one is let go of, then each head takes the sequence of the other. -/
theorem apart_swap (q : Queues) (h h' : Nat) (hq : q.Apart L) (hhead : L.head h)
    (hhead' : L.head h') (hne : h ≠ h') :
    (((q.set h []).set h' (q.elems h)).set h (q.elems h')).Apart L := by
  have hclear := apart_clear q h hq hhead
  have hfirst : ((q.set h []).set h' (q.elems h)).Apart L :=
    apart_set _ h' _ hclear hhead' (hq.nodup h)
      (fun x hx => Or.inr ⟨hq.elem h x hx, free_of_mem q h x hq hx⟩)
  refine apart_set _ h _ hfirst hhead (hq.nodup h') (fun x hx => Or.inr ⟨hq.elem h' x hx, ?_⟩)
  -- What the other head had is nobody's once it has been replaced.
  intro h₁ hx₁
  by_cases hh' : h₁ = h'
  · rw [hh', elems_set_self] at hx₁
    exact hne (hq.once h h' x hx₁ hx)
  · rw [elems_set_other _ h' h₁ _ hh'] at hx₁
    by_cases hh : h₁ = h
    · rw [hh, elems_set_self] at hx₁
      exact absurd hx₁ List.not_mem_nil
    · rw [elems_set_other q h h₁ _ hh] at hx₁
      exact hh' (hq.once h₁ h' x hx₁ hx)

theorem inHead_bounds (h c : Nat) (hc : InHead k h c) : h ≤ c ∧ c + 8 ≤ h + k.headSize := by
  rw [QueueKind.headSize]
  rcases hc with hc | ⟨htail, hc⟩
  · split <;> omega
  · rw [if_pos htail]
    omega

theorem inEntry_bounds (off x c : Nat) (hc : InEntry k off x c) :
    x + off ≤ c ∧ c + 8 ≤ x + off + k.entrySize := by
  rw [QueueKind.entrySize]
  rcases hc with hc | ⟨hdbl, hc⟩
  · split <;> omega
  · rw [if_pos hdbl]
    omega

theorem entry_unique (L : Layout k) (x y c : Nat) (hx : L.elem x) (hy : L.elem y)
    (hxc : InEntry k L.off x c) (hyc : InEntry k L.off y c) : x = y := by
  by_contra hne
  have hapart := L.elems x y hx hy hne
  have hxb := inEntry_bounds L.off x c hxc
  have hyb := inEntry_bounds L.off y c hyc
  omega

theorem head_unique (L : Layout k) (h h' c : Nat) (hh : L.head h) (hh' : L.head h')
    (hc : InHead k h c) (hc' : InHead k h' c) : h = h' := by
  by_contra hne
  have hapart := L.heads h h' hh hh' hne
  have hb := inHead_bounds h c hc
  have hb' := inHead_bounds h' c hc'
  omega

theorem head_entry_ne (L : Layout k) (h x c : Nat) (hh : L.head h) (hx : L.elem x)
    (hc : InHead k h c) (hxc : InEntry k L.off x c) : False := by
  have hapart := L.both h x hh hx
  have hb := inHead_bounds h c hc
  have hxb := inEntry_bounds L.off x c hxc
  omega

/-- The bytes of a pointer of a head. -/
theorem inHead_covers (L : Layout k) (h c : Nat) (hh : L.head h) (hc : InHead k h c) (a : Nat)
    (hlo : c ≤ a) (hhi : a < c + 8) : L.Covers a := by
  have hb := inHead_bounds h c hc
  exact Or.inl ⟨h, hh, by omega, by omega⟩

/-- The bytes of a pointer of an element. -/
theorem inEntry_covers (L : Layout k) (x c : Nat) (hx : L.elem x) (hc : InEntry k L.off x c)
    (a : Nat) (hlo : c ≤ a) (hhi : a < c + 8) : L.Covers a := by
  have hb := inEntry_bounds L.off x c hc
  exact Or.inr ⟨x, hx, by omega, by omega⟩

end Apart

end Aircmn
