import Mathlib.Data.List.Induction
import Aircmn.Theory.Queue.Change

/-!
# Reading a Sequence

What the macros find that do not change anything, and the search of those that
do. A loop follows the pointers that lead on, from the first element or from
one that is given. The search for the element before another stops there
because no element occurs twice, and the search for the last one because no
element is null.

Going back is different in the two structures that can. `LIST_PREV` and the
fast macros of a tail queue compare the pointer back with the head and
otherwise subtract the offset of the field. `TAILQ_LAST` and `TAILQ_PREV` take
the slot before the last slot, or before the element, for a head: behind a
head is the address of its last slot, behind the slot in an element the address
of the slot before, and in both cases what that leads to is what was asked for.
If there is nothing before, they read the head as what it is, and find the null
pointer at the end of the whole queue.

## Main definitions

* `InsertRoom`, `RemoveRoom`: What is written are different pointers.

## Theorems

* `seek_before`, `seek_last`: What a search finds.
* `foreach_eq`, `foreachFrom_eq`, `next_eq`: Going on.
* `lastFast_eq`, `prevFast_eq`: Going back by subtraction.
* `behind_eq`, `foreachReverse_eq`, `foreachReverseFrom_eq`: Going back in a
  tail queue.
* `ask_empty` and on: What is read where the sequences are held.
* `insert_room`, `remove_room`: There is room where the sequences are held.
* `joined_none`: Nothing is put behind a sequence.
-/

namespace Aircmn

open Links

/-- Putting `x` behind slot `b` does not write twice to one pointer. -/
structure InsertRoom (k : QueueKind) (off h : Nat) (s : Store) (b x : Nat) : Prop where
  entry : b ≠ x + off
  back : k.dbl = true → b ≠ x + off + 8
  next : k.dbl = true → s b ≠ 0 → b ≠ s b + off + 8 ∧ x + off ≠ s b + off + 8 ∧ x ≠ s b
  tail : k.tail = true → b ≠ h + 8 ∧ x + off ≠ h + 8
  both : k.tail = true → k.dbl = true → x + off + 8 ≠ h + 8 ∧ (s b ≠ 0 → s b + off + 8 ≠ h + 8)

/-- Taking `x` out from behind slot `b` does not write twice to one pointer, or
    to `x`. -/
structure RemoveRoom (k : QueueKind) (off h : Nat) (s : Store) (b x : Nat) : Prop where
  next : k.dbl = true → s (x + off) ≠ 0 →
    b ≠ s (x + off) + off + 8 ∧ x + off ≠ s (x + off) + off + 8 ∧ x ≠ s (x + off)
  tail : k.tail = true → b ≠ h + 8
  both : k.tail = true → k.dbl = true →
    (x + off ≠ h + 8 ∧ x + off + 8 ≠ h + 8) ∧
      (s (x + off) ≠ 0 → s (x + off) + off + 8 ≠ h + 8)

section Read

variable {k : QueueKind} (L : Layout k) (s : Store) (h : Nat) (xs : List Nat)

theorem path_of_linked : ∀ (xs : List Nat) (a : Nat), (∀ z ∈ xs, L.elem z) →
    Linked (QueueLink k L.off s) (· + L.off) a xs → s (lastSlot (· + L.off) a xs) = 0 →
    Path (queueNext L.off s) (s a) xs := by
  intro xs
  induction xs with
  | nil =>
      intro a _ _ hends
      exact hends
  | cons x xs ih =>
      intro a hel hlink hends
      refine ⟨hlink.1.1, L.elem_ne x (hel x List.mem_cons_self), ?_⟩
      exact ih (x + L.off) (fun z hz => hel z (List.mem_cons_of_mem x hz)) hlink.2 hends

/-- A search for what the last element of a part leads to finds it. -/
theorem seek_eq (elm y : Nat) : ∀ (l : List Nat) (a fuel : Nat),
    Linked (QueueLink k L.off s) (· + L.off) a (l ++ [y]) → (∀ z ∈ l ++ [y], L.elem z) →
    elm ∉ l ++ [y] → s (y + L.off) = elm → l.length < fuel →
    seek L.off s elm fuel (s a) = some y := by
  -- The slot at a holds the first of l ++ [y], and the induction moves a along the links.
  intro l
  induction l with
  | nil =>
      intro a fuel hlink hel _ hy hfuel
      cases fuel with
      -- Each element costs a unit of fuel, and hfuel leaves one more than there are links.
      | zero => exact absurd hfuel (Nat.not_lt_zero _)
      | succ fuel =>
          rw [hlink.1.1, seek, if_neg (L.elem_ne y (hel y List.mem_cons_self)), if_pos hy]
  | cons z l ih =>
      intro a fuel hlink hel hnot hy hfuel
      cases fuel with
      | zero => exact absurd hfuel (Nat.not_lt_zero _)
      | succ fuel =>
          rw [List.cons_append, List.mem_cons, not_or] at hnot
          -- Some later element is elm's successor only if it stands in the list, which hnot rules
          -- out.
          have hlater : s (z + L.off) ≠ elm := by
            intro heq
            refine hnot.2 (heq ▸ ?_)
            have hrest := hlink.2
            cases l with
            | nil => exact hrest.1.1.symm ▸ List.mem_cons_self
            | cons w l => exact hrest.1.1.symm ▸ List.mem_cons_self
          rw [hlink.1.1, seek, if_neg (L.elem_ne z (hel z List.mem_cons_self)), if_neg hlater]
          exact ih (z + L.off) fuel hlink.2 (fun w hw => hel w (List.mem_cons_of_mem z hw)) hnot.2
            hy (Nat.lt_of_succ_lt_succ hfuel)

section Ahead

variable (hel : ∀ z ∈ xs, L.elem z) (hat : QueueAt k L.off s h xs)

include hel hat

theorem empty_eq : queueEmpty s h = xs.isEmpty := by
  rw [queueEmpty, queueAt_first L s h xs hat]
  cases xs with
  | nil => rfl
  | cons x xs => exact beq_eq_false_iff_ne.mpr (L.elem_ne x (hel x List.mem_cons_self))

theorem first_eq_zero : s h = 0 ↔ xs = [] := by
  rw [queueAt_first L s h xs hat]
  cases xs with
  | nil => exact ⟨fun _ => rfl, fun _ => rfl⟩
  | cons x xs =>
      exact ⟨fun heq => absurd heq (L.elem_ne x (hel x List.mem_cons_self)),
        fun heq => absurd heq (List.cons_ne_nil x xs)⟩

theorem foreach_eq (fuel : Nat) (hfuel : xs.length < fuel) :
    queueForeach L.off fuel s h = some xs :=
  walk_of_path _ xs fuel _ hfuel (path_of_linked L s xs h hel hat.linked hat.ends)

/-- A search for what the slot of an element leads to. -/
theorem seek_slot (y fuel : Nat) (l r : List Nat) (hlr : xs = l ++ [y] ++ r)
    (hnot : headOr r ∉ l ++ [y]) (hfuel : xs.length < fuel) :
    s h ≠ headOr r ∧ s (y + L.off) = headOr r ∧
      seek L.off s (headOr r) fuel (s h) = some y := by
  rw [hlr] at hat hel hfuel
  -- The queue cut after y: up to y it is a list of its own, and the slot of y holds the head of r.
  rcases queueAt_cut L s h (l ++ [y]) r hat with ⟨hlink, _, _, hlead⟩
  rw [lastSlot_concat] at hlead
  refine ⟨fun heq => hnot ?_, hlead, ?_⟩
  · rw [queueAt_first L s h _ hat] at heq
    -- If the head pointed to what follows y, that element would also come first.
    rw [← heq]
    cases l with
    | nil => exact List.mem_cons_self
    | cons z l => exact List.mem_cons_self
  · rw [List.length_append, List.length_append] at hfuel
    exact seek_eq L s (headOr r) y l h fuel hlink
      (fun z hz => hel z (List.mem_append_left r hz)) hnot hlead (by omega)

/-- The search for the element before one that is not the first. -/
theorem seek_before (x fuel : Nat) (l r : List Nat) (hlr : xs = l ++ x :: r) (hl : x ∉ l)
    (hfuel : xs.length < fuel) :
    (l = [] ∧ s h = x) ∨ ∃ l' y, l = l' ++ [y] ∧ s h ≠ x ∧ s (y + L.off) = x ∧
      seek L.off s x fuel (s h) = some y := by
  rcases List.eq_nil_or_concat l with hnil | ⟨l', y, hl'⟩
  · rw [hlr, hnil] at hat
    exact Or.inl ⟨hnil, queueAt_first L s h _ hat⟩
  · rw [List.concat_eq_append] at hl'
    rw [hl'] at hlr hl
    exact Or.inr ⟨l', y, hl', seek_slot L s h xs hel hat y fuel l' (x :: r) hlr hl hfuel⟩

/-- The search for the last element. -/
theorem seek_last (fuel : Nat) (hfuel : xs.length < fuel) :
    (xs = [] ∧ s h = 0) ∨ ∃ l y, xs = l ++ [y] ∧ s h ≠ 0 ∧ s (y + L.off) = 0 ∧
      seek L.off s 0 fuel (s h) = some y := by
  rcases List.eq_nil_or_concat xs with hnil | ⟨l, y, hxs⟩
  · exact Or.inl ⟨hnil, (first_eq_zero L s h xs hel hat).mpr hnil⟩
  · rw [List.concat_eq_append] at hxs
    have hnull : (0 : Nat) ∉ l ++ [y] := fun hmem => L.elem_ne 0 (hel 0 (hxs ▸ hmem)) rfl
    exact Or.inr ⟨l, y, hxs, seek_slot L s h xs hel hat y fuel l [] (by rw [hxs, List.append_nil])
      hnull hfuel⟩

omit hel in
theorem next_eq (x : Nat) (l r : List Nat) (hlr : xs = l ++ x :: r) :
    queueNext L.off s x = headOr r := by
  rw [hlr, List.append_cons] at hat
  have hlead := (queueAt_cut L s h (l ++ [x]) r hat).2.2.2
  rwa [lastSlot_concat] at hlead

theorem foreachFrom_eq (fuel x : Nat) (hfuel : xs.length < fuel) (hx : x = 0 ∨ x ∈ xs)
    (hnodup : xs.Nodup) : queueForeachFrom L.off fuel s h x = some (fromElm x xs) := by
  -- FOREACH_FROM with NULL starts at the head, as FOREACH does.
  by_cases hx0 : x = 0
  · rw [queueForeachFrom, fromElm, if_pos hx0, if_neg (not_not.mpr hx0)]
    exact foreach_eq L s h xs hel hat fuel hfuel
  · rcases List.append_of_mem (hx.resolve_left hx0) with ⟨l, r, hlr⟩
    rw [hlr] at hat hel hnodup hfuel ⊢
    have hl : x ∉ l := fun hmem => (List.nodup_append'.mp hnodup).2.2 hmem List.mem_cons_self
    -- From x on the links are those of the list cut in front of x.
    rcases queueAt_cut L s h l (x :: r) hat with ⟨_, hlinkr, hends, hlead⟩
    rw [queueForeachFrom, fromElm, if_neg hx0, if_pos hx0, (takeDrop_split x l r hl).2]
    rw [List.length_append] at hfuel
    refine walk_of_path _ (x :: r) fuel x (by omega) ?_
    have hpath := path_of_linked L s (x :: r) _ (fun z hz => hel z (List.mem_append_right l hz))
      hlinkr hends
    rwa [hlead] at hpath

end Ahead

theorem headOr_reverse (l : List Nat) (y : Nat) : headOr (l ++ [y]).reverse = y := by
  rw [List.reverse_append]
  rfl

/-- A slot with the offset of the field taken off is the element, unless it is
    the head. -/
theorem lastSlot_sub (off : Nat) (l : List Nat) (hhead : ∀ z ∈ l, z + off ≠ h) :
    (if lastSlot (· + off) h l = h then 0 else lastSlot (· + off) h l - off)
      = headOr l.reverse := by
  rcases List.eq_nil_or_concat l with hl | ⟨l', y, hl⟩
  · rw [hl]
    exact if_pos rfl
  · rw [hl, List.concat_eq_append, lastSlot_concat, headOr_reverse, Nat.add_sub_cancel]
    refine if_neg (hhead y ?_)
    rw [hl, List.concat_eq_append]
    exact List.mem_append_right l' List.mem_cons_self

theorem lastFast_eq (hk : k.tail = true) (hh : L.head h) (hel : ∀ z ∈ xs, L.elem z)
    (hat : QueueAt k L.off s h xs) :
    (if s h = 0 then 0 else s (h + 8) - L.off) = headOr xs.reverse := by
  rw [← lastSlot_sub h L.off xs (fun z hz => slot_ne_head L h hh z (hel z hz)), hat.tail hk]
  -- The macro tests the head pointer; the tail pointer it then reads is the last element's slot.
  by_cases hxs : xs = []
  · rw [if_pos ((first_eq_zero L s h xs hel hat).mpr hxs), hxs]
    exact (if_pos rfl).symm
  · rcases (List.eq_nil_or_concat xs).resolve_left hxs with ⟨l, y, hl⟩
    rw [List.concat_eq_append] at hl
    have hy : y ∈ xs := by
      rw [hl]
      exact List.mem_append_right l List.mem_cons_self
    rw [if_neg (fun h0 => hxs ((first_eq_zero L s h xs hel hat).mp h0)), hl, lastSlot_concat,
      if_neg (slot_ne_head L h hh y (hel y hy))]

section Back

variable (hk : k.dbl = true) (hat : QueueAt k L.off s h xs)

include hk hat

/-- The pointer back of an element. -/
theorem back_eq (x : Nat) (l r : List Nat) (hlr : xs = l ++ x :: r) :
    s (x + L.off + 8) = lastSlot (· + L.off) h l := by
  rw [hlr] at hat
  exact (queueAt_cut L s h l (x :: r) hat).2.1.1.2 hk

theorem prevFast_eq (x : Nat) (l r : List Nat) (hlr : xs = l ++ x :: r) (hh : L.head h)
    (hel : ∀ z ∈ xs, L.elem z) :
    (if s (x + L.off + 8) = h then 0 else s (x + L.off + 8) - L.off) = headOr l.reverse := by
  rw [back_eq L s h xs hk hat x l r hlr]
  refine lastSlot_sub h L.off l (fun z hz => slot_ne_head L h hh z (hel z ?_))
  rw [hlr]
  exact List.mem_append_left _ hz

variable (htail : k.tail = true)

include htail

/-- What is before a slot that is taken for a head. -/
theorem behind_eq (l r : List Nat) (hlr : xs = l ++ r) :
    tailqBehind s (lastSlot (· + L.off) h l) = headOr l.reverse := by
  rcases List.eq_nil_or_concat l with hl | ⟨l', y, hl⟩
  · rw [hl, lastSlot, tailqBehind, hat.tail htail]
    exact hat.ends
  · rw [List.concat_eq_append] at hl
    rw [hl, lastSlot_concat, tailqBehind, headOr_reverse]
    have hsplit : xs = l' ++ y :: r := by rw [hlr, hl, List.append_assoc, List.singleton_append]
    rw [back_eq L s h xs hk hat y l' r hsplit]
    rw [hsplit] at hat
    exact (queueAt_cut L s h l' (y :: r) hat).2.2.2

theorem last_eq : tailqLast s h = headOr xs.reverse := by
  rw [tailqLast, hat.tail htail]
  exact behind_eq L s h xs hk hat htail xs [] (List.append_nil xs).symm

theorem prev_eq (x : Nat) (l r : List Nat) (hlr : xs = l ++ x :: r) :
    tailqPrev L.off s x = headOr l.reverse := by
  rw [tailqPrev, back_eq L s h xs hk hat x l r hlr]
  exact behind_eq L s h xs hk hat htail l (x :: r) hlr

/-- The pointers that lead back from any element. -/
theorem path_reverse (hel : ∀ z ∈ xs, L.elem z) : ∀ (l r : List Nat), xs = l ++ r →
    Path (tailqPrev L.off s) (headOr l.reverse) l.reverse := by
  intro l
  -- The path backwards grows at the end of l, so the induction is on l read from its end.
  induction l using List.reverseRecOn with
  | nil =>
      intro r _
      rfl
  | append_singleton l y ih =>
      intro r hlr
      have hsplit : xs = l ++ y :: r := by rw [hlr, List.append_assoc, List.singleton_append]
      have hy : y ∈ xs := by
        rw [hsplit]
        exact List.mem_append_right l List.mem_cons_self
      rw [headOr_reverse, List.reverse_append]
      refine ⟨rfl, L.elem_ne y (hel y hy), ?_⟩
      -- TAILQ_PREV goes through the back links of y and of the element before it.
      rw [prev_eq L s h xs hk hat htail y l r hsplit]
      exact ih (y :: r) hsplit

theorem foreachReverse_eq (hel : ∀ z ∈ xs, L.elem z) (fuel : Nat) (hfuel : xs.length < fuel) :
    tailqForeachReverse L.off fuel s h = some xs.reverse := by
  refine walk_of_path _ _ fuel _ (by rwa [List.length_reverse]) ?_
  rw [last_eq L s h xs hk hat htail]
  exact path_reverse L s h xs hk hat htail hel xs [] (List.append_nil xs).symm

theorem foreachReverseFrom_eq (hel : ∀ z ∈ xs, L.elem z) (fuel x : Nat)
    (hfuel : xs.length < fuel) (hx : x = 0 ∨ x ∈ xs) (hnodup : xs.Nodup) :
    tailqForeachReverseFrom L.off fuel s h x = some (fromElm x xs.reverse) := by
  -- With NULL the walk starts at the end of the queue, as FOREACH_REVERSE does.
  by_cases hx0 : x = 0
  · rw [tailqForeachReverseFrom, fromElm, if_pos hx0, if_neg (not_not.mpr hx0)]
    exact foreachReverse_eq L s h xs hk hat htail hel fuel hfuel
  · rcases List.append_of_mem (hx.resolve_left hx0) with ⟨l, r, hlr⟩
    have hr : x ∉ r.reverse := by
      rw [hlr] at hnodup
      -- x stands once in the queue, so it is not among the elements behind it.
      rw [List.mem_reverse]
      exact (List.nodup_cons.mp (List.nodup_append'.mp hnodup).2.1).1
    have hrev : xs.reverse = r.reverse ++ x :: l.reverse := by
      rw [hlr, List.reverse_append, List.reverse_cons, List.append_assoc, List.singleton_append]
    have hpath := path_reverse L s h xs hk hat htail hel (l ++ [x]) r
      (by rw [hlr, List.append_cons])
    rw [tailqForeachReverseFrom, fromElm, if_neg hx0, if_pos hx0, hrev,
      (takeDrop_split x r.reverse l.reverse hr).2]
    rw [headOr_reverse, List.reverse_append] at hpath
    -- The fuel covers the whole queue, and what is walked is a part of it.
    refine walk_of_path _ (x :: l.reverse) fuel x ?_ hpath
    rw [hlr, List.length_append, List.length_cons] at hfuel
    rw [List.length_cons, List.length_reverse]
    omega

end Back

theorem cleared_tail (hk : k.tail = true) : Cleared k h s ((s.set h 0).set (h + 8) h) := by
  refine ⟨?_, fun _ => set_self _ _ _, fun c hc => ?_⟩
  · rw [set_other _ _ _ _ (show h ≠ h + 8 by omega), set_self]
  · rw [set_other _ _ _ _ (fun heq => hc (Or.inr ⟨hk, heq⟩)),
      set_other _ _ _ _ (fun heq => hc (Or.inl heq))]

end Read

/-! ### Operations on sequences that are held -/

section Ask

variable {k : QueueKind} (L : Layout k) (s : Store) (q : Queues) (hold : Holds L s q)

include hold

theorem ask_empty (h : Nat) (hsome : (q h).isSome = true) :
    queueEmpty s h = (q.elems h).isEmpty := by
  rcases holds_seq L s q h _ hold rfl hsome with ⟨_, hel, _, hat⟩
  exact empty_eq L s h _ hel hat

theorem ask_first (h : Nat) (hsome : (q h).isSome = true) :
    queueFirst s h = headOr (q.elems h) :=
  queueAt_first L s h _ (hold.seqs h hsome)

theorem ask_next (h x : Nat) (hx : x ∈ q.elems h) :
    queueNext L.off s x = headOr ((q.elems h).dropWhile (· ≠ x)).tail := by
  rcases elems_split L q h x hold.apart hx with ⟨l, r, hlr, hl⟩
  rw [hlr, (takeDrop_split x l r hl).2]
  exact next_eq L s h _ (hold.seqs h (isSome_of_mem q h x hx)) x l r hlr

theorem ask_foreach (fuel h : Nat) (hsome : (q h).isSome = true)
    (hfuel : (q.elems h).length < fuel) :
    queueMet s (queueForeach L.off fuel s h) = (s, .seq (q.elems h)) := by
  rcases holds_seq L s q h _ hold rfl hsome with ⟨_, hel, _, hat⟩
  rw [foreach_eq L s h _ hel hat fuel hfuel, queueMet]

theorem ask_foreachFrom (fuel h x : Nat) (hsome : (q h).isSome = true)
    (hx : x = 0 ∨ x ∈ q.elems h) (hfuel : (q.elems h).length < fuel) :
    queueMet s (queueForeachFrom L.off fuel s h x) = (s, .seq (fromElm x (q.elems h))) := by
  rcases holds_seq L s q h _ hold rfl hsome with ⟨_, hel, hnodup, hat⟩
  rw [foreachFrom_eq L s h _ hel hat fuel x hfuel hx hnodup, queueMet]

theorem ask_lastFast (hk : k.tail = true) (h : Nat) (hsome : (q h).isSome = true) :
    (if s h = 0 then 0 else s (h + 8) - L.off) = headOr (q.elems h).reverse := by
  rcases holds_seq L s q h _ hold rfl hsome with ⟨hh, hel, _, hat⟩
  exact lastFast_eq L s h _ hk hh hel hat

theorem ask_prevFast (hk : k.dbl = true) (h x : Nat) (hx : x ∈ q.elems h) :
    (if s (x + L.off + 8) = h then 0 else s (x + L.off + 8) - L.off)
      = headOr ((q.elems h).takeWhile (· ≠ x)).reverse := by
  rcases elems_split L q h x hold.apart hx with ⟨l, r, hlr, hl⟩
  rcases holds_seq L s q h _ hold rfl (isSome_of_mem q h x hx) with ⟨hh, hel, _, hat⟩
  rw [prevFast_eq L s h _ hk hat x l r hlr hh hel, hlr, (takeDrop_split x l r hl).1]

/-- The first element of a sequence that has one. -/
theorem head_split (h : Nat) (hne : q.elems h ≠ []) :
    ∃ r, q.elems h = s h :: r ∧ (q h).isSome = true := by
  rcases List.exists_cons_of_ne_nil hne with ⟨x, r, hxr⟩
  have hsome := isSome_of_mem q h x (hxr ▸ List.mem_cons_self)
  have hfirst := queueAt_first L s h _ (hold.seqs h hsome)
  rw [hxr] at hfirst
  exact ⟨r, by rw [hxr, hfirst, headOr, List.head?_cons, Option.getD_some], hsome⟩

/-- The element behind one that is not the last. -/
theorem after_split (h y z : Nat) (l r : List Nat) (hlr : q.elems h = l ++ y :: z :: r) :
    s (y + L.off) = z := by
  have hsome := isSome_of_mem q h y (hlr ▸ List.mem_append_right l List.mem_cons_self)
  exact next_eq L s h _ (hold.seqs h hsome) y l (z :: r) hlr

/-- What is written when an element is put in are different pointers. -/
theorem insert_room (h x : Nat) (l r : List Nat) (hlr : q.elems h = l ++ r)
    (hsome : (q h).isSome = true) (hx : L.elem x) (hfree : q.Free x) :
    InsertRoom k L.off h s (lastSlot (· + L.off) h l) x := by
  rcases holds_seq L s q h _ hold hlr hsome with ⟨hh, hel, _, hat⟩
  -- The new element is not in this queue, and b is the slot it is to be linked at.
  have hnew : x ∉ l ++ r := hlr ▸ hfree h
  have hlead := (queueAt_cut L s h l r hat).2.2.2
  have hslot := isSlot_mono L.off h _ l (l ++ r) (fun z hz => List.mem_append_left r hz)
    (lastSlot_isSlot L.off h l)
  generalize lastSlot (· + L.off) h l = b at hlead hslot ⊢
  have hentry := slot_not_inEntry L h _ hh hel b x hx hnew hslot
  -- What the slot pointed to is an element of the queue, unless it was the end.
  have hmem : s b ≠ 0 → s b ∈ l ++ r := by
    intro hne
    rw [hlead] at hne ⊢
    exact List.mem_append_right l (headOr_mem r hne)
  -- The three clauses are for the entries' own fields, the successor's back link and the head's
  -- tail pointer.
  refine ⟨fun heq => hentry (Or.inl heq), fun hk heq => hentry (Or.inr ⟨hk, heq⟩),
    fun hk hne => ⟨?_, ?_, ?_⟩, fun hk => ⟨?_, ?_⟩, fun hk hd => ⟨?_, fun hne => ?_⟩⟩
  · exact slot_ne_back L h _ hh hel b _ (hel _ (hmem hne)) hk hslot
  · intro heq
    exact hnew (entry_unique L x (s b) (x + L.off) hx (hel _ (hmem hne)) (Or.inl rfl)
      (Or.inr ⟨hk, heq⟩) ▸ hmem hne)
  · exact fun heq => hnew (heq ▸ hmem hne)
  · exact slot_ne_tail L h _ hh hel b hk hslot
  · exact fun heq => head_entry_ne L h x _ hh hx (Or.inr ⟨hk, heq⟩) (Or.inl rfl)
  · exact back_ne_tail L h hh x hx hd hk
  · exact back_ne_tail L h hh _ (hel _ (hmem hne)) hd hk

theorem insert_room_after (h y x : Nat) (hy : y ∈ q.elems h) (hx : L.elem x)
    (hfree : q.Free x) : InsertRoom k L.off h s (y + L.off) x := by
  rcases elems_split L q h y hold.apart hy with ⟨l, r, hlr, _⟩
  rw [List.append_cons] at hlr
  rw [← lastSlot_concat L.off h y l]
  exact insert_room L s q hold h x (l ++ [y]) r hlr (isSome_of_mem q h y hy) hx hfree

/-- What is written when an element is taken out are different pointers, and
    not those of the element. -/
theorem remove_room (h x : Nat) (l r : List Nat) (hlr : q.elems h = l ++ x :: r) :
    RemoveRoom k L.off h s (lastSlot (· + L.off) h l) x := by
  have hx : x ∈ q.elems h := hlr ▸ List.mem_append_right l List.mem_cons_self
  rcases holds_seq L s q h _ hold rfl (isSome_of_mem q h x hx) with ⟨hh, hel, hnodup, hat⟩
  have hnext : s (x + L.off) = headOr r := next_eq L s h _ hat x l r hlr
  have hslot := isSlot_mono L.off h _ l (q.elems h)
    -- x is in the queue, so what follows it is in the queue too and is not x.
    (fun z hz => hlr ▸ List.mem_append_left (x :: r) hz) (lastSlot_isSlot L.off h l)
  generalize lastSlot (· + L.off) h l = b at hslot ⊢
  have hmem : s (x + L.off) ≠ 0 → s (x + L.off) ∈ q.elems h ∧ x ≠ s (x + L.off) := by
    intro hne
    rw [hnext] at hne ⊢
    rw [hlr] at hnodup ⊢
    have hfirst := headOr_mem r hne
    refine ⟨List.mem_append_right l (List.mem_cons_of_mem x hfirst), fun heq => ?_⟩
    exact (List.nodup_cons.mp (List.nodup_append'.mp hnodup).2.1).1 (heq ▸ hfirst)
  -- The same three clauses as for an insertion, with the element of x in place of the new one.
  refine ⟨fun hk hne => ⟨?_, ?_, (hmem hne).2⟩, fun hk => ?_, fun hk hd => ⟨?_, fun hne => ?_⟩⟩
  · exact slot_ne_back L h _ hh hel b _ (hel _ (hmem hne).1) hk hslot
  · exact slot_ne_back L h _ hh hel _ _ (hel _ (hmem hne).1) hk (Or.inr ⟨x, hx, rfl⟩)
  · exact slot_ne_tail L h _ hh hel b hk hslot
  · exact ⟨slot_ne_tail L h _ hh hel _ hk (Or.inr ⟨x, hx, rfl⟩),
      back_ne_tail L h hh x (hel x hx) hd hk⟩
  · exact back_ne_tail L h hh _ (hel _ (hmem hne).1) hd hk

/-- The last slot of a sequence is not the head of another. -/
theorem lastSlot_ne_head (h h' : Nat) (hsome' : (q h').isSome = true) (hne : h ≠ h') :
    lastSlot (· + L.off) h (q.elems h) ≠ h' := by
  have hh' := head_of_isSome q h' hold.apart hsome'
  rcases lastSlot_isSlot L.off h (q.elems h) with hhead | ⟨z, hz, hslot⟩
  · rwa [hhead]
  · rw [hslot]
    exact slot_ne_head L h' hh' z (hold.apart.elem h z hz)

/-- Nor is it the second pointer of another. -/
theorem lastSlot_ne_back (hk : k.tail = true) (h h' : Nat) (hsome : (q h).isSome = true)
    (hsome' : (q h').isSome = true) (hne : h ≠ h') :
    lastSlot (· + L.off) h (q.elems h) ≠ h' + 8 := by
  intro heq
  have hh' := head_of_isSome q h' hold.apart hsome'
  have hin : InHead k h' (h' + 8) := Or.inr ⟨hk, rfl⟩
  rcases lastSlot_isSlot L.off h (q.elems h) with hhead | ⟨z, hz, hslot⟩
  · have hh := head_of_isSome q h hold.apart hsome
    exact hne (head_unique L h h' h hh hh' (Or.inl rfl) (hhead ▸ heq ▸ hin))
  · exact head_entry_ne L h' z _ hh' (hold.apart.elem h z hz) hin (Or.inl (heq ▸ hslot))

/-- The first element of a sequence, and a head. -/
theorem first_elem (h : Nat) (hsome : (q h).isSome = true) (hne : s h ≠ 0) :
    s h ∈ q.elems h ∧ L.elem (s h) := by
  rw [queueAt_first L s h _ (hold.seqs h hsome)] at hne ⊢
  have hmem := headOr_mem _ hne
  exact ⟨hmem, hold.apart.elem h _ hmem⟩

/-- The pointer back of a first element is none of a head. -/
theorem first_room (hk : k.dbl = true) (h g : Nat) (hsome : (q h).isSome = true)
    (hsome' : (q g).isSome = true) (hne : s h ≠ 0) :
    s h + L.off + 8 ≠ g ∧ (k.tail = true → s h + L.off + 8 ≠ g + 8) := by
  have hg := head_of_isSome q g hold.apart hsome'
  have hfirst := (first_elem L s q hold h hsome hne).2
  constructor
  · exact fun heq => head_entry_ne L g _ _ hg hfirst (Or.inl heq) (Or.inr ⟨hk, rfl⟩)
  · exact fun htail heq =>
      head_entry_ne L g _ _ hg hfirst (Or.inr ⟨htail, heq⟩) (Or.inr ⟨hk, rfl⟩)

/-- Two sequences do not begin with the same element. -/
theorem first_ne (h h' : Nat) (hsome : (q h).isSome = true) (hsome' : (q h').isSome = true)
    (hne : h ≠ h') (hfull : s h ≠ 0) : s h ≠ s h' := by
  intro heq
  have hmem := (first_elem L s q hold h hsome hfull).1
  have hmem' := (first_elem L s q hold h' hsome' (heq ▸ hfull)).1
  exact hne (hold.apart.once h h' _ hmem (heq ▸ hmem'))

/-- Two heads share no pointer. -/
theorem heads_apart (hk : k.tail = true) (h h' : Nat) (hsome : (q h).isSome = true)
    (hsome' : (q h').isSome = true) (hne : h ≠ h') :
    h ≠ h' + 8 ∧ h + 8 ≠ h' ∧ h + 8 ≠ h' + 8 := by
  have hapart := L.heads h h' (head_of_isSome q h hold.apart hsome)
    (head_of_isSome q h' hold.apart hsome') hne
  rw [QueueKind.headSize, if_pos hk] at hapart
  omega

/-- Putting nothing behind a sequence. -/
theorem joined_none (h h' : Nat) (hsome : (q h).isSome = true) (hsome' : (q h').isSome = true)
    (hempty : s h' = 0) : Joined k L.off h h' s s (lastSlot (· + L.off) h (q.elems h)) := by
  rcases holds_seq L s q h' _ hold rfl hsome' with ⟨_, hel', _, hat'⟩
  have hnil := (first_eq_zero L s h' _ hel' hat').mp hempty
  refine ⟨(hold.seqs h hsome).ends.trans hempty.symm, fun _ hne => absurd hempty hne,
    fun _ => (if_pos hempty).symm, hempty, fun hk => ?_, fun c _ _ _ _ => rfl⟩
  rw [hat'.tail hk, hnil, lastSlot]

end Ask

end Aircmn
