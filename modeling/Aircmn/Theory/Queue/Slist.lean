import Aircmn.Theory.Queue.Search

/-!
# Singly-Linked Lists

The macros of a singly-linked list make their changes. Both that insert write
the new element first and the slot then, and the three that remove end in one
assignment to a slot. `SLIST_REMOVE` compares with the first element before it
searches, so its search starts before the element and does not run off the
list. `SLIST_CONCAT` has no address of a last slot and searches for it, except
if there is none.

## Theorems

* `slist_spliced`, `slist_unlinked`: Inserting and removing.
* `slistRemove_makes`, `slistConcat_makes`, `slistSwap_makes`: The macros with
  more than one case.
* `slist_step`: Every macro makes its change and answers as it should.
-/

namespace Aircmn

open Links

section Changes

variable (L : Layout .slist) (s : Store)

theorem slist_spliced (h b x : Nat) (hb : b ≠ x + L.off) :
    Spliced .slist L.off h s ((s.set (x + L.off) (s b)).set b x) b x := by
  refine ⟨set_self _ _ _, ?_, fun hk => absurd hk Bool.false_ne_true,
    fun hk => absurd hk Bool.false_ne_true, fun hk => absurd hk Bool.false_ne_true, ?_⟩
  · rw [set_other _ _ _ _ (Ne.symm hb), set_self]
  · intro c hcb hcx _ _
    rw [set_other _ _ _ _ hcb, set_other _ _ _ _ (fun heq => hcx (Or.inl heq))]

theorem slist_unlinked (h b x : Nat) :
    Unlinked .slist L.off h s (s.set b (s (x + L.off))) b x := by
  refine ⟨set_self _ _ _, fun hk => absurd hk Bool.false_ne_true,
    fun hk => absurd hk Bool.false_ne_true, ?_⟩
  intro c hcb _ _
  exact set_other _ _ _ _ hcb

variable (q : Queues) (hold : Holds L s q)

include hold

theorem slistRemove_makes (fuel h x : Nat) (hx : x ∈ q.elems h)
    (hfuel : (q.elems h).length < fuel) :
    ∃ s', slistRemove L.off fuel s h x = some s' ∧ QueueMakes L q s s' (.remove h x) := by
  rcases elems_split L q h x hold.apart hx with ⟨l, r, hlr, hl⟩
  rcases holds_seq L s q h _ hold rfl (isSome_of_mem q h x hx) with ⟨_, hel, _, hat⟩
  rcases seek_before L s h _ hel hat x fuel l r hlr hl hfuel with
    ⟨hnil, hfirst⟩ | ⟨l', y, hl', hfirst, hnext, hseek⟩
  · refine ⟨_, if_pos hfirst, l, r, hlr, ?_⟩
    rw [slistRemoveHead, hfirst, hnil]
    exact slist_unlinked L s h h x
  · refine ⟨_, by rw [slistRemove, if_neg hfirst, hseek, Option.map_some], l, r, hlr, ?_⟩
    rw [slistRemoveAfter, hnext, hl', lastSlot_concat]
    exact slist_unlinked L s h (y + L.off) x

theorem slistConcat_makes (fuel h h' : Nat) (hsome : (q h).isSome = true)
    (hsome' : (q h').isSome = true) (hne : h ≠ h') (hfuel : (q.elems h).length < fuel) :
    ∃ s', slistConcat L.off fuel s h h' = some s' ∧
      Joined .slist L.off h h' s s' (lastSlot (· + L.off) h (q.elems h)) := by
  rcases holds_seq L s q h _ hold rfl hsome with ⟨_, hel, _, hat⟩
  have hslot := lastSlot_ne_head L s q hold h h' hsome' hne
  have hnone := joined_none L s q hold h h' hsome hsome'
  -- The join itself, once for both places where the first queue can end.
  have hjoined : ∀ b, b ≠ h' → Joined .slist L.off h h' s ((s.set b (s h')).set h' 0) b := by
    intro b hb
    refine ⟨?_, fun hk => absurd hk Bool.false_ne_true, fun hk => absurd hk Bool.false_ne_true,
      set_self _ _ _, fun hk => absurd hk Bool.false_ne_true, fun c hcb hin _ _ => ?_⟩
    · rw [set_other _ _ _ _ hb, set_self]
    · rw [set_other _ _ _ _ (fun heq => hin (Or.inl heq)), set_other _ _ _ _ hcb]
  -- SLIST_CONCAT walks to the end of the first queue, which is its head if it is empty.
  rcases seek_last L s h _ hel hat fuel hfuel with ⟨hnil, hfirst⟩ | ⟨l, y, hxs, hfirst, _, hseek⟩
  · rw [hnil, lastSlot] at hslot hnone ⊢
    refine ⟨_, if_pos hfirst, ?_⟩
    rw [set_self]
    by_cases hempty : s h' = 0
    · -- The head is given the null pointer it has.
      have hkept : s.set h (s h') = s := by
        rw [hempty, ← hfirst]
        exact Function.update_eq_self h s
      rw [if_neg (not_not.mpr hempty), hkept]
      exact hnone hempty
    · rw [if_pos hempty]
      exact hjoined h hslot
  · rw [hxs, lastSlot_concat] at hslot hnone ⊢
    rw [slistConcat, if_neg hfirst, hseek]
    -- An empty second queue leaves everything as it is.
    by_cases hempty : s h' = 0
    · rw [if_neg (not_not.mpr hempty)]
      exact ⟨s, rfl, hnone hempty⟩
    · rw [if_pos hempty]
      exact ⟨_, rfl, hjoined (y + L.off) hslot⟩

omit hold in
theorem slistSwap_makes (h h' : Nat) (hne : h ≠ h') :
    Swapped .slist L.off h h' s (slistSwap s h h') := by
  refine ⟨⟨?_, fun hk => absurd hk Bool.false_ne_true, fun hk => absurd hk Bool.false_ne_true⟩,
    ⟨set_self _ _ _, fun hk => absurd hk Bool.false_ne_true,
      fun hk => absurd hk Bool.false_ne_true⟩, ?_⟩
  · rw [slistSwap, set_other _ _ _ _ hne, set_self]
  · intro c hin hin' _ _
    rw [slistSwap, set_other _ _ _ _ (fun heq => hin' (Or.inl heq)),
      set_other _ _ _ _ (fun heq => hin (Or.inl heq))]

/-- Every macro makes its change and answers as it should. -/
theorem slist_step (fuel : Nat) (op : QueueOp) (hlegal : QueueLegal L fuel q op) :
    QueueMakes L q s (slistStep L.off fuel s op).1 op ∧
      (slistStep L.off fuel s op).2 = (queueSpec q op).2 := by
  -- Legality gives what the operation needs; the kind excludes the rest.
  rcases hlegal with ⟨hhas, hfits, hfuel⟩
  cases op with
  | init h =>
      refine ⟨⟨set_self _ _ _, fun hk => absurd hk Bool.false_ne_true, fun c hc => ?_⟩, rfl⟩
      exact set_other _ _ _ _ (fun heq => hc (Or.inl heq))
  | insertHead h x =>
      have hh := head_of_isSome q h hold.apart hfits.1
      -- The element goes in front, linked from the head.
      exact ⟨slist_spliced L s h h x (Ne.symm (slot_ne_head L h hh x hfits.2.1)), rfl⟩
  | insertTail h x => exact absurd hhas Bool.false_ne_true
  | insertAfter h y x =>
      rcases hfits with ⟨hy, hx, hfree⟩
      refine ⟨slist_spliced L s h (y + L.off) x (fun heq => hfree h ?_), rfl⟩
      -- x is not in any queue, so its slot is not y's.
      exact Nat.add_right_cancel heq ▸ hy
  | insertBefore h y x => exact absurd hhas Bool.false_ne_true
  | removeHead h =>
      rcases head_split L s q hold h hfits with ⟨r, hxr, _⟩
      exact ⟨⟨s h, r, hxr, slist_unlinked L s h h (s h)⟩, rfl⟩
  | removeAfter h y =>
      rcases hfits with ⟨l, z, r, hlr⟩
      refine ⟨⟨l, z, r, hlr, ?_⟩, rfl⟩
      -- The element after y is unlinked from y's own slot.
      rw [slistStep, slistRemoveAfter, after_split L s q hold h y z l r hlr]
      exact slist_unlinked L s h (y + L.off) z
  | remove h x =>
      rcases slistRemove_makes L s q hold fuel h x hfits (hfuel h) with ⟨s', heq, hmakes⟩
      rw [slistStep, heq]
      exact ⟨hmakes, rfl⟩
  | concat h h' =>
      rcases slistConcat_makes L s q hold fuel h h' hfits.1 hfits.2.1 hfits.2.2 (hfuel h) with
        ⟨s', heq, hmakes⟩
      rw [slistStep, heq]
      exact ⟨hmakes, rfl⟩
  | swap h h' => exact ⟨slistSwap_makes L s h h' hfits.2.2, rfl⟩
  | empty h => exact ⟨rfl, congrArg QueueAns.flag (ask_empty L s q hold h hfits)⟩
  | first h => exact ⟨rfl, congrArg QueueAns.ptr (ask_first L s q hold h hfits)⟩
  | next h x => exact ⟨rfl, congrArg QueueAns.ptr (ask_next L s q hold h x hfits)⟩
  | last h => exact absurd hhas Bool.false_ne_true
  | lastFast h => exact absurd hhas Bool.false_ne_true
  | prev h x => exact absurd hhas Bool.false_ne_true
  | prevFast h x => exact absurd hhas Bool.false_ne_true
  | foreach h =>
      -- A walk needs as much fuel as the queue is long, and hfuel leaves one more.
      rw [slistStep, slistForeach, ask_foreach L s q hold fuel h hfits (hfuel h)]
      exact ⟨rfl, rfl⟩
  | foreachFrom h x =>
      rw [slistStep, slistForeachFrom,
        ask_foreachFrom L s q hold fuel h x hfits.1 hfits.2 (hfuel h)]
      exact ⟨rfl, rfl⟩
  | foreachReverse h => exact absurd hhas Bool.false_ne_true
  | foreachReverseFrom h x => exact absurd hhas Bool.false_ne_true

end Changes

end Aircmn
