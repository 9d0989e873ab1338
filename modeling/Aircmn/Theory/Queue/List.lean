import Aircmn.Theory.Queue.Search

/-!
# Lists

The macros of a doubly-linked list make their changes. An element leads back
to the slot before it and not to the element, so `LIST_REMOVE` and
`LIST_INSERT_BEFORE` need neither the head nor a search, and do not have to
know whether there is an element before. What they do have to know is whether
there is one behind, since it has a pointer back.

`LIST_INSERT_AFTER` and `LIST_INSERT_HEAD` write the new element's first
pointer before they look at what the slot led to, and read the slot once more
when they write the pointer back behind it. That is right because the new
element is not the slot.

## Theorems

* `list_spliced`, `listInsertBefore_spliced`, `listRemove_unlinked`: Inserting
  and removing.
* `listConcat_makes`, `listSwap_makes`: The macros for two lists.
* `list_step`: Every macro makes its change and answers as it should.
-/

namespace Aircmn

open Links

section Changes

variable (L : Layout .list) (s : Store)

theorem list_spliced (h b x : Nat) (hroom : InsertRoom .list L.off h s b x) :
    Spliced .list L.off h s
      (((if (s.set (x + L.off) (s b)) (x + L.off) ≠ 0
        then (s.set (x + L.off) (s b)).set ((s.set (x + L.off) (s b)) b + L.off + 8) (x + L.off)
        else s.set (x + L.off) (s b)).set b x).set (x + L.off + 8) b) b x := by
  have hbx := hroom.entry
  have hbx' := hroom.back rfl
  have hnext := hroom.next rfl
  -- The macros read the words they have just stored; with these gone the cells are written once
  -- each.
  rw [set_self, set_other _ _ _ _ hbx]
  refine ⟨?_, ?_, fun _ => set_self _ _ _, fun _ hne => ?_, fun hk => absurd hk Bool.false_ne_true,
    fun c hcb hcx hcn _ => ?_⟩
  · rw [set_other _ _ _ _ hbx', set_self]
  · rw [set_other _ _ _ _ (show x + L.off ≠ x + L.off + 8 by omega),
      set_other _ _ _ _ (Ne.symm hbx)]
    -- The link of x outlasts the store to the successor's back link, if there is a successor.
    split
    · rename_i hne
      rw [set_other _ _ _ _ (hnext hne).2.1, set_self]
    · rw [set_self]
  · rcases hnext hne with ⟨h₁, _, h₃⟩
    rw [set_other _ _ _ _ (show s b + L.off + 8 ≠ x + L.off + 8 by omega),
      set_other _ _ _ _ (Ne.symm h₁), if_pos hne, set_self]
  -- Everything else keeps its word.
  · have hc : c ≠ x + L.off ∧ c ≠ x + L.off + 8 :=
      ⟨fun heq => hcx (Or.inl heq), fun heq => hcx (Or.inr ⟨rfl, heq⟩)⟩
    rw [set_other _ _ _ _ hc.2, set_other _ _ _ _ hcb]
    split
    · rename_i hne
      rw [set_other _ _ _ _ (hcn rfl hne), set_other _ _ _ _ hc.1]
    · rw [set_other _ _ _ _ hc.1]

theorem listInsertBefore_spliced (h b x y : Nat) (hb : s (y + L.off + 8) = b) (hy : s b = y)
    (hy0 : y ≠ 0) (hroom : InsertRoom .list L.off h s b x) :
    Spliced .list L.off h s (listInsertBefore L.off s y x) b x := by
  have hbx := hroom.entry
  have hbx' := hroom.back rfl
  rcases hroom.next rfl (hy ▸ hy0) with ⟨hby, hxy, hne⟩
  rw [hy] at hby hxy hne
  -- b is where y is linked, and y exists, so the insertion is one before it.
  have hcells : listInsertBefore L.off s y x
      = (((s.set (x + L.off + 8) b).set (x + L.off) y).set b x).set (y + L.off + 8)
        (x + L.off) := by
    rw [listInsertBefore, hb, set_other _ _ _ _ (Ne.symm hxy),
      set_other _ _ _ _ (show y + L.off + 8 ≠ x + L.off + 8 by omega), hb]
  -- Read back: the link at b, x's own link and back link, y's back link, and the rest.
  rw [hcells]
  refine ⟨?_, ?_, fun _ => ?_, fun _ _ => ?_, fun hk => absurd hk Bool.false_ne_true,
    fun c hcb hcx hcn _ => ?_⟩
  · rw [set_other _ _ _ _ hby, set_self]
  · rw [set_other _ _ _ _ hxy, set_other _ _ _ _ (Ne.symm hbx), set_self, hy]
  · rw [set_other _ _ _ _ (show x + L.off + 8 ≠ y + L.off + 8 by omega),
      set_other _ _ _ _ (Ne.symm hbx'), set_other _ _ _ _ (by omega), set_self]
  · rw [hy, set_self]
  · rw [hy] at hcn
    rw [set_other _ _ _ _ (hcn rfl hy0), set_other _ _ _ _ hcb,
      set_other _ _ _ _ (fun heq => hcx (Or.inl heq)),
      set_other _ _ _ _ (fun heq => hcx (Or.inr ⟨rfl, heq⟩))]

theorem listRemove_unlinked (h b x : Nat) (hb : s (x + L.off + 8) = b)
    (hroom : RemoveRoom .list L.off h s b x) :
    Unlinked .list L.off h s (listRemove L.off s x) b x := by
  -- LIST_REMOVE writes at most two cells, the successor's back link and the link at b.
  have hcells : listRemove L.off s x = (if s (x + L.off) ≠ 0
      then s.set (s (x + L.off) + L.off + 8) b else s).set b (s (x + L.off)) := by
    rw [listRemove, hb]
    -- Without a successor only the link at b changes.
    split
    · rename_i hne
      rcases hroom.next rfl hne with ⟨_, h₂, h₃⟩
      rw [set_other _ _ _ _ (show x + L.off + 8 ≠ s (x + L.off) + L.off + 8 by omega), hb,
        set_other _ _ _ _ h₂]
    · rw [hb]
  rw [hcells]
  refine ⟨set_self _ _ _, fun _ hne => ?_, fun hk => absurd hk Bool.false_ne_true,
    fun c hcb hcn _ => ?_⟩
  · rw [set_other _ _ _ _ (Ne.symm (hroom.next rfl hne).1), if_pos hne, set_self]
  · rw [set_other _ _ _ _ hcb]
    split
    · rename_i hne
      rw [set_other _ _ _ _ (hcn rfl hne)]
    · rfl

variable (q : Queues) (hold : Holds L s q)

include hold

theorem listConcat_makes (fuel h h' : Nat) (hsome : (q h).isSome = true)
    (hsome' : (q h').isSome = true) (hne : h ≠ h') (hfuel : (q.elems h).length < fuel) :
    ∃ s', listConcat L.off fuel s h h' = some s' ∧
      Joined .list L.off h h' s s' (lastSlot (· + L.off) h (q.elems h)) := by
  rcases holds_seq L s q h _ hold rfl hsome with ⟨hh, hel, _, hat⟩
  have hslot := lastSlot_ne_head L s q hold h h' hsome' hne
  have hnone := joined_none L s q hold h h' hsome hsome'
  have hisslot := lastSlot_isSlot L.off h (q.elems h)
  -- The join itself, once for both places where the first queue can end.
  have hjoined : ∀ b, b ≠ h' → IsSlot L.off h (q.elems h) b → s h' ≠ 0 →
      Joined .list L.off h h' s
        (((s.set b (s h')).set (s h' + L.off + 8) b).set h' 0) b := by
    intro b hb hbslot hfull
    -- The first element of the second queue is linked from b and points back to it.
    have hfirst := (first_elem L s q hold h' hsome' hfull).2
    have hbn := slot_ne_back L h _ hh hel b _ hfirst rfl hbslot
    have hnh := (first_room L s q hold rfl h' h' hsome' hsome' hfull).1
    refine ⟨?_, fun _ _ => ?_, fun hk => absurd hk Bool.false_ne_true, set_self _ _ _,
      fun hk => absurd hk Bool.false_ne_true, fun c hcb hin hcn _ => ?_⟩
    · rw [set_other _ _ _ _ hb, set_other _ _ _ _ hbn, set_self]
    · rw [set_other _ _ _ _ hnh, set_self]
    -- The second head is emptied, and the other cells keep their words.
    · rw [set_other _ _ _ _ (fun heq => hin (Or.inl heq)), set_other _ _ _ _ (hcn rfl hfull),
        set_other _ _ _ _ hcb]
  -- LIST_CONCAT looks for the end of the first queue: its head if it is empty, else its last
  -- element.
  rcases seek_last L s h _ hel hat fuel hfuel with ⟨hnil, hfirst⟩ | ⟨l, y, hxs, hfirst, _, hseek⟩
  · rw [hnil, lastSlot] at hslot hnone ⊢
    refine ⟨_, if_pos hfirst, ?_⟩
    rw [set_self, set_other _ _ _ _ (Ne.symm hne)]
    by_cases hempty : s h' = 0
    -- With an empty first queue the assignment to its own head changes nothing.
    · have hkept : s.set h (s h') = s := by
        rw [hempty, ← hfirst]
        exact Function.update_eq_self h s
      rw [if_neg (not_not.mpr hempty), hkept]
      exact hnone hempty
    · rw [if_pos hempty]
      exact hjoined h hslot (Or.inl rfl) hempty
  · rw [hxs, lastSlot_concat] at hslot hnone hisslot ⊢
    rw [listConcat, if_neg hfirst, hseek]
    -- An empty second queue leaves everything as it is.
    by_cases hempty : s h' = 0
    · rw [if_neg (not_not.mpr hempty)]
      exact ⟨s, rfl, hnone hempty⟩
    · rw [if_pos hempty]
      refine ⟨_, rfl, ?_⟩
      change Joined .list L.off h h' s (((s.set (y + L.off) (s h')).set
        ((s.set (y + L.off) (s h')) h' + L.off + 8) (y + L.off)).set h' 0) (y + L.off)
      rw [set_other _ _ _ _ (Ne.symm hslot)]
      exact hjoined (y + L.off) hslot (hxs ▸ hisslot) hempty

theorem listSwap_makes (h h' : Nat) (hsome : (q h).isSome = true)
    (hsome' : (q h').isSome = true) (hne : h ≠ h') :
    Swapped .list L.off h h' s (listSwap L.off s h h') := by
  -- The cells that are written are apart: two heads, and the back links of two first elements.
  have hroom := first_room L s q hold rfl h h hsome hsome
  have hroom₁ := first_room L s q hold rfl h h' hsome hsome'
  have hroom₂ := first_room L s q hold rfl h' h hsome' hsome
  have hroom₃ := first_room L s q hold rfl h' h' hsome' hsome'
  have hdiff := first_ne L s q hold h h' hsome hsome' hne
  -- LIST_SWAP as what it leaves, whatever the two queues hold.
  have hcells : listSwap L.off s h h' h = s h' ∧ listSwap L.off s h h' h' = s h ∧
      (s h' ≠ 0 → listSwap L.off s h h' (s h' + L.off + 8) = h) ∧
      (s h ≠ 0 → listSwap L.off s h h' (s h + L.off + 8) = h') ∧
      ∀ c, c ≠ h → c ≠ h' → (s h ≠ 0 → c ≠ s h + L.off + 8) →
        (s h' ≠ 0 → c ≠ s h' + L.off + 8) → listSwap L.off s h h' c = s c := by
    simp only [listSwap, set_apply, ite_apply]
    grind
  rcases hcells with ⟨hhere, hthere, hback, hback', hframe⟩
  refine ⟨⟨hhere, fun _ => hback, fun hk => absurd hk Bool.false_ne_true⟩,
    ⟨hthere, fun _ => hback', fun hk => absurd hk Bool.false_ne_true⟩, fun c hin hin' hc hc' => ?_⟩
  exact hframe c (fun heq => hin (Or.inl heq)) (fun heq => hin' (Or.inl heq)) (hc rfl) (hc' rfl)

/-- Every macro makes its change and answers as it should. -/
theorem list_step (fuel : Nat) (op : QueueOp) (hlegal : QueueLegal L fuel q op) :
    QueueMakes L q s (listStep L.off fuel s op).1 op ∧
      (listStep L.off fuel s op).2 = (queueSpec q op).2 := by
  -- Legality gives what each operation needs; the kind excludes the rest.
  rcases hlegal with ⟨hhas, hfits, hfuel⟩
  cases op with
  | init h =>
      refine ⟨⟨set_self _ _ _, fun hk => absurd hk Bool.false_ne_true, fun c hc => ?_⟩, rfl⟩
      exact set_other _ _ _ _ (fun heq => hc (Or.inl heq))
  | insertHead h x =>
      -- In front of everything the slot is the head's own.
      have hroom := insert_room L s q hold h x [] _ rfl hfits.1 hfits.2.1 hfits.2.2
      exact ⟨list_spliced L s h h x hroom, rfl⟩
  | insertTail h x => exact absurd hhas Bool.false_ne_true
  | insertAfter h y x =>
      rcases hfits with ⟨hy, hx, hfree⟩
      exact ⟨list_spliced L s h (y + L.off) x (insert_room_after L s q hold h y x hy hx hfree),
        rfl⟩
  | insertBefore h y x =>
      -- The element y stands in the list, and the slot before it is where x goes.
      rcases hfits with ⟨hy, hx, hfree⟩
      have hsome := isSome_of_mem q h y hy
      rcases elems_split L q h y hold.apart hy with ⟨l, r, hlr, _⟩
      have hat := hold.seqs h hsome
      have hback := back_eq L s h _ rfl hat y l r hlr
      have hroom := insert_room L s q hold h x l (y :: r) hlr hsome hx hfree
      rw [hlr] at hat
      -- What y is linked from is now linked to x, and x to y.
      refine ⟨⟨l, r, hlr, ?_⟩, rfl⟩
      exact listInsertBefore_spliced L s h _ x y hback (queueAt_cut L s h l (y :: r) hat).2.2.2
        (L.elem_ne y (hold.apart.elem h y hy)) hroom
  | removeHead h => exact absurd hhas Bool.false_ne_true
  | removeAfter h y => exact absurd hhas Bool.false_ne_true
  | remove h x =>
      rcases elems_split L q h x hold.apart hfits with ⟨l, r, hlr, _⟩
      -- The back link of x is the slot it stands in, which is what LIST_REMOVE unlinks from.
      have hback := back_eq L s h _ rfl (hold.seqs h (isSome_of_mem q h x hfits)) x l r hlr
      refine ⟨⟨l, r, hlr, ?_⟩, rfl⟩
      exact listRemove_unlinked L s h _ x hback (remove_room L s q hold h x l r hlr)
  | concat h h' =>
      rcases listConcat_makes L s q hold fuel h h' hfits.1 hfits.2.1 hfits.2.2 (hfuel h) with
        ⟨s', heq, hmakes⟩
      rw [listStep, heq]
      exact ⟨hmakes, rfl⟩
  | swap h h' => exact ⟨listSwap_makes L s q hold h h' hfits.1 hfits.2.1 hfits.2.2, rfl⟩
  -- The questions are answered by the lists, and the memory is left as it is.
  | empty h => exact ⟨rfl, congrArg QueueAns.flag (ask_empty L s q hold h hfits)⟩
  | first h => exact ⟨rfl, congrArg QueueAns.ptr (ask_first L s q hold h hfits)⟩
  | next h x => exact ⟨rfl, congrArg QueueAns.ptr (ask_next L s q hold h x hfits)⟩
  | last h => exact absurd hhas Bool.false_ne_true
  | lastFast h => exact absurd hhas Bool.false_ne_true
  | prev h x => exact ⟨rfl, congrArg QueueAns.ptr (ask_prevFast L s q hold rfl h x hfits)⟩
  | prevFast h x => exact absurd hhas Bool.false_ne_true
  | foreach h =>
      rw [listStep, listForeach, ask_foreach L s q hold fuel h hfits (hfuel h)]
      exact ⟨rfl, rfl⟩
  | foreachFrom h x =>
      rw [listStep, listForeachFrom,
        ask_foreachFrom L s q hold fuel h x hfits.1 hfits.2 (hfuel h)]
      exact ⟨rfl, rfl⟩
  | foreachReverse h => exact absurd hhas Bool.false_ne_true
  | foreachReverseFrom h x => exact absurd hhas Bool.false_ne_true

end Changes

end Aircmn
