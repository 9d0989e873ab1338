import Aircmn.Theory.Queue.Search

/-!
# Singly-Linked Tail Queues

The macros of a singly-linked tail queue make their changes. They differ from
those of a list in the address of the last slot, which every one of them has
to keep. Inserting behind a slot that led nowhere makes the new element's slot
the last one, and removing what the last slot was in makes the slot before it
the last one. To put something at the end takes no search.

`STAILQ_SWAP` exchanges both pointers of the heads as they are. If one of the
queues was empty, the address it hands over is that of the wrong head, so it is
written again.

## Theorems

* `stailq_spliced`, `stailq_unlinked`: Inserting and removing at a slot.
* `stailqInsertTail_makes`, `stailqRemove_makes`, `stailqConcat_makes`,
  `stailqSwap_makes`: The macros that are different.
* `stailq_step`: Every macro makes its change and answers as it should.
-/

namespace Aircmn

open Links

section Changes

variable (L : Layout .stailq) (s : Store)

theorem stailq_spliced (h b x : Nat) (hroom : InsertRoom .stailq L.off h s b x) :
    Spliced .stailq L.off h s
      ((if (s.set (x + L.off) (s b)) (x + L.off) = 0
        then (s.set (x + L.off) (s b)).set (h + 8) (x + L.off)
        else s.set (x + L.off) (s b)).set b x) b x := by
  have hbx := hroom.entry
  rcases hroom.tail rfl with ⟨hbt, hxt⟩
  -- Read back field by field: x's own link, the slot at b, and the tail pointer if x is now last.
  rw [set_self]
  refine ⟨set_self _ _ _, ?_, fun hk => absurd hk Bool.false_ne_true,
    fun hk => absurd hk Bool.false_ne_true, fun _ => ?_, fun c hcb hcx _ hct => ?_⟩
  · rw [set_other _ _ _ _ (Ne.symm hbx)]
    -- Whether the tail pointer moves is decided by the link that x has taken over from b.
    split
    · rw [set_other _ _ _ _ hxt, set_self]
    · rw [set_self]
  · rw [set_other _ _ _ _ (Ne.symm hbt)]
    split
    · rw [set_self]
    · rw [set_other _ _ _ _ (Ne.symm hxt)]
  · have hcx' : c ≠ x + L.off := fun heq => hcx (Or.inl heq)
    -- Any other cell keeps its word, the tail pointer included as long as x has a successor.
    rw [set_other _ _ _ _ hcb]
    split
    · rename_i hend
      rw [set_other _ _ _ _ (hct rfl hend), set_other _ _ _ _ hcx']
    · rw [set_other _ _ _ _ hcx']

theorem stailq_unlinked (h b x : Nat) (hbt : b ≠ h + 8) :
    Unlinked .stailq L.off h s
      (if (s.set b (s (x + L.off))) b = 0 then (s.set b (s (x + L.off))).set (h + 8) b
        else s.set b (s (x + L.off))) b x := by
  rw [set_self]
  -- With x unlinked, b takes over its link, and the tail pointer falls back to b if x was the last.
  refine ⟨?_, fun hk => absurd hk Bool.false_ne_true, fun _ => ?_, fun c hcb _ hct => ?_⟩
  · split
    · rw [set_other _ _ _ _ hbt, set_self]
    · rw [set_self]
  · split
    · rw [set_self]
    · rw [set_other _ _ _ _ (Ne.symm hbt)]
  · split
    · rename_i hend
      rw [set_other _ _ _ _ (hct rfl hend), set_other _ _ _ _ hcb]
    · rw [set_other _ _ _ _ hcb]

theorem stailqInsertTail_spliced (h b x : Nat) (hb : s (h + 8) = b) (hends : s b = 0)
    (hroom : InsertRoom .stailq L.off h s b x) :
    Spliced .stailq L.off h s (stailqInsertTail L.off s h x) b x := by
  have hbx := hroom.entry
  rcases hroom.tail rfl with ⟨hbt, hxt⟩
  have heq : stailqInsertTail L.off s h x
      = ((s.set (x + L.off) 0).set b x).set (h + 8) (x + L.off) := by
    rw [stailqInsertTail, set_other _ _ _ _ (Ne.symm hxt), hb]
  -- The order of the three stores does not matter: they go to three different cells.
  rw [heq]
  -- b is the tail slot, so nothing follows x and the tail pointer moves to it.
  refine ⟨?_, ?_, fun hk => absurd hk Bool.false_ne_true, fun hk => absurd hk Bool.false_ne_true,
    fun _ => ?_, fun c hcb hcx _ hct => ?_⟩
  · rw [set_other _ _ _ _ hbt, set_self]
  · rw [set_other _ _ _ _ hxt, set_other _ _ _ _ (Ne.symm hbx), set_self, hends]
  · rw [set_self, if_pos hends]
  · rw [set_other _ _ _ _ (hct rfl hends), set_other _ _ _ _ hcb,
      set_other _ _ _ _ (fun heq => hcx (Or.inl heq))]

variable (q : Queues) (hold : Holds L s q)

include hold

theorem stailqRemove_makes (fuel h x : Nat) (hx : x ∈ q.elems h)
    (hfuel : (q.elems h).length < fuel) :
    ∃ s', stailqRemove L.off fuel s h x = some s' ∧ QueueMakes L q s s' (.remove h x) := by
  rcases elems_split L q h x hold.apart hx with ⟨l, r, hlr, hl⟩
  rcases holds_seq L s q h _ hold rfl (isSome_of_mem q h x hx) with ⟨hh, hel, _, hat⟩
  rcases seek_before L s h _ hel hat x fuel l r hlr hl hfuel with
    ⟨hnil, hfirst⟩ | ⟨l', y, hl', hfirst, hnext, hseek⟩
  -- x comes first, and STAILQ_REMOVE is STAILQ_REMOVE_HEAD.
  · refine ⟨_, if_pos hfirst, l, r, hlr, ?_⟩
    rw [stailqRemoveHead, hfirst, hnil]
    exact stailq_unlinked L s h h x (by omega)
  -- x comes after some y, and STAILQ_REMOVE_AFTER unlinks it from there.
  · refine ⟨_, by rw [stailqRemove, if_neg hfirst, hseek, Option.map_some], l, r, hlr, ?_⟩
    have hy : y ∈ q.elems h := by
      rw [hlr, hl']
      exact List.mem_append_left _ (List.mem_append_right l' List.mem_cons_self)
    -- The slot of y is an entry's own and so not the tail pointer of the head.
    rw [stailqRemoveAfter, hnext, hl', lastSlot_concat]
    exact stailq_unlinked L s h (y + L.off) x
      (slot_ne_tail L h _ hh hel _ rfl (Or.inr ⟨y, hy, rfl⟩))

theorem stailqConcat_makes (h h' : Nat) (hsome : (q h).isSome = true)
    (hsome' : (q h').isSome = true) (hne : h ≠ h') :
    Joined .stailq L.off h h' s (stailqConcat s h h')
      (lastSlot (· + L.off) h (q.elems h)) := by
  rcases holds_seq L s q h _ hold rfl hsome with ⟨hh, hel, _, hat⟩
  rcases heads_apart L s q hold rfl h h' hsome hsome' hne with ⟨h₁, h₂, h₃⟩
  -- With the second queue empty STAILQ_CONCAT does nothing at all.
  have hnone := joined_none L s q hold h h' hsome hsome'
  have hslot := lastSlot_ne_head L s q hold h h' hsome' hne
  have hlast := hat.tail rfl
  have hbt := slot_ne_tail L h _ hh hel _ rfl (lastSlot_isSlot L.off h _)
  -- Slots of the first queue are in its own head and entries, never in the other head.
  have hbt' : lastSlot (· + L.off) h (q.elems h) ≠ h' + 8 := by
    rcases lastSlot_isSlot L.off h (q.elems h) with hhead | ⟨z, hz, hslot⟩
    · rwa [hhead]
    · intro heq
      have hh' := head_of_isSome q h' hold.apart hsome'
      exact head_entry_ne L h' z _ hh' (hel z hz) (Or.inr ⟨rfl, heq⟩) (Or.inl hslot)
  -- From here on only the slot b at which the first queue ends matters.
  generalize lastSlot (· + L.off) h (q.elems h) = b at hnone hslot hlast hbt hbt' ⊢
  by_cases hempty : s h' = 0
  · rw [stailqConcat, if_neg (not_not.mpr hempty)]
    exact hnone hempty
  · rw [stailqConcat, if_pos hempty, stailqInit, hlast]
    -- The first queue takes the other's elements and its tail, and the other head is initialised.
    refine ⟨?_, fun hk => absurd hk Bool.false_ne_true, fun _ => ?_, ?_, fun _ => set_self _ _ _,
      fun c hcb hin _ hct => ?_⟩
    · rw [set_other _ _ _ _ hbt', set_other _ _ _ _ hslot, set_other _ _ _ _ hbt, set_self]
    · rw [if_neg hempty, set_other _ _ _ _ h₃, set_other _ _ _ _ h₂, set_self,
        set_other _ _ _ _ (Ne.symm hbt')]
    · rw [set_other _ _ _ _ (by omega), set_self]
    · have hc : c ≠ h' ∧ c ≠ h' + 8 := ⟨fun heq => hin (Or.inl heq), fun heq =>
        hin (Or.inr ⟨rfl, heq⟩)⟩
      rw [set_other _ _ _ _ hc.2, set_other _ _ _ _ hc.1, set_other _ _ _ _ (hct rfl hempty),
        set_other _ _ _ _ hcb]

theorem stailqSwap_makes (h h' : Nat) (hsome : (q h).isSome = true)
    (hsome' : (q h').isSome = true) (hne : h ≠ h') :
    Swapped .stailq L.off h h' s (stailqSwap s h h') := by
  rcases heads_apart L s q hold rfl h h' hsome hsome' hne with ⟨h₁, h₂, h₃⟩
  -- STAILQ_SWAP as what it leaves in each cell, a tail pointer that pointed to its own head being
  -- redirected.
  have hcells : stailqSwap s h h' h = s h' ∧ stailqSwap s h h' h' = s h ∧
      stailqSwap s h h' (h + 8) = (if s h' = 0 then h else s (h' + 8)) ∧
      stailqSwap s h h' (h' + 8) = (if s h = 0 then h' else s (h + 8)) ∧
      ∀ c, c ≠ h → c ≠ h' → c ≠ h + 8 → c ≠ h' + 8 → stailqSwap s h h' c = s c := by
    simp only [stailqSwap, set_apply, ite_apply]
    grind
  rcases hcells with ⟨hhere, hthere, htail, htail', hframe⟩
  refine ⟨⟨hhere, fun hk => absurd hk Bool.false_ne_true, fun _ => htail⟩,
    ⟨hthere, fun hk => absurd hk Bool.false_ne_true, fun _ => htail'⟩, fun c hin hin' _ _ => ?_⟩
  exact hframe c (fun heq => hin (Or.inl heq)) (fun heq => hin' (Or.inl heq))
    (fun heq => hin (Or.inr ⟨rfl, heq⟩)) (fun heq => hin' (Or.inr ⟨rfl, heq⟩))

/-- Every macro makes its change and answers as it should. -/
theorem stailq_step (fuel : Nat) (op : QueueOp) (hlegal : QueueLegal L fuel q op) :
    QueueMakes L q s (stailqStep L.off fuel s op).1 op ∧
      (stailqStep L.off fuel s op).2 = (queueSpec q op).2 := by
  rcases hlegal with ⟨hhas, hfits, hfuel⟩
  cases op with
  | init h =>
      -- Inserting at the head is inserting behind the slot of the head itself.
      rw [stailqStep, stailqInit]
      exact ⟨cleared_tail s h rfl, rfl⟩
  | insertHead h x =>
      have hroom := insert_room L s q hold h x [] _ rfl hfits.1 hfits.2.1 hfits.2.2
      exact ⟨stailq_spliced L s h h x hroom, rfl⟩
  | insertTail h x =>
      have hat := hold.seqs h hfits.1
      -- The tail pointer is the slot that the last link stands in.
      have hroom := insert_room L s q hold h x _ [] (List.append_nil _).symm hfits.1 hfits.2.1
        hfits.2.2
      exact ⟨stailqInsertTail_spliced L s h _ x (hat.tail rfl) hat.ends hroom, rfl⟩
  | insertAfter h y x =>
      rcases hfits with ⟨hy, hx, hfree⟩
      exact ⟨stailq_spliced L s h (y + L.off) x (insert_room_after L s q hold h y x hy hx hfree),
        rfl⟩
  | insertBefore h y x => exact absurd hhas Bool.false_ne_true
  | removeHead h =>
      -- The first element is unlinked from the head's slot.
      rcases head_split L s q hold h hfits with ⟨r, hxr, _⟩
      exact ⟨⟨s h, r, hxr, stailq_unlinked L s h h (s h) (by omega)⟩, rfl⟩
  | removeAfter h y =>
      rcases hfits with ⟨l, z, r, hlr⟩
      have hy : y ∈ q.elems h := hlr ▸ List.mem_append_right l List.mem_cons_self
      rcases holds_seq L s q h _ hold rfl (isSome_of_mem q h y hy) with ⟨hh, hel, _, _⟩
      -- The element after y is unlinked from y's own slot.
      refine ⟨⟨l, z, r, hlr, ?_⟩, rfl⟩
      rw [stailqStep, stailqRemoveAfter, after_split L s q hold h y z l r hlr]
      exact stailq_unlinked L s h (y + L.off) z
        (slot_ne_tail L h _ hh hel _ rfl (Or.inr ⟨y, hy, rfl⟩))
  | remove h x =>
      rcases stailqRemove_makes L s q hold fuel h x hfits (hfuel h) with ⟨s', heq, hmakes⟩
      -- STAILQ_REMOVE searches from the head; hfuel covers the walk.
      rw [stailqStep, heq]
      exact ⟨hmakes, rfl⟩
  | concat h h' =>
      exact ⟨stailqConcat_makes L s q hold h h' hfits.1 hfits.2.1 hfits.2.2, rfl⟩
  | swap h h' => exact ⟨stailqSwap_makes L s q hold h h' hfits.1 hfits.2.1 hfits.2.2, rfl⟩
  | empty h => exact ⟨rfl, congrArg QueueAns.flag (ask_empty L s q hold h hfits)⟩
  -- The questions leave the memory alone and answer as the lists do.
  | first h => exact ⟨rfl, congrArg QueueAns.ptr (ask_first L s q hold h hfits)⟩
  | next h x => exact ⟨rfl, congrArg QueueAns.ptr (ask_next L s q hold h x hfits)⟩
  | last h => exact ⟨rfl, congrArg QueueAns.ptr (ask_lastFast L s q hold rfl h hfits)⟩
  | lastFast h => exact absurd hhas Bool.false_ne_true
  | prev h x => exact absurd hhas Bool.false_ne_true
  | prevFast h x => exact absurd hhas Bool.false_ne_true
  | foreach h =>
      rw [stailqStep, stailqForeach, ask_foreach L s q hold fuel h hfits (hfuel h)]
      exact ⟨rfl, rfl⟩
  | foreachFrom h x =>
      rw [stailqStep, stailqForeachFrom,
        ask_foreachFrom L s q hold fuel h x hfits.1 hfits.2 (hfuel h)]
      exact ⟨rfl, rfl⟩
  | foreachReverse h => exact absurd hhas Bool.false_ne_true
  | foreachReverseFrom h x => exact absurd hhas Bool.false_ne_true

end Changes

end Aircmn
