import Aircmn.Theory.Queue.Search

/-!
# Tail Queues

The macros of a doubly-linked tail queue make their changes. Where a list asks
whether there is an element behind the place it writes to and otherwise does
nothing, a tail queue then writes the address of the last slot instead, so
exactly one of the two is written. `TAILQ_SWAP` makes the same choice for both
heads after it has exchanged their pointers, which sets right both the pointer
back of the first element and, in a queue that is now empty, the address of the
last slot.

## Theorems

* `tailq_spliced`, `tailqInsertBefore_spliced`, `tailqInsertTail_spliced`,
  `tailqRemove_unlinked`: Inserting and removing.
* `tailqConcat_makes`, `tailqSwap_makes`: The macros for two queues.
* `tailq_step`: Every macro makes its change and answers as it should.
-/

namespace Aircmn

open Links

section Changes

variable (L : Layout .tailq) (s : Store)

/-- What `TAILQ_INSERT_AFTER` and `TAILQ_INSERT_HEAD` write. -/
theorem tailq_spliced (h b x : Nat) (hroom : InsertRoom .tailq L.off h s b x) :
    Spliced .tailq L.off h s
      (((if s b ≠ 0 then (s.set (x + L.off) (s b)).set (s b + L.off + 8) (x + L.off)
        else (s.set (x + L.off) (s b)).set (h + 8) (x + L.off)).set b x).set (x + L.off + 8) b)
      b x := by
  -- The slot, x's two fields, the successor's back link and the tail pointer are all different
  -- cells.
  have hbx := hroom.entry
  have hbx' := hroom.back rfl
  have hnext := hroom.next rfl
  have htail := hroom.tail rfl
  have hboth := hroom.both rfl rfl
  -- Read back one cell after the other, and last the cells that are none of these.
  refine ⟨?_, ?_, fun _ => set_self _ _ _, fun _ hne => ?_, fun _ => ?_,
    fun c hcb hcx hcn hct => ?_⟩
  · rw [set_other _ _ _ _ hbx', set_self]
  · rw [set_other _ _ _ _ (show x + L.off ≠ x + L.off + 8 by omega),
      set_other _ _ _ _ (Ne.symm hbx)]
    split
    · rename_i hne
      rw [set_other _ _ _ _ (hnext hne).2.1, set_self]
    · rw [set_other _ _ _ _ htail.2, set_self]
  · rcases hnext hne with ⟨h₁, _, h₃⟩
    rw [set_other _ _ _ _ (show s b + L.off + 8 ≠ x + L.off + 8 by omega),
      set_other _ _ _ _ (Ne.symm h₁), if_pos hne, set_self]
  -- Only the end of the queue decides between the successor's back link and the tail pointer.
  · rw [set_other _ _ _ _ (Ne.symm hboth.1), set_other _ _ _ _ (Ne.symm htail.1)]
    by_cases hend : s b = 0
    · rw [if_neg (not_not.mpr hend), if_pos hend, set_self]
    · rw [if_pos hend, if_neg hend, set_other _ _ _ _ (Ne.symm (hboth.2 hend)),
        set_other _ _ _ _ (Ne.symm htail.2)]
  · have hc : c ≠ x + L.off ∧ c ≠ x + L.off + 8 :=
      ⟨fun heq => hcx (Or.inl heq), fun heq => hcx (Or.inr ⟨rfl, heq⟩)⟩
    rw [set_other _ _ _ _ hc.2, set_other _ _ _ _ hcb]
    -- Which of the two was stored to is the test on the word at b.
    split
    · rename_i hne
      rw [set_other _ _ _ _ (hcn rfl hne), set_other _ _ _ _ hc.1]
    · rename_i hend
      rw [set_other _ _ _ _ (hct rfl (not_not.mp hend)), set_other _ _ _ _ hc.1]

theorem tailqInsertHead_spliced (h x : Nat) (hroom : InsertRoom .tailq L.off h s h x) :
    Spliced .tailq L.off h s (tailqInsertHead L.off s h x) h x := by
  have hspliced := tailq_spliced L s h h x hroom
  rwa [tailqInsertHead, set_self, set_other _ _ _ _ hroom.entry]

theorem tailqInsertAfter_spliced (h x y : Nat)
    (hroom : InsertRoom .tailq L.off h s (y + L.off) x) :
    Spliced .tailq L.off h s (tailqInsertAfter L.off s h y x) (y + L.off) x := by
  have hspliced := tailq_spliced L s h (y + L.off) x hroom
  rwa [tailqInsertAfter, set_self]

theorem tailqInsertBefore_spliced (h b x y : Nat) (hb : s (y + L.off + 8) = b) (hy : s b = y)
    (hy0 : y ≠ 0) (hroom : InsertRoom .tailq L.off h s b x) :
    Spliced .tailq L.off h s (tailqInsertBefore L.off s y x) b x := by
  have hbx := hroom.entry
  have hbx' := hroom.back rfl
  rcases hroom.next rfl (hy ▸ hy0) with ⟨hby, hxy, hne⟩
  rw [hy] at hby hxy hne
  have htail := hroom.tail rfl
  have hboth := hroom.both rfl rfl
  have hyt := hboth.2 (hy ▸ hy0)
  rw [hy] at hyt
  -- TAILQ_INSERT_BEFORE reads b from y's back link, and y exists, so no tail pointer moves.
  have hcells : tailqInsertBefore L.off s y x
      = (((s.set (x + L.off + 8) b).set (x + L.off) y).set b x).set (y + L.off + 8)
        (x + L.off) := by
    rw [tailqInsertBefore, hb, set_other _ _ _ _ (Ne.symm hxy),
      set_other _ _ _ _ (show y + L.off + 8 ≠ x + L.off + 8 by omega), hb]
  rw [hcells]
  refine ⟨?_, ?_, fun _ => ?_, fun _ _ => ?_, fun _ => ?_, fun c hcb hcx hcn _ => ?_⟩
  · rw [set_other _ _ _ _ hby, set_self]
  · rw [set_other _ _ _ _ hxy, set_other _ _ _ _ (Ne.symm hbx), set_self, hy]
  · rw [set_other _ _ _ _ (show x + L.off + 8 ≠ y + L.off + 8 by omega),
      set_other _ _ _ _ (Ne.symm hbx'), set_other _ _ _ _ (by omega), set_self]
  · rw [hy, set_self]
  -- y follows x, so the head's tail pointer is left alone.
  · rw [hy, if_neg hy0, set_other _ _ _ _ (Ne.symm hyt), set_other _ _ _ _ (Ne.symm htail.1),
      set_other _ _ _ _ (Ne.symm htail.2), set_other _ _ _ _ (Ne.symm hboth.1)]
  · rw [hy] at hcn
    rw [set_other _ _ _ _ (hcn rfl hy0), set_other _ _ _ _ hcb,
      set_other _ _ _ _ (fun heq => hcx (Or.inl heq)),
      set_other _ _ _ _ (fun heq => hcx (Or.inr ⟨rfl, heq⟩))]

theorem tailqInsertTail_spliced (h b x : Nat) (hb : s (h + 8) = b) (hends : s b = 0)
    (hroom : InsertRoom .tailq L.off h s b x) :
    Spliced .tailq L.off h s (tailqInsertTail L.off s h x) b x := by
  have hbx := hroom.entry
  have hbx' := hroom.back rfl
  -- b is the slot that the tail pointer stands in, and nothing comes after it.
  rcases hroom.tail rfl with ⟨hbt, hxt⟩
  have hxt' := (hroom.both rfl rfl).1
  have hcells : tailqInsertTail L.off s h x
      = (((s.set (x + L.off) 0).set (x + L.off + 8) b).set b x).set (h + 8) (x + L.off) := by
    rw [tailqInsertTail, set_other _ _ _ _ (Ne.symm hxt), hb, set_other _ _ _ _ (Ne.symm hxt'),
      set_other _ _ _ _ (Ne.symm hxt), hb]
  -- Order of the four stores: x's link, x's back link, the slot, the tail pointer.
  rw [hcells]
  refine ⟨?_, ?_, fun _ => ?_, fun _ hne => absurd hends hne, fun _ => ?_,
    fun c hcb hcx _ hct => ?_⟩
  · rw [set_other _ _ _ _ hbt, set_self]
  · rw [set_other _ _ _ _ hxt, set_other _ _ _ _ (Ne.symm hbx), set_other _ _ _ _ (by omega),
      set_self, hends]
  · rw [set_other _ _ _ _ hxt', set_other _ _ _ _ (Ne.symm hbx'), set_self]
  · rw [set_self, if_pos hends]
  · rw [set_other _ _ _ _ (hct rfl hends), set_other _ _ _ _ hcb,
      set_other _ _ _ _ (fun heq => hcx (Or.inr ⟨rfl, heq⟩)),
      set_other _ _ _ _ (fun heq => hcx (Or.inl heq))]

theorem tailqRemove_unlinked (h b x : Nat) (hb : s (x + L.off + 8) = b)
    (hroom : RemoveRoom .tailq L.off h s b x) :
    Unlinked .tailq L.off h s (tailqRemove L.off s h x) b x := by
  have hnext := hroom.next rfl
  have hbt := hroom.tail rfl
  have hboth := hroom.both rfl rfl
  -- With a successor its back link is taken over, without one the tail pointer.
  have hcells : tailqRemove L.off s h x = (if s (x + L.off) ≠ 0
      then s.set (s (x + L.off) + L.off + 8) b else s.set (h + 8) b).set b (s (x + L.off)) := by
    rw [tailqRemove, hb]
    split
    · rename_i hne
      rcases hnext hne with ⟨_, h₂, h₃⟩
      rw [set_other _ _ _ _ (show x + L.off + 8 ≠ s (x + L.off) + L.off + 8 by omega), hb,
        set_other _ _ _ _ h₂]
    · rw [set_other _ _ _ _ hboth.1.2, hb, set_other _ _ _ _ hboth.1.1]
  rw [hcells]
  refine ⟨set_self _ _ _, fun _ hne => ?_, fun _ => ?_, fun c hcb hcn hct => ?_⟩
  · rw [set_other _ _ _ _ (Ne.symm (hnext hne).1), if_pos hne, set_self]
  -- The tail pointer moves only if x was the last.
  · rw [set_other _ _ _ _ (Ne.symm hbt)]
    by_cases hend : s (x + L.off) = 0
    · rw [if_neg (not_not.mpr hend), if_pos hend, set_self]
    · rw [if_pos hend, if_neg hend, set_other _ _ _ _ (Ne.symm (hboth.2 hend))]
  · rw [set_other _ _ _ _ hcb]
    split
    · rename_i hne
      rw [set_other _ _ _ _ (hcn rfl hne)]
    · rename_i hend
      rw [set_other _ _ _ _ (hct rfl (not_not.mp hend))]

variable (q : Queues) (hold : Holds L s q)

include hold

theorem tailqConcat_makes (h h' : Nat) (hsome : (q h).isSome = true)
    (hsome' : (q h').isSome = true) (hne : h ≠ h') :
    Joined .tailq L.off h h' s (tailqConcat L.off s h h')
      (lastSlot (· + L.off) h (q.elems h)) := by
  rcases holds_seq L s q h _ hold rfl hsome with ⟨hh, hel, _, hat⟩
  rcases heads_apart L s q hold rfl h h' hsome hsome' hne with ⟨h₁, h₂, h₃⟩
  have hnone := joined_none L s q hold h h' hsome hsome'
  by_cases hempty : s h' = 0
  · rw [tailqConcat, if_neg (not_not.mpr hempty)]
    exact hnone hempty
  · have hslot := lastSlot_isSlot L.off h (q.elems h)
    have hbh := lastSlot_ne_head L s q hold h h' hsome' hne
    have hbh' := lastSlot_ne_back L s q hold rfl h h' hsome hsome' hne
    have hfirst := (first_elem L s q hold h' hsome' hempty).2
    have hbn := slot_ne_back L h _ hh hel _ _ hfirst rfl hslot
    have hbt := slot_ne_tail L h _ hh hel _ rfl hslot
    have hn := first_room L s q hold rfl h' h hsome' hsome hempty
    have hn' := first_room L s q hold rfl h' h' hsome' hsome' hempty
    have hlast := hat.tail rfl
    generalize lastSlot (· + L.off) h (q.elems h) = b at hbh hbh' hbn hbt hlast ⊢
    -- What is read in between has not been stored to yet.
    have hcells : tailqConcat L.off s h h' = ((((s.set b (s h')).set (s h' + L.off + 8) b).set
        (h + 8) (s (h' + 8))).set h' 0).set (h' + 8) h' := by
      rw [tailqConcat, if_pos hempty, tailqInit, hlast, set_other _ _ _ _ (Ne.symm hbh),
        set_other _ _ _ _ (Ne.symm hbt), hlast, set_other _ _ _ _ (Ne.symm (hn'.2 rfl)),
        set_other _ _ _ _ (Ne.symm hbh')]
    rw [hcells]
    refine ⟨?_, fun _ _ => ?_, fun _ => ?_, ?_, fun _ => set_self _ _ _,
      fun c hcb hin hcn hct => ?_⟩
    · rw [set_other _ _ _ _ hbh', set_other _ _ _ _ hbh, set_other _ _ _ _ hbt,
        set_other _ _ _ _ hbn, set_self]
    · rw [set_other _ _ _ _ (hn'.2 rfl), set_other _ _ _ _ hn'.1, set_other _ _ _ _ (hn.2 rfl),
        set_self]
    · rw [if_neg hempty, set_other _ _ _ _ h₃, set_other _ _ _ _ h₂, set_self]
    · rw [set_other _ _ _ _ (by omega), set_self]
    · rw [set_other _ _ _ _ (fun heq => hin (Or.inr ⟨rfl, heq⟩)),
        set_other _ _ _ _ (fun heq => hin (Or.inl heq)), set_other _ _ _ _ (hct rfl hempty),
        set_other _ _ _ _ (hcn rfl hempty), set_other _ _ _ _ hcb]

/-- Where `TAILQ_SWAP` sets a queue right that begins with `first`. -/
def swapFix (off first h : Nat) : Nat := if first ≠ 0 then first + off + 8 else h + 8

omit hold in
theorem swapFix_eq (t : Store) (h : Nat) :
    (if t h ≠ 0 then t.set (t h + L.off + 8) h else t.set (h + 8) h)
      = t.set (swapFix L.off (t h) h) h := by
  rw [swapFix]
  split <;> rfl

/-- It is a pointer back or behind a head, and belongs to one queue. -/
theorem swapFix_room (h h' : Nat) (hsome : (q h).isSome = true) (hsome' : (q h').isSome = true)
    (hne : h ≠ h') : swapFix L.off (s h') h ≠ h ∧ swapFix L.off (s h') h ≠ h' ∧
      swapFix L.off (s h') h ≠ swapFix L.off (s h) h' ∧
      swapFix L.off (s h') h ≠ h' + 8 ∧ (s h' ≠ 0 → swapFix L.off (s h') h ≠ h + 8) := by
  rcases heads_apart L s q hold rfl h h' hsome hsome' hne with ⟨_, h₂, h₃⟩
  have hroom := first_room L s q hold rfl h h hsome hsome
  have hroom₂ := first_room L s q hold rfl h' h hsome' hsome
  have hroom₃ := first_room L s q hold rfl h' h' hsome' hsome'
  have hdiff := first_ne L s q hold h h' hsome hsome' hne
  have hk : QueueKind.tailq.tail = true := rfl
  simp only [swapFix]
  grind

theorem tailqSwap_makes (h h' : Nat) (hsome : (q h).isSome = true)
    (hsome' : (q h').isSome = true) (hne : h ≠ h') :
    Swapped .tailq L.off h h' s (tailqSwap L.off s h h') := by
  rcases heads_apart L s q hold rfl h h' hsome hsome' hne with ⟨h₁, h₂, h₃⟩
  rcases swapFix_room L s q hold h h' hsome hsome' hne with ⟨hw₁, hw₂, hww, hw₃, hw₄⟩
  rcases swapFix_room L s q hold h' h hsome' hsome (Ne.symm hne) with ⟨hw₁', hw₂', _, hw₃', hw₄'⟩
  -- After the pointers of the heads have been exchanged two more are written.
  have hcells : ∃ t : Store, tailqSwap L.off s h h'
        = (t.set (swapFix L.off (s h') h) h).set (swapFix L.off (s h) h') h' ∧
      t h = s h' ∧ t h' = s h ∧ t (h + 8) = s (h' + 8) ∧ t (h' + 8) = s (h + 8) ∧
      ∀ c, ¬ InHead .tailq h c → ¬ InHead .tailq h' c → t c = s c := by
    have hother := set_other s h (s h')
    refine ⟨(((s.set h (s h')).set (h + 8) (s (h' + 8))).set h' (s h)).set (h' + 8) (s (h + 8)),
      ?_, ?_, ?_, ?_, set_self _ _ _, fun c hc hc' => ?_⟩
    · simp only [tailqSwap, swapFix_eq]
      rw [hother _ (Ne.symm h₁), set_other _ _ _ _ h₁, set_other _ _ _ _ hne,
        set_other _ _ _ _ (show h ≠ h + 8 by omega), set_self, set_other _ _ _ _ (Ne.symm hw₂),
        set_other _ _ _ _ (show h' ≠ h' + 8 by omega), set_self]
    · rw [set_other _ _ _ _ h₁, set_other _ _ _ _ hne, set_other _ _ _ _ (by omega), set_self]
    · rw [set_other _ _ _ _ (by omega), set_self]
    · rw [set_other _ _ _ _ h₃, set_other _ _ _ _ h₂, set_self]
    · rw [set_other _ _ _ _ (fun heq => hc' (Or.inr ⟨rfl, heq⟩)),
        set_other _ _ _ _ (fun heq => hc' (Or.inl heq)),
        set_other _ _ _ _ (fun heq => hc (Or.inr ⟨rfl, heq⟩)),
        set_other _ _ _ _ (fun heq => hc (Or.inl heq))]
  rcases hcells with ⟨t, heq, hhere, hthere, htail, htail', hframe⟩
  rw [heq]
  refine ⟨⟨?_, fun _ hfull => ?_, fun _ => ?_⟩, ⟨?_, fun _ hfull => ?_, fun _ => ?_⟩,
    fun c hc hc' hb hb' => ?_⟩
  · rw [set_other _ _ _ _ (Ne.symm hw₂'), set_other _ _ _ _ (Ne.symm hw₁), hhere]
  · have hw : swapFix L.off (s h') h = s h' + L.off + 8 := if_pos hfull
    rw [← hw, set_other _ _ _ _ hww, set_self]
  · rw [set_other _ _ _ _ (Ne.symm hw₃')]
    by_cases hempty : s h' = 0
    · rw [if_pos hempty, swapFix, if_neg (not_not.mpr hempty), set_self]
    · rw [if_neg hempty, set_other _ _ _ _ (Ne.symm (hw₄ hempty)), htail]
  · rw [set_other _ _ _ _ (Ne.symm hw₁'), set_other _ _ _ _ (Ne.symm hw₂), hthere]
  · have hw : swapFix L.off (s h) h' = s h + L.off + 8 := if_pos hfull
    rw [← hw, set_self]
  · by_cases hempty : s h = 0
    · rw [if_pos hempty, swapFix.eq_def L.off (s h), if_neg (not_not.mpr hempty), set_self]
    · rw [if_neg hempty, set_other _ _ _ _ (Ne.symm (hw₄' hempty)),
        set_other _ _ _ _ (Ne.symm hw₃), htail']
  · have hcw : c ≠ swapFix L.off (s h') h := by
      rw [swapFix]
      split
      · rename_i hfull
        exact hb' rfl hfull
      · exact fun hc8 => hc (Or.inr ⟨rfl, hc8⟩)
    have hcw' : c ≠ swapFix L.off (s h) h' := by
      rw [swapFix]
      split
      · rename_i hfull
        exact hb rfl hfull
      · exact fun hc8 => hc' (Or.inr ⟨rfl, hc8⟩)
    rw [set_other _ _ _ _ hcw', set_other _ _ _ _ hcw, hframe c hc hc']

/-- Every macro makes its change and answers as it should. -/
theorem tailq_step (fuel : Nat) (op : QueueOp) (hlegal : QueueLegal L fuel q op) :
    QueueMakes L q s (tailqStep L.off fuel s op).1 op ∧
      (tailqStep L.off fuel s op).2 = (queueSpec q op).2 := by
  rcases hlegal with ⟨hhas, hfits, hfuel⟩
  cases op with
  | init h =>
      rw [tailqStep, tailqInit]
      exact ⟨cleared_tail s h rfl, rfl⟩
  | insertHead h x =>
      have hroom := insert_room L s q hold h x [] _ rfl hfits.1 hfits.2.1 hfits.2.2
      exact ⟨tailqInsertHead_spliced L s h x hroom, rfl⟩
  | insertTail h x =>
      have hat := hold.seqs h hfits.1
      have hroom := insert_room L s q hold h x _ [] (List.append_nil _).symm hfits.1 hfits.2.1
        hfits.2.2
      exact ⟨tailqInsertTail_spliced L s h _ x (hat.tail rfl) hat.ends hroom, rfl⟩
  | insertAfter h y x =>
      rcases hfits with ⟨hy, hx, hfree⟩
      exact ⟨tailqInsertAfter_spliced L s h x y (insert_room_after L s q hold h y x hy hx hfree),
        rfl⟩
  | insertBefore h y x =>
      rcases hfits with ⟨hy, hx, hfree⟩
      have hsome := isSome_of_mem q h y hy
      rcases elems_split L q h y hold.apart hy with ⟨l, r, hlr, _⟩
      have hat := hold.seqs h hsome
      have hback := back_eq L s h _ rfl hat y l r hlr
      have hroom := insert_room L s q hold h x l (y :: r) hlr hsome hx hfree
      rw [hlr] at hat
      refine ⟨⟨l, r, hlr, ?_⟩, rfl⟩
      exact tailqInsertBefore_spliced L s h _ x y hback (queueAt_cut L s h l (y :: r) hat).2.2.2
        (L.elem_ne y (hold.apart.elem h y hy)) hroom
  | removeHead h => exact absurd hhas Bool.false_ne_true
  | removeAfter h y => exact absurd hhas Bool.false_ne_true
  | remove h x =>
      rcases elems_split L q h x hold.apart hfits with ⟨l, r, hlr, _⟩
      have hback := back_eq L s h _ rfl (hold.seqs h (isSome_of_mem q h x hfits)) x l r hlr
      refine ⟨⟨l, r, hlr, ?_⟩, rfl⟩
      exact tailqRemove_unlinked L s h _ x hback (remove_room L s q hold h x l r hlr)
  | concat h h' =>
      exact ⟨tailqConcat_makes L s q hold h h' hfits.1 hfits.2.1 hfits.2.2, rfl⟩
  | swap h h' => exact ⟨tailqSwap_makes L s q hold h h' hfits.1 hfits.2.1 hfits.2.2, rfl⟩
  | empty h => exact ⟨rfl, congrArg QueueAns.flag (ask_empty L s q hold h hfits)⟩
  | first h => exact ⟨rfl, congrArg QueueAns.ptr (ask_first L s q hold h hfits)⟩
  | next h x => exact ⟨rfl, congrArg QueueAns.ptr (ask_next L s q hold h x hfits)⟩
  | last h => exact ⟨rfl, congrArg QueueAns.ptr (last_eq L s h _ rfl (hold.seqs h hfits) rfl)⟩
  | lastFast h => exact ⟨rfl, congrArg QueueAns.ptr (ask_lastFast L s q hold rfl h hfits)⟩
  | prev h x =>
      -- The macro reads the field of the element before as if it were a head.
      rcases elems_split L q h x hold.apart hfits with ⟨l, r, hlr, hl⟩
      have hprev := prev_eq L s h _ rfl (hold.seqs h (isSome_of_mem q h x hfits)) rfl x l r hlr
      refine ⟨rfl, congrArg QueueAns.ptr ?_⟩
      rw [hprev, hlr, (takeDrop_split x l r hl).1]
  | prevFast h x => exact ⟨rfl, congrArg QueueAns.ptr (ask_prevFast L s q hold rfl h x hfits)⟩
  | foreach h =>
      rw [tailqStep, tailqForeach, ask_foreach L s q hold fuel h hfits (hfuel h)]
      exact ⟨rfl, rfl⟩
  | foreachFrom h x =>
      rw [tailqStep, tailqForeachFrom,
        ask_foreachFrom L s q hold fuel h x hfits.1 hfits.2 (hfuel h)]
      exact ⟨rfl, rfl⟩
  | foreachReverse h =>
      rcases holds_seq L s q h _ hold rfl hfits with ⟨_, hel, _, hat⟩
      rw [tailqStep, foreachReverse_eq L s h _ rfl hat rfl hel fuel (hfuel h)]
      exact ⟨rfl, rfl⟩
  | foreachReverseFrom h x =>
      rcases holds_seq L s q h _ hold rfl hfits.1 with ⟨_, hel, hnodup, hat⟩
      rw [tailqStep,
        foreachReverseFrom_eq L s h _ rfl hat rfl hel fuel x (hfuel h) hfits.2 hnodup]
      exact ⟨rfl, rfl⟩

end Changes

end Aircmn
