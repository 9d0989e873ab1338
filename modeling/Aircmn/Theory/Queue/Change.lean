import Aircmn.Theory.Queue.Store

/-!
# One Change in a Store with Many Sequences

A store holds the sequences if it holds that of every head that has been
initialised. A change that writes only to what belongs to the heads it is
about, before it or after it, leaves every other sequence as it is, since no
pointer belongs to two heads. So it is enough to look at the heads an
operation names.

What every operation has to make of the store is one of the changes, at a slot
that depends on the operation. If it does, the store holds the sequences that
the description of the operation asks for. This is proved here once; each
structure then only shows that its macros make their changes.

The same argument bounds what a change may write to. Whatever belongs to a head
belongs to the layout, so a store outside of the layout is left alone, which is
what lists of another layout in the same memory need.

## Main definitions

* `Holds`: The store holds the sequences.
* `Changed`: It holds new ones, and is as before outside of the layout.
* `Cleared`: A head has been initialised.
* `QueueMakes`: The change that an operation has to make.

## Theorems

* `owns_unique`: A pointer belongs to one head.
* `owns_covers`, `owns_not_outside`: It belongs to the layout.
* `holds_congr`: Stores that differ in what belongs to nobody.
* `changed_of_owned`: Other sequences are as before.
* `changed_step`: An operation that makes its change.
-/

namespace Aircmn

open Links

/-- The store holds the sequence of every head that has been initialised. -/
structure Holds {k : QueueKind} (L : Layout k) (s : Store) (q : Queues) : Prop where
  apart : q.Apart L
  seqs : ∀ h, (q h).isSome = true → QueueAt k L.off s h (q.elems h)

/-- The store holds the new sequences, and only what is of the layout has been
    written to. -/
structure Changed {k : QueueKind} (L : Layout k) (s s' : Store) (q' : Queues) : Prop where
  holds : Holds L s' q'
  frame : ∀ c, L.Outside c → s' c = s c

/-- The head has been initialised. -/
structure Cleared (k : QueueKind) (h : Nat) (s s' : Store) : Prop where
  here : s' h = 0
  tail : k.tail = true → s' (h + 8) = h
  frame : ∀ c, ¬ InHead k h c → s' c = s c

/-- What an operation has to make of a store that holds the sequences. -/
def QueueMakes {k : QueueKind} (L : Layout k) (q : Queues) (s s' : Store) : QueueOp → Prop
  | .init h => Cleared k h s s'
  | .insertHead h x => Spliced k L.off h s s' h x
  | .insertTail h x => Spliced k L.off h s s' (lastSlot (· + L.off) h (q.elems h)) x
  | .insertAfter h y x => Spliced k L.off h s s' (y + L.off) x
  | .insertBefore h y x =>
    ∃ l r, q.elems h = l ++ y :: r ∧ Spliced k L.off h s s' (lastSlot (· + L.off) h l) x
  | .removeHead h => ∃ x r, q.elems h = x :: r ∧ Unlinked k L.off h s s' h x
  | .removeAfter h y =>
    ∃ l z r, q.elems h = l ++ y :: z :: r ∧ Unlinked k L.off h s s' (y + L.off) z
  | .remove h x =>
    ∃ l r, q.elems h = l ++ x :: r ∧ Unlinked k L.off h s s' (lastSlot (· + L.off) h l) x
  | .concat h h' => Joined k L.off h h' s s' (lastSlot (· + L.off) h (q.elems h))
  | .swap h h' => Swapped k L.off h h' s s'
  | _ => s' = s

section Holds

variable {k : QueueKind} (L : Layout k) (s s' : Store) (q q' : Queues)

/-- A pointer belongs to one head. -/
theorem owns_unique (g h c : Nat) (hq : q.Apart L) (hg : L.head g) (hh : L.head h)
    (hcg : QueueOwns k L.off g (q.elems g) c) (hch : QueueOwns k L.off h (q.elems h) c) :
    g = h := by
  rcases hcg with hhead | ⟨x, hx, hentry⟩
  · rcases hch with hhead' | ⟨y, hy, hentry'⟩
    · exact head_unique L g h c hg hh hhead hhead'
    · exact (head_entry_ne L g y c hg (hq.elem h y hy) hhead hentry').elim
  · rcases hch with hhead' | ⟨y, hy, hentry'⟩
    · exact (head_entry_ne L h x c hh (hq.elem g x hx) hhead' hentry).elim
    · have hxy := entry_unique L x y c (hq.elem g x hx) (hq.elem h y hy) hentry hentry'
      exact hq.once g h x hx (hxy ▸ hy)

/-- What a sequence is stored in is of the layout. -/
theorem owns_covers (h c : Nat) (hq : q.Apart L) (hh : L.head h)
    (hc : QueueOwns k L.off h (q.elems h) c) (a : Nat) (hlo : c ≤ a) (hhi : a < c + 8) :
    L.Covers a := by
  rcases hc with hhead | ⟨x, hx, hentry⟩
  · exact inHead_covers L h c hh hhead a hlo hhi
  · exact inEntry_covers L x c (hq.elem h x hx) hentry a hlo hhi

theorem owns_not_outside (h c : Nat) (hq : q.Apart L) (hh : L.head h)
    (hc : QueueOwns k L.off h (q.elems h) c) : ¬ L.Outside c := fun hout =>
  hout c (Nat.le_refl c) (by omega)
    (owns_covers L q h c hq hh hc c (Nat.le_refl c) (by omega))

/-- A change that writes to nothing but what the heads it is about have or get. -/
theorem changed_of_owned (hs : List Nat) (hold : Holds L s q) (hq' : q'.Apart L)
    (hheads : ∀ h ∈ hs, L.head h) (hsame : ∀ g, g ∉ hs → q' g = q g)
    (hseqs : ∀ h ∈ hs, QueueAt k L.off s' h (q'.elems h))
    (hframe : ∀ c, (∀ h ∈ hs, ¬ QueueOwns k L.off h (q.elems h) c ∧
      ¬ QueueOwns k L.off h (q'.elems h) c) → s' c = s c) : Changed L s s' q' := by
  -- One half is that the queues hold, the other that nothing outside of the layout was stored to.
  refine ⟨⟨hq', fun g hg => ?_⟩, fun c hc => hframe c (fun h hh => ⟨?_, ?_⟩)⟩
  · by_cases hmem : g ∈ hs
    · exact hseqs g hmem
    -- A queue that is not listed has the elements it had, and no cell of its own was stored to.
    · rw [hsame g hmem] at hg
      have helems : q'.elems g = q.elems g := by rw [Queues.elems, hsame g hmem, Queues.elems]
      have hghead := head_of_isSome q g hold.apart hg
      rw [helems]
      refine queueAt_congr k L.off s s' g _ (fun c hc => hframe c (fun h hh => ⟨?_, ?_⟩))
        (hold.seqs g hg)
      -- A cell has one owner, so what belongs to g belongs to none of the queues listed.
      · intro hown
        have hgh := owns_unique L q g h c hold.apart hghead (hheads h hh) hc hown
        exact hmem (hgh ▸ hh)
      · intro hown
        rw [← helems] at hc
        have hgh := owns_unique L q' g h c hq' hghead (hheads h hh) hc hown
        exact hmem (hgh ▸ hh)
  · exact fun hown => owns_not_outside L q h c hold.apart (hheads h hh) hown hc
  · exact fun hown => owns_not_outside L q' h c hq' (hheads h hh) hown hc

/-- A store that differs in what belongs to nobody. -/
theorem holds_congr (hold : Holds L s q)
    (hsame : ∀ g c, (q g).isSome = true → QueueOwns k L.off g (q.elems g) c → s' c = s c) :
    Holds L s' q :=
  ⟨hold.apart, fun g hg =>
    queueAt_congr k L.off s s' g _ (fun c hc => hsame g c hg hc) (hold.seqs g hg)⟩

theorem changed_same (hold : Holds L s q) (hsame : s' = s) : Changed L s s' q :=
  ⟨hsame ▸ hold, fun c _ => congrFun hsame c⟩

/-- The elements of a sequence that is stored. -/
theorem holds_seq (h : Nat) (xs : List Nat) (hold : Holds L s q) (hx : q.elems h = xs)
    (hsome : (q h).isSome = true) :
    L.head h ∧ (∀ z ∈ xs, L.elem z) ∧ xs.Nodup ∧ QueueAt k L.off s h xs := by
  rw [← hx]
  exact ⟨head_of_isSome q h hold.apart hsome, hold.apart.elem h, hold.apart.nodup h,
    hold.seqs h hsome⟩

theorem changed_init (h : Nat) (hold : Holds L s q) (hh : L.head h) (hcl : Cleared k h s s') :
    Changed L s s' (q.set h []) := by
  refine changed_of_owned L s s' q _ [h] hold (apart_clear q h hold.apart hh) ?_ ?_ ?_ ?_
  · intro g hg
    rwa [List.mem_singleton.mp hg]
  · intro g hg
    exact queues_set_other q h g [] (fun heq => hg (List.mem_singleton.mpr heq))
  · intro g hg
    rw [List.mem_singleton.mp hg, elems_set_self]
    exact ⟨trivial, hcl.here, hcl.tail⟩
  · intro c hc
    exact hcl.frame c (fun hin => (hc h (List.mem_singleton.mpr rfl)).1 (Or.inl hin))

theorem changed_insert (h x : Nat) (l r : List Nat) (hold : Holds L s q)
    (hlr : q.elems h = l ++ r) (hsome : (q h).isSome = true) (hx : L.elem x) (hfree : q.Free x)
    (hsp : Spliced k L.off h s s' (lastSlot (· + L.off) h l) x) :
    Changed L s s' (q.set h (l ++ x :: r)) := by
  rcases holds_seq L s q h _ hold hlr hsome with ⟨hh, hel, hnodup, hat⟩
  have hnew : x ∉ l ++ r := hlr ▸ hfree h
  -- Only the queue of h changes; the frame is what is left to prove.
  refine changed_of_owned L s s' q _ [h] hold (apart_insert q h x l r hold.apart hh hlr hx hfree)
    ?_ ?_ ?_ ?_
  · intro g hg
    rwa [List.mem_singleton.mp hg]
  · intro g hg
    exact queues_set_other q h g _ (fun heq => hg (List.mem_singleton.mpr heq))
  · intro g hg
    rw [List.mem_singleton.mp hg, elems_set_self]
    exact queueAt_splice L s s' h x l r hh hel hx hnew hnodup hat hsp
  -- A cell that was stored to is the slot, one of x's own, the successor's back link, or the tail
  -- pointer.
  · intro c hc
    rcases hc h (List.mem_singleton.mpr rfl) with ⟨hold', hnew'⟩
    rw [hlr] at hold'
    rw [elems_set_self] at hnew'
    refine hsp.frame c (fun heq => hold' ?_) (fun hin => hnew' ?_) (fun hdbl hne heq => hold' ?_)
      (fun htail _ heq => hold' (Or.inl (Or.inr ⟨htail, heq⟩)))
    -- The slot was owned by the queue as it was.
    · exact isSlot_owned k L.off h c _ (isSlot_mono _ h c l _
        (fun z hz => List.mem_append_left r hz) (heq ▸ lastSlot_isSlot L.off h l))
    -- The cells of x are owned by the queue as it is now.
    · exact Or.inr ⟨x, List.mem_append_right l List.mem_cons_self, hin⟩
    · have hlead := (queueAt_cut L s h l r hat).2.2.2
      rw [hlead] at hne heq
      exact Or.inr ⟨_, List.mem_append_right l (headOr_mem r hne), Or.inr ⟨hdbl, heq⟩⟩

theorem changed_remove (h x : Nat) (l r : List Nat) (hold : Holds L s q)
    (hlr : q.elems h = l ++ x :: r)
    (hun : Unlinked k L.off h s s' (lastSlot (· + L.off) h l) x) :
    Changed L s s' (q.set h (l ++ r)) := by
  -- x is in the queue, as the list in front of it says.
  have hmem : x ∈ q.elems h := by
    rw [hlr]
    exact List.mem_append_right l List.mem_cons_self
  rcases holds_seq L s q h _ hold hlr (isSome_of_mem q h x hmem) with ⟨hh, hel, hnodup, hat⟩
  refine changed_of_owned L s s' q _ [h] hold (apart_remove q h x l r hold.apart hh hlr) ?_ ?_ ?_ ?_
  · intro g hg
    rwa [List.mem_singleton.mp hg]
  · intro g hg
    exact queues_set_other q h g _ (fun heq => hg (List.mem_singleton.mpr heq))
  · intro g hg
    rw [List.mem_singleton.mp hg, elems_set_self]
    exact queueAt_unlink L s s' h x l r hh hel hnodup hat hun
  -- As for the insertion, without the cells of x, which are not stored to.
  · intro c hc
    have hold' := (hc h (List.mem_singleton.mpr rfl)).1
    rw [hlr] at hold'
    refine hun.frame c (fun heq => hold' ?_) (fun hdbl hne heq => hold' ?_)
      (fun htail _ heq => hold' (Or.inl (Or.inr ⟨htail, heq⟩)))
    · exact isSlot_owned k L.off h c _ (isSlot_mono _ h c l _
        (fun z hz => List.mem_append_left _ hz) (heq ▸ lastSlot_isSlot L.off h l))
    -- What x pointed to is the head of the list behind it.
    · have hlead : s (x + L.off) = headOr r := by
        have hcut := (queueAt_cut L s h (l ++ [x]) r (by rwa [List.append_cons] at hat)).2.2.2
        rwa [lastSlot_append] at hcut
      rw [hlead] at hne heq
      exact Or.inr ⟨_, List.mem_append_right l (List.mem_cons_of_mem x (headOr_mem r hne)),
        Or.inr ⟨hdbl, heq⟩⟩

theorem changed_concat (h h' : Nat) (hold : Holds L s q) (hsome : (q h).isSome = true)
    (hsome' : (q h').isSome = true) (hne : h ≠ h')
    (hj : Joined k L.off h h' s s' (lastSlot (· + L.off) h (q.elems h))) :
    Changed L s s' ((q.set h' []).set h (q.elems h ++ q.elems h')) := by
  rcases holds_seq L s q h _ hold rfl hsome with ⟨hh, hel, hnodup, hat⟩
  rcases holds_seq L s q h' _ hold rfl hsome' with ⟨hh', hel', hnodup', hat'⟩
  -- No element stands in two queues.
  have hdisj : ∀ x ∈ q.elems h, x ∉ q.elems h' := fun x hx hx' =>
    hne (hold.apart.once h h' x hx hx')
  rcases queueAt_join L s s' h h' _ _ hh hh' hne
    (fun z hz => (List.mem_append.mp hz).elim (hel z) (hel' z))
    (List.nodup_append'.mpr ⟨hnodup, hnodup', hdisj⟩) hat hat' hj with ⟨hnew, hnew'⟩
  -- Two queues change: the one takes all the elements and the other is left empty.
  refine changed_of_owned L s s' q _ [h, h'] hold (apart_concat q h h' hold.apart hh hh' hne)
    ?_ ?_ ?_ ?_
  · simp only [List.forall_mem_cons]
    exact ⟨hh, hh', fun _ hx => absurd hx List.not_mem_nil⟩
  · intro g hg
    simp only [List.mem_cons, List.not_mem_nil, or_false, not_or] at hg
    rw [queues_set_other _ h g _ hg.1, queues_set_other _ h' g _ hg.2]
  · simp only [List.forall_mem_cons]
    refine ⟨?_, ?_, fun _ hx => absurd hx List.not_mem_nil⟩
    · rwa [elems_set_self]
    · rwa [elems_set_other _ h h' _ (Ne.symm hne), elems_set_self]
  · -- Everything that is stored to belongs to one of the two.
    intro c hc
    have hold' := (hc h List.mem_cons_self).1
    have hother := (hc h' (List.mem_cons_of_mem h List.mem_cons_self)).1
    refine hj.frame c (fun heq => hold' ?_) (fun hin => hother (Or.inl hin))
      (fun hdbl hne heq => hother ?_) (fun htail _ heq => hold' (Or.inl (Or.inr ⟨htail, heq⟩)))
    · exact isSlot_owned k L.off h c _ (heq ▸ lastSlot_isSlot L.off h _)
    · rw [queueAt_first L s h' _ hat'] at hne heq
      exact Or.inr ⟨_, headOr_mem _ hne, Or.inr ⟨hdbl, heq⟩⟩

theorem changed_swap (h h' : Nat) (hold : Holds L s q) (hsome : (q h).isSome = true)
    (hsome' : (q h').isSome = true) (hne : h ≠ h') (hsw : Swapped k L.off h h' s s') :
    Changed L s s' (((q.set h []).set h' (q.elems h)).set h (q.elems h')) := by
  rcases holds_seq L s q h _ hold rfl hsome with ⟨hh, hel, hnodup, hat⟩
  rcases holds_seq L s q h' _ hold rfl hsome' with ⟨hh', hel', hnodup', hat'⟩
  rcases queueAt_swap L s s' h h' _ _ hh hh' hel hel'
    (fun x hx hx' => hne (hold.apart.once h h' x hx hx')) hnodup hnodup' hat hat' hsw
    with ⟨hnew, hnew'⟩
  -- Again two queues change, each taking the elements of the other.
  refine changed_of_owned L s s' q _ [h, h'] hold (apart_swap q h h' hold.apart hh hh' hne)
    ?_ ?_ ?_ ?_
  · simp only [List.forall_mem_cons]
    exact ⟨hh, hh', fun _ hx => absurd hx List.not_mem_nil⟩
  · intro g hg
    simp only [List.mem_cons, List.not_mem_nil, or_false, not_or] at hg
    rw [queues_set_other _ h g _ hg.1, queues_set_other _ h' g _ hg.2,
      queues_set_other _ h g _ hg.1]
  · simp only [List.forall_mem_cons]
    refine ⟨?_, ?_, fun _ hx => absurd hx List.not_mem_nil⟩
    · rwa [elems_set_self]
    · rwa [elems_set_other _ h h' _ (Ne.symm hne), elems_set_self]
  · -- The first elements point back to the heads and are stored to as well.
    intro c hc
    have hold' := (hc h List.mem_cons_self).1
    have hother := (hc h' (List.mem_cons_of_mem h List.mem_cons_self)).1
    refine hsw.frame c (fun hin => hold' (Or.inl hin)) (fun hin => hother (Or.inl hin))
      (fun hdbl hne heq => hold' ?_) (fun hdbl hne heq => hother ?_)
    · rw [queueAt_first L s h _ hat] at hne heq
      exact Or.inr ⟨_, headOr_mem _ hne, Or.inr ⟨hdbl, heq⟩⟩
    · rw [queueAt_first L s h' _ hat'] at hne heq
      exact Or.inr ⟨_, headOr_mem _ hne, Or.inr ⟨hdbl, heq⟩⟩

/-- A split of a sequence at an element is the only one. -/
theorem not_mem_before (h x : Nat) (l r : List Nat) (hq : q.Apart L)
    (hlr : q.elems h = l ++ x :: r) : x ∉ l := by
  have hnodup := hq.nodup h
  rw [hlr] at hnodup
  exact fun hmem => (List.nodup_append'.mp hnodup).2.2 hmem List.mem_cons_self

/-- The parts of a sequence around an element of it. -/
theorem elems_split (h x : Nat) (hq : q.Apart L) (hx : x ∈ q.elems h) :
    ∃ l r, q.elems h = l ++ x :: r ∧ x ∉ l := by
  rcases List.append_of_mem hx with ⟨l, r, hlr⟩
  exact ⟨l, r, hlr, not_mem_before L q h x l r hq hlr⟩

/-- The slot of an element is the last one of the part that ends with it. -/
theorem lastSlot_concat (off h y : Nat) (l : List Nat) :
    lastSlot (· + off) h (l ++ [y]) = y + off := by
  rw [lastSlot_append]
  rfl

/-- An operation that makes its change leaves a store that holds what the
    operation is for, and nothing else is written to. -/
theorem changed_step (op : QueueOp) (hold : Holds L s q) (hfits : QueueFits L q op)
    (hmakes : QueueMakes L q s s' op) : Changed L s s' (queueSpec q op).1 := by
  cases op with
  | init h => exact changed_init L s s' q h hold hfits hmakes
  | insertHead h x =>
      exact changed_insert L s s' q h x [] (q.elems h) hold rfl hfits.1 hfits.2.1 hfits.2.2 hmakes
  | insertTail h x =>
      exact changed_insert L s s' q h x (q.elems h) [] hold (List.append_nil _).symm hfits.1
        hfits.2.1 hfits.2.2 hmakes
  | insertAfter h y x =>
      -- The element is inserted behind the part that ends in `y`.
      rcases hfits with ⟨hy, hx, hfree⟩
      rcases elems_split L q h y hold.apart hy with ⟨l, r, hlr, hl⟩
      rw [QueueMakes, ← lastSlot_concat L.off h y l] at hmakes
      rw [queueSpec, hlr, afterElm_split y x l r hl, List.append_cons]
      rw [List.append_cons] at hlr
      exact changed_insert L s s' q h x (l ++ [y]) r hold hlr (isSome_of_mem q h y hy) hx hfree
        hmakes
  | insertBefore h y x =>
      rcases hfits with ⟨hy, hx, hfree⟩
      rcases hmakes with ⟨l, r, hlr, hsp⟩
      rw [queueSpec, hlr, beforeElm_split y x l r (not_mem_before L q h y l r hold.apart hlr)]
      exact changed_insert L s s' q h x l (y :: r) hold hlr (isSome_of_mem q h y hy) hx hfree hsp
  | removeHead h =>
      rcases hmakes with ⟨x, r, hlr, hun⟩
      rw [queueSpec, hlr]
      exact changed_remove L s s' q h x [] r hold hlr hun
  | removeAfter h y =>
      rcases hmakes with ⟨l, z, r, hlr, hun⟩
      rw [← lastSlot_concat L.off h y l] at hun
      rw [queueSpec, hlr, dropAfter_split y z l r (not_mem_before L q h y l _ hold.apart hlr),
        List.append_cons]
      rw [List.append_cons] at hlr
      exact changed_remove L s s' q h z (l ++ [y]) r hold hlr hun
  | remove h x =>
      rcases hmakes with ⟨l, r, hlr, hun⟩
      rw [queueSpec, hlr, erase_split x l r (not_mem_before L q h x l r hold.apart hlr)]
      exact changed_remove L s s' q h x l r hold hlr hun
  | concat h h' =>
      exact changed_concat L s s' q h h' hold hfits.1 hfits.2.1 hfits.2.2 hmakes
  | swap h h' =>
      exact changed_swap L s s' q h h' hold hfits.1 hfits.2.1 hfits.2.2 hmakes
  -- The rest only reads.
  | empty h => exact changed_same L s s' q hold hmakes
  | first h => exact changed_same L s s' q hold hmakes
  | next h x => exact changed_same L s s' q hold hmakes
  | last h => exact changed_same L s s' q hold hmakes
  | lastFast h => exact changed_same L s s' q hold hmakes
  | prev h x => exact changed_same L s s' q hold hmakes
  | prevFast h x => exact changed_same L s s' q hold hmakes
  | foreach h => exact changed_same L s s' q hold hmakes
  | foreachFrom h x => exact changed_same L s s' q hold hmakes
  | foreachReverse h => exact changed_same L s s' q hold hmakes
  | foreachReverseFrom h x => exact changed_same L s s' q hold hmakes

end Holds

end Aircmn
