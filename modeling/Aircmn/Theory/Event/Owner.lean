import Aircmn.Core.Event
import Aircmn.Lib.Holdings
import Aircmn.Lib.Machine

/-!
# What an Event Base Holds

An event base is a descriptor and two blocks. `event_base_create` obtains them
one after the other, and where it fails it gives back what it has obtained in
the opposite order; `event_base_destroy` gives back all three and clears the
pointer, so that destroying twice through one pointer does nothing. Over a whole
program with any number of pointers the descriptors and blocks that belong to
event bases are those of the bases the pointers point to, each held once, and
nothing has been closed or freed that was not an event base's.

## Main definitions

* `EventHome.owns`, `heldBy`: What belongs to event bases, and what one holds.
* `BasesHeld`: The invariant.
* `twoBases`: A short program.

## Theorems

* `homeClose_owns`, `homeFree_owns`, `homeAlloc_owns`: What the calls do to what
  is owned.
* `eventBaseCreate_opened`, `eventBaseCreate_owns`, `eventBaseDestroy_owns`: What
  the functions do.
* `baseAct_held`: The invariant is kept.
* `event_bases_held`, `event_bases_held_two`: Every run.
-/

namespace Aircmn

open Descriptors Holdings Machine

/-- The resource belongs to an event base. -/
def EventHome.owns (k : EventHome) : Resource → Prop := Owns k.table k.blocks .base

/-- What a pointer's event base holds. -/
def heldBy : Option EventBase → List Resource
  | none => []
  | some e => [.fd e.ep, .block e.event, .block e.addr]

/-- The bases the pointers point to hold what is owned, and nothing else has been
    given back. -/
structure BasesHeld (w : EventBases) : Prop where
  held : Holds w.home.owns (heldBy ∘ w.evb)
  strays : w.home.strays = []

section Calls

variable (k : EventHome)

theorem homeClose_owns (fd : Int32) (h : k.owns (.fd fd)) :
    (∀ r, (homeClose k fd).owns r ↔ k.owns r ∧ r ≠ .fd fd)
      ∧ (homeClose k fd).strays = k.strays :=
  ⟨owns_closed k.table k.blocks .base fd, if_pos h⟩

theorem homeFree_owns (p : Nat) (h : k.owns (.block p)) :
    (∀ r, (homeFree k p).owns r ↔ k.owns r ∧ r ≠ .block p)
      ∧ (homeFree k p).strays = k.strays :=
  ⟨owns_freed k.table k.blocks .base p, if_pos h⟩

theorem homeAlloc_owns (p : Nat) (r : Resource) :
    (homeAlloc k (some p)).owns r ↔ k.owns r ∨ r = .block p :=
  owns_alloc k.table k.blocks .base p r

/-- An `event_base_create` after `epoll_create1` has opened a descriptor, which
    is given back unless it becomes a base's. -/
theorem eventBaseCreate_opened (nevent : Int32) (cb : Nat) (ep : Int32) (event evb : Option Nat)
    (hneg : ¬ ep < 0) (hep : k.table ep = none) (hevent : AllocFits k.blocks event)
    (hevb : AllocFits (homeAlloc k event).blocks evb) (r : Option EventBase × EventHome)
    (hr : eventBaseCreate k nevent cb ep event evb = r) :
    (heldBy r.1).Nodup ∧ (∀ x ∈ heldBy r.1, ¬ k.owns x)
      ∧ (∀ x, r.2.owns x ↔ k.owns x ∨ x ∈ heldBy r.1) ∧ r.2.strays = k.strays := by
  have hfd : ¬ k.owns (.fd ep) := by
    simp only [EventHome.owns, Owns, hep, reduceCtorEq, not_false_eq_true]
  have hopened : ∀ r, EventHome.owns { k with table := opened k.table ep .base } r
      ↔ k.owns r ∨ r = .fd ep := owns_opened k.table k.blocks .base ep hneg
  -- Where there is no base in the end, everything has to be as before.
  have hnone : ∀ k' : EventHome, (∀ x, k'.owns x ↔ k.owns x) → k'.strays = k.strays →
      (heldBy none).Nodup ∧ (∀ x ∈ heldBy none, ¬ k.owns x)
        ∧ (∀ x, k'.owns x ↔ k.owns x ∨ x ∈ heldBy none) ∧ k'.strays = k.strays :=
    fun k' howns hstrays => ⟨List.nodup_nil, fun x hx => absurd hx List.not_mem_nil,
      fun x => (howns x).trans (or_iff_left List.not_mem_nil).symm, hstrays⟩
  rw [eventBaseCreate, if_neg hneg] at hr
  cases event with
  | none =>
      subst hr
      have hclose := homeClose_owns _ ep ((hopened _).mpr (Or.inr rfl))
      exact hnone _ (given_back _ _ _ hfd _ hopened hclose.1) hclose.2
  | some event =>
      have hblock : ¬ EventHome.owns { k with table := opened k.table ep .base } (.block event) :=
        Bool.eq_false_iff.mp hevent
      have halloc := homeAlloc_owns { k with table := opened k.table ep .base } event
      cases evb with
      | none =>
          -- The block is freed first and the descriptor closed after that.
          subst hr
          have hfree := homeFree_owns _ event ((halloc _).mpr (Or.inr rfl))
          have hback := given_back _ _ _ hblock _ halloc hfree.1
          have hclose := homeClose_owns _ ep ((hback _).mpr ((hopened _).mpr (Or.inr rfl)))
          refine hnone _ (given_back _ _ _ hfd _ hopened (fun x => ?_)) (hclose.2.trans hfree.2)
          exact (hclose.1 x).trans (and_congr_left' (hback x))
      | some evb =>
          subst hr
          have hblocks : ¬ EventHome.owns (homeAlloc { k with table := opened k.table ep .base }
              (some event)) (.block evb) := Bool.eq_false_iff.mp hevb
          have hevb := homeAlloc_owns (homeAlloc { k with table := opened k.table ep .base }
            (some event)) evb
          -- The first block is in use when the second one is obtained.
          have hne : event ≠ evb := by
            rintro rfl
            exact hblocks ((halloc _).mpr (Or.inr rfl))
          refine ⟨?_, ?_, fun x => ?_, rfl⟩
          · simpa only [heldBy, List.nodup_cons, List.mem_cons, reduceCtorEq, false_or,
              Resource.block.injEq, List.not_mem_nil, or_false, not_false_eq_true, true_and,
              List.nodup_nil, and_true] using hne
          · simp only [heldBy, List.mem_cons, List.not_mem_nil, or_false]
            rintro x (rfl | rfl | rfl)
            · exact hfd
            · exact fun h => hblock ((hopened _).mpr (Or.inl h))
            · exact fun h => hblocks ((halloc _).mpr (Or.inl ((hopened _).mpr (Or.inl h))))
          · rw [hevb, halloc, hopened]
            simp only [heldBy, List.mem_cons, List.not_mem_nil, or_false, or_assoc]

/-- A base that is returned holds what has been obtained, and otherwise all of it
    has been given back. -/
theorem eventBaseCreate_owns (nevent : Int32) (cb : Nat) (ep : Int32) (event evb : Option Nat)
    (hep : Answer k.table ep) (hevent : AllocFits k.blocks event)
    (hevb : AllocFits (homeAlloc k event).blocks evb) (r : Option EventBase × EventHome)
    (hr : eventBaseCreate k nevent cb ep event evb = r) :
    (heldBy r.1).Nodup ∧ (∀ x ∈ heldBy r.1, ¬ k.owns x)
      ∧ (∀ x, r.2.owns x ↔ k.owns x ∨ x ∈ heldBy r.1) ∧ r.2.strays = k.strays := by
  by_cases hneg : ep < 0
  · rw [eventBaseCreate, if_pos hneg, opened_failed _ _ _ hneg] at hr
    subst hr
    exact ⟨List.nodup_nil, fun x hx => absurd hx List.not_mem_nil,
      fun x => (or_iff_left List.not_mem_nil).symm, rfl⟩
  · exact eventBaseCreate_opened k nevent cb ep event evb hneg (hep.resolve_left hneg) hevent hevb
      r hr

/-- What the base of the pointer holds is given back, each thing once. -/
theorem eventBaseDestroy_owns (evb : Option EventBase) (hnodup : (heldBy evb).Nodup)
    (howns : ∀ x ∈ heldBy evb, k.owns x) :
    (∀ x, (eventBaseDestroy k evb).2.owns x ↔ k.owns x ∧ x ∉ heldBy evb)
      ∧ (eventBaseDestroy k evb).2.strays = k.strays := by
  -- The base gives back its descriptor and its two blocks, in the order of the source.
  cases evb with
  | none => exact ⟨fun x => (and_iff_left List.not_mem_nil).symm, rfl⟩
  | some e =>
      simp only [heldBy, List.nodup_cons, List.mem_cons, reduceCtorEq,
        Resource.block.injEq, List.not_mem_nil, or_false, not_false_eq_true, true_and,
        List.nodup_nil, and_true] at hnodup
      simp only [heldBy, List.mem_cons, List.not_mem_nil, or_false, forall_eq_or_imp,
        forall_eq] at howns
      rcases howns with ⟨hep, hevent, haddr⟩
      -- Each of the three is still owned when it is given back, as the three are different.
      have hfree := homeFree_owns k e.event hevent
      have hclose := homeClose_owns _ e.ep
        ((hfree.1 _).mpr ⟨hep, fun hc => nomatch hc⟩)
      have hlast := homeFree_owns _ e.addr ((hclose.1 _).mpr
        ⟨(hfree.1 _).mpr ⟨haddr, fun hc => hnodup (Resource.block.inj hc).symm⟩,
          fun hc => nomatch hc⟩)
      -- What is left is what was owned, without these three.
      refine ⟨fun x => ?_, hlast.2.trans (hclose.2.trans hfree.2)⟩
      simp only [eventBaseDestroy, heldBy, hlast.1, hclose.1, hfree.1, List.mem_cons,
        List.not_mem_nil, or_false, not_or]
      tauto

end Calls

theorem baseAct_held (w w' : EventBases) (act : BaseAct) (h : BasesHeld w)
    (hstep : baseAct w act = some w') : BasesHeld w' := by
  -- Each step keeps every base's three resources as they are, but for the base it is about.
  cases act with
  | create i nevent cb ep event evb =>
      simp only [baseAct, Option.ite_none_right_eq_some, Option.some.injEq] at hstep
      rcases hstep with ⟨⟨hi, hep, hevent, hevb⟩, rfl⟩
      rcases eventBaseCreate_owns w.home nevent cb ep event evb hep hevent hevb _ rfl with
        ⟨hnodup, hfree, howned, hstrays⟩
      -- A new base holds what it has just been given, which nobody else holds.
      refine ⟨?_, hstrays.trans h.strays⟩
      rw [Function.comp_update]
      exact holds_take _ _ _ h.held i (congrArg heldBy hi) _ hnodup hfree howned
  | destroy i =>
      cases hstep
      rcases eventBaseDestroy_owns w.home (w.evb i) (h.held.nodup i)
        (holds_owned _ _ h.held i) with ⟨howned, hstrays⟩
      refine ⟨?_, hstrays.trans h.strays⟩
      -- After the call the slot is empty, whether there was a base or not.
      have hcleared : (eventBaseDestroy w.home (w.evb i)).1 = none := by
        cases w.evb i <;> rfl
      rw [hcleared, Function.comp_update]
      exact holds_give _ _ _ h.held i howned
  | otherOpen fd =>
      simp only [baseAct, Option.ite_none_right_eq_some, Option.some.injEq] at hstep
      rcases hstep with ⟨⟨_, hfd⟩, rfl⟩
      -- A descriptor opened elsewhere is no resource of any base.
      exact ⟨holds_congr _ _ _ h.held (owns_otherOpened _ _ _ EventOwner.other (by decide) fd hfd),
        h.strays⟩
  | otherClose fd =>
      simp only [baseAct, Option.ite_none_right_eq_some, Option.some.injEq] at hstep
      rcases hstep with ⟨hfd, rfl⟩
      exact ⟨holds_congr _ _ _ h.held (owns_otherClosed _ _ _ EventOwner.other (by decide) fd hfd),
        h.strays⟩

/-- In every run the descriptors and blocks of event bases are those of the bases
    that the pointers point to, each held by one of them, and nothing else has
    been closed or freed; when all pointers are null, there are none. -/
theorem event_bases_held (table : Table EventOwner) (htable : ∀ fd, table fd ≠ some .base)
    (acts : List BaseAct) (w : EventBases) (hrun : steps baseAct (eventBases table) acts = some w) :
    BasesHeld w ∧ ((∀ i, w.evb i = none) → ∀ r, ¬ w.home.owns r) := by
  have hheld : BasesHeld w := by
    refine steps_invariant_along baseAct (fun _ => True) BasesHeld
      (fun s i s' hs _ h => baseAct_held s s' i hs h) acts _ w ?_ (fun _ _ => trivial) hrun
    refine ⟨holds_nothing _ (fun r hr => ?_), rfl⟩
    cases r with
    | fd fd => exact htable fd hr
    | block p => exact Bool.false_ne_true hr
  exact ⟨hheld, fun hnull => holds_empty _ _ hheld.held (fun i => congrArg heldBy (hnull i))⟩

/-- Two bases, of which the second is not made for want of memory and its number
    is given to somebody else, and the first destroyed twice. -/
def twoBases : List BaseAct :=
  [.create 0 8 0 3 (some 64) (some 128), .create 1 8 0 4 (some 192) none, .otherOpen 4, .destroy 0,
    .destroy 0, .destroy 1]

/-- The program of the two bases runs to its end and leaves nothing. -/
theorem event_bases_held_two : ∃ w, steps baseAct (eventBases (fun _ => none)) twoBases = some w
    ∧ BasesHeld w ∧ ((∀ i, w.evb i = none) → ∀ r, ¬ w.home.owns r) := by
  have hruns : (steps baseAct (eventBases (fun _ => none)) twoBases).isSome := by decide
  rcases Option.isSome_iff_exists.mp hruns with ⟨w, hw⟩
  exact ⟨w, hw, event_bases_held (fun _ => none) (fun _ => Option.some_ne_none _ |>.symm) twoBases
    w hw⟩

end Aircmn
