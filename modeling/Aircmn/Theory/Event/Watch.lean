import Aircmn.Core.Event
import Aircmn.Lib.Machine

/-!
# Reading or Writing

`event_add_read` and `event_add_write` both add a descriptor to what is
watched; neither changes how a descriptor is watched already, because the
kernel refuses to add one twice. So at any time a descriptor is watched for
reading or for writing but never for both, and a program that has added a
descriptor for reading cannot also wait to write to it without taking it off
first.

What a callback is told follows from there. Of an entry the kernel reports what
is of interest, and errors and hang-ups. The callback is then never told that
it can both read and write, never told nothing, and the pointer it is given was
given to a call that succeeded in adding a descriptor for just that direction.
This holds in every run, whatever the callbacks do and however the waits are
nested, because it holds of every entry the kernel has ever stored.

## Main definitions

* `CameFrom`: Where an entry comes from.
* `Tells`: What an event may say of an entry.
* `EventsTold`: The invariant.

## Theorems

* `eventFlags_bits`: The flags, one by one.
* `tells_flags`: What the flags of an event are.
* `eventAct_told`: The invariant is kept.
* `event_calls_apart`: The callbacks of every run.
-/

namespace Aircmn

open Descriptors Machine

section Flags

/-- What the flags say of an event, and what they do not. -/
theorem eventFlags_bits (ev : UInt32) :
    (eventFlags ev &&& eventRead = 0 ↔ ev &&& (epollin ||| epollrdhup) = 0)
      ∧ (eventFlags ev &&& eventWrite = 0 ↔ ev &&& epollout = 0)
      ∧ (eventFlags ev = 0 → ev &&& (epollerr ||| epollhup) = 0
        ∧ ev &&& (epollin ||| epollrdhup) = 0 ∧ ev &&& epollout = 0) := by
  rw [eventFlags]
  by_cases herr : ev &&& (epollerr ||| epollhup) = 0 <;>
    by_cases hread : ev &&& (epollin ||| epollrdhup) = 0 <;>
      by_cases hwrite : ev &&& epollout = 0 <;>
        simp only [herr, hread, hwrite, ne_eq, not_true_eq_false, not_false_eq_true, if_true,
          if_false] <;> decide

/-- A word without some bits is without fewer bits. -/
theorem and_eq_zero_of_fewer (ev bits fewer : UInt32) (h : ev &&& bits = 0)
    (hfewer : bits &&& fewer = fewer) : ev &&& fewer = 0 := by
  rw [← hfewer, ← UInt32.and_assoc, h, UInt32.zero_and]

theorem and_or_distrib (x y z : UInt32) : x &&& (y ||| z) = (x &&& y) ||| (x &&& z) :=
  UInt32.toBitVec_inj.mp BitVec.and_or_distrib_left

/-- Two masks that together are everything see every bit. -/
theorem eq_zero_of_masks (ev a b : UInt32) (hall : a ||| b = -1) (ha : ev &&& a = 0)
    (hb : ev &&& b = 0) : ev = 0 := by
  rw [← UInt32.and_neg_one (a := ev), ← hall, and_or_distrib, ha, hb, UInt32.or_zero]

end Flags

section Told

variable (all : List EventAct)

/-- The entry was added for reading, or it was added for writing. -/
def CameFrom (e : EpollEvent) : Prop :=
  (e.events = epollin ∧ ∃ fd r, EventAct.addRead fd e.ptr r ∈ all ∧ r.ret = 0)
    ∨ (e.events = epollout ∧ ∃ fd r, EventAct.addWrite fd e.ptr r ∈ all ∧ r.ret = 0)

/-- What an event can say of an entry. -/
def Tells (e ev : EpollEvent) : Prop :=
  ev.ptr = e.ptr ∧ ev.events ≠ 0 ∧ ev.events &&& ~~~(e.events ||| epollerr ||| epollhup) = 0

/-- What a callback is given. -/
def CallFits (c : Nat × UInt32) : Prop :=
  c.2 ≠ 0 ∧
    ((c.2 &&& eventWrite = 0 ∧ ∃ fd r, EventAct.addRead fd c.1 r ∈ all ∧ r.ret = 0)
      ∨ (c.2 &&& eventRead = 0 ∧ ∃ fd r, EventAct.addWrite fd c.1 r ∈ all ∧ r.ret = 0))

/-- Entries come from calls, the events of the waits in progress from entries,
    and so do the callbacks. -/
structure EventsTold (w : EventWorld) : Prop where
  interest : ∀ fd e, w.interest fd = some e → CameFrom all e
  event : ∀ f ∈ w.frames, ∀ j, j < f.nreturned → ∃ e, CameFrom all e ∧ Tells e (w.event j)
  calls : ∀ c ∈ w.calls, CallFits all c

/-- The flags of an event that an entry has caused. -/
theorem tells_flags (e ev : EpollEvent) (hcame : CameFrom all e) (htells : Tells e ev) :
    CallFits all (ev.ptr, eventFlags ev.events) := by
  rcases htells with ⟨hptr, hne, hinside⟩
  rcases eventFlags_bits ev.events with ⟨hread, hwrite, hnone⟩
  constructor
  · intro hzero
    rcases hnone hzero with ⟨herr, hin, hout⟩
    -- Nothing of interest, no error and no hang-up, and nothing else.
    have hnothing : ev.events &&& (e.events ||| epollerr ||| epollhup) = 0 := by
      have hof : ev.events &&& e.events = 0 := by
        rcases hcame with ⟨he, _⟩ | ⟨he, _⟩
        · rw [he]
          exact and_eq_zero_of_fewer _ _ _ hin (by decide)
        · rw [he]
          exact hout
      rw [UInt32.or_assoc, and_or_distrib, hof, herr, UInt32.or_zero]
    exact hne (eq_zero_of_masks _ _ _ UInt32.or_not_self hnothing hinside)
  · rcases hcame with ⟨he, fd, r, hmem, hr⟩ | ⟨he, fd, r, hmem, hr⟩
    · rw [he] at hinside
      have hout := and_eq_zero_of_fewer _ _ epollout hinside (by decide)
      exact Or.inl ⟨hwrite.mpr hout, fd, r, hptr ▸ hmem, hr⟩
    · rw [he] at hinside
      have hin := and_eq_zero_of_fewer _ _ (epollin ||| epollrdhup) hinside (by decide)
      exact Or.inr ⟨hread.mpr hin, fd, r, hptr ▸ hmem, hr⟩

/-- What the kernel stores tells of entries. -/
theorem reported_tells (t : Interest) (r : Int32 × UInt32) (h : ReportFits t r.1 r.2) :
    ∃ e, t r.1 = some e ∧ Tells e (reported t r) := by
  unfold ReportFits at h
  cases he : t r.1 with
  | none =>
      rw [he] at h
      exact h.elim
  | some e =>
      rw [he] at h
      refine ⟨e, rfl, ?_, h.1, h.2⟩
      rw [reported, he]
      rfl

/-- What is watched after an entry has been added, or one taken off. -/
theorem epollCtl_came (t : Interest) (op : CtlOp) (fd : Int32) (event : EpollEvent) (r : SysRet)
    (ht : ∀ fd e, t fd = some e → CameFrom all e)
    (hadd : op = .add → ¬ r.ret < 0 → CameFrom all event) :
    ∀ fd' e, epollCtl t op fd event r fd' = some e → CameFrom all e := by
  -- An entry that epoll_ctl leaves behind was there before, or it is the one just added.
  intro fd' e h
  unfold epollCtl at h
  split at h
  · exact ht fd' e h
  · rename_i hret
    by_cases hfd : fd' = fd
    -- Adding puts the event in, deleting takes it out; both only at fd.
    · cases op with
      | add =>
          rw [hfd] at h
          simp only [Function.update_self, Option.some.injEq] at h
          exact h ▸ hadd rfl hret
      | del =>
          rw [hfd] at h
          simp only [Function.update_self, reduceCtorEq] at h
    · cases op with
      | add =>
          simp only [Function.update_of_ne hfd] at h
          exact ht fd' e h
      | del =>
          simp only [Function.update_of_ne hfd] at h
          exact ht fd' e h

theorem ctlFits_ret (t : Interest) (op : CtlOp) (fd : Int32) (r : SysRet)
    (h : CtlFits t op fd r) (hret : ¬ r.ret < 0) : r.ret = 0 := by
  rcases h with h | h
  · exact absurd h hret
  · exact h.1

/-- The events stored into the array all tell of entries. -/
theorem eventStore_tells (w : EventWorld) (nevent : Nat) (fds : List (Int32 × UInt32))
    (hw : ∀ fd e, w.interest fd = some e → CameFrom all e)
    (hfits : WaitFits w.interest nevent (.ready fds))
    (j : Nat) (hj : j < fds.length) : ∃ e, CameFrom all e ∧ Tells e (eventStore w fds j) := by
  have hmem := List.getElem_mem hj
  rcases reported_tells w.interest fds[j] (hfits.2.2.2 _ hmem) with ⟨e, he, htells⟩
  refine ⟨e, hw _ _ he, ?_⟩
  rw [eventStore, List.getElem?_map, List.getElem?_eq_getElem hj]
  exact htells

theorem eventPoll_ready (timeout : Int32) (fds : List (Int32 × UInt32)) :
    ∀ answers : List WaitAnswer, eventPoll timeout answers = some (.inl fds) →
      .ready fds ∈ answers := by
  -- An interruption is waited out again, so the answer that ends the loop is in the list.
  intro answers
  induction answers with
  | nil =>
      intro h
      cases h
  | cons a answers ih =>
      intro h
      cases a with
      | ready fds' =>
          cases h
          exact List.mem_cons_self
      | nothing => cases h
      | failed errno =>
          rw [eventPoll] at h
          -- EINTR tries again, any other error ends the wait without a list.
          split at h
          · exact List.mem_cons_of_mem _ (ih h)
          · cases h

theorem eventAct_told (nevent : Nat) (cb : Bool) (w : EventWorld) (act : EventAct) (w' : EventWorld)
    (hw : EventsTold all w) (hact : act ∈ all) (h : eventAct nevent cb w act = some w') :
    EventsTold all w' := by
  cases act with
  | addRead fd data r =>
      rw [eventAct, Option.ite_none_right_eq_some, Option.some.injEq] at h
      rcases h with ⟨hfits, rfl⟩
      refine ⟨epollCtl_came all w.interest .add fd ⟨epollin, data⟩ r hw.interest
        (fun _ hret => ?_), hw.event, hw.calls⟩
      exact Or.inl ⟨rfl, fd, r, hact, ctlFits_ret _ _ _ _ hfits hret⟩
  | addWrite fd data r =>
      rw [eventAct, Option.ite_none_right_eq_some, Option.some.injEq] at h
      rcases h with ⟨hfits, rfl⟩
      refine ⟨epollCtl_came all w.interest .add fd ⟨epollout, data⟩ r hw.interest
        (fun _ hret => ?_), hw.event, hw.calls⟩
      exact Or.inr ⟨rfl, fd, r, hact, ctlFits_ret _ _ _ _ hfits hret⟩
  | del fd r =>
      rw [eventAct, Option.ite_none_right_eq_some, Option.some.injEq] at h
      rcases h with ⟨hfits, rfl⟩
      refine ⟨epollCtl_came all w.interest .del fd ⟨0, 0⟩ r hw.interest (fun hop => ?_), hw.event,
        hw.calls⟩
      cases hop
  | wait timeout answers =>
      rw [eventAct, Option.ite_none_right_eq_some] at h
      rcases h with ⟨hfits, h⟩
      split at h
      · cases h
      · rename_i fds hpoll
        cases h
        -- All of what is reported is watched at this time.
        have hready := hfits _ (eventPoll_ready timeout fds answers hpoll)
        refine ⟨hw.interest, fun f hf j hj => ?_, hw.calls⟩
        by_cases hlen : j < fds.length
        · exact eventStore_tells all w nevent fds hw.interest hready j hlen
        · -- Beyond what has been stored are events of a wait further out.
          rcases List.mem_cons.mp hf with rfl | hf
          · exact absurd hj hlen
          · have hkeep : eventStore w fds j = w.event j := by
              rw [eventStore, List.getElem?_eq_none (by rw [List.length_map]; omega)]
              rfl
            rcases hw.event f hf j hj with ⟨e, hcame, htells⟩
            refine ⟨e, hcame, ?_⟩
            change Tells e (eventStore w fds j)
            rwa [hkeep]
      · cases h
        exact ⟨hw.interest, hw.event, hw.calls⟩
  | next =>
      rw [eventAct] at h
      split at h
      · cases h
      · rename_i f frames hframes
        rw [Option.ite_none_right_eq_some, Option.some.injEq] at h
        rcases h with ⟨hi, rfl⟩
        have hf : f ∈ w.frames := hframes ▸ List.mem_cons_self
        refine ⟨hw.interest, fun f' hf' j hj => ?_, fun c hc => ?_⟩
        · rcases List.mem_cons.mp hf' with rfl | hf'
          · exact hw.event f hf j hj
          · exact hw.event f' (hframes ▸ List.mem_cons_of_mem f hf') j hj
        · cases cb with
          | false => exact hw.calls c hc
          | true =>
              rcases List.mem_append.mp hc with hc | hc
              · exact hw.calls c hc
              · rcases hw.event f hf f.i hi with ⟨e, hcame, htells⟩
                rw [List.mem_singleton.mp hc]
                exact tells_flags all e _ hcame htells
  | leave =>
      rw [eventAct] at h
      split at h
      · cases h
      · rename_i f frames hframes
        rw [Option.ite_none_left_eq_some, Option.some.injEq] at h
        rcases h with ⟨_, rfl⟩
        refine ⟨hw.interest, fun f' hf' => hw.event f' ?_, hw.calls⟩
        rw [hframes]
        exact List.mem_cons_of_mem f hf'
  | closed fd =>
      cases h
      refine ⟨fun fd' e he => ?_, hw.event, hw.calls⟩
      by_cases hfd : fd' = fd
      · simp only [hfd, Function.update_self, reduceCtorEq] at he
      · simp only [Function.update_of_ne hfd] at he
        exact hw.interest fd' e he

end Told

/-- No callback of any run is told nothing, or that it can both read and write.
    What it is told is what its pointer was added for. -/
theorem event_calls_apart (nevent : Nat) (cb : Bool) (event : Nat → EpollEvent)
    (acts : List EventAct) (w : EventWorld)
    (h : steps (eventAct nevent cb) (eventWorld event) acts = some w) (c : Nat × UInt32)
    (hc : c ∈ w.calls) :
    c.2 ≠ 0 ∧
      ((c.2 &&& eventWrite = 0 ∧ ∃ fd r, EventAct.addRead fd c.1 r ∈ acts ∧ r.ret = 0)
        ∨ (c.2 &&& eventRead = 0 ∧ ∃ fd r, EventAct.addWrite fd c.1 r ∈ acts ∧ r.ret = 0)) := by
  -- At the start nobody has been told to watch anything, and no callback has run.
  have hstart : EventsTold acts (eventWorld event) := by
    refine ⟨fun fd e he => ?_, fun f hf => ?_, fun c hc => ?_⟩
    · cases he
    · cases hf
    · cases hc
  -- What the kernel reports was added before, an invariant of the run.
  have htold := steps_invariant_along (eventAct nevent cb) (· ∈ acts) (EventsTold acts)
    (fun s act s' hs hact hstep => eventAct_told acts nevent cb s act s' hs hact hstep) acts
    (eventWorld event) w hstart (fun _ hact => hact) h
  exact htold.calls c hc

/-- A descriptor is added for reading, in vain for writing, and then found to
    have hung up. -/
def smallEvents : List EventAct :=
  [.addRead 3 30 ⟨0, 0⟩, .addWrite 3 31 ⟨-1, 17⟩, .wait (-1) [.ready [(3, epollin ||| epollhup)]],
    .next, .leave]

theorem event_calls_apart_small : ∃ w,
    steps (eventAct 8 true) (eventWorld (fun _ => ⟨0, 0⟩)) smallEvents = some w
      ∧ (30, eventErr ||| eventRead) ∈ w.calls ∧ (eventErr ||| eventRead) &&& eventWrite = 0 := by
  -- Evaluated: exactly one call, with both error and reading.
  have hruns : (steps (eventAct 8 true) (eventWorld (fun _ => ⟨0, 0⟩)) smallEvents).map
      EventWorld.calls = some [(30, eventErr ||| eventRead)] := by decide
  rcases Option.map_eq_some_iff.mp hruns with ⟨w, h, hcalls⟩
  have hc : (30, eventErr ||| eventRead) ∈ w.calls := hcalls ▸ List.mem_singleton.mpr rfl
  refine ⟨w, h, hc, ?_⟩
  -- The second half of the alternative needs an add for writing, which this run does not have.
  rcases (event_calls_apart 8 true _ smallEvents w h _ hc).2 with ⟨hout, _⟩ | ⟨_, fd, r, hadd, hr⟩
  · exact hout
  · -- The only attempt to add it for writing has failed.
    simp only [smallEvents, List.mem_cons, reduceCtorEq, EventAct.addWrite.injEq, false_or,
      List.not_mem_nil, or_false] at hadd
    omega

end Aircmn
