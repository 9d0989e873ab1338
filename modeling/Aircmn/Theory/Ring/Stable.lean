import Aircmn.Lib.Monitor
import Aircmn.Theory.Ring.Spsc

/-!
# Checks that Stay True

A thread that has asked `ring_full` or `ring_empty` and been told no may act
on the answer later. Only the other thread can have moved since, and it moves
its position one way: a pop or a flush makes room and never takes any, a push
adds an element and never removes one. So the answer no is stable for the side
that asked, although the comparison of the two positions changes sides at
every turn of the ring.

The positions alone carry this. Nothing here depends on the size of an element
or on where its bytes are, only on the number of slots fitting a word.

`RingTally` is a ghost beside the threads. It counts the elements that have
left the queue, and, for a flush that has loaded `wpos`, how many will have
left when it stores. What has been pushed and has not left is `ringQueue`,
the queue itself, which the tests are compared with.

## Main definitions

* `RingTally`, `ringTally`: The ghost, and what a step does to it.
* `ringQueue`: The elements in the queue.
* `WriterSteps`, `ReaderSteps`: Schedules of one thread.
* `Finishes`: A call goes through, whatever the other thread does meanwhile.
* `PushReturnsOk`, `PopReturnsOk`: A call made now is not refused.
* `RingTallied`: The invariant.

## Theorems

* `ringAct_tallied`: A step keeps the invariant.
* `tallied_full_iff`, `tallied_empty_iff`: The tests, on the queue.
* `readerSteps_room`, `writerSteps_element`: What one side leaves the other.
* `ring_checks_stable`: The checks are stable and a refusal is right.
* `ring_check_turns`: A check across the end of the ring.
-/

namespace Aircmn

open Bytes

/-- Elements that have left the queue, and those that will have when the flush
    in progress stores. -/
structure RingTally where
  gone : Nat
  mark : Nat

/-- What a step of a thread does to the tally. -/
def ringTally (s : RingWorld) (q : RingTally) : RingAct → RingTally
  | .flush => { q with mark := s.pushed.length }
  | .reader =>
    match s.reader with
    | .store _ => { q with gone := q.gone + 1 }
    | .flush _ => { q with gone := q.mark }
    | _ => q
  | _ => q

/-- The threads with the tally beside them. -/
def ringWatched (r : Nat) : RingWorld × RingTally → RingAct → Option (RingWorld × RingTally) :=
  Machine.withGhost (ringAct r) ringTally

/-- The elements in the queue. -/
def ringQueue (s : RingWorld × RingTally) : List (List UInt8) := s.1.pushed.drop s.2.gone

/-- A step of the thread that pushes. -/
def RingAct.ByWriter : RingAct → Prop
  | .push _ => True
  | .writer => True
  | _ => False

/-- A step of the thread that pops and flushes. -/
def RingAct.ByReader (act : RingAct) : Prop := ¬ act.ByWriter

/-- The call in progress takes `k` more steps `go` and ends in `Done`,
    whatever steps of the other thread stand before each of them. -/
def Finishes (r : Nat) (go : RingAct) (Other : RingAct → Prop) (Done : RingWorld → Prop) :
    Nat → RingWorld → Prop
  | 0, s => Done s
  | k + 1, s => ∀ acts t, (∀ a ∈ acts, Other a) → Machine.steps (ringAct r) s acts = some t →
      ∃ t', ringAct r t go = some t' ∧ Finishes r go Other Done k t'

/-- A push made now returns `CMN_OK`. -/
def PushReturnsOk (r : Nat) (s : RingWorld) (elem : Mem) : Prop :=
  ∃ t, ringAct r s (.push elem) = some t ∧
    Finishes r .writer RingAct.ByReader
      (fun u => u.writer = .idle ∧ u.pushed.length = s.pushed.length + 1) 2 t

/-- A pop made now returns `CMN_OK`. Without a destination it has a step less
    to go. -/
def PopReturnsOk (r : Nat) (s : RingWorld) (elem : Bool) : Prop :=
  ∃ t, ringAct r s (.pop elem) = some t ∧
    Finishes r .reader RingAct.ByWriter
      (fun u => u.reader = .idle ∧ u.taken.length = s.taken.length + 1) (if elem then 2 else 1) t

/-- What holds where the writer stands, `R` elements gone and `W` come. -/
def TallyWriterOk (cap : UInt32) (R W : Nat) : RingWriter → Prop
  | .idle => True
  | _ => W < R + cap.toNat

/-- What holds where the reader stands. -/
def TallyReaderOk (cap : UInt32) (R M W : Nat) : RingReader → Prop
  | .idle => True
  | .flush wpos => R ≤ M ∧ M ≤ W ∧ wpos.toNat = M % (cap.toNat + 1)
  | _ => R < W

/-- The invariant of the threads and the tally. -/
structure RingTallied (cap : UInt32) (r : Nat) (s : RingWorld × RingTally) : Prop where
  stands : RingStands cap s.1.mem r s.2.gone s.1.pushed.length
  le : s.2.gone ≤ s.1.pushed.length
  room : s.1.pushed.length ≤ s.2.gone + cap.toNat
  writer : TallyWriterOk cap s.2.gone s.1.pushed.length s.1.writer
  reader : TallyReaderOk cap s.2.gone s.2.mark s.1.pushed.length s.1.reader

theorem tallyWriterOk_release (cap : UInt32) (R R' W : Nat) (pc : RingWriter) (hle : R ≤ R')
    (h : TallyWriterOk cap R W pc) : TallyWriterOk cap R' W pc := by
  cases pc with
  | idle => trivial
  | _ =>
      simp only [TallyWriterOk] at h ⊢
      omega

theorem tallyReaderOk_publish (cap : UInt32) (R M W : Nat) (pc : RingReader)
    (h : TallyReaderOk cap R M W pc) : TallyReaderOk cap R M (W + 1) pc := by
  cases pc with
  | idle => trivial
  | flush wpos => exact ⟨h.1, Nat.le_succ_of_le h.2.1, h.2.2⟩
  | _ =>
      simp only [TallyReaderOk] at h ⊢
      omega

theorem tallied_full_iff (cap : UInt32) (r : Nat) (s : RingWorld × RingTally)
    (hcap : cap.toNat + 1 < 2 ^ 32) (h : RingTallied cap r s) :
    ringFull s.1.mem r = true ↔ (ringQueue s).length = cap.toNat := by
  have hroom := h.room
  rw [ringStands_full_iff cap _ r _ _ hcap h.stands h.le (by omega), ringQueue, List.length_drop]

theorem tallied_empty_iff (cap : UInt32) (r : Nat) (s : RingWorld × RingTally)
    (hcap : cap.toNat + 1 < 2 ^ 32) (h : RingTallied cap r s) :
    ringEmpty s.1.mem r = true ↔ ringQueue s = [] := by
  have hroom := h.room
  rw [ringStands_empty_iff cap _ r _ _ hcap h.stands h.le (by omega), ringQueue,
    List.drop_eq_nil_iff]
  omega

theorem ringWriter_tallied (cap : UInt32) (r : Nat) (s s' : RingWorld) (q : RingTally)
    (hcap : cap.toNat + 1 < 2 ^ 32) (h : RingTallied cap r (s, q))
    (hstep : ringAct r s .writer = some s') : RingTallied cap r (s', q) := by
  have hwriter := h.writer
  simp only [ringAct] at hstep
  cases hpc : s.writer with
  | idle => simp [hpc] at hstep
  | copy elem =>
      simp only [hpc, Option.some.injEq] at hstep hwriter
      rw [← hstep]
      exact ⟨ringPushCopy_stands cap _ r _ _ elem h.stands, h.le, h.room, hwriter, h.reader⟩
  | store elem =>
      simp only [hpc, Option.some.injEq] at hstep hwriter
      -- There is room for the element, the reader having only made more.
      have hlt : s.pushed.length < q.gone + cap.toNat := hwriter
      have hle := h.le
      simp only at hle
      rw [← hstep]
      refine ⟨?_, ?_, ?_, trivial, ?_⟩
      all_goals simp only [List.length_append, List.length_singleton]
      · exact ringPushStore_stands cap _ r _ _ hcap h.stands
      · omega
      · omega
      · exact tallyReaderOk_publish cap _ _ _ _ h.reader

/-- A store of the read position that lets the counter go on to `R'`. -/
theorem ringSetRpos_tallied (cap : UInt32) (r : Nat) (s : RingWorld) (q : RingTally) (R' : Nat)
    (v : UInt32) (taken : List RingTake) (h : RingTallied cap r (s, q)) (hle : q.gone ≤ R')
    (hlen : R' ≤ s.pushed.length) (hv : v.toNat = R' % (cap.toNat + 1)) :
    RingTallied cap r ({ s with mem := ringSetRpos s.mem r v, reader := .idle, taken := taken },
      { q with gone := R' }) := by
  have hroom := h.room
  simp only at hroom
  exact ⟨ringSetRpos_stands cap _ r _ _ R' v h.stands hv, hlen, by simp only; omega,
    tallyWriterOk_release cap _ R' _ _ hle h.writer, trivial⟩

theorem ringReader_tallied (cap : UInt32) (r : Nat) (s s' : RingWorld) (q : RingTally)
    (hcap : cap.toNat + 1 < 2 ^ 32) (h : RingTallied cap r (s, q))
    (hstep : ringAct r s .reader = some s') : RingTallied cap r (s', ringTally s q .reader) := by
  have hreader := h.reader
  -- The reader's three steps: the copy stores nothing, the two others store a reader's position.
  simp only [ringAct] at hstep
  cases hpc : s.reader with
  | idle => simp [hpc] at hstep
  | copy =>
      simp only [hpc, Option.some.injEq] at hstep hreader
      simp only [ringTally, hpc]
      rw [← hstep]
      exact ⟨h.stands, h.le, h.room, h.writer, hreader⟩
  | store bytes =>
      simp only [hpc, Option.some.injEq] at hstep hreader
      simp only [ringTally, hpc]
      rw [← hstep]
      -- The end of a pop lets the tally go up by one, as gone counts what has been handed over.
      refine ringSetRpos_tallied cap r s q (q.gone + 1) _ _ h (Nat.le_succ _) hreader ?_
      rw [h.stands.cap_eq]
      exact next_position cap _ _ hcap h.stands.rpos
  | flush wpos =>
      simp only [hpc, Option.some.injEq] at hstep hreader
      simp only [ringTally, hpc]
      rw [← hstep]
      -- The end of a flush sets the tally to the mark that was read with wpos.
      exact ringSetRpos_tallied cap r s q q.mark wpos _ h hreader.1 hreader.2.1 hreader.2.2

theorem ringAct_tallied (cap : UInt32) (r : Nat) (s s' : RingWorld × RingTally) (act : RingAct)
    (hcap : cap.toNat + 1 < 2 ^ 32) (h : RingTallied cap r s)
    (hstep : ringWatched r s act = some s') : RingTallied cap r s' := by
  rcases s with ⟨s, q⟩
  rcases s' with ⟨s', q'⟩
  rcases (Machine.withGhost_eq_some _ _ _ _ act).mp hstep with ⟨hact, hq⟩
  -- The ghost tally runs beside the ring's own step.
  simp only at hact hq
  rw [hq]
  cases act with
  | writer => exact ringWriter_tallied cap r s s' q hcap h hact
  | reader => exact ringReader_tallied cap r s s' q hcap h hact
  | push elem =>
      simp only [ringAct] at hact
      cases hpc : s.writer with
      | idle =>
          rw [hpc] at hact
          -- A refused push stores nothing.
          by_cases hfull : ringFull s.mem r = true
          · simp only [if_pos hfull, Option.some.injEq] at hact
            rwa [← hact]
          · simp only [if_neg hfull, Option.some.injEq] at hact
            -- The room that the test has just seen is what the writer needs until it stores.
            rw [tallied_full_iff cap r (s, q) hcap h, ringQueue, List.length_drop] at hfull
            have hroom := h.room
            simp only at hfull hroom
            rw [← hact]
            refine ⟨h.stands, h.le, h.room, ?_, h.reader⟩
            simp only [TallyWriterOk, ringTally]
            omega
      | _ => simp [hpc] at hact
  | pop elem =>
      simp only [ringAct] at hact
      cases hpc : s.reader with
      | idle =>
          rw [hpc] at hact
          by_cases hempty : ringEmpty s.mem r = true
          · simp only [if_pos hempty, Option.some.injEq] at hact
            -- A refused pop leaves the state as it is.
            rwa [← hact]
          · simp only [if_neg hempty, Option.some.injEq] at hact
            rw [tallied_empty_iff cap r (s, q) hcap h, ringQueue, List.drop_eq_nil_iff] at hempty
            simp only [Nat.not_le] at hempty
            rw [← hact]
            refine ⟨h.stands, h.le, h.room, h.writer, ?_⟩
            -- With an address or without one, the reader waits for the same element.
            cases elem with
            | true => exact hempty
            | false => exact hempty
      | _ => simp [hpc] at hact
  | flush =>
      simp only [ringAct] at hact
      cases hpc : s.reader with
      | idle =>
          simp only [hpc, Option.some.injEq] at hact
          rw [← hact]
          -- ring_flush reads wpos, which the tally marks.
          exact ⟨h.stands, h.le, h.room, h.writer, h.le, Nat.le_refl _, h.stands.wpos⟩
      | _ => simp [hpc] at hact

/-- The reader leaves the program point and the record of the writer. -/
theorem readerAct_keeps (r : Nat) (s s' : RingWorld) (act : RingAct) (hby : act.ByReader)
    (hstep : ringAct r s act = some s') : s'.writer = s.writer ∧ s'.pushed = s.pushed := by
  cases act with
  | push elem => exact absurd trivial hby
  | writer => exact absurd trivial hby
  | pop elem =>
      cases hpc : s.reader with
      -- Only the two calls and the reader's own steps are the reader's.
      | idle =>
          by_cases hempty : ringEmpty s.mem r = true
          all_goals
            simp only [ringAct, hpc, hempty, if_true, Bool.false_eq_true, if_false,
              Option.some.injEq] at hstep
            rw [← hstep]
            exact ⟨rfl, rfl⟩
      | _ => simp [ringAct, hpc] at hstep
  | flush =>
      cases hpc : s.reader with
      | idle =>
          simp only [ringAct, hpc, Option.some.injEq] at hstep
          rw [← hstep]
          exact ⟨rfl, rfl⟩
      | _ => simp [ringAct, hpc] at hstep
  | reader =>
      -- The reader's steps touch its own side: neither the writer's point nor what was pushed.
      cases hpc : s.reader with
      | idle => simp [ringAct, hpc] at hstep
      | _ =>
          simp only [ringAct, hpc, Option.some.injEq] at hstep
          rw [← hstep]
          exact ⟨rfl, rfl⟩

/-- The writer leaves those of the reader, and the tally. -/
theorem writerAct_keeps (r : Nat) (s s' : RingWorld) (act : RingAct) (hby : act.ByWriter)
    (hstep : ringAct r s act = some s') :
    s'.reader = s.reader ∧ s'.taken = s.taken ∧ s.pushed.length ≤ s'.pushed.length ∧
      ∀ q, ringTally s q act = q := by
  cases act with
  | push elem =>
      cases hpc : s.writer with
      | idle =>
          -- Both answers of the full test leave the reader alone.
          by_cases hfull : ringFull s.mem r = true
          all_goals
            simp only [ringAct, hpc, hfull, if_true, Bool.false_eq_true, if_false,
              Option.some.injEq] at hstep
            rw [← hstep]
            exact ⟨rfl, rfl, Nat.le_refl _, fun _ => rfl⟩
      | _ => simp [ringAct, hpc] at hstep
  | writer =>
      cases hpc : s.writer with
      -- The writer's steps store the element and the position, both on the writer's side.
      | idle => simp [ringAct, hpc] at hstep
      | copy elem =>
          simp only [ringAct, hpc, Option.some.injEq] at hstep
          rw [← hstep]
          exact ⟨rfl, rfl, Nat.le_refl _, fun _ => rfl⟩
      | store elem =>
          simp only [ringAct, hpc, Option.some.injEq] at hstep
          rw [← hstep]
          -- A push that ends adds to what was pushed, and the tally only counts what is handed
          -- over.
          exact ⟨rfl, rfl, by simp, fun _ => rfl⟩
  | _ => exact absurd hby not_false

theorem readerSteps_keep (r : Nat) (acts : List RingAct) (s t : RingWorld)
    (hby : ∀ a ∈ acts, a.ByReader) (hrun : Machine.steps (ringAct r) s acts = some t) :
    t.writer = s.writer ∧ t.pushed = s.pushed := by
  refine Machine.steps_invariant_along (ringAct r) RingAct.ByReader
    (fun u => u.writer = s.writer ∧ u.pushed = s.pushed) (fun u act u' hu hact hstep => ?_)
    acts s t ⟨rfl, rfl⟩ hby hrun
  rcases readerAct_keeps r u u' act hact hstep with ⟨hwriter, hpushed⟩
  exact ⟨hwriter.trans hu.1, hpushed.trans hu.2⟩

theorem writerSteps_keep (r : Nat) (acts : List RingAct) (s t : RingWorld)
    (hby : ∀ a ∈ acts, a.ByWriter) (hrun : Machine.steps (ringAct r) s acts = some t) :
    t.reader = s.reader ∧ t.taken = s.taken := by
  refine Machine.steps_invariant_along (ringAct r) RingAct.ByWriter
    (fun u => u.reader = s.reader ∧ u.taken = s.taken) (fun u act u' hu hact hstep => ?_)
    acts s t ⟨rfl, rfl⟩ hby hrun
  rcases writerAct_keeps r u u' act hact hstep with ⟨hreader, htaken, _, _⟩
  exact ⟨hreader.trans hu.1, htaken.trans hu.2⟩

/-- Elements that have left do not come back. -/
theorem ringTally_gone_le (cap : UInt32) (r : Nat) (s : RingWorld) (q : RingTally) (act : RingAct)
    (h : RingTallied cap r (s, q)) : q.gone ≤ (ringTally s q act).gone := by
  have hreader := h.reader
  cases act with
  | reader =>
      cases hpc : s.reader with
      | store bytes => simp [ringTally, hpc]
      | flush wpos =>
          simp only [hpc] at hreader
          simp only [ringTally, hpc]
          exact hreader.1
      | _ => simp [ringTally, hpc]
  | _ => exact Nat.le_refl _

/-- Room that the writer has seen is still there after any steps of the
    reader. -/
theorem readerSteps_room (cap : UInt32) (r : Nat) (hcap : cap.toNat + 1 < 2 ^ 32)
    (acts : List RingAct) (s t : RingWorld) (q : RingTally) (h : RingTallied cap r (s, q))
    (hfull : ringFull s.mem r = false) (hby : ∀ a ∈ acts, a.ByReader)
    (hrun : Machine.steps (ringAct r) s acts = some t) : ringFull t.mem r = false := by
  rcases Machine.steps_withGhost (ringAct r) ringTally acts s t q hrun with ⟨q', hwatched⟩
  have hend := Machine.steps_invariant_along (ringWatched r) RingAct.ByReader
    (fun u => RingTallied cap r u ∧ u.1.pushed = s.pushed ∧ q.gone ≤ u.2.gone)
    (fun u act u' hu hact hstep => by
      rcases (Machine.withGhost_eq_some _ _ _ _ act).mp hstep with ⟨hbare, hq⟩
      refine ⟨ringAct_tallied cap r u u' act hcap hu.1 hstep, ?_, ?_⟩
      · exact (readerAct_keeps r u.1 u'.1 act hact hbare).2.trans hu.2.1
      · rw [hq]
        exact Nat.le_trans hu.2.2 (ringTally_gone_le cap r u.1 u.2 act hu.1))
    acts (s, q) (t, q') ⟨h, rfl, Nat.le_refl _⟩ hby hwatched
  rcases hend with ⟨ht, (hpushed : t.pushed = s.pushed), (hgone : q.gone ≤ q'.gone)⟩
  -- Full means as far ahead as the capacity, and the distance only shrinks.
  have hbefore := tallied_full_iff cap r (s, q) hcap h
  have hafter := tallied_full_iff cap r (t, q') hcap ht
  have hroom : s.pushed.length ≤ q.gone + cap.toNat := h.room
  simp only [ringQueue, List.length_drop, hfull, Bool.false_eq_true, false_iff] at hbefore
  simp only [ringQueue, List.length_drop, hpushed] at hafter
  rw [Bool.eq_false_iff, ne_eq, hafter]
  omega

/-- An element that the reader has seen is still there after any steps of the
    writer. -/
theorem writerSteps_element (cap : UInt32) (r : Nat) (hcap : cap.toNat + 1 < 2 ^ 32)
    (acts : List RingAct) (s t : RingWorld) (q : RingTally) (h : RingTallied cap r (s, q))
    (hempty : ringEmpty s.mem r = false) (hby : ∀ a ∈ acts, a.ByWriter)
    (hrun : Machine.steps (ringAct r) s acts = some t) : ringEmpty t.mem r = false := by
  -- The tally runs beside the writer's steps, where it stays as it is.
  rcases Machine.steps_withGhost (ringAct r) ringTally acts s t q hrun with ⟨q', hwatched⟩
  have hend := Machine.steps_invariant_along (ringWatched r) RingAct.ByWriter
    (fun u => RingTallied cap r u ∧ s.pushed.length ≤ u.1.pushed.length ∧ u.2 = q)
    (fun u act u' hu hact hstep => by
      rcases (Machine.withGhost_eq_some _ _ _ _ act).mp hstep with ⟨hbare, hq⟩
      rcases writerAct_keeps r u.1 u'.1 act hact hbare with ⟨_, _, hlen, htally⟩
      exact ⟨ringAct_tallied cap r u u' act hcap hu.1 hstep, Nat.le_trans hu.2.1 hlen,
        by rw [hq, htally, hu.2.2]⟩)
    acts (s, q) (t, q') ⟨h, Nat.le_refl _, rfl⟩ hby hwatched
  -- Nothing is handed over by a writer, so what can be popped can only grow.
  rcases hend with ⟨ht, (hlen : s.pushed.length ≤ t.pushed.length), (hq : q' = q)⟩
  have hbefore := tallied_empty_iff cap r (s, q) hcap h
  have hafter := tallied_empty_iff cap r (t, q') hcap ht
  -- A ring that had an element still has one: pushed is at least what it was.
  simp only [ringQueue, List.drop_eq_nil_iff, hempty, Bool.false_eq_true, false_iff] at hbefore
  simp only [ringQueue, List.drop_eq_nil_iff, hq] at hafter
  rw [Bool.eq_false_iff, ne_eq, hafter]
  omega

/-- A push that finds the ring not full goes through. -/
theorem push_returnsOk (r : Nat) (s : RingWorld) (elem : Mem) (hidle : s.writer = .idle)
    (hfull : ringFull s.mem r = false) : PushReturnsOk r s elem := by
  refine ⟨{ s with writer := .copy elem }, by simp [ringAct, hidle, hfull], ?_⟩
  intro acts t hby hrun
  rcases readerSteps_keep r acts _ t hby hrun with ⟨hcopy, hpushed⟩
  refine ⟨_, by rw [ringAct, hcopy], ?_⟩
  intro acts' t' hby' hrun'
  rcases readerSteps_keep r acts' _ t' hby' hrun' with ⟨hstore, hpushed'⟩
  refine ⟨_, by rw [ringAct, hstore], rfl, ?_⟩
  rw [List.length_append, hpushed', hpushed]
  rfl

/-- A pop that finds the ring not empty goes through. -/
theorem pop_returnsOk (r : Nat) (s : RingWorld) (elem : Bool) (hidle : s.reader = .idle)
    (hempty : ringEmpty s.mem r = false) : PopReturnsOk r s elem := by
  refine ⟨{ s with reader := if elem then .copy else .store none },
    by simp [ringAct, hidle, hempty], ?_⟩
  -- Both kinds of pop end with the store of the position.
  have hlast : ∀ (u : RingWorld) (bytes : Option (List UInt8)), u.reader = .store bytes →
      u.taken = s.taken → Finishes r .reader RingAct.ByWriter
        (fun v => v.reader = .idle ∧ v.taken.length = s.taken.length + 1) 1 u := by
    intro u bytes hstore htaken acts t hby hrun
    rcases writerSteps_keep r acts u t hby hrun with ⟨hreader, htaken'⟩
    refine ⟨_, by rw [ringAct, hreader, hstore], rfl, ?_⟩
    rw [List.length_append, htaken', htaken]
    rfl
  cases elem with
  | false => exact hlast _ none rfl rfl
  | true =>
      intro acts t hby hrun
      rcases writerSteps_keep r acts _ t hby hrun with ⟨hcopy, htaken⟩
      have hreader : t.reader = .copy := hcopy
      refine ⟨_, by rw [ringAct, hreader], ?_⟩
      exact hlast _ (some (ringPopCopy t.mem r)) rfl htaken

/-- What the two sides may rely on. -/
structure RingChecksStable (cap : UInt32) (r : Nat) (s : RingWorld × RingTally) : Prop where
  /-- After `ring_full` has returned false to the writer, the next push goes
      through, whatever the reader has done since. -/
  push_ok : s.1.writer = .idle → ringFull s.1.mem r = false → ∀ acts t,
    (∀ a ∈ acts, a.ByReader) → Machine.steps (ringAct r) s.1 acts = some t →
    ∀ elem, PushReturnsOk r t elem
  /-- After `ring_empty` has returned false to the reader, the next pop goes
      through, whatever the writer has done since. -/
  pop_ok : s.1.reader = .idle → ringEmpty s.1.mem r = false → ∀ acts t,
    (∀ a ∈ acts, a.ByWriter) → Machine.steps (ringAct r) s.1 acts = some t →
    ∀ elem, PopReturnsOk r t elem
  /-- A push made now is over at once, refused, just in case the queue holds
      as many elements as the capacity. -/
  push_refused : ∀ elem t, ringAct r s.1 (.push elem) = some t →
    (t.writer = .idle ↔ (ringQueue s).length = cap.toNat)
  pop_refused : ∀ elem t, ringAct r s.1 (.pop elem) = some t →
    (t.reader = .idle ↔ ringQueue s = [])

theorem tallied_checksStable (cap : UInt32) (r : Nat) (s : RingWorld × RingTally)
    (hcap : cap.toNat + 1 < 2 ^ 32) (h : RingTallied cap r s) : RingChecksStable cap r s := by
  -- Two tests whose answer lasts, and two calls that are refused just when they have to be.
  refine ⟨?_, ?_, ?_, ?_⟩
  · intro hidle hfull acts t hby hrun elem
    -- Room for an element cannot be lost to the reader, which only frees slots.
    refine push_returnsOk r t elem ?_ (readerSteps_room cap r hcap acts s.1 t s.2 h hfull hby hrun)
    exact (readerSteps_keep r acts s.1 t hby hrun).1.trans hidle
  · intro hidle hempty acts t hby hrun elem
    -- An element to pop cannot be lost to the writer, which only adds.
    refine pop_returnsOk r t elem ?_
      (writerSteps_element cap r hcap acts s.1 t s.2 h hempty hby hrun)
    exact (writerSteps_keep r acts s.1 t hby hrun).1.trans hidle
  · intro elem t hstep
    rw [← tallied_full_iff cap r s hcap h]
    -- A push that starts has tested the ring itself, and the test is the tally's.
    cases hpc : s.1.writer with
    | idle =>
        by_cases hfull : ringFull s.1.mem r = true
        all_goals
          simp only [ringAct, hpc, hfull, if_true, Bool.false_eq_true, if_false,
            Option.some.injEq] at hstep
          rw [← hstep]
          simp [hpc, hfull]
    | _ => simp [ringAct, hpc] at hstep
  · intro elem t hstep
    rw [← tallied_empty_iff cap r s hcap h]
    -- A pop that starts has tested as well.
    cases hpc : s.1.reader with
    | idle =>
        by_cases hempty : ringEmpty s.1.mem r = true
        all_goals
          simp only [ringAct, hpc, hempty, if_true, Bool.false_eq_true, if_false,
            Option.some.injEq] at hstep
          rw [← hstep]
          cases elem
          all_goals simp [hpc, hempty]
    | _ => simp [ringAct, hpc] at hstep

theorem ringTallied_start (cap : UInt32) (elemSize : Int32) (r : Nat) (m : Mem) :
    RingTallied cap r (ringThreads (ringSetup m r cap elemSize), ⟨0, 0⟩) :=
  ⟨ringSetup_stands cap elemSize m r, Nat.le_refl _, Nat.zero_le _, trivial, trivial⟩

/-- In every reachable state of a pushing thread and a popping and flushing
    thread, a check that came out in a caller's favour stays so for it, and a
    refusal is right about the queue. -/
theorem ring_checks_stable (cap : UInt32) (elemSize : Int32) (hcap : cap.toNat < 2 ^ 32 - 1)
    (r : Nat) (m : Mem) (acts : List RingAct) (s : RingWorld)
    (hrun : Machine.steps (ringAct r) (ringThreads (ringSetup m r cap elemSize)) acts = some s) :
    ∃ q, Machine.steps (ringWatched r) (ringThreads (ringSetup m r cap elemSize), ⟨0, 0⟩) acts
        = some (s, q) ∧ RingChecksStable cap r (s, q) := by
  rcases Machine.steps_withGhost (ringAct r) ringTally acts _ s ⟨0, 0⟩ hrun with ⟨q, hq⟩
  have hslots : cap.toNat + 1 < 2 ^ 32 := by omega
  have htallied := Machine.steps_invariant_along (ringWatched r) (fun _ => True)
    (RingTallied cap r)
    (fun u act u' hu _ hstep => ringAct_tallied cap r u u' act hslots hu hstep)
    acts _ _ (ringTallied_start cap elemSize r m) (fun _ _ => trivial) hq
  exact ⟨q, hq, tallied_checksStable cap r (s, q) hslots htallied⟩

/-- A ring of one byte with three slots, filled, emptied by one, and filled
    again past the end, while a pop is under way. -/
def turnOfRing : List RingAct :=
  [.push (fun _ => 1), .writer, .writer, .push (fun _ => 2), .writer, .writer, .pop false,
    .push (fun _ => 3), .reader, .push (fun _ => 3), .writer, .writer, .pop true]

/-- The ring ends full with the write position behind the read position, and
    the push made in between has been refused. -/
theorem ring_check_turns :
    ∃ s q, Machine.steps (ringWatched 0) (ringThreads (ringSetup (fun _ => 0) 0 2 1), ⟨0, 0⟩)
        turnOfRing = some (s, q) ∧
      RingChecksStable 2 0 (s, q) ∧ ringQueue (s, q) = [[2], [3]] ∧
      (ringRpos s.mem 0, ringWpos s.mem 0) = (1, 0) := by
  rcases ring_checks_stable 2 1 (by decide) 0 (fun _ => 0) turnOfRing _ rfl with ⟨q, hq, hstable⟩
  have hqueue := hq
  refine ⟨_, q, hq, hstable, ?_, by decide +kernel⟩
  rw [show q = ⟨1, 0⟩ from ?_]
  · decide +kernel
  · exact (congrArg Prod.snd (Option.some.inj hqueue)).symm

end Aircmn
