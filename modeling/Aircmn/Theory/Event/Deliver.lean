import Aircmn.Core.Event
import Aircmn.Lib.Machine

/-!
# One Callback for Each Event

A wait that is interrupted starts again, and one that `epoll_wait` has answered
with events goes through the array and calls back for each. Between two
callbacks the program runs, and may add descriptors, take them off or close
them. As long as it does not wait itself, the array stays as the kernel has
filled it, so the callbacks of a wait are those of the events that were
reported, each once, in the order of the report, with the pointers of the time
of the report. A descriptor that an earlier callback of the same wait has taken
off is no exception: its callback still comes.

## Main definitions

* `EventAct.Inside`: What a program does in the callbacks of one wait.
* `DeliversUpTo`: How far a wait has got.

## Theorems

* `eventPoll_interrupted`: Interruptions are not answers.
* `eventAct_delivers`: One step inside a wait.
* `event_wait_delivers`: A whole wait.
-/

namespace Aircmn

open Descriptors Machine

/-- Neither a wait nor a return from one. -/
def EventAct.Inside : EventAct → Prop
  | .wait _ _ => False
  | .leave => False
  | _ => True

instance : (act : EventAct) → Decidable act.Inside
  | .wait _ _ => inferInstanceAs (Decidable False)
  | .leave => inferInstanceAs (Decidable False)
  | .addRead _ _ _ => inferInstanceAs (Decidable True)
  | .addWrite _ _ _ => inferInstanceAs (Decidable True)
  | .del _ _ => inferInstanceAs (Decidable True)
  | .next => inferInstanceAs (Decidable True)
  | .closed _ => inferInstanceAs (Decidable True)

/-- What the callback is given for an event. -/
def eventCall (ev : EpollEvent) : Nat × UInt32 := (ev.ptr, eventFlags ev.events)

theorem eventPoll_interrupted (timeout : Int32) (answers : List WaitAnswer) (k : Nat) :
    eventPoll timeout (List.replicate k (.failed eintr) ++ answers)
      = eventPoll timeout answers := by
  induction k with
  | zero => rfl
  | succ k ih =>
      rw [List.replicate_succ, List.cons_append, eventPoll, if_pos rfl]
      exact ih

section Inside

variable (arr : Nat → EpollEvent) (n : Nat) (frames : List EventFrame)
  (calls : List (Nat × UInt32)) (rets : List Status)

/-- A wait for `n` events has called back for the first `i` of them. -/
structure DeliversUpTo (i : Nat) (w : EventWorld) : Prop where
  room : i ≤ n
  event : w.event = arr
  frames : w.frames = ⟨i, n⟩ :: frames
  calls : w.calls = calls ++ (List.range i).map (fun j => eventCall (arr j))
  rets : w.rets = rets

/-- The wait goes on to the next event, or something else happens that it does
    not notice. -/
theorem eventAct_delivers (nevent i : Nat) (w : EventWorld) (act : EventAct) (w' : EventWorld)
    (hw : DeliversUpTo arr n frames calls rets i w) (hact : act.Inside)
    (h : eventAct nevent true w act = some w') :
    ∃ i', DeliversUpTo arr n frames calls rets i' w' := by
  rcases hw with ⟨hroom, hevent, hframes, hcalls, hrets⟩
  -- Only the next round touches the array, the frames or the calls.
  cases act with
  | addRead fd data r =>
      rw [eventAct, Option.ite_none_right_eq_some, Option.some.injEq] at h
      exact ⟨i, h.2 ▸ ⟨hroom, hevent, hframes, hcalls, hrets⟩⟩
  | addWrite fd data r =>
      rw [eventAct, Option.ite_none_right_eq_some, Option.some.injEq] at h
      exact ⟨i, h.2 ▸ ⟨hroom, hevent, hframes, hcalls, hrets⟩⟩
  | del fd r =>
      rw [eventAct, Option.ite_none_right_eq_some, Option.some.injEq] at h
      exact ⟨i, h.2 ▸ ⟨hroom, hevent, hframes, hcalls, hrets⟩⟩
  | closed fd =>
      rw [eventAct, Option.some.injEq] at h
      exact ⟨i, h ▸ ⟨hroom, hevent, hframes, hcalls, hrets⟩⟩
  | wait timeout answers => exact hact.elim
  | leave => exact hact.elim
  | next =>
      rw [eventAct, hframes] at h
      simp only [Option.ite_none_right_eq_some, Option.some.injEq, if_true] at h
      rcases h with ⟨hi, rfl⟩
      refine ⟨i + 1, hi, hevent, rfl, ?_, hrets⟩
      simp only [hcalls, hevent, List.range_succ, List.map_append, List.map_cons, List.map_nil,
        List.append_assoc]
      rfl

end Inside

/-- The events in the array are those that were reported. -/
theorem eventStore_calls (w : EventWorld) (fds : List (Int32 × UInt32)) :
    (List.range fds.length).map (fun j => eventCall (eventStore w fds j))
      = fds.map (fun r => eventCall (reported w.interest r)) := by
  refine List.ext_getElem (by simp) (fun j hj hj' => ?_)
  rw [List.length_map] at hj'
  rw [List.getElem_map, List.getElem_map, List.getElem_range, eventStore, List.getElem?_map,
    List.getElem?_eq_getElem hj']
  rfl

/-- A wait that gets events calls back for each of them once, in their order,
    whatever the callbacks do short of waiting. -/
theorem event_wait_delivers (nevent : Nat) (w w' : EventWorld) (timeout : Int32) (k : Nat)
    (fds : List (Int32 × UInt32)) (rest : List WaitAnswer) (body : List EventAct)
    (hbody : ∀ act ∈ body, act.Inside)
    (h : steps (eventAct nevent true) w
      (.wait timeout (List.replicate k (.failed eintr) ++ .ready fds :: rest) :: (body ++ [.leave]))
        = some w') :
    w'.calls = w.calls ++ fds.map (fun r => eventCall (reported w.interest r))
      ∧ w'.rets = w.rets ++ [(fds.length : Int)] ∧ w'.frames = w.frames := by
  rcases Option.bind_eq_some_iff.mp h with ⟨w₁, hwait, h⟩
  rw [steps_append] at h
  rcases Option.bind_eq_some_iff.mp h with ⟨w₂, hinside, h⟩
  rcases Option.bind_eq_some_iff.mp h with ⟨w₃, hleave, h⟩
  cases h
  -- The kernel has filled the array, and nothing has been called back.
  rw [eventAct, Option.ite_none_right_eq_some, eventPoll_interrupted, eventPoll] at hwait
  cases hwait.2
  have hfirst : DeliversUpTo (eventStore w fds) fds.length w.frames w.calls w.rets 0
      { w with event := eventStore w fds, frames := ⟨0, fds.length⟩ :: w.frames } :=
    ⟨Nat.zero_le _, rfl, rfl, (List.append_nil _).symm, rfl⟩
  rcases steps_invariant_along
    (eventAct nevent true) EventAct.Inside
    (fun v => ∃ i, DeliversUpTo (eventStore w fds) fds.length w.frames w.calls w.rets i v)
    (fun v act v' hv hact hstep =>
      hv.elim (fun i hv => eventAct_delivers _ _ _ _ _ nevent i v act v' hv hact hstep))
    body _ w₂ ⟨0, hfirst⟩ hbody hinside with ⟨i, hroom, hevent, hframes, hcalls, hrets⟩
  -- The wait returns only when it is through.
  rw [eventAct, hframes] at hleave
  simp only [Option.ite_none_left_eq_some, Option.some.injEq] at hleave
  rcases hleave with ⟨hdone, rfl⟩
  have hall : i = fds.length := by omega
  refine ⟨?_, ?_, rfl⟩
  · change w₂.calls = _
    rw [hcalls, hall, eventStore_calls]
  · change w₂.rets ++ _ = _
    rw [hrets]

/-- Descriptor 3 is watched for reading and 4 for writing. -/
def smallWatch : EventWorld :=
  { eventWorld (fun _ => ⟨0, 0⟩) with
    interest := fun fd => if fd = 3 then some ⟨epollin, 30⟩
      else if fd = 4 then some ⟨epollout, 40⟩ else none }

/-- Both descriptors are ready, and the callback for the first takes the second
    off. It is called back for nevertheless. -/
theorem event_wait_delivers_small : ∃ w', steps (eventAct 8 true) smallWatch
      (.wait (-1) (List.replicate 1 (.failed eintr) ++ .ready [(3, epollin), (4, epollout)] :: [])
        :: ([.next, .del 4 ⟨0, 0⟩, .next] ++ [.leave])) = some w'
      ∧ w'.calls = [(30, eventRead), (40, eventWrite)] := by
  have hruns : (steps (eventAct 8 true) smallWatch
      (.wait (-1) (List.replicate 1 (.failed eintr) ++ .ready [(3, epollin), (4, epollout)] :: [])
        :: ([.next, .del 4 ⟨0, 0⟩, .next] ++ [.leave]))).isSome := by decide
  rcases Option.isSome_iff_exists.mp hruns with ⟨w', h⟩
  refine ⟨w', h, ?_⟩
  rw [(event_wait_delivers 8 smallWatch w' (-1) 1 _ [] _ (by decide) h).1]
  decide

end Aircmn
