import Aircmn.Theory.Queue.Run

/-!
# Loops that Remove

A loop of the safe kind may remove the element it is at. It has read what comes
next before its body runs, so the body may also do with the memory of a removed
element what it likes; the loop does not look at it again. Such a loop meets
every element that there was at the beginning, in order, and leaves those its
body kept.

What carries the proof is the sequence in the middle of the loop: the elements
that have been met and kept, then those to come.

## Main definitions

* `RemovesAt`: A body that keeps some elements and removes the others.
* `smallBody`: One that overwrites what it has removed.

## Theorems

* `body_step`: One round.
* `foreachSafe_run`, `foreachReverseSafe_run`: The loops, in both directions.
* `loops_leave_kept`: The loops in the states that programs reach.
-/

namespace Aircmn

open Links Machine

/-- The body keeps the elements it is told to and removes the others with the
    macro, after which their memory is its own. -/
structure RemovesAt {k : QueueKind} (L : Layout k) (fuel h : Nat) (keep : Nat → Bool)
    (body : Store → Nat → Store) : Prop where
  keeps : ∀ s x, keep x = true → body s x = s
  drops : ∀ s x c, keep x = false → ¬ InEntry k L.off x c →
    body s x c = (macroStep k L.off fuel s (.remove h x)).1 c

section Loops

variable {k : QueueKind} (L : Layout k) (s s' : Store) (q : Queues)

theorem queues_set_set (h : Nat) (xs ys : List Nat) : (q.set h xs).set h ys = q.set h ys :=
  Function.update_idem _ _ _

theorem queues_set_eq (h : Nat) (hsome : (q h).isSome = true) : q.set h (q.elems h) = q := by
  rw [Queues.set, ← some_elems q h hsome]
  exact Function.update_eq_self h q

variable (h fuel : Nat) (keep : Nat → Bool) (body : Store → Nat → Store)
  (hbody : RemovesAt L fuel h keep body)

include hbody

/-- One round of a loop, anywhere in the sequence. -/
theorem body_step (x : Nat) (l r : List Nat) (hold : Holds L s (q.set h (l ++ x :: r)))
    (hfuel : ∀ g, ((q.set h (l ++ x :: r)).elems g).length < fuel) :
    Holds L (body s x) (q.set h (l ++ [x].filter keep ++ r)) := by
  cases hx : keep x with
  | true =>
      rw [hbody.keeps s x hx, List.filter_cons_of_pos hx, List.filter_nil, List.append_assoc]
      exact hold
  | false =>
      have hmem : x ∈ (q.set h (l ++ x :: r)).elems h := by
        rw [elems_set_self]
        exact List.mem_append_right l List.mem_cons_self
      have hl := not_mem_before L _ h x l r hold.apart (elems_set_self q h _)
      have hlegal : QueueLegal L fuel (q.set h (l ++ x :: r)) (.remove h x) :=
        ⟨by cases k <;> rfl, hmem, hfuel⟩
      have hstep := (queue_step k L s _ hold fuel _ hlegal).2.holds
      rw [queueSpec, elems_set_self, erase_split x l r hl, queues_set_set] at hstep
      rw [List.filter_cons_of_neg (by rw [hx]; exact Bool.false_ne_true), List.filter_nil,
        List.append_nil]
      refine holds_congr L _ _ _ hstep (fun g c hg hc => hbody.drops s x c hx (fun hin => ?_))
      -- What the body may write to belonged to the removed element only.
      have hgone : (q.set h (l ++ r)).Free x := by
        intro g' hg'
        by_cases hgh : g' = h
        · rw [hgh, elems_set_self] at hg'
          have hnodup := hold.apart.nodup h
          rw [elems_set_self] at hnodup
          exact (List.nodup_cons.mp (List.nodup_middle.mp hnodup)).1 hg'
        · rw [elems_set_other q h g' _ hgh] at hg'
          exact hgh (hold.apart.once g' h x (by rwa [elems_set_other q h g' _ hgh]) hmem)
      have hxe := hold.apart.elem h x hmem
      rcases hc with hhead | ⟨z, hz, hentry⟩
      · exact head_entry_ne L g x c (head_of_isSome _ g hstep.apart hg) hxe hhead hin
      · have hzx := entry_unique L z x c (hstep.apart.elem g z hz) hxe hentry hin
        exact hgone g (hzx ▸ hz)

omit hbody in
/-- Sequences do not get longer. -/
theorem set_length (xs : List Nat) (hfuel : ∀ g, (q.elems g).length < fuel)
    (hle : xs.length ≤ (q.elems h).length) : ∀ g, ((q.set h xs).elems g).length < fuel := by
  intro g
  by_cases hgh : g = h
  · rw [hgh, elems_set_self]
    exact Nat.lt_of_le_of_lt hle (hfuel h)
  · rw [elems_set_other q h g _ hgh]
    exact hfuel g

/-- A loop that goes on. -/
theorem foreachSafe_run (hold : Holds L s q) (hsome : (q h).isSome = true)
    (hfuel : ∀ g, (q.elems g).length < fuel) :
    ∃ s', queueForeachSafe L.off body fuel s h = some (s', q.elems h) ∧
      Holds L s' (q.set h ((q.elems h).filter keep)) := by
  -- The invariant of the loop: what has been passed is filtered, what is still to come is as it
  -- was.
  have hloop := walkSafe_of_inv (queueNext L.off) body
    (fun rest s => ∃ done, q.elems h = done ++ rest ∧
      Holds L s (q.set h (done.filter keep ++ rest))) ?_ (q.elems h) fuel s (hfuel h)
    ⟨[], rfl, by rwa [List.filter_nil, List.nil_append, queues_set_eq q h hsome]⟩
  · rcases hloop with ⟨s', hwalk, done, hdone, hend⟩
    refine ⟨s', ?_, ?_⟩
    · rw [queueForeachSafe, ask_first L s q hold h hsome]
      exact hwalk
    · rw [hdone, List.append_nil]
      rwa [List.append_nil] at hend
  -- One round: x is the head of what is still to come, and its successor has been read before the
  -- body.
  · intro x rest t ⟨done, hsplit, hinv⟩
    have hx : x ∈ (q.set h (done.filter keep ++ x :: rest)).elems h := by
      rw [elems_set_self]
      exact List.mem_append_right _ List.mem_cons_self
    have hseq := hinv.seqs h (isSome_of_mem _ h x hx)
    rw [elems_set_self] at hseq
    refine ⟨L.elem_ne x (hinv.apart.elem h x hx), ?_, done ++ [x], ?_, ?_⟩
    · exact next_eq L t h _ hseq x (done.filter keep) rest rfl
    · rw [hsplit, List.append_assoc, List.singleton_append]
    -- The body keeps x or unlinks it, which adds x to the filtered part or not.
    · rw [List.filter_append]
      refine body_step L t q h fuel keep body hbody x _ rest hinv (set_length q h fuel _ hfuel ?_)
      rw [hsplit, List.length_append, List.length_append]
      exact Nat.add_le_add_right (List.length_filter_le keep done) _

end Loops

section Reverse

variable (L : Layout .tailq) (s : Store) (q : Queues) (h fuel : Nat) (keep : Nat → Bool)
  (body : Store → Nat → Store)

/-- A loop that goes back. -/
theorem foreachReverseSafe_run (hbody : RemovesAt L fuel h keep body) (hold : Holds L s q)
    (hsome : (q h).isSome = true) (hfuel : ∀ g, (q.elems g).length < fuel) :
    ∃ s', tailqForeachReverseSafe L.off body fuel s h = some (s', (q.elems h).reverse) ∧
      Holds L s' (q.set h ((q.elems h).filter keep)) := by
  -- As forwards, with the part still to come at the front of the queue instead.
  have hloop := walkSafe_of_inv (tailqPrev L.off) body
    (fun rest s => ∃ done, q.elems h = rest.reverse ++ done ∧
      Holds L s (q.set h (rest.reverse ++ done.filter keep))) ?_ (q.elems h).reverse fuel s
    (by rw [List.length_reverse]; exact hfuel h)
    ⟨[], by rw [List.reverse_reverse, List.append_nil],
      by rwa [List.reverse_reverse, List.filter_nil, List.append_nil, queues_set_eq q h hsome]⟩
  · rcases hloop with ⟨s', hwalk, done, hdone, hend⟩
    refine ⟨s', ?_, ?_⟩
    · rw [tailqForeachReverseSafe, last_eq L s h _ rfl (hold.seqs h hsome) rfl]
      exact hwalk
    · rw [hdone]
      exact hend
  -- The predecessor is read before the body, so the body may unlink x here as well.
  · intro x rest t ⟨done, hsplit, hinv⟩
    rw [List.reverse_cons, List.append_assoc, List.singleton_append] at hsplit hinv
    have hx : x ∈ (q.set h (rest.reverse ++ x :: done.filter keep)).elems h := by
      rw [elems_set_self]
      exact List.mem_append_right _ List.mem_cons_self
    have hseq := hinv.seqs h (isSome_of_mem _ h x hx)
    rw [elems_set_self] at hseq
    refine ⟨L.elem_ne x (hinv.apart.elem h x hx), ?_, x :: done, hsplit, ?_⟩
    · rw [prev_eq L t h _ rfl hseq rfl x rest.reverse (done.filter keep) rfl,
        List.reverse_reverse]
      rfl
    -- What the body leaves of x now stands in front of the part already filtered.
    · have hround := body_step L t q h fuel keep body hbody x rest.reverse (done.filter keep) hinv
        (set_length q h fuel _ hfuel ?_)
      · rw [← List.singleton_append, List.filter_append, ← List.append_assoc]
        exact hround
      · rw [hsplit, List.length_append, List.length_append, List.length_cons, List.length_cons]
        exact Nat.add_le_add_left (Nat.succ_le_succ (List.length_filter_le keep done)) _

end Reverse

/-- In any state that a program reaches, a loop of the safe kind meets every
    element in order, or in a tail queue in the opposite order, and leaves the
    elements its body keeps; every other sequence is as it was. -/
theorem loops_leave_kept (k : QueueKind) (L : Layout k) (fuel : Nat) (s : Store)
    (ops : List QueueOp) (h : Nat) (keep : Nat → Bool) (body : Store → Nat → Store)
    (hlegal : Along queueSpec (QueueLegal L fuel) noQueues ops)
    (hloop : QueueLegal L fuel (run queueSpec noQueues ops).1 (.foreach h))
    (hbody : RemovesAt L fuel h keep body) :
    let q := (run queueSpec noQueues ops).1
    let t := (run (macroStep k L.off fuel) s ops).1
    (∃ s', queueForeachSafe L.off body fuel t h = some (s', q.elems h) ∧
      Holds L s' (q.set h ((q.elems h).filter keep))) ∧
    (k = .tailq → ∃ s',
      tailqForeachReverseSafe L.off body fuel t h = some (s', (q.elems h).reverse) ∧
      Holds L s' (q.set h ((q.elems h).filter keep))) := by
  -- After the program the heads hold the queues, and a loop starts from there.
  have hold := (queue_run k L fuel s ops hlegal).2
  rcases hloop with ⟨_, hsome, hfuel⟩
  refine ⟨foreachSafe_run L _ _ h fuel keep body hbody hold hsome hfuel, fun hk => ?_⟩
  subst hk
  exact foreachReverseSafe_run L _ _ h fuel keep body hbody hold hsome hfuel

/-- Keep the first element, remove the other and overwrite its pointers. -/
def smallBody (s : Store) (x : Nat) : Store :=
  if x = 100 then s
  else (((macroStep .tailq 16 4 s (.remove 8 x)).1).set (x + 16) 55).set (x + 24) 66

theorem smallBody_removes : RemovesAt (smallLayout .tailq) 4 8 (fun x => x == 100) smallBody := by
  refine ⟨fun s x hx => if_pos (eq_of_beq hx), fun s x c hx hc => ?_⟩
  have hfirst : c ≠ x + 16 := fun heq => hc (Or.inl heq)
  have hback : c ≠ x + 24 := fun heq => hc (Or.inr ⟨rfl, heq⟩)
  rw [smallBody, if_neg (ne_of_beq_false hx), set_other _ _ _ _ hback, set_other _ _ _ _ hfirst]
  rfl

theorem loops_leave_kept_small :
    let q := (run queueSpec noQueues smallProgram).1
    let t := (run (macroStep .tailq 16 4) (fun a => a) smallProgram).1
    (∃ s', queueForeachSafe 16 smallBody 4 t 8 = some (s', q.elems 8) ∧
      Holds (smallLayout .tailq) s' (q.set 8 ((q.elems 8).filter (fun x => x == 100)))) ∧
    (QueueKind.tailq = .tailq → ∃ s',
      tailqForeachReverseSafe 16 smallBody 4 t 8 = some (s', (q.elems 8).reverse) ∧
      Holds (smallLayout .tailq) s' (q.set 8 ((q.elems 8).filter (fun x => x == 100)))) :=
  loops_leave_kept .tailq (smallLayout .tailq) 4 (fun a => a) smallProgram 8 _ smallBody
    -- Fuel for four elements is more than the small program ever has in a queue.
    smallProgram_legal
    ⟨rfl, rfl, by
      intro h
      simp [smallProgram, run, queueSpec, noQueues, Queues.elems, Queues.set, Function.update_apply]
      split_ifs <;> simp⟩
    smallBody_removes

end Aircmn
