import Aircmn.Lib.Links

/-!
# Lists and Tail Queues

The macros of `cmn_queue.h`. The four structures keep pointers only, so memory
is a store of pointers, and an assignment is a store of one. The type of the
elements and the field with the links are parameters of a macro; all that
comes of them is `off`, where in an element the field is. The pointer that
leads on is the first of the field and the one that leads back, if there is
one, lies 8 bytes behind it. A head is laid out in the same way, with the
address of the last slot behind the pointer to the first element, and
`TAILQ_LAST` and `TAILQ_PREV` rely on that: they read a field as if it were a
head.

A macro that searches is a loop without a bound. It is given one here, and
answers nothing if that is not enough or if it would follow a null pointer.
The checks and traces that are compiled in for debugging are left out.

The macros that all four structures have alike are written once, and each
structure has them under its own name.

## Main definitions

* `queueEmpty`, `queueFirst`, `queueNext`, `queueForeach`,
  `queueForeachFrom`, `queueForeachSafe`: What the structures have alike.
* `seek`: The loop of the macros that search.
* `slistInit` and on, `stailqInit` and on, `listInit` and on, `tailqInit` and
  on: The macros.
* `QueueOp`, `QueueAns`: What a program does with them.
* `slistStep`, `stailqStep`, `listStep`, `tailqStep`: One use of a macro.
-/

namespace Aircmn

open Links

/-- `EMPTY` of all four structures: the first pointer of the head is null. -/
def queueEmpty (s : Store) (h : Nat) : Bool := s h == 0

/-- `FIRST`: null if there is no element. -/
def queueFirst (s : Store) (h : Nat) : Nat := s h

/-- `NEXT`: null behind the last element. -/
def queueNext (off : Nat) (s : Store) (x : Nat) : Nat := s (x + off)

/-- The elements that a loop over the list meets. -/
def queueForeach (off fuel : Nat) (s : Store) (h : Nat) : Option (List Nat) :=
  walk (queueNext off s) fuel (queueFirst s h)

/-- The same, from an element on unless it is null. -/
def queueForeachFrom (off fuel : Nat) (s : Store) (h x : Nat) : Option (List Nat) :=
  walk (queueNext off s) fuel (if x ≠ 0 then x else queueFirst s h)

/-- A loop that reads the next element before its body runs. -/
def queueForeachSafe (off : Nat) (body : Store → Nat → Store) (fuel : Nat) (s : Store) (h : Nat) :
    Option (Store × List Nat) :=
  walkSafe (queueNext off) body fuel s (queueFirst s h)

/-- `while (NEXT(curelm) != elm) curelm = NEXT(curelm)`. -/
def seek (off : Nat) (s : Store) (elm : Nat) : Nat → Nat → Option Nat
  | 0, _ => none
  | k + 1, curelm =>
    if curelm = 0 then none
    else if s (curelm + off) = elm then some curelm
    else seek off s elm k (s (curelm + off))

/-! ### Singly-linked lists -/

/-- `SLIST_EMPTY`. -/
def slistEmpty : Store → Nat → Bool := queueEmpty

/-- `SLIST_FIRST`. -/
def slistFirst : Store → Nat → Nat := queueFirst

/-- `SLIST_NEXT`. -/
def slistNext : Nat → Store → Nat → Nat := queueNext

/-- `SLIST_FOREACH`. -/
def slistForeach : Nat → Nat → Store → Nat → Option (List Nat) := queueForeach

/-- `SLIST_FOREACH_FROM`. -/
def slistForeachFrom : Nat → Nat → Store → Nat → Nat → Option (List Nat) := queueForeachFrom

/-- `SLIST_FOREACH_SAFE`. -/
def slistForeachSafe :
    Nat → (Store → Nat → Store) → Nat → Store → Nat → Option (Store × List Nat) :=
  queueForeachSafe

/-- `SLIST_INIT`. -/
def slistInit (s : Store) (h : Nat) : Store := s.set h 0

/-- `SLIST_INSERT_AFTER`, which does not need the head. -/
def slistInsertAfter (off : Nat) (s : Store) (slistelm elm : Nat) : Store :=
  let s := s.set (elm + off) (s (slistelm + off))
  s.set (slistelm + off) elm

/-- `SLIST_INSERT_HEAD`. -/
def slistInsertHead (off : Nat) (s : Store) (h elm : Nat) : Store :=
  let s := s.set (elm + off) (s h)
  s.set h elm

/-- `SLIST_REMOVE_AFTER`, of the element behind `elm`. -/
def slistRemoveAfter (off : Nat) (s : Store) (elm : Nat) : Store :=
  s.set (elm + off) (s (s (elm + off) + off))

/-- `SLIST_REMOVE_HEAD`. -/
def slistRemoveHead (off : Nat) (s : Store) (h : Nat) : Store := s.set h (s (s h + off))

/-- `SLIST_REMOVE`: if `elm` is not the first, a search for what is before it. -/
def slistRemove (off fuel : Nat) (s : Store) (h elm : Nat) : Option Store :=
  if s h = elm then some (slistRemoveHead off s h)
  else (seek off s elm fuel (s h)).map (fun curelm => slistRemoveAfter off s curelm)

/-- `SLIST_CONCAT`: a search for the last element of the first list. -/
def slistConcat (off fuel : Nat) (s : Store) (h h' : Nat) : Option Store :=
  let curelm := s h
  if curelm = 0 then
    let s := s.set h (s h')
    some (if s h ≠ 0 then slistInit s h' else s)
  else if s h' ≠ 0 then
    (seek off s 0 fuel curelm).map (fun curelm =>
      let s := s.set (curelm + off) (s h')
      slistInit s h')
  else some s

/-- `SLIST_SWAP`. -/
def slistSwap (s : Store) (h h' : Nat) : Store :=
  let first := s h
  let s := s.set h (s h')
  s.set h' first

/-! ### Singly-linked tail queues -/

/-- `STAILQ_EMPTY`. -/
def stailqEmpty : Store → Nat → Bool := queueEmpty

/-- `STAILQ_FIRST`. -/
def stailqFirst : Store → Nat → Nat := queueFirst

/-- `STAILQ_NEXT`. -/
def stailqNext : Nat → Store → Nat → Nat := queueNext

/-- `STAILQ_FOREACH`. -/
def stailqForeach : Nat → Nat → Store → Nat → Option (List Nat) := queueForeach

/-- `STAILQ_FOREACH_FROM`. -/
def stailqForeachFrom : Nat → Nat → Store → Nat → Nat → Option (List Nat) := queueForeachFrom

/-- `STAILQ_FOREACH_SAFE`. -/
def stailqForeachSafe :
    Nat → (Store → Nat → Store) → Nat → Store → Nat → Option (Store × List Nat) :=
  queueForeachSafe

/-- `STAILQ_INIT`: the last slot is the head itself. -/
def stailqInit (s : Store) (h : Nat) : Store :=
  let s := s.set h 0
  s.set (h + 8) h

/-- `STAILQ_CONCAT`, which knows the last slot and searches for nothing. -/
def stailqConcat (s : Store) (h h' : Nat) : Store :=
  if s h' ≠ 0 then
    let s := s.set (s (h + 8)) (s h')
    let s := s.set (h + 8) (s (h' + 8))
    stailqInit s h'
  else s

/-- `STAILQ_INSERT_AFTER`: behind the last element, the last slot moves on. -/
def stailqInsertAfter (off : Nat) (s : Store) (h tqelm elm : Nat) : Store :=
  let s := s.set (elm + off) (s (tqelm + off))
  let s := if s (elm + off) = 0 then s.set (h + 8) (elm + off) else s
  s.set (tqelm + off) elm

/-- `STAILQ_INSERT_HEAD`: in an empty queue, the last slot moves on. -/
def stailqInsertHead (off : Nat) (s : Store) (h elm : Nat) : Store :=
  let s := s.set (elm + off) (s h)
  let s := if s (elm + off) = 0 then s.set (h + 8) (elm + off) else s
  s.set h elm

/-- `STAILQ_INSERT_TAIL`, at the last slot. -/
def stailqInsertTail (off : Nat) (s : Store) (h elm : Nat) : Store :=
  let s := s.set (elm + off) 0
  let s := s.set (s (h + 8)) elm
  s.set (h + 8) (elm + off)

/-- `STAILQ_LAST`: the element that the last slot is in. -/
def stailqLast (off : Nat) (s : Store) (h : Nat) : Nat :=
  if s h = 0 then 0 else s (h + 8) - off

/-- `STAILQ_REMOVE_AFTER`: if it was the last element, the last slot moves back. -/
def stailqRemoveAfter (off : Nat) (s : Store) (h elm : Nat) : Store :=
  let s := s.set (elm + off) (s (s (elm + off) + off))
  if s (elm + off) = 0 then s.set (h + 8) (elm + off) else s

/-- `STAILQ_REMOVE_HEAD`: an empty queue has the head for its last slot again. -/
def stailqRemoveHead (off : Nat) (s : Store) (h : Nat) : Store :=
  let s := s.set h (s (s h + off))
  if s h = 0 then s.set (h + 8) h else s

/-- `STAILQ_REMOVE`: if `elm` is not the first, a search for what is before it. -/
def stailqRemove (off fuel : Nat) (s : Store) (h elm : Nat) : Option Store :=
  if s h = elm then some (stailqRemoveHead off s h)
  else (seek off s elm fuel (s h)).map (fun curelm => stailqRemoveAfter off s h curelm)

/-- `STAILQ_SWAP`: a queue that is empty now must not keep the other's last slot. -/
def stailqSwap (s : Store) (h h' : Nat) : Store :=
  let first := s h
  let last := s (h + 8)
  let s := s.set h (s h')
  let s := s.set (h + 8) (s (h' + 8))
  let s := s.set h' first
  let s := s.set (h' + 8) last
  let s := if s h = 0 then s.set (h + 8) h else s
  if s h' = 0 then s.set (h' + 8) h' else s

/-! ### Lists -/

/-- `LIST_EMPTY`. -/
def listEmpty : Store → Nat → Bool := queueEmpty

/-- `LIST_FIRST`. -/
def listFirst : Store → Nat → Nat := queueFirst

/-- `LIST_NEXT`. -/
def listNext : Nat → Store → Nat → Nat := queueNext

/-- `LIST_FOREACH`. -/
def listForeach : Nat → Nat → Store → Nat → Option (List Nat) := queueForeach

/-- `LIST_FOREACH_FROM`. -/
def listForeachFrom : Nat → Nat → Store → Nat → Nat → Option (List Nat) := queueForeachFrom

/-- `LIST_FOREACH_SAFE`. -/
def listForeachSafe :
    Nat → (Store → Nat → Store) → Nat → Store → Nat → Option (Store × List Nat) :=
  queueForeachSafe

/-- `LIST_INIT`. -/
def listInit (s : Store) (h : Nat) : Store := s.set h 0

/-- `LIST_INSERT_AFTER`: the element behind gets a new pointer back. -/
def listInsertAfter (off : Nat) (s : Store) (listelm elm : Nat) : Store :=
  let s := s.set (elm + off) (s (listelm + off))
  let s := if s (elm + off) ≠ 0 then s.set (s (listelm + off) + off + 8) (elm + off) else s
  let s := s.set (listelm + off) elm
  s.set (elm + off + 8) (listelm + off)

/-- `LIST_INSERT_BEFORE`, through the pointer back to the slot before. -/
def listInsertBefore (off : Nat) (s : Store) (listelm elm : Nat) : Store :=
  let s := s.set (elm + off + 8) (s (listelm + off + 8))
  let s := s.set (elm + off) listelm
  let s := s.set (s (listelm + off + 8)) elm
  s.set (listelm + off + 8) (elm + off)

/-- `LIST_INSERT_HEAD`. -/
def listInsertHead (off : Nat) (s : Store) (h elm : Nat) : Store :=
  let s := s.set (elm + off) (s h)
  let s := if s (elm + off) ≠ 0 then s.set (s h + off + 8) (elm + off) else s
  let s := s.set h elm
  s.set (elm + off + 8) h

/-- `LIST_PREV`: null for the first element, whose pointer back is to the head. -/
def listPrev (off : Nat) (s : Store) (h elm : Nat) : Nat :=
  if s (elm + off + 8) = h then 0 else s (elm + off + 8) - off

/-- `LIST_REMOVE`, which does not need the head. -/
def listRemove (off : Nat) (s : Store) (elm : Nat) : Store :=
  let s := if s (elm + off) ≠ 0 then s.set (s (elm + off) + off + 8) (s (elm + off + 8)) else s
  s.set (s (elm + off + 8)) (s (elm + off))

/-- `LIST_CONCAT`: a search for the last element of the first list. -/
def listConcat (off fuel : Nat) (s : Store) (h h' : Nat) : Option Store :=
  let curelm := s h
  if curelm = 0 then
    let s := s.set h (s h')
    some (if s h ≠ 0 then
      let s := s.set (s h' + off + 8) h
      listInit s h'
    else s)
  else if s h' ≠ 0 then
    (seek off s 0 fuel curelm).map (fun curelm =>
      let s := s.set (curelm + off) (s h')
      let s := s.set (s h' + off + 8) (curelm + off)
      listInit s h')
  else some s

/-- `LIST_SWAP`: the first elements point back to their new heads. -/
def listSwap (off : Nat) (s : Store) (h h' : Nat) : Store :=
  let tmp := s h
  let s := s.set h (s h')
  let s := s.set h' tmp
  let s := if s h ≠ 0 then s.set (s h + off + 8) h else s
  if s h' ≠ 0 then s.set (s h' + off + 8) h' else s

/-! ### Tail queues -/

/-- `TAILQ_EMPTY`. -/
def tailqEmpty : Store → Nat → Bool := queueEmpty

/-- `TAILQ_FIRST`. -/
def tailqFirst : Store → Nat → Nat := queueFirst

/-- `TAILQ_NEXT`. -/
def tailqNext : Nat → Store → Nat → Nat := queueNext

/-- `TAILQ_FOREACH`. -/
def tailqForeach : Nat → Nat → Store → Nat → Option (List Nat) := queueForeach

/-- `TAILQ_FOREACH_FROM`. -/
def tailqForeachFrom : Nat → Nat → Store → Nat → Nat → Option (List Nat) := queueForeachFrom

/-- `TAILQ_FOREACH_SAFE`. -/
def tailqForeachSafe :
    Nat → (Store → Nat → Store) → Nat → Store → Nat → Option (Store × List Nat) :=
  queueForeachSafe

/-- `TAILQ_INIT`. -/
def tailqInit (s : Store) (h : Nat) : Store :=
  let s := s.set h 0
  s.set (h + 8) h

/-- `TAILQ_CONCAT`. -/
def tailqConcat (off : Nat) (s : Store) (h h' : Nat) : Store :=
  if s h' ≠ 0 then
    let s := s.set (s (h + 8)) (s h')
    let s := s.set (s h' + off + 8) (s (h + 8))
    let s := s.set (h + 8) (s (h' + 8))
    tailqInit s h'
  else s

/-- `TAILQ_INSERT_AFTER`: either the element behind gets a new pointer back or the
    last slot moves on. -/
def tailqInsertAfter (off : Nat) (s : Store) (h listelm elm : Nat) : Store :=
  let s := s.set (elm + off) (s (listelm + off))
  let s :=
    if s (elm + off) ≠ 0 then s.set (s (elm + off) + off + 8) (elm + off)
    else s.set (h + 8) (elm + off)
  let s := s.set (listelm + off) elm
  s.set (elm + off + 8) (listelm + off)

/-- `TAILQ_INSERT_BEFORE`, which leaves the last slot alone. -/
def tailqInsertBefore (off : Nat) (s : Store) (listelm elm : Nat) : Store :=
  let s := s.set (elm + off + 8) (s (listelm + off + 8))
  let s := s.set (elm + off) listelm
  let s := s.set (s (listelm + off + 8)) elm
  s.set (listelm + off + 8) (elm + off)

/-- `TAILQ_INSERT_HEAD`. -/
def tailqInsertHead (off : Nat) (s : Store) (h elm : Nat) : Store :=
  let s := s.set (elm + off) (s h)
  let s :=
    if s (elm + off) ≠ 0 then s.set (s h + off + 8) (elm + off) else s.set (h + 8) (elm + off)
  let s := s.set h elm
  s.set (elm + off + 8) h

/-- `TAILQ_INSERT_TAIL`. -/
def tailqInsertTail (off : Nat) (s : Store) (h elm : Nat) : Store :=
  let s := s.set (elm + off) 0
  let s := s.set (elm + off + 8) (s (h + 8))
  let s := s.set (s (h + 8)) elm
  s.set (h + 8) (elm + off)

/-- What `TAILQ_LAST` and `TAILQ_PREV` read, where `p` is taken for a head. -/
def tailqBehind (s : Store) (p : Nat) : Nat := s (s (p + 8))

/-- `TAILQ_LAST`. -/
def tailqLast (s : Store) (h : Nat) : Nat := tailqBehind s (s (h + 8))

/-- `TAILQ_LAST_FAST`: the element that the last slot is in, from its address. -/
def tailqLastFast (off : Nat) (s : Store) (h : Nat) : Nat :=
  if s h = 0 then 0 else s (h + 8) - off

/-- `TAILQ_PREV`. -/
def tailqPrev (off : Nat) (s : Store) (elm : Nat) : Nat := tailqBehind s (s (elm + off + 8))

/-- `TAILQ_PREV_FAST`, which needs the head to know the first element. -/
def tailqPrevFast (off : Nat) (s : Store) (h elm : Nat) : Nat :=
  if s (elm + off + 8) = h then 0 else s (elm + off + 8) - off

/-- `TAILQ_FOREACH_REVERSE`. -/
def tailqForeachReverse (off fuel : Nat) (s : Store) (h : Nat) : Option (List Nat) :=
  walk (tailqPrev off s) fuel (tailqLast s h)

/-- `TAILQ_FOREACH_REVERSE_FROM`. -/
def tailqForeachReverseFrom (off fuel : Nat) (s : Store) (h x : Nat) : Option (List Nat) :=
  walk (tailqPrev off s) fuel (if x ≠ 0 then x else tailqLast s h)

/-- `TAILQ_FOREACH_REVERSE_SAFE`. -/
def tailqForeachReverseSafe (off : Nat) (body : Store → Nat → Store) (fuel : Nat) (s : Store)
    (h : Nat) : Option (Store × List Nat) :=
  walkSafe (tailqPrev off) body fuel s (tailqLast s h)

/-- `TAILQ_REMOVE`: either the element behind points back past `elm` or the last
    slot moves back. -/
def tailqRemove (off : Nat) (s : Store) (h elm : Nat) : Store :=
  let s :=
    if s (elm + off) ≠ 0 then s.set (s (elm + off) + off + 8) (s (elm + off + 8))
    else s.set (h + 8) (s (elm + off + 8))
  s.set (s (elm + off + 8)) (s (elm + off))

/-- `TAILQ_SWAP`. -/
def tailqSwap (off : Nat) (s : Store) (h h' : Nat) : Store :=
  let first := s h
  let last := s (h + 8)
  let s := s.set h (s h')
  let s := s.set (h + 8) (s (h' + 8))
  let s := s.set h' first
  let s := s.set (h' + 8) last
  let s := if s h ≠ 0 then s.set (s h + off + 8) h else s.set (h + 8) h
  if s h' ≠ 0 then s.set (s h' + off + 8) h' else s.set (h' + 8) h'

/-! ### Programs -/

/-- A use of a macro. A list is named by its head, also where the macro does
    not need it. -/
inductive QueueOp where
  | init (h : Nat)
  | insertHead (h elm : Nat)
  | insertTail (h elm : Nat)
  | insertAfter (h listelm elm : Nat)
  | insertBefore (h listelm elm : Nat)
  | removeHead (h : Nat)
  | removeAfter (h elm : Nat)
  | remove (h elm : Nat)
  | concat (h h' : Nat)
  | swap (h h' : Nat)
  | empty (h : Nat)
  | first (h : Nat)
  | next (h elm : Nat)
  | last (h : Nat)
  | lastFast (h : Nat)
  | prev (h elm : Nat)
  | prevFast (h elm : Nat)
  | foreach (h : Nat)
  | foreachFrom (h x : Nat)
  | foreachReverse (h : Nat)
  | foreachReverseFrom (h x : Nat)
deriving DecidableEq

/-- What a macro evaluates to, or a loop meets. -/
inductive QueueAns where
  | done
  | flag (b : Bool)
  | ptr (p : Nat)
  | seq (xs : List Nat)
  /-- A search or a loop that has not ended, or a macro the structure does not
      have. -/
  | stuck
deriving DecidableEq

/-- What a search leaves. -/
def queueSearch (s : Store) (r : Option Store) : Store × QueueAns :=
  match r with
  | some s' => (s', .done)
  | none => (s, .stuck)

/-- What a loop has met. -/
def queueMet (s : Store) (r : Option (List Nat)) : Store × QueueAns :=
  match r with
  | some xs => (s, .seq xs)
  | none => (s, .stuck)

/-- A macro of `SLIST`; those it does not have are stuck. -/
def slistStep (off fuel : Nat) (s : Store) : QueueOp → Store × QueueAns
  | .init h => (slistInit s h, .done)
  | .insertHead h elm => (slistInsertHead off s h elm, .done)
  | .insertAfter _ slistelm elm => (slistInsertAfter off s slistelm elm, .done)
  | .removeHead h => (slistRemoveHead off s h, .done)
  | .removeAfter _ elm => (slistRemoveAfter off s elm, .done)
  | .remove h elm => queueSearch s (slistRemove off fuel s h elm)
  | .concat h h' => queueSearch s (slistConcat off fuel s h h')
  | .swap h h' => (slistSwap s h h', .done)
  | .empty h => (s, .flag (slistEmpty s h))
  | .first h => (s, .ptr (slistFirst s h))
  | .next _ elm => (s, .ptr (slistNext off s elm))
  | .foreach h => queueMet s (slistForeach off fuel s h)
  | .foreachFrom h x => queueMet s (slistForeachFrom off fuel s h x)
  | _ => (s, .stuck)

/-- A macro of `STAILQ`. -/
def stailqStep (off fuel : Nat) (s : Store) : QueueOp → Store × QueueAns
  | .init h => (stailqInit s h, .done)
  | .insertHead h elm => (stailqInsertHead off s h elm, .done)
  | .insertTail h elm => (stailqInsertTail off s h elm, .done)
  | .insertAfter h tqelm elm => (stailqInsertAfter off s h tqelm elm, .done)
  | .removeHead h => (stailqRemoveHead off s h, .done)
  | .removeAfter h elm => (stailqRemoveAfter off s h elm, .done)
  | .remove h elm => queueSearch s (stailqRemove off fuel s h elm)
  | .concat h h' => (stailqConcat s h h', .done)
  | .swap h h' => (stailqSwap s h h', .done)
  | .empty h => (s, .flag (stailqEmpty s h))
  | .first h => (s, .ptr (stailqFirst s h))
  | .next _ elm => (s, .ptr (stailqNext off s elm))
  | .last h => (s, .ptr (stailqLast off s h))
  | .foreach h => queueMet s (stailqForeach off fuel s h)
  | .foreachFrom h x => queueMet s (stailqForeachFrom off fuel s h x)
  | _ => (s, .stuck)

/-- A macro of `LIST`. -/
def listStep (off fuel : Nat) (s : Store) : QueueOp → Store × QueueAns
  | .init h => (listInit s h, .done)
  | .insertHead h elm => (listInsertHead off s h elm, .done)
  | .insertAfter _ listelm elm => (listInsertAfter off s listelm elm, .done)
  | .insertBefore _ listelm elm => (listInsertBefore off s listelm elm, .done)
  | .remove _ elm => (listRemove off s elm, .done)
  | .concat h h' => queueSearch s (listConcat off fuel s h h')
  | .swap h h' => (listSwap off s h h', .done)
  | .empty h => (s, .flag (listEmpty s h))
  | .first h => (s, .ptr (listFirst s h))
  | .next _ elm => (s, .ptr (listNext off s elm))
  | .prev h elm => (s, .ptr (listPrev off s h elm))
  | .foreach h => queueMet s (listForeach off fuel s h)
  | .foreachFrom h x => queueMet s (listForeachFrom off fuel s h x)
  | _ => (s, .stuck)

/-- A macro of `TAILQ`. -/
def tailqStep (off fuel : Nat) (s : Store) : QueueOp → Store × QueueAns
  | .init h => (tailqInit s h, .done)
  | .insertHead h elm => (tailqInsertHead off s h elm, .done)
  | .insertTail h elm => (tailqInsertTail off s h elm, .done)
  | .insertAfter h listelm elm => (tailqInsertAfter off s h listelm elm, .done)
  | .insertBefore _ listelm elm => (tailqInsertBefore off s listelm elm, .done)
  | .remove h elm => (tailqRemove off s h elm, .done)
  | .concat h h' => (tailqConcat off s h h', .done)
  | .swap h h' => (tailqSwap off s h h', .done)
  | .empty h => (s, .flag (tailqEmpty s h))
  | .first h => (s, .ptr (tailqFirst s h))
  | .next _ elm => (s, .ptr (tailqNext off s elm))
  | .last h => (s, .ptr (tailqLast s h))
  | .lastFast h => (s, .ptr (tailqLastFast off s h))
  | .prev _ elm => (s, .ptr (tailqPrev off s elm))
  | .prevFast h elm => (s, .ptr (tailqPrevFast off s h elm))
  | .foreach h => queueMet s (tailqForeach off fuel s h)
  | .foreachFrom h x => queueMet s (tailqForeachFrom off fuel s h x)
  | .foreachReverse h => queueMet s (tailqForeachReverse off fuel s h)
  | .foreachReverseFrom h x => queueMet s (tailqForeachReverseFrom off fuel s h x)
  | _ => (s, .stuck)

end Aircmn
