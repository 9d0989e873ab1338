import Mathlib.Logic.Function.Basic

/-!
# Descriptor Tables

The descriptors a process has open, each with an owner. A call that opens a
descriptor answers with a negative number when it fails and with a number that
is not in use when it succeeds; that is all that is known of the number, so
one that has been closed may come back for another owner. Closing takes a
number out of the table, whoever it belonged to.

## Main definitions

* `Table`: Which numbers are open, and whose they are.
* `Answer`: The answers an opening call may give.
* `opened`, `closed`: The table after an opening call and after a close.

## Theorems

* `opened_self`, `opened_other`, `opened_failed`: What an opening call does.
* `closed_self`, `closed_other`: What a close does.
* `opened_ne`: A descriptor opened for one owner is nobody else's.
* `closed_ne`: Closing gives nobody a descriptor.
* `opened_keeps`, `closed_keeps`: What others do to what is owned.
-/

namespace Descriptors

variable {α : Type}

/-- The owner of every open descriptor. -/
abbrev Table (α : Type) := Int32 → Option α

/-- The answers of an opening call: failure, or a number that is not in use. -/
def Answer (t : Table α) (ret : Int32) : Prop := ret < 0 ∨ t ret = none

instance (t : Table α) (ret : Int32) [DecidableEq α] : Decidable (Answer t ret) :=
  inferInstanceAs (Decidable (_ ∨ _))

/-- The table after a call made for `owner` has answered. -/
def opened (t : Table α) (ret : Int32) (owner : α) : Table α :=
  if ret < 0 then t else Function.update t ret (some owner)

/-- The table after a close. -/
def closed (t : Table α) (fd : Int32) : Table α := Function.update t fd none

theorem opened_failed (t : Table α) (ret : Int32) (owner : α) (h : ret < 0) :
    opened t ret owner = t :=
  if_pos h

theorem opened_self (t : Table α) (ret : Int32) (owner : α) (h : ¬ ret < 0) :
    opened t ret owner ret = some owner := by
  rw [opened, if_neg h, Function.update_self]

theorem opened_other (t : Table α) (ret fd : Int32) (owner : α) (h : fd ≠ ret) :
    opened t ret owner fd = t fd := by
  unfold opened
  split
  · rfl
  · exact Function.update_of_ne h _ _

@[simp]
theorem closed_self (t : Table α) (fd : Int32) : closed t fd fd = none :=
  Function.update_self _ _ _

theorem closed_other (t : Table α) (fd fd' : Int32) (h : fd' ≠ fd) : closed t fd fd' = t fd' :=
  Function.update_of_ne h _ _

theorem opened_ne (t : Table α) (ret fd : Int32) (owner owner' : α) (hne : owner ≠ owner')
    (h : t fd ≠ some owner') : opened t ret owner fd ≠ some owner' := by
  by_cases hfd : fd = ret
  · rw [hfd] at h ⊢
    by_cases hneg : ret < 0
    · rwa [opened_failed t ret owner hneg]
    · rw [opened_self t ret owner hneg]
      exact fun hc => hne (Option.some.inj hc)
  · rwa [opened_other t ret fd owner hfd]

/-- What is owned is not in the way of a free number. -/
theorem opened_keeps (t : Table α) (ret fd : Int32) (owner owner' : α) (hfree : t ret = none)
    (h : t fd = some owner') : opened t ret owner fd = some owner' := by
  have hne : fd ≠ ret := by
    intro hc
    rw [← hc, h] at hfree
    exact Option.some_ne_none _ hfree
  rw [opened_other t ret fd owner hne, h]

/-- Nor is it touched when somebody else closes a descriptor. -/
theorem closed_keeps (t : Table α) (fd fd' : Int32) (owner owner' : α) (hne : owner ≠ owner')
    (hother : t fd' = some owner) (h : t fd = some owner') : closed t fd' fd = some owner' := by
  have hfd : fd ≠ fd' := by
    intro hc
    rw [← hc, h, Option.some.injEq] at hother
    exact hne hother.symm
  rw [closed_other t fd' fd hfd, h]

theorem closed_ne (t : Table α) (fd fd' : Int32) (owner : α) (h : t fd' ≠ some owner) :
    closed t fd fd' ≠ some owner := by
  by_cases hfd : fd' = fd
  · rw [hfd, closed_self]
    exact Option.some_ne_none owner |>.symm
  · rwa [closed_other t fd fd' hfd]

end Descriptors
