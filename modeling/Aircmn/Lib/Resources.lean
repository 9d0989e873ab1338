import Aircmn.Lib.Descriptors

/-!
# Resources of a Process

What a process obtains and has to give back: descriptors, which belong to
somebody, and blocks of memory. `Owns` is what belongs to one owner. Opening and
allocating add one resource to that, closing and freeing take one away, and
nothing that others open or close makes a difference.

## Main definitions

* `Resource`, `Owns`: What can be owned, and what is.
* `AllocFits`: The answers of an allocation.

## Theorems

* `owns_opened`, `owns_closed`, `owns_alloc`, `owns_freed`: What the owner's
  calls do.
* `owns_otherOpened`, `owns_otherClosed`: What those of others do.
-/

namespace Descriptors

variable {α : Type}

/-- A descriptor or a block of memory. -/
inductive Resource where
  | fd (fd : Int32)
  | block (p : Nat)
deriving DecidableEq

/-- The resource is a descriptor of the owner's, or a block that has been
    allocated. -/
def Owns (t : Table α) (blocks : Nat → Bool) (owner : α) : Resource → Prop
  | .fd fd => t fd = some owner
  | .block p => blocks p = true

/-- What an allocation may answer: null, or a block that is not in use. -/
def AllocFits (blocks : Nat → Bool) : Option Nat → Prop
  | none => True
  | some p => blocks p = false

instance (blocks : Nat → Bool) : (p : Option Nat) → Decidable (AllocFits blocks p)
  | none => inferInstanceAs (Decidable True)
  | some p => inferInstanceAs (Decidable (blocks p = false))

variable (t : Table α) (blocks : Nat → Bool) (owner : α)

theorem owns_opened (ret : Int32) (hret : ¬ ret < 0) (r : Resource) :
    Owns (opened t ret owner) blocks owner r ↔ Owns t blocks owner r ∨ r = .fd ret := by
  cases r with
  | block p => exact (or_iff_left (fun hc => nomatch hc)).symm
  | fd fd =>
      simp only [Owns, Resource.fd.injEq]
      by_cases hfd : fd = ret
      · rw [hfd, opened_self _ _ _ hret]
        simp
      · rw [opened_other _ _ _ _ hfd]
        exact (or_iff_left hfd).symm

theorem owns_closed (fd : Int32) (r : Resource) :
    Owns (closed t fd) blocks owner r ↔ Owns t blocks owner r ∧ r ≠ .fd fd := by
  cases r with
  | block p => exact (and_iff_left (fun hc => nomatch hc)).symm
  | fd fd' =>
      simp only [Owns, ne_eq, Resource.fd.injEq]
      by_cases hfd : fd' = fd
      · rw [hfd, closed_self]
        simp
      · rw [closed_other _ _ _ hfd]
        exact (and_iff_left hfd).symm

theorem owns_alloc (p : Nat) (r : Resource) :
    Owns t (Function.update blocks p true) owner r ↔ Owns t blocks owner r ∨ r = .block p := by
  cases r with
  | fd fd => exact (or_iff_left (fun hc => nomatch hc)).symm
  | block p' =>
      simp only [Owns, Resource.block.injEq]
      by_cases hp : p' = p
      · rw [hp, Function.update_self]
        simp
      · rw [Function.update_of_ne hp]
        exact (or_iff_left hp).symm

theorem owns_freed (p : Nat) (r : Resource) :
    Owns t (Function.update blocks p false) owner r ↔ Owns t blocks owner r ∧ r ≠ .block p := by
  cases r with
  | fd fd => exact (and_iff_left (fun hc => nomatch hc)).symm
  | block p' =>
      simp only [Owns, ne_eq, Resource.block.injEq]
      by_cases hp : p' = p
      · rw [hp, Function.update_self]
        simp
      · rw [Function.update_of_ne hp]
        exact (and_iff_left hp).symm

section Others

variable (other : α) (hne : other ≠ owner)

include hne

theorem owns_otherOpened (fd : Int32) (hfree : t fd = none) (r : Resource) :
    Owns (opened t fd other) blocks owner r ↔ Owns t blocks owner r := by
  cases r with
  | block p => rfl
  | fd fd' =>
      refine ⟨fun hr => ?_, fun hr => opened_keeps _ _ _ _ _ hfree hr⟩
      by_contra hno
      exact opened_ne t fd fd' other owner hne hno hr

theorem owns_otherClosed (fd : Int32) (hother : t fd = some other) (r : Resource) :
    Owns (closed t fd) blocks owner r ↔ Owns t blocks owner r := by
  cases r with
  | block p => rfl
  | fd fd' =>
      refine ⟨fun hr => ?_, fun hr => closed_keeps _ _ _ _ _ hne hother hr⟩
      by_contra hno
      exact closed_ne t fd fd' owner hno hr

end Others

end Descriptors
