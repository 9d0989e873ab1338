import Aircmn.Core.Shm
import Aircmn.Lib.Monitor

/-!
# Who Removes Whose Segment

Processes that each keep a handle create segments for keys and remove them.
`shm_create` asks for a segment that nobody has, so as long as a process holds
one, no other process gets one for the same key, and nobody but the creator is
told its number.

`shm_remove` does not clear `sid`. A second `shm_remove`, or one on a handle
that has never been through `shm_create` and is zero, removes whatever the
number names by then, which may be the segment of another process. Where every
process removes only what it holds, it removes only what it has created: then
the handle of every process that holds a segment names the segment that this
process has created, in every state of every run, and no two processes hold one
for the same key.

## Main definitions

* `OwnRemove`: A process removes what it holds.
* `ShmOneOwner`: Handles name segments of their own.
* `ShmShareInv`: The invariant.

## Theorems

* `shmAct_keeps`: The calls on a handle that do not change its names.
* `shmForget_inv`, `shmShareAct_inv`: The invariant is kept.
* `shm_one_owner`: Every state of every run.
* `shm_one_owner_small`: Two processes and one key.
-/

namespace Aircmn

open Machine

variable {P : Type}

/-- `shm_remove` is called by a process that holds a segment, or whose handle
    names none. -/
def OwnRemove (s : ShmShare P) : ShmShareAct P → Prop
  | .use p (.remove _ _) => s.holds p = true ∨ (s.world p).shm.sid < 0
  | _ => True

instance (s : ShmShare P) : (act : ShmShareAct P) → Decidable (OwnRemove s act)
  | .use p (.remove _ _) => inferInstanceAs (Decidable (s.holds p = true ∨ (s.world p).shm.sid < 0))
  | .use _ (.attch _) => inferInstanceAs (Decidable True)
  | .use _ (.detach _) => inferInstanceAs (Decidable True)
  | .create _ _ _ => inferInstanceAs (Decidable True)

/-- The segment that the handle of a process names. -/
def ShmShare.named (s : ShmShare P) (p : P) : ShmSegment P :=
  ⟨(s.world p).shm.sid, (s.world p).shm.key, p⟩

/-- What a process holds is a segment it has created and that nobody else holds
    one for, and all that has been removed was the remover's own. -/
structure ShmOneOwner (s : ShmShare P) : Prop where
  own : ∀ p, s.holds p = true → s.named p ∈ s.segments
  keys : ∀ p q, s.holds p = true → s.holds q = true →
    (s.world p).shm.key = (s.world q).shm.key → p = q
  removed : ∀ r ∈ s.removed, r.1 = r.2

/-- There is one segment for a number, and one for a key. -/
structure ShmShareInv (s : ShmShare P) : Prop where
  own : ∀ p, s.holds p = true → s.named p ∈ s.segments
  sids : ∀ g ∈ s.segments, ∀ g' ∈ s.segments, g.sid = g'.sid → g = g'
  keys : ∀ g ∈ s.segments, ∀ g' ∈ s.segments, g.key = g'.key → g = g'
  removed : ∀ r ∈ s.removed, r.1 = r.2

theorem shmShareInv_oneOwner (s : ShmShare P) (h : ShmShareInv s) : ShmOneOwner s := by
  refine ⟨h.own, fun p q hp hq hkey => ?_, h.removed⟩
  have hsame := h.keys _ (h.own p hp) _ (h.own q hq) hkey
  exact congrArg ShmSegment.creator hsame

section Calls

variable [DecidableEq P]

/-- Attaching, detaching and removing leave the names in the handle. -/
theorem shmAct_keeps (w w' : ShmWorld) (act : ShmAct) (h : shmAct w act = some w') :
    w'.shm.sid = w.shm.sid ∧ w'.shm.key = w.shm.key := by
  -- No call touches sid or key; what changes is the address and what the kernel has attached.
  cases act with
  | attch ret =>
      rw [shmAct, Option.ite_none_right_eq_some, Option.some.injEq] at h
      rcases h with ⟨_, rfl⟩
      unfold shmAttch
      split <;> exact ⟨rfl, rfl⟩
  | detach lets =>
      cases h
      simp only [shmDetach]
      split
      · split <;> exact ⟨rfl, rfl⟩
      · exact ⟨rfl, rfl⟩
  -- shm_remove detaches first, which changes neither of the two.
  | remove lets shmctl =>
      cases h
      have hdetach : (shmRemoveDetach w.kernel w.shm lets).1.sid = w.shm.sid
          ∧ (shmRemoveDetach w.kernel w.shm lets).1.key = w.shm.key := by
        simp only [shmRemoveDetach]
        split
        · split <;> exact ⟨rfl, rfl⟩
        · exact ⟨rfl, rfl⟩
      simp only [shmRemove]
      split
      · split <;> exact hdetach
      · exact ⟨rfl, rfl⟩

/-- A handle that keeps its names. -/
theorem shmShareInv_use (s : ShmShare P) (p : P) (w : ShmWorld) (h : ShmShareInv s)
    (hsid : w.shm.sid = (s.world p).shm.sid) (hkey : w.shm.key = (s.world p).shm.key) :
    ShmShareInv { s with world := Function.update s.world p w } := by
  have hnamed : ∀ q, ShmShare.named { s with world := Function.update s.world p w } q
      = s.named q := by
    intro q
    simp only [ShmShare.named]
    by_cases hq : q = p
    · rw [hq, Function.update_self, hsid, hkey]
    · rw [Function.update_of_ne hq]
  exact ⟨fun q hq => hnamed q ▸ h.own q hq, h.sids, h.keys, h.removed⟩

/-- A process removes what it holds. -/
theorem shmForget_inv (s : ShmShare P) (p : P) (h : ShmShareInv s) (hp : s.holds p = true) :
    ShmShareInv (shmForget s p (s.world p).shm.sid) := by
  -- Forgetting a segment takes it out of the list; what is left was there before.
  have hmine := h.own p hp
  have hfilter : ∀ g, g ∈ (shmForget s p (s.world p).shm.sid).segments →
      g ∈ s.segments := fun g hg => (List.mem_filter.mp hg).1
  -- Every segment that is left has its own id and its own key, as they all came from the list.
  refine ⟨fun q hq => ?_, fun g hg g' hg' => h.sids g (hfilter g hg) g' (hfilter g' hg'),
    fun g hg g' hg' => h.keys g (hfilter g hg) g' (hfilter g' hg'), fun r hr => ?_⟩
  · have hqp : q ≠ p := by
      rintro rfl
      simp only [shmForget, Function.update_self, Bool.false_eq_true] at hq
    simp only [shmForget, Function.update_of_ne hqp] at hq
    refine List.mem_filter.mpr ⟨h.own q hq, decide_eq_true (fun hsid => hqp ?_)⟩
    exact congrArg ShmSegment.creator (h.sids _ (h.own q hq) _ hmine hsid)
  -- What has been removed was either removed before or is p's own segment now.
  · rcases List.mem_append.mp hr with hr | hr
    · exact h.removed r hr
    · rcases List.mem_map.mp hr with ⟨g, hg, rfl⟩
      rcases List.mem_filter.mp hg with ⟨hg, hsid⟩
      exact (congrArg ShmSegment.creator (h.sids g hg _ hmine (of_decide_eq_true hsid))).symm

/-- A process has got a segment that nobody has. -/
theorem shmCreated_inv (s : ShmShare P) (p : P) (shm : CmnShm) (k : ShmKernel)
    (h : ShmShareInv s) (hfresh : ∀ g ∈ s.segments, g.sid ≠ shm.sid ∧ g.key ≠ shm.key) :
    ShmShareInv { s with
      world := Function.update s.world p ⟨shm, k⟩
      segments := ⟨shm.sid, shm.key, p⟩ :: s.segments
      holds := Function.update s.holds p true } := by
  -- The new segment is p's; the others keep theirs.
  refine ⟨fun q hq => ?_, fun g hg g' hg' hsid => ?_, fun g hg g' hg' hkey => ?_, h.removed⟩
  · by_cases hqp : q = p
    · rw [hqp]
      simp only [ShmShare.named, Function.update_self]
      exact List.mem_cons_self
    · simp only [Function.update_of_ne hqp] at hq
      simp only [ShmShare.named, Function.update_of_ne hqp]
      exact List.mem_cons_of_mem _ (h.own q hq)
  -- The new segment's id is its own: the kernel gave it out, and hfresh says no other has it.
  · rcases List.mem_cons.mp hg with rfl | hg <;> rcases List.mem_cons.mp hg' with rfl | hg'
    · rfl
    · exact absurd hsid.symm (hfresh g' hg').1
    · exact absurd hsid (hfresh g hg).1
    · exact h.sids g hg g' hg' hsid
  -- The same for the keys.
  · rcases List.mem_cons.mp hg with rfl | hg <;> rcases List.mem_cons.mp hg' with rfl | hg'
    · rfl
    · exact absurd hkey.symm (hfresh g' hg').2
    · exact absurd hkey (hfresh g hg).2
    · exact h.keys g hg g' hg' hkey

/-- A process has lost its handle's names to a `shm_create` that has failed. -/
theorem shmNotCreated_inv (s : ShmShare P) (p : P) (w : ShmWorld) (h : ShmShareInv s) :
    ShmShareInv { s with
      world := Function.update s.world p w
      holds := Function.update s.holds p false } := by
  refine ⟨fun q hq => ?_, h.sids, h.keys, h.removed⟩
  have hqp : q ≠ p := by
    rintro rfl
    simp only [Function.update_self, Bool.false_eq_true] at hq
  simp only [Function.update_of_ne hqp] at hq
  simp only [ShmShare.named, Function.update_of_ne hqp]
  exact h.own q hq

/-- A `shm_create` that has succeeded has called `shmget`, which has too. -/
theorem shmCreate_got (ftok shmget : Int32) (shm : CmnShm) (r : Status × CmnShm)
    (hr : shmCreate (fun _ => ftok) (fun _ _ => shmget) shm = r) (hok : r.1 = cmnOk) :
    ¬ r.2.key ≤ 0 ∧ ¬ shmget < 0 ∧ r.2.sid = shmget := by
  -- An error anywhere would make the answer other than CMN_OK.
  have herror : cmnError ≠ cmnOk := by decide
  rcases shmCreate_cases (fun _ => ftok) (fun _ _ => shmget) shm with ⟨key, sid, _, _, hsid, hcases⟩
  rw [hr] at hcases
  rw [hcases] at hok ⊢
  -- A failed ftok or shmget would have been an error.
  split at hok
  · exact absurd hok herror
  · rename_i hkey
    rw [if_neg hkey]
    refine ⟨hkey, fun hneg => ?_, hsid⟩
    rw [hsid, if_pos hneg] at hok
    exact absurd hok herror

theorem shmShareAct_inv (s s' : ShmShare P) (act : ShmShareAct P) (h : ShmShareInv s)
    (hown : OwnRemove s act) (hstep : shmShareAct s act = some s') : ShmShareInv s' := by
  cases act with
  | create p ftok shmget =>
      simp only [shmShareAct, Option.ite_none_right_eq_some, Option.some.injEq] at hstep
      generalize hr : shmCreate (fun _ => ftok) (fun _ _ => shmget) (s.world p).shm = r at hstep
      rcases hstep with ⟨hfits, rfl⟩
      by_cases hok : r.1 = cmnOk
      · rcases shmCreate_got ftok shmget (s.world p).shm r hr hok with ⟨hkey, hret, hsid⟩
        have hfresh := (hfits.resolve_left hkey).resolve_left hret
        rw [← hsid] at hfresh
        -- Nobody has a segment of the number or for the key.
        simp only [hok, if_true, decide_true]
        exact shmCreated_inv s p _ _ h hfresh
      · simp only [hok, if_false, decide_false]
        exact shmNotCreated_inv s p _ h
  | use p act =>
      rw [shmShareAct, Option.ite_none_right_eq_some] at hstep
      rcases hstep with ⟨_, hstep⟩
      rcases Option.map_eq_some_iff.mp hstep with ⟨w, hw, rfl⟩
      rcases shmAct_keeps _ _ _ hw with ⟨hsid, hkey⟩
      have hused := shmShareInv_use s p w h hsid hkey
      cases act with
      | attch ret => exact hused
      | detach lets => exact hused
      | remove lets shmctl =>
          simp only
          split
          · -- A call of `shmctl` on a number that names something.
            rename_i hcalled
            have hp : s.holds p = true := by
              refine hown.resolve_right (fun hneg => ?_)
              exact absurd hcalled.1 (Int32.not_le.mpr hneg)
            have hforget := shmForget_inv { s with world := Function.update s.world p w } p hused hp
            simp only [Function.update_self, hsid] at hforget
            exact hforget
          · exact hused

/-- Where every process removes only what it holds, it removes only what it has
    created, and holds it alone. -/
theorem shm_one_owner (shm : P → CmnShm) (acts : List (ShmShareAct P))
    (hown : AlongSteps shmShareAct OwnRemove (shmShare shm) acts) :
    Throughout shmShareAct ShmOneOwner (shmShare shm) acts := by
  refine throughout_of_along shmShareAct OwnRemove ShmShareInv ShmOneOwner shmShareInv_oneOwner
    (fun s act s' hs hP hstep => shmShareAct_inv s s' act hs hP hstep) acts _ ?_ hown
  refine ⟨fun p hp => ?_, fun g hg => ?_, fun g hg => ?_, fun r hr => ?_⟩
  · exact absurd hp Bool.false_ne_true
  · cases hg
  · cases hg
  · cases hr

end Calls

/-- A process creates a segment and removes it, another creates one for the same
    key, which gets the same number, and the first removes once more. -/
def removesTwice : List (ShmShareAct Bool) :=
  [.create true 0 5, .use true (.remove true 0), .create false 0 5, .use true (.remove true 0)]

/-- Handles for key 7. -/
def keySeven : Bool → CmnShm := fun _ => ⟨[], 0, 0, 64, 7⟩

/-- Up to there each has removed its own. -/
theorem shm_one_owner_small :
    Throughout shmShareAct ShmOneOwner (shmShare keySeven) (removesTwice.take 3) :=
  shm_one_owner keySeven _ (by decide)

end Aircmn
