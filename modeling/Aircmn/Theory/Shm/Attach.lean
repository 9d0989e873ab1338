import Aircmn.Core.Shm
import Aircmn.Lib.Monitor

/-!
# The Attachment of a Handle

`addr` is meant to say whether the process has the segment attached, and
where. Four exits of the operations leave it saying something else: a
`shm_attch` that fails leaves `(void *) -1` in it, a `shm_detach` that succeeds
leaves the address in it, and `shm_remove` clears it only when its `shmdt`
fails, so that the address stays when the segment has gone and goes when the
segment has stayed. A run that takes none of these exits is in step with the
kernel throughout, and a run that takes one is out of step right after it.

Which exit a call takes depends on whether the segment is attached, and that
can be told from the calls and the kernel's answers alone: `shmNext` is the
monitor that does.

## Main definitions

* `ShmTracks`: The handle is in step with the kernel.
* `shmNext`, `ShmPermits`: The monitor and what it permits.
* `ShmFollows`: How the monitor stands to the handle.

## Theorems

* `shmAct_follows`: A permitted call keeps the handle in step.
* `shmAct_astray`: A call that is not permitted does not.
* `shmCreate_ok`: What a successful `shm_create` leaves.
* `shm_tracks_iff`: The runs with the handle in step are the permitted ones.
* `shm_attached_twice`: A run that is in step.
* `shm_stale_addr`: A run that is not.
-/

namespace Aircmn

/-- `addr` is non-null exactly when the process has the segment attached, and
    then it is there, and no `shmdt` has been given anything else. -/
structure ShmTracks (w : ShmWorld) : Prop where
  attached : w.shm.addr ≠ shmNull ↔ w.shm.addr ∈ w.kernel.attached
  only : ∀ a ∈ w.kernel.attached, a = w.shm.addr
  strays : w.kernel.strays = []

/-- Whether the segment is attached after a permitted call. -/
def shmNext (attached : Bool) : ShmAct → Bool
  | .attch _ => true
  | .detach _ => attached
  | .remove _ _ => attached

/-- The calls that keep the handle in step: while the segment is not attached,
    every `shm_attch` must succeed, and while it is, no `shm_detach` may and
    `shm_remove` may not be called. -/
def ShmPermits (attached : Bool) : ShmAct → Prop
  | .attch ret => attached = false → ret ≠ shmFailed
  | .detach lets => attached = true → lets = false
  | .remove _ _ => attached = false

instance (attached : Bool) : (act : ShmAct) → Decidable (ShmPermits attached act)
  | .attch ret => inferInstanceAs (Decidable (attached = false → ret ≠ shmFailed))
  | .detach lets => inferInstanceAs (Decidable (attached = true → lets = false))
  | .remove _ _ => inferInstanceAs (Decidable (attached = false))

/-- The monitor knows whether the segment is attached, and the handle is in
    step. -/
structure ShmFollows (w : ShmWorld) (attached : Bool) : Prop where
  sid : 0 ≤ w.shm.sid
  strays : w.kernel.strays = []
  free : attached = false → w.shm.addr = shmNull ∧ w.kernel.attached = []
  held : attached = true → w.shm.addr ≠ shmNull ∧ w.shm.addr ≠ shmFailed ∧
    w.kernel.attached = [w.shm.addr]

theorem shmFollows_tracks (w : ShmWorld) (attached : Bool) (h : ShmFollows w attached) :
    ShmTracks w := by
  cases attached with
  | false =>
      rcases h.free rfl with ⟨haddr, hnone⟩
      exact ⟨by simp [haddr, hnone], by simp [hnone], h.strays⟩
  | true =>
      rcases h.held rfl with ⟨haddr, _, hone⟩
      exact ⟨by simp [haddr, hone], by simp [hone], h.strays⟩

/-- `shm_attch` of a handle that is not attached stores what `shmat` returns,
    whatever that is. -/
theorem shmAttch_free (w : ShmWorld) (ret : UInt64) (h : ShmFollows w false) :
    (shmAttch w.kernel w.shm ret).2 = ({ w.shm with addr := ret },
      if ret = shmFailed then w.kernel else { w.kernel with attached := [ret] }) := by
  have hsid : ¬ w.shm.sid < 0 := Int32.not_lt.mpr h.sid
  rcases h.free rfl with ⟨haddr, hnone⟩
  by_cases hret : ret = shmFailed
  all_goals simp [shmAttch, shmat, hsid, haddr, hnone, hret]

/-- `shmdt` of the one attached address. -/
theorem shmdt_held (k : ShmKernel) (addr : UInt64) (lets : Bool) (h : k.attached = [addr]) :
    shmdt k addr lets = if lets then (0, { k with attached := [] }) else (-1, k) := by
  simp [shmdt, h]

theorem shmDetach_held (w : ShmWorld) (lets : Bool) (h : ShmFollows w true) :
    shmDetach w.kernel w.shm lets = if lets then (cmnOk, w.shm, { w.kernel with attached := [] })
      else (cmnError, w.shm, w.kernel) := by
  rcases h.held rfl with ⟨haddr, _, hone⟩
  cases lets
  all_goals simp [shmDetach, h.sid, haddr, shmdt_held _ _ _ hone]

/-- Outside a call that reaches `shmdt`, a handle is left as it is. -/
theorem shmDetach_free (w : ShmWorld) (lets : Bool) (h : ShmFollows w false) :
    shmDetach w.kernel w.shm lets = (cmnOk, w.shm, w.kernel) := by
  simp [shmDetach, (h.free rfl).1]

theorem shmRemove_free (w : ShmWorld) (lets : Bool) (shmctl : Int32) (h : ShmFollows w false) :
    (shmRemove w.kernel w.shm lets shmctl).2 = (w.shm, w.kernel) := by
  by_cases hctl : shmctl = -1
  all_goals simp [shmRemove, shmRemoveDetach, h.sid, (h.free rfl).1, hctl]

theorem shmRemove_held (w : ShmWorld) (lets : Bool) (shmctl : Int32) (h : ShmFollows w true) :
    (shmRemove w.kernel w.shm lets shmctl).2 = if lets
      then (w.shm, { w.kernel with attached := [] })
      else ({ w.shm with addr := shmNull }, w.kernel) := by
  rcases h.held rfl with ⟨haddr, hfailed, hone⟩
  cases lets
  all_goals
    by_cases hctl : shmctl = -1
    all_goals simp [shmRemove, shmRemoveDetach, h.sid, haddr, hfailed, shmdt_held _ _ _ hone, hctl]

/-- `shm_attch` of an attached handle is refused. -/
theorem shmAttch_held (w : ShmWorld) (ret : UInt64) (h : ShmFollows w true) :
    shmAttch w.kernel w.shm ret = (cmnError, w.shm, w.kernel) := by
  simp [shmAttch, (h.held rfl).1]

theorem shmAct_follows (w w' : ShmWorld) (attached : Bool) (act : ShmAct)
    (h : ShmFollows w attached) (hok : ShmPermits attached act) (hstep : shmAct w act = some w') :
    ShmFollows w' (shmNext attached act) := by
  cases act with
  | attch ret =>
      by_cases hanswer : ShmatAnswer w.kernel ret
      · simp only [shmAct, if_pos hanswer, Option.some.injEq] at hstep
        cases attached with
        | true =>
            rw [shmAttch_held w ret h] at hstep
            rwa [← hstep]
        | false =>
            -- The address is one that `shmat` has given out.
            have hret : ret ≠ shmFailed := hok rfl
            have hnull : ret ≠ shmNull := (hanswer.resolve_left hret).1
            rw [shmAttch_free w ret h, if_neg hret] at hstep
            rw [← hstep]
            exact ⟨h.sid, h.strays, fun hfree => absurd hfree (Bool.true_eq_false.mp),
              fun _ => ⟨hnull, hret, rfl⟩⟩
      · simp [shmAct, hanswer] at hstep
  | detach lets =>
      simp only [shmAct, Option.some.injEq] at hstep
      cases attached with
      | true =>
          rw [hok rfl, shmDetach_held w false h] at hstep
          rw [← hstep]
          exact h
      | false =>
          rw [shmDetach_free w lets h] at hstep
          rwa [← hstep]
  | remove lets shmctl =>
      have hfree : attached = false := hok
      simp only [shmAct, Option.some.injEq] at hstep
      rw [hfree] at h ⊢
      rw [shmRemove_free w lets shmctl h] at hstep
      rwa [← hstep]

theorem shmAct_astray (w w' : ShmWorld) (attached : Bool) (act : ShmAct)
    (h : ShmFollows w attached) (hno : ¬ ShmPermits attached act)
    (hstep : shmAct w act = some w') : ¬ ShmTracks w' := by
  intro htracks
  cases act with
  | attch ret =>
      simp only [ShmPermits, ne_eq, Classical.not_imp, not_not] at hno
      rw [hno.1] at h
      have hanswer : ShmatAnswer w.kernel ret := Or.inl hno.2
      simp only [shmAct, if_pos hanswer, Option.some.injEq] at hstep
      rw [shmAttch_free w ret h, if_pos hno.2, hno.2] at hstep
      rw [← hstep] at htracks
      -- Nothing is attached, and `addr` is not null.
      have hnull : shmFailed ≠ shmNull := by decide
      have hin := htracks.attached.mp hnull
      simp [(h.free rfl).2] at hin
  | detach lets =>
      simp only [ShmPermits, Classical.not_imp, Bool.not_eq_false] at hno
      rw [hno.1] at h
      simp only [shmAct, Option.some.injEq] at hstep
      rw [hno.2, shmDetach_held w true h] at hstep
      rw [← hstep] at htracks
      have hin := htracks.attached.mp (h.held rfl).1
      simp at hin
  | remove lets shmctl =>
      simp only [ShmPermits, Bool.not_eq_false] at hno
      rw [hno] at h
      simp only [shmAct, Option.some.injEq] at hstep
      rw [shmRemove_held w lets shmctl h] at hstep
      rw [← hstep] at htracks
      cases lets with
      | true =>
          have hin := htracks.attached.mp (h.held rfl).1
          simp at hin
      | false =>
          -- The segment is still attached, where `addr` has been.
          have hin : w.shm.addr ∈ w.kernel.attached := by simp [(h.held rfl).2.2]
          exact (h.held rfl).1 (htracks.only _ hin)

/-- A successful `shm_create` leaves `addr` alone and a segment that is not
    negative. -/
theorem shmCreate_ok (ftok : List UInt8 → Int32) (shmget : Int32 → Int32 → Int32)
    (shm shm' : CmnShm) (h : shmCreate ftok shmget shm = (cmnOk, shm')) :
    shm'.addr = shm.addr ∧ 0 ≤ shm'.sid := by
  rcases shmCreate_cases ftok shmget shm with ⟨key, sid, _, _, _, hcreate⟩
  rw [hcreate] at h
  -- The answer is CMN_OK, so neither exit with an error was taken.
  by_cases hkey : key ≤ 0
  · rw [if_pos hkey, Prod.mk.injEq] at h
    exact absurd h.1 (by decide)
  · rw [if_neg hkey, Prod.mk.injEq] at h
    by_cases hsid : sid < 0
    · rw [if_pos hsid] at h
      exact absurd h.1 (by decide)
    -- The address is as it was, and the id is one that shmget has given out.
    · rw [← h.2]
      exact ⟨rfl, Int32.not_lt.mp hsid⟩

theorem shmWorld_follows (shm : CmnShm) (hnull : shm.addr = shmNull) (hsid : 0 ≤ shm.sid) :
    ShmFollows (shmWorld shm) false :=
  ⟨hsid, rfl, fun _ => ⟨hnull, rfl⟩, fun h => absurd h (Bool.false_ne_true)⟩

/-- After a successful `shm_create` on a handle with a null `addr`, the handle
    is in step with the kernel in every state of a run just in case every call
    of the run is permitted. -/
theorem shm_tracks_iff (ftok : List UInt8 → Int32) (shmget : Int32 → Int32 → Int32)
    (shm shm' : CmnShm) (hnull : shm.addr = shmNull)
    (hcreate : shmCreate ftok shmget shm = (cmnOk, shm')) (acts : List ShmAct) (w : ShmWorld)
    (hrun : Machine.steps shmAct (shmWorld shm') acts = some w) :
    Machine.Throughout shmAct ShmTracks (shmWorld shm') acts ↔
      Machine.Orderly shmNext ShmPermits false acts := by
  rcases shmCreate_ok ftok shmget shm shm' hcreate with ⟨haddr, hsid⟩
  exact Machine.throughout_iff_orderly shmAct shmNext ShmPermits ShmFollows ShmTracks
    shmFollows_tracks (fun u q i u' h hok => shmAct_follows u u' q i h hok)
    (fun u q i u' h hno => shmAct_astray u u' q i h hno) acts _ w false
    (shmWorld_follows shm' (haddr.trans hnull) hsid) hrun

/-- A handle with the key 1 for a segment of 64 bytes. -/
def smallShm : CmnShm := ⟨[], shmNull, 0, 64, 1⟩

/-- A second `shm_attch` is refused, and the kernel does not let go. -/
def attachTwice : List ShmAct :=
  [.remove true 0, .attch 4096, .attch 8192, .detach false, .detach false]

/-- The handle is in step all along. -/
theorem shm_attached_twice :
    ∃ w, Machine.steps shmAct (shmWorld smallShm) attachTwice = some w ∧
      Machine.Throughout shmAct ShmTracks (shmWorld smallShm) attachTwice ∧
      w.shm.addr = 4096 ∧ w.kernel.attached = [4096] :=
  ⟨_, rfl, (shm_tracks_iff (fun _ => 1) (fun _ _ => 0) smallShm smallShm rfl rfl attachTwice _
    rfl).mpr (by decide), rfl, rfl⟩

/-- After an attach and a detach that both succeed, `addr` is left over. The
    next `shm_attch` is refused because of it, and the next `shm_detach` gives
    it to `shmdt`. -/
theorem shm_stale_addr :
    ∃ w, Machine.steps shmAct (shmWorld smallShm) [.attch 4096, .detach true] = some w ∧
      shmCreate (fun _ => 1) (fun _ _ => 0) smallShm = (cmnOk, smallShm) ∧
      w.shm.addr = 4096 ∧ w.kernel.attached = [] ∧
      (shmAttch w.kernel w.shm 8192).1 = cmnError ∧
      (shmDetach w.kernel w.shm true).2.2.strays = [4096] ∧
      ¬ Machine.Throughout shmAct ShmTracks (shmWorld smallShm) [.attch 4096, .detach true] := by
  refine ⟨_, rfl, rfl, rfl, rfl, rfl, rfl, fun hall => ?_⟩
  have htracks := hall _ _ (List.prefix_refl _) rfl
  exact absurd (htracks.attached.mp (by decide)) (by decide)

end Aircmn
