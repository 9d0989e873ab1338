import Aircmn.Core.Base
import Mathlib.Logic.Function.Basic

/-!
# Handle of a Shared-Memory Segment

The functions of `cmn_shm.c` on a `struct cmn_shm`. `filename` is an array
inside the structure, so the test for a null file name never succeeds and has
no branch here. The rounding of the size is in `int` and wraps with it.

What the kernel answers is an argument of each function, the calls that are
not made ignoring it. `ftok` and `shmget` answer with a number. The other
calls move the attachments of the process, which `ShmKernel` keeps: `shmat`
adds the address it answers with, `shmdt` takes away the address it is given
if that is attached and the kernel lets it, and fails otherwise. An address
that `shmdt` is given while it is not attached is noted in `strays`.

Segments belong to the system. There is one for a key at most, because
`shm_create` asks for `IPC_EXCL`, and the number of one that has been removed
may come back for another.

## Main definitions

* `CmnShm`: `struct cmn_shm`.
* `shmNull`, `shmFailed`: `NULL` and `(void *) -1`.
* `ShmKernel`, `shmat`, `shmdt`: The attachments of the process.
* `shmCreate`, `shmAttch`, `shmDetach`, `shmRemove`: The operations.
* `ShmWorld`, `ShmAct`, `shmAct`: A handle in use.
* `ShmSegment`, `ShmShare`, `ShmShareAct`, `shmShareAct`: The segments of the
  system, and processes with a handle each.

## Theorems

* `shmCreate_cases`: What `shm_create` leaves.
-/

namespace Aircmn

/-- `struct cmn_shm`. -/
structure CmnShm where
  filename : List UInt8
  addr : UInt64
  sid : Int32
  size : Int32
  key : Int32
deriving DecidableEq

/-- `NULL`. -/
def shmNull : UInt64 := 0

/-- `(void *) -1`, what `shmat` returns when it fails. -/
def shmFailed : UInt64 := -1

/-- The addresses at which the process has the segment attached. -/
structure ShmKernel where
  attached : List UInt64
  strays : List UInt64
deriving DecidableEq

/-- The kernel has answered `shmat` with `ret`. -/
def shmat (k : ShmKernel) (ret : UInt64) : UInt64 × ShmKernel :=
  if ret = shmFailed then (ret, k) else (ret, { k with attached := ret :: k.attached })

/-- `shmdt` on `addr`, which the kernel lets succeed or not. -/
def shmdt (k : ShmKernel) (addr : UInt64) (lets : Bool) : Int32 × ShmKernel :=
  if addr ∈ k.attached then
    if lets then (0, { k with attached := k.attached.erase addr }) else (-1, k)
  else (-1, { k with strays := k.strays ++ [addr] })

/-- `shm_create`, with the answers of `ftok` and `shmget` for the arguments they
    are given. -/
def shmCreate (ftok : List UInt8 → Int32) (shmget : Int32 → Int32 → Int32) (shm : CmnShm) :
    Status × CmnShm :=
  let shm := if shm.key ≤ 0 then { shm with key := ftok shm.filename } else shm
  if shm.key ≤ 0 then (cmnError, shm)
  else
    let allocSize := shm.size + shm.size % 8
    let shm := { shm with size := allocSize }
    let shm := { shm with sid := shmget shm.key allocSize }
    if shm.sid < 0 then (cmnError, shm) else (cmnOk, shm)

/-- A key is looked for unless there is one. Without it nothing else changes,
    and with it the rounded size is stored, and what `shmget` answers. -/
theorem shmCreate_cases (ftok : List UInt8 → Int32) (shmget : Int32 → Int32 → Int32)
    (shm : CmnShm) : ∃ key sid : Int32, (0 < shm.key → key = shm.key) ∧
      (shm.key ≤ 0 → key = ftok shm.filename) ∧ sid = shmget key (shm.size + shm.size % 8) ∧
      shmCreate ftok shmget shm =
        if key ≤ 0 then (cmnError, { shm with key := key })
        else (if sid < 0 then cmnError else cmnOk,
          { shm with key := key, size := shm.size + shm.size % 8, sid := sid }) := by
  -- A key that is not positive is derived from the name; either way one shmget follows.
  by_cases hno : shm.key ≤ 0
  · refine ⟨ftok shm.filename, shmget (ftok shm.filename) (shm.size + shm.size % 8),
      fun h => absurd hno (Int32.not_le.mpr h), fun _ => rfl, rfl, ?_⟩
    simp only [shmCreate, if_pos hno]
    split
    · rfl
    -- Whatever sid is, the size has been rounded before it is asked for.
    · split
      all_goals rfl
  · refine ⟨shm.key, shmget shm.key (shm.size + shm.size % 8), fun _ => rfl,
      fun h => absurd h hno, rfl, ?_⟩
    simp only [shmCreate, if_neg hno]
    split
    all_goals rfl

/-- `shm_attch`, with the address that `shmat` answers. -/
def shmAttch (k : ShmKernel) (shm : CmnShm) (ret : UInt64) : Status × CmnShm × ShmKernel :=
  if shm.sid < 0 ∨ shm.addr ≠ shmNull then (cmnError, shm, k)
  else
    let r := shmat k ret
    let shm := { shm with addr := r.1 }
    (if shm.addr = shmFailed then cmnError else cmnOk, shm, r.2)

/-- `shm_detach`, which keeps the address in any case. -/
def shmDetach (k : ShmKernel) (shm : CmnShm) (lets : Bool) : Status × CmnShm × ShmKernel :=
  if shm.sid ≥ 0 ∧ shm.addr ≠ shmNull then
    let r := shmdt k shm.addr lets
    if r.1 < 0 then (cmnError, shm, r.2) else (cmnOk, shm, r.2)
  else (cmnOk, shm, k)

/-- The detaching part of `shm_remove`. -/
def shmRemoveDetach (k : ShmKernel) (shm : CmnShm) (lets : Bool) : CmnShm × ShmKernel :=
  if shm.addr ≠ shmNull ∧ shm.addr ≠ shmFailed then
    let r := shmdt k shm.addr lets
    if r.1 < 0 then ({ shm with addr := shmNull }, r.2) else (shm, r.2)
  else (shm, k)

/-- `shm_remove`, the last argument being what `shmctl` returns. -/
def shmRemove (k : ShmKernel) (shm : CmnShm) (lets : Bool) (shmctl : Int32) :
    Status × CmnShm × ShmKernel :=
  if shm.sid ≥ 0 then
    let r := shmRemoveDetach k shm lets
    if shmctl = -1 then (cmnError, r) else (cmnOk, r)
  else (cmnOk, shm, k)

/-- A handle and the attachments of the process that uses it. -/
structure ShmWorld where
  shm : CmnShm
  kernel : ShmKernel
deriving DecidableEq

/-- A call on the handle, with what the kernel does. -/
inductive ShmAct where
  | attch (ret : UInt64)
  | detach (lets : Bool)
  | remove (lets : Bool) (shmctl : Int32)
deriving DecidableEq

/-- What `shmat` may answer: failure, or an address that is not in use. -/
def ShmatAnswer (k : ShmKernel) (ret : UInt64) : Prop :=
  ret = shmFailed ∨ (ret ≠ shmNull ∧ ret ∉ k.attached)

instance (k : ShmKernel) (ret : UInt64) : Decidable (ShmatAnswer k ret) :=
  inferInstanceAs (Decidable (_ ∨ _))

/-- One call, unless the kernel cannot do what it is said to do. -/
def shmAct (w : ShmWorld) : ShmAct → Option ShmWorld
  | .attch ret =>
    if ShmatAnswer w.kernel ret then
      let r := shmAttch w.kernel w.shm ret
      some ⟨r.2.1, r.2.2⟩
    else none
  | .detach lets =>
    let r := shmDetach w.kernel w.shm lets
    some ⟨r.2.1, r.2.2⟩
  | .remove lets shmctl =>
    let r := shmRemove w.kernel w.shm lets shmctl
    some ⟨r.2.1, r.2.2⟩

/-- A handle in a process that has nothing attached. -/
def shmWorld (shm : CmnShm) : ShmWorld := ⟨shm, ⟨[], []⟩⟩

section Share

variable {P : Type} [DecidableEq P]

/-- A segment of the system, and the process that has created it. -/
structure ShmSegment (P : Type) where
  sid : Int32
  key : Int32
  creator : P
deriving DecidableEq

/-- Processes with a handle each. A process holds a segment from a `shm_create`
    that has returned `CMN_OK` to a `shm_remove` that has. What has been removed
    is noted with the process that has removed it and the one that had created
    it. -/
structure ShmShare (P : Type) where
  world : P → ShmWorld
  segments : List (ShmSegment P)
  holds : P → Bool
  removed : List (P × P)

/-- A call of one of several processes. -/
inductive ShmShareAct (P : Type) where
  /-- `shm_create`, with what `ftok` and `shmget` answer if they are called. -/
  | create (p : P) (ftok shmget : Int32)
  | use (p : P) (act : ShmAct)
deriving DecidableEq

/-- The answers of `shmget` with `IPC_CREAT` and `IPC_EXCL`. -/
def ShmgetFits (segments : List (ShmSegment P)) (key ret : Int32) : Prop :=
  ret < 0 ∨ ∀ g ∈ segments, g.sid ≠ ret ∧ g.key ≠ key

instance (segments : List (ShmSegment P)) (key ret : Int32) :
    Decidable (ShmgetFits segments key ret) :=
  inferInstanceAs (Decidable (_ ∨ _))

/-- What the system can answer a call that names a segment. -/
def ShmUseFits (segments : List (ShmSegment P)) (sid : Int32) : ShmAct → Prop
  | .attch ret => ret = shmFailed ∨ ∃ g ∈ segments, g.sid = sid
  | .detach _ => True
  | .remove _ shmctl => shmctl = -1 ∨ (shmctl = 0 ∧ ∃ g ∈ segments, g.sid = sid)

instance (segments : List (ShmSegment P)) (sid : Int32) :
    (act : ShmAct) → Decidable (ShmUseFits segments sid act)
  | .attch ret => inferInstanceAs (Decidable (ret = shmFailed ∨ ∃ g ∈ segments, g.sid = sid))
  | .detach _ => inferInstanceAs (Decidable True)
  | .remove _ shmctl =>
    inferInstanceAs (Decidable (shmctl = -1 ∨ (shmctl = 0 ∧ ∃ g ∈ segments, g.sid = sid)))

/-- `shmctl` with `IPC_RMID` has removed what `sid` names. -/
def shmForget (s : ShmShare P) (p : P) (sid : Int32) : ShmShare P :=
  { s with
    segments := s.segments.filter (fun g => g.sid ≠ sid)
    removed := s.removed ++ (s.segments.filter (fun g => g.sid = sid)).map (fun g => (p, g.creator))
    holds := Function.update s.holds p false }

/-- One call of one process, unless the system cannot answer so. -/
def shmShareAct (s : ShmShare P) : ShmShareAct P → Option (ShmShare P)
  | .create p ftok shmget =>
    let r := shmCreate (fun _ => ftok) (fun _ _ => shmget) (s.world p).shm
    if r.2.key ≤ 0 ∨ ShmgetFits s.segments r.2.key shmget then
      some { s with
        world := Function.update s.world p ⟨r.2, (s.world p).kernel⟩
        segments := if r.1 = cmnOk then ⟨r.2.sid, r.2.key, p⟩ :: s.segments else s.segments
        holds := Function.update s.holds p (r.1 = cmnOk) }
    else none
  | .use p act =>
    let sid := (s.world p).shm.sid
    if sid < 0 ∨ ShmUseFits s.segments sid act then
      (shmAct (s.world p) act).map (fun w =>
        let s := { s with world := Function.update s.world p w }
        match act with
        | .remove _ shmctl => if 0 ≤ sid ∧ shmctl = 0 then shmForget s p sid else s
        | _ => s)
    else none

/-- No process holds anything, and there are no segments. -/
def shmShare (shm : P → CmnShm) : ShmShare P :=
  ⟨fun p => shmWorld (shm p), [], fun _ => false, []⟩

end Share

end Aircmn
