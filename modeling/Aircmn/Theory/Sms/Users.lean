import Aircmn.Theory.Ring.Spsc
import Aircmn.Theory.Sms.Buckets

/-!
# Processes on a Segment

Every ring of a segment has a process that writes to it and one that reads
from it, and every array a process that uses it. They all run at once. A step
of a process is a step on the container of its bucket, at the offset the table
gives for that bucket when the step is taken, since the processes have the
table only in the memory they share.

What holds of a ring alone carries over because the rings do not meet. A step
on a bucket writes to the block of that bucket, so the table and all other
blocks stay as they are, and what it does depends on its own block and on where
its own two processes stand. So a ring of a segment goes through any
interleaving as a ring alone goes through the steps of its own processes.

An array has no threads in its model: a call is one step, and a process makes
only the calls that are fit for its bucket. Whatever else the processes store,
they store it where neither the two structures nor a bucket is.

## Main definitions

* `RingUsers`: Where the two processes of a ring stand, and what they recorded.
* `SmsWorld`, `SmsAct`, `smsAct`: A segment and the steps of its processes.
* `SmsGeom.Besides`: Addresses that are not of the segment.
* `SmsRuns`: The invariant.

## Theorems

* `ringAct_frame`, `ringAct_local`: A step stays in its block and depends on
  it.
* `bucket_kept`: A bucket that a step does not reach.
* `smsAct_runs`, `smsRuns_run`: The invariant.
* `sms_rings_alone`: Every ring runs as if it were alone.
* `sms_three_buckets_run`: Two rings and an array.
-/

namespace Aircmn

open Bytes Circular

/-- A ring without its memory. -/
structure RingUsers where
  writer : RingWriter
  reader : RingReader
  pushed : List (List UInt8)
  taken : List RingTake

/-- The ring, with its memory. -/
def RingUsers.world (u : RingUsers) (m : Mem) : RingWorld :=
  { mem := m, writer := u.writer, reader := u.reader, pushed := u.pushed, taken := u.taken }

/-- The ring, without. -/
def RingWorld.users (s : RingWorld) : RingUsers :=
  { writer := s.writer, reader := s.reader, pushed := s.pushed, taken := s.taken }

/-- Processes about to make their first call. -/
def RingUsers.fresh : RingUsers :=
  { writer := .idle, reader := .idle, pushed := [], taken := [] }

/-- The memory of a segment, and the processes at its rings. -/
structure SmsWorld where
  mem : Mem
  users : Nat → RingUsers

/-- A step of a process of a ring, a call on an array, or a store to memory that
    is none of `sms_bucket.c`. -/
inductive SmsAct where
  | ring (i : Nat) (act : RingAct)
  | array (i : Nat) (op : BucketOp)
  | other (a n : Nat) (bytes : Mem)

/-- The `n` bytes from `a` on are neither of the two structures nor of a
    bucket. -/
def SmsGeom.Besides (g : SmsGeom) (root a n : Nat) : Prop :=
  (a + n ≤ root ∨ root + 896 ≤ a) ∧
    ∀ i, (h : i < g.cfgs.length) →
      a + n ≤ root + g.start i ∨ root + g.start i + g.cfgs[i].span ≤ a

instance (g : SmsGeom) (root a n : Nat) : Decidable (g.Besides root a n) :=
  inferInstanceAs (Decidable (_ ∧ _))

/-- One step of one process, if it can take it. -/
def smsAct (g : SmsGeom) (root : Nat) (w : SmsWorld) : SmsAct → Option SmsWorld
  | .ring i act =>
    if ∃ h : i < g.cfgs.length, g.cfgs[i].type ≠ smsRecordTypeArray then
      (ringAct (root + smsOffset w.mem root i) ((w.users i).world w.mem) act).map
        (fun s => { mem := s.mem, users := Function.update w.users i s.users })
    else none
  | .array i op =>
    if ∃ h : i < g.cfgs.length, g.cfgs[i].type = smsRecordTypeArray ∧
        op.Allowed g.cfgs[i] w.mem (root + smsOffset w.mem root i) then
      some { w with mem := (smsStep root w.mem (i, op)).1 }
    else none
  | .other a n bytes =>
    if g.Besides root a n then some { w with mem := blit w.mem a n bytes } else none

/-- The steps of the processes of ring `j`. -/
def SmsAct.onRing (j : Nat) : SmsAct → Option RingAct
  | .ring i act => if i = j then some act else none
  | .array _ _ => none
  | .other _ _ _ => none

section Ring

variable (g : RingGeom) (r : Nat)

theorem ringPushCopy_block (m : Mem) (R W : Nat) (elem : Mem) (h : RingAt g m r R W) :
    SameOutside r (r + g.bytes) m (ringPushCopy m r elem) := by
  have hin := g.slot_inside W
  rw [ringPushCopy_eq g m r R W elem h]
  exact sameOutside_blit _ _ m _ _ _ (by omega) (by omega)

/-- A step of a process stays in the block. -/
theorem ringAct_frame (s s' : RingWorld) (act : RingAct) (R : Nat) (h : RingInv g r s R)
    (hstep : ringAct r s act = some s') : SameOutside r (r + g.bytes) s.mem s'.mem := by
  -- Three steps store in the ring's block: the copy of a push, its position, and the reader's
  -- position. The rest change what the processes hold.
  cases act with
  | push elem =>
      cases hpc : s.writer with
      | idle =>
          simp only [ringAct, hpc] at hstep
          split at hstep
          · exact Option.some.inj hstep ▸ sameOutside_refl _ _ _
          · exact Option.some.inj hstep ▸ sameOutside_refl _ _ _
      | _ => simp only [ringAct, hpc, reduceCtorEq] at hstep
  | pop elem =>
      cases hpc : s.reader with
      | idle =>
          simp only [ringAct, hpc] at hstep
          split at hstep
          · exact Option.some.inj hstep ▸ sameOutside_refl _ _ _
          · exact Option.some.inj hstep ▸ sameOutside_refl _ _ _
      | _ => simp only [ringAct, hpc, reduceCtorEq] at hstep
  | flush =>
      cases hpc : s.reader with
      | idle =>
          simp only [ringAct, hpc] at hstep
          exact Option.some.inj hstep ▸ sameOutside_refl _ _ _
      | _ => simp only [ringAct, hpc, reduceCtorEq] at hstep
  | writer =>
      -- A push that is under way stays within the slot, which the invariant puts inside the block.
      cases hpc : s.writer with
      | idle => simp only [ringAct, hpc, reduceCtorEq] at hstep
      | copy elem =>
          simp only [ringAct, hpc] at hstep
          exact Option.some.inj hstep ▸ ringPushCopy_block g r s.mem R _ elem h.header
      | store elem =>
          simp only [ringAct, hpc] at hstep
          exact Option.some.inj hstep ▸ ringPushStore_block g s.mem r
  | reader =>
      cases hpc : s.reader with
      | idle => simp only [ringAct, hpc, reduceCtorEq] at hstep
      | copy =>
          simp only [ringAct, hpc] at hstep
          exact Option.some.inj hstep ▸ sameOutside_refl _ _ _
      | store bytes =>
          simp only [ringAct, hpc] at hstep
          exact Option.some.inj hstep ▸ ringSetRpos_block g s.mem r _
      | flush wpos =>
          simp only [ringAct, hpc] at hstep
          exact Option.some.inj hstep ▸ ringSetRpos_block g s.mem r wpos

/-- Memories that agree on the block are alike for a step, and still agree
    after it. -/
theorem ringAct_local (hi : Nat) (u : RingUsers) (m m' : Mem) (s' : RingWorld) (act : RingAct)
    (R : Nat) (h : RingInv g r (u.world m) R) (hsame : SameOn r hi m m') (hhi : r + g.bytes ≤ hi)
    (hstep : ringAct r (u.world m) act = some s') :
    ∃ m'', ringAct r (u.world m') act = some (s'.users.world m'') ∧ SameOn r hi s'.mem m'' := by
  have hhdr : r + ringHdrSize ≤ hi := by
    have hle := g.hdr_le
    omega
  have hr := Nat.le_refl r
  -- Everything a step reads of the header is the same in both memories.
  have hfull := ringFull_local r hi m m' r hsame hr hhdr
  have hempty := ringEmpty_local r hi m m' r hsame hr hhdr
  have hrpos := ringRpos_local r hi m m' r hsame hr hhdr
  have hwpos := ringWpos_local r hi m m' r hsame hr hhdr
  have hcap := ringCap_local r hi m m' r hsame hr hhdr
  have hsize := ringElemSize_local r hi m m' r hsame hr hhdr
  cases act with
  | push elem =>
      cases hpc : u.writer with
      | idle =>
          simp only [ringAct, RingUsers.world, hpc] at hstep ⊢
          rw [hfull]
          split at hstep
          · rename_i hf
            rw [if_pos hf]
            exact ⟨m', Option.some.inj hstep ▸ rfl, Option.some.inj hstep ▸ hsame⟩
          · rename_i hf
            rw [if_neg hf]
            exact ⟨m', Option.some.inj hstep ▸ rfl, Option.some.inj hstep ▸ hsame⟩
      | _ => simp only [ringAct, RingUsers.world, hpc, reduceCtorEq] at hstep
  | pop elem =>
      cases hpc : u.reader with
      | idle =>
          simp only [ringAct, RingUsers.world, hpc] at hstep ⊢
          rw [hempty]
          split at hstep
          · rename_i he
            rw [if_pos he]
            exact ⟨m', Option.some.inj hstep ▸ rfl, Option.some.inj hstep ▸ hsame⟩
          · rename_i he
            rw [if_neg he]
            exact ⟨m', Option.some.inj hstep ▸ rfl, Option.some.inj hstep ▸ hsame⟩
      | _ => simp only [ringAct, RingUsers.world, hpc, reduceCtorEq] at hstep
  | flush =>
      cases hpc : u.reader with
      | idle =>
          simp only [ringAct, RingUsers.world, hpc] at hstep ⊢
          rw [hwpos]
          exact ⟨m', Option.some.inj hstep ▸ rfl, Option.some.inj hstep ▸ hsame⟩
      | _ => simp only [ringAct, RingUsers.world, hpc, reduceCtorEq] at hstep
  | writer =>
      cases hpc : u.writer with
      | idle => simp only [ringAct, RingUsers.world, hpc, reduceCtorEq] at hstep
      | copy elem =>
          simp only [ringAct, RingUsers.world, hpc] at hstep ⊢
          refine ⟨ringPushCopy m' r elem, Option.some.inj hstep ▸ rfl, Option.some.inj hstep ▸ ?_⟩
          rw [ringPushCopy, ringPushCopy, hwpos, ringSlot_local r hi m m' r hsame hr hhdr, hsize]
          exact sameOn_blit r hi m m' _ _ _ hsame
      | store elem =>
          simp only [ringAct, RingUsers.world, hpc] at hstep ⊢
          rw [hsize]
          refine ⟨ringPushStore m' r, Option.some.inj hstep ▸ rfl, Option.some.inj hstep ▸ ?_⟩
          rw [ringPushStore, ringPushStore, hwpos, hcap]
          exact sameOn_blit r hi m m' _ _ _ hsame
  | reader =>
      cases hpc : u.reader with
      | idle => simp only [ringAct, RingUsers.world, hpc, reduceCtorEq] at hstep
      | copy =>
          simp only [ringAct, RingUsers.world, hpc] at hstep ⊢
          -- The slot lies within the bucket, as the position is below the capacity.
          have hbytes : ringPopCopy m' r = ringPopCopy m r := by
            have hin := g.slot_inside R
            have hat : RingAt g m r R _ := h.header
            have hslot := ringSlot_eq g m r R _ (ringRpos m r) hat
              (by rw [hat.rpos]; exact g.mod_lt R)
            rw [ringPopCopy, ringPopCopy, hrpos, ringSlot_local r hi m m' r hsame hr hhdr, hsize,
              hslot, hat.rpos, hat.elemSize, sizeOfInt_of_pos _ g.pos]
            unfold RingGeom.width at *
            exact slice_sameOn r hi m m' _ _ hsame (by omega) (by omega)
          rw [hbytes]
          exact ⟨m', Option.some.inj hstep ▸ rfl, Option.some.inj hstep ▸ hsame⟩
      | store bytes =>
          simp only [ringAct, RingUsers.world, hpc] at hstep ⊢
          exact ⟨ringPopStore m' r, Option.some.inj hstep ▸ rfl,
            Option.some.inj hstep ▸ ringPopStore_local r hi m m' r hsame hr hhdr⟩
      | flush wpos =>
          simp only [ringAct, RingUsers.world, hpc] at hstep ⊢
          exact ⟨ringSetRpos m' r wpos, Option.some.inj hstep ▸ rfl,
            Option.some.inj hstep ▸ sameOn_blit r hi m m' _ _ _ hsame⟩

/-- The invariant of a ring is about its block. -/
theorem ringInv_congr (u : RingUsers) (m m' : Mem) (R : Nat) (h : RingInv g r (u.world m) R)
    (hsame : SameOn r (r + g.bytes) m m') : RingInv g r (u.world m') R := by
  have hhdr := g.hdr_le
  unfold ringHdrSize at hhdr
  refine ⟨ringAt_congr g m m' r R _ h.header (fun off hoff => ?_), h.le, ?_, h.writer, h.reader,
    h.fates⟩
  · exact load32_sameOn _ _ m m' _ hsame (by omega) (by unfold ringHdrSize at hoff; omega)
  · refine carries_congr _ _ _ _ _ h.carries (fun i _ _ => ?_)
    have hin := g.slot_inside i
    exact slice_sameOn _ _ m m' _ _ hsame (by omega) (by omega)

end Ring

section Segment

variable (g : SmsGeom) (hsized : ∀ c ∈ g.cfgs, c.Sized) (root : Nat)

/-- The ring of bucket `i`, if it is one. -/
def SmsGeom.ring (i : Nat) (h : i < g.cfgs.length) : RingGeom :=
  g.cfgs[i].ringGeom (hsized _ (List.getElem_mem h)) (g.fits _ (List.getElem_mem h))

/-- The table is that of the layout, every array has its header, and every ring
    is in a state that its processes can bring it to. -/
structure SmsRuns (w : SmsWorld) : Prop where
  offsets : ∀ i, i < g.cfgs.length → smsOffset w.mem root i = g.start i
  arrays : ∀ i (h : i < g.cfgs.length), g.cfgs[i].type = smsRecordTypeArray →
    BucketHeld g.cfgs[i] (hsized _ (List.getElem_mem h)) (g.fits _ (List.getElem_mem h)) w.mem
      (root + g.start i)
  rings : ∀ i (h : i < g.cfgs.length), g.cfgs[i].type ≠ smsRecordTypeArray →
    ∃ R, RingInv (g.ring hsized i h) (root + g.start i) ((w.users i).world w.mem) R

/-- The block of a ring is in the range of its bucket. -/
theorem ring_bytes_le (i : Nat) (h : i < g.cfgs.length) :
    (g.ring hsized i h).bytes ≤ g.cfgs[i].span := by
  rw [SmsGeom.ring, ringGeom_bytes]
  exact g.cfgs[i].blockBytes_le_span

/-- The ranges of different buckets, as addresses. -/
theorem ranges_apart (i k : Nat) (hi : i < g.cfgs.length) (hk : k < g.cfgs.length) (hik : i ≠ k) :
    root + g.start i + g.cfgs[i].span ≤ root + g.start k ∨
      root + g.start k + g.cfgs[k].span ≤ root + g.start i := by
  have hapart := g.apart i k hi hk hik
  omega

/-- The table is in the two structures. -/
theorem offsets_kept (m m' : Mem) (i : Nat) (hi : i < g.cfgs.length)
    (htables : SameOn root (root + 896) m m') : smsOffset m' root i = smsOffset m root i := by
  have hcount := g.count
  unfold smsMaxBucketNum at hcount
  refine congrArg UInt64.toNat (load64_sameOn _ _ _ _ _ htables ?_ ?_)
  all_goals rw [statBucket_eq]
  all_goals omega

/-- A bucket whose range and whose processes a step leaves alone. -/
theorem bucket_kept (w w' : SmsWorld) (i : Nat) (hi : i < g.cfgs.length)
    (h : SmsRuns g hsized root w) (husers : w'.users i = w.users i)
    (hsame : SameOn (root + g.start i) (root + g.start i + g.cfgs[i].span) w.mem w'.mem) :
    (g.cfgs[i].type = smsRecordTypeArray →
      BucketHeld g.cfgs[i] (hsized _ (List.getElem_mem hi)) (g.fits _ (List.getElem_mem hi)) w'.mem
        (root + g.start i)) ∧
    (g.cfgs[i].type ≠ smsRecordTypeArray →
      ∃ R, RingInv (g.ring hsized i hi) (root + g.start i) ((w'.users i).world w'.mem) R) := by
  -- An array and a ring are told apart by the type in their configuration.
  constructor
  · intro htype
    have hspan := g.cfgs[i].blockBytes_le_span
    unfold BaseConfig.blockBytes at hspan
    exact bucketHeld_congr _ _ _ w.mem _ _ (h.arrays i hi htype)
      (sameOn_mono _ _ _ _ _ _ hsame (Nat.le_refl _) (by omega))
  · intro htype
    have hspan := ring_bytes_le g hsized i hi
    rcases h.rings i hi htype with ⟨R, hR⟩
    rw [husers]
    exact ⟨R, ringInv_congr _ _ _ w.mem _ R hR
      (sameOn_mono _ _ _ _ _ _ hsame (Nat.le_refl _) (by omega))⟩

/-- A change in the range of one bucket, and to its processes. -/
theorem smsRuns_change (w w' : SmsWorld) (k : Nat) (hk : k < g.cfgs.length)
    (h : SmsRuns g hsized root w)
    (hframe : SameOutside (root + g.start k) (root + g.start k + g.cfgs[k].span) w.mem w'.mem)
    (husers : ∀ i, i ≠ k → w'.users i = w.users i)
    (harray : g.cfgs[k].type = smsRecordTypeArray →
      BucketHeld g.cfgs[k] (hsized _ (List.getElem_mem hk)) (g.fits _ (List.getElem_mem hk)) w'.mem
        (root + g.start k))
    (hring : g.cfgs[k].type ≠ smsRecordTypeArray →
      ∃ R, RingInv (g.ring hsized k hk) (root + g.start k) ((w'.users k).world w'.mem) R) :
    SmsRuns g hsized root w' ∧ SameOn root (root + 896) w.mem w'.mem := by
  -- The table and the configurations end at 896, before the first bucket starts.
  have hge := g.start_ge k
  have htables : SameOn root (root + 896) w.mem w'.mem :=
    sameOn_of_sameOutside _ _ _ _ _ _ hframe (Or.inl (by omega))
  -- Spans of two buckets do not overlap, so what changed bucket k changed none of the others.
  have hkept : ∀ i (hi : i < g.cfgs.length), i ≠ k → _ := fun i hi hik =>
    bucket_kept g hsized root w w' i hi h (husers i hik)
      (sameOn_of_sameOutside _ _ _ _ _ _ hframe (ranges_apart g root i k hi hk hik))
  refine ⟨⟨fun i hi => ?_, fun i hi htype => ?_, fun i hi htype => ?_⟩, htables⟩
  · rw [offsets_kept g root w.mem w'.mem i hi htables]
    exact h.offsets i hi
  -- The bucket that was used is settled by the two hypotheses, the others by being left alone.
  · by_cases hik : i = k
    · subst hik
      exact harray htype
    · exact (hkept i hi hik).1 htype
  · by_cases hik : i = k
    · subst hik
      exact hring htype
    · exact (hkept i hi hik).2 htype

/-- A change that reaches neither the two structures nor a bucket. -/
theorem smsRuns_besides (w : SmsWorld) (a n : Nat) (bytes : Mem) (h : SmsRuns g hsized root w)
    (hout : g.Besides root a n) :
    SmsRuns g hsized root { w with mem := blit w.mem a n bytes } ∧
      SameOn root (root + 896) w.mem (blit w.mem a n bytes) := by
  -- The write stays within its n bytes, and Besides keeps those clear of the tables and of every
  -- span.
  have hframe : SameOutside a (a + n) w.mem (blit w.mem a n bytes) :=
    sameOutside_blit _ _ w.mem a n bytes (Nat.le_refl a) (Nat.le_refl _)
  have htables := sameOn_of_sameOutside root (root + 896) a (a + n) _ _ hframe (by
    have hout := hout.1
    omega)
  have hkept : ∀ i (hi : i < g.cfgs.length), _ := fun i hi =>
    bucket_kept g hsized root w { w with mem := blit w.mem a n bytes } i hi h rfl
      (sameOn_of_sameOutside _ _ a (a + n) _ _ hframe (by
        have hout := hout.2 i hi
        omega))
  refine ⟨⟨fun i hi => ?_, fun i hi htype => (hkept i hi).1 htype,
    fun i hi htype => (hkept i hi).2 htype⟩, htables⟩
  rw [offsets_kept g root _ _ i hi htables]
  exact h.offsets i hi

/-- What a step is. -/
theorem smsAct_cases (w w' : SmsWorld) (act : SmsAct) (h : SmsRuns g hsized root w)
    (hstep : smsAct g root w act = some w') :
    (∃ i act', ∃ _ : i < g.cfgs.length, act = .ring i act' ∧
      g.cfgs[i].type ≠ smsRecordTypeArray ∧
      ∃ s, ringAct (root + g.start i) ((w.users i).world w.mem) act' = some s ∧
        w' = { mem := s.mem, users := Function.update w.users i s.users }) ∨
    (∃ i op, ∃ _ : i < g.cfgs.length, act = .array i op ∧
      g.cfgs[i].type = smsRecordTypeArray ∧
      op.Allowed g.cfgs[i] w.mem (root + g.start i) ∧
      w' = { w with mem := (bucketStep (root + g.start i) w.mem op).1 }) ∨
    (∃ a n bytes, act = .other a n bytes ∧ g.Besides root a n ∧
      w' = { w with mem := blit w.mem a n bytes }) := by
  -- Each kind of step carries its own guard; without it the step does not exist.
  cases act with
  | ring i act' =>
      simp only [smsAct] at hstep
      split at hstep
      · rename_i hguard
        rcases hguard with ⟨hi, htype⟩
        -- The offset in the table is the one sms_init gave, so the ring is at its start.
        rw [h.offsets i hi] at hstep
        rcases Option.map_eq_some_iff.mp hstep with ⟨s, hs, hw'⟩
        exact Or.inl ⟨i, act', hi, rfl, htype, s, hs, hw'.symm⟩
      · exact absurd hstep (Option.some_ne_none w').symm
  | array i op =>
      simp only [smsAct] at hstep
      split at hstep
      · rename_i hguard
        rcases hguard with ⟨hi, htype, hop⟩
        rw [h.offsets i hi] at hop
        rw [smsStep, h.offsets i hi] at hstep
        exact Or.inr (Or.inl ⟨i, op, hi, rfl, htype, hop, (Option.some.inj hstep).symm⟩)
      · exact absurd hstep (Option.some_ne_none w').symm
  | other a n bytes =>
      simp only [smsAct] at hstep
      split at hstep
      · rename_i hout
        exact Or.inr (Or.inr ⟨a, n, bytes, rfl, hout, (Option.some.inj hstep).symm⟩)
      · exact absurd hstep (Option.some_ne_none w').symm

/-- A step of a ring stays in the range of its bucket. -/
theorem smsRing_frame (w : SmsWorld) (i : Nat) (hi : i < g.cfgs.length) (act : RingAct)
    (s : RingWorld) (R : Nat)
    (hR : RingInv (g.ring hsized i hi) (root + g.start i) ((w.users i).world w.mem) R)
    (hs : ringAct (root + g.start i) ((w.users i).world w.mem) act = some s) :
    SameOutside (root + g.start i) (root + g.start i + g.cfgs[i].span) w.mem s.mem := by
  have hspan := ring_bytes_le g hsized i hi
  exact sameOutside_mono _ _ _ _ _ _ (ringAct_frame _ _ _ s act R hR hs) (Nat.le_refl _)
    (by omega)

/-- So does a call on an array. -/
theorem smsArray_frame (w : SmsWorld) (i : Nat) (hi : i < g.cfgs.length) (op : BucketOp)
    (h : SmsRuns g hsized root w) (htype : g.cfgs[i].type = smsRecordTypeArray)
    (hop : op.Allowed g.cfgs[i] w.mem (root + g.start i)) :
    SameOutside (root + g.start i) (root + g.start i + g.cfgs[i].span) w.mem
      (bucketStep (root + g.start i) w.mem op).1 := by
  have hspan := g.cfgs[i].blockBytes_le_span
  exact sameOutside_mono _ _ _ _ _ _
    (bucketStep_block _ _ _ w.mem _ op (h.arrays i hi htype) hop).2 (Nat.le_refl _) (by omega)

theorem smsAct_runs (w w' : SmsWorld) (act : SmsAct) (h : SmsRuns g hsized root w)
    (hstep : smsAct g root w act = some w') :
    SmsRuns g hsized root w' ∧ SameOn root (root + 896) w.mem w'.mem := by
  rcases smsAct_cases g hsized root w w' act h hstep with
    ⟨i, act', hi, _, htype, s, hs, hw'⟩ | ⟨i, op, hi, _, htype, hop, hw'⟩ |
    ⟨a, n, bytes, _, hout, hw'⟩
  -- A step of a ring keeps the ring's own invariant.
  · rcases h.rings i hi htype with ⟨R, hR⟩
    have hframe := smsRing_frame g hsized root w i hi act' s R hR hs
    rw [hw']
    refine smsRuns_change g hsized root w _ i hi h hframe
      (fun k hk => Function.update_of_ne hk _ _) (fun hc => absurd hc htype) (fun _ => ?_)
    simp only [Function.update_self]
    exact ringAct_inv _ _ _ s act' R hR hs
  -- A call on an array keeps the array well formed as long as it is one of the allowed ones.
  · have hframe := smsArray_frame g hsized root w i hi op h htype hop
    rw [hw']
    exact smsRuns_change g hsized root w _ i hi h hframe (fun _ _ => rfl)
      (fun _ => (bucketStep_block _ _ _ w.mem _ op (h.arrays i hi htype) hop).1)
      (fun hc => absurd htype hc)
  -- A write from elsewhere touches no bucket.
  · rw [hw']
    exact smsRuns_besides g hsized root w a n bytes h hout

/-- After `sms_init` a ring has its header and is empty. -/
theorem ringAt_start (m : Mem) (h : SmsTable g root m) (i : Nat) (hi : i < g.cfgs.length)
    (htype : g.cfgs[i].type ≠ smsRecordTypeArray) :
    RingAt (g.ring hsized i hi) m (root + g.start i) 0 0 := by
  have hfresh := (h.buckets i hi).fresh
  rw [ContainerFresh, if_neg htype] at hfresh
  rcases hfresh with ⟨hsize, hcap, hrpos, hwpos⟩
  refine ⟨hsize, hcap, ?_, ?_⟩
  · exact (congrArg UInt32.toNat hrpos).trans (Nat.zero_mod _).symm
  · exact (congrArg UInt32.toNat hwpos).trans (Nat.zero_mod _).symm

/-- The segment after `sms_init`, with nobody in a call. -/
theorem smsRuns_start (m : Mem) (h : SmsTable g root m) :
    SmsRuns g hsized root ⟨m, fun _ => RingUsers.fresh⟩ :=
  ⟨fun i hi => (h.buckets i hi).offset,
    fun i hi _ => bucketHeld_fresh _ _ _ m _ (h.buckets i hi).fresh,
    fun i hi htype => ⟨0, ringAt_start g hsized root m h i hi htype, Nat.le_refl _,
      carries_nil _ _ (Nat.succ_pos _), trivial, trivial, [], List.Forall₂.nil, rfl⟩⟩

/-- Any number of steps. -/
theorem smsRuns_run (start : Mem) (acts : List SmsAct) (w : SmsWorld) (h : SmsTable g root start)
    (hrun : Machine.steps (smsAct g root) ⟨start, fun _ => RingUsers.fresh⟩ acts = some w) :
    SmsRuns g hsized root w ∧ SameOn root (root + 896) start w.mem :=
  Machine.steps_invariant_along (smsAct g root) (fun _ => True)
    (fun w => SmsRuns g hsized root w ∧ SameOn root (root + 896) start w.mem)
    (fun u act u' hu _ hstep => by
      rcases smsAct_runs g hsized root u u' act hu.1 hstep with ⟨hu', htables⟩
      exact ⟨hu', sameOn_trans _ _ _ _ _ hu.2 htables⟩)
    acts _ w ⟨smsRuns_start g hsized root start h, sameOn_refl _ _ start⟩ (fun _ _ => trivial) hrun

variable (j : Nat) (hj : j < g.cfgs.length)

/-- A ring of the segment and a ring alone have got to the same place. -/
def RingTracks (w : SmsWorld) (s : RingWorld) : Prop :=
  ∃ m, s = (w.users j).world m ∧
    SameOn (root + g.start j) (root + g.start j + g.cfgs[j].span) w.mem m

/-- A step of the ring itself. -/
theorem ringTracks_mine (w w' : SmsWorld) (s : RingWorld) (act : SmsAct) (act' : RingAct)
    (htype : g.cfgs[j].type ≠ smsRecordTypeArray) (hmine : act.onRing j = some act')
    (h : SmsRuns g hsized root w) (hs : RingTracks g root j hj w s)
    (hstep : smsAct g root w act = some w') :
    ∃ s', ringAct (root + g.start j) s act' = some s' ∧ RingTracks g root j hj w' s' := by
  rcases hs with ⟨m, hs, hsame⟩
  have hspan := ring_bytes_le g hsized j hj
  rcases smsAct_cases g hsized root w w' act h hstep with
    ⟨i, act₁, hi, hact, _, s₁, hs₁, hw'⟩ | ⟨i, op, hi, hact, _, _, _⟩ | ⟨a, n, bytes, hact, _, _⟩
  -- The step is one of ring j: run it on the ring's own block, where the two memories agree.
  · rw [hact, SmsAct.onRing] at hmine
    split at hmine
    · rename_i hij
      subst hij
      rw [Option.some.injEq] at hmine
      subst hmine
      rcases h.rings i hi htype with ⟨R, hR⟩
      rcases ringAct_local _ _ _ (w.users i) w.mem m s₁ act₁ R hR hsame (by omega) hs₁ with
        ⟨m', hm', hsame'⟩
      refine ⟨s₁.users.world m', by rw [hs, hm'], m', ?_, ?_⟩
      · rw [hw']
        simp only [Function.update_self]
      · rw [hw']
        exact hsame'
    · exact absurd hmine (Option.some_ne_none act').symm
  -- No call on an array and no foreign write counts as a step of a ring.
  · rw [hact] at hmine
    exact absurd hmine (Option.some_ne_none act').symm
  · rw [hact] at hmine
    exact absurd hmine (Option.some_ne_none act').symm

/-- A step of anything else. -/
theorem ringTracks_other (w w' : SmsWorld) (s : RingWorld) (act : SmsAct)
    (htype : g.cfgs[j].type ≠ smsRecordTypeArray) (hother : act.onRing j = none)
    (h : SmsRuns g hsized root w) (hs : RingTracks g root j hj w s)
    (hstep : smsAct g root w act = some w') : RingTracks g root j hj w' s := by
  rcases hs with ⟨m, hs, hsame⟩
  -- Whatever is stored apart from the bucket, the ring alone still has its bytes.
  have hkept : ∀ lo hi (m' : Mem), SameOutside lo hi w.mem m' →
      (root + g.start j + g.cfgs[j].span ≤ lo ∨ hi ≤ root + g.start j) →
      SameOn (root + g.start j) (root + g.start j + g.cfgs[j].span) m' m :=
    fun lo hi m' hframe hapart => sameOn_trans _ _ _ w.mem _
      (sameOn_symm _ _ _ _ (sameOn_of_sameOutside _ _ lo hi _ _ hframe hapart)) hsame
  rcases smsAct_cases g hsized root w w' act h hstep with
    ⟨i, act₁, hi, hact, hring, s₁, hs₁, hw'⟩ | ⟨i, op, hi, hact, harr, hop, hw'⟩ |
    ⟨a, n, bytes, hact, hout, hw'⟩
  · have hji : j ≠ i := by
      intro hji
      rw [hact, SmsAct.onRing, if_pos hji.symm] at hother
      exact Option.some_ne_none act₁ hother
    rcases h.rings i hi hring with ⟨R, hR⟩
    refine ⟨m, ?_, ?_⟩
    · rw [hw', hs]
      simp only [Function.update_of_ne hji]
    · rw [hw']
      exact hkept _ _ s₁.mem (smsRing_frame g hsized root w i hi act₁ s₁ R hR hs₁)
        (ranges_apart g root j i hj hi hji)
  · have hji : j ≠ i := by
      intro hji
      subst hji
      exact htype harr
    refine ⟨m, by rw [hw', hs], ?_⟩
    rw [hw']
    exact hkept _ _ _ (smsArray_frame g hsized root w i hi op h harr hop)
      (ranges_apart g root j i hj hi hji)
  · refine ⟨m, by rw [hw', hs], ?_⟩
    rw [hw']
    exact hkept a (a + n) _ (sameOutside_blit _ _ w.mem a n bytes (Nat.le_refl a) (Nat.le_refl _))
      (by
        have hbucket := hout.2 j hj
        omega)

end Segment

/-- In every interleaving of the processes of a segment just initialised, and of
    stores to other memory, each ring was empty at first and has gone through
    the steps of its own two processes as a ring alone does from the same
    memory. Its processes stand where they then stand and have recorded the
    same, its range holds the same bytes, and it is safe for them; the two
    structures are as they were. -/
theorem sms_rings_alone (g : SmsGeom) (hsized : ∀ c ∈ g.cfgs, c.Sized) (root : Nat) (m₀ : Mem)
    (pid : Int32) (date : UInt64) (start : Mem) (acts : List SmsAct) (w : SmsWorld)
    (hstart : smsInit m₀ root (some g.cfgs) g.cfgCount pid date = (cmnOk, start))
    (hrun : Machine.steps (smsAct g root) ⟨start, fun _ => RingUsers.fresh⟩ acts = some w) :
    SameOn root (root + (baseDataOffset start root).toNat) start w.mem ∧
    ∀ j (hj : j < g.cfgs.length), g.cfgs[j].type ≠ smsRecordTypeArray →
      RingAt (g.ring hsized j hj) start (root + smsOffset start root j) 0 0 ∧
      ∃ s, Machine.steps (ringAct (root + smsOffset start root j)) (ringThreads start)
          (acts.filterMap (SmsAct.onRing j)) = some s ∧
        s.users = w.users j ∧
        SameOn (root + smsOffset start root j)
          (root + smsOffset start root j + smsSize start root j) w.mem s.mem ∧
        QueueSafe (g.ring hsized j hj) (root + smsOffset start root j)
          ((w.users j).world w.mem) := by
  -- sms_init left the layout, whatever was in memory before.
  have htable := (smsInit_table m₀ g root pid date).1
  rw [hstart] at htable
  have hruns := smsRuns_start g hsized root start htable
  have hend := smsRuns_run g hsized root start acts w htable hrun
  refine ⟨by rw [htable.dataOffset]; exact hend.2, fun j hj htype => ?_⟩
  have hoffset : smsOffset start root j = g.start j := hruns.offsets j hj
  have hsize : smsSize start root j = g.cfgs[j].span := (htable.buckets j hj).size
  rw [hoffset, hsize]
  -- Ring j is simulated by the same ring alone: its own steps in step, all others as stuttering.
  rcases Machine.steps_project (smsAct g root) (ringAct (root + g.start j)) (SmsAct.onRing j)
    (fun u s => SmsRuns g hsized root u ∧ RingTracks g root j hj u s)
    (fun u s act act' u' hmine hu hstep => by
      rcases ringTracks_mine g hsized root j hj u u' s act act' htype hmine hu.1 hu.2 hstep with
        ⟨s', hs', htracks⟩
      exact ⟨s', hs', (smsAct_runs g hsized root u u' act hu.1 hstep).1, htracks⟩)
    (fun u s act u' hother hu hstep =>
      ⟨(smsAct_runs g hsized root u u' act hu.1 hstep).1,
        ringTracks_other g hsized root j hj u u' s act htype hother hu.1 hu.2 hstep⟩)
    acts _ w (ringThreads start) ⟨hruns, start, rfl, sameOn_refl _ _ start⟩ hrun with
    ⟨s, hs, hw, m, hsm, hsame⟩
  -- What is safe follows from the invariant in the last state.
  rcases hw.rings j hj htype with ⟨R, hR⟩
  refine ⟨ringAt_start g hsized root start htable j hj htype, s, hs, by rw [hsm]; rfl,
    by rw [hsm]; exact hsame, ?_⟩
  exact ringInv_safe _ _ _ R hR

/-- A ring of one element, an array of two and a ring of two. -/
def ringsAndArray : SmsGeom where
  cfgs := [⟨true, fun _ => 0, 2, 1, 1⟩, ⟨false, fun _ => 0, 1, 2, 3⟩, ⟨true, fun _ => 0, 2, 2, 2⟩]
  count := by decide
  fits := by decide

/-- Pushes to both rings with each other's steps in between, a pop, and a store
    before the segment. -/
def threeInTurns : List SmsAct :=
  [.ring 0 (.push (fun _ => 5)), .ring 2 (.push (fun _ => 6)), .array 1 (.arrayPush (fun _ => 7)),
    .ring 0 .writer, .other 60 4 (fun _ => 8), .ring 2 .writer, .ring 0 .writer,
    .ring 0 (.pop true), .ring 2 .writer, .ring 0 .reader, .array 1 .arrayPop, .ring 0 .reader]

theorem threeInTurns_runs :
    (Machine.steps (smsAct ringsAndArray 64)
      ⟨(smsInit (fun _ => 9) 64 (some ringsAndArray.cfgs) ringsAndArray.cfgCount 1 2).2,
        fun _ => RingUsers.fresh⟩ threeInTurns).isSome = true := by
  decide +kernel

/-- The first ring has done what it does alone. -/
theorem sms_three_buckets_run :
    ∃ start w, smsInit (fun _ => 9) 64 (some ringsAndArray.cfgs) ringsAndArray.cfgCount 1 2
        = (cmnOk, start) ∧
      Machine.steps (smsAct ringsAndArray 64) ⟨start, fun _ => RingUsers.fresh⟩ threeInTurns
        = some w ∧
      ∃ s, Machine.steps (ringAct (64 + smsOffset start 64 0)) (ringThreads start)
          [.push (fun _ => 5), .writer, .writer, .pop true, .reader, .reader] = some s ∧
        s.users = w.users 0 := by
  -- The region is set up by evaluation, and the three buckets take their turns from there.
  have hstart := smsInit_eq (fun _ => 9) ringsAndArray 64 1 2
  have hsome := threeInTurns_runs
  rw [hstart] at hsome
  rcases Option.isSome_iff_exists.mp hsome with ⟨w, hw⟩
  rcases (sms_rings_alone ringsAndArray (by decide) 64 (fun _ => 9) 1 2 _ threeInTurns w hstart
    hw).2 0 (by decide) (by decide) with ⟨_, s, hs, husers, _⟩
  exact ⟨_, w, hstart, hw, s, hs, husers⟩

end Aircmn
