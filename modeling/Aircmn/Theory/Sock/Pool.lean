import Aircmn.Lib.Holdings
import Aircmn.Theory.Sock.Owner

/-!
# Many Connections

A program with any number of connections, each in a block of its own, that it
listens on, connects, accepts into, closes and destroys, while the rest of the
process opens and closes descriptors of its own. The number of a descriptor that
has been closed may come back for anybody, and so may a block.

What a connection holds is its block and, from a set-up that succeeds to the
close, the descriptor in `sd`. Where a set-up fails it closes what it has
obtained; `sock_reject_all` closes every descriptor that it obtains. So as long
as the program sets up what is not open, closes what is and destroys what is
not, every descriptor and every block that belongs to connections is held by
exactly one of them. Two open connections never share a descriptor, nothing
leaks, and nobody else's descriptor is closed. The exception is descriptor 0,
which a set-up that fails does not close.

## Main definitions

* `SockPool.openAt`, `PoolUses`: A program that closes what it has opened.
* `poolHolds`, `PoolHeld`: What a connection holds, and the invariant.
* `PoolSets`: What a set-up leaves.
* `smallServer`: A program with three connections.

## Theorems

* `sockRejectAll_same`: Everything obtained is closed again.
* `setUp_sets`, `sockAccept_sets`: What set-ups and accepts leave.
* `poolSetUp_held`, `poolClose_held`, `poolDestroy_held`, `poolAct_held`: The
  invariant is kept.
* `sock_pool_held`, `sock_pool_held_small`: Every run.
-/

namespace Aircmn

open Descriptors Holdings Machine

/-- The pointer points to a connection that is open. -/
def SockPool.openAt (w : SockPool) (i : Nat) : Bool := ((w.conns i).map PoolConn.isOpen).getD false

/-- What is set up is not open and what is closed is, and a set-up that has
    obtained descriptor 0 does not fail. -/
def PoolUses (w : SockPool) : PoolAct → Prop
  | .connect i o => w.openAt i = false ∧ (o.Succeeds ∨ o.socket.ret ≠ 0)
  | .listen i o => w.openAt i = false ∧ (o.Succeeds ∨ o.socket.ret ≠ 0)
  | .accept _ i _ => w.openAt i = false
  | .close i => w.conns i = none ∨ w.openAt i = true
  | .destroy i => w.openAt i = false
  | _ => True

instance (w : SockPool) : (act : PoolAct) → Decidable (PoolUses w act)
  | .connect i o =>
      inferInstanceAs (Decidable (w.openAt i = false ∧ (o.Succeeds ∨ o.socket.ret ≠ 0)))
  | .listen i o =>
      inferInstanceAs (Decidable (w.openAt i = false ∧ (o.Succeeds ∨ o.socket.ret ≠ 0)))
  | .accept _ i _ => inferInstanceAs (Decidable (w.openAt i = false))
  | .close i => decidable_of_iff ((w.conns i).isNone ∨ w.openAt i = true)
      (or_congr_left Option.isNone_iff_eq_none)
  | .destroy i => inferInstanceAs (Decidable (w.openAt i = false))
  | .create _ _ => inferInstanceAs (Decidable True)
  | .rejectAll _ _ => inferInstanceAs (Decidable True)
  | .otherOpen _ => inferInstanceAs (Decidable True)
  | .otherClose _ => inferInstanceAs (Decidable True)

/-- What the connection of a pointer holds. -/
def poolHolds : Option PoolConn → List Resource
  | none => []
  | some c => if c.isOpen then [.fd c.conn.sd, .block c.addr] else [.block c.addr]

/-- What belongs to connections is held by one of them each, and nothing else has
    been closed or freed. -/
structure PoolHeld (w : SockPool) : Prop where
  held : Holdings.Holds (Owns w.fds.table w.blocks .conn) (poolHolds ∘ w.conns)
  closes : w.fds.strays = []
  frees : w.frees = []

/-- A descriptor that is obtained and closed at once. -/
theorem fdClose_obtain (k : SockFds) (fd : Int32) (hfd : ¬ fd < 0) (hfree : k.table fd = none) :
    fdClose (fdObtain k fd) fd = k := by
  have htable : closed (Descriptors.opened k.table fd .conn) fd = k.table := by
    rw [Descriptors.opened, if_neg hfd, closed, Function.update_idem, ← hfree,
      Function.update_eq_self]
  have howned := opened_self k.table fd SockOwner.conn hfd
  simp only [fdClose, fdObtain, howned, or_true, if_true, htable]

/-- Everything that `sock_reject_all` obtains is closed again. -/
theorem sockRejectAll_same (k k' : SockFds) (rs : List SysRet)
    (hrs : ∀ r ∈ rs, Answer k.table r.ret) (h : sockRejectAll k rs = some k') : k' = k := by
  -- Every descriptor that is accepted and rejected is closed again before the next is taken.
  induction rs with
  | nil => cases h
  | cons r rs ih =>
      have hrest := ih (fun r' hr' => hrs r' (List.mem_cons_of_mem _ hr'))
      rw [sockRejectAll] at h
      by_cases hneg : r.ret < 0
      · rw [if_pos hneg] at h
        -- EINTR tries again; another error ends the loop.
        split at h
        · exact (Option.some.inj h).symm
        · split at h
          · exact hrest h
          · exact (Option.some.inj h).symm
      · -- The next `accept` finds the descriptors as this one has found them.
        have hfree := (hrs r List.mem_cons_self).resolve_left hneg
        rw [if_neg hneg, fdClose_obtain k r.ret hneg hfree] at h
        exact hrest h

/-- What a set-up or an accept leaves: the connection has got a descriptor, or
    what belongs to connections is what it was. -/
structure PoolSets (k : SockFds) (r : Bool × SockConn × SockFds) : Prop where
  ok : r.1 = true → ¬ r.2.1.sd < 0 ∧ k.table r.2.1.sd = none ∧ r.2.2 = fdObtain k r.2.1.sd
  bad : r.1 = false → r.2.2 = k

theorem setUp_sets (k : SockFds) (fd : Int32) (succeeds : Prop) [Decidable succeeds]
    (r : Bool × SockConn × SockFds) (hsetUp : SetUp k fd succeeds r) (hpos : succeeds → 0 ≤ fd)
    (hanswer : Answer k.table fd) (hok : succeeds ∨ fd ≠ 0) : PoolSets k r := by
  -- A setup that succeeds has its descriptor, and one that fails has given it back.
  by_cases hs : succeeds
  · rcases hsetUp.ok hs with ⟨hret, hfds⟩
    have hfd : ¬ fd < 0 := Int32.not_lt.mpr (hpos hs)
    refine ⟨fun _ => ?_, fun hbad => absurd (hret.symm.trans hbad) (by decide)⟩
    rw [hsetUp.sd]
    exact ⟨hfd, hanswer.resolve_left hfd, hfds⟩
  · rcases hsetUp.bad hs with ⟨hret, hfds⟩
    refine ⟨fun hgood => absurd (hret.symm.trans hgood) (by decide), fun _ => ?_⟩
    rw [hfds]
    by_cases hneg : fd < 0
    · -- There is nothing to close.
      rw [if_neg (Int32.not_lt.mpr (Int32.le_of_lt hneg)), fdObtain, opened_failed _ _ _ hneg]
    -- The descriptor is above 0, so the cleanup closes it.
    · have hfd : 0 < fd :=
        Int32.lt_of_le_of_ne (Int32.not_lt.mp hneg) (hok.resolve_left hs).symm
      rw [if_pos hfd, fdClose_obtain k fd hneg (hanswer.resolve_left hneg)]

/-- What an `_sock_accept` returns is an answer of `accept`. -/
theorem sockAcceptLoop_answer (t : Table SockOwner) (rs : List SysRet) (sd : Int32)
    (hrs : ∀ r ∈ rs, Answer t r.ret) (h : sockAcceptLoop rs = some sd) : Answer t sd := by
  -- The loop returns an answer of its own, or fails with a number below 0.
  induction rs with
  | nil => cases h
  | cons r rs ih =>
      rw [sockAcceptLoop] at h
      by_cases hneg : r.ret < 0
      · rw [if_pos hneg] at h
        split at h
        · exact Or.inl (Option.some.inj h ▸ by decide)
        · split at h
          · exact ih (fun r' hr' => hrs r' (List.mem_cons_of_mem _ hr')) h
          · exact Or.inl (Option.some.inj h ▸ by decide)
      · rw [if_neg hneg, Option.some.injEq] at h
        -- An answer that is no failure is the descriptor of that accept.
        exact h ▸ hrs r List.mem_cons_self

theorem sockAccept_sets (k : SockFds) (c : SockConn) (rs : List SysRet)
    (hrs : ∀ r ∈ rs, Answer k.table r.ret) (r : Bool × SockConn × SockFds)
    (h : sockAccept k c rs = some r) : PoolSets k r := by
  rcases Option.map_eq_some_iff.mp h with ⟨sd, hloop, hr⟩
  have hanswer := sockAcceptLoop_answer k.table rs sd hrs hloop
  simp only at hr
  -- Either the accept failed and nothing changed, or there is one descriptor more.
  by_cases hneg : sd < 0
  · rw [if_pos hneg, fdObtain, opened_failed _ _ _ hneg] at hr
    rw [← hr]
    exact ⟨fun hc => absurd hc Bool.false_ne_true, fun _ => rfl⟩
  · rw [if_neg hneg] at hr
    rw [← hr]
    exact ⟨fun _ => ⟨hneg, hanswer.resolve_left hneg, rfl⟩,
      fun hc => absurd hc.symm Bool.false_ne_true⟩

section Steps

variable (w : SockPool) (i : Nat) (c : PoolConn)

/-- What a connection holds before it is set up. -/
theorem poolHolds_closed (hopen : c.isOpen = false) : poolHolds (some c) = [.block c.addr] := by
  simp only [poolHolds, hopen, Bool.false_eq_true, if_false]

theorem poolSetUp_held (h : PoolHeld w) (hi : w.conns i = some c) (hopen : c.isOpen = false)
    (r : Bool × SockConn × SockFds) (hr : PoolSets w.fds r) : PoolHeld (poolSetUp w i c r) := by
  have hblock : (poolHolds ∘ w.conns) i = [.block c.addr] := by
    rw [Function.comp_apply, hi, poolHolds_closed c hopen]
  cases hret : r.1 with
  | true =>
      rcases hr.ok hret with ⟨hsd, hfree, hfds⟩
      refine ⟨?_, ?_, h.frees⟩
      · simp only [poolSetUp, hret, Bool.or_true, Function.comp_update, poolHolds, if_true, hfds,
          fdObtain]
        rw [← hblock]
        refine holds_add _ _ _ h.held i _ ?_ (owns_opened _ _ _ _ hsd)
        simp only [Owns, hfree, reduceCtorEq, not_false_eq_true]
      · simp only [poolSetUp, hfds, fdObtain]
        exact h.closes
  | false =>
      -- The connection is as it was, but for what is in its fields.
      have hsame := hr.bad hret
      refine ⟨?_, ?_, h.frees⟩
      · simp only [poolSetUp, hret, hopen, Bool.or_false, hsame, Function.comp_update]
        rw [poolHolds_closed _ rfl, ← hblock, Function.update_eq_self]
        exact h.held
      · simp only [poolSetUp, hsame]
        exact h.closes

theorem poolClose_held (h : PoolHeld w) (hi : w.conns i = some c) (hopen : c.isOpen = true) :
    PoolHeld { w with
      fds := sockClose w.fds c.conn
      conns := Function.update w.conns i (some { c with isOpen := false }) } := by
  have hholds : (poolHolds ∘ w.conns) i = .fd c.conn.sd :: [.block c.addr] := by
    simp only [Function.comp_apply, hi, poolHolds, hopen, if_true]
  have howned : w.fds.table c.conn.sd = some .conn :=
    holds_owned _ _ h.held i (.fd c.conn.sd) (hholds ▸ List.mem_cons_self)
  refine ⟨?_, (fdClose_owned w.fds c.conn.sd howned).trans h.closes, h.frees⟩
  simp only [Function.comp_update]
  rw [poolHolds_closed _ rfl]
  exact holds_drop _ _ _ h.held i _ _ hholds (owns_closed _ _ _ c.conn.sd)

theorem poolDestroy_held (h : PoolHeld w) (hopen : w.openAt i = false) :
    PoolHeld (sockConnDestroy w i) := by
  rw [sockConnDestroy]
  cases hi : w.conns i with
  | none => exact h
  | some c =>
      -- A connection that is not open holds only its block.
      simp only [SockPool.openAt, hi, Option.map_some, Option.getD_some] at hopen
      have hblock : (poolHolds ∘ w.conns) i = [.block c.addr] := by
        rw [Function.comp_apply, hi, poolHolds_closed c hopen]
      -- The block is the pool's own, as PoolHeld says of every connection.
      have howned : w.blocks c.addr = true :=
        holds_owned _ _ h.held i (.block c.addr) (hblock ▸ List.mem_cons_self)
      refine ⟨?_, h.closes, (if_pos howned).trans h.frees⟩
      simp only [Function.comp_update]
      -- Giving the block back leaves the other connections what they hold.
      refine holds_give _ _ _ h.held i (fun r => ?_)
      rw [hblock, List.mem_singleton]
      exact owns_freed _ _ _ c.addr r

end Steps

theorem poolAct_held (w w' : SockPool) (act : PoolAct) (h : PoolHeld w) (huses : PoolUses w act)
    (hstep : poolAct w act = some w') : PoolHeld w' := by
  have hclosed : ∀ i c, w.conns i = some c → w.openAt i = c.isOpen := by
    intro i c hi
    simp only [SockPool.openAt, hi, Option.map_some, Option.getD_some]
  cases act with
  | create i p =>
      simp only [poolAct] at hstep
      split at hstep
      · cases hstep
      · rename_i hi
        rw [Option.ite_none_right_eq_some] at hstep
        rcases hstep with ⟨hfits, hstep⟩
        cases p with
        | none => exact Option.some.inj hstep ▸ h
        | some addr =>
            -- A new connection holds its block and no descriptor.
            cases hstep
            refine ⟨?_, h.closes, h.frees⟩
            simp only [Function.comp_update]
            rw [poolHolds_closed _ rfl]
            have hnothing : (poolHolds ∘ w.conns) i = [] := congrArg poolHolds hi
            rw [← hnothing]
            exact holds_add _ _ _ h.held i _ (Bool.eq_false_iff.mp hfits)
              (owns_alloc _ _ _ addr)
  | connect i o =>
      rw [poolAct] at hstep
      split at hstep
      · cases hstep
      · rename_i c hi
        rw [Option.ite_none_right_eq_some, Option.some.injEq] at hstep
        rcases hstep with ⟨hanswer, rfl⟩
        exact poolSetUp_held w i c h hi (hclosed i c hi ▸ huses.1) _
          (setUp_sets w.fds _ o.Succeeds _ (sockConnect_setUp w.fds c.conn o) (fun hs => hs.1)
            hanswer huses.2)
  | listen i o =>
      rw [poolAct] at hstep
      split at hstep
      · cases hstep
      · rename_i c hi
        rw [Option.ite_none_right_eq_some, Option.some.injEq] at hstep
        rcases hstep with ⟨hanswer, rfl⟩
        exact poolSetUp_held w i c h hi (hclosed i c hi ▸ huses.1) _
          (setUp_sets w.fds _ o.Succeeds _ (sockListen_setUp w.fds c.conn o) (fun hs => hs.1)
            hanswer huses.2)
  | accept l i rs =>
      simp only [poolAct] at hstep
      split at hstep
      · rename_i _ c _ hi
        rw [Option.ite_none_right_eq_some] at hstep
        rcases Option.map_eq_some_iff.mp hstep.2 with ⟨r, hr, rfl⟩
        exact poolSetUp_held w i c h hi (hclosed i c hi ▸ huses) r
          (sockAccept_sets w.fds c.conn rs hstep.1 r hr)
      · cases hstep
  | rejectAll l rs =>
      rw [poolAct] at hstep
      split at hstep
      · cases hstep
      · rw [Option.ite_none_right_eq_some] at hstep
        rcases Option.map_eq_some_iff.mp hstep.2 with ⟨k, hk, rfl⟩
        -- Nothing that is obtained is kept, whoever listens.
        rw [sockRejectAll_same w.fds k rs hstep.1 hk]
        exact h
  | close i =>
      rw [poolAct] at hstep
      split at hstep
      · exact Option.some.inj hstep ▸ h
      · rename_i c hi
        cases hstep
        -- Only what is open is closed, so it is the connection's own.
        have hopen := huses.resolve_left (hi ▸ Option.some_ne_none c)
        exact poolClose_held w i c h hi (hclosed i c hi ▸ hopen)
  | destroy i =>
      cases hstep
      exact poolDestroy_held w i h huses
  | otherOpen fd =>
      rw [poolAct, Option.ite_none_right_eq_some, Option.some.injEq] at hstep
      rcases hstep with ⟨⟨_, hfd⟩, rfl⟩
      exact ⟨Holdings.holds_congr _ _ _ h.held
          (owns_otherOpened _ _ _ SockOwner.other (by decide) fd hfd),
        h.closes, h.frees⟩
  | otherClose fd =>
      rw [poolAct, Option.ite_none_right_eq_some, Option.some.injEq] at hstep
      rcases hstep with ⟨hfd, rfl⟩
      exact ⟨Holdings.holds_congr _ _ _ h.held
          (owns_otherClosed _ _ _ SockOwner.other (by decide) fd hfd),
        h.closes, h.frees⟩

/-- Where what is set up is not open and what is closed is, in every state of
    every run the descriptors and blocks of connections are held by one of them
    each, and nothing else has been closed or freed. -/
theorem sock_pool_held (table : Table SockOwner) (htable : ∀ fd, table fd ≠ some .conn)
    (acts : List PoolAct) (huses : AlongSteps poolAct PoolUses (sockPool table) acts) :
    Throughout poolAct PoolHeld (sockPool table) acts := by
  refine throughout_of_along poolAct PoolUses PoolHeld PoolHeld (fun _ h => h)
    (fun s act s' hs hP hstep => poolAct_held s s' act hs hP hstep) acts _ ?_ huses
  refine ⟨holds_nothing _ (fun r hr => ?_), rfl, rfl⟩
  cases r with
  | fd fd => exact htable fd hr
  | block p => exact Bool.false_ne_true hr

/-- A server that accepts a connection and turns the next one away, tries to
    connect to somebody and is refused, and connects when the descriptor of the
    first connection is free again. -/
def smallServer : List PoolAct :=
  [.create 0 (some 64), .listen 0 ⟨⟨3, 0⟩, ⟨0, 0⟩, ⟨0, 0⟩, ⟨0, 0⟩, ⟨2, 0⟩, ⟨0, 0⟩⟩,
    .create 1 (some 128), .accept 0 1 [⟨-1, 4⟩, ⟨4, 0⟩], .rejectAll 0 [⟨5, 0⟩, ⟨-1, 4⟩, ⟨-1, 11⟩],
    .create 2 (some 192), .connect 2 ⟨⟨5, 0⟩, ⟨-1, 111⟩, ⟨0, 0⟩, ⟨0, 0⟩⟩, .otherOpen 5, .close 1,
    .destroy 1, .connect 2 ⟨⟨4, 0⟩, ⟨0, 0⟩, ⟨2, 0⟩, ⟨0, 0⟩⟩, .close 0, .destroy 0]

theorem sock_pool_held_small :
    Throughout poolAct PoolHeld (sockPool (fun _ => none)) smallServer :=
  sock_pool_held _ (fun _ => (Option.some_ne_none _).symm) smallServer (by decide)

end Aircmn
