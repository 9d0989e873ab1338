import Aircmn.Core.Sock
import Aircmn.Lib.Monitor

/-!
# The Descriptor of a Connection

`sd` names a descriptor of the connection from the `socket` or `accept` that
obtained it to the close. It keeps its value after that, and in a new
connection it is zero. `SockPhase` is what has to be remembered of the calls
to know what `sd` stands for.

A set-up that fails closes what it has obtained, unless that is descriptor 0,
because the test at its cleanup label is `sd > 0`. It leaves the number in
`sd`, so that the `sock_close` of an owner who closes after every attempt
closes it again. After a failed `accept`, too, `sd` is what it was before the
call, be it only zero. Nothing else goes wrong: `sd` is negative when `socket`
has failed, and a close of that closes nothing.

## Main definitions

* `SockGivesBack`: Every failed set-up has closed what it obtained, and
  nothing else has been closed that the connection did not own.
* `ConnectCalls.Succeeds`, `ListenCalls.Succeeds`: The system calls go well.
* `SockPhase`, `sockNext`, `SockPermits`: The monitor.
* `SockFollows`: How the monitor stands to the connection.
* `closesNext`, `closesOk`: An owner who closes once for each attempt.

## Theorems

* `fdClose_owned`, `fdClose_stray`, `fdClose_negative`: When a close is stray.
* `sockConnect_setUp`, `sockListen_setUp`: What both set-ups do.
* `setUp_follows`, `setUp_astray`: A set-up that gives back, and one that does
  not.
* `sockAct_follows`, `sockAct_astray`: The monitor is exact.
* `sock_gives_back_iff`: The runs in which every descriptor is given back once.
* `sock_tries_again`: A run with failures of every kind.
* `sock_gives_back_twice`: The runs that go wrong.
-/

namespace Aircmn

open Descriptors Machine

/-- Every set-up that has returned false has closed what it obtained, and no
    number has been closed while the connection did not own it. -/
def SockGivesBack (w : SockWorld) : Prop := w.kept = [] ∧ w.fds.strays = []

/-- No system call of the set-up fails, or `connect` is only not done yet. -/
def ConnectCalls.Succeeds (o : ConnectCalls) : Prop :=
  0 ≤ o.socket.ret ∧ (0 ≤ o.connect.ret ∨ o.connect.errno = einprogress) ∧
    0 ≤ (sockSetNonblocking o.getfl o.setfl).ret

instance (o : ConnectCalls) : Decidable o.Succeeds :=
  inferInstanceAs (Decidable (_ ∧ _ ∧ _))

/-- No system call of `sock_listen` fails. -/
def ListenCalls.Succeeds (o : ListenCalls) : Prop :=
  0 ≤ o.socket.ret ∧ 0 ≤ o.reuseaddr.ret ∧ 0 ≤ o.bind.ret ∧ 0 ≤ o.listen.ret ∧
    (sockSetNonblocking o.getfl o.setfl).ret = 0

instance (o : ListenCalls) : Decidable o.Succeeds :=
  inferInstanceAs (Decidable (_ ∧ _ ∧ _ ∧ _ ∧ _))

/-- What `sd` stands for. -/
inductive SockPhase where
  /-- A number that is not the connection's. -/
  | stale
  /-- The answer of a `socket` that has failed. -/
  | failed
  /-- A descriptor of the connection. -/
  | held
deriving DecidableEq

/-- The phase after a set-up for which `socket` has answered with `fd`. -/
def setUpPhase (succeeds : Bool) (fd : Int32) : SockPhase :=
  if succeeds then .held else if fd < 0 then .failed else .stale

/-- What the calls do to the phase. -/
def sockNext (q : SockPhase) : SockAct → SockPhase
  | .connect o => setUpPhase (decide o.Succeeds) o.socket.ret
  | .listen o => setUpPhase (decide o.Succeeds) o.socket.ret
  | .accept rs => if 0 ≤ (sockAcceptLoop rs).getD (-1) then .held else q
  | .close => if q = .held then .stale else q
  | _ => q

/-- A set-up that obtains descriptor 0 does not fail, and nothing is closed
    while `sd` is not the connection's. -/
def SockPermits (q : SockPhase) : SockAct → Prop
  | .connect o => o.Succeeds ∨ o.socket.ret ≠ 0
  | .listen o => o.Succeeds ∨ o.socket.ret ≠ 0
  | .close => q ≠ .stale
  | _ => True

instance (q : SockPhase) : (act : SockAct) → Decidable (SockPermits q act)
  | .connect o => inferInstanceAs (Decidable (o.Succeeds ∨ o.socket.ret ≠ 0))
  | .listen o => inferInstanceAs (Decidable (o.Succeeds ∨ o.socket.ret ≠ 0))
  | .close => inferInstanceAs (Decidable (q ≠ .stale))
  | .accept _ => inferInstanceAs (Decidable True)
  | .otherOpen _ => inferInstanceAs (Decidable True)
  | .otherClose _ => inferInstanceAs (Decidable True)

/-- The field `sd` in a phase. -/
def PhaseSd (table : Table SockOwner) (sd : Int32) : SockPhase → Prop
  | .stale => 0 ≤ sd ∧ table sd ≠ some .conn
  | .failed => sd < 0
  | .held => 0 ≤ sd ∧ table sd = some .conn

/-- The monitor knows what the field stands for, and nothing has gone wrong. -/
structure SockFollows (w : SockWorld) (q : SockPhase) : Prop where
  sd : PhaseSd w.fds.table w.conn.sd q
  good : SockGivesBack w

theorem fdClose_owned (k : SockFds) (fd : Int32) (h : k.table fd = some .conn) :
    (fdClose k fd).strays = k.strays :=
  if_pos (Or.inr h)

theorem fdClose_negative (k : SockFds) (fd : Int32) (h : fd < 0) :
    (fdClose k fd).strays = k.strays :=
  if_pos (Or.inl h)

theorem fdClose_stray (k : SockFds) (fd : Int32) (hfd : 0 ≤ fd) (h : k.table fd ≠ some .conn) :
    (fdClose k fd).strays ≠ [] := by
  simp [fdClose, h, Int32.not_lt.mpr hfd]

theorem fdClose_gone (k : SockFds) (fd : Int32) : (fdClose k fd).table fd ≠ some .conn := by
  simp only [fdClose, closed_self]
  exact (Option.some_ne_none _).symm

/-- What a set-up does for which `socket` has answered with `fd`. -/
structure SetUp (k : SockFds) (fd : Int32) (succeeds : Prop) (r : Bool × SockConn × SockFds) :
    Prop where
  sd : r.2.1.sd = fd
  ok : succeeds → r.1 = true ∧ r.2.2 = fdObtain k fd
  bad : ¬ succeeds → r.1 = false ∧
    r.2.2 = if 0 < fd then fdClose (fdObtain k fd) fd else fdObtain k fd

theorem sockConnect_setUp (k : SockFds) (c : SockConn) (o : ConnectCalls) :
    SetUp k o.socket.ret o.Succeeds (sockConnect k c o) := by
  have herror : ∀ errno, ¬ o.Succeeds → SetUp k o.socket.ret o.Succeeds
      (sockConnectError (fdObtain k o.socket.ret) { c with sd := o.socket.ret } errno) :=
    fun errno hno => ⟨rfl, fun h => absurd h hno, fun _ => ⟨rfl, rfl⟩⟩
  simp only [sockConnect]
  split
  · next hsocket => exact herror _ (fun h => absurd hsocket (Int32.not_lt.mpr h.1))
  · next hsocket =>
      -- `sock_set_tcpnodelay` never fails.
      rw [if_neg (by decide)]
      split
      · next hconnect =>
          refine herror _ (fun h => ?_)
          rcases h.2.1 with hok | hprogress
          · exact absurd hconnect.1 (Int32.not_lt.mpr hok)
          · exact absurd hprogress hconnect.2
      · next hconnect =>
          split
          · next hnonblock => exact herror _ (fun h => absurd hnonblock (Int32.not_lt.mpr h.2.2))
          · next hnonblock =>
              have hall : o.Succeeds := by
                refine ⟨Int32.not_lt.mp hsocket, ?_, Int32.not_lt.mp hnonblock⟩
                by_cases hok : 0 ≤ o.connect.ret
                · exact Or.inl hok
                · refine Or.inr (by_contra fun hprogress => hconnect ⟨?_, hprogress⟩)
                  exact Int32.not_le.mp hok
              exact ⟨rfl, fun _ => ⟨rfl, rfl⟩, fun h => absurd hall h⟩

theorem sockListen_setUp (k : SockFds) (c : SockConn) (o : ListenCalls) :
    SetUp k o.socket.ret o.Succeeds (sockListen k c o) := by
  -- Every early exit goes through the same cleanup, which closes a descriptor above 0.
  have herror : ¬ o.Succeeds → SetUp k o.socket.ret o.Succeeds
      (sockListenError (fdObtain k o.socket.ret) { c with sd := o.socket.ret }) :=
    fun hno => ⟨rfl, fun h => absurd h hno, fun _ => ⟨rfl, rfl⟩⟩
  simp only [sockListen]
  -- Each test that fails contradicts one conjunct of Succeeds, in the order of the calls.
  split
  · next hsocket => exact herror (fun h => absurd hsocket (Int32.not_lt.mpr h.1))
  · next hsocket =>
      split
      · next hreuse => exact herror (fun h => absurd hreuse (Int32.not_lt.mpr h.2.1))
      · next hreuse =>
          split
          · next hbind => exact herror (fun h => absurd hbind (Int32.not_lt.mpr h.2.2.1))
          · next hbind =>
              split
              · next hlisten => exact herror (fun h => absurd hlisten (Int32.not_lt.mpr h.2.2.2.1))
              · next hlisten =>
                  split
                  · next hnonblock => exact herror (fun h => hnonblock h.2.2.2.2)
                  · next hnonblock =>
                      -- Past the last test all five calls have succeeded.
                      have hall : o.Succeeds :=
                        ⟨Int32.not_lt.mp hsocket, Int32.not_lt.mp hreuse, Int32.not_lt.mp hbind,
                          Int32.not_lt.mp hlisten, not_not.mp hnonblock⟩
                      exact ⟨rfl, fun _ => ⟨rfl, rfl⟩, fun h => absurd hall h⟩

/-- A set-up that succeeds, or has nothing to give back but what is not
    descriptor 0. -/
theorem setUp_follows (w : SockWorld) (fd : Int32) (succeeds : Prop) [Decidable succeeds]
    (r : Bool × SockConn × SockFds) (hsetUp : SetUp w.fds fd succeeds r)
    (hpos : succeeds → 0 ≤ fd) (hgood : SockGivesBack w) (hok : succeeds ∨ fd ≠ 0) :
    SockFollows (sockSetUp w.kept fd r) (setUpPhase (decide succeeds) fd) := by
  -- Either the connection is set up and sd is its own, or it has given back what it had.
  rcases hgood with ⟨hkept, hstrays⟩
  by_cases hs : succeeds
  · -- The descriptor stays, and it is in `sd`.
    rcases hsetUp.ok hs with ⟨hret, hfds⟩
    have hfd : ¬ fd < 0 := Int32.not_lt.mpr (hpos hs)
    refine ⟨?_, ?_, ?_⟩
    · simp only [setUpPhase, decide_eq_true hs, if_true, sockSetUp, hsetUp.sd, hfds]
      exact ⟨hpos hs, opened_self _ _ _ hfd⟩
    · simp only [sockSetUp, hret, Bool.true_eq_false, false_and, if_false]
      exact hkept
    · simp only [sockSetUp, hfds]
      exact hstrays
  -- A setup that failed leaves nothing behind, as long as its descriptor was not 0.
  · rcases hsetUp.bad hs with ⟨hret, hfds⟩
    by_cases hneg : fd < 0
    · -- There is no descriptor.
      have hnot : ¬ (0 : Int32) < fd := fun h => absurd hneg (Int32.lt_asymm h)
      rw [if_neg hnot] at hfds
      refine ⟨?_, ?_, ?_⟩
      · simp only [setUpPhase, decide_eq_false hs, Bool.false_eq_true, if_false, if_pos hneg,
          sockSetUp, hsetUp.sd]
        exact hneg
      · simp only [sockSetUp]
        rw [if_neg (fun h => absurd hneg (Int32.not_lt.mpr h.2.1))]
        exact hkept
      · simp only [sockSetUp, hfds]
        exact hstrays
    · -- The cleanup has closed the descriptor.
      have hnonneg : 0 ≤ fd := Int32.not_lt.mp hneg
      have hfd : 0 < fd := Int32.lt_of_le_of_ne hnonneg (hok.resolve_left hs).symm
      rw [if_pos hfd] at hfds
      have hgone := fdClose_gone (fdObtain w.fds fd) fd
      refine ⟨?_, ?_, ?_⟩
      · simp only [setUpPhase, decide_eq_false hs, Bool.false_eq_true, if_false, if_neg hneg,
          sockSetUp, hsetUp.sd, hfds]
        exact ⟨hnonneg, hgone⟩
      · simp only [sockSetUp, hfds]
        rw [if_neg (fun h => hgone h.2.2)]
        exact hkept
      · simp only [sockSetUp, hfds]
        rw [fdClose_owned _ _ (opened_self _ _ _ hneg)]
        exact hstrays

/-- A set-up that fails does not give back descriptor 0. -/
theorem setUp_astray (w : SockWorld) (fd : Int32) (succeeds : Prop)
    (r : Bool × SockConn × SockFds) (hsetUp : SetUp w.fds fd succeeds r)
    -- Descriptor 0 is the one that the cleanup takes for none at all.
    (hno : ¬ (succeeds ∨ fd ≠ 0)) : ¬ SockGivesBack (sockSetUp w.kept fd r) := by
  rcases not_or.mp hno with ⟨hs, hzero⟩
  rcases hsetUp.bad hs with ⟨hret, hfds⟩
  have hfd : fd = 0 := not_not.mp hzero
  rw [hfd, if_neg (by decide)] at hfds
  -- It is left open, and the function still returns false.
  have hkept : r.1 = false ∧ 0 ≤ fd ∧ r.2.2.table fd = some .conn := by
    rw [hret, hfds, hfd]
    exact ⟨rfl, by decide, opened_self w.fds.table 0 .conn (by decide)⟩
  -- What a failed setup leaves open is counted as kept.
  intro hgood
  have hnil : (sockSetUp w.kept fd r).kept = [] := hgood.1
  simp only [sockSetUp, if_pos hkept] at hnil
  exact List.append_ne_nil_of_right_ne_nil _ (List.cons_ne_nil _ _) hnil

/-- What the rest of the program does with its own descriptors. -/
theorem phaseSd_otherOpen (t : Table SockOwner) (sd fd : Int32) (q : SockPhase)
    (hfree : t fd = none) (h : PhaseSd t sd q) : PhaseSd (Descriptors.opened t fd .other) sd q := by
  cases q with
  | stale => exact ⟨h.1, opened_ne t fd sd .other .conn (by decide) h.2⟩
  | failed => exact h
  | held => exact ⟨h.1, opened_keeps t fd sd .other .conn hfree h.2⟩

theorem phaseSd_otherClose (t : Table SockOwner) (sd fd : Int32) (q : SockPhase)
    (hother : t fd = some .other) (h : PhaseSd t sd q) : PhaseSd (closed t fd) sd q := by
  cases q with
  | stale => exact ⟨h.1, closed_ne t fd sd .conn h.2⟩
  | failed => exact h
  | held => exact ⟨h.1, closed_keeps t sd fd .other .conn (by decide) hother h.2⟩

theorem sockAccept_follows (w : SockWorld) (q : SockPhase) (rs : List SysRet) (sd : Int32)
    (hloop : sockAcceptLoop rs = some sd) (h : SockFollows w q) (r : Bool × SockConn × SockFds)
    (hr : sockAccept w.fds w.conn rs = some r) :
    SockFollows { w with conn := r.2.1, fds := r.2.2 } (sockNext q (.accept rs)) := by
  -- accept leaves the loop with one answer, the first that is no interruption.
  rw [sockAccept, hloop, Option.map_some, Option.some.injEq] at hr
  rw [← hr]
  simp only [sockNext, hloop, Option.getD_some]
  by_cases hneg : sd < 0
  · -- A failed `accept` leaves everything as it was.
    rw [if_pos hneg, if_neg (Int32.not_le.mpr hneg)]
    simp only [fdObtain, opened_failed _ _ _ hneg]
    exact h
  · rw [if_neg hneg, if_pos (Int32.not_lt.mp hneg)]
    exact ⟨⟨Int32.not_lt.mp hneg, opened_self _ _ _ hneg⟩, h.good⟩

theorem sockClose_follows (w : SockWorld) (q : SockPhase) (h : SockFollows w q)
    (hok : q ≠ .stale) :
    SockFollows { w with fds := sockClose w.fds w.conn } (sockNext q .close) := by
  have hsd := h.sd
  cases q with
  | stale => exact absurd rfl hok
  | failed =>
      -- A close of a negative number closes nothing.
      refine ⟨hsd, h.good.1, ?_⟩
      exact (fdClose_negative w.fds w.conn.sd hsd).trans h.good.2
  | held =>
      refine ⟨⟨hsd.1, fdClose_gone w.fds w.conn.sd⟩, h.good.1, ?_⟩
      exact (fdClose_owned w.fds w.conn.sd hsd.2).trans h.good.2

theorem sockAct_follows (w w' : SockWorld) (q : SockPhase) (act : SockAct) (h : SockFollows w q)
    (hok : SockPermits q act) (hstep : sockAct w act = some w') :
    SockFollows w' (sockNext q act) := by
  -- The phases follow the automaton, one lemma per call.
  cases act with
  | connect o =>
      rw [sockAct, Option.ite_none_right_eq_some, Option.some.injEq] at hstep
      rw [← hstep.2]
      exact setUp_follows w _ o.Succeeds _ (sockConnect_setUp w.fds w.conn o) (fun hs => hs.1)
        h.good hok
  | listen o =>
      rw [sockAct, Option.ite_none_right_eq_some, Option.some.injEq] at hstep
      rw [← hstep.2]
      exact setUp_follows w _ o.Succeeds _ (sockListen_setUp w.fds w.conn o) (fun hs => hs.1)
        h.good hok
  | accept rs =>
      rw [sockAct, Option.ite_none_right_eq_some] at hstep
      rcases Option.map_eq_some_iff.mp hstep.2 with ⟨r, hr, hw⟩
      rcases Option.map_eq_some_iff.mp hr with ⟨sd, hloop, _⟩
      rw [← hw]
      exact sockAccept_follows w q rs sd hloop h r hr
  | close =>
      rw [sockAct, Option.some.injEq] at hstep
      rw [← hstep]
      exact sockClose_follows w q h hok
  | otherOpen fd =>
      rw [sockAct, Option.ite_none_right_eq_some, Option.some.injEq] at hstep
      -- Another descriptor, opened elsewhere, is not sd's.
      rcases hstep with ⟨hfree, hw⟩
      rw [← hw]
      exact ⟨phaseSd_otherOpen _ _ fd q hfree.2 h.sd, h.good⟩
  | otherClose fd =>
      rw [sockAct, Option.ite_none_right_eq_some, Option.some.injEq] at hstep
      rcases hstep with ⟨hother, hw⟩
      rw [← hw]
      exact ⟨phaseSd_otherClose _ _ fd q hother h.sd, h.good⟩

theorem sockAct_astray (w w' : SockWorld) (q : SockPhase) (act : SockAct) (h : SockFollows w q)
    (hno : ¬ SockPermits q act) (hstep : sockAct w act = some w') : ¬ SockGivesBack w' := by
  -- What is forbidden is a failed setup whose descriptor was 0 and a close of a stale sd.
  cases act with
  | connect o =>
      rw [sockAct, Option.ite_none_right_eq_some, Option.some.injEq] at hstep
      rw [← hstep.2]
      exact setUp_astray w _ o.Succeeds _ (sockConnect_setUp w.fds w.conn o) hno
  | listen o =>
      rw [sockAct, Option.ite_none_right_eq_some, Option.some.injEq] at hstep
      rw [← hstep.2]
      exact setUp_astray w _ o.Succeeds _ (sockListen_setUp w.fds w.conn o) hno
  | close =>
      rw [sockAct, Option.some.injEq] at hstep
      -- A stale sd has been closed before, so this close takes somebody else's descriptor.
      have hq : q = .stale := not_not.mp hno
      rw [hq] at h
      rw [← hstep]
      exact fun hgood => fdClose_stray w.fds w.conn.sd h.sd.1 h.sd.2 hgood.2
  | _ => exact absurd trivial hno

/-- In every state of a run every descriptor has been given back, and only
    once, just in case every call of the run is permitted. -/
theorem sock_gives_back_iff (table : Table SockOwner) (hclean : ∀ fd, table fd ≠ some .conn)
    (acts : List SockAct) (w : SockWorld) (hrun : steps sockAct (sockWorld table) acts = some w) :
    Throughout sockAct SockGivesBack (sockWorld table) acts ↔
      Orderly sockNext SockPermits .stale acts :=
  throughout_iff_orderly sockAct sockNext SockPermits SockFollows SockGivesBack
    (fun _ _ h => h.good) (fun u q i u' h hok => sockAct_follows u u' q i h hok)
    (fun u q i u' h hno => sockAct_astray u u' q i h hno) acts _ w .stale
    ⟨⟨Int32.le_refl 0, hclean 0⟩, rfl, rfl⟩ hrun

/-- An attempt gives the owner one close. -/
def closesNext (may : Bool) : SockAct → Bool
  | .connect _ => true
  | .listen _ => true
  | .accept _ => true
  | .close => false
  | _ => may

/-- The owner closes at most once after each attempt. -/
def closesOk (may : Bool) (act : SockAct) : Prop := act = .close → may = true

instance (may : Bool) (act : SockAct) : Decidable (closesOk may act) :=
  inferInstanceAs (Decidable (_ → _))

/-- A `socket` that fails, a connection that is refused, one that comes about
    and is closed while the refused number is in other hands, and an `accept`
    that is interrupted. -/
def triesAgain : List SockAct :=
  [.connect ⟨⟨-1, 24⟩, ⟨0, 0⟩, ⟨0, 0⟩, ⟨0, 0⟩⟩, .close,
    .connect ⟨⟨5, 0⟩, ⟨-1, 111⟩, ⟨0, 0⟩, ⟨0, 0⟩⟩, .otherOpen 5,
    .connect ⟨⟨6, 0⟩, ⟨-1, 115⟩, ⟨2, 0⟩, ⟨0, 0⟩⟩, .close,
    .accept [⟨-1, 4⟩, ⟨7, 0⟩], .otherClose 5, .close]

theorem sock_tries_again :
    ∃ w, steps sockAct (sockWorld (fun _ => none)) triesAgain = some w ∧
      Throughout sockAct SockGivesBack (sockWorld (fun _ => none)) triesAgain ∧
      Orderly closesNext closesOk false triesAgain :=
  ⟨_, rfl, (sock_gives_back_iff (fun _ => none) (fun _ => (Option.some_ne_none _).symm)
    triesAgain _ rfl).mpr (by decide), by decide⟩

/-- Descriptor 0 is not given back. A refused connection is given back twice,
    the second time when its number is somebody else's. And where nothing has
    been accepted, descriptor 0 is closed. -/
theorem sock_gives_back_twice :
    (∃ w, steps sockAct (sockWorld (fun _ => none))
        [.connect ⟨⟨0, 0⟩, ⟨-1, 111⟩, ⟨0, 0⟩, ⟨0, 0⟩⟩] = some w ∧ w.kept = [0]) ∧
    (∃ w, steps sockAct (sockWorld (fun _ => none))
        [.connect ⟨⟨5, 0⟩, ⟨-1, 111⟩, ⟨0, 0⟩, ⟨0, 0⟩⟩, .otherOpen 5, .close] = some w ∧
      w.fds.strays = [5] ∧ w.fds.table 5 = none) ∧
    (∃ w, steps sockAct (sockWorld (fun _ => none)) [.accept [⟨-1, 11⟩], .close] = some w ∧
      w.fds.strays = [0]) ∧
    Orderly closesNext closesOk false
      [.connect ⟨⟨5, 0⟩, ⟨-1, 111⟩, ⟨0, 0⟩, ⟨0, 0⟩⟩, .otherOpen 5, .close] ∧
    ¬ Throughout sockAct SockGivesBack (sockWorld (fun _ => none))
      [.connect ⟨⟨5, 0⟩, ⟨-1, 111⟩, ⟨0, 0⟩, ⟨0, 0⟩⟩, .otherOpen 5, .close] := by
  -- Each run is evaluated; the close of the last one takes 5, which another part has since opened.
  refine ⟨⟨_, rfl, rfl⟩, ⟨_, rfl, rfl, rfl⟩, ⟨_, rfl, rfl⟩, by decide, fun hall => ?_⟩
  have hstray := (hall _ _ (List.prefix_refl _) rfl).2
  exact absurd hstray (List.cons_ne_nil _ _)

end Aircmn
