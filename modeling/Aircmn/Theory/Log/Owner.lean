import Aircmn.Core.Log
import Aircmn.Lib.Monitor

/-!
# The Descriptor of the Logger

The logger has one field for a descriptor it owns, for standard error, and for
the answer of a failed `open`, and the field keeps its value when the
descriptor is closed. Zeroed, it names descriptor 0, which the logger never
opened. So whether a call may use the field depends on the calls before it,
and `LogPhase` is what has to be remembered of them.

A write is stray when the logger has nothing open, be it before the first
`log_open` or after a `log_close`. A close is stray then too, and also when
the last `open` has failed, where a write is suppressed by a test that the
functions that close do not make. No other call is ever stray, whatever the
rest of the program does with the numbers that have been given up.

## Main definitions

* `LogOwns`: The logger has made no stray call.
* `LogPhase`, `logNext`, `LogPermits`: The monitor.
* `LogFollows`: How the monitor stands to the logger.

## Theorems

* `kernelClose_owned`, `kernelClose_stray`, `kernelWrite_stray`: When a call
  is stray.
* `logFollows_opened`: What an `open` leaves.
* `logAct_follows`: A permitted call is not stray.
* `logAct_astray`: Any other is.
* `log_owns_iff`: The runs without stray calls are the permitted ones.
* `log_reused_number`: A run in which a number changes hands.
* `log_before_open`: The runs that go wrong.
-/

namespace Aircmn

open Descriptors

/-- Every write of the logger has gone to standard error or to a descriptor it
    owned, and it has closed nothing else. -/
def LogOwns (w : LogWorld) : Prop := w.kernel.strays = []

/-- What the logger has to write to. -/
inductive LogPhase where
  /-- Nothing: no log has been opened, or the last one has been closed. -/
  | unopened
  /-- Standard error. -/
  | console
  /-- A descriptor of its own. -/
  | file
  /-- Nothing: the last `open` has failed. -/
  | failed
deriving DecidableEq

/-- The phase after an `open` that has answered with `ret`. -/
def openedPhase (ret : Int32) : LogPhase :=
  if ret < 0 then .failed else if ret = stderrFileno then .console else .file

/-- What the calls do to the phase. -/
def logNext (q : LogPhase) : LogAct → LogPhase
  | .openLog _ none _ _ => q
  | .openLog _ (some name) ret _ => if isConsole name then .console else openedPhase ret
  | .reopen ret _ => if q = .console then .console else openedPhase ret
  | .close => if q = .file then .unopened else q
  | _ => q

/-- The calls that use the descriptor only while there is one: no line is
    logged while no log has been opened or the last one has been closed, and
    nothing is closed or reopened then or after an `open` that has failed. -/
def LogPermits (q : LogPhase) : LogAct → Prop
  | .log _ => q ≠ .unopened
  | .close => q = .console ∨ q = .file
  | .reopen _ _ => q = .console ∨ q = .file
  | _ => True

instance (q : LogPhase) : (act : LogAct) → Decidable (LogPermits q act)
  | .log _ => inferInstanceAs (Decidable (q ≠ .unopened))
  | .close => inferInstanceAs (Decidable (q = .console ∨ q = .file))
  | .reopen _ _ => inferInstanceAs (Decidable (q = .console ∨ q = .file))
  | .openLog _ _ _ _ => inferInstanceAs (Decidable True)
  | .otherOpen _ => inferInstanceAs (Decidable True)
  | .otherClose _ => inferInstanceAs (Decidable True)

/-- The field `fd` in a phase. -/
def PhaseFd (table : Table FdOwner) (fd : Int32) : LogPhase → Prop
  | .unopened => 0 ≤ fd ∧ fd ≠ stderrFileno ∧ table fd ≠ some .logger
  | .console => fd = stderrFileno
  | .file => 0 ≤ fd ∧ fd ≠ stderrFileno ∧ table fd = some .logger
  | .failed => fd < 0

/-- The monitor knows what the field stands for, and no call has been stray.
    No descriptor is negative. -/
structure LogFollows (w : LogWorld) (q : LogPhase) : Prop where
  fd : PhaseFd w.kernel.table w.logger.fd q
  strays : w.kernel.strays = []
  negative : ∀ fd, fd < 0 → w.kernel.table fd ≠ some .logger

theorem kernelClose_owned (k : LogKernel) (fd : Int32) (h : k.table fd = some .logger) :
    kernelClose k fd = { k with table := closed k.table fd } := by
  rw [kernelClose, if_pos h]

theorem kernelClose_stray (k : LogKernel) (fd : Int32) (h : k.table fd ≠ some .logger) :
    (kernelClose k fd).strays ≠ [] := by
  simp [kernelClose, h]

theorem kernelWrite_owned (k : LogKernel) (fd : Int32)
    (h : fd = stderrFileno ∨ k.table fd = some .logger) : kernelWrite k fd = k :=
  if_pos h

theorem kernelWrite_stray (k : LogKernel) (fd : Int32)
    (h : ¬ (fd = stderrFileno ∨ k.table fd = some .logger)) : (kernelWrite k fd).strays ≠ [] := by
  simp [kernelWrite, h]

@[simp]
theorem logStderr_fd (l : Logger) (n : Int64) : (logStderr l n).fd = l.fd := by
  unfold logStderr
  split
  all_goals rfl

theorem stderr_nonneg : ¬ stderrFileno < 0 := by decide

/-- A line is written to the field as it is, unless it is negative. -/
theorem log_eq (k : LogKernel) (l : Logger) (n : Int64) :
    (log k l n).1.fd = l.fd ∧ (log k l n).2 = if l.fd < 0 then k else kernelWrite k l.fd := by
  unfold log
  split
  · exact ⟨rfl, rfl⟩
  · split
    all_goals exact ⟨rfl, rfl⟩

/-- After an `open` the field is in the phase its answer says. -/
theorem logFollows_opened (k : LogKernel) (l : Logger) (ret : Int32) (hfd : l.fd = ret)
    (hstrays : k.strays = []) (hneg : ∀ fd, fd < 0 → k.table fd ≠ some .logger) :
    LogFollows ⟨l, kernelOpen k ret⟩ (openedPhase ret) := by
  refine ⟨?_, hstrays, fun fd hlt => ?_⟩
  · simp only [hfd, openedPhase, kernelOpen]
    -- Three outcomes of open: it failed, it gave standard error's number, or a descriptor of the
    -- logger's own.
    by_cases hlt : ret < 0
    · rw [if_pos hlt]
      exact hlt
    · rw [if_neg hlt]
      by_cases hstderr : ret = stderrFileno
      · rw [if_pos hstderr]
        exact hstderr
      · rw [if_neg hstderr]
        exact ⟨Int32.not_lt.mp hlt, hstderr, opened_self _ _ _ hlt⟩
  -- A number below 0 is no descriptor, and none of them became the logger's.
  · by_cases hret : fd = ret
    · rw [hret] at hlt ⊢
      simp only [kernelOpen, opened_failed _ _ _ hlt]
      exact hneg ret hlt
    · simp only [kernelOpen, opened_other _ _ _ _ hret]
      exact hneg fd hlt

/-- What the rest of the program opens is not in any phase the logger is in. -/
theorem phaseFd_otherOpen (t : Table FdOwner) (fd ret : Int32) (q : LogPhase) (hfree : t ret = none)
    (h : PhaseFd t fd q) : PhaseFd (opened t ret .other) fd q := by
  cases q with
  | unopened => exact ⟨h.1, h.2.1, opened_ne t ret fd .other .logger (by decide) h.2.2⟩
  | file => exact ⟨h.1, h.2.1, opened_keeps t ret fd .other .logger hfree h.2.2⟩
  | _ => exact h

theorem phaseFd_otherClose (t : Table FdOwner) (fd fd' : Int32) (q : LogPhase)
    (hother : t fd' = some .other) (h : PhaseFd t fd q) : PhaseFd (closed t fd') fd q := by
  cases q with
  | unopened => exact ⟨h.1, h.2.1, closed_ne t fd' fd .logger h.2.2⟩
  | file => exact ⟨h.1, h.2.1, closed_keeps t fd fd' .other .logger (by decide) hother h.2.2⟩
  | _ => exact h

theorem logClose_file (w : LogWorld) (h : LogFollows w .file) :
    logClose w.kernel w.logger = { w.kernel with table := closed w.kernel.table w.logger.fd } := by
  rw [logClose, if_pos h.fd.2.1, kernelClose_owned _ _ h.fd.2.2]

theorem logClose_console (w : LogWorld) (h : LogFollows w .console) :
    logClose w.kernel w.logger = w.kernel := by
  have hfd : w.logger.fd = stderrFileno := h.fd
  rw [logClose, if_neg (not_not.mpr hfd)]

/-- A reopen is a close, an `open` and a store of the answer. -/
theorem logReopen_file (w : LogWorld) (ret : Int32) (n : Int64)
    (h : w.logger.fd ≠ stderrFileno) :
    (logReopen w.kernel w.logger ret n).1.fd = ret ∧
      (logReopen w.kernel w.logger ret n).2 = kernelOpen (logClose w.kernel w.logger) ret := by
  rw [logReopen, logClose, if_pos h, if_pos h]
  by_cases hneg : ret < 0
  · simp [hneg]
  · simp [hneg]

theorem logOpen_console (w : LogWorld) (level : Int32) (name : List UInt8) (ret : Int32) (n : Int64)
    (h : isConsole name = true) :
    (logOpen w.kernel w.logger level (some name) ret n).2.1.fd = stderrFileno ∧
      (logOpen w.kernel w.logger level (some name) ret n).2.2 = w.kernel := by
  simp [logOpen, h]

theorem logOpen_file (w : LogWorld) (level : Int32) (name : List UInt8) (ret : Int32) (n : Int64)
    (h : isConsole name = false) :
    (logOpen w.kernel w.logger level (some name) ret n).2.1.fd = ret ∧
      (logOpen w.kernel w.logger level (some name) ret n).2.2 = kernelOpen w.kernel ret := by
  by_cases hneg : ret < 0
  · simp [logOpen, h, hneg]
  · simp [logOpen, h, hneg]

/-- Only the field and the descriptors of a world matter. -/
theorem logFollows_congr (w w' : LogWorld) (q : LogPhase) (h : LogFollows w q)
    (hfd : w'.logger.fd = w.logger.fd) (hkernel : w'.kernel = w.kernel) : LogFollows w' q := by
  refine ⟨?_, ?_, ?_⟩
  · rw [hfd, hkernel]
    exact h.fd
  · rw [hkernel]
    exact h.strays
  · rw [hkernel]
    exact h.negative

theorem logOpen_follows (w : LogWorld) (q : LogPhase) (level : Int32) (name : Option (List UInt8))
    (ret : Int32) (n : Int64) (h : LogFollows w q) :
    LogFollows
      ⟨(logOpen w.kernel w.logger level name ret n).2.1,
        (logOpen w.kernel w.logger level name ret n).2.2⟩
      (logNext q (.openLog level name ret n)) := by
  cases name with
  -- With a NULL name log_open fails before it does anything, so the phase stays.
  | none => exact h
  | some name =>
      -- A console name makes the logger use standard error, and there is nothing to open.
      by_cases hconsole : isConsole name = true
      · rcases logOpen_console w level name ret n hconsole with ⟨hfd, hkernel⟩
        have hnext : logNext q (.openLog level (some name) ret n) = .console := if_pos hconsole
        rw [hnext, hkernel]
        exact ⟨hfd, h.strays, h.negative⟩
      -- Any other name is opened, and the phase is what the answer says.
      · have hnext : logNext q (.openLog level (some name) ret n) = openedPhase ret :=
          if_neg hconsole
        rw [Bool.not_eq_true] at hconsole
        rcases logOpen_file w level name ret n hconsole with ⟨hfd, hkernel⟩
        rw [hnext, hkernel]
        exact logFollows_opened w.kernel _ ret hfd h.strays h.negative

theorem logReopen_follows (w : LogWorld) (q : LogPhase) (ret : Int32) (n : Int64)
    (h : LogFollows w q) (hok : q = .console ∨ q = .file) :
    LogFollows ⟨(logReopen w.kernel w.logger ret n).1, (logReopen w.kernel w.logger ret n).2⟩
      (logNext q (.reopen ret n)) := by
  rcases hok with hq | hq
  · -- Standard error stays open.
    rw [hq] at h ⊢
    have hfd : w.logger.fd = stderrFileno := h.fd
    rw [logReopen, if_neg (not_not.mpr hfd)]
    exact h
  -- What was open is given back before the new descriptor is taken.
  · rw [hq] at h ⊢
    rcases logReopen_file w ret n h.fd.2.1 with ⟨hfd, hkernel⟩
    rw [hkernel, logClose_file w h]
    exact logFollows_opened _ _ ret hfd h.strays
      (fun fd hlt => closed_ne _ _ fd FdOwner.logger (h.negative fd hlt))

theorem logClose_follows (w : LogWorld) (q : LogPhase) (h : LogFollows w q)
    (hok : q = .console ∨ q = .file) :
    LogFollows ⟨w.logger, logClose w.kernel w.logger⟩ (logNext q .close) := by
  rcases hok with hq | hq
  -- Standard error is not closed.
  · rw [hq] at h ⊢
    rw [logClose_console w h]
    exact h
  · rw [hq] at h ⊢
    rw [logClose_file w h]
    -- After the close the number in fd is no longer the logger's.
    have hgone : closed w.kernel.table w.logger.fd w.logger.fd ≠ some .logger := by
      rw [closed_self]
      exact (Option.some_ne_none _).symm
    exact ⟨⟨h.fd.1, h.fd.2.1, hgone⟩, h.strays,
      fun fd hlt => closed_ne _ _ fd FdOwner.logger (h.negative fd hlt)⟩

theorem log_follows (w : LogWorld) (q : LogPhase) (n : Int64) (h : LogFollows w q)
    (hok : q ≠ .unopened) :
    LogFollows ⟨(log w.kernel w.logger n).1, (log w.kernel w.logger n).2⟩ q := by
  -- A line goes to fd and leaves fd as it is, so only the kernel is to be looked at.
  rcases log_eq w.kernel w.logger n with ⟨hfd, hkernel⟩
  refine logFollows_congr w _ q h hfd ?_
  have hphase := h.fd
  simp only [hkernel]
  -- With no descriptor there is nothing to write to.
  by_cases hneg : w.logger.fd < 0
  · rw [if_pos hneg]
  · rw [if_neg hneg]
    -- The write goes to a descriptor the logger owns, or to standard error.
    refine kernelWrite_owned _ _ ?_
    cases q with
    | unopened => exact absurd rfl hok
    | console => exact Or.inl hphase
    | file => exact Or.inr hphase.2.2
    | failed => exact absurd hphase hneg

theorem logAct_follows (w w' : LogWorld) (q : LogPhase) (act : LogAct) (h : LogFollows w q)
    (hok : LogPermits q act) (hstep : logAct w act = some w') : LogFollows w' (logNext q act) := by
  -- The automaton takes the same step: each case is the lemma of its own call.
  cases act with
  | openLog level name ret n =>
      rw [logAct, Option.ite_none_right_eq_some, Option.some.injEq] at hstep
      rw [← hstep.2]
      exact logOpen_follows w q level name ret n h
  | reopen ret n =>
      rw [logAct, Option.ite_none_right_eq_some, Option.some.injEq] at hstep
      rw [← hstep.2]
      exact logReopen_follows w q ret n h hok
  | close =>
      rw [logAct, Option.some.injEq] at hstep
      rw [← hstep]
      exact logClose_follows w q h hok
  | log n =>
      rw [logAct, Option.some.injEq] at hstep
      rw [← hstep]
      exact log_follows w q n h hok
  | otherOpen fd =>
      rw [logAct, Option.ite_none_right_eq_some, Option.some.injEq] at hstep
      -- Another part of the program took the number, so it is not the logger's.
      rcases hstep with ⟨hfree, hw⟩
      rw [← hw]
      exact ⟨phaseFd_otherOpen _ _ fd q hfree.2 h.fd, h.strays,
        fun fd' hlt => opened_ne _ _ fd' _ _ (by decide) (h.negative fd' hlt)⟩
  | otherClose fd =>
      rw [logAct, Option.ite_none_right_eq_some, Option.some.injEq] at hstep
      -- Closing a number that is not the logger's leaves the logger's own open.
      rcases hstep with ⟨hother, hw⟩
      rw [← hw]
      exact ⟨phaseFd_otherClose _ _ fd q hother h.fd, h.strays,
        fun fd' hlt => closed_ne _ _ fd' _ (h.negative fd' hlt)⟩

/-- A close in a phase without a log to close. -/
theorem logClose_astray (w : LogWorld) (q : LogPhase) (h : LogFollows w q)
    (hno : ¬ (q = .console ∨ q = .file)) :
    w.logger.fd ≠ stderrFileno ∧ (logClose w.kernel w.logger).strays ≠ [] := by
  have hphase := h.fd
  have hfd : w.logger.fd ≠ stderrFileno ∧ w.kernel.table w.logger.fd ≠ some .logger := by
    cases q with
    | unopened => exact ⟨hphase.2.1, hphase.2.2⟩
    | failed => exact ⟨fun hc => stderr_nonneg (hc ▸ hphase), h.negative _ hphase⟩
    | console => exact absurd (Or.inl rfl) hno
    | file => exact absurd (Or.inr rfl) hno
  refine ⟨hfd.1, ?_⟩
  rw [logClose, if_pos hfd.1]
  exact kernelClose_stray _ _ hfd.2

theorem logAct_astray (w w' : LogWorld) (q : LogPhase) (act : LogAct) (h : LogFollows w q)
    (hno : ¬ LogPermits q act) (hstep : logAct w act = some w') : ¬ LogOwns w' := by
  -- Only three calls are ever forbidden, and each then uses a number that is not the logger's.
  cases act with
  | reopen ret n =>
      rw [logAct, Option.ite_none_right_eq_some, Option.some.injEq] at hstep
      -- A reopen without a file of its own closes a number that is not the logger's.
      rcases logClose_astray w q h hno with ⟨hfd, hstray⟩
      rw [← hstep.2, LogOwns, (logReopen_file w ret n hfd).2]
      exact hstray
  | close =>
      rw [logAct, Option.some.injEq] at hstep
      rw [← hstep]
      exact (logClose_astray w q h hno).2
  | log n =>
      rw [logAct, Option.some.injEq] at hstep
      -- With no log open the number in fd is not the logger's, and the line goes there.
      have hq : q = .unopened := not_not.mp hno
      rw [hq] at h
      rcases h.fd with ⟨hpos, hstderr, hother⟩
      rw [← hstep, LogOwns]
      simp only [(log_eq w.kernel w.logger n).2, if_neg (Int32.not_lt.mpr hpos)]
      exact kernelWrite_stray _ _ (fun hc => hc.elim hstderr hother)
  | _ => exact absurd trivial hno

theorem logWorld_follows (table : Table FdOwner) (hclean : ∀ fd, table fd ≠ some .logger) :
    LogFollows (logWorld table) .unopened := by
  have hzero : (0 : Int32) ≤ 0 ∧ (0 : Int32) ≠ stderrFileno := by decide
  exact ⟨⟨hzero.1, hzero.2, hclean 0⟩, rfl, fun fd _ => hclean fd⟩

/-- From program start, the logger owns every descriptor it uses in every
    state of a run just in case every call of the run is permitted. -/
theorem log_owns_iff (table : Table FdOwner) (hclean : ∀ fd, table fd ≠ some .logger)
    (acts : List LogAct) (w : LogWorld)
    (hrun : Machine.steps logAct (logWorld table) acts = some w) :
    Machine.Throughout logAct LogOwns (logWorld table) acts ↔
      Machine.Orderly logNext LogPermits .unopened acts :=
  Machine.throughout_iff_orderly logAct logNext LogPermits LogFollows LogOwns
    (fun _ _ h => h.strays) (fun u q i u' h hok => logAct_follows u u' q i h hok)
    (fun u q i u' h hno => logAct_astray u u' q i h hno) acts _ w .unopened
    (logWorld_follows table hclean) hrun

/-- The three standard descriptors. -/
def standardFds : Table FdOwner := fun fd => if 0 ≤ fd ∧ fd ≤ 2 then some .other else none

theorem standardFds_clean (fd : Int32) : standardFds fd ≠ some .logger := by
  unfold standardFds
  split
  · decide
  · exact (Option.some_ne_none _).symm

/-- The log is opened at 3 and closed, the rest of the program gets the 3, and
    the log is opened again. -/
def reusedNumber : List LogAct :=
  [.openLog 7 (some [97]) 3 0, .log 10, .close, .otherOpen 3, .openLog 7 (some [97]) (-1) 30,
    .log 10, .openLog 7 (some [97]) 4 0, .log 10, .otherClose 3, .reopen 3 0, .log (-1), .close]

theorem log_reused_number :
    ∃ w, Machine.steps logAct (logWorld standardFds) reusedNumber = some w ∧
      Machine.Throughout logAct LogOwns (logWorld standardFds) reusedNumber ∧
      w.logger.nerror = 1 :=
  ⟨_, rfl, (log_owns_iff standardFds standardFds_clean reusedNumber _ rfl).mpr (by decide), rfl⟩

/-- The first line is logged before `log_open` and goes to descriptor 0; a
    second `log_close` closes what is now somebody else's; and a `log_close`
    after a failed `open` closes -1. -/
theorem log_before_open :
    (∃ w, Machine.steps logAct (logWorld standardFds) [.log 10] = some w ∧
      w.kernel.strays = [.write 0]) ∧
    (∃ w, Machine.steps logAct (logWorld standardFds)
        [.openLog 7 (some [97]) 3 0, .close, .otherOpen 3, .close] = some w ∧
      w.kernel.strays = [.close 3] ∧ w.kernel.table 3 = none) ∧
    (∃ w, Machine.steps logAct (logWorld standardFds)
        [.openLog 7 (some [97]) (-1) 30, .close] = some w ∧ w.kernel.strays = [.close (-1)]) ∧
    ¬ Machine.Throughout logAct LogOwns (logWorld standardFds) [.log 10] := by
  refine ⟨⟨_, rfl, rfl⟩, ⟨_, rfl, rfl, rfl⟩, ⟨_, rfl, rfl⟩, fun hall => ?_⟩
  exact absurd (hall _ _ (List.prefix_refl _) rfl) (List.cons_ne_nil _ _)

end Aircmn
