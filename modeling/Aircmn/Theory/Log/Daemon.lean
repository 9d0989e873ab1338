import Aircmn.Core.Daemon
import Aircmn.Theory.Log.Owner

/-!
# A Log That Outlives the Detaching

`daemon_init` puts `/dev/null` in the place of the standard descriptors and logs
its own errors. A program that starts with the three open and leaves them open
never gets one of their numbers for its log, so the log survives any number of
`daemon_init` calls, whichever of them fail and at whatever point. No descriptor
for `/dev/null` is left over, and the standard descriptors are replaced together
or not at all.

The one thing to see to is that `daemon_init` may log. Where the log has been
closed after it was opened with a level that lets errors through, an error of
`fork` or `setsid` is written to a number that is not the logger's any more. A
monitor that knows the phase of the log and whether errors are logged is exact.

A log with the number of a standard descriptor is taken away, which is what
happens to a program that was started without one.

## Main definitions

* `DaemonKept`: The log, and the standard descriptors.
* `daemonNext`, `DaemonPermits`: The monitor.
* `DaemonFollows`: How the monitor stands to the process.
* `daemonRun`: A short run.

## Theorems

* `nullDup2_all`, `daemonDetach_fds`, `daemonDetach_log`: What replacing the
  descriptors leaves.
* `logAct_standard`, `logAct_loud`: What the calls of the logger leave.
* `daemonError_follows`, `daemonInit_follows`, `daemonAct_follows`: A permitted
  call keeps everything.
* `daemonError_astray`, `daemonInit_astray`, `daemonAct_astray`: No other does.
* `daemon_keeps_log_iff`, `daemon_keeps_log_iff_run`: Every run.
-/

namespace Aircmn

open Descriptors

/-- The logger has made no stray call, the standard descriptors are open, they
    refer to `/dev/null` together, and no other descriptor does. -/
structure DaemonKept (p : DaemonProc) : Prop where
  owns : LogOwns p.log
  standard : ∀ fd ∈ stdFilenos, p.log.kernel.table fd = some .other
  null : ∀ fd, p.null fd = true → fd ∈ stdFilenos
  alike : p.null 0 = p.null 1 ∧ p.null 1 = p.null 2

/-- Whether errors are logged after a call. -/
def loudNext (loud : Bool) : LogAct → Bool
  | .openLog level (some _) _ _ => !decide (max logEmerg (min level logVerbose) < logErr)
  | _ => loud

/-- The phase of the log, and whether errors are logged. -/
def daemonNext (q : LogPhase × Bool) : DaemonAct → LogPhase × Bool
  | .log act => (logNext q.1 act, loudNext q.2 act)
  | .init _ _ _ => q

/-- A `daemon_init` does not fail at `fork` or `setsid` while errors are logged
    to what has been closed. -/
def DaemonPermits (q : LogPhase × Bool) : DaemonAct → Prop
  | .log act => LogPermits q.1 act
  | .init _ _ o => (o.fork = -1 ∨ o.setsid = -1) → q.2 = true → q.1 ≠ .unopened

instance daemonPermitsDecidable (q : LogPhase × Bool) :
    (act : DaemonAct) → Decidable (DaemonPermits q act)
  | .log act => inferInstanceAs (Decidable (LogPermits q.1 act))
  | .init _ _ o => inferInstanceAs
      (Decidable ((o.fork = -1 ∨ o.setsid = -1) → q.2 = true → q.1 ≠ .unopened))

/-- The monitor knows the logger, and the process keeps its descriptors. -/
structure DaemonFollows (p : DaemonProc) (q : LogPhase × Bool) : Prop where
  log : LogFollows p.log q.1
  loud : q.2 = logLoggable p.log.logger logErr
  standard : ∀ fd ∈ stdFilenos, p.log.kernel.table fd = some .other
  null : ∀ fd, p.null fd = true → fd ∈ stdFilenos
  alike : p.null 0 = p.null 1 ∧ p.null 1 = p.null 2

theorem mem_stdFilenos (fd : Int32) : fd ∈ stdFilenos ↔ fd = 0 ∨ fd = 1 ∨ fd = 2 := by
  simp only [stdFilenos, List.mem_cons, List.not_mem_nil, or_false]

theorem stdFilenos_mem (fd : Int32) (hpos : 0 ≤ fd) (hle : ¬ stderrFileno < fd) :
    fd ∈ stdFilenos := by
  have hlow : (0 : Int32).toInt ≤ fd.toInt := Int32.le_iff_toInt_le.mp hpos
  have hhigh : fd.toInt ≤ stderrFileno.toInt := Int32.le_iff_toInt_le.mp (Int32.not_lt.mp hle)
  have hcases : fd.toInt = (0 : Int32).toInt ∨ fd.toInt = (1 : Int32).toInt
      ∨ fd.toInt = (2 : Int32).toInt := by
    have hzero : (0 : Int32).toInt = 0 := rfl
    have hone : (1 : Int32).toInt = 1 := rfl
    have htwo : (2 : Int32).toInt = 2 := rfl
    have hstderr : stderrFileno.toInt = 2 := rfl
    omega
  rw [mem_stdFilenos]
  exact hcases.imp Int32.toInt_inj.mp (Or.imp Int32.toInt_inj.mp Int32.toInt_inj.mp)

/-- All numbers in a list become copies of one descriptor for `/dev/null`. -/
theorem nullDup2_all (fd : Int32) : ∀ (l : List Int32) (p : DaemonProc),
    p.log.kernel.table fd = some .other → p.null fd = true →
    l.foldl (fun p newfd => nullDup2 p fd newfd) p = p.setFds
      (fun x => if x ∈ l then some .other else p.log.kernel.table x)
      (fun x => decide (x ∈ l) || p.null x) := by
  intro l
  induction l with
  | nil =>
      intro p _ _
      simp only [List.foldl_nil, List.not_mem_nil, if_false, decide_false, Bool.false_or]
      rfl
  | cons y l ih =>
      intro p hopen hnull
      -- The first copy leaves the descriptor that is copied as it is.
      have hopen' : (nullDup2 p fd y).log.kernel.table fd = some .other := by
        simp only [nullDup2, DaemonProc.setFds, Function.update_apply, hopen, ite_self]
      have hnull' : (nullDup2 p fd y).null fd = true := by
        simp only [nullDup2, DaemonProc.setFds, Function.update_apply, hnull, ite_self]
      rw [List.foldl_cons, ih _ hopen' hnull']
      simp only [nullDup2, DaemonProc.setFds, hopen, hnull]
      -- The number that has been copied to is one of the list from now on.
      congr 1
      · congr 2
        funext x
        by_cases hx : x = y
        · simp [hx]
        · simp [hx]
      · funext x
        by_cases hx : x = y
        · simp [hx]
        · simp [hx]

/-- The standard descriptors refer to `/dev/null`, and all others are as before. -/
theorem daemonDetach_fds (p : DaemonProc) (fd : Int32) (hpos : 0 ≤ fd)
    (hfree : p.log.kernel.table fd = none) (hnull : p.null fd = false) :
    daemonDetach p fd = p.setFds
      (fun x => if x ∈ stdFilenos then some .other else p.log.kernel.table x)
      (fun x => decide (x ∈ stdFilenos) || p.null x) := by
  -- The three dup2 calls put the open descriptor over each of the standard ones.
  have hopen := opened_self p.log.kernel.table fd FdOwner.other (Int32.not_lt.mpr hpos)
  have hself : Function.update p.null fd true fd = true := Function.update_self _ _ _
  rw [daemonDetach, nullDup2_all fd stdFilenos (nullOpen p fd) hopen hself]
  by_cases hlt : stderrFileno < fd
  · -- The number is none of the three, and is closed again.
    have hfd : fd ∉ stdFilenos := by
      intro hmem
      rcases (mem_stdFilenos fd).mp hmem with rfl | rfl | rfl
      all_goals
        revert hlt
        decide
    simp only [if_pos hlt, nullClose, nullOpen, DaemonProc.setFds]
    congr 1
    · congr 2
      funext x
      by_cases hx : x = fd
      · rw [hx, closed_self, if_neg hfd, hfree]
      · simp only [closed_other _ _ _ hx, opened_other _ _ _ _ hx]
    · funext x
      by_cases hx : x = fd
      · simp [hx, hfd, hnull]
      · simp [hx]
  · -- The number is one of the three, and stays.
    have hfd := stdFilenos_mem fd hpos hlt
    have hne : ∀ x, x ∉ stdFilenos → x ≠ fd := fun x hx hc => hx (hc ▸ hfd)
    simp only [if_neg hlt, nullOpen, DaemonProc.setFds]
    congr 1
    · congr 2
      funext x
      by_cases hx : x ∈ stdFilenos
      · simp only [hx, if_true]
      · simp only [hx, if_false, opened_other _ _ _ _ (hne x hx)]
    · funext x
      by_cases hx : x ∈ stdFilenos
      · simp [hx]
      · simp [hx, hne x hx]

/-- An answer does not touch what is open. -/
theorem kernelOpen_keeps (k : LogKernel) (ret fd : Int32) (hans : Answer k.table ret)
    (h : k.table fd = some .other) : (kernelOpen k ret).table fd = some .other := by
  rcases hans with hneg | hfree
  · simp only [kernelOpen, opened_failed _ _ _ hneg, h]
  · exact opened_keeps k.table ret fd .logger .other hfree h

/-- A permitted call of the logger leaves the descriptors of others open, and so
    does the rest of the program but for what it closes. -/
theorem logAct_standard (w w' : LogWorld) (q : LogPhase) (act : LogAct) (h : LogFollows w q)
    (hok : LogPermits q act) (hstep : logAct w act = some w') (fd : Int32)
    (hfd : w.kernel.table fd = some .other) (hleaves : act ≠ .otherClose fd) :
    w'.kernel.table fd = some .other := by
  -- What the logger closes is its own, and what it opens was nobody's.
  cases act with
  | openLog level name ret n =>
      rw [logAct, Option.ite_none_right_eq_some, Option.some.injEq] at hstep
      rcases hstep with ⟨hans, rfl⟩
      cases name with
      | none => exact hfd
      | some name =>
          by_cases hconsole : isConsole name = true
          · exact (logOpen_console w level name ret n hconsole).2.symm ▸ hfd
          · rw [Bool.not_eq_true] at hconsole
            simp only [(logOpen_file w level name ret n hconsole).2]
            exact kernelOpen_keeps w.kernel ret fd hans hfd
  | reopen ret n =>
      rw [logAct, Option.ite_none_right_eq_some, Option.some.injEq] at hstep
      rcases hstep with ⟨hans, rfl⟩
      rcases hok with rfl | rfl
      · have hstderr : w.logger.fd = stderrFileno := h.fd
        simp only [logReopen, if_neg (not_not.mpr hstderr), hfd]
      · rw [logClose_file w h] at hans
        simp only [(logReopen_file w ret n h.fd.2.1).2, logClose_file w h]
        exact kernelOpen_keeps _ ret fd hans
          (closed_keeps _ fd _ FdOwner.logger .other (by decide) h.fd.2.2 hfd)
  | close =>
      rw [logAct, Option.some.injEq] at hstep
      rw [← hstep]
      rcases hok with rfl | rfl
      · exact (logClose_console w h).symm ▸ hfd
      · simp only [logClose_file w h]
        exact closed_keeps _ fd _ FdOwner.logger .other (by decide) h.fd.2.2 hfd
  | log n =>
      rw [logAct, Option.some.injEq] at hstep
      rw [← hstep]
      simp only [(log_eq w.kernel w.logger n).2]
      split
      · exact hfd
      · unfold kernelWrite
        split
        all_goals exact hfd
  | otherOpen fd' =>
      rw [logAct, Option.ite_none_right_eq_some, Option.some.injEq] at hstep
      rcases hstep with ⟨⟨_, hfree⟩, rfl⟩
      exact opened_keeps _ fd' fd .other .other hfree hfd
  | otherClose fd' =>
      rw [logAct, Option.ite_none_right_eq_some, Option.some.injEq] at hstep
      rcases hstep with ⟨_, rfl⟩
      have hne : fd ≠ fd' := fun hc => hleaves (hc ▸ rfl)
      exact (closed_other _ _ _ hne).trans hfd

theorem logStderr_level (l : Logger) (n : Int64) : (logStderr l n).level = l.level := by
  unfold logStderr
  split
  all_goals rfl

/-- Only `log_open` changes what is logged. -/
theorem logAct_loud (w w' : LogWorld) (act : LogAct) (hstep : logAct w act = some w') :
    logLoggable w'.logger logErr = loudNext (logLoggable w.logger logErr) act := by
  cases act with
  | openLog level name ret n =>
      rw [logAct, Option.ite_none_right_eq_some, Option.some.injEq] at hstep
      rcases hstep with ⟨_, rfl⟩
      cases name with
      | none => rfl
      | some name =>
          -- Only `log_open` with a name sets the level, and an `open` that fails leaves it set.
          simp only [logOpen, loudNext, logLoggable]
          split
          · rfl
          · split
            · rw [logStderr_level]
            · rfl
  | reopen ret n =>
      rw [logAct, Option.ite_none_right_eq_some, Option.some.injEq] at hstep
      rcases hstep with ⟨_, rfl⟩
      -- The other calls leave the level.
      simp only [logReopen, loudNext, logLoggable]
      split
      · split
        · rw [logStderr_level]
        · rfl
      · rfl
  | log n =>
      rw [logAct, Option.some.injEq] at hstep
      rw [← hstep]
      simp only [log, loudNext, logLoggable]
      split
      · rfl
      · split
        all_goals rfl
  | close =>
      cases hstep
      rfl
  | otherOpen fd =>
      rw [logAct, Option.ite_none_right_eq_some, Option.some.injEq] at hstep
      rcases hstep with ⟨_, rfl⟩
      rfl
  | otherClose fd =>
      rw [logAct, Option.ite_none_right_eq_some, Option.some.injEq] at hstep
      rcases hstep with ⟨_, rfl⟩
      rfl

section Calls

variable (p : DaemonProc) (q : LogPhase × Bool) (h : DaemonFollows p q)

include h

/-- Only the logger, the descriptors and `null` of a process matter. -/
theorem daemonFollows_congr (p' : DaemonProc) (hlog : p'.log = p.log) (hnull : p'.null = p.null) :
    DaemonFollows p' q :=
  ⟨hlog ▸ h.log, hlog ▸ h.loud, hlog ▸ h.standard, hnull ▸ h.null, hnull ▸ h.alike⟩

/-- With the standard descriptors open, no other descriptor is touched. -/
theorem daemonDetach_log (fd : Int32) (hpos : 0 ≤ fd) (hfree : p.log.kernel.table fd = none) :
    (daemonDetach p fd).log = p.log ∧
      (daemonDetach p fd).null = fun x => decide (x ∈ stdFilenos) || p.null x := by
  -- The number is free, so it is not one of those for `/dev/null`.
  have hnull : p.null fd = false := by
    refine Bool.eq_false_iff.mpr (fun hc => ?_)
    have hopen := h.standard fd (h.null fd hc)
    exact absurd (hfree.symm.trans hopen) (Option.some_ne_none _).symm
  -- The three are open already and stay so.
  have htable : (fun x => if x ∈ stdFilenos then some .other else p.log.kernel.table x)
      = p.log.kernel.table := by
    funext x
    by_cases hx : x ∈ stdFilenos
    · rw [if_pos hx, h.standard x hx]
    · rw [if_neg hx]
  rw [daemonDetach_fds p fd hpos hfree hnull, htable]
  exact ⟨rfl, rfl⟩

theorem daemonDetach_follows (fd : Int32) (hpos : 0 ≤ fd)
    (hfree : p.log.kernel.table fd = none) : DaemonFollows (daemonDetach p fd) q := by
  rcases daemonDetach_log p q h fd hpos hfree with ⟨hlog, hnull⟩
  -- The log is the same, and the three refer to `/dev/null` together.
  refine ⟨?_, ?_, ?_, fun x hx => ?_, ?_⟩
  · rw [hlog]
    exact h.log
  · rw [hlog]
    exact h.loud
  · rw [hlog]
    exact h.standard
  · rw [hnull, Bool.or_eq_true, decide_eq_true_eq] at hx
    exact hx.elim id (h.null x)
  · rw [hnull]
    exact ⟨rfl, rfl⟩

/-- An error is logged where there is something to log to. -/
theorem daemonError_follows (n : Int64) (hperm : q.2 = true → q.1 ≠ .unopened) :
    DaemonFollows (daemonError p n) q := by
  unfold daemonError
  split
  · rename_i hloud
    have hstep : logAct p.log (.log n) = some _ := rfl
    have hok : LogPermits q.1 (.log n) := hperm (h.loud.trans hloud)
    exact ⟨log_follows p.log q.1 n h.log hok, h.loud.trans (logAct_loud _ _ _ hstep).symm,
      fun fd hfd => logAct_standard _ _ q.1 _ h.log hok hstep fd (h.standard fd hfd)
        LogAct.noConfusion,
      h.null, h.alike⟩
  · exact h

/-- Otherwise it is written to a number that is not the logger's. -/
theorem daemonError_astray (n : Int64) (hloud : q.2 = true) (hq : q.1 = .unopened) :
    ¬ LogOwns (daemonError p n).log := by
  have hloggable : logLoggable p.log.logger logErr = true := h.loud.symm.trans hloud
  have hphase : PhaseFd p.log.kernel.table p.log.logger.fd .unopened := hq ▸ h.log.fd
  rw [daemonError, if_pos hloggable, LogOwns]
  simp only [(log_eq p.log.kernel p.log.logger n).2, if_neg (Int32.not_lt.mpr hphase.1)]
  exact kernelWrite_stray _ _ (fun hc => hc.elim hphase.2.1 hphase.2.2)

theorem daemonInit_follows (isOpen : Bool) (dir : Option (List UInt8)) (o : DaemonCalls)
    (r : Status × DaemonProc) (hperm : DaemonPermits q (.init isOpen dir o))
    (hnull : o.null = -1 ∨ (0 ≤ o.null ∧ p.log.kernel.table o.null = none))
    (hr : daemonInit p isOpen dir o = .ok r) : DaemonFollows r.2 q := by
  unfold daemonInit at hr
  split at hr
  · rename_i hfork
    cases hr
    exact daemonError_follows p q h o.n (hperm (Or.inl hfork))
  · -- The child has the logger and the descriptors of its parent.
    have hchild := daemonFollows_congr p q h
      { p with pid := o.fork, exited := p.exited ++ [p.pid] } rfl rfl
    simp only at hr
    split at hr
    · rename_i hsetsid
      cases hr
      exact daemonError_follows _ q hchild o.n (hperm (Or.inr hsetsid))
    · split at hr
      · -- A `chdir` that fails without a fault has logged nothing.
        split at hr
        · cases hr
        · cases hr
          exact daemonFollows_congr p q h _ rfl rfl
      · cases hr
        dsimp only
        -- Only if that is asked for, and `/dev/null` opens, are the three descriptors replaced.
        split
        · rename_i hopen
          rcases hnull.resolve_left hopen.2 with ⟨hpos, hfree⟩
          refine daemonDetach_follows _ q ?_ o.null hpos hfree
          exact daemonFollows_congr p q h _ rfl rfl
        · exact daemonFollows_congr p q h _ rfl rfl

theorem daemonInit_astray (isOpen : Bool) (dir : Option (List UInt8)) (o : DaemonCalls)
    (r : Status × DaemonProc) (hno : ¬ DaemonPermits q (.init isOpen dir o))
    (hr : daemonInit p isOpen dir o = .ok r) : ¬ LogOwns r.2.log := by
  simp only [DaemonPermits, not_forall, not_not] at hno
  rcases hno with ⟨hfails, hloud, hq⟩
  unfold daemonInit at hr
  split at hr
  · cases hr
    exact daemonError_astray p q h o.n hloud hq
  · rename_i hfork
    have hchild := daemonFollows_congr p q h
      { p with pid := o.fork, exited := p.exited ++ [p.pid] } rfl rfl
    -- The `fork` has succeeded, so it is `setsid` that fails.
    simp only [if_pos (hfails.resolve_left hfork)] at hr
    cases hr
    exact daemonError_astray _ q hchild o.n hloud hq

theorem daemonAct_follows (p' : DaemonProc) (act : DaemonAct) (hok : DaemonPermits q act)
    (hstep : daemonAct p act = some p') : DaemonFollows p' (daemonNext q act) := by
  cases act with
  | log act =>
      rw [daemonAct, Option.ite_none_right_eq_some] at hstep
      rcases hstep with ⟨hleaves, hstep⟩
      rcases Option.map_eq_some_iff.mp hstep with ⟨w, hw, rfl⟩
      -- Neither the logger nor the rest of the program closes one of the three.
      have hstandard : ∀ fd ∈ stdFilenos, w.kernel.table fd = some .other := by
        intro fd hfd
        refine logAct_standard p.log w q.1 act h.log hok hw fd (h.standard fd hfd) ?_
        rintro rfl
        exact hleaves hfd
      have hnull : ∀ fd ∈ stdFilenos,
          (p.null fd && w.kernel.table fd == some .other) = p.null fd := by
        intro fd hfd
        rw [hstandard fd hfd, beq_self_eq_true, Bool.and_true]
      refine ⟨logAct_follows p.log w q.1 act h.log hok hw, ?_, hstandard, fun fd hfd => ?_, ?_⟩
      · rw [logAct_loud p.log w act hw, ← h.loud]
        rfl
      · exact h.null fd (Bool.and_eq_true_iff.mp hfd).1
      · simp only [hnull 0 (by decide), hnull 1 (by decide), hnull 2 (by decide)]
        exact h.alike
  | init isOpen dir o =>
      rw [daemonAct, Option.ite_none_right_eq_some] at hstep
      rcases hstep with ⟨⟨_, hnull⟩, hstep⟩
      split at hstep
      · cases hstep
      · rename_i r hr
        cases hstep
        exact daemonInit_follows p q h isOpen dir o r hok hnull hr

theorem daemonAct_astray (p' : DaemonProc) (act : DaemonAct) (hno : ¬ DaemonPermits q act)
    (hstep : daemonAct p act = some p') : ¬ DaemonKept p' := by
  intro hkept
  cases act with
  | log act =>
      rw [daemonAct, Option.ite_none_right_eq_some] at hstep
      rcases Option.map_eq_some_iff.mp hstep.2 with ⟨w, hw, rfl⟩
      -- A call of the logger that is not permitted goes astray as it does without a daemon.
      exact logAct_astray p.log w q.1 act h.log hno hw hkept.owns
  | init isOpen dir o =>
      rw [daemonAct, Option.ite_none_right_eq_some] at hstep
      rcases hstep with ⟨_, hstep⟩
      split at hstep
      · cases hstep
      · rename_i r hr
        cases hstep
        exact daemonInit_astray p q h isOpen dir o r hno hr hkept.owns

end Calls

theorem daemonProc_follows (table : Table FdOwner) (pid sid : Int32) (cwd : List UInt8)
    (umask : UInt32) (hclean : ∀ fd, table fd ≠ some .logger)
    (hstandard : ∀ fd ∈ stdFilenos, table fd = some .other) :
    DaemonFollows (daemonProc table pid sid cwd umask) (.unopened, false) :=
  ⟨logWorld_follows table hclean, rfl, hstandard, fun _ hfd => absurd hfd Bool.false_ne_true,
    rfl, rfl⟩

/-- From program start with the standard descriptors open, the log, the standard
    descriptors and `/dev/null` are kept in every state of a run just in case
    every call of the run is permitted. -/
theorem daemon_keeps_log_iff (table : Table FdOwner) (pid sid : Int32) (cwd : List UInt8)
    (umask : UInt32) (hclean : ∀ fd, table fd ≠ some .logger)
    (hstandard : ∀ fd ∈ stdFilenos, table fd = some .other) (acts : List DaemonAct)
    (p : DaemonProc)
    (hrun : Machine.steps daemonAct (daemonProc table pid sid cwd umask) acts = some p) :
    Machine.Throughout daemonAct DaemonKept (daemonProc table pid sid cwd umask) acts ↔
      Machine.Orderly daemonNext DaemonPermits (.unopened, false) acts :=
  Machine.throughout_iff_orderly daemonAct daemonNext DaemonPermits DaemonFollows DaemonKept
    (fun _ _ h => ⟨h.log.strays, h.standard, h.null, h.alike⟩)
    (fun p q act p' h hok => daemonAct_follows p q h p' act hok)
    (fun p q act p' h hno => daemonAct_astray p q h p' act hno) acts _ p (.unopened, false)
    (daemonProc_follows table pid sid cwd umask hclean hstandard) hrun

theorem standardFds_open : ∀ fd ∈ stdFilenos, standardFds fd = some .other := by
  intro fd hfd
  rcases (mem_stdFilenos fd).mp hfd with rfl | rfl | rfl
  all_goals rfl

/-- A line is logged after a `daemon_init`, the next one fails at `fork` and logs
    that, and the last one finds the log closed and does not fail. -/
def daemonRun : List DaemonAct :=
  [.log (.openLog 7 (some [97]) 3 0), .init true (some [47]) ⟨100, 100, [], 0, 4, 0⟩,
    .log (.log 10), .init true none ⟨-1, 0, [], 0, 4, 30⟩, .log .close,
    .init false none ⟨101, 101, [47], 0, 3, 0⟩]

theorem daemon_keeps_log_iff_run :
    (Machine.steps daemonAct (daemonProc standardFds 7 7 [47] 18) daemonRun).isSome = true ∧
      Machine.Throughout daemonAct DaemonKept (daemonProc standardFds 7 7 [47] 18) daemonRun := by
  have hsome : (Machine.steps daemonAct (daemonProc standardFds 7 7 [47] 18) daemonRun).isSome
      = true := by decide
  rcases Option.isSome_iff_exists.mp hsome with ⟨p, hp⟩
  exact ⟨hsome, (daemon_keeps_log_iff standardFds 7 7 [47] 18 standardFds_clean standardFds_open
    daemonRun p hp).mpr (by decide)⟩

/-- Started without standard input, the program gets its number for the log and
    loses it, and a line goes to `/dev/null`. -/
example :
    (Machine.steps daemonAct
      (daemonProc (fun fd => if fd = 1 ∨ fd = 2 then some .other else none) 7 7 [47] 18)
      [.log (.openLog 7 (some [97]) 0 0), .init true none ⟨100, 100, [47], 0, 3, 0⟩,
        .log (.log 10)]).map (fun p => (p.log.kernel.strays, p.null 0))
      = some ([.write 0], true) := by
  decide

end Aircmn
