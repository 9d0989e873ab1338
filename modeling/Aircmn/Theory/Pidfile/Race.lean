import Aircmn.Lib.Monitor
import Aircmn.Theory.Pidfile.Create

/-!
# One Owner of a Pid File

Processes that create the same pid file without `is_replace`, system call by
system call. The test that the file is empty and the `write` that fills it are
different calls, so a process may open or write the file when it is no longer
as empty as the test has found it. Then another process has written its pid
and will return `CMN_OK`, or has, and its pid is gone or will be joined by a
second owner. Where that never happens, and no `write` stops early, the first
process that writes is the only one that returns `CMN_OK`.

What goes wrong cannot be made good again (`PidSpoilt`), so once every process
that has written has returned, the condition is exact.

## Main definitions

* `Wrote`: A process returns `CMN_OK`, or has.
* `PidOneOwner`: At most one process has returned `CMN_OK`, and the file holds
  its pid.
* `PidUndisturbed`: The file is still empty when it is opened or written.
* `PidClaimed`, `PidSpoilt`: The invariants of the two kinds of runs.

## Theorems

* `pidCalls_create`: A process alone does what `pidfile_create` does.
* `pidAct_cases`: What a step can do.
* `pidAct_claimed`, `pidAct_disturbed`, `pidAct_spoilt`: The invariants, and
  how the second comes about.
* `pidfile_one_owner_iff`: One owner, while the file stays empty for it.
* `pidfile_two_owners`: Two processes that pass the test together.
-/

namespace Aircmn

open Machine

theorem PidWorld.at_self (w : PidWorld) (pid : Int32) (point : PidPoint) :
    (w.at pid point).points pid = point := Function.update_self _ _ _

theorem PidWorld.at_ne (w : PidWorld) (pid q : Int32) (point : PidPoint) (h : q ≠ pid) :
    (w.at pid point).points q = w.points q := Function.update_of_ne h _ _

theorem PidWorld.at_file (w : PidWorld) (pid : Int32) (point : PidPoint) :
    (w.at pid point).file = w.file := rfl

/-- Where a process has been before does not matter. -/
theorem PidWorld.at_at (w : PidWorld) (pid : Int32) (point point' : PidPoint) :
    (w.at pid point).at pid point' = w.at pid point' := by
  rw [PidWorld.at, PidWorld.at, PidWorld.at, Function.update_idem]

theorem PidWorld.at_write_at (w : PidWorld) (pid : Int32) (point point' : PidPoint)
    (file : Option (List UInt8)) :
    { w.at pid point with file := file }.at pid point' = { w with file := file }.at pid point' :=
  PidWorld.at_at { w with file := file } pid point point'

/-- The system calls of a process that nothing comes between are those of
    `pidfile_create`, up to where it returns. -/
theorem pidCalls_create (isReplace : Bool) (w : PidWorld) (pid : Int32) (o : PidOutcome)
    (hstart : w.points pid = .start) :
    ∃ as, as <+: [.stat o.statOk, .openFile o.openOk, .write o.write, .close] ∧
      steps (pidAct isReplace) w (as.map (fun a => (pid, a)))
        = some ({ w with file := (pidfileCreate w.file pid isReplace o).2 }.at pid
            (.done (pidfileCreate w.file pid isReplace o).1)) := by
  rcases o with ⟨statOk, openOk, write⟩
  rcases w with ⟨file, points⟩
  have hpoint : points pid = .start := hstart
  -- The calls that pidfile_create makes are found case by case along its own tests.
  cases file with
  | none =>
      refine ⟨[.stat statOk], by simp, ?_⟩
      simp only [List.map_cons, List.map_nil, steps, pidAct, hpoint, Option.bind_some,
        pidfileCreate]
  | some content =>
      cases statOk with
      | false =>
          refine ⟨[.stat false], by simp, ?_⟩
          simp only [List.map_cons, List.map_nil, steps, pidAct, hpoint, Option.bind_some,
            pidfileCreate, if_true]
      | true =>
          -- With a pid in the file and no isReplace it stops at the test and opens nothing.
          by_cases hused : 0 < content.length ∧ isReplace = false
          · refine ⟨[.stat true], by simp, ?_⟩
            simp only [List.map_cons, List.map_nil, steps, pidAct, hpoint, Option.bind_some,
              pidfileCreate, if_pos hused, Bool.true_eq_false, if_false]
          · -- Past the test, only the kernel can stop the process.
            cases openOk with
            | false =>
                refine ⟨[.stat true, .openFile false], by simp, ?_⟩
                simp only [List.map_cons, List.map_nil, steps, pidAct, hpoint, Option.bind_some,
                  pidfileCreate, if_neg hused, Bool.true_eq_false, if_false, PidWorld.at_self,
                  PidWorld.at_at, if_true]
            | true =>
                refine ⟨[.stat true, .openFile true, .write write, .close], List.prefix_refl _, ?_⟩
                -- Whether the write succeeds or not, close is the last call.
                cases write
                all_goals simp only [List.map_cons, List.map_nil, steps, pidAct, hpoint,
                  Option.bind_some, pidfileCreate, if_neg hused, Bool.true_eq_false, if_false,
                  PidWorld.at_self, PidWorld.at_at, PidWorld.at_write_at, PidWorld.at_file,
                  Option.map_some]

/-- The process has written, and has returned `CMN_OK` or will. -/
def Wrote (w : PidWorld) (pid : Int32) : Prop :=
  w.points pid = .closing cmnOk ∨ w.points pid = .done cmnOk

/-- At most one process has returned `CMN_OK`, and if one has, the file holds
    its pid. -/
def PidOneOwner (w : PidWorld) : Prop :=
  (∀ p q, w.points p = .done cmnOk → w.points q = .done cmnOk → p = q) ∧
    ∀ p, w.points p = .done cmnOk → w.file = some (pidDecimal p)

/-- A process that opens or writes the file finds it as empty as its test did,
    and what it writes is stored whole. -/
def PidUndisturbed (w : PidWorld) (i : Int32 × PidAct) : Prop :=
  match i.2 with
  | .openFile true => w.file = some []
  | .write (some n) => w.file = some [] ∧ (pidDecimal i.1).length ≤ n
  | _ => True

instance (w : PidWorld) (i : Int32 × PidAct) : Decidable (PidUndisturbed w i) :=
  match i with
  | (_, .openFile true) => inferInstanceAs (Decidable (w.file = some []))
  | (pid, .write (some n)) =>
    inferInstanceAs (Decidable (w.file = some [] ∧ (pidDecimal pid).length ≤ n))
  | (_, .openFile false) => inferInstanceAs (Decidable True)
  | (_, .write none) => inferInstanceAs (Decidable True)
  | (_, .stat _) => inferInstanceAs (Decidable True)
  | (_, .close) => inferInstanceAs (Decidable True)

/-- Nobody has written, or one process has. -/
def PidClaimed (w : PidWorld) : Prop :=
  (w.file = some [] ∧ ∀ p, ¬ Wrote w p) ∨
    ∃ p, Wrote w p ∧ w.file = some (pidDecimal p) ∧ ∀ q, Wrote w q → q = p

/-- Two processes have written, or one has, and its pid is gone. -/
def PidSpoilt (w : PidWorld) : Prop :=
  (∃ p q, p ≠ q ∧ Wrote w p ∧ Wrote w q) ∨ ∃ p, Wrote w p ∧ w.file ≠ some (pidDecimal p)

theorem wrote_at (w : PidWorld) (pid : Int32) (point : PidPoint) (file : Option (List UInt8))
    (h : Wrote w pid ↔ point = .closing cmnOk ∨ point = .done cmnOk) (q : Int32) :
    Wrote ({ w with file := file }.at pid point) q ↔ Wrote w q := by
  by_cases hq : q = pid
  · rw [hq, h, Wrote, PidWorld.at_self]
  · rw [Wrote, PidWorld.at_ne _ _ _ _ hq, Wrote]

/-- A process that is at a point has written or not. -/
theorem wrote_iff (w : PidWorld) (pid : Int32) (point : PidPoint) (h : w.points pid = point) :
    Wrote w pid ↔ point = .closing cmnOk ∨ point = .done cmnOk := by
  rw [Wrote, h]

theorem pidAct_opens (isReplace : Bool) (w w' : PidWorld) (pid : Int32)
    (h : pidAct isReplace w (pid, .openFile true) = some w') :
    w'.file = some [] ∧ ∀ q, Wrote w' q ↔ Wrote w q := by
  cases hpoint : w.points pid
  all_goals simp only [pidAct, hpoint, reduceCtorEq] at h
  case checked =>
    rw [if_neg (by decide), Option.some.injEq] at h
    rw [← h]
    exact ⟨rfl, wrote_at w pid .opened _ ((wrote_iff w pid _ hpoint).trans (by decide))⟩

theorem pidAct_writes (isReplace : Bool) (w w' : PidWorld) (pid : Int32) (n : Nat)
    (h : pidAct isReplace w (pid, .write (some n)) = some w') :
    ¬ Wrote w pid ∧ w'.file = w.file.map (overwrite · (pidText pid) n) ∧
      ∀ q, Wrote w' q ↔ Wrote w q ∨ q = pid := by
  cases hpoint : w.points pid
  -- Only an opened process may write, so any other point contradicts the step.
  all_goals simp only [pidAct, hpoint, reduceCtorEq] at h
  case opened =>
    rw [Option.some.injEq] at h
    -- Before the write it has not written: it was opened, not done.
    have hnot : ¬ Wrote w pid := by
      rw [wrote_iff w pid _ hpoint]
      decide
    -- Every other process keeps its point, and with it whether it has written.
    refine ⟨hnot, by rw [← h]; rfl, fun q => ?_⟩
    rw [← h]
    by_cases hq : q = pid
    · rw [hq, wrote_iff _ pid _ (PidWorld.at_self _ _ _)]
      simp
    · rw [or_iff_left hq, Wrote, PidWorld.at_ne _ _ _ _ hq, Wrote]

/-- Any other call only moves its process on, and not past its `write`. -/
theorem pidAct_quiet (isReplace : Bool) (w w' : PidWorld) (pid : Int32) (a : PidAct)
    (h : pidAct isReplace w (pid, a) = some w') (hopen : a ≠ .openFile true)
    (hwrite : ∀ n, a ≠ .write (some n)) :
    w'.file = w.file ∧ ∀ q, Wrote w' q ↔ Wrote w q := by
  -- A move between two points that agree on having written changes neither the file nor who has
  -- written.
  have hmove : ∀ point point' : PidPoint, w.points pid = point →
      ((point = .closing cmnOk ∨ point = .done cmnOk) ↔
        (point' = .closing cmnOk ∨ point' = .done cmnOk)) →
      some (w.at pid point') = some w' → w'.file = w.file ∧ ∀ q, Wrote w' q ↔ Wrote w q := by
    intro point point' hpoint hsame hw'
    rw [← Option.some.inj hw']
    exact ⟨rfl, wrote_at w pid point' w.file ((wrote_iff w pid point hpoint).trans hsame)⟩
  cases hpoint : w.points pid with
  | start =>
      cases a <;> simp only [pidAct, hpoint, reduceCtorEq] at h
      split at h
      -- The three exits of the first test, then the open.
      · exact hmove _ _ hpoint (by decide) h
      · split at h
        · exact hmove _ _ hpoint (by decide) h
        · split at h
          · exact hmove _ _ hpoint (by decide) h
          · exact hmove _ _ hpoint (by decide) h
  | checked =>
      cases a <;> simp only [pidAct, hpoint, reduceCtorEq] at h
      split at h
      · exact hmove _ _ hpoint (by decide) h
      -- An open that succeeds is the one excluded by hopen.
      · exact absurd (by simpa using ‹¬ _ = false›) hopen
  | opened =>
      cases a <;> simp only [pidAct, hpoint, reduceCtorEq] at h
      case write n =>
        cases n with
        | none => exact hmove _ _ hpoint (by decide) h
        -- As is a write that stores something.
        | some n => exact absurd rfl (hwrite n)
  | closing ret =>
      cases a <;> simp only [pidAct, hpoint, reduceCtorEq] at h
      exact hmove _ _ hpoint (by simp) h
  | done ret =>
      cases a <;> simp only [pidAct, hpoint, reduceCtorEq] at h

theorem pidClaimed_of_same (w w' : PidWorld) (hfile : w'.file = w.file)
    (hwrote : ∀ q, Wrote w' q ↔ Wrote w q) (h : PidClaimed w) : PidClaimed w' := by
  rcases h with ⟨hempty, hnone⟩ | ⟨p, hp, hholds, honly⟩
  · exact Or.inl ⟨hfile.trans hempty, fun q hq => hnone q ((hwrote q).mp hq)⟩
  · exact Or.inr ⟨p, (hwrote p).mpr hp, hfile.trans hholds, fun q hq => honly q ((hwrote q).mp hq)⟩

/-- While the file is empty nobody has written. -/
theorem PidClaimed.unclaimed (w : PidWorld) (h : PidClaimed w) (hempty : w.file = some []) :
    ∀ p, ¬ Wrote w p := by
  rcases h with ⟨_, hnone⟩ | ⟨p, _, hholds, _⟩
  · exact hnone
  · have hnil : pidDecimal p = [] := Option.some.inj (hholds.symm.trans hempty)
    have hpos := (pidDecimal_length p).1
    rw [hnil] at hpos
    exact absurd hpos (Nat.lt_irrefl 0)

theorem pidAct_claimed (w : PidWorld) (i : Int32 × PidAct) (w' : PidWorld) (h : PidClaimed w)
    (hok : PidUndisturbed w i) (hstep : pidAct false w i = some w') : PidClaimed w' := by
  rcases i with ⟨pid, a⟩
  by_cases hopen : a = .openFile true
  · rw [hopen] at hok hstep
    rcases pidAct_opens false w w' pid hstep with ⟨hfile, hwrote⟩
    have hempty : w.file = some [] := hok
    exact pidClaimed_of_same w w' (hfile.trans hempty.symm) hwrote h
  · by_cases hwrite : ∃ n, a = .write (some n)
    · rcases hwrite with ⟨n, hn⟩
      rw [hn] at hok hstep
      rcases pidAct_writes false w w' pid n hstep with ⟨_, hfile, hwrote⟩
      rcases (hok : w.file = some [] ∧ (pidDecimal pid).length ≤ n) with ⟨hempty, hlen⟩
      -- The file was empty, so this is the first process that writes.
      have hnone := h.unclaimed w hempty
      refine Or.inr ⟨pid, (hwrote pid).mpr (Or.inr rfl), ?_, fun q hq => ?_⟩
      · rw [hfile, hempty, Option.map_some, overwrite, pidText_eq, List.take_of_length_le hlen,
          List.drop_nil, List.append_nil]
      · exact ((hwrote q).mp hq).resolve_left (hnone q)
    · rcases pidAct_quiet false w w' pid a hstep hopen (fun n hn => hwrite ⟨n, hn⟩) with
        ⟨hfile, hwrote⟩
      exact pidClaimed_of_same w w' hfile hwrote h

/-- A process that is disturbed spoils the file, or finds that its own pid is
    not stored. -/
theorem pidAct_disturbed (w : PidWorld) (i : Int32 × PidAct) (w' : PidWorld) (h : PidClaimed w)
    (hno : ¬ PidUndisturbed w i) (hstep : pidAct false w i = some w') : PidSpoilt w' := by
  rcases i with ⟨pid, a⟩
  -- The open truncates the file, so it is the only call that can take a pid away.
  by_cases hopen : a = .openFile true
  · rw [hopen] at hno hstep
    rcases pidAct_opens false w w' pid hstep with ⟨hfile, hwrote⟩
    rcases h with ⟨hempty, _⟩ | ⟨p, hp, _, _⟩
    · exact absurd hempty hno
    · -- The pid that was there is gone.
      refine Or.inr ⟨p, (hwrote p).mpr hp, fun heq => ?_⟩
      exact absurd (Option.some.inj (hfile.symm.trans heq)).symm (pidDecimal_ne_nil p)
  · by_cases hwrite : ∃ n, a = .write (some n)
    · rcases hwrite with ⟨n, hn⟩
      rw [hn] at hno hstep
      rcases pidAct_writes false w w' pid n hstep with ⟨hnot, hfile, hwrote⟩
      have hpid : Wrote w' pid := (hwrote pid).mpr (Or.inr rfl)
      rcases h with ⟨hempty, _⟩ | ⟨p, hp, _, _⟩
      · -- A short write, of a process that was alone.
        -- The file held nothing, so a full write would have been undisturbed.
        refine Or.inr ⟨pid, hpid, fun heq => hno ⟨hempty, ?_⟩⟩
        show (pidDecimal pid).length ≤ n
        rw [hfile, hempty, Option.map_some, overwrite, pidText_eq, List.drop_nil,
          List.append_nil] at heq
        have hlen := congrArg List.length (Option.some.inj heq)
        rw [List.length_take] at hlen
        omega
      · -- Somebody else has written, too.
        -- With a pid already there, two processes have now written.
        refine Or.inl ⟨p, pid, fun heq => ?_, (hwrote p).mpr (Or.inl hp), hpid⟩
        rw [heq] at hp
        exact hnot hp
    · -- No other call is ever disturbed.
      refine absurd ?_ hno
      cases a with
      | openFile ok =>
          cases ok with
          | true => exact absurd rfl hopen
          | false => trivial
      | write n =>
          cases n with
          | none => trivial
          | some n => exact absurd ⟨n, rfl⟩ hwrite
      | stat ok => trivial
      | close => trivial

/-- What is spoilt stays so: who has written writes no more, and nobody else
    can bring back its pid without having written, too. -/
theorem pidAct_spoilt (w : PidWorld) (i : Int32 × PidAct) (w' : PidWorld) (h : PidSpoilt w)
    (hstep : pidAct false w i = some w') : PidSpoilt w' := by
  rcases i with ⟨pid, a⟩
  by_cases hwrite : ∃ n, a = .write (some n)
  -- A write gives a second owner: one that wrote before and the one that writes now.
  · rcases hwrite with ⟨n, hn⟩
    rw [hn] at hstep
    rcases pidAct_writes false w w' pid n hstep with ⟨hnot, _, hwrote⟩
    have hpid : Wrote w' pid := (hwrote pid).mpr (Or.inr rfl)
    rcases h with ⟨p, q, hne, hp, hq⟩ | ⟨p, hp, _⟩
    · exact Or.inl ⟨p, q, hne, (hwrote p).mpr (Or.inl hp), (hwrote q).mpr (Or.inl hq)⟩
    · refine Or.inl ⟨p, pid, fun heq => ?_, (hwrote p).mpr (Or.inl hp), hpid⟩
      rw [heq] at hp
      exact hnot hp
  -- Any other step leaves who wrote as it was, and the file unchanged or empty.
  · have hsame : (∀ q, Wrote w' q ↔ Wrote w q) ∧ (w'.file = w.file ∨ w'.file = some []) := by
      by_cases hopen : a = .openFile true
      · rw [hopen] at hstep
        rcases pidAct_opens false w w' pid hstep with ⟨hfile, hwrote⟩
        exact ⟨hwrote, Or.inr hfile⟩
      · rcases pidAct_quiet false w w' pid a hstep hopen (fun n hn => hwrite ⟨n, hn⟩) with
          ⟨hfile, hwrote⟩
        exact ⟨hwrote, Or.inl hfile⟩
    rcases hsame with ⟨hwrote, hfile⟩
    rcases h with ⟨p, q, hne, hp, hq⟩ | ⟨p, hp, hgone⟩
    · exact Or.inl ⟨p, q, hne, (hwrote p).mpr hp, (hwrote q).mpr hq⟩
    · refine Or.inr ⟨p, (hwrote p).mpr hp, ?_⟩
      rcases hfile with hfile | hfile
      · rw [hfile]
        exact hgone
      -- A file that is empty holds no pid, so the one that wrote has lost its own.
      · exact fun heq => absurd (Option.some.inj (hfile.symm.trans heq)).symm (pidDecimal_ne_nil p)

theorem oneOwner_of_claimed (w : PidWorld) (h : PidClaimed w) : PidOneOwner w := by
  rcases h with ⟨_, hnone⟩ | ⟨p, _, hholds, honly⟩
  · exact ⟨fun p _ hp _ => absurd (Or.inr hp) (hnone p), fun p hp => absurd (Or.inr hp) (hnone p)⟩
  · refine ⟨fun q r hq hr => ?_, fun q hq => ?_⟩
    · exact (honly q (Or.inr hq)).trans (honly r (Or.inr hr)).symm
    · rw [honly q (Or.inr hq)]
      exact hholds

theorem not_oneOwner_of_spoilt (w : PidWorld) (hreturned : ∀ p, w.points p ≠ .closing cmnOk)
    (h : PidSpoilt w) : ¬ PidOneOwner w := by
  have hdone : ∀ p, Wrote w p → w.points p = .done cmnOk :=
    fun p hp => hp.resolve_left (hreturned p)
  rintro ⟨hone, hholds⟩
  rcases h with ⟨p, q, hne, hp, hq⟩ | ⟨p, hp, hgone⟩
  · exact hne (hone p q (hdone p hp) (hdone q hq))
  · exact hgone (hholds p (hdone p hp))

/-- A pid file has one owner while every process that opens or writes it finds
    it empty and stores its whole pid; and once the processes that have
    written have returned, it has had one owner only then. -/
theorem pidfile_one_owner_iff (is : List (Int32 × PidAct)) (w : PidWorld)
    (hrun : steps (pidAct false) (pidWorld (some [])) is = some w) :
    (AlongSteps (pidAct false) PidUndisturbed (pidWorld (some [])) is →
      Throughout (pidAct false) PidOneOwner (pidWorld (some [])) is) ∧
    ((∀ p, w.points p ≠ .closing cmnOk) →
      (Throughout (pidAct false) PidOneOwner (pidWorld (some [])) is ↔
        AlongSteps (pidAct false) PidUndisturbed (pidWorld (some [])) is)) := by
  -- At the start nobody has written and the file is empty, so PidClaimed holds.
  have hstart : PidClaimed (pidWorld (some [])) := by
    refine Or.inl ⟨rfl, fun p => ?_⟩
    rw [wrote_iff _ p .start rfl]
    decide
  -- Undisturbed steps keep PidClaimed, under which there is at most one owner.
  have henough := throughout_of_along (pidAct false) PidUndisturbed PidClaimed PidOneOwner
    oneOwner_of_claimed pidAct_claimed is (pidWorld (some [])) hstart
  -- Conversely, a step that disturbs leaves a state that no later step repairs.
  refine ⟨henough, fun hreturned => ⟨fun h => ?_, henough⟩⟩
  refine along_of_final (pidAct false) PidUndisturbed PidClaimed PidSpoilt pidAct_claimed
    pidAct_disturbed pidAct_spoilt is (pidWorld (some [])) w hstart hrun (fun hspoilt => ?_)
  -- Nobody is in the middle of closing at the end, so the spoilt state is seen as it stands.
  exact not_oneOwner_of_spoilt w hreturned hspoilt (h is w (List.prefix_refl is) hrun)

/-- A process that fails to open the file, and one that succeeds. -/
theorem pidfile_second_claims :
    ∃ w, steps (pidAct false) (pidWorld (some []))
        [(7, .stat true), (7, .openFile false), (12, .stat true), (12, .openFile true),
          (12, .write (some 2)), (12, .close), (9, .stat true)] = some w ∧
      Throughout (pidAct false) PidOneOwner (pidWorld (some []))
        [(7, .stat true), (7, .openFile false), (12, .stat true), (12, .openFile true),
          (12, .write (some 2)), (12, .close), (9, .stat true)] := by
  exact ⟨_, rfl, (pidfile_one_owner_iff _ _ rfl).1 (by decide)⟩

/-- Two processes that pass the test before either has written both return
    `CMN_OK`, and the pid in the file is that of the last. -/
theorem pidfile_two_owners :
    ∃ w, steps (pidAct false) (pidWorld (some []))
        [(1, .stat true), (2, .stat true), (1, .openFile true), (1, .write (some 1)), (1, .close),
          (2, .openFile true), (2, .write (some 1)), (2, .close)] = some w ∧
      w.points 1 = .done cmnOk ∧ w.points 2 = .done cmnOk ∧ w.file = some [50] ∧
      ¬ PidOneOwner w := by
  refine ⟨_, rfl, by decide, by decide, by decide, fun h => ?_⟩
  exact absurd (h.1 1 2 (by decide) (by decide)) (by decide)

end Aircmn
