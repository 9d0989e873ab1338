import Aircmn.Core.Pidfile

/-!
# Creating a Pid File

What a call of `pidfile_create` should do, all or nothing, and exactly when it
does. The function has three ways to miss. It asks `stat` first and gives up
when that fails, so it never creates a file, although its `open` would. Its
`open` empties the file, so a `write` that fails has already lost the content
that `is_replace` was to replace. And it does not compare what `write` returns
with the length of the pid, so a `write` that stops early passes for a success.

A pid has at most eleven characters, which is why nothing goes wrong in
printing it.

## Main definitions

* `PidFree`, `PidFull`: The path may be claimed, and the system calls succeed
  in full.
* `PidAllOrNothing`: What a call should do.
* `PidMeets`: When it does.

## Theorems

* `pidText_eq`: What is written is the pid in decimal.
* `pidfileCreate_absent`, `pidfileCreate_refuses`, `pidfileCreate_claims`: The
  three ways through the function.
* `allOrNothing_refused`: When refusing is right.
* `pidfile_create_all_or_nothing_iff`: The condition is exact.
* `pidfileCreate_removed`: Nothing can be created after `pidfile_remove`.
* `pidfile_create_misses`: The three ways to miss.
-/

namespace Aircmn

open Bytes Printer

theorem pidDecimal_length (pid : Int32) :
    0 < (pidDecimal pid).length ∧ (pidDecimal pid).length ≤ 11 := by
  have hlt := Int32.toInt_lt pid
  have hge := Int32.le_toInt pid
  rcases decimal_length pid.toInt.natAbs 10 (by decide) (by omega) with ⟨hpos, hten⟩
  rw [pidDecimal]
  split
  · rw [List.length_cons]
    omega
  · omega

theorem pidDecimal_ne_nil (pid : Int32) : pidDecimal pid ≠ [] :=
  List.length_pos_iff.mp (pidDecimal_length pid).1

/-- What is written is the pid in decimal. -/
theorem pidText_eq (pid : Int32) : pidText pid = pidDecimal pid := by
  rcases pidDecimal_length pid with ⟨_, hlen⟩
  have hprinted := printed_vsnprintf (fun _ => 0) (fun _ => 0) 0 maxPidnameLen 0 []
    (pidDecimal pid) (printed_nil _ _ _)
  have hall : min (pidDecimal pid).length (maxPidnameLen - 1) = (pidDecimal pid).length :=
    Nat.min_eq_left (by rw [maxPidnameLen]; omega)
  have htext := hprinted.text
  have hanswer := vsnprintf_answer (fun _ => 0) 0 maxPidnameLen (pidDecimal pid) (by omega)
  rw [List.nil_append, hall, List.take_of_length_le (by rw [maxPidnameLen]; omega)] at htext
  rw [pidText, hanswer, Int.toNat_natCast]
  exact htext

/-- Nothing is in the way of a claim. -/
def PidFree (file : Option (List UInt8)) (isReplace : Bool) : Prop :=
  file = none ∨ file = some [] ∨ isReplace = true

/-- Every system call succeeds in full, a `stat` of a name that nothing has
    apart. -/
def PidFull (file : Option (List UInt8)) (pid : Int32) (o : PidOutcome) : Prop :=
  (file ≠ none → o.statOk = true) ∧ o.openOk = true ∧
    ∃ n, o.write = some n ∧ (pidDecimal pid).length ≤ n

/-- What a call with answer `r` should have done. -/
def PidAllOrNothing (file : Option (List UInt8)) (pid : Int32) (isReplace : Bool) (o : PidOutcome)
    (r : Status × Option (List UInt8)) : Prop :=
  (r.1 = cmnOk ↔ PidFree file isReplace ∧ PidFull file pid o) ∧
    (r.1 = cmnOk → r.2 = some (pidDecimal pid)) ∧
    (¬ (PidFree file isReplace ∧ PidFull file pid o) → r.1 = cmnError ∧ r.2 = file)

/-- If nothing has the name, the `open` or the `write` would not have gone
    well. If the file is reached and opened, the `write` stores the whole pid,
    or it fails and there was nothing to lose. -/
def PidMeets (file : Option (List UInt8)) (pid : Int32) (isReplace : Bool) (o : PidOutcome) :
    Prop :=
  match file with
  | none => ¬ (o.openOk = true ∧ ∃ n, o.write = some n ∧ (pidDecimal pid).length ≤ n)
  | some content =>
    o.statOk = true → (content = [] ∨ isReplace = true) → o.openOk = true →
      match o.write with
      | none => content = []
      | some n => (pidDecimal pid).length ≤ n

theorem pidfileCreate_absent (pid : Int32) (isReplace : Bool) (o : PidOutcome) :
    pidfileCreate none pid isReplace o = (cmnError, none) := rfl

/-- A file that is not reached, is in use, or is not opened. -/
theorem pidfileCreate_refuses (content : List UInt8) (pid : Int32) (isReplace : Bool)
    (o : PidOutcome)
    (h : ¬ (o.statOk = true ∧ (content = [] ∨ isReplace = true) ∧ o.openOk = true)) :
    pidfileCreate (some content) pid isReplace o = (cmnError, some content) := by
  -- It gets past all three tests only if each of them is met, which h denies.
  simp only [pidfileCreate]
  split
  · rfl
  · split
    · rfl
    · split
      · rfl
      · refine absurd ⟨?_, ?_, ?_⟩ h
        · simpa using ‹¬ o.statOk = false›
        -- An empty file or isReplace lets it through the second test.
        · by_cases hempty : content = []
          · exact Or.inl hempty
          · refine Or.inr ?_
            have hpos : 0 < content.length := List.length_pos_iff.mpr hempty
            simpa [hpos] using ‹¬ (0 < content.length ∧ isReplace = false)›
        · simpa using ‹¬ o.openOk = false›

theorem pidfileCreate_claims (content : List UInt8) (pid : Int32) (isReplace : Bool)
    (o : PidOutcome) (hstat : o.statOk = true) (hfree : content = [] ∨ isReplace = true)
    (hopen : o.openOk = true) :
    pidfileCreate (some content) pid isReplace o
      = match o.write with
        | none => (cmnError, some [])
        | some n => (cmnOk, some ((pidDecimal pid).take n)) := by
  -- Not both tests can hold: the file has content and may not be replaced.
  have hpass : ¬ (0 < content.length ∧ isReplace = false) := by
    rintro ⟨hpos, hreplace⟩
    rcases hfree with hempty | htrue
    · exact absurd (List.length_pos_iff.mp hpos) (not_not.mpr hempty)
    · rw [hreplace] at htrue
      exact Bool.false_ne_true htrue
  -- With every test passed only the outcome of the write is left.
  cases hwrite : o.write
  all_goals simp only [pidfileCreate, hstat, hopen, hwrite, if_neg hpass, Bool.true_eq_false,
    if_false, overwrite, pidText_eq, List.drop_nil, List.append_nil]

/-- To answer `CMN_ERROR` and leave everything alone is right just in case
    something is in the way or fails. -/
theorem allOrNothing_refused (file : Option (List UInt8)) (pid : Int32) (isReplace : Bool)
    (o : PidOutcome) :
    PidAllOrNothing file pid isReplace o (cmnError, file) ↔
      ¬ (PidFree file isReplace ∧ PidFull file pid o) := by
  have hne : cmnError ≠ cmnOk := by decide
  constructor
  · exact fun h hok => hne (h.1.mpr hok)
  · exact fun h => ⟨iff_of_false hne h, fun hok => absurd hok hne, fun _ => ⟨rfl, rfl⟩⟩

/-- A call does what it should just in case the condition holds. -/
theorem pidfile_create_all_or_nothing_iff (file : Option (List UInt8)) (pid : Int32)
    (isReplace : Bool) (o : PidOutcome) :
    PidAllOrNothing file pid isReplace o (pidfileCreate file pid isReplace o) ↔
      PidMeets file pid isReplace o := by
  cases file with
  | none =>
      -- Nothing is in the way, so only a failure would excuse the refusal.
      rw [pidfileCreate_absent, allOrNothing_refused]
      refine not_congr ⟨fun h => h.2.2, fun h => ⟨Or.inl rfl, fun hnone => ?_, h⟩⟩
      exact absurd rfl hnone
  | some content =>
      by_cases hpast : o.statOk = true ∧ (content = [] ∨ isReplace = true) ∧ o.openOk = true
      · -- The file has been emptied, and all depends on the `write`.
        rcases hpast with ⟨hstat, hfree, hopen⟩
        have hmeets : PidMeets (some content) pid isReplace o ↔
            match o.write with
            | none => content = []
            | some n => (pidDecimal pid).length ≤ n :=
          ⟨fun h => h hstat hfree hopen, fun h _ _ _ => h⟩
        rw [pidfileCreate_claims content pid isReplace o hstat hfree hopen, hmeets]
        cases hwrite : o.write with
        | none =>
            have hshort : ¬ (PidFree (some content) isReplace ∧ PidFull (some content) pid o) := by
              rintro ⟨_, _, _, n, hn, _⟩
              exact Option.some_ne_none n (hn.symm.trans hwrite)
            constructor
            · -- What is left is an empty file, and it must be the one found.
              intro h
              exact (Option.some.inj (h.2.2 hshort).2).symm
            · intro hempty
              rw [hempty] at hshort ⊢
              exact (allOrNothing_refused _ _ _ _).mpr hshort
        | some n =>
            constructor
            · intro h
              rcases (h.1.mp rfl).2.2.2 with ⟨n', hn', hlen⟩
              rwa [← Option.some.inj (hn'.symm.trans hwrite)]
            · intro hlen
              have hfree' : PidFree (some content) isReplace :=
                Or.inr (hfree.imp_left (congrArg some))
              have hok : PidFree (some content) isReplace ∧ PidFull (some content) pid o :=
                ⟨hfree', fun _ => hstat, hopen, n, hwrite, hlen⟩
              exact ⟨iff_of_true rfl hok, fun _ => congrArg some (List.take_of_length_le hlen),
                fun h => absurd hok h⟩
      · rw [pidfileCreate_refuses content pid isReplace o hpast, allOrNothing_refused]
        refine iff_of_true (fun h => hpast ?_) (fun hstat hfree hopen => ?_)
        · have hfree : content = [] ∨ isReplace = true :=
            (h.1.resolve_left (Option.some_ne_none content)).imp_left Option.some.inj
          exact ⟨h.2.1 (Option.some_ne_none content), hfree, h.2.2.1⟩
        · exact absurd ⟨hstat, hfree, hopen⟩ hpast

/-- After a successful `pidfile_remove` no call can create the file. -/
theorem pidfileCreate_removed (file : Option (List UInt8)) (pid : Int32) (isReplace : Bool)
    (o : PidOutcome) :
    pidfileCreate (pidfileRemove file true) pid isReplace o = (cmnError, none) := rfl

/-- A pid file is not created where there is none, a file that is to be
    replaced is lost when the disk is full, and half a pid passes for one. -/
theorem pidfile_create_misses :
    ¬ PidAllOrNothing none 12 false ⟨false, true, some 2⟩
      (pidfileCreate none 12 false ⟨false, true, some 2⟩) ∧
    ¬ PidAllOrNothing (some [55]) 12 true ⟨true, true, none⟩
      (pidfileCreate (some [55]) 12 true ⟨true, true, none⟩) ∧
    pidfileCreate (some [55]) 12 true ⟨true, true, none⟩ = (cmnError, some []) ∧
    ¬ PidAllOrNothing (some []) 12 false ⟨true, true, some 1⟩
      (pidfileCreate (some []) 12 false ⟨true, true, some 1⟩) ∧
    pidfileCreate (some []) 12 false ⟨true, true, some 1⟩ = (cmnOk, some [49]) := by
  -- Each failing input is checked by evaluation.
  refine ⟨fun h => ?_, fun h => ?_, by decide, fun h => ?_, by decide⟩
  · have hok := h.1.mpr ⟨Or.inl rfl, fun hnone => absurd rfl hnone, rfl, 2, rfl, by decide⟩
    exact absurd hok (by decide)
  -- A write that fails should have left the old pid, but the open has truncated it.
  · have hnot : ¬ (PidFree (some [55]) true ∧ PidFull (some [55]) 12 ⟨true, true, none⟩) := by
      rintro ⟨_, _, _, n, hn, _⟩
      exact Option.some_ne_none n hn.symm
    exact absurd (h.2.2 hnot).2 (by decide)
  · exact absurd (h.2.1 (by decide)) (by decide)

end Aircmn
