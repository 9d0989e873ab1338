import Aircmn.Core.Journal
import Aircmn.Theory.Log.Line

/-!
# The Log Reads Back

A program logs messages and changes the level. As long as every write takes the
whole line and no text has a newline in it, the file of the log has one line for
each message that the level lets through, for each `loga`, and for each change of
the level, in order, and nothing else. A line is as much of head and message as
fits 511 bytes, so `fgets` with a buffer of more than 512 bytes reads the lines
one by one, whatever has been cut off.

The level stays in its table, where `log_level_up` and `log_level_down` stop at
the ends. A higher level lets more through: if the level is only ever set, a
program that starts with a higher level logs every line that it logs with a lower
one, in the same order. A step up or down is another matter, because what it logs
depends on the level it finds.

`metric_log_all` sends a table to the log, a title and a row for each metric. As
long as the names fit their column, the table is read back from the log.

## Main definitions

* `JournalAct.line`, `JournalAct.next`: The line of a call, and the level after it.
* `JournalAct.answer`, `JournalAct.OneLine`: What its write does, and texts without
  a newline.
* `journalFile`, `journalLines`: What a program logs.
* `emptyLog`, `smallLog`, `climbingLog`: Programs that log.
* `column`, `readRow`, `MetricFits`: A row of the table of metrics, and metrics that
  fit it.

## Theorems

* `journalLog_logger`: How `_log` is that of the other model.
* `journalLog_file`, `journalAct_file`, `journal_run`: What a message, a call and a
  program send to the file.
* `journalLines_short`, `journalLines_noNewline`, `journalFile_lines`: The lines.
* `levelNext_within`, `journalLines_sublist`: The level.
* `metricRow_eq`, `readRow_columns`, `metricRow_fits`: A row of the table.
* `log_reads_back`: One line for each call.
* `log_quiet_within`: A quieter log is part of a louder one.
* `metric_table_reads_back`: The table of metrics.
-/

namespace Aircmn

open Bytes CString Format

/-- What formatting makes of a call, if it logs at all, before it is cut off. -/
def JournalAct.line (level : Int32) : JournalAct → Option (List UInt8)
  | .message kind place text _ =>
    if level < kind.level then none
    else some ((if kind.isHead then logHead place kind.level else []) ++ text)
  | .always text _ => some text
  | .levelUp _ =>
    if level < logVerbose then some (upText ++ decimalInt (level + 1).toInt) else none
  | .levelDown _ =>
    if logEmerg < level then some (downText ++ decimalInt (level - 1).toInt) else none
  | .levelSet level' _ => some (setText ++ decimalInt (max logEmerg (min level' logVerbose)).toInt)

/-- The level after a call. -/
def JournalAct.next (level : Int32) : JournalAct → Int32
  | .message _ _ _ _ => level
  | .always _ _ => level
  | .levelUp _ => if level < logVerbose then level + 1 else level
  | .levelDown _ => if logEmerg < level then level - 1 else level
  | .levelSet level' _ => max logEmerg (min level' logVerbose)

/-- What `write` answers if the call logs. -/
def JournalAct.answer : JournalAct → WriteAnswer
  | .message _ _ _ a => a
  | .always _ a => a
  | .levelUp a => a
  | .levelDown a => a
  | .levelSet _ a => a

/-- The level is moved from where it is. -/
def JournalAct.moves : JournalAct → Bool
  | .levelUp _ => true
  | .levelDown _ => true
  | _ => false

/-- A text without a newline, of a length that formatting can return. -/
def OneLine (text : List UInt8) : Prop := 10 ∉ text ∧ text.length < 2 ^ 30

/-- The texts of a call are without a newline. -/
def JournalAct.OneLine : JournalAct → Prop
  | .message _ place text _ => Aircmn.OneLine place ∧ Aircmn.OneLine text
  | .always text _ => Aircmn.OneLine text
  | _ => True

instance (text : List UInt8) : Decidable (OneLine text) := inferInstanceAs (Decidable (_ ∧ _))

instance : (act : JournalAct) → Decidable act.OneLine
  | .message _ place text _ =>
      inferInstanceAs (Decidable (Aircmn.OneLine place ∧ Aircmn.OneLine text))
  | .always text _ => inferInstanceAs (Decidable (Aircmn.OneLine text))
  | .levelUp _ => inferInstanceAs (Decidable True)
  | .levelDown _ => inferInstanceAs (Decidable True)
  | .levelSet _ _ => inferInstanceAs (Decidable True)

/-- The bytes of a text that have room in the buffer of `_log`. -/
def cutLine (text : List UInt8) : List UInt8 := text.take (logMaxLen - 1)

/-- What a program sends to the file. -/
def journalFile : Int32 → List JournalAct → List UInt8
  | _, [] => []
  | level, act :: acts =>
    ((act.line level).toList.map (fun t => act.answer.taken (cutLine t ++ [10]))).flatten
      ++ journalFile (act.next level) acts

/-- The lines of a program, without their newlines. -/
def journalLines : Int32 → List JournalAct → List (List UInt8)
  | _, [] => []
  | level, act :: acts => (act.line level).toList.map cutLine ++ journalLines (act.next level) acts

section Steps

variable (buf : Nat) (w : Journal)

/-- The logger of a `_log` is that of `log`, for a write that fails or does not. -/
theorem journalLog_logger (k : LogKernel) (head : Option (List UInt8)) (text : List UInt8)
    (a : WriteAnswer) : (journalLog buf w head text a).logger
      = (log k w.logger (if a = .failed then -1 else 0)).1 := by
  rw [journalLog, log]
  by_cases hfd : w.logger.fd < 0
  · rw [if_pos hfd, if_pos hfd]
  · rw [if_neg hfd, if_neg hfd]
    by_cases ha : a = .failed
    · simp only [ha, if_true]
      rw [if_pos (by decide)]
    · simp only [ha, if_false]
      rw [if_neg (by decide)]

/-- The logger writes to a descriptor. -/
theorem journalLog_file (head : Option (List UInt8)) (text : List UInt8) (a : WriteAnswer)
    (hfd : ¬ w.logger.fd < 0) (hhead : ∀ t ∈ head, t.length < 2 ^ 31)
    (htext : text.length < 2 ^ 31) :
    (journalLog buf w head text a).file = w.file ++ a.taken (cutLine (head.getD [] ++ text) ++ [10])
      ∧ (journalLog buf w head text a).logger.fd = w.logger.fd
      ∧ (journalLog buf w head text a).logger.level = w.logger.level := by
  -- The buffer holds head and text up to its size, and then the newline.
  have hline := (logLine_written w.mem buf head text hhead htext).line
  rw [journalLog, if_neg hfd]
  refine ⟨?_, ?_, ?_⟩
  · simp only [hline, cutLine]
  -- Of the logger only the count of failed writes can differ.
  · simp only
    split <;> rfl
  · simp only
    split <;> rfl

/-- A change of the level is logged as a number of few digits. -/
theorem levelText_length (what : List UInt8) (hwhat : what.length ≤ 18) (level : Int32) :
    (what ++ decimalInt level.toInt).length < 2 ^ 31 := by
  have hlo := Int32.le_toInt level
  have hhi := Int32.toInt_lt level
  have hdigits := decimalInt_length level.toInt 10 (by decide) (by omega)
  rw [List.length_append]
  omega

theorem logHead_length (place : List UInt8) (kind : LogKind) :
    (logHead place kind.level).length = place.length + 4 := by
  have hname : ((logLevel2str kind.level).getD []).length = 1 := by
    cases kind <;> rfl
  simp only [logHead, List.length_append, List.length_singleton, hname]
  omega

/-- A call that writes nothing and one that writes a line. -/
theorem journalAct_file (act : JournalAct) (hfd : ¬ w.logger.fd < 0) (hact : act.OneLine) :
    (journalAct buf w act).file = w.file ++
        ((act.line w.logger.level).toList.map
          (fun t => act.answer.taken (cutLine t ++ [10]))).flatten
      ∧ (journalAct buf w act).logger.fd = w.logger.fd
      ∧ (journalAct buf w act).logger.level = act.next w.logger.level := by
  -- A call that logs nothing, and a call that logs the new level.
  have hsilent : w.file = w.file ++ (([] : List (List UInt8)).flatten) := by
    rw [List.flatten_nil, List.append_nil]
  have hlevel : ∀ (level : Int32) (what : List UInt8) (a : WriteAnswer), what.length ≤ 18 →
      (journalLevel buf w level what a).file
          = w.file ++ ([a.taken (cutLine (what ++ decimalInt level.toInt) ++ [10])]).flatten
        ∧ (journalLevel buf w level what a).logger.fd = w.logger.fd
        ∧ (journalLevel buf w level what a).logger.level = level := by
    intro level what a hwhat
    have hlog := journalLog_file buf { w with logger := { w.logger with level := level } } none _ a
      hfd (fun t ht => nomatch ht) (levelText_length what hwhat level)
    rw [List.flatten_singleton]
    exact hlog
  cases act with
  | message kind place text a =>
      rcases hact with ⟨hplace, htext⟩
      by_cases hquiet : w.logger.level < kind.level
      · simp only [journalAct, logLoggable, JournalAct.line, JournalAct.next, hquiet, decide_true,
          Bool.not_true, Bool.false_eq_true, if_false, if_true, Option.toList_none, List.map_nil]
        exact ⟨hsilent, trivial, trivial⟩
      · have hhead : ∀ t ∈ (if kind.isHead then some (logHead place kind.level) else none),
            t.length < 2 ^ 31 := by
          intro t ht
          rw [Option.mem_def, Option.ite_none_right_eq_some, Option.some.injEq] at ht
          have hlen := hplace.2
          rw [← ht.2, logHead_length]
          omega
        have hlog := journalLog_file buf w _ text a hfd hhead (by have := htext.2; omega)
        have hget : (if kind.isHead then some (logHead place kind.level) else none).getD []
            = if kind.isHead then logHead place kind.level else [] := by
          split <;> rfl
        simp only [journalAct, logLoggable, JournalAct.line, JournalAct.next, hquiet, decide_false,
          Bool.not_false, if_true, if_false, Option.toList_some, List.map_cons, List.map_nil,
          List.flatten_singleton, JournalAct.answer]
        rw [← hget]
        exact hlog
  | always text a =>
      have hlog := journalLog_file buf w none text a hfd (fun t ht => nomatch ht)
        (by have := hact.2; omega)
      simp only [JournalAct.line, Option.toList_some, List.map_cons, List.map_nil,
        List.flatten_singleton]
      exact hlog
  | levelUp a =>
      by_cases htop : w.logger.level < logVerbose
      · simp only [journalAct, JournalAct.line, JournalAct.next, if_pos htop]
        exact hlevel _ upText a (by decide)
      · simp only [journalAct, JournalAct.line, JournalAct.next, if_neg htop]
        exact ⟨hsilent, trivial, trivial⟩
  | levelDown a =>
      by_cases hbottom : logEmerg < w.logger.level
      · simp only [journalAct, JournalAct.line, JournalAct.next, if_pos hbottom]
        exact hlevel _ downText a (by decide)
      · simp only [journalAct, JournalAct.line, JournalAct.next, if_neg hbottom]
        exact ⟨hsilent, trivial, trivial⟩
  | levelSet level a => exact hlevel _ setText a (by decide)

end Steps

/-- A program, with writes that do anything. -/
theorem journal_run (buf : Nat) : ∀ (acts : List JournalAct) (w : Journal), ¬ w.logger.fd < 0 →
    (∀ act ∈ acts, act.OneLine) →
    (acts.foldl (journalAct buf) w).file = w.file ++ journalFile w.logger.level acts
      ∧ (acts.foldl (journalAct buf) w).logger.level
        = acts.foldl JournalAct.next w.logger.level := by
  intro acts
  induction acts with
  | nil =>
      intro w _ _
      exact ⟨(List.append_nil _).symm, rfl⟩
  | cons act acts ih =>
      intro w hfd hacts
      -- The first call, then the rest from the level it leaves.
      rcases journalAct_file buf w act hfd (hacts act List.mem_cons_self) with
        ⟨hfile, hsame, hlevel⟩
      rcases ih (journalAct buf w act) (hsame.symm ▸ hfd)
        (fun act' h' => hacts act' (List.mem_cons_of_mem act h')) with ⟨hrest, hlast⟩
      rw [List.foldl_cons, List.foldl_cons, hrest, hlast, hfile, hlevel, journalFile,
        List.append_assoc]
      exact ⟨rfl, rfl⟩

section Lines

theorem cutLine_length (text : List UInt8) : (cutLine text).length < logMaxLen := by
  rw [cutLine, List.length_take]
  exact Nat.lt_of_le_of_lt (Nat.min_le_left _ _) (by decide)

theorem decimalInt_noNewline (n : Int) : 10 ∉ decimalInt n := by
  have hdigits : 10 ∉ decimal n.natAbs := fun h =>
    absurd (decimal_digits n.natAbs 10 h) (by decide)
  rw [decimalInt]
  split
  · rw [List.mem_cons, not_or]
    exact ⟨by decide, hdigits⟩
  · exact hdigits

theorem logHead_noNewline (place : List UInt8) (hplace : 10 ∉ place) (kind : LogKind) :
    10 ∉ logHead place kind.level := by
  have hname : 10 ∉ (logLevel2str kind.level).getD [] := by
    cases kind <;> decide
  simp only [logHead, List.mem_append, hplace, hname, or_false]
  decide

/-- A line has no newline before its end. -/
theorem actLine_noNewline (level : Int32) (act : JournalAct) (hact : act.OneLine) :
    ∀ t ∈ act.line level, 10 ∉ t := by
  -- A number is printed without a newline.
  have hlevel : ∀ (what : List UInt8) (level : Int32), 10 ∉ what →
      10 ∉ what ++ decimalInt level.toInt := fun what level hwhat => by
    rw [List.mem_append, not_or]
    exact ⟨hwhat, decimalInt_noNewline _⟩
  intro t ht
  cases act with
  | message kind place text a =>
      -- The head is there for some of the macros only.
      rw [JournalAct.line, Option.mem_def, Option.ite_none_left_eq_some, Option.some.injEq] at ht
      rw [← ht.2, List.mem_append, not_or]
      refine ⟨?_, hact.2.1⟩
      split
      · exact logHead_noNewline place hact.1.1 kind
      · exact List.not_mem_nil
  | always text a =>
      cases ht
      exact hact.1
  | levelUp a =>
      -- At the end of the table there is no line.
      rw [JournalAct.line, Option.mem_def, Option.ite_none_right_eq_some, Option.some.injEq] at ht
      exact ht.2 ▸ hlevel upText _ (by decide)
  | levelDown a =>
      rw [JournalAct.line, Option.mem_def, Option.ite_none_right_eq_some, Option.some.injEq] at ht
      exact ht.2 ▸ hlevel downText _ (by decide)
  | levelSet level' a =>
      cases ht
      exact hlevel setText _ (by decide)

theorem journalLines_noNewline : ∀ (acts : List JournalAct) (level : Int32),
    (∀ act ∈ acts, act.OneLine) → ∀ l ∈ journalLines level acts, 10 ∉ l := by
  intro acts
  induction acts with
  | nil =>
      intro level _ l hl
      cases hl
  | cons act acts ih =>
      intro level hacts l hl
      -- A line is cut short of what a call says, and what is cut has no newline either.
      rcases List.mem_append.mp hl with hl | hl
      · rcases List.mem_map.mp hl with ⟨t, ht, rfl⟩
        intro hten
        exact actLine_noNewline level act (hacts act List.mem_cons_self) t
          (Option.mem_toList.mp ht) (List.mem_of_mem_take hten)
      · exact ih _ (fun act' h' => hacts act' (List.mem_cons_of_mem act h')) l hl

theorem journalLines_short : ∀ (acts : List JournalAct) (level : Int32),
    ∀ l ∈ journalLines level acts, l.length < logMaxLen := by
  intro acts
  induction acts with
  | nil =>
      intro level l hl
      cases hl
  | cons act acts ih =>
      intro level l hl
      rcases List.mem_append.mp hl with hl | hl
      · rcases List.mem_map.mp hl with ⟨t, _, rfl⟩
        exact cutLine_length t
      · exact ih _ l hl

/-- Where every write takes the whole line, the file is the lines. -/
theorem journalFile_lines : ∀ (acts : List JournalAct) (level : Int32),
    (∀ act ∈ acts, act.answer = .all) →
    journalFile level acts = ((journalLines level acts).map (· ++ [10])).flatten := by
  intro acts
  induction acts with
  | nil =>
      intro level _
      rfl
  | cons act acts ih =>
      intro level hall
      -- All of a line has been written, so the file gets what the list has.
      rw [journalFile, journalLines, List.map_append, List.flatten_append, List.map_map,
        ih _ (fun act' h' => hall act' (List.mem_cons_of_mem act h')),
        hall act List.mem_cons_self]
      rfl

/-- The file of a program that starts with an empty one. -/
theorem journal_fileLines (buf : Nat) (w : Journal) (acts : List JournalAct)
    (hfd : ¬ w.logger.fd < 0) (hfile : w.file = [])
    (hacts : ∀ act ∈ acts, act.OneLine ∧ act.answer = .all) :
    fileLines (acts.foldl (journalAct buf) w).file
      = (journalLines w.logger.level acts).map (· ++ [10]) := by
  have hone : ∀ act ∈ acts, act.OneLine := fun act h => (hacts act h).1
  rw [(journal_run buf acts w hfd hone).1, hfile, List.nil_append,
    journalFile_lines acts _ (fun act h => (hacts act h).2),
    fileLines_lines _ (journalLines_noNewline acts _ hone)]

/-- `fgets` reads it line by line. -/
theorem journal_fgets (buf n : Nat) (hn : logMaxLen < n) (w : Journal) (acts : List JournalAct)
    (hfd : ¬ w.logger.fd < 0) (hfile : w.file = [])
    (hacts : ∀ act ∈ acts, act.OneLine ∧ act.answer = .all) :
    fgetsAll n (acts.foldl (journalAct buf) w).file
      = (journalLines w.logger.level acts).map (· ++ [10]) := by
  -- The file has lines, each with a newline at its end and short enough for the buffer.
  have hlines := journal_fileLines buf w acts hfd hfile hacts
  obtain ⟨k, rfl⟩ : ∃ k, n = k + 2 := ⟨n - 2, by rw [logMaxLen] at hn; omega⟩
  rw [fgetsAll_lines k _ ?_, hlines]
  rw [hlines]
  intro l hl
  rcases List.mem_map.mp hl with ⟨l', hl', rfl⟩
  have hshort := journalLines_short acts _ l' hl'
  rw [List.length_append, List.length_singleton]
  omega

end Lines

section Levels

/-- The level is one of the table. -/
def LevelWithin (level : Int32) : Prop := logEmerg ≤ level ∧ level ≤ logVerbose

instance (level : Int32) : Decidable (LevelWithin level) := inferInstanceAs (Decidable (_ ∧ _))

theorem levelSet_within (level : Int32) : LevelWithin (max logEmerg (min level logVerbose)) := by
  have hmin : min level logVerbose = if level ≤ logVerbose then level else logVerbose := rfl
  have hmax : ∀ b, max logEmerg b = if logEmerg ≤ b then b else logEmerg := fun _ => rfl
  rw [hmin, hmax]
  by_cases hhi : level ≤ logVerbose
  · rw [if_pos hhi]
    by_cases hlo : logEmerg ≤ level
    · rw [if_pos hlo]
      exact ⟨hlo, hhi⟩
    · rw [if_neg hlo]
      decide
  · rw [if_neg hhi]
    decide

theorem levelNext_within (level : Int32) (act : JournalAct) (h : LevelWithin level) :
    LevelWithin (act.next level) := by
  have hlo : 0 ≤ level.toInt := Int32.le_iff_toInt_le.mp h.1
  have hhi : level.toInt ≤ 7 := Int32.le_iff_toInt_le.mp h.2
  cases act with
  | message kind place text a => exact h
  | always text a => exact h
  | levelUp a =>
      -- Below the top there is room for one more.
      rw [JournalAct.next]
      split
      · rename_i htop
        have htop : level.toInt < 7 := Int32.lt_iff_toInt_lt.mp htop
        have hsum := int32_add_toInt level 1 hlo (by decide) (by rw [Int32.toInt_one]; omega)
        rw [Int32.toInt_one] at hsum
        exact ⟨Int32.le_iff_toInt_le.mpr (hsum ▸ Int.le_add_one hlo),
          Int32.le_iff_toInt_le.mpr (hsum ▸ htop)⟩
      · exact h
  | levelDown a =>
      -- Above the bottom there is room for one less.
      rw [JournalAct.next]
      split
      · rename_i hbottom
        have hbottom : 0 < level.toInt := Int32.lt_iff_toInt_lt.mp hbottom
        have hdiff := int32_sub_toInt level 1 (by decide) (by rw [Int32.toInt_one]; omega)
        rw [Int32.toInt_one] at hdiff
        exact ⟨Int32.le_iff_toInt_le.mpr (hdiff ▸ Int.le_sub_one_of_lt hbottom),
          Int32.le_iff_toInt_le.mpr (hdiff ▸ Int.le_trans (Int.sub_le_self _ Int.one_nonneg) hhi)⟩
      · exact h
  | levelSet level' a => exact levelSet_within level'

theorem journal_level_within (acts : List JournalAct) (level : Int32) (h : LevelWithin level) :
    LevelWithin (acts.foldl JournalAct.next level) := by
  induction acts generalizing level with
  | nil => exact h
  | cons act acts ih => exact ih _ (levelNext_within level act h)

/-- A higher level lets more through. -/
theorem journalLines_sublist : ∀ (acts : List JournalAct) (level level' : Int32), level ≤ level' →
    (∀ act ∈ acts, act.moves = false) →
    (journalLines level acts).Sublist (journalLines level' acts) := by
  -- The lower level lets through less, and of the calls that set a level only log_level_set is
  -- left.
  intro acts
  induction acts with
  | nil =>
      intro level level' _ _
      exact List.Sublist.refl []
  | cons act acts ih =>
      intro level level' hle hacts
      have hstay := hacts act List.mem_cons_self
      have hrest := fun l l' h =>
        ih l l' h (fun act' h' => hacts act' (List.mem_cons_of_mem act h'))
      refine List.Sublist.append (List.Sublist.map _ ?_) ?_
      · -- What the lower level lets through the higher one does too.
        cases act with
        | message kind place text a =>
            rw [JournalAct.line, JournalAct.line]
            by_cases hquiet : level < kind.level
            · rw [if_pos hquiet]
              exact List.nil_sublist _
            · have hloud : ¬ level' < kind.level := fun hc => hquiet (Int32.lt_of_le_of_lt hle hc)
              rw [if_neg hquiet, if_neg hloud]
        | always text a => exact List.Sublist.refl _
        | levelUp a => exact absurd hstay.symm Bool.false_ne_true
        | levelDown a => exact absurd hstay.symm Bool.false_ne_true
        | levelSet l a => exact List.Sublist.refl _
      · -- A `log_level_set` brings both levels together.
        cases act with
        | message kind place text a => exact hrest _ _ hle
        | always text a => exact hrest _ _ hle
        | levelUp a => exact absurd hstay.symm Bool.false_ne_true
        | levelDown a => exact absurd hstay.symm Bool.false_ne_true
        | levelSet l a => exact hrest _ _ (Int32.le_refl _)

end Levels

/-- Where every write takes the whole line, `fgets` reads from the log one line
    for each call that logs, and the level stays in its table. -/
theorem log_reads_back (buf n : Nat) (hn : logMaxLen < n) (w : Journal) (hfd : ¬ w.logger.fd < 0)
    (hfile : w.file = []) (hlevel : LevelWithin w.logger.level) (acts : List JournalAct)
    (hacts : ∀ act ∈ acts, act.OneLine ∧ act.answer = .all) :
    fgetsAll n (acts.foldl (journalAct buf) w).file
        = (journalLines w.logger.level acts).map (· ++ [10])
      ∧ LevelWithin (acts.foldl (journalAct buf) w).logger.level := by
  refine ⟨journal_fgets buf n hn w acts hfd hfile hacts, ?_⟩
  rw [(journal_run buf acts w hfd (fun act h => (hacts act h).1)).2]
  exact journal_level_within acts _ hlevel

/-- An empty log. -/
def emptyLog (level : Int32) : Journal := ⟨⟨[], level, 3, 0⟩, fun _ => 0, []⟩

/-- "hi" as information and as a warning, and again when more is let through. -/
def smallLog : List JournalAct :=
  [.message .info [] [104, 105] .all, .message .warn [97] [104, 105] .all, .levelSet 6 .all,
    .message .info [] [104, 105] .all, .always [33] .all]

/-- Then up by one level, and at the top. -/
def climbingLog : List JournalAct := smallLog ++ [.levelUp .all, .levelUp .all]

theorem log_reads_back_small :
    fgetsAll 1024 (climbingLog.foldl (journalAct 64) (emptyLog 4)).file
        = (journalLines 4 climbingLog).map (· ++ [10])
      ∧ LevelWithin (climbingLog.foldl (journalAct 64) (emptyLog 4)).logger.level :=
  log_reads_back 64 1024 (by decide) (emptyLog 4) (by decide) rfl (by decide) _ (by decide)

/-- Of two loggers of which a program does not move the level, the one with the
    lower level logs a part of what the other logs. -/
theorem log_quiet_within (buf buf' : Nat) (w w' : Journal) (hfd : ¬ w.logger.fd < 0)
    (hfd' : ¬ w'.logger.fd < 0) (hfile : w.file = []) (hfile' : w'.file = [])
    (hle : w.logger.level ≤ w'.logger.level) (acts : List JournalAct)
    (hacts : ∀ act ∈ acts, act.OneLine ∧ act.answer = .all)
    (hmoves : ∀ act ∈ acts, act.moves = false) :
    (fileLines (acts.foldl (journalAct buf) w).file).Sublist
      (fileLines (acts.foldl (journalAct buf') w').file) := by
  rw [journal_fileLines buf w acts hfd hfile hacts,
    journal_fileLines buf' w' acts hfd' hfile' hacts]
  exact (journalLines_sublist acts _ _ hle hmoves).map _

theorem log_quiet_within_small :
    (fileLines (smallLog.foldl (journalAct 64) (emptyLog 4)).file).Sublist
      (fileLines (smallLog.foldl (journalAct 0) (emptyLog 5)).file) :=
  log_quiet_within 64 0 _ _ (by decide) (by decide) rfl rfl (by decide) smallLog (by decide)
    (by decide)

section Table

/-- The columns of a row of the table of metrics, without the blanks at their
    ends. -/
def readRow (line : List UInt8) : List UInt8 × List UInt8 × List UInt8 :=
  ((line.take 31).rdropWhile (· == 32), ((line.drop 32).take 15).rdropWhile (· == 32), line.drop 48)

/-- The name of the metric fits its column, and its description the line. -/
structure MetricFits (m : Metric) : Prop where
  name : m.name.bytes.length ≤ 31
  last : m.name.bytes.getLast? ≠ some 32
  desc : 48 + m.desc.bytes.length < logMaxLen
  oneLine : 10 ∉ m.name.bytes ∧ 10 ∉ m.desc.bytes

theorem rdropWhile_pad (s : List UInt8) (hs : s.getLast? ≠ some 32) (k : Nat) :
    (s ++ List.replicate k 32).rdropWhile (· == 32) = s := by
  induction k with
  | zero =>
      rw [List.replicate_zero, List.append_nil, List.rdropWhile_eq_self_iff]
      intro hne hlast
      rw [List.getLast?_eq_some_getLast hne, ← beq_iff_eq.mp hlast] at hs
      exact hs rfl
  | succ k ih =>
      rw [List.replicate_succ', ← List.append_assoc, List.rdropWhile_concat_pos _ _ _ (by decide),
        ih]

theorem metricTypeStr_fits (type : MetricType) : (metricTypeStr type).bytes.length ≤ 15
    ∧ (metricTypeStr type).bytes.getLast? ≠ some 32 ∧ 10 ∉ (metricTypeStr type).bytes := by
  cases type <;> decide

/-- A string and the blanks behind it. -/
def column (width : Nat) (s : List UInt8) : List UInt8 := s ++ List.replicate (width - s.length) 32

theorem column_length (width : Nat) (s : List UInt8) (h : s.length ≤ width) :
    (column width s).length = width := by
  rw [column, List.length_append, List.length_replicate]
  omega

/-- A row of the table, column by column. -/
theorem metricRow_eq (m : Metric) :
    metricDescribeFmt.text [m.name, metricTypeStr m.type, m.desc]
      = column 31 m.name.bytes ++ 32 :: (column 15 (metricTypeStr m.type).bytes
        ++ 32 :: m.desc.bytes) := by
  have hrender : metricDescribeFmt.text [m.name, metricTypeStr m.type, m.desc]
      = column 31 m.name.bytes ++ 32 :: (column 15 (metricTypeStr m.type).bytes
        ++ 32 :: (StrConv.plain.text m.desc.bytes ++ [])) := rfl
  rw [hrender, List.append_nil]
  simp only [StrConv.text, StrConv.plain, Nat.zero_sub, List.replicate_zero, List.nil_append,
    Bool.false_eq_true, if_false]

/-- The columns lie where `readRow` looks for them. -/
theorem readRow_columns (name type desc : List UInt8) (hname : name.length ≤ 31)
    (hlast : name.getLast? ≠ some 32) (htype : type.length ≤ 15)
    (htlast : type.getLast? ≠ some 32) :
    readRow (column 31 name ++ 32 :: (column 15 type ++ 32 :: desc)) = (name, type, desc) := by
  have hn := column_length 31 name hname
  have ht := column_length 15 type htype
  -- The first column and the blank after it are 32 bytes.
  have hsecond : (column 31 name ++ 32 :: (column 15 type ++ 32 :: desc)).drop 32
      = column 15 type ++ 32 :: desc := by
    rw [List.drop_append, hn, List.drop_eq_nil_of_le (by omega)]
    rfl
  -- The second and its blank are 16 more.
  have hthird : (column 31 name ++ 32 :: (column 15 type ++ 32 :: desc)).drop 48 = desc := by
    rw [show 48 = 32 + 16 from rfl, ← List.drop_drop, hsecond, List.drop_append, ht,
      List.drop_eq_nil_of_le (by omega)]
    rfl
  rw [readRow, hsecond, hthird, List.take_left' hn, List.take_left' ht]
  -- What fills a column up is stripped, and nothing else, as no name ends with a blank.
  simp only [column]
  rw [rdropWhile_pad name hlast, rdropWhile_pad type htlast]

theorem metricRow_fits (m : Metric) (h : MetricFits m) :
    OneLine (metricDescribeFmt.text [m.name, metricTypeStr m.type, m.desc])
      ∧ readRow (cutLine (metricDescribeFmt.text [m.name, metricTypeStr m.type, m.desc]))
        = (m.name.bytes, (metricTypeStr m.type).bytes, m.desc.bytes) := by
  rcases metricTypeStr_fits m.type with ⟨htype, htlast, htten⟩
  have hlength : (column 31 m.name.bytes ++ 32 :: (column 15 (metricTypeStr m.type).bytes
      ++ 32 :: m.desc.bytes)).length = 48 + m.desc.bytes.length := by
    rw [List.length_append, List.length_cons, List.length_append, List.length_cons,
      column_length 31 _ h.name, column_length 15 _ htype]
    omega
  have hdesc := h.desc
  rw [logMaxLen] at hdesc
  rw [metricRow_eq]
  -- The row has no newline, and is short enough not to be cut.
  refine ⟨⟨?_, by omega⟩, ?_⟩
  · have hpad : ∀ width (s : List UInt8), 10 ∉ s → 10 ∉ column width s := by
      intro width s hs hten
      rcases List.mem_append.mp hten with hten | hten
      · exact hs hten
      · exact absurd (List.eq_of_mem_replicate hten) (by decide)
    simp only [List.mem_append, List.mem_cons, hpad 31 _ h.oneLine.1, hpad 15 _ htten, h.oneLine.2,
      or_false, false_or]
    decide
  · rw [cutLine, List.take_of_length_le (by rw [hlength, logMaxLen]; omega)]
    exact readRow_columns _ _ _ h.name h.last htype htlast

/-- The table that `metric_log_all` sends to the log is read back, row by row. -/
theorem metric_table_reads_back (buf n : Nat) (hn : logMaxLen < n) (w : Journal)
    (hfd : ¬ w.logger.fd < 0) (hfile : w.file = []) (metrics : List Metric)
    (hfits : ∀ m ∈ metrics, MetricFits m) :
    ((fgetsAll n (((metricLogAll metrics).map (JournalAct.always · .all)).foldl
        (journalAct buf) w).file).tail.map (fun l => readRow l.dropLast))
      = metrics.map (fun m => (m.name.bytes, (metricTypeStr m.type).bytes, m.desc.bytes)) := by
  -- Every call logs, whatever the level.
  have hlines : ∀ (texts : List (List UInt8)) (level : Int32),
      journalLines level (texts.map (JournalAct.always · .all)) = texts.map cutLine := by
    intro texts level
    induction texts with
    | nil => rfl
    | cons t texts ih => exact congrArg (cutLine t :: ·) ih
  have hacts : ∀ act ∈ (metricLogAll metrics).map (JournalAct.always · .all),
      act.OneLine ∧ act.answer = .all := by
    intro act hact
    rcases List.mem_map.mp hact with ⟨t, ht, rfl⟩
    refine ⟨?_, rfl⟩
    rcases List.mem_cons.mp ht with rfl | ht
    · exact ⟨by decide, by decide⟩
    · rcases List.mem_map.mp ht with ⟨m, hm, rfl⟩
      exact (metricRow_fits m (hfits m hm)).1
  -- The first line is the title; the others are read back row by row.
  rw [journal_fgets buf n hn w _ hfd hfile hacts, hlines]
  simp only [metricLogAll, List.map_cons, List.tail_cons, List.map_map]
  refine List.map_congr_left (fun m hm => ?_)
  simp only [Function.comp_apply, List.dropLast_concat]
  exact (metricRow_fits m (hfits m hm)).2

/-- A counter `n`, and a gauge without a description. -/
def smallTable : List Metric :=
  [⟨⟨[110], by decide⟩, ⟨[97, 32, 98], by decide⟩, .counter, 0⟩,
    ⟨⟨[103], by decide⟩, ⟨[], by decide⟩, .gauge, 7⟩]

theorem metric_table_reads_back_small :
    ((fgetsAll 600 (((metricLogAll smallTable).map (JournalAct.always · .all)).foldl
        (journalAct 0) (emptyLog 0)).file).tail.map (fun l => readRow l.dropLast))
      = [([110], (metricTypeStr .counter).bytes, [97, 32, 98]),
        ([103], (metricTypeStr .gauge).bytes, [])] := by
  refine metric_table_reads_back 0 600 (by decide) (emptyLog 0) (by decide) rfl smallTable ?_
  intro m hm
  simp only [smallTable, List.mem_cons, List.not_mem_nil, or_false] at hm
  rcases hm with rfl | rfl
  · exact ⟨by decide, by decide, by decide, by decide⟩
  · exact ⟨by decide, by decide, by decide, by decide⟩

end Table

end Aircmn
