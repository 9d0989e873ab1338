import Aircmn.Core.Line
import Aircmn.Core.Log
import Aircmn.Core.Metric

/-!
# Messages of the Log

What the macros of `cmn_log.h` and the functions of `cmn_log.c` that change the
level send to the file of the log, and `metric_log_all` of `cmn_metric.c`, which
is a sequence of messages.

A message comes with what formatting has made of it, and its head with the text
of the date, the numbers of process and thread, and the place in the source. A
write takes the whole line, a part of it, which `_log` does not notice, or fails.
`log_panic` ends the program, and `log_debug` is compiled to nothing; both are
left out.

## Main definitions

* `LogKind`, `logLevel2str`, `logHead`: The macros with a level.
* `WriteAnswer`: What a `write` does.
* `Journal`, `journalLog`: A logger, its buffer and its file, and `_log`.
* `logLoggable`, `JournalAct`, `journalAct`: What a program does with them.
* `metricLogAll`: The messages of `metric_log_all`.
-/

namespace Aircmn

open Bytes CString Format

/-- The macros that ask `log_loggable`. -/
inductive LogKind where
  | alert
  | error
  | warn
  | notice
  | info
  /-- `logd`. -/
  | debug
deriving DecidableEq

/-- The level of a macro. -/
def LogKind.level : LogKind → Int32
  | .alert => 1
  | .error => 2
  | .warn => 3
  | .notice => 4
  | .info => 5
  | .debug => 6

/-- `log_info` writes no head. -/
def LogKind.isHead : LogKind → Bool
  | .info => false
  | _ => true

/-- `log_level_names`: E, A, E, W, N, I, D and V. -/
def logLevelNames : List (List UInt8) := [[69], [65], [69], [87], [78], [73], [68], [86]]

/-- `log_level2str`. -/
def logLevel2str (level : Int32) : Option (List UInt8) :=
  if level ≤ logVerbose then logLevelNames[level.toInt.toNat]? else none

/-- `"[%s %d %X %s:%d %s() %s]"`, with the text for all conversions but the last,
    which has a level of the table. -/
def logHead (place : List UInt8) (level : Int32) : List UInt8 :=
  [91] ++ place ++ [32] ++ (logLevel2str level).getD [] ++ [93]

/-- What a `write` of a line does. -/
inductive WriteAnswer where
  | all
  | part (n : Nat)
  | failed
deriving DecidableEq

/-- The bytes of the line that are taken. -/
def WriteAnswer.taken (a : WriteAnswer) (line : List UInt8) : List UInt8 :=
  match a with
  | .all => line
  | .part n => line.take n
  | .failed => []

/-- A logger, the memory with the buffer of `_log`, and what has been written to
    the descriptor. -/
structure Journal where
  logger : Logger
  mem : Mem
  file : List UInt8

/-- `_log`, with a head or without. -/
def journalLog (buf : Nat) (w : Journal) (head : Option (List UInt8)) (text : List UInt8)
    (a : WriteAnswer) : Journal :=
  if w.logger.fd < 0 then w
  else
    let s := logLine w.mem buf head text
    { logger := if a = .failed then { w.logger with nerror := w.logger.nerror + 1 } else w.logger
      mem := s.mem
      file := w.file ++ a.taken (slice s.mem buf s.len.toInt.toNat) }

/-- `log_loggable`. -/
def logLoggable (l : Logger) (level : Int32) : Bool := !(l.level < level)

/-- A message, or a change of the level. -/
inductive JournalAct where
  | message (kind : LogKind) (place text : List UInt8) (a : WriteAnswer)
  /-- `loga`, which does not ask `log_loggable`. -/
  | always (text : List UInt8) (a : WriteAnswer)
  | levelUp (a : WriteAnswer)
  | levelDown (a : WriteAnswer)
  | levelSet (level : Int32) (a : WriteAnswer)
deriving DecidableEq

/-- `"up log level to "`. -/
def upText : List UInt8 :=
  [117, 112, 32, 108, 111, 103, 32, 108, 101, 118, 101, 108, 32, 116, 111, 32]

/-- `"down log level to "`. -/
def downText : List UInt8 :=
  [100, 111, 119, 110, 32, 108, 111, 103, 32, 108, 101, 118, 101, 108, 32, 116, 111, 32]

/-- `"set log level to "`. -/
def setText : List UInt8 :=
  [115, 101, 116, 32, 108, 111, 103, 32, 108, 101, 118, 101, 108, 32, 116, 111, 32]

/-- The level is changed, and the new one is logged. -/
def journalLevel (buf : Nat) (w : Journal) (level : Int32) (what : List UInt8) (a : WriteAnswer) :
    Journal :=
  journalLog buf { w with logger := { w.logger with level := level } } none
    (what ++ decimalInt level.toInt) a

/-- A message reaches the file if the level of the logger allows it; a change of
    the level is announced whatever the level is. -/
def journalAct (buf : Nat) (w : Journal) : JournalAct → Journal
  | .message kind place text a =>
    if logLoggable w.logger kind.level then
      journalLog buf w (if kind.isHead then some (logHead place kind.level) else none) text a
    else w
  | .always text a => journalLog buf w none text a
  | .levelUp a =>
    if w.logger.level < logVerbose then journalLevel buf w (w.logger.level + 1) upText a else w
  | .levelDown a =>
    if logEmerg < w.logger.level then journalLevel buf w (w.logger.level - 1) downText a else w
  | .levelSet level a => journalLevel buf w (max logEmerg (min level logVerbose)) setText a

/-- `METRIC_DESCRIBE_FMT`, `"%-31s %-15s %s"`. -/
def metricDescribeFmt : StrFormat 3 :=
  ⟨⟨[37, 45, 51, 49, 115, 32, 37, 45, 49, 53, 115, 32, 37, 115], by decide⟩,
    [.str ⟨true, 31, none⟩, .char 32, .str ⟨true, 15, none⟩, .char 32, .str .plain], rfl, rfl⟩

/-- `metric_type_str`. -/
def metricTypeStr : MetricType → Str
  -- "counter"
  | .counter => ⟨[99, 111, 117, 110, 116, 101, 114], by decide⟩
  -- "gauge"
  | .gauge => ⟨[103, 97, 117, 103, 101], by decide⟩
  -- "floating point"
  | .fpn => ⟨[102, 108, 111, 97, 116, 105, 110, 103, 32, 112, 111, 105, 110, 116], by decide⟩

/-- `"NAME"`, `"TYPE"` and `"DESCRIPTION"`. -/
def metricTitles : List Str :=
  [⟨[78, 65, 77, 69], by decide⟩, ⟨[84, 89, 80, 69], by decide⟩,
    ⟨[68, 69, 83, 67, 82, 73, 80, 84, 73, 79, 78], by decide⟩]

/-- What `metric_log_all` gives to `loga`, one message after the other. -/
def metricLogAll (metrics : List Metric) : List (List UInt8) :=
  metricDescribeFmt.text metricTitles
    :: metrics.map (fun m => metricDescribeFmt.text [m.name, metricTypeStr m.type, m.desc])

end Aircmn
