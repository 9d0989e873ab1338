import Aircmn.Core.Base
import Aircmn.Lib.CString

/-!
# Configuration Lookup

The functions of `cmn_conf.c`. A file system says which paths can be opened
for reading and what the files hold.

Successive calls of `fgets` return the chunks of the file, and each loop is a
recursion over them. Each chunk is read as a string, that is, up to its first
zero. The loop of `cfg_get_key` has the stores of the caller as a parameter,
and `cfg_get_key_with_len` repeats its text. The second loop is written out as
well, with the tests on a chunk as its guards, so that the two can be compared.

The two token buffers have fixed sizes. A store outside of them ends the run
with a fault that names the buffer, since nothing can be said about what the
program does next. The size of the caller's `data` is not known here, and the
stores to it are listed.

## Main definitions

* `maxKeyLen`, `maxValueLen`, `maxPathLen`: Limits.
* `cfgTokenCopy`: A token trimmed and copied.
* `tokenLead`, `tokenTrail`, `cfgTokenCopyLoops`: The same, loop by loop.
* `DataStore`: A store to `data`.
* `ConfFault`: A token buffer overrun.
* `LineKind`, `cfgLine`: The tests on the first character of a chunk.
* `cfgLoop`, `cfgLoopWithLen`: The loops.
* `cfgGetKey`, `cfgGetKeyWithLen`: The lookups.
-/

namespace Aircmn

open CString

/-- `MAX_KEY_LEN`: `key_buf` is a byte longer. -/
def maxKeyLen : Nat := 64

/-- `MAX_VALUE_LEN`: `value_buf` is a byte longer. -/
def maxValueLen : Nat := 128

/-- `MAX_PATH_LEN`: the buffer for a line is a byte longer. -/
def maxPathLen : Nat := 512

/-- A space or a tab. -/
def isBlank (c : UInt8) : Bool := c == 32 || c == 9

/-- The same, or a newline. -/
def isBlankOrNewline (c : UInt8) : Bool := c == 32 || c == 9 || c == 10

/-- `cfg_token_copy` to a buffer, from a string. -/
def cfgTokenCopy {n : Nat} (dst : CharBuf n) (src : List UInt8) : Option (CharBuf n) :=
  let len : Int := src.length
  -- The loops stop at the first and at the last character that stays.
  let i : Int := (src.takeWhile isBlank).length
  let j : Int := len - 1 - (src.reverse.takeWhile isBlankOrNewline).length
  if i ≤ j then
    let len := (j - i + 1).toNat
    (dst.strncpy (src.drop i.toNat) len).bind (fun dst => dst.write len [0])
  else dst.write 0 [0]

/-- The first loop of `cfg_token_copy`, with `k` rounds to go at most. -/
def tokenLead (src : List UInt8) (len : Int32) : Nat → Int32 → Int32
  | 0, i => i
  | k + 1, i =>
    if i < len then
      if isBlank (src.getD i.toInt.toNat 0) then tokenLead src len k (i + 1) else i
    else i

/-- The second loop, with `k` rounds to go at most. -/
def tokenTrail (src : List UInt8) : Nat → Int32 → Int32
  | 0, j => j
  | k + 1, j =>
    if 0 ≤ j then
      if isBlankOrNewline (src.getD j.toInt.toNat 0) then tokenTrail src k (j - 1) else j
    else j

/-- `cfg_token_copy` with its loops and its `int`s. -/
def cfgTokenCopyLoops {n : Nat} (dst : CharBuf n) (src : Str) : Option (CharBuf n) :=
  let len : Int32 := .ofNat src.bytes.length
  let i := tokenLead src.bytes len src.bytes.length 0
  let j := tokenTrail src.bytes src.bytes.length (len - 1)
  if i ≤ j then
    let len := j - i + 1
    (dst.strncpy (src.bytes.drop i.toInt.toNat) (sizeOfInt len)).bind
      (fun dst => dst.write len.toInt.toNat [0])
  else dst.write 0 [0]

/-- A store to `data`: bytes, and then a number of zeros. -/
structure DataStore where
  offset : Int
  bytes : List UInt8
  zeros : Nat
deriving DecidableEq

/-- `strcpy(data, s)`. -/
def dataStrcpy (s : List UInt8) : DataStore := ⟨0, s, 1⟩

/-- `strncpy(data, s, n)`. -/
def dataStrncpy (s : List UInt8) (n : Nat) : DataStore := ⟨0, s.take n, n - s.length⟩

/-- The buffer that a token has been copied beyond. -/
inductive ConfFault where
  | keyBuf
  | valueBuf
deriving DecidableEq

/-- What the first tests of the loop make of a chunk. -/
inductive LineKind where
  | stop
  | enter
  | skip
  | examine
deriving DecidableEq

/-- What the loop does with a line: a section name ends the section or begins it,
    and everything else is examined. -/
def cfgLine (sectionName : Str) (sectionFound : Bool) (buffer : List UInt8) : LineKind :=
  if buffer.head? = some 91 then
    if sectionFound then .stop
    else if strncasecmp sectionName.bytes (buffer.drop 1) sectionName.bytes.length = 0 ∧
        buffer[sectionName.bytes.length + 1]? = some 93 then .enter
    else .examine
  else if sectionFound = false ∨ buffer.head? = some 35 then .skip
  else .examine

/-- The loop of `cfg_get_key` over the chunks. It returns the stores to `data`
    of the value found, if one is. -/
def cfgLoop (sectionName key : Str) (store : List UInt8 → List DataStore) :
    Bool → CharBuf (maxKeyLen + 1) → List (List UInt8) →
      Except ConfFault (Option (List DataStore))
  | _, _, [] => .ok none
  | sectionFound, keyBuf, buffer :: rest =>
    match cfgLine sectionName sectionFound buffer with
    | .stop => .ok none
    | .enter => cfgLoop sectionName key store true keyBuf rest
    | .skip => cfgLoop sectionName key store sectionFound keyBuf rest
    | .examine =>
      match strchr buffer 61 with
      | none => cfgLoop sectionName key store sectionFound keyBuf rest
      | some pdest =>
        match cfgTokenCopy keyBuf (buffer.take pdest) with
        | none => .error .keyBuf
        | some keyBuf =>
          if strcasecmp key.bytes keyBuf.str = 0 then
            match cfgTokenCopy (.zeroed (maxValueLen + 1)) (buffer.drop (pdest + 1)) with
            | none => .error .valueBuf
            | some valueBuf => .ok (some (store valueBuf.str))
          else cfgLoop sectionName key store sectionFound keyBuf rest

/-- The files that can be opened for reading, by path. -/
abbrev FileSystem := List UInt8 → Option (List UInt8)

/-- The path that `snprintf` leaves in `buffer`. -/
def cfgPath (filename : Str) : List UInt8 := filename.bytes.take maxPathLen

/-- What the loop reads of a file. -/
def cfgChunks (file : List UInt8) : List (List UInt8) :=
  (fgetsAll (maxPathLen + 1) file).map terminated

/-- The lookup with the loop of `cfg_get_key`, given what is done with a value. -/
def cfgLookup (fs : FileSystem) (filename sectionName key defval : Str)
    (keyBuf : CharBuf (maxKeyLen + 1)) (store : List UInt8 → List DataStore) :
    Except ConfFault (Status × List DataStore) :=
  match fs (cfgPath filename) with
  | none => .ok (cmnError, [dataStrcpy defval.bytes])
  | some file =>
    match cfgLoop sectionName key store false keyBuf (cfgChunks file) with
    | .error fault => .error fault
    | .ok none => .ok (cmnNokey, [dataStrcpy defval.bytes])
    | .ok (some stores) => .ok (cmnOk, stores)

/-- `cfg_get_key`. The last argument is what `key_buf` holds at the start. -/
def cfgGetKey (fs : FileSystem) (filename sectionName key defval : Str)
    (keyBuf : CharBuf (maxKeyLen + 1)) : Except ConfFault (Status × List DataStore) :=
  cfgLookup fs filename sectionName key defval keyBuf (fun value => [dataStrcpy value])

/-- The stores of `cfg_get_key_with_len` for a value. -/
def cfgStoreWithLen (length : Int32) (value : List UInt8) : List DataStore :=
  if (value.length : Int) < length.toInt then [dataStrcpy value]
  else
    let valueLen := length - 1
    [dataStrncpy value (sizeOfInt valueLen), ⟨valueLen.toInt, [], 1⟩]

/-- The loop of `cfg_get_key_with_len`. -/
def cfgLoopWithLen (sectionName key : Str) (length : Int32) :
    Bool → CharBuf (maxKeyLen + 1) → List (List UInt8) →
      Except ConfFault (Option (List DataStore))
  | _, _, [] => .ok none
  | sectionFound, keyBuf, buffer :: rest =>
    if buffer.head? = some 91 ∧ sectionFound = true then .ok none
    else if buffer.head? = some 91 ∧
        strncasecmp sectionName.bytes (buffer.drop 1) sectionName.bytes.length = 0 ∧
        buffer[sectionName.bytes.length + 1]? = some 93 then
      cfgLoopWithLen sectionName key length true keyBuf rest
    else if buffer.head? ≠ some 91 ∧ (sectionFound = false ∨ buffer.head? = some 35) then
      cfgLoopWithLen sectionName key length sectionFound keyBuf rest
    else
      match strchr buffer 61 with
      | none => cfgLoopWithLen sectionName key length sectionFound keyBuf rest
      | some pdest =>
        match cfgTokenCopy keyBuf (buffer.take pdest) with
        | none => .error .keyBuf
        | some keyBuf =>
          if strcasecmp key.bytes keyBuf.str = 0 then
            match cfgTokenCopy (.zeroed (maxValueLen + 1)) (buffer.drop (pdest + 1)) with
            | none => .error .valueBuf
            | some valueBuf => .ok (some (cfgStoreWithLen length valueBuf.str))
          else cfgLoopWithLen sectionName key length sectionFound keyBuf rest

/-- `cfg_get_key_with_len`. -/
def cfgGetKeyWithLen (fs : FileSystem) (filename sectionName key defval : Str) (length : Int32) :
    Except ConfFault (Status × List DataStore) :=
  match fs (cfgPath filename) with
  | none => .ok (cmnError, [dataStrcpy defval.bytes])
  | some file =>
    match cfgLoopWithLen sectionName key length false (.zeroed (maxKeyLen + 1))
      (cfgChunks file) with
    | .error fault => .error fault
    | .ok none => .ok (cmnNokey, [dataStrcpy defval.bytes])
    | .ok (some stores) => .ok (cmnOk, stores)

end Aircmn
