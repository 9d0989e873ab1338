import Aircmn.Theory.Conf.Lines

/-!
# The Lookup as the Format Has It

`iniLookup` is the meaning of a configuration file: the value of the first
entry with the key in the first section with the name, or nothing. On a file
whose lines and tokens fit the buffers `cfg_get_key` computes it.

The lines of other sections that the loop tokenises on its way cannot match,
because their keys begin with a bracket and the key looked for does not.

## Main definitions

* `iniLookup`: The meaning of a file.
* `IniFile`: A file within the limits.

## Theorems

* `cfgLookup_fits`: What both lookups return when the tokens fit.
* `cfgGetKeyWithLen_eq`: The second lookup is one with other stores.
* `keyText_bracket`: A line that opens a section has a key with a bracket.
* `find_examined`: The first line examined with the key is the first entry.
* `cfg_get_key_lookup`: `cfg_get_key` is the lookup.
* `cfg_get_key_example`: A file with a comment and two sections.
-/

namespace Aircmn

open CString

/-- The value of the first entry with a key in a section, or a default. -/
def iniLookup (sectionName key defval : Str) (lines : List (List UInt8)) :
    Status × List UInt8 :=
  match (sectionBody sectionName lines).find? (fun line => isEntry line && hasKey key line) with
  | some line => (cmnOk, valueText line)
  | none => (cmnNokey, defval.bytes)

/-- A file without zeros whose lines and tokens are within the limits. -/
structure IniFile where
  bytes : List UInt8
  noNul : 0 ∉ bytes
  lines_le : ∀ line ∈ fileLines bytes, line.length ≤ maxPathLen
  keys_le : ∀ line ∈ fileLines bytes, 61 ∈ line → (keyText line).length ≤ maxKeyLen
  values_le : ∀ line ∈ fileLines bytes, 61 ∈ line → (valueText line).length ≤ maxValueLen

theorem cfgExamined_mem (sectionName : Str) (lines : List (List UInt8)) (line : List UInt8)
    (h : line ∈ cfgExamined sectionName lines) : line ∈ lines ∧ 61 ∈ line := by
  -- Lines are selected before the header and in the section.
  rcases List.mem_append.mp h with hbefore | hbody
  · rcases List.mem_filter.mp hbefore with ⟨hmem, hselect⟩
    refine ⟨(List.takeWhile_prefix _).subset hmem, ?_⟩
    exact List.contains_iff_mem.mp ((Bool.and_eq_true _ _).mp hselect).2
  · rcases List.mem_filter.mp hbody with ⟨hmem, hselect⟩
    refine ⟨?_, List.contains_iff_mem.mp ((Bool.and_eq_true _ _).mp hselect).2⟩
    exact (List.dropWhile_suffix _).subset
      (List.mem_of_mem_tail ((List.takeWhile_prefix _).subset hmem))

theorem cfgChunks_noNul (file line : List UInt8) (h : line ∈ cfgChunks file) : 0 ∉ line := by
  rcases List.mem_map.mp h with ⟨chunk, _, hchunk⟩
  rw [← hchunk]
  exact noNul_terminated chunk

theorem cfgExamined_noNul (sectionName : Str) (file : List UInt8) :
    ∀ line ∈ cfgExamined sectionName (cfgChunks file), 0 ∉ line :=
  fun line h => cfgChunks_noNul file line (cfgExamined_mem sectionName _ line h).1

/-- What a lookup returns when the tokens it copies fit. -/
theorem cfgLookup_fits (fs : FileSystem) (filename sectionName key defval : Str)
    (keyBuf : CharBuf (maxKeyLen + 1)) (store : List UInt8 → List DataStore) (file : List UInt8)
    (hopen : fs (cfgPath filename) = some file)
    (hfit : LinesFit key (cfgExamined sectionName (cfgChunks file))) :
    cfgLookup fs filename sectionName key defval keyBuf store
      = .ok (match (cfgExamined sectionName (cfgChunks file)).find? (hasKey key) with
        | some line => (cmnOk, store (valueText line))
        | none => (cmnNokey, [dataStrcpy defval.bytes])) := by
  -- The loop over the chunks is the scan over the lines that are examined.
  rw [cfgLookup, hopen]
  simp only [cfgLoop_eq_scan]
  rw [cfgScan_fits key store _ keyBuf (cfgExamined_noNul sectionName file) hfit]
  cases (cfgExamined sectionName (cfgChunks file)).find? (hasKey key) with
  | none => rfl
  | some line => rfl

/-- `cfg_get_key_with_len` is the lookup with its own stores. -/
theorem cfgGetKeyWithLen_eq (fs : FileSystem) (filename sectionName key defval : Str)
    (length : Int32) : cfgGetKeyWithLen fs filename sectionName key defval length
      = cfgLookup fs filename sectionName key defval (.zeroed (maxKeyLen + 1))
        (cfgStoreWithLen length) := by
  unfold cfgGetKeyWithLen cfgLookup
  simp only [cfgLoopWithLen_eq]

/-- The chunks of a text whose lines fit the buffer are its lines. -/
theorem cfgChunks_lines (s : List UInt8) (hnul : 0 ∉ s)
    (h : ∀ line ∈ fileLines s, line.length ≤ maxPathLen) : cfgChunks s = fileLines s := by
  have hchunks : fgetsAll (maxPathLen + 1) s = fileLines s := fgetsAll_lines 511 s h
  rw [cfgChunks, hchunks]
  refine (List.map_congr_left (fun line hline => ?_)).trans (List.map_id _)
  refine terminated_of_noNul line (fun hzero => hnul ?_)
  rw [← fileLines_flatten s]
  exact List.mem_flatten.mpr ⟨line, hline, hzero⟩

/-- The key of a line that opens a section begins with a bracket. -/
theorem keyText_bracket (line : List UInt8) (h : opensSection line = true) :
    (keyText line).head? = some 91 := by
  rcases List.head?_eq_some_iff.mp (beq_iff_eq.mp h) with ⟨rest, hrest⟩
  -- The bracket is neither an equals sign nor blank, so trimming keeps it.
  have hkeep : (line.takeWhile (fun c => c != 61)).dropWhile isBlank
      = 91 :: rest.takeWhile (fun c => c != 61) := by
    rw [hrest]
    rfl
  have hne : (91 :: rest.takeWhile (fun c => c != 61)).rdropWhile isBlankOrNewline ≠ [] := by
    intro hnil
    have hall := List.rdropWhile_eq_nil_iff.mp hnil 91 List.mem_cons_self
    exact absurd hall (by decide)
  unfold keyText iniTrim trim
  rw [hkeep]
  rcases List.rdropWhile_prefix isBlankOrNewline
    (91 :: rest.takeWhile (fun c => c != 61)) with ⟨tail, htail⟩
  cases htoken : (91 :: rest.takeWhile (fun c => c != 61)).rdropWhile isBlankOrNewline with
  | nil => exact absurd htoken hne
  | cons c token =>
      rw [htoken, List.cons_append, List.cons.injEq] at htail
      rw [htail.1, List.head?_cons]

theorem hasKey_bracket (key : Str) (line : List UInt8) (hkey : key.bytes.head? ≠ some 91)
    (h : opensSection line = true) : hasKey key line = false := by
  have hhead := keyText_bracket line h
  rw [Bool.eq_false_iff]
  intro hsame
  have heq : (keyText line).map toLower = key.bytes.map toLower := beq_iff_eq.mp hsame
  have hlower := congrArg List.head? heq
  rw [List.head?_map, List.head?_map, hhead] at hlower
  rcases Option.map_eq_some_iff.mp hlower.symm with ⟨c, hc, hbracket⟩
  exact hkey (by rw [hc, eq_of_toLower c 91 hbracket (by decide)])

/-- The first line examined that has the key is the first entry of the section
    that does. -/
theorem find_examined (sectionName key : Str) (lines : List (List UInt8))
    (hkey : key.bytes.head? ≠ some 91) :
    (cfgExamined sectionName lines).find? (hasKey key)
      = (sectionBody sectionName lines).find? (fun line => isEntry line && hasKey key line) := by
  -- What is selected before the section is bracketed and does not match.
  have hbefore : ((lines.takeWhile (fun line => !isHeaderOf sectionName line)).filter
      (fun line => opensSection line && line.contains 61)).find? (hasKey key) = none := by
    refine List.find?_eq_none.mpr (fun line hline => ?_)
    have hopens := ((Bool.and_eq_true _ _).mp (List.mem_filter.mp hline).2).1
    rw [hasKey_bracket key line hkey hopens]
    exact Bool.false_ne_true
  rw [cfgExamined, List.find?_append, hbefore, Option.none_or, List.find?_filter]
  congr 1
  funext line
  rw [Bool.decide_and, Bool.decide_eq_true, Bool.decide_eq_true]

/-- On a file within the limits `cfg_get_key` stores the value of the first
    entry with the key in the first section with the name, or the default. -/
theorem cfg_get_key_lookup (fs : FileSystem) (filename sectionName key defval : Str)
    (keyBuf : CharBuf (maxKeyLen + 1)) (f : IniFile)
    (hopen : fs (cfgPath filename) = some f.bytes) (hkey : key.bytes.head? ≠ some 91) :
    cfgGetKey fs filename sectionName key defval keyBuf
      = .ok ((iniLookup sectionName key defval (fileLines f.bytes)).1,
        [dataStrcpy (iniLookup sectionName key defval (fileLines f.bytes)).2]) := by
  have hchunks := cfgChunks_lines f.bytes f.noNul f.lines_le
  have hmem : ∀ line ∈ cfgExamined sectionName (cfgChunks f.bytes),
      line ∈ fileLines f.bytes ∧ 61 ∈ line := by
    rw [hchunks]
    exact cfgExamined_mem sectionName (fileLines f.bytes)
  -- Every line of the file fits, so those examined do.
  have hfit : LinesFit key (cfgExamined sectionName (cfgChunks f.bytes)) := by
    refine ⟨fun line hline => ?_, fun line hline => ?_⟩
    · rcases hmem line ((List.takeWhile_prefix _).subset hline) with ⟨hin, hequals⟩
      exact f.keys_le line hin hequals
    · rcases hmem line (List.mem_of_find?_eq_some hline) with ⟨hin, hequals⟩
      exact ⟨f.keys_le line hin hequals, f.values_le line hin hequals⟩
  rw [cfgGetKey, cfgLookup_fits fs filename sectionName key defval keyBuf _ f.bytes hopen hfit,
    hchunks, find_examined sectionName key _ hkey]
  unfold iniLookup
  cases (sectionBody sectionName (fileLines f.bytes)).find?
    (fun line => isEntry line && hasKey key line) with
  | none => rfl
  | some line => rfl

/-- A comment, a section `a` with `k=1`, and a section `B` with a comment, a
    line without an equals sign, ` K =<tab>x = y ` and `k=3`. -/
def twoSections : IniFile where
  bytes :=
    [35, 32, 107, 32, 61, 32, 48, 10, 91, 97, 93, 10, 107, 61, 49, 10, 91, 66, 93, 10, 35, 107,
     61, 50, 10, 110, 111, 32, 101, 113, 117, 97, 108, 115, 10, 32, 75, 32, 61, 9, 120, 32, 61,
     32, 121, 32, 10, 107, 61, 51, 10]
  noNul := by decide
  lines_le := by decide
  keys_le := by decide
  values_le := by decide

/-- Key `k` of section `b` is `x = y`. -/
theorem cfg_get_key_example :
    cfgGetKey (fun _ => some twoSections.bytes) (.ofBytes [99]) (.ofBytes [98]) (.ofBytes [107])
        (.ofBytes []) ⟨List.replicate 65 7, List.length_replicate⟩
      = .ok (cmnOk, [⟨0, [120, 32, 61, 32, 121], 1⟩]) :=
  (cfg_get_key_lookup (fun _ => some twoSections.bytes) (.ofBytes [99]) (.ofBytes [98])
    (.ofBytes [107]) (.ofBytes []) ⟨List.replicate 65 7, List.length_replicate⟩ twoSections rfl
    (by decide)).trans (by rfl)

end Aircmn
