import Aircmn.Theory.Conf.Buffers
import Aircmn.Theory.Conf.Sections

/-!
# Text Outside of the Section

A lookup is meant to depend on one section of the file. What follows the
section does not matter, because the next section starts with a bracket and
ends the loop. What comes before it does not matter either as long as the loop
passes over it, and there it can go wrong in three ways.

A line that is too long for the buffer comes in several chunks, and the loop
takes each of them for a line, so a chunk from the middle of a line can open
the section. A line with a bracket that does not open the section is not passed
over but searched for a key, and its key may be the one looked for, or too long
for the buffer. A text in which none of this happens is `Quiet`.

After a quiet text the section is found where it is, and the lookup is
`iniLookup`. A text that is not quiet changes some lookup.

## Main definitions

* `SectionWithin`, `SameSection`: Files that agree on a section within the
  limits.
* `Holdable`: A key that a section can have.
* `Quiet`: The loop passes over a text.
* `SameLookup`: A lookup returns the same on two files.
* `Uninfluential`: A text before a section does not change any lookup.

## Theorems

* `examined_quiet`: What is found after a quiet text.
* `cfgGetKey_quiet`: The lookup after a quiet text.
* `sameLookup_of_quiet`: Two files with the same section after quiet texts.
* `quiet_of_lines_le`: Lines within the limits are quiet.
* `cfg_outside_iff`: The text before a section is without influence exactly if
  it is quiet.
* `cfg_outside_taken`: A section opened in the middle of a line.
-/

namespace Aircmn

open CString

/-- The lines of a section, and the tokens of its entries, are within the
    limits. -/
structure SectionWithin (sectionName : Str) (file : List UInt8) : Prop where
  lines_le : ∀ line ∈ sectionLines sectionName (fileLines file), line.length ≤ maxPathLen
  tokens_le : ∀ line ∈ sectionBody sectionName (fileLines file), isEntry line = true →
    (keyText line).length ≤ maxKeyLen ∧ (valueText line).length ≤ maxValueLen

/-- Neither file has the section, or both have the same within the limits. -/
def SameSection (sectionName : Str) (f g : List UInt8) : Prop :=
  sectionLines sectionName (fileLines f) = sectionLines sectionName (fileLines g) ∧
    SectionWithin sectionName f

/-- Some file has the key in the section, within the limits. -/
def Holdable (sectionName key : Str) : Prop :=
  ∃ file : Str, SectionWithin sectionName file.bytes ∧
    ∃ line ∈ sectionBody sectionName (fileLines file.bytes),
      isEntry line = true ∧ hasKey key line = true

/-- The loop passes over a text before the section: the lines that it examines
    there have keys that fit and do not match, and no chunk opens the section.
    A chunk that does is harmless if the key cannot be in the section, or if
    the section cannot follow because the text does not end its last line. -/
structure Quiet (sectionName key : Str) (before : List UInt8) : Prop where
  keys : ∀ line ∈ cfgExamined sectionName (cfgChunks before),
    (keyText line).length ≤ maxKeyLen ∧ ¬ hasKey key line = true
  header : ∀ chunk ∈ cfgChunks before, isHeaderOf sectionName chunk = true →
    ¬ Holdable sectionName key ∨ ¬ WholeLines before

/-- Wherever the two files are, and whatever the default and the buffers, a
    lookup returns the same code and stores the same data. -/
def SameLookup (sectionName key : Str) (f g : List UInt8) : Prop :=
  ∀ (fs fs' : FileSystem) (filename filename' defval : Str)
    (keyBuf keyBuf' : CharBuf (maxKeyLen + 1)),
    fs (cfgPath filename) = some f → fs' (cfgPath filename') = some g →
    ∃ r, cfgGetKey fs filename sectionName key defval keyBuf = .ok r ∧
      cfgGetKey fs' filename' sectionName key defval keyBuf' = .ok r

theorem sameSection_of_none (sectionName : Str) (f g : List UInt8)
    (hf : sectionLines sectionName (fileLines f) = [])
    (hg : sectionLines sectionName (fileLines g) = []) : SameSection sectionName f g := by
  refine ⟨hf.trans hg.symm, ⟨fun line hline => ?_, fun line hline => ?_⟩⟩
  · exact absurd (hf ▸ hline) List.not_mem_nil
  · rw [sectionBody_eq, hf] at hline
    exact absurd hline List.not_mem_nil

theorem linesFit_of_forall (key : Str) (lines : List (List UInt8))
    (h : ∀ line ∈ lines, (keyText line).length ≤ maxKeyLen ∧
      (hasKey key line = true → (valueText line).length ≤ maxValueLen)) : LinesFit key lines := by
  refine ⟨fun line hline => (h line ((List.takeWhile_prefix _).subset hline)).1,
    fun line hline => ?_⟩
  have hmem := h line (List.mem_of_find?_eq_some hline)
  exact ⟨hmem.1, hmem.2 (List.find?_some hline)⟩

/-- What the loop examines after a quiet text are the entries of the section,
    or nothing, and then the section does not have the key. -/
theorem cfgExamined_quiet (sectionName key file : Str)
    (hquiet : Quiet sectionName key (textBefore sectionName file.bytes))
    (hwithin : SectionWithin sectionName file.bytes) :
    ∃ entries, cfgExamined sectionName (cfgChunks file.bytes)
        = cfgExamined sectionName (cfgChunks (textBefore sectionName file.bytes)) ++ entries ∧
      (∀ line ∈ entries, (keyText line).length ≤ maxKeyLen ∧
        (valueText line).length ≤ maxValueLen) ∧
      entries.find? (hasKey key) = (sectionBody sectionName (fileLines file.bytes)).find?
        (fun line => isEntry line && hasKey key line) := by
  -- The file's chunks are those before the section, those of the section, and what follows.
  rcases cfgChunks_split sectionName file hwithin.lines_le with ⟨after, hchunks, hopens, hnone⟩
  rw [hchunks]
  by_cases hheader : ∃ chunk ∈ cfgChunks (textBefore sectionName file.bytes),
      isHeaderOf sectionName chunk = true
  · -- The section was opened too early, and its header closes it.
    rcases hheader with ⟨chunk, hchunk, hheader⟩
    have hstop := cfgExamined_stop sectionName _
      (sectionLines sectionName (fileLines file.bytes) ++ after) chunk hchunk hheader
      (sectionLines_opens sectionName _ after hopens)
    refine ⟨[], by rw [hstop, List.append_nil], (fun _ h => absurd h List.not_mem_nil), ?_⟩
    refine (List.find?_eq_none.mpr (fun line hline hkey => ?_)).symm
    rcases hquiet.header chunk hchunk hheader with hholdable | hends
    · exact hholdable ⟨file, hwithin, line, hline, (Bool.and_eq_true _ _).mp hkey⟩
    · -- Nothing follows a text that does not end its last line.
      refine hends (wholeLines_before sectionName file.bytes (fun hnil => ?_))
      rw [sectionBody_eq, hnil] at hline
      exact absurd hline List.not_mem_nil
  -- No header in front: what is examined of the text before it comes first and unchanged.
  · have hother : ∀ chunk ∈ cfgChunks (textBefore sectionName file.bytes),
        isHeaderOf sectionName chunk = false :=
      fun chunk hchunk => Bool.eq_false_iff.mpr (fun h => hheader ⟨chunk, hchunk, h⟩)
    refine ⟨_, cfgExamined_append sectionName _ _ hother, ?_⟩
    -- From the section on, the lines examined are its entries, whose tokens fit by the limits.
    rw [cfgExamined_section sectionName _ after hopens hnone]
    refine ⟨fun line hline => ?_, ?_⟩
    · rcases List.mem_filter.mp hline with ⟨hbody, hentry⟩
      exact hwithin.tokens_le line hbody hentry
    -- Filtering the entries first and searching then is searching among the entries.
    · rw [List.find?_filter]
      congr 1
      funext line
      rw [Bool.decide_and, Bool.decide_eq_true, Bool.decide_eq_true]

/-- After a quiet text the first line examined with the key is the first entry
    of the section that has it. -/
theorem examined_quiet (sectionName key file : Str)
    (hquiet : Quiet sectionName key (textBefore sectionName file.bytes))
    (hwithin : SectionWithin sectionName file.bytes) :
    LinesFit key (cfgExamined sectionName (cfgChunks file.bytes)) ∧
      (cfgExamined sectionName (cfgChunks file.bytes)).find? (hasKey key)
        = (sectionBody sectionName (fileLines file.bytes)).find?
          (fun line => isEntry line && hasKey key line) := by
  rcases cfgExamined_quiet sectionName key file hquiet hwithin with
    ⟨entries, hexamined, hfits, hfind⟩
  -- The text before the section holds no line with the key, whatever else it holds.
  have hbefore := hquiet.keys
  rw [hexamined]
  constructor
  -- Its lines must still fit where their keys are copied, which Quiet says as well.
  · refine linesFit_of_forall key _ (fun line hline => ?_)
    rcases List.mem_append.mp hline with h | h
    · exact ⟨(hbefore line h).1, fun hkey => absurd hkey (hbefore line h).2⟩
    · exact ⟨(hfits line h).1, fun _ => (hfits line h).2⟩
  -- So the search passes over the text before and finds what the section holds.
  · rw [List.find?_append, List.find?_eq_none.mpr (fun line h => (hbefore line h).2),
      Option.none_or, hfind]

/-- After a quiet text `cfg_get_key` is the lookup in the section. -/
theorem cfgGetKey_quiet (fs : FileSystem) (filename sectionName key defval : Str)
    (keyBuf : CharBuf (maxKeyLen + 1)) (file : Str)
    (hopen : fs (cfgPath filename) = some file.bytes)
    (hquiet : Quiet sectionName key (textBefore sectionName file.bytes))
    (hwithin : SectionWithin sectionName file.bytes) :
    cfgGetKey fs filename sectionName key defval keyBuf
      = .ok ((iniLookup sectionName key defval (fileLines file.bytes)).1,
        [dataStrcpy (iniLookup sectionName key defval (fileLines file.bytes)).2]) := by
  -- The lookup is one over the lines it examines, and these are known.
  rcases examined_quiet sectionName key file hquiet hwithin with ⟨hfit, hfind⟩
  rw [cfgGetKey, cfgLookup_fits fs filename sectionName key defval keyBuf _ file.bytes hopen hfit,
    hfind]
  unfold iniLookup
  -- Found or not found, the answer is that of the INI lookup.
  cases (sectionBody sectionName (fileLines file.bytes)).find?
    (fun line => isEntry line && hasKey key line) with
  | none => rfl
  | some line => rfl

/-- Files with the same section have the same lookups in it. -/
theorem iniLookup_same (sectionName key defval : Str) (f g : List UInt8)
    (h : SameSection sectionName f g) :
    iniLookup sectionName key defval (fileLines f)
      = iniLookup sectionName key defval (fileLines g) := by
  unfold iniLookup
  rw [sectionBody_eq, sectionBody_eq, h.1]

theorem iniLookup_ok (sectionName key defval : Str) (lines : List (List UInt8)) (line : List UInt8)
    (hline : line ∈ sectionBody sectionName lines)
    (hentry : isEntry line = true ∧ hasKey key line = true) :
    (iniLookup sectionName key defval lines).1 = cmnOk := by
  unfold iniLookup
  cases hfind : (sectionBody sectionName lines).find?
    (fun line => isEntry line && hasKey key line) with
  | none =>
      exact absurd ((Bool.and_eq_true _ _).mpr hentry) (List.find?_eq_none.mp hfind line hline)
  | some line => rfl

theorem sectionWithin_same (sectionName : Str) (f g : List UInt8)
    (h : SameSection sectionName f g) : SectionWithin sectionName g := by
  rcases h with ⟨hsame, hwithin⟩
  refine ⟨?_, ?_⟩
  · rw [← hsame]
    exact hwithin.lines_le
  · rw [sectionBody_eq, ← hsame, ← sectionBody_eq]
    exact hwithin.tokens_le

/-- Two files with the same section, each after a quiet text. -/
theorem sameLookup_of_quiet (sectionName key f g : Str)
    (hf : Quiet sectionName key (textBefore sectionName f.bytes))
    (hg : Quiet sectionName key (textBefore sectionName g.bytes))
    (h : SameSection sectionName f.bytes g.bytes) :
    SameLookup sectionName key f.bytes g.bytes := by
  intro fs fs' filename filename' defval keyBuf keyBuf' hopen hopen'
  refine ⟨_, cfgGetKey_quiet fs filename sectionName key defval keyBuf f hopen hf h.2, ?_⟩
  rw [iniLookup_same sectionName key defval f.bytes g.bytes h]
  exact cfgGetKey_quiet fs' filename' sectionName key defval keyBuf' g hopen' hg
    (sectionWithin_same sectionName f.bytes g.bytes h)

theorem quiet_nil (sectionName key : Str) : Quiet sectionName key [] :=
  ⟨fun _ h => absurd h List.not_mem_nil, fun _ h => absurd h List.not_mem_nil⟩

/-- A text whose lines fit the buffer is quiet, if the key looked for does not
    start with a bracket and those of its lines that do have keys that fit. -/
theorem quiet_of_lines_le (sectionName key file : Str) (hkey : key.bytes.head? ≠ some 91)
    (hlines : ∀ line ∈ fileLines (textBefore sectionName file.bytes), line.length ≤ maxPathLen)
    (hkeys : ∀ line ∈ fileLines (textBefore sectionName file.bytes), opensSection line = true →
      (keyText line).length ≤ maxKeyLen) :
    Quiet sectionName key (textBefore sectionName file.bytes) := by
  -- With no line cut, the chunks before the section are its lines.
  have hchunks := cfgChunks_lines _ (beforeOf sectionName file).noNul hlines
  have hnone := textBefore_noHeader sectionName file.bytes
  constructor
  -- Quiet has two halves: every examined line fits and misses the key, and a header does no harm.
  -- Here there is no header at all.
  · intro line hline
    have hbefore : cfgChunks (textBefore sectionName file.bytes)
        = fileLines (textBefore sectionName file.bytes) := hchunks
    rw [hbefore, cfgExamined_noHeader sectionName _ hnone] at hline
    rcases List.mem_filter.mp hline with ⟨hmem, hselect⟩
    have hopens := ((Bool.and_eq_true _ _).mp hselect).1
    -- An examined line here opens a section, so its key starts with [ and the key asked for does
    -- not.
    exact ⟨hkeys line hmem hopens,
      Bool.eq_false_iff.mp (hasKey_bracket key line hkey hopens)⟩
  · intro chunk hchunk hheader
    have hline := hnone chunk (hchunks ▸ hchunk)
    rw [hline] at hheader
    exact absurd hheader Bool.false_ne_true

/-- The text before the section never influences a lookup: a file with it and
    any file with the same section after a quiet text give the same. -/
def Uninfluential (sectionName key : Str) (before : List UInt8) : Prop :=
  ∀ f g : Str, textBefore sectionName f.bytes = before →
    Quiet sectionName key (textBefore sectionName g.bytes) →
    SameSection sectionName f.bytes g.bytes → SameLookup sectionName key f.bytes g.bytes

/-- If a text is without influence, the loop examines nothing in it that
    matches or does not fit: on the text alone nothing is found. -/
theorem keys_of_uninfluential (sectionName key file : Str)
    (h : Uninfluential sectionName key (textBefore sectionName file.bytes)) :
    ∀ line ∈ cfgExamined sectionName (cfgChunks (textBefore sectionName file.bytes)),
      (keyText line).length ≤ maxKeyLen ∧ ¬ hasKey key line = true := by
  -- The test is a file that ends where the section would start, against an empty one.
  rcases textBefore_self sectionName _ (textBefore_noHeader sectionName file.bytes) with
    ⟨hself, hnone⟩
  have hsame : SameSection sectionName (beforeOf sectionName file).bytes [] :=
    sameSection_of_none sectionName _ _ hnone rfl
  -- Both files have an empty section, so uninfluential says that both lookups answer alike.
  rcases h (beforeOf sectionName file) (.ofBytes []) hself (quiet_nil sectionName key) hsame
    (fun _ => some (textBefore sectionName file.bytes)) (fun _ => some []) (.ofBytes [])
    (.ofBytes []) (.ofBytes []) (.zeroed _) (.zeroed _) rfl rfl with ⟨r, hr, hr'⟩
  -- An answer at all means that every examined line fitted its buffers.
  have hfits := (cfgLookup_ok_iff _ _ _ _ _ _ _).mp ⟨r, hr⟩ _ rfl
  have hnokey : r = (cmnNokey, [dataStrcpy []]) := (Except.ok.inj hr').symm
  rw [cfgGetKey, cfgLookup_fits (fun _ => some (textBefore sectionName file.bytes)) _ _ _ _ _ _ _
    rfl hfits, hnokey] at hr
  cases hfind : (cfgExamined sectionName
      (cfgChunks (textBefore sectionName file.bytes))).find? (hasKey key) with
  | some line =>
      rw [hfind] at hr
      -- A line with the key would have been found and answered with CMN_OK.
      exact absurd (Prod.mk.inj (Except.ok.inj hr)).1 (by decide)
  | none =>
      have hother := List.find?_eq_none.mp hfind
      intro line hline
      refine ⟨hfits.1 line ?_, hother line hline⟩
      -- Without such a line the whole list was examined, not a part of it.
      rwa [List.takeWhile_eq_self_iff.mpr
        (fun l hl => (Bool.not_eq_true' _).mpr (Bool.eq_false_iff.mpr (hother l hl)))]

/-- A key that the section has is not found after a text that has opened it,
    because the header ends the loop. -/
theorem cfgGetKey_closed (sectionName key : Str) (before : List UInt8) (file : Str)
    (fs : FileSystem) (filename defval : Str) (keyBuf : CharBuf (maxKeyLen + 1))
    (hopen : fs (cfgPath filename) = some (before ++ (sectionOf sectionName file).bytes))
    (hwhole : WholeLines before) (chunk : List UInt8) (hchunk : chunk ∈ cfgChunks before)
    (hheader : isHeaderOf sectionName chunk = true)
    (hkeys : ∀ line ∈ cfgExamined sectionName (cfgChunks before),
      (keyText line).length ≤ maxKeyLen ∧ ¬ hasKey key line = true) :
    cfgGetKey fs filename sectionName key defval keyBuf
      = .ok (cmnNokey, [dataStrcpy defval.bytes]) := by
  -- The section starts with its header, so its first chunk closes what the earlier header opened.
  have hfirst := sectionLines_opens sectionName (fileLines file.bytes) []
    (fun _ h => absurd h.symm (Option.some_ne_none _))
  rw [List.append_nil] at hfirst
  -- Therefore only the text in front of the section is examined.
  have hexamined : cfgExamined sectionName
      (cfgChunks (before ++ (sectionOf sectionName file).bytes))
        = cfgExamined sectionName (cfgChunks before) := by
    rw [cfgChunks_append _ _ hwhole]
    exact cfgExamined_stop sectionName _ _ chunk hchunk hheader (cfgChunks_opens _ hfirst)
  have hfits : LinesFit key (cfgExamined sectionName
      (cfgChunks (before ++ (sectionOf sectionName file).bytes))) := by
    -- None of its lines copies a value, as none of them has the key.
    rw [hexamined]
    exact linesFit_of_forall key _
      (fun line hline => ⟨(hkeys line hline).1, fun h => absurd h (hkeys line hline).2⟩)
  -- Nothing is found, and the default is what data gets.
  rw [cfgGetKey, cfgLookup_fits fs filename sectionName key defval keyBuf _ _ hopen hfits,
    hexamined, List.find?_eq_none.mpr (fun line hline => (hkeys line hline).2)]

/-- If a text of whole lines is without influence, no chunk of it opens a
    section that can have the key. -/
theorem header_of_uninfluential (sectionName key file : Str)
    (h : Uninfluential sectionName key (textBefore sectionName file.bytes)) :
    ∀ chunk ∈ cfgChunks (textBefore sectionName file.bytes), isHeaderOf sectionName chunk = true →
      ¬ Holdable sectionName key ∨ ¬ WholeLines (textBefore sectionName file.bytes) := by
  intro chunk hchunk hheader
  by_cases hwhole : WholeLines (textBefore sectionName file.bytes)
  · refine Or.inl ?_
    rintro ⟨holder, hwithin, line, hline, hentry⟩
    -- The section of a file that has the key, on its own and after the text.
    rcases textBefore_section sectionName holder with ⟨hnothing, hsection⟩
    rcases textBefore_append sectionName _ (textBefore_noHeader sectionName file.bytes)
      (sectionOf sectionName holder).bytes hwhole with ⟨hbefore, hlines⟩
    have hbefore := hbefore.trans (by rw [hnothing, List.append_nil])
    have hafter : SectionWithin sectionName
        ((beforeOf sectionName file).append (sectionOf sectionName holder)).bytes :=
      sectionWithin_same sectionName holder.bytes _ ⟨(hlines.trans hsection).symm, hwithin⟩
    have halone : SectionWithin sectionName (sectionOf sectionName holder).bytes :=
      sectionWithin_same sectionName holder.bytes _ ⟨hsection.symm, hwithin⟩
    have hquiet : Quiet sectionName key
        (textBefore sectionName (sectionOf sectionName holder).bytes) := by
      rw [hnothing]
      exact quiet_nil sectionName key
    rcases h ((beforeOf sectionName file).append (sectionOf sectionName holder))
      (sectionOf sectionName holder) hbefore hquiet ⟨hlines, hafter⟩ (fun _ => some _)
      (fun _ => some _) (.ofBytes []) (.ofBytes []) (.ofBytes []) (.zeroed _) (.zeroed _) rfl rfl
      with ⟨r, hr, hr'⟩
    rw [cfgGetKey_closed sectionName key _ holder _ _ _ _ rfl hwhole chunk hchunk hheader
      (keys_of_uninfluential sectionName key file h)] at hr
    rw [cfgGetKey_quiet _ _ _ _ _ _ _ rfl hquiet halone] at hr'
    -- Alone it gives the key, and after the text it does not.
    have hcode : cmnNokey = (iniLookup sectionName key (.ofBytes [])
        (fileLines (sectionOf sectionName holder).bytes)).1 :=
      congrArg Prod.fst (Except.ok.inj (hr.trans hr'.symm))
    rw [iniLookup_same sectionName key _ _ holder.bytes ⟨hsection, halone⟩,
      iniLookup_ok sectionName key _ _ line hline hentry] at hcode
    exact absurd hcode (by decide)
  · exact Or.inr hwhole

/-- Whatever text stands before the section, and whatever follows it, the
    lookups depend on the section alone exactly if the text before it is
    quiet. -/
theorem cfg_outside_iff (sectionName key file : Str) :
    Uninfluential sectionName key (textBefore sectionName file.bytes)
      ↔ Quiet sectionName key (textBefore sectionName file.bytes) := by
  constructor
  · intro h
    exact ⟨keys_of_uninfluential sectionName key file h,
      header_of_uninfluential sectionName key file h⟩
  · intro hquiet f g hbefore hg hsame
    exact sameLookup_of_quiet sectionName key f g (hbefore ▸ hquiet) hg hsame

/-- A line whose 513th byte begins a header, and an entry. -/
def longLine : Str where
  bytes := List.replicate 512 120 ++ [91, 115, 93, 10, 107, 61, 49, 10]
  noNul := by decide +kernel

/-- Neither this file nor the empty one has the section, but the key is found
    in this file. -/
theorem cfg_outside_taken :
    SameSection (.ofBytes [115]) longLine.bytes [] ∧
      ¬ SameLookup (.ofBytes [115]) (.ofBytes [107]) longLine.bytes [] := by
  have hnone : sectionLines (.ofBytes [115]) (fileLines longLine.bytes) = [] := by decide +kernel
  have hfound : cfgGetKey (fun _ => some longLine.bytes) (.ofBytes [99]) (.ofBytes [115])
      (.ofBytes [107]) (.ofBytes []) (.zeroed 65) = .ok (cmnOk, [⟨0, [49], 1⟩]) := by
    decide +kernel
  refine ⟨sameSection_of_none _ _ _ hnone rfl, fun h => ?_⟩
  rcases h (fun _ => some longLine.bytes) (fun _ => some []) (.ofBytes [99]) (.ofBytes [99])
    (.ofBytes []) (.zeroed 65) (.zeroed 65) rfl rfl with ⟨r, hr, hr'⟩
  have hnokey : r = (cmnNokey, [dataStrcpy []]) := (Except.ok.inj hr').symm
  rw [hfound, hnokey] at hr
  exact absurd (Prod.mk.inj (Except.ok.inj hr)).1 (by decide)

end Aircmn
