import Aircmn.Core.Conf

/-!
# Lines of a Configuration File

The format that the lookups read, stated on lines: which lines open a
section, which lines a section consists of, and what the key and the value of
a line are. The loop of the source is then two things. It selects the lines
that it tokenises, `cfgExamined`, and it goes through these until a key
matches, `cfgScan`. The selection is what the flags are for, and the tokens
and buffers are all in the second part.

Lines that open another section before the one looked for are selected too,
if they contain an equals sign. Their keys begin with a bracket.

## Main definitions

* `iniTrim`, `keyText`, `valueText`: The tokens of a line.
* `opensSection`, `isHeaderOf`, `isEntry`, `hasKey`: Kinds of lines.
* `sectionBody`: The lines of a section.
* `cfgExamined`: The lines that the loop tokenises.
* `cfgScan`: The loop on these lines.
* `LinesFit`: The tokens that are copied fit their buffers.

## Theorems

* `cfgTokenCopy_eq`: A token is the trimmed text.
* `cfgLine_enter_iff`: The header test.
* `cfgLoopWithLen_eq`: The second loop goes through the chunks as the first.
* `cfgLoop_eq_scan`: The loop scans the lines it examines.
* `cfgScan_fits`, `cfgScan_overruns`: What the scan returns.
-/

namespace Aircmn

open CString

/-- Leading blanks and tabs, and trailing blanks, tabs and newlines, removed. -/
def iniTrim (s : List UInt8) : List UInt8 := trim isBlank isBlankOrNewline s

/-- The text before the first equals sign. -/
def keyText (line : List UInt8) : List UInt8 := iniTrim (line.takeWhile (fun c => c != 61))

/-- The text after the first equals sign. -/
def valueText (line : List UInt8) : List UInt8 :=
  iniTrim (line.dropWhile (fun c => c != 61)).tail

/-- The line begins with `[`. -/
def opensSection (line : List UInt8) : Bool := line.head? == some 91

/-- The line starts with a bracket, the section name and a bracket. -/
def isHeaderOf (sectionName : Str) (line : List UInt8) : Bool :=
  (line.take (sectionName.bytes.length + 2)).map toLower
    == (91 :: (sectionName.bytes ++ [93])).map toLower

/-- The line is not a comment, and has an equals sign. -/
def isEntry (line : List UInt8) : Bool := line.head? != some 35 && line.contains 61

/-- The key of the line is `key`, in any case. -/
def hasKey (key : Str) (line : List UInt8) : Bool :=
  (keyText line).map toLower == key.bytes.map toLower

/-- The lines after the header of a section, up to the next section. -/
def sectionBody (sectionName : Str) (lines : List (List UInt8)) : List (List UInt8) :=
  (lines.dropWhile (fun line => !isHeaderOf sectionName line)).tail.takeWhile
    (fun line => !opensSection line)

/-- The lines that the loop tokenises. -/
def cfgExamined (sectionName : Str) (lines : List (List UInt8)) : List (List UInt8) :=
  (lines.takeWhile (fun line => !isHeaderOf sectionName line)).filter
      (fun line => opensSection line && line.contains 61)
    ++ (sectionBody sectionName lines).filter isEntry

/-- The loop on lines that are tokenised. -/
def cfgScan (key : Str) (store : List UInt8 → List DataStore) :
    CharBuf (maxKeyLen + 1) → List (List UInt8) → Except ConfFault (Option (List DataStore))
  | _, [] => .ok none
  | keyBuf, line :: rest =>
    match cfgTokenCopy keyBuf (line.takeWhile (fun c => c != 61)) with
    | none => .error .keyBuf
    | some keyBuf =>
      if strcasecmp key.bytes keyBuf.str = 0 then
        match cfgTokenCopy (.zeroed (maxValueLen + 1))
          (line.dropWhile (fun c => c != 61)).tail with
        | none => .error .valueBuf
        | some valueBuf => .ok (some (store valueBuf.str))
      else cfgScan key store keyBuf rest

/-- The keys up to the first that matches fit their buffer, and so does the
    value of that line. -/
def LinesFit (key : Str) (lines : List (List UInt8)) : Prop :=
  (∀ line ∈ lines.takeWhile (fun line => !hasKey key line),
      (keyText line).length ≤ maxKeyLen) ∧
    ∀ line, lines.find? (hasKey key) = some line →
      (keyText line).length ≤ maxKeyLen ∧ (valueText line).length ≤ maxValueLen

theorem strncpy_take {n : Nat} (b : CharBuf n) (src : List UInt8) (k : Nat)
    (hk : k ≤ src.length) :
    b.strncpy src k = b.strncpy (src.take k) (src.take k).length := by
  rw [CharBuf.strncpy, CharBuf.strncpy, List.take_length, Nat.sub_self, Nat.sub_eq_zero_of_le hk]

theorem strncpy_nil {n : Nat} (b : CharBuf n) : b.strncpy [] 0 = some b := by
  unfold CharBuf.strncpy CharBuf.write
  exact dif_pos (Nat.zero_le n)

/-- The copy stores the trimmed text and a zero. -/
theorem cfgTokenCopy_eq {n : Nat} (dst : CharBuf n) (src : List UInt8) :
    cfgTokenCopy dst src = (dst.strncpy (iniTrim src) (iniTrim src).length).bind
      (fun dst => dst.write (iniTrim src).length [0]) := by
  have htrim := trim_eq_take isBlank isBlankOrNewline src
  unfold cfgTokenCopy iniTrim
  rw [htrim]
  generalize (src.takeWhile isBlank).length = i at *
  generalize (src.reverse.takeWhile isBlankOrNewline).length = k at *
  have hdrop : (src.drop i).length = src.length - i := List.length_drop
  -- Either something is left between the runs, or they meet.
  by_cases hij : (i : Int) ≤ src.length - 1 - k
  · have hlen : ((src.length : Int) - 1 - k - i + 1).toNat = src.length - i - k := by omega
    have htake : ((src.drop i).take (src.length - i - k)).length = src.length - i - k := by
      rw [List.length_take, hdrop]
      omega
    simp only [if_pos hij, Int.toNat_natCast, hlen]
    rw [strncpy_take dst _ _ (by omega), htake]
  · simp only [if_neg hij]
    rw [show src.length - i - k = 0 by omega, List.take_zero, List.length_nil, strncpy_nil,
      Option.bind_some]

theorem cfgTokenCopy_fits {n : Nat} (dst : CharBuf n) (src : List UInt8) (hnul : 0 ∉ src)
    (hlen : (iniTrim src).length < n) :
    ∃ b, cfgTokenCopy dst src = some b ∧ b.str = iniTrim src := by
  rw [cfgTokenCopy_eq]
  exact store_fits dst _ (noNul_trim _ _ _ hnul) hlen

theorem cfgTokenCopy_overruns {n : Nat} (dst : CharBuf n) (src : List UInt8)
    (hlen : n ≤ (iniTrim src).length) : cfgTokenCopy dst src = none := by
  rw [cfgTokenCopy_eq]
  exact store_overruns dst _ hlen

theorem isHeaderOf_opens (sectionName : Str) (line : List UInt8)
    (h : isHeaderOf sectionName line = true) : ∃ rest, line = 91 :: rest := by
  cases line with
  | nil =>
      rw [isHeaderOf, List.take_nil, List.map_nil, List.map_cons] at h
      exact absurd (beq_iff_eq.mp h) (fun h => nomatch h)
  | cons c rest =>
      rw [isHeaderOf, List.take_succ_cons, List.map_cons, List.map_cons] at h
      have hc : toLower c = 91 := (List.cons.inj (beq_iff_eq.mp h)).1
      exact ⟨rest, by rw [eq_of_toLower c 91 hc (by decide)]⟩

/-- The comparison of a bracketed line with a section name, and the character
    after it, are the header test. -/
theorem cfgLine_enter_iff (sectionName : Str) (rest : List UInt8) :
    (strncasecmp sectionName.bytes ((91 :: rest).drop 1) sectionName.bytes.length = 0 ∧
      (91 :: rest)[sectionName.bytes.length + 1]? = some 93)
        ↔ isHeaderOf sectionName (91 :: rest) = true := by
  have htake : rest.take (sectionName.bytes.length + 1)
      = rest.take sectionName.bytes.length ++ rest[sectionName.bytes.length]?.toList :=
    List.take_add_one
  rw [List.drop_one, List.tail_cons, strncasecmp_eq_zero _ _ sectionName.noNul,
    List.getElem?_cons_succ, isHeaderOf, beq_iff_eq, List.take_succ_cons, List.map_cons,
    List.map_cons, List.cons.injEq, htake, List.map_append, List.map_append]
  constructor
  · rintro ⟨hname, hclose⟩
    rw [hname, hclose]
    exact ⟨rfl, rfl⟩
  · rintro ⟨_, heq⟩
    -- The lengths agree, so the line is long enough to have the bracket.
    have hlen := congrArg List.length heq
    simp only [List.length_append, List.length_map, List.length_take, List.length_singleton]
      at hlen
    cases hclose : rest[sectionName.bytes.length]? with
    | none =>
        rw [hclose, Option.toList_none, List.length_nil] at hlen
        omega
    | some c =>
        rw [hclose] at heq hlen
        rw [Option.toList_some, List.length_singleton] at hlen
        have hsplit : (rest.take sectionName.bytes.length).length
            = sectionName.bytes.length := by
          rw [List.length_take]
          omega
        rcases List.append_inj heq (by rw [List.length_map, List.length_map, hsplit])
          with ⟨hname, hlast⟩
        have hc : toLower c = 93 := (List.cons.inj hlast).1
        exact ⟨hname, by rw [eq_of_toLower c 93 hc (by decide)]⟩

theorem cfgLine_bracket (sectionName : Str) (rest : List UInt8) :
    cfgLine sectionName false (91 :: rest)
      = if isHeaderOf sectionName (91 :: rest) then .enter else .examine := by
  have hiff := cfgLine_enter_iff sectionName rest
  unfold cfgLine
  rw [if_pos List.head?_cons, if_neg Bool.false_ne_true]
  by_cases hheader : isHeaderOf sectionName (91 :: rest) = true
  · rw [if_pos (hiff.mpr hheader), if_pos hheader]
  · rw [if_neg (fun h => hheader (hiff.mp h)), if_neg hheader]

/-- A round of the loop that tokenises its line, or finds nothing to. -/
theorem cfgLoop_examine (sectionName key : Str) (store : List UInt8 → List DataStore)
    (found : Bool) (keyBuf : CharBuf (maxKeyLen + 1)) (line : List UInt8)
    (rest tail : List (List UInt8)) (hkind : cfgLine sectionName found line = .examine)
    (hrest : ∀ keyBuf, cfgLoop sectionName key store found keyBuf rest
      = cfgScan key store keyBuf tail) :
    cfgLoop sectionName key store found keyBuf (line :: rest)
      = cfgScan key store keyBuf (if line.contains 61 then line :: tail else tail) := by
  rw [cfgLoop, hkind]
  cases hpos : strchr line 61 with
  | none =>
      -- A line without an equals sign is passed over.
      have hnone : ¬ line.contains 61 = true := by
        rw [List.contains_iff_mem]
        exact (strchr_none line 61).mp hpos
      rw [if_neg hnone]
      exact hrest keyBuf
  | some p =>
      have hsome : line.contains 61 = true := by
        rw [List.contains_iff_mem]
        refine Classical.byContradiction (fun h => ?_)
        rw [(strchr_none line 61).mpr h] at hpos
        exact absurd hpos (fun h => nomatch h)
      -- The pointer found divides the line as `keyText` and `valueText` do.
      rcases strchr_some line 61 p hpos with ⟨htake, hdrop⟩
      rw [if_pos hsome, cfgScan]
      simp only [htake, hdrop]
      cases cfgTokenCopy keyBuf (line.takeWhile (fun c => c != 61)) with
      | none => rfl
      | some keyBuf' => exact congrArg (ite _ _) (hrest keyBuf')

/-- A round of the second loop is one of the first. -/
theorem cfgLoopWithLen_cons (sectionName key : Str) (length : Int32) (found : Bool)
    (keyBuf : CharBuf (maxKeyLen + 1)) (buffer : List UInt8) (rest : List (List UInt8))
    (hrest : ∀ found keyBuf, cfgLoopWithLen sectionName key length found keyBuf rest
      = cfgLoop sectionName key (cfgStoreWithLen length) found keyBuf rest) :
    cfgLoopWithLen sectionName key length found keyBuf (buffer :: rest)
      = cfgLoop sectionName key (cfgStoreWithLen length) found keyBuf (buffer :: rest) := by
  rw [cfgLoopWithLen, cfgLoop]
  simp only [hrest]
  -- Each outcome of the tests on the first character is one of the guards.
  by_cases hopen : buffer.head? = some 91
  · by_cases hfound : found = true
    · have hkind : cfgLine sectionName found buffer = .stop := by
        rw [cfgLine, if_pos hopen, if_pos hfound]
      rw [hkind, if_pos ⟨hopen, hfound⟩]
    · rw [if_neg (fun h => hfound h.2)]
      by_cases henter : strncasecmp sectionName.bytes (buffer.drop 1) sectionName.bytes.length = 0 ∧
          buffer[sectionName.bytes.length + 1]? = some 93
      · have hkind : cfgLine sectionName found buffer = .enter := by
          rw [cfgLine, if_pos hopen, if_neg hfound, if_pos henter]
        rw [hkind, if_pos ⟨hopen, henter⟩]
      · have hkind : cfgLine sectionName found buffer = .examine := by
          rw [cfgLine, if_pos hopen, if_neg hfound, if_neg henter]
        rw [hkind, if_neg (fun h => henter h.2), if_neg (fun h => h.1 hopen)]
  · rw [if_neg (fun h => hopen h.1), if_neg (fun h => hopen h.1)]
    by_cases hskip : found = false ∨ buffer.head? = some 35
    · have hkind : cfgLine sectionName found buffer = .skip := by
        rw [cfgLine, if_neg hopen, if_pos hskip]
      rw [hkind, if_pos ⟨hopen, hskip⟩]
    · have hkind : cfgLine sectionName found buffer = .examine := by
        rw [cfgLine, if_neg hopen, if_neg hskip]
      rw [hkind, if_neg (fun h => hskip h.2)]

/-- The two loops agree, given the stores of the second. -/
theorem cfgLoopWithLen_eq (sectionName key : Str) (length : Int32) :
    ∀ (lines : List (List UInt8)) (found : Bool) (keyBuf : CharBuf (maxKeyLen + 1)),
      cfgLoopWithLen sectionName key length found keyBuf lines
        = cfgLoop sectionName key (cfgStoreWithLen length) found keyBuf lines := by
  intro lines
  induction lines with
  | nil =>
      intro found keyBuf
      rfl
  | cons line rest ih =>
      intro found keyBuf
      exact cfgLoopWithLen_cons sectionName key length found keyBuf line rest ih

/-- Inside the section the loop scans the entries up to the next section. -/
theorem cfgLoop_body (sectionName key : Str) (store : List UInt8 → List DataStore) :
    ∀ (lines : List (List UInt8)) (keyBuf : CharBuf (maxKeyLen + 1)),
      cfgLoop sectionName key store true keyBuf lines
        = cfgScan key store keyBuf
          ((lines.takeWhile (fun line => !opensSection line)).filter isEntry) := by
  intro lines
  -- Only the lines up to the next section are looked at, in the order they stand in.
  induction lines with
  | nil =>
      intro keyBuf
      rfl
  | cons line rest ih =>
      intro keyBuf
      rw [List.takeWhile_cons]
      -- A line that starts with [ ends the loop before its key is looked at.
      by_cases hopen : line.head? = some 91
      · -- The next section ends the loop.
        have hkind : cfgLine sectionName true line = .stop := by
          rw [cfgLine, if_pos hopen, if_pos rfl]
        rw [cfgLoop, hkind, opensSection, hopen]
        rfl
      · have hclosed : (!opensSection line) = true := by
          rw [opensSection, Bool.not_eq_true', beq_eq_false_iff_ne]
          exact hopen
        -- Any other line is kept by the filter or passed over, as isEntry says.
        rw [if_pos hclosed, List.filter_cons]
        by_cases hcomment : line.head? = some 35
        · have hkind : cfgLine sectionName true line = .skip := by
            rw [cfgLine, if_neg hopen, if_pos (Or.inr hcomment)]
          have hentry : ¬ isEntry line = true := by
            rw [isEntry, hcomment]
            exact Bool.false_ne_true
          rw [cfgLoop, hkind, if_neg hentry]
          exact ih keyBuf
        -- A line that is no comment is an entry if and only if it holds a =.
        · have hkind : cfgLine sectionName true line = .examine := by
            rw [cfgLine, if_neg hopen, if_neg]
            rintro (hc | hc)
            · exact absurd hc (by decide)
            · exact hcomment hc
          have hentry : isEntry line = line.contains 61 := by
            rw [isEntry, bne_iff_ne.mpr hcomment, Bool.true_and]
          rw [cfgLoop_examine sectionName key store true keyBuf line rest _ hkind ih, hentry]

/-- The loop scans the lines it examines. -/
theorem cfgLoop_eq_scan (sectionName key : Str) (store : List UInt8 → List DataStore) :
    ∀ (lines : List (List UInt8)) (keyBuf : CharBuf (maxKeyLen + 1)),
      cfgLoop sectionName key store false keyBuf lines
        = cfgScan key store keyBuf (cfgExamined sectionName lines) := by
  intro lines
  induction lines with
  | nil =>
      intro keyBuf
      rfl
  -- Three kinds of line: the header, another header, and a line before any section.
  | cons line rest ih =>
      intro keyBuf
      unfold cfgExamined sectionBody
      rw [List.takeWhile_cons, List.dropWhile_cons]
      by_cases hheader : isHeaderOf sectionName line = true
      · -- The section begins, and what follows is its body.
        rcases isHeaderOf_opens sectionName line hheader with ⟨tail, htail⟩
        have hkind : cfgLine sectionName false line = .enter := by
          rw [htail, cfgLine_bracket, if_pos (htail ▸ hheader)]
        rw [cfgLoop, hkind, hheader]
        exact cfgLoop_body sectionName key store rest keyBuf
      -- Lines before the header are filtered as entries, lines after it as its body.
      · have hother : (!isHeaderOf sectionName line) = true := by
          rw [Bool.not_eq_true', Bool.eq_false_iff]
          exact hheader
        rw [if_pos hother, if_pos hother, List.filter_cons]
        by_cases hopen : line.head? = some 91
        · -- Another section's header falls through to the search for a key.
          have hkind : cfgLine sectionName false line = .examine := by
            rcases List.head?_eq_some_iff.mp hopen with ⟨tail, htail⟩
            rw [htail, cfgLine_bracket, if_neg (htail ▸ hheader)]
          have hselect : (opensSection line && line.contains 61) = line.contains 61 := by
            rw [opensSection, hopen, beq_self_eq_true, Bool.true_and]
          rw [cfgLoop_examine sectionName key store false keyBuf line rest _ hkind ih, hselect]
          by_cases hequals : line.contains 61 = true
          · rw [if_pos hequals, if_pos hequals, List.cons_append]
            rfl
          · rw [if_neg hequals, if_neg hequals]
            rfl
        -- Before the first section a line without [ is passed over, whatever it holds.
        · have hkind : cfgLine sectionName false line = .skip := by
            rw [cfgLine, if_neg hopen, if_pos (Or.inl rfl)]
          have hselect : ¬ (opensSection line && line.contains 61) = true := by
            rw [opensSection, beq_eq_false_iff_ne.mpr hopen, Bool.false_and]
            exact Bool.false_ne_true
          rw [cfgLoop, hkind, if_neg hselect]
          exact ih keyBuf

theorem noNul_keyPart (line : List UInt8) (h : 0 ∉ line) :
    0 ∉ line.takeWhile (fun c => c != 61) :=
  fun hmem => h ((List.takeWhile_prefix _).subset hmem)

theorem noNul_valuePart (line : List UInt8) (h : 0 ∉ line) :
    0 ∉ (line.dropWhile (fun c => c != 61)).tail :=
  fun hmem => h ((List.dropWhile_suffix _).subset (List.mem_of_mem_tail hmem))

/-- The comparison with a copied key is the test on the line. -/
theorem strcasecmp_keyText (key : Str) (line : List UInt8) (h : 0 ∉ line) :
    strcasecmp key.bytes (keyText line) = 0 ↔ hasKey key line = true := by
  have hkey : 0 ∉ keyText line := noNul_trim _ _ _ (noNul_keyPart line h)
  rw [strcasecmp_eq_zero _ _ key.noNul hkey, hasKey, beq_iff_eq]
  exact eq_comm

theorem linesFit_match (key : Str) (line : List UInt8) (rest : List (List UInt8))
    (h : hasKey key line = true) : LinesFit key (line :: rest) ↔
      (keyText line).length ≤ maxKeyLen ∧ (valueText line).length ≤ maxValueLen := by
  have hstop : ¬ (!hasKey key line) = true := by
    rw [h]
    exact Bool.false_ne_true
  unfold LinesFit
  rw [List.takeWhile_cons, if_neg hstop, List.find?_cons_of_pos h]
  constructor
  · exact fun hfit => hfit.2 line rfl
  · refine fun hfit => ⟨fun _ hmem => absurd hmem List.not_mem_nil, fun l hl => ?_⟩
    rw [← Option.some.inj hl]
    exact hfit

theorem linesFit_other (key : Str) (line : List UInt8) (rest : List (List UInt8))
    (h : ¬ hasKey key line = true) : LinesFit key (line :: rest) ↔
      (keyText line).length ≤ maxKeyLen ∧ LinesFit key rest := by
  have hgo : (!hasKey key line) = true := by
    rw [Bool.not_eq_true', Bool.eq_false_iff]
    exact h
  unfold LinesFit
  rw [List.takeWhile_cons, if_pos hgo, List.find?_cons_of_neg h, List.forall_mem_cons, and_assoc]

section Scan

variable (key : Str) (store : List UInt8 → List DataStore) (keyBuf : CharBuf (maxKeyLen + 1))
  (line : List UInt8) (rest : List (List UInt8)) (hnul : 0 ∉ line)

theorem cfgScan_keyFault (hlen : maxKeyLen < (keyText line).length) :
    cfgScan key store keyBuf (line :: rest) = .error .keyBuf := by
  rw [cfgScan, cfgTokenCopy_overruns keyBuf _ hlen]

include hnul

/-- A key that fits is copied, and compared with the one looked for. -/
theorem cfgScan_copied (hlen : (keyText line).length ≤ maxKeyLen) :
    ∃ keyBuf' : CharBuf (maxKeyLen + 1), keyBuf'.str = keyText line ∧
      cfgTokenCopy keyBuf (line.takeWhile (fun c => c != 61)) = some keyBuf' ∧
      (strcasecmp key.bytes keyBuf'.str = 0 ↔ hasKey key line = true) := by
  rcases cfgTokenCopy_fits keyBuf _ (noNul_keyPart line hnul) (Nat.lt_succ_of_le hlen) with
    ⟨keyBuf', hcopy, hstr⟩
  refine ⟨keyBuf', hstr, hcopy, ?_⟩
  rw [hstr]
  exact strcasecmp_keyText key line hnul

theorem cfgScan_next (hlen : (keyText line).length ≤ maxKeyLen) (hkey : ¬ hasKey key line = true) :
    ∃ keyBuf', cfgScan key store keyBuf (line :: rest) = cfgScan key store keyBuf' rest := by
  rcases cfgScan_copied key keyBuf line hnul hlen with ⟨keyBuf', _, hcopy, hcompare⟩
  refine ⟨keyBuf', ?_⟩
  rw [cfgScan, hcopy]
  exact if_neg (fun hc => hkey (hcompare.mp hc))

theorem cfgScan_valueFault (hlen : (keyText line).length ≤ maxKeyLen)
    (hkey : hasKey key line = true) (hvalue : maxValueLen < (valueText line).length) :
    cfgScan key store keyBuf (line :: rest) = .error .valueBuf := by
  rcases cfgScan_copied key keyBuf line hnul hlen with ⟨keyBuf', _, hcopy, hcompare⟩
  rw [cfgScan, hcopy]
  simp only [if_pos (hcompare.mpr hkey)]
  rw [cfgTokenCopy_overruns _ _ hvalue]

theorem cfgScan_found (hlen : (keyText line).length ≤ maxKeyLen) (hkey : hasKey key line = true)
    (hvalue : (valueText line).length ≤ maxValueLen) :
    cfgScan key store keyBuf (line :: rest) = .ok (some (store (valueText line))) := by
  rcases cfgScan_copied key keyBuf line hnul hlen with ⟨keyBuf', _, hcopy, hcompare⟩
  rcases cfgTokenCopy_fits (.zeroed (maxValueLen + 1)) _ (noNul_valuePart line hnul)
    (Nat.lt_succ_of_le hvalue) with ⟨valueBuf, hcopied, hstr⟩
  rw [cfgScan, hcopy]
  simp only [if_pos (hcompare.mpr hkey)]
  rw [hcopied]
  exact congrArg (fun value => Except.ok (some (store value))) hstr

end Scan

/-- If the tokens fit, the scan finds the first line with the key. -/
theorem cfgScan_fits (key : Str) (store : List UInt8 → List DataStore) :
    ∀ (lines : List (List UInt8)) (keyBuf : CharBuf (maxKeyLen + 1)),
      (∀ line ∈ lines, 0 ∉ line) → LinesFit key lines →
      cfgScan key store keyBuf lines
        = .ok ((lines.find? (hasKey key)).map (fun line => store (valueText line))) := by
  -- The scan ends at the line that has the key, and the lines behind it are never copied.
  intro lines
  induction lines with
  | nil =>
      intro keyBuf _ _
      rfl
  | cons line rest ih =>
      intro keyBuf hnul hfit
      have hline := hnul line List.mem_cons_self
      -- A line with another key still has its key copied, so it must fit.
      by_cases hkey : hasKey key line = true
      · -- The scan ends here, so the later lines need not fit.
        rcases (linesFit_match key line rest hkey).mp hfit with ⟨hlen, hvalue⟩
        rw [cfgScan_found key store keyBuf line rest hline hlen hkey hvalue,
          List.find?_cons_of_pos hkey]
        rfl
      · rcases (linesFit_other key line rest hkey).mp hfit with ⟨hlen, hrest⟩
        rcases cfgScan_next key store keyBuf line rest hline hlen hkey with ⟨keyBuf', hnext⟩
        rw [hnext, List.find?_cons_of_neg hkey]
        exact ih keyBuf' (fun l hl => hnul l (List.mem_cons_of_mem line hl)) hrest

/-- If they do not, it overruns a buffer. -/
theorem cfgScan_overruns (key : Str) (store : List UInt8 → List DataStore) :
    ∀ (lines : List (List UInt8)) (keyBuf : CharBuf (maxKeyLen + 1)),
      (∀ line ∈ lines, 0 ∉ line) → ¬ LinesFit key lines →
      ∃ fault, cfgScan key store keyBuf lines = .error fault := by
  intro lines
  induction lines with
  | nil =>
      intro keyBuf _ hfit
      exact absurd ⟨fun _ h => absurd h List.not_mem_nil, fun _ h => nomatch h⟩ hfit
  | cons line rest ih =>
      intro keyBuf hnul hfit
      have hline := hnul line List.mem_cons_self
      -- The first line at fault is this one, by its key or by its value, or a
      -- later one.
      by_cases hlen : (keyText line).length ≤ maxKeyLen
      · by_cases hkey : hasKey key line = true
        · refine ⟨.valueBuf, cfgScan_valueFault key store keyBuf line rest hline hlen hkey ?_⟩
          exact Nat.lt_of_not_le
            (fun hle => hfit ((linesFit_match key line rest hkey).mpr ⟨hlen, hle⟩))
        · rcases cfgScan_next key store keyBuf line rest hline hlen hkey with ⟨keyBuf', hnext⟩
          rw [hnext]
          exact ih keyBuf' (fun l hl => hnul l (List.mem_cons_of_mem line hl))
            (fun hrest => hfit ((linesFit_other key line rest hkey).mpr ⟨hlen, hrest⟩))
      · exact ⟨.keyBuf, cfgScan_keyFault key store keyBuf line rest (Nat.lt_of_not_le hlen)⟩

end Aircmn
