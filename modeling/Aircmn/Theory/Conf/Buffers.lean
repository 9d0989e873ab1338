import Aircmn.Theory.Conf.Lookup

/-!
# Token Buffers of the Lookups

`cfg_token_copy` is given a buffer without its size, and copies as much as the
file has. A chunk of a file can have 512 bytes on one side of its first equals
sign, more than either buffer holds, so a file decides whether a lookup stays
in them.

It does exactly if the file cannot be opened, or the tokens fit that are
copied: the keys of the lines examined, up to the first that matches, and the
value of that line. The lines examined include bracketed lines before the
section that do not open it.

## Main definitions

* `CfgFits`: The condition.

## Theorems

* `cfgLookup_ok_iff`: A lookup stays in the buffers exactly on it.
* `cfg_buffers_iff`: Both lookups do.
* `cfg_overruns`: A file that overruns the one, and one that overruns the
  other.
-/

namespace Aircmn

open CString

/-- The tokens that a lookup copies fit their buffers, if the file can be
    opened. -/
def CfgFits (fs : FileSystem) (filename sectionName key : Str) : Prop :=
  ∀ file, fs (cfgPath filename) = some file →
    LinesFit key (cfgExamined sectionName (cfgChunks file))

theorem cfgLookup_overruns (fs : FileSystem) (filename sectionName key defval : Str)
    (keyBuf : CharBuf (maxKeyLen + 1)) (store : List UInt8 → List DataStore) (file : List UInt8)
    (hopen : fs (cfgPath filename) = some file)
    (hfit : ¬ LinesFit key (cfgExamined sectionName (cfgChunks file))) :
    ∃ fault, cfgLookup fs filename sectionName key defval keyBuf store = .error fault := by
  rcases cfgScan_overruns key store _ keyBuf (cfgExamined_noNul sectionName file) hfit with
    ⟨fault, hfault⟩
  refine ⟨fault, ?_⟩
  rw [cfgLookup, hopen]
  simp only [cfgLoop_eq_scan, hfault]

/-- A lookup comes to an end without leaving its buffers exactly if the tokens
    it copies fit. -/
theorem cfgLookup_ok_iff (fs : FileSystem) (filename sectionName key defval : Str)
    (keyBuf : CharBuf (maxKeyLen + 1)) (store : List UInt8 → List DataStore) :
    (∃ r, cfgLookup fs filename sectionName key defval keyBuf store = .ok r)
      ↔ CfgFits fs filename sectionName key := by
  -- A lookup that returns has had every token in its buffer, and with tokens that fit it returns.
  constructor
  · rintro ⟨r, hr⟩ file hopen
    -- Otherwise some copy would have overrun and ended in a fault.
    refine Classical.byContradiction (fun hfit => ?_)
    rcases cfgLookup_overruns fs filename sectionName key defval keyBuf store file hopen hfit with
      ⟨fault, hfault⟩
    rw [hfault] at hr
    exact absurd hr (fun h => nomatch h)
  · intro hfits
    -- A file that cannot be opened is answered with the default, which needs no buffer.
    cases hopen : fs (cfgPath filename) with
    | none =>
        refine ⟨(cmnError, [dataStrcpy defval.bytes]), ?_⟩
        rw [cfgLookup, hopen]
    | some file =>
        exact ⟨_, cfgLookup_fits fs filename sectionName key defval keyBuf store file hopen
          (hfits file hopen)⟩

/-- Both lookups keep to their token buffers exactly if the tokens they copy
    fit, whatever the file, the caller's buffer and its length. -/
theorem cfg_buffers_iff (fs : FileSystem) (filename sectionName key defval : Str)
    (keyBuf : CharBuf (maxKeyLen + 1)) (length : Int32) :
    ((∃ r, cfgGetKey fs filename sectionName key defval keyBuf = .ok r)
        ↔ CfgFits fs filename sectionName key) ∧
      ((∃ r, cfgGetKeyWithLen fs filename sectionName key defval length = .ok r)
        ↔ CfgFits fs filename sectionName key) := by
  rw [cfgGetKeyWithLen_eq]
  exact ⟨cfgLookup_ok_iff fs filename sectionName key defval keyBuf _,
    cfgLookup_ok_iff fs filename sectionName key defval _ _⟩

/-- A section `s` with one line: a key, an equals sign and a value. -/
def oneEntry (key value : List UInt8) : List UInt8 := [91, 115, 93, 10] ++ (key ++ 61 :: value)

/-- A key of 65 bytes, whatever key is looked for, and a value of 129. -/
theorem cfg_overruns :
    (¬ ∃ r, cfgGetKey (fun _ => some (oneEntry (List.replicate 65 97) [])) (.ofBytes [99])
      (.ofBytes [115]) (.ofBytes [107]) (.ofBytes []) (.zeroed 65) = .ok r) ∧
    ¬ ∃ r, cfgGetKeyWithLen (fun _ => some (oneEntry [107] (List.replicate 129 97)))
      (.ofBytes [99]) (.ofBytes [115]) (.ofBytes [107]) (.ofBytes []) 16 = .ok r := by
  -- A key of 65 bytes does not fit the key's buffer, nor a value of 129 the value's.
  have hkey : cfgGetKey (fun _ => some (oneEntry (List.replicate 65 97) [])) (.ofBytes [99])
      (.ofBytes [115]) (.ofBytes [107]) (.ofBytes []) (.zeroed 65) = .error .keyBuf := by
    decide +kernel
  have hvalue : cfgGetKeyWithLen (fun _ => some (oneEntry [107] (List.replicate 129 97)))
      (.ofBytes [99]) (.ofBytes [115]) (.ofBytes [107]) (.ofBytes []) 16
        = .error .valueBuf := by
    decide +kernel
  rw [hkey, hvalue]
  exact ⟨fun h => h.elim (fun _ h => nomatch h), fun h => h.elim (fun _ h => nomatch h)⟩

end Aircmn
