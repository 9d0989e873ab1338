import Aircmn.Theory.Conf.Buffers

/-!
# What the Lookups Leave in the Caller's Buffer

Both lookups store a string at `data`, the first one the value found, the
second one as much of it as the caller's length has room for. So the second
gives a prefix of what the first gives, with the same code. Their loops are
two copies of one text and have been shown to agree, and what is left is how a
value is stored.

The length bounds the stores of a value, if it is at least one, but nothing
else. The default is stored by `strcpy` on two of the four paths, whatever the
length, and for a length of zero or less the value is stored by a `strncpy`
with `length - 1` converted to an unsigned number.

## Main definitions

* `DataStore.Covers`, `DataStore.apply`, `runStores`: The effect of stores.
* `HoldsString`: What the caller finds.
* `cfgFound`: The value that a lookup finds.
* `DataWithin`, `LengthRespected`: The stores keep to the length.

## Theorems

* `cfgLookup_found`: The code and the stores of a lookup.
* `holds_strcpy`, `holds_storeWithLen`: A value stored whole, and cut.
* `cfg_lookups_agree`: The second lookup gives a prefix of what the first does.
* `cfg_lookups_truncated`: A value of five bytes, and a length of three.
* `cfg_length_iff`: When the stores keep to the length.
* `cfg_length_ignored`: A default of two bytes, and a length of one.
-/

namespace Aircmn

open CString

/-- Memory, indexed from `data`. -/
abbrev DataMem := Int → UInt8

/-- The byte `i` is one of those stored. -/
def DataStore.Covers (store : DataStore) (i : Int) : Prop :=
  store.offset ≤ i ∧ i < store.offset + store.bytes.length + store.zeros

instance (store : DataStore) (i : Int) : Decidable (store.Covers i) := instDecidableAnd

/-- The bytes of the store and then its zeros, over what was there. -/
def DataStore.apply (m : DataMem) (store : DataStore) : DataMem := fun i =>
  if store.Covers i then (store.bytes[(i - store.offset).toNat]?).getD 0 else m i

/-- Stores one after the other. -/
def runStores (m : DataMem) (stores : List DataStore) : DataMem :=
  stores.foldl DataStore.apply m

/-- A string and its zero are at `data`. -/
def HoldsString (m : DataMem) (s : List UInt8) : Prop :=
  (∀ (i : Nat) (h : i < s.length), m i = s[i]) ∧ m s.length = 0

/-- The value that a lookup finds, if it does. -/
def cfgFound (fs : FileSystem) (filename sectionName key : Str) : Option (List UInt8) :=
  (fs (cfgPath filename)).bind (fun file =>
    ((cfgExamined sectionName (cfgChunks file)).find? (hasKey key)).map valueText)

theorem noNul_found (fs : FileSystem) (filename sectionName key : Str) (value : List UInt8)
    (h : cfgFound fs filename sectionName key = some value) : 0 ∉ value := by
  rcases Option.bind_eq_some_iff.mp h with ⟨file, _, hmap⟩
  rcases Option.map_eq_some_iff.mp hmap with ⟨line, hline, hvalue⟩
  have hnul := cfgExamined_noNul sectionName file line (List.mem_of_find?_eq_some hline)
  rw [← hvalue]
  exact noNul_trim _ _ _ (noNul_valuePart line hnul)

/-- The code of a lookup depends neither on the buffers nor on the stores. A
    value that is found is stored, and the default if none is. -/
theorem cfgLookup_found (fs : FileSystem) (filename sectionName key defval : Str)
    (hfits : CfgFits fs filename sectionName key) :
    ∃ code, (code = cmnOk ↔ cfgFound fs filename sectionName key ≠ none) ∧
      ∀ keyBuf store, cfgLookup fs filename sectionName key defval keyBuf store
        = .ok (code, match cfgFound fs filename sectionName key with
          | some value => store value
          | none => [dataStrcpy defval.bytes]) := by
  unfold cfgFound
  -- A file that does not open, one without the key, and one with it.
  cases hopen : fs (cfgPath filename) with
  | none =>
      refine ⟨cmnError, iff_of_false (by decide) (fun h => h rfl), fun keyBuf store => ?_⟩
      rw [cfgLookup, hopen]
      rfl
  | some file =>
      -- What is found does not depend on the buffers, only on the lines.
      have hlookup := fun keyBuf store => cfgLookup_fits fs filename sectionName key defval keyBuf
        store file hopen (hfits file hopen)
      rw [Option.bind_some]
      cases hfind : (cfgExamined sectionName (cfgChunks file)).find? (hasKey key) with
      | none =>
          refine ⟨cmnNokey, iff_of_false (by decide) (fun h => h rfl), fun keyBuf store => ?_⟩
          rw [hlookup, hfind]
          rfl
      | some line =>
          refine ⟨cmnOk, iff_of_true rfl (Option.some_ne_none _), fun keyBuf store => ?_⟩
          rw [hlookup, hfind]
          rfl

/-- The index of the terminating zero of a value that is cut. -/
theorem length_pred (length : Int32) (h : 1 ≤ length.toInt) :
    (length - 1).toInt = length.toInt - 1 ∧ sizeOfInt (length - 1) = length.toInt.toNat - 1 := by
  have hsub : (length - 1).toInt = length.toInt - 1 :=
    int32_sub_toInt length 1 (by decide) (by rw [Int32.toInt_one]; omega)
  refine ⟨hsub, ?_⟩
  rw [sizeOfInt_of_nonneg _ (by omega), hsub]
  omega

theorem apply_covered (m : DataMem) (store : DataStore) (i : Int) (h : store.Covers i) :
    store.apply m i = (store.bytes[(i - store.offset).toNat]?).getD 0 := if_pos h

theorem apply_other (m : DataMem) (store : DataStore) (i : Int) (h : ¬ store.Covers i) :
    store.apply m i = m i := if_neg h

theorem covers_strcpy (s : List UInt8) (i : Int) :
    (dataStrcpy s).Covers i ↔ 0 ≤ i ∧ i ≤ s.length := by
  simp only [DataStore.Covers, dataStrcpy]
  omega

theorem covers_strncpy (s : List UInt8) (n : Nat) (i : Int) :
    (dataStrncpy s n).Covers i ↔ 0 ≤ i ∧ i < n := by
  simp only [DataStore.Covers, dataStrncpy, List.length_take]
  omega

theorem covers_zero (k i : Int) : (DataStore.mk k [] 1).Covers i ↔ i = k := by
  simp only [DataStore.Covers, List.length_nil]
  omega

theorem holds_strcpy (m : DataMem) (s : List UInt8) :
    HoldsString (runStores m [dataStrcpy s]) s := by
  constructor
  · intro i h
    have hcovers := (covers_strcpy s i).mpr ⟨by omega, by omega⟩
    rw [runStores, List.foldl_cons, List.foldl_nil, apply_covered m _ i hcovers]
    simp [dataStrcpy, h]
  · have hcovers := (covers_strcpy s s.length).mpr ⟨by omega, by omega⟩
    rw [runStores, List.foldl_cons, List.foldl_nil, apply_covered m _ _ hcovers]
    simp [dataStrcpy]

/-- A value stored under a length is cut off before its last byte, if it does
    not fit. -/
theorem holds_storeWithLen (m : DataMem) (length : Int32) (value : List UInt8)
    (hlength : 1 ≤ length.toInt) :
    HoldsString (runStores m (cfgStoreWithLen length value))
      (value.take (length.toInt.toNat - 1)) := by
  unfold cfgStoreWithLen
  by_cases hfits : (value.length : Int) < length.toInt
  · rw [if_pos hfits, List.take_of_length_le (by omega)]
    exact holds_strcpy m value
  · rw [if_neg hfits]
    rcases length_pred length hlength with ⟨hint, hsize⟩
    simp only [hint, hsize]
    have hcut : (value.take (length.toInt.toNat - 1)).length = length.toInt.toNat - 1 := by
      rw [List.length_take]
      omega
    constructor
    · intro i h
      -- The copy stores this byte, and the zero comes after it.
      have hcopied := (covers_strncpy value (length.toInt.toNat - 1) i).mpr ⟨by omega, by omega⟩
      have hkept : ¬ (DataStore.mk (length.toInt - 1) [] 1).Covers i := by
        rw [covers_zero]
        omega
      rw [runStores, List.foldl_cons, List.foldl_cons, List.foldl_nil, apply_other _ _ _ hkept,
        apply_covered m _ i hcopied]
      simp only [dataStrncpy, Int.sub_zero, Int.toNat_natCast]
      rw [List.getElem?_eq_getElem h, Option.getD_some]
    · have hend := (covers_zero (length.toInt - 1) (length.toInt - 1)).mpr rfl
      have hindex : ((value.take (length.toInt.toNat - 1)).length : Int) = length.toInt - 1 := by
        rw [hcut]
        omega
      rw [hindex, runStores, List.foldl_cons, List.foldl_cons, List.foldl_nil,
        apply_covered _ _ _ hend]
      rfl

/-- On every file that keeps to the token buffers, `cfg_get_key_with_len` has
    the code of `cfg_get_key`, and leaves the first `length - 1` bytes of the
    string that `cfg_get_key` leaves, or all of it, with a zero. -/
theorem cfg_lookups_agree (fs : FileSystem) (filename sectionName key defval : Str)
    (keyBuf : CharBuf (maxKeyLen + 1)) (length : Int32) (hlength : 1 ≤ length.toInt)
    (hfits : CfgFits fs filename sectionName key) :
    ∃ code stores storesWithLen,
      cfgGetKey fs filename sectionName key defval keyBuf = .ok (code, stores) ∧
      cfgGetKeyWithLen fs filename sectionName key defval length = .ok (code, storesWithLen) ∧
      (code = cmnOk → ∃ value : Str, ∀ m, HoldsString (runStores m stores) value.bytes ∧
        HoldsString (runStores m storesWithLen)
          (value.bytes.take (min value.bytes.length (length.toInt.toNat - 1)))) := by
  -- Both lookups make the same search; only what they store at the end differs.
  rcases cfgLookup_found fs filename sectionName key defval hfits with ⟨code, hcode, hlookup⟩
  have hwhole := hlookup keyBuf (fun value => [dataStrcpy value])
  have hcut := hlookup (.zeroed (maxKeyLen + 1)) (cfgStoreWithLen length)
  -- The key buffer of the other lookup is a zeroed one.
  rw [← cfgGetKeyWithLen_eq] at hcut
  refine ⟨code, _, _, hwhole, hcut, fun hok => ?_⟩
  cases hfound : cfgFound fs filename sectionName key with
  | none => exact absurd hfound (hcode.mp hok)
  -- The value that is stored first is a copy of the whole, the second a copy that is cut.
  | some value =>
      refine ⟨⟨value, noNul_found fs filename sectionName key value hfound⟩, fun m => ?_⟩
      rw [Nat.min_comm, ← List.take_eq_take_min]
      exact ⟨holds_strcpy m value, holds_storeWithLen m length value hlength⟩

/-- Key `k` of section `b` is found, its value has five bytes, and a length of
    three leaves two of them. -/
theorem cfg_lookups_truncated :
    ∃ stores storesWithLen,
      cfgGetKey (fun _ => some twoSections.bytes) (.ofBytes [99]) (.ofBytes [98]) (.ofBytes [107])
        (.ofBytes []) (.zeroed 65) = .ok (cmnOk, stores) ∧
      cfgGetKeyWithLen (fun _ => some twoSections.bytes) (.ofBytes [99]) (.ofBytes [98])
        (.ofBytes [107]) (.ofBytes []) 3 = .ok (cmnOk, storesWithLen) ∧
      ∃ value : Str, ∀ m, HoldsString (runStores m stores) value.bytes ∧
        HoldsString (runStores m storesWithLen) (value.bytes.take (min value.bytes.length 2)) := by
  -- The lookup is evaluated once, to see that the value is there at all.
  have hrun : cfgGetKey (fun _ => some twoSections.bytes) (.ofBytes [99]) (.ofBytes [98])
      (.ofBytes [107]) (.ofBytes []) (.zeroed 65)
        = .ok (cmnOk, [⟨0, [120, 32, 61, 32, 121], 1⟩]) := by rfl
  rcases cfg_lookups_agree (fun _ => some twoSections.bytes) (.ofBytes [99]) (.ofBytes [98])
    (.ofBytes [107]) (.ofBytes []) (.zeroed 65) 3 (by decide)
    ((cfgLookup_ok_iff _ _ _ _ _ _ _).mp ⟨_, hrun⟩) with
    ⟨code, stores, storesWithLen, hwhole, hcut, hvalue⟩
  -- The code of both lookups is the one that was evaluated.
  have hcode : code = cmnOk := (Prod.mk.inj (Except.ok.inj (hwhole.symm.trans hrun))).1
  rw [hcode] at hwhole hcut
  exact ⟨stores, storesWithLen, hwhole, hcut, hvalue hcode⟩

/-- Every byte stored is at an index of `data` below the length. -/
def DataWithin (length : Int32) (stores : List DataStore) : Prop :=
  ∀ store ∈ stores, ∀ i, store.Covers i → 0 ≤ i ∧ i < length.toInt

/-- `cfg_get_key_with_len` comes to an end, stores below the length only, and
    leaves a prefix of the value found or of the default, with a zero. -/
def LengthRespected (fs : FileSystem) (filename sectionName key defval : Str) (length : Int32) :
    Prop :=
  ∃ code stores, cfgGetKeyWithLen fs filename sectionName key defval length = .ok (code, stores) ∧
    DataWithin length stores ∧
    (1 ≤ length.toInt → ∀ m, ∃ s,
      s <+: (cfgFound fs filename sectionName key).getD defval.bytes ∧
        HoldsString (runStores m stores) s)

theorem dataWithin_strcpy (length : Int32) (s : List UInt8) :
    DataWithin length [dataStrcpy s] ↔ (s.length : Int) < length.toInt := by
  constructor
  · intro h
    -- The zero is stored behind the string.
    exact (h _ List.mem_cons_self s.length ((covers_strcpy s _).mpr ⟨by omega, by omega⟩)).2
  · intro h store hstore i hi
    rw [List.mem_singleton.mp hstore, covers_strcpy] at hi
    omega

/-- Whatever the value, its stores keep to the length if that is positive. -/
theorem dataWithin_storeWithLen (length : Int32) (value : List UInt8) :
    DataWithin length (cfgStoreWithLen length value) ↔ 1 ≤ length.toInt := by
  unfold cfgStoreWithLen
  by_cases hfits : (value.length : Int) < length.toInt
  · rw [if_pos hfits, dataWithin_strcpy]
    omega
  · rw [if_neg hfits]
    constructor
    · intro h
      -- The last byte is stored at `length - 1`.
      have hlast := h _ (List.mem_cons_of_mem _ List.mem_cons_self) _ ((covers_zero _ _).mpr rfl)
      omega
    · intro hlength store hstore i hi
      rcases length_pred length hlength with ⟨hint, hsize⟩
      simp only [hint, hsize, List.mem_cons, List.not_mem_nil, or_false] at hstore
      rcases hstore with hcopy | hlast
      · rw [hcopy, covers_strncpy] at hi
        omega
      · rw [hlast, covers_zero] at hi
        omega

/-- `cfg_get_key_with_len` respects the length exactly if that is at least one,
    the tokens fit their buffers, and the default is shorter than the length
    where no value is found. -/
theorem cfg_length_iff (fs : FileSystem) (filename sectionName key defval : Str)
    (length : Int32) :
    LengthRespected fs filename sectionName key defval length
      ↔ 1 ≤ length.toInt ∧ CfgFits fs filename sectionName key ∧
        (cfgFound fs filename sectionName key = none →
          (defval.bytes.length : Int) < length.toInt) := by
  -- From the stores back to the condition, and from the condition to the stores.
  constructor
  · rintro ⟨code, stores, hrun, hwithin, _⟩
    rw [cfgGetKeyWithLen_eq] at hrun
    have hfits := (cfgLookup_ok_iff fs filename sectionName key defval _ _).mp ⟨_, hrun⟩
    rcases cfgLookup_found fs filename sectionName key defval hfits with ⟨code', _, hlookup⟩
    rw [hlookup] at hrun
    -- What was stored is known from the lookup itself.
    have hstores := (Prod.mk.inj (Except.ok.inj hrun)).2
    cases hfound : cfgFound fs filename sectionName key with
    -- Nothing found: the default is stored whole, and length must leave room for it.
    | none =>
        rw [← hstores, hfound, dataWithin_strcpy] at hwithin
        exact ⟨by omega, hfits, fun _ => hwithin⟩
    | some value =>
        rw [← hstores, hfound, dataWithin_storeWithLen] at hwithin
        exact ⟨hwithin, hfits, fun h => absurd h (Option.some_ne_none _)⟩
  -- With the condition both stores fit, the default as well as the value.
  · rintro ⟨hlength, hfits, hdefval⟩
    rcases cfgLookup_found fs filename sectionName key defval hfits with ⟨code, _, hlookup⟩
    have hrun := hlookup (.zeroed (maxKeyLen + 1)) (cfgStoreWithLen length)
    rw [← cfgGetKeyWithLen_eq] at hrun
    refine ⟨code, _, hrun, ?_⟩
    cases hfound : cfgFound fs filename sectionName key with
    | none =>
        exact ⟨(dataWithin_strcpy length defval.bytes).mpr (hdefval hfound),
          fun _ m => ⟨defval.bytes, List.prefix_refl _, holds_strcpy m defval.bytes⟩⟩
    | some value =>
        exact ⟨(dataWithin_storeWithLen length value).mpr hlength,
          fun _ m => ⟨_, List.take_prefix _ value, holds_storeWithLen m length value hlength⟩⟩

/-- With a length of one and a file that cannot be opened, a default of two
    bytes is stored with its zero. -/
theorem cfg_length_ignored :
    ¬ LengthRespected (fun _ => none) (.ofBytes [99]) (.ofBytes [115]) (.ofBytes [107])
      (.ofBytes [97, 98]) 1 := by
  rintro ⟨code, stores, hrun, hwithin, _⟩
  have hstores : stores = [⟨0, [97, 98], 1⟩] := (Prod.mk.inj (Except.ok.inj hrun)).2.symm
  have hzero := hwithin ⟨0, [97, 98], 1⟩ (hstores ▸ List.mem_cons_self) 2 (by decide)
  exact absurd hzero.2 (by decide)

end Aircmn
