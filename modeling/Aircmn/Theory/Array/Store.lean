import Aircmn.Theory.Array.Block
import Aircmn.Theory.Array.Seq
import Aircmn.Theory.Blocks

/-!
# Stores by Index

`array_add` stores an element at an index that its caller chooses. It refuses
one index, that of the capacity, and takes every other, so an index beyond the
capacity is taken too, and the element goes where the product wraps to. It
does not count the element either. A store at an index that is not counted yet
is lost: `array_get` may not be asked for it, `array_each` does not visit it,
and the push that gets to its slot overwrites it.

Both conditions under which a store is a store into the sequence are on the
index, up to the capacity for the one and below the count for the other, and
both are exact.

## Main definitions

* `AddInRange`: What `array_add` is to do with an index.
* `ArrayOp.Legal`, `ArrayOp.Counted`: Conditions on a call.
* `ArrayOp.Spares`: A call that neither replaces nor removes a position.
* `Kept`: An element at an index of the sequence.
* `AddsKept`: No element accepted is lost.

## Theorems

* `addInRange_le`, `addInRange_end`, `addInRange_lt`: An index beyond the
  capacity, the capacity, and one below it.
* `array_add_in_range_iff`: The index is treated as it should be exactly up to
  the capacity.
* `array_add_last_index`, `array_add_overruns`: A refused and a stray index.
* `seqStep_keeps`: Calls that spare a position keep its element.
* `kept_along`: A run of them.
* `array_add_kept_iff`: No element is lost exactly if each is stored below the
  count.
* `array_add_kept_run`, `array_add_lost`: A run that keeps its elements, and
  one that does not.
-/

namespace Aircmn

open Bytes

/-- An index below the capacity is accepted and its slot filled, any other is
    refused, and nothing outside the block changes. -/
structure AddInRange (g : ArrayGeom) (m : Mem) (a : Nat) (elem : Mem) (idx : UInt32) : Prop where
  accepted : idx < g.n → (arrayAdd m a elem idx).1 = cmnOk ∧
    arrayEntry g (arrayAdd m a elem idx).2 a idx.toNat = slice elem 0 g.width ∧
    SameOutside (a + arrayHdrSize + g.width * idx.toNat)
      (a + arrayHdrSize + g.width * idx.toNat + g.width) m (arrayAdd m a elem idx).2
  refused : ¬ idx < g.n → arrayAdd m a elem idx = (cmnEmem, m)
  inside : SameOutside a (a + (arrayAllocSize g.n g.size).toNat) m (arrayAdd m a elem idx).2

section InRange

variable (g : ArrayGeom) (m : Mem) (a : Nat) (elem : Mem) (idx : UInt32)
  (hsize : arraySize m a = g.size) (hnalloc : arrayNalloc m a = g.n)

include hnalloc

/-- Beyond the capacity the call returns that it stored the element. -/
theorem addInRange_le (hadd : AddInRange g m a elem idx) : idx.toNat ≤ g.n.toNat := by
  refine Nat.le_of_not_lt (fun hlt => ?_)
  have hrefused := hadd.refused
    (fun h => Nat.lt_asymm (UInt32.lt_iff_toNat_lt.mp h) hlt)
  have hne : idx ≠ arrayNalloc m a := fun heq => by
    rw [heq, hnalloc] at hlt
    exact Nat.lt_irrefl _ hlt
  rw [arrayAdd_other m a elem idx hne] at hrefused
  have hstatus : cmnOk = cmnEmem := congrArg Prod.fst hrefused
  exact absurd hstatus (by decide)

theorem addInRange_end (heq : idx = g.n) : AddInRange g m a elem idx := by
  have hadd := arrayAdd_end m a elem idx (heq.trans hnalloc.symm)
  refine ⟨fun hlt => ?_, fun _ => hadd, by rw [hadd]; exact sameOutside_refl _ _ m⟩
  rw [heq] at hlt
  exact absurd hlt (Nat.lt_irrefl _)

include hsize

/-- Below the capacity the slot is filled, and lies in the block. -/
theorem addInRange_lt (hlt : idx.toNat < g.n.toNat)
    (halloc : (arrayAllocSize g.n g.size).toNat = arrayHdrSize + g.width * (g.n.toNat + 1)) :
    AddInRange g m a elem idx := by
  -- The cell of an index below the capacity lies in the block, which has one cell to spare.
  have hin := cell_inside g.width idx.toNat (g.n.toNat + 1) (Nat.lt_succ_of_lt hlt)
  have hadd := arrayAdd_other m a elem idx (ne_nalloc_of_lt m a idx (hnalloc.symm ▸ hlt))
  rw [arrayCopy_eq g m a elem idx hsize (Nat.le_of_lt hlt)] at hadd
  -- The only bytes that change are those of the cell.
  have hslot : SameOutside (a + arrayHdrSize + g.width * idx.toNat)
      (a + arrayHdrSize + g.width * idx.toNat + g.width) m (arrayAdd m a elem idx).2 := by
    intro i hi
    rw [hadd]
    exact blit_outside m _ _ i (fun j => elem (0 + j)) hi
  -- In range it answers CMN_OK; out of range does not arise.
  refine ⟨fun _ => ⟨by rw [hadd], ?_, hslot⟩, fun h => absurd (UInt32.lt_iff_toNat_lt.mpr hlt) h,
    sameOutside_mono _ _ _ _ m _ hslot (by omega) (by omega)⟩
  rw [hadd]
  exact slice_memcpy_self _ _ _ _ _

end InRange

/-- An index up to the capacity is treated as it should be, and no other is. -/
theorem array_add_in_range_iff (g : ArrayGeom)
    (hroom : arrayHdrSize + elemBytes g.size * (g.n.toNat + 1) < 2 ^ 32) (m : Mem) (a : Nat)
    (hsize : arraySize m a = g.size) (hnalloc : arrayNalloc m a = g.n) (elem : Mem)
    (idx : UInt32) : AddInRange g m a elem idx ↔ idx ≤ g.n := by
  -- The block that `array_alloc_size` asks for has one slot to spare.
  have halloc : (arrayAllocSize g.n g.size).toNat = arrayHdrSize + g.width * (g.n.toNat + 1) :=
    ringAllocSize_toNat g.n g.size g.pos hroom
  rw [UInt32.le_iff_toNat_le]
  constructor
  · exact addInRange_le g m a elem idx hnalloc
  · intro hle
    by_cases heq : idx = g.n
    · exact addInRange_end g m a elem idx hnalloc heq
    · have hlt : idx.toNat < g.n.toNat :=
        Nat.lt_of_le_of_ne hle (fun h => heq (UInt32.toNat_inj.mp h))
      exact addInRange_lt g m a elem idx hsize hnalloc hlt halloc

/-- The capacity of an array of one byte as an index. -/
theorem array_add_last_index :
    AddInRange ⟨1, 1, by decide, by decide⟩ (arraySetup (fun _ => 9) 0 1 1) 0 (fun _ => 5) 1 :=
  (array_add_in_range_iff ⟨1, 1, by decide, by decide⟩ (by decide) _ 0 (by decide) (by decide)
    (fun _ => 5) 1).mpr (by decide)

/-- The next index: the block has 18 bytes, and byte 18 is stored to. -/
theorem array_add_overruns :
    (arrayAllocSize 1 1).toNat = 18 ∧
      (arrayAdd (arraySetup (fun _ => 9) 0 1 1) 0 (fun _ => 5) 2).1 = cmnOk ∧
      (arrayAdd (arraySetup (fun _ => 9) 0 1 1) 0 (fun _ => 5) 2).2 18 = 5 ∧
      ¬ AddInRange ⟨1, 1, by decide, by decide⟩ (arraySetup (fun _ => 9) 0 1 1) 0 (fun _ => 5) 2 :=
  ⟨by decide, by decide, by decide,
    fun h => absurd (congrArg Prod.fst (h.refused (by decide))) (by decide)⟩

/-- A call that the source allows: what it asserts, and for a store an index
    below the capacity. -/
def ArrayOp.Legal {σ : Type} (m : Mem) (a : Nat) : ArrayOp σ → Prop
  | .add _ idx => idx < arrayNalloc m a
  | op => op.Asserts m a

/-- A store is below the count. -/
def ArrayOp.Counted {σ : Type} (m : Mem) (a : Nat) : ArrayOp σ → Prop
  | .add _ idx => idx < arrayNelem m a
  | _ => True

instance {σ : Type} (m : Mem) (a : Nat) : ∀ op : ArrayOp σ, Decidable (op.Legal m a)
  | .add _ idx => inferInstanceAs (Decidable (idx < arrayNalloc m a))
  | .push elem => inferInstanceAs (Decidable (ArrayOp.Asserts m a (.push (σ := σ) elem)))
  | .pop => inferInstanceAs (Decidable (ArrayOp.Asserts m a (.pop (σ := σ))))
  | .get idx => inferInstanceAs (Decidable (ArrayOp.Asserts m a (.get (σ := σ) idx)))
  | .top => inferInstanceAs (Decidable (ArrayOp.Asserts m a (.top (σ := σ))))
  | .each func => inferInstanceAs (Decidable (ArrayOp.Asserts m a (.each func)))

instance {σ : Type} (m : Mem) (a : Nat) : ∀ op : ArrayOp σ, Decidable (op.Counted m a)
  | .add _ idx => inferInstanceAs (Decidable (idx < arrayNelem m a))
  | .push _ | .pop | .get _ | .top | .each _ => inferInstanceAs (Decidable True)

/-- A call neither stores at an index nor removes its position. -/
def ArrayOp.Spares {σ : Type} (idx : UInt32) (m : Mem) (a : Nat) : ArrayOp σ → Prop
  | .add _ i => i ≠ idx
  | .pop => (arrayNelem m a).toNat ≠ idx.toNat + 1
  | _ => True

theorem asserts_of_counted {σ : Type} (m : Mem) (a : Nat) (op : ArrayOp σ)
    (hlegal : op.Legal m a) (hcounted : op.Counted m a) : op.Asserts m a := by
  cases op with
  | add elem idx => exact hcounted
  | push elem => exact hlegal
  | pop => exact hlegal
  | get idx => exact hlegal
  | top => exact hlegal
  | each func => exact hlegal

/-- A callback of `array_each` that keeps what it is given. -/
def collect (bytes : List UInt8) (seen : List (List UInt8)) : Status × List (List UInt8) :=
  (cmnOk, seen ++ [bytes])

theorem visit_collect : ∀ (xs seen : List (List UInt8)),
    visit collect xs seen = (cmnOk, seen ++ xs) := by
  intro xs
  induction xs with
  | nil =>
      intro seen
      simp [visit]
  | cons x xs ih =>
      intro seen
      simp [visit, collect, ih]

/-- An element is counted at an index, is what `array_get` finds there, and is
    what `array_each` visits in its turn. -/
structure Kept (m : Mem) (a : Nat) (idx : UInt32) (bytes : List UInt8) : Prop where
  counted : idx < arrayNelem m a
  got : arrayRead m a (arrayGet m a idx) = bytes
  visited : (arrayEach m a (readThen collect a) []).2[idx.toNat]? = some bytes

theorem arrayHolds_kept (g : ArrayGeom) (m : Mem) (a : Nat) (seq : List (List UInt8))
    (idx : UInt32) (bytes : List UInt8) (h : ArrayHolds g m a seq)
    (hat : seq[idx.toNat]? = some bytes) : Kept m a idx bytes := by
  rcases List.getElem?_eq_some_iff.mp hat with ⟨hlt, hbytes⟩
  refine ⟨?_, ?_, ?_⟩
  · rw [UInt32.lt_iff_toNat_lt, h.nelem]
    exact hlt
  · rw [← hbytes]
    exact arrayHolds_read g m a seq idx h hlt
  · rw [arrayEach_elements g m a seq collect [] h, visit_collect]
    exact hat

/-- A call on the sequence keeps an element that it spares. -/
theorem seqStep_keeps {σ : Type} (n width : Nat) (t : List (List UInt8) × σ) (op : ArrayOp σ)
    (i : Nat) (bytes : List UInt8) (hat : t.1[i]? = some bytes)
    (hadd : ∀ elem idx, op = .add elem idx → idx.toNat ≠ i)
    (hpop : op = .pop → t.1.length ≠ i + 1) :
    (seqStep n width t op).1.1[i]? = some bytes := by
  rcases List.getElem?_eq_some_iff.mp hat with ⟨hlt, _⟩
  cases op with
  | push elem =>
      -- A push goes behind position i, and a full array refuses it.
      rw [seqStep]
      split
      · rw [List.getElem?_append_left hlt]
        exact hat
      · exact hat
  | pop =>
      -- A pop takes the last element, and i is not the last.
      have hnot := hpop rfl
      rw [seqStep, List.getElem?_dropLast, if_pos (by omega)]
      exact hat
  | get idx => exact hat
  | top => exact hat
  -- An add at another index leaves the element of i.
  | add elem idx =>
      rw [seqStep, List.getElem?_set_ne (hadd elem idx rfl)]
      exact hat
  | each func => exact hat

/-- The array holds a sequence with an element at an index. -/
def HoldsAt (g : ArrayGeom) (m : Mem) (a i : Nat) (bytes : List UInt8) : Prop :=
  ∃ seq, ArrayHolds g m a seq ∧ seq[i]? = some bytes

theorem holdsAt_step {σ : Type} (g : ArrayGeom) (a : Nat) (s : Mem × σ) (op : ArrayOp σ)
    (idx : UInt32) (bytes : List UInt8) (h : HoldsAt g s.1 a idx.toNat bytes)
    (hop : op.Asserts s.1 a) (hspares : op.Spares idx s.1 a) :
    HoldsAt g (arrayStep a s op).1.1 a idx.toNat bytes := by
  rcases h with ⟨seq, hholds, hat⟩
  rcases arrayStep_refines g a s (seq, s.2) op ⟨hholds, rfl⟩ hop with ⟨_, hnext, _⟩
  refine ⟨_, hnext, seqStep_keeps _ _ (seq, s.2) op _ bytes hat ?_ ?_⟩
  · rintro elem i rfl hsame
    exact hspares (UInt32.toNat_inj.mp hsame)
  · rintro rfl hlen
    exact hspares (hholds.nelem.trans hlen)

/-- Calls that spare a position keep its element. -/
theorem kept_along {σ : Type} (g : ArrayGeom) (a : Nat) (ops : List (ArrayOp σ)) (s : Mem × σ)
    (idx : UInt32) (bytes : List UInt8) (h : HoldsAt g s.1 a idx.toNat bytes)
    (hok : Machine.Along (arrayStep a) (fun t op => op.Asserts t.1 a) s ops)
    (hspares : Machine.Along (arrayStep a) (fun t op => op.Spares idx t.1 a) s ops) :
    Kept (Machine.run (arrayStep a) s ops).1.1 a idx bytes := by
  rcases Machine.run_invariant_along (arrayStep a) _ (fun t => HoldsAt g t.1 a idx.toNat bytes)
    (fun t op ht hop => holdsAt_step g a t op idx bytes ht hop.1 hop.2) ops s h
    (Machine.along_and _ _ _ ops s hok hspares) with ⟨seq, hholds, hat⟩
  exact arrayHolds_kept g _ a seq idx bytes hholds hat

theorem arrayAt_holds (g : ArrayGeom) (m : Mem) (a : Nat) (h : ArrayAt g m a) :
    ArrayHolds g m a (arrayContents g m a) := by
  have hlen : (arrayContents g m a).length = (arrayNelem m a).toNat := by
    rw [arrayContents, List.length_map, List.length_range]
  refine ⟨h.size, h.nalloc, hlen.symm, by rw [hlen]; exact h.nelem_le, fun i hi => ?_⟩
  simp [arrayContents]

theorem arrayStep_at {σ : Type} (g : ArrayGeom) (a : Nat) (s : Mem × σ) (op : ArrayOp σ)
    (h : ArrayAt g s.1 a) (hop : op.Legal s.1 a) : ArrayAt g (arrayStep a s op).1.1 a := by
  cases op with
  | push elem => exact (arrayPush_block g s.1 a elem h).1
  | pop => exact (arrayPop_block g s.1 a h hop).1
  | get idx => exact h
  | top => exact h
  | add elem idx =>
      refine (arrayAdd_block g s.1 a elem idx h ?_).1
      rw [← h.nalloc]
      exact UInt32.le_of_lt hop
  | each func => exact h

/-- After a store below the count its element is in the sequence. -/
theorem arrayAdd_holdsAt (g : ArrayGeom) (m : Mem) (a : Nat) (elem : Mem) (idx : UInt32)
    (h : ArrayAt g m a) (hidx : idx < arrayNelem m a) :
    HoldsAt g (arrayAdd m a elem idx).2 a idx.toNat (slice elem 0 g.width) := by
  have hholds := arrayAt_holds g m a h
  have hlt : idx.toNat < (arrayContents g m a).length := by
    rw [← hholds.nelem]
    exact UInt32.lt_iff_toNat_lt.mp hidx
  have hne := ne_nalloc_of_lt m a idx (h.nalloc ▸ Nat.lt_of_lt_of_le hlt hholds.le)
  refine ⟨_, ?_, List.getElem?_set_self hlt⟩
  rw [arrayAdd_other m a elem idx hne]
  exact arrayHolds_set g m a _ elem idx hholds hlt

/-- A store that is accepted does not change the count. -/
theorem arrayAdd_nelem (g : ArrayGeom) (m : Mem) (a : Nat) (elem : Mem) (idx : UInt32)
    (h : ArrayAt g m a) (hidx : idx < arrayNalloc m a) :
    (arrayAdd m a elem idx).1 = cmnOk ∧
      arrayNelem (arrayAdd m a elem idx).2 a = arrayNelem m a := by
  have hne := ne_nalloc_of_lt m a idx (UInt32.lt_iff_toNat_lt.mp hidx)
  rw [h.nalloc] at hidx
  have hlt := UInt32.lt_iff_toNat_lt.mp hidx
  rw [arrayAdd_other m a elem idx hne]
  exact ⟨rfl, arrayCopy_nelem g m a elem idx h.size (Nat.le_of_lt hlt)⟩

/-- Each element that a run stores by index and is told was stored is in the
    sequence, from then on and as long as the calls spare its position. -/
def AddsKept {σ : Type} (g : ArrayGeom) (a : Nat) (s : Mem × σ) (ops : List (ArrayOp σ)) : Prop :=
  ∀ pre elem idx mid post, ops = pre ++ .add elem idx :: (mid ++ post) →
    (arrayAdd (Machine.run (arrayStep a) s pre).1.1 a elem idx).1 = cmnOk →
    Machine.Along (arrayStep a) (fun t op => op.Spares idx t.1 a)
      (arrayStep a (Machine.run (arrayStep a) s pre).1 (.add elem idx)).1 mid →
    Kept (Machine.run (arrayStep a) s (pre ++ .add elem idx :: mid)).1.1 a idx
      (slice elem 0 g.width)

/-- From any array in use, no element that `array_add` accepts is lost exactly
    if every index it is given is below the count. -/
theorem array_add_kept_iff {σ : Type} (g : ArrayGeom) (a : Nat) (m : Mem) (d : σ)
    (ops : List (ArrayOp σ)) (h : ArrayAt g m a)
    (hlegal : Machine.Along (arrayStep a) (fun s op => op.Legal s.1 a) (m, d) ops) :
    AddsKept g a (m, d) ops ↔
      Machine.Along (arrayStep a) (fun s op => op.Counted s.1 a) (m, d) ops := by
  -- The header is in order at every point of the run.
  have hat : ∀ pre post, ops = pre ++ post →
      ArrayAt g (Machine.run (arrayStep a) (m, d) pre).1.1 a := by
    intro pre post hsplit
    rw [hsplit] at hlegal
    exact Machine.run_invariant_along (arrayStep a) _ (fun t => ArrayAt g t.1 a)
      (fun t op ht hop => arrayStep_at g a t op ht hop) pre (m, d) h
      ((Machine.along_append _ _ _ pre (m, d)).mp hlegal).1
  constructor
  · -- An element is counted as soon as it is stored, so it was before.
    intro hkept
    refine Machine.along_of_split _ _ ops (m, d) (fun pre op post hsplit => ?_)
    have hpre := hat pre (op :: post) hsplit
    rw [hsplit] at hlegal
    have hop := ((Machine.along_append _ _ _ pre (m, d)).mp hlegal).2.1
    cases op with
    | add elem idx =>
        rcases arrayAdd_nelem g _ a elem idx hpre hop with ⟨hok, hnelem⟩
        have hcounted := (hkept pre elem idx [] post hsplit hok trivial).counted
        rw [Machine.run_append] at hcounted
        change idx < arrayNelem (arrayAdd _ a elem idx).2 a at hcounted
        rwa [hnelem] at hcounted
    | push elem => trivial
    | pop => trivial
    | get idx => trivial
    | top => trivial
    | each func => trivial
  · intro hcounted pre elem idx mid post hsplit _ hspares
    have hpre := hat pre _ hsplit
    have hasserts : Machine.Along (arrayStep a) (fun s op => op.Asserts s.1 a) (m, d) ops :=
      Machine.along_mono _ _ _
        (fun s op hop => asserts_of_counted s.1 a op hop.1 hop.2) ops (m, d)
        (Machine.along_and _ _ _ ops (m, d) hlegal hcounted)
    rw [hsplit] at hasserts hcounted
    have hstore := ((Machine.along_append _ _ _ pre (m, d)).mp hcounted).2.1
    have hrest := ((Machine.along_append _ _ _ pre (m, d)).mp hasserts).2.2
    rw [Machine.run_append]
    exact kept_along g a mid _ idx _ (arrayAdd_holdsAt g _ a elem idx hpre hstore)
      ((Machine.along_append _ _ _ mid _).mp hrest).1 hspares

/-- A push, a store in its place, and another push. -/
theorem array_add_kept_run :
    AddsKept ⟨2, 1, by decide, by decide⟩ 0 (arraySetup (fun _ => 9) 0 2 1, ())
      [.push (fun _ => 5), .add (fun _ => 6) 0, .push (fun _ => 7), .get 0] :=
  (array_add_kept_iff ⟨2, 1, by decide, by decide⟩ 0 (arraySetup (fun _ => 9) 0 2 1) ()
    [.push (fun _ => 5), .add (fun _ => 6) 0, .push (fun _ => 7), .get 0]
    ⟨by decide, by decide, by decide⟩ (by decide +kernel)).mpr (by decide +kernel)

/-- A store into an array without elements is overwritten by the next push. -/
theorem array_add_lost :
    (Machine.run (arrayStep 0) (arraySetup (fun _ => 9) 0 2 1, ())
        [.add (fun _ => 6) 0, .push (fun _ => 7), .get 0]).2
      = [.added cmnOk, .pushed cmnOk, .got [7]] ∧
    ¬ AddsKept ⟨2, 1, by decide, by decide⟩ 0 (arraySetup (fun _ => 9) 0 2 1, ())
      [.add (fun _ => 6) 0, .push (fun _ => 7), .get 0] :=
  ⟨by decide, fun h => absurd (h [] (fun _ => 6) 0 [] [.push (fun _ => 7), .get 0] rfl (by decide)
    trivial).counted (by decide)⟩

end Aircmn
