import Aircmn.Theory.Array.Seq
import Mathlib.Data.List.GetD

/-!
# Sorting an Array

`array_sort` hands the elements to `qsort` where they are, so the sequence that
the array holds becomes a sorted one of the same elements, and the header stays.
Runs with sorts in them refine the sequence as runs without do, and an element is
found at the index that `array_idx` computes from its address. Of the header only
the count changes, and that with the sequence; the status is never set and stays
what the memory had there before the array was set up.

An array is taken apart from its end. After a sort it is a queue by priority: the
pops that follow hand out the elements from the last in order to the first.

What `qsort` does with elements that compare equal is not specified, so a call
comes with what it has left, and `QsortFits` is the condition on that.

## Main definitions

* `ArrayCall`, `ArrayReply`, `ArrayCall.Fits`: Calls with sorts, and answers.
* `arrayCall`, `seqCall`: The code, and the sequence.
* `firstByte`, `threePushes`: An order, and a short run.

## Theorems

* `flatten_slot`: An element in the joined elements.
* `arraySort_holds`, `arrayIdx_slot`: What a sort leaves, and where an element is.
* `arrayCall_status`: A call leaves the status.
* `arrayCall_refines`, `arrayCall_run`: One call, and a run.
* `pops_reverse`: Pops take a sequence apart from its end.
* `array_sorts`: A run with sorts.
* `array_pops_descend`: Pops after a sort.
-/

namespace Aircmn

open Bytes

/-- A call of `cmn_array.c`. -/
inductive ArrayCall (σ : Type) where
  | call (op : ArrayOp σ)
  /-- `array_sort`, and what its `qsort` has left. -/
  | sort (compare : List UInt8 → List UInt8 → Int) (sorted : List (List UInt8))
  /-- `array_idx` of what `array_get` returns. -/
  | idx (i : UInt32)

/-- What it answers. -/
inductive ArrayReply where
  | out (out : ArrayOut)
  | sorted
  | index (i : UInt32)
deriving DecidableEq

/-- What the source asserts before the call, and what `qsort` may leave. -/
def ArrayCall.Fits {σ : Type} (m : Mem) (a : Nat) : ArrayCall σ → Prop
  | .call op => op.Asserts m a
  | .sort compare sorted => arrayNelem m a ≠ 0 ∧ QsortFits compare (arrayElems m a) sorted
  | .idx i => i < arrayNelem m a

instance arrayCallFits {σ : Type} (m : Mem) (a : Nat) : ∀ c : ArrayCall σ, Decidable (c.Fits m a)
  | .call op => inferInstanceAs (Decidable (op.Asserts m a))
  | .sort compare sorted =>
      inferInstanceAs (Decidable (arrayNelem m a ≠ 0 ∧ QsortFits compare (arrayElems m a) sorted))
  | .idx i => inferInstanceAs (Decidable (i < arrayNelem m a))

/-- The code, on the array at `a`. -/
def arrayCall {σ : Type} (a : Nat) (s : Mem × σ) : ArrayCall σ → (Mem × σ) × ArrayReply
  | .call op => ((arrayStep a s op).1, .out (arrayStep a s op).2)
  | .sort _ sorted => ((arraySort s.1 a sorted, s.2), .sorted)
  | .idx i => (s, .index (arrayIdx s.1 a (arrayGet s.1 a i)))

/-- The sequence. -/
def seqCall {σ : Type} (n width : Nat) (s : List (List UInt8) × σ) :
    ArrayCall σ → (List (List UInt8) × σ) × ArrayReply
  | .call op => ((seqStep n width s op).1, .out (seqStep n width s op).2)
  | .sort _ sorted => ((sorted, s.2), .sorted)
  | .idx i => (s, .index i)

/-- Elements of one width joined, and one of them found again. -/
theorem flatten_slot {α : Type} (w : Nat) : ∀ (xs : List (List α)), (∀ x ∈ xs, x.length = w) →
    xs.flatten.length = w * xs.length ∧
      ∀ i (hi : i < xs.length), (xs.flatten.drop (w * i)).take w = xs[i] := by
  intro xs
  induction xs with
  | nil =>
      intro _
      exact ⟨rfl, fun i hi => absurd hi (Nat.not_lt_zero i)⟩
  -- The first slot is x itself, and slot i + 1 is slot i of what follows it.
  | cons x xs ih =>
      intro h
      have hx := h x List.mem_cons_self
      rcases ih (fun y hy => h y (List.mem_cons_of_mem x hy)) with ⟨hlen, hslot⟩
      constructor
      · rw [List.flatten_cons, List.length_append, hlen, hx, List.length_cons, Nat.mul_succ,
          Nat.add_comm]
      · intro i hi
        cases i with
        | zero =>
            rw [Nat.mul_zero, List.drop_zero, List.flatten_cons, List.take_left' hx]
            rfl
        | succ i =>
            rw [List.flatten_cons, Nat.mul_succ, Nat.add_comm, ← List.drop_drop,
              List.drop_left' hx]
            exact hslot i (Nat.lt_of_succ_lt_succ hi)

section Holds

variable (g : ArrayGeom) (m : Mem) (a : Nat) (seq : List (List UInt8)) (h : ArrayHolds g m a seq)

include h

/-- `qsort` is given the sequence. -/
theorem arrayElems_seq : arrayElems m a = seq := by
  have hcontents := arrayHolds_contents g m a seq h
  rw [arrayElems, h.size, sizeOfInt_of_pos _ g.pos]
  exact hcontents

theorem arrayHolds_width : ∀ x ∈ seq, x.length = g.width := by
  intro x hx
  rcases List.mem_iff_getElem.mp hx with ⟨i, hi, rfl⟩
  rw [← h.sits i hi]
  exact slice_length _ _ _

theorem arraySort_holds (sorted : List (List UInt8)) (hperm : sorted.Perm seq) :
    ArrayHolds g (arraySort m a sorted) a sorted := by
  have hwidth : ∀ x ∈ sorted, x.length = g.width := fun x hx =>
    arrayHolds_width g m a seq h x (hperm.mem_iff.mp hx)
  rcases flatten_slot g.width sorted hwidth with ⟨hlen, hslot⟩
  -- The header is below what is stored.
  have hword : ∀ off, off + 4 ≤ arrayHdrSize →
      load32 (arraySort m a sorted) (a + off) = load32 m (a + off) := fun off hoff =>
    load32_blit_of_disjoint _ _ _ _ _ (by omega)
  refine ⟨(congrArg UInt32.toInt32 (hword 8 (by decide))).trans h.size,
    (hword 4 (by decide)).trans h.nalloc, ?_, hperm.length_eq ▸ h.le, fun i hi => ?_⟩
  · rw [hperm.length_eq, ← h.nelem]
    exact congrArg UInt32.toNat (hword 0 (by decide))
  · have hcell := hslot i hi
    have hin : g.width * i + g.width ≤ sorted.flatten.length := by
      rw [hlen, ← Nat.mul_succ]
      exact Nat.mul_le_mul_left _ hi
    refine List.ext_getElem ?_ (fun j hj hj' => ?_)
    · rw [hwidth _ (List.getElem_mem hi)]
      exact slice_length _ _ _
    · have hjw : j < g.width := by
        rwa [hwidth _ (List.getElem_mem hi)] at hj'
      simp only [arrayEntry, slice_getElem, arraySort]
      rw [Nat.add_assoc (a + arrayHdrSize), blit_inside _ _ _ _ _ (by omega),
        List.getD_eq_getElem _ _ (by omega)]
      simp only [← hcell, List.getElem_take, List.getElem_drop]

/-- An element is at the index that its address gives. -/
theorem arrayIdx_slot (i : UInt32) (hi : i.toNat < seq.length) :
    arrayIdx m a (arrayGet m a i) = i := by
  have hfits := g.fits
  have hle := h.le
  have hpos : 0 < g.width := elemBytes_pos g.size g.pos
  have hsize : g.size.toUInt32.toNat = g.width := toUInt32_toNat_of_pos g.size g.pos
  have hmul : g.width * i.toNat ≤ g.width * g.n.toNat := Nat.mul_le_mul_left _ (by omega)
  have hslot : ((a + arrayHdrSize + g.width * i.toNat : Nat) : Int)
      - ((a + arrayHdrSize : Nat) : Int) = (g.width * i.toNat : Nat) := by omega
  rw [arrayIdx, arrayGet, arraySlot_eq g m a i h.size (by omega), h.size, hslot,
    ← UInt32.toNat_inj, UInt32.toNat_div, hsize, UInt32.ofInt, UInt32.toNat_ofNat']
  -- The offset is below the size of the block, which fits 32 bits.
  have hoff : (((g.width * i.toNat : Nat) : Int) % 2 ^ 32).toNat % 2 ^ 32 = g.width * i.toNat := by
    rw [ArrayGeom.width] at hmul ⊢
    omega
  rw [hoff]
  exact Nat.mul_div_cancel_left _ hpos

end Holds

section Runs

variable {σ : Type} (g : ArrayGeom) (a : Nat)

/-- One call answers as the sequence does, and keeps the relation. -/
theorem arrayCall_refines (s : Mem × σ) (t : List (List UInt8) × σ) (c : ArrayCall σ)
    (h : ArrayHolds g s.1 a t.1 ∧ s.2 = t.2) (hok : c.Fits s.1 a) :
    (arrayCall a s c).2 = (seqCall g.n.toNat g.width t c).2 ∧
      ArrayHolds g (arrayCall a s c).1.1 a (seqCall g.n.toNat g.width t c).1.1 ∧
      (arrayCall a s c).1.2 = (seqCall g.n.toNat g.width t c).1.2 := by
  -- A call of the interface is the step already proved; sorting and array_idx are added to it.
  cases c with
  | call op =>
      rcases arrayStep_refines g a s t op h hok with ⟨hout, hnext⟩
      exact ⟨congrArg ArrayReply.out hout, hnext⟩
  -- qsort leaves a permutation of the elements, so there are as many of them as before.
  | sort compare sorted =>
      rcases hok with ⟨_, hperm, _⟩
      rw [arrayElems_seq g s.1 a t.1 h.1] at hperm
      exact ⟨rfl, arraySort_holds g s.1 a t.1 h.1 sorted hperm, h.2⟩
  | idx i =>
      have hi : i.toNat < t.1.length := by
        rw [← h.1.nelem]
        exact UInt32.lt_iff_toNat_lt.mp hok
      exact ⟨congrArg ArrayReply.index (arrayIdx_slot g s.1 a t.1 h.1 i hi), h⟩

/-- No call stores to the status. -/
theorem arrayCall_status (s : Mem × σ) (seq : List (List UInt8)) (c : ArrayCall σ)
    (h : ArrayHolds g s.1 a seq) (hok : c.Fits s.1 a) :
    arrayStatus (arrayCall a s c).1.1 a = arrayStatus s.1 a := by
  -- The count is within the capacity, so every slot that is written lies behind the header.
  have hnelem : (arrayNelem s.1 a).toNat ≤ g.n.toNat := h.nelem.symm ▸ h.le
  cases c with
  | call op =>
      cases op with
      | push elem =>
          simp only [arrayCall, arrayStep, arrayPush]
          split
          -- A full array refuses the element; else the element and the count are stored, neither in
          -- status.
          · rfl
          · rw [arraySetNelem_status]
            exact arrayCopy_status g s.1 a elem _ h.size hnelem
      | pop => exact arraySetNelem_status s.1 a _
      | get idx => rfl
      | top => rfl
      | add elem idx =>
          have hidx : idx.toNat < (arrayNelem s.1 a).toNat := UInt32.lt_iff_toNat_lt.mp hok
          simp only [arrayCall, arrayStep, arrayAdd]
          -- array_add at an index in use stores the slot alone.
          split
          · rfl
          · exact arrayCopy_status g s.1 a elem idx h.size (by omega)
      | each func => rfl
  | sort compare sorted =>
      exact congrArg UInt32.toInt32
        -- qsort writes the data region, which starts where the header ends.
        (load32_blit_of_disjoint _ _ _ _ _ (by unfold arrayHdrSize; omega))
  | idx i => rfl

theorem arrayCall_run (m₀ m : Mem) (d : σ) (calls : List (ArrayCall σ))
    (hstart : m = arraySetup m₀ a g.n g.size ∨
      arrayCreate (some a) m₀ g.n g.size = (some a, m))
    (hok : Machine.Along (arrayCall a) (fun s c => c.Fits s.1 a) (m, d) calls) :
    (Machine.run (arrayCall a) (m, d) calls).2
        = (Machine.run (seqCall g.n.toNat g.width) ([], d) calls).2 ∧
      ArrayHolds g (Machine.run (arrayCall a) (m, d) calls).1.1 a
        (Machine.run (seqCall g.n.toNat g.width) ([], d) calls).1.1 ∧
      (Machine.run (arrayCall a) (m, d) calls).1.2
        = (Machine.run (seqCall g.n.toNat g.width) ([], d) calls).1.2 ∧
      arrayStatus (Machine.run (arrayCall a) (m, d) calls).1.1 a = arrayStatus m₀ a := by
  -- Either way of making the array leaves the memory of array_setup.
  have hm : m = arraySetup m₀ a g.n g.size := by
    rcases hstart with hsetup | hcreate
    · exact hsetup
    · rw [arrayCreate_eq, Prod.mk.injEq] at hcreate
      exact hcreate.2.symm
  -- The run lemma carries the refinement, the callback data and the status together.
  exact Machine.run_refines_along (arrayCall a) (seqCall g.n.toNat g.width)
    (fun s c => c.Fits s.1 a)
    (fun s t => ArrayHolds g s.1 a t.1 ∧ s.2 = t.2 ∧ arrayStatus s.1 a = arrayStatus m₀ a)
    (fun s t c h hc => by
      rcases arrayCall_refines g a s t c ⟨h.1, h.2.1⟩ hc with ⟨hout, hnext, hdata⟩
      exact ⟨hout, hnext, hdata, (arrayCall_status g a s t.1 c h.1 hc).trans h.2.2⟩)
    calls (m, d) ([], d)
    ⟨by rw [hm]; exact arrayHolds_setup g m₀ a, rfl, by rw [hm]; exact arraySetup_status _ _ _ _⟩
    hok

/-- Pops take the sequence apart from its end. -/
theorem pops_reverse : ∀ (k : Nat) (s : Mem × σ) (seq : List (List UInt8)),
    ArrayHolds g s.1 a seq →
    Machine.Along (arrayCall a) (fun s c => c.Fits s.1 a) s (List.replicate k (.call .pop)) →
    (Machine.run (arrayCall a) s (List.replicate k (.call .pop))).2
      = (seq.reverse.take k).map (fun x => .out (.popped x)) := by
  intro k
  induction k with
  | zero =>
      intro s seq _ _
      rfl
  | succ k ih =>
      intro s seq h hok
      rw [List.replicate_succ] at hok ⊢
      rcases hok with ⟨hpop, hrest⟩
      have hpos := (arrayHolds_nelem_ne g s.1 a seq h hpop).1
      rcases arrayCall_refines g a s (seq, s.2) (.call .pop) ⟨h, rfl⟩ hpop with ⟨hout, hnext, _⟩
      -- The last element goes first.
      rcases (List.eq_nil_or_concat seq).resolve_left (List.ne_nil_of_length_pos hpos) with
        ⟨ys, y, rfl⟩
      rw [Machine.run, hout, ih _ _ hnext hrest]
      simp only [seqCall, seqStep, List.concat_eq_append, List.dropLast_concat,
        List.reverse_append, List.reverse_singleton, List.singleton_append, List.take_succ_cons,
        List.map_cons, List.getLastD_concat]

/-- Runs with sorts in them refine the sequence, and an element is at the index
    that its address gives. The header has the length of the sequence and is
    otherwise as it was set up. -/
theorem array_sorts (m₀ m : Mem) (d : σ) (calls : List (ArrayCall σ))
    (hstart : m = arraySetup m₀ a g.n g.size ∨
      arrayCreate (some a) m₀ g.n g.size = (some a, m))
    (hok : Machine.Along (arrayCall a) (fun s c => c.Fits s.1 a) (m, d) calls) :
    (Machine.run (arrayCall a) (m, d) calls).2
        = (Machine.run (seqCall g.n.toNat g.width) ([], d) calls).2 ∧
      arrayContents g (Machine.run (arrayCall a) (m, d) calls).1.1 a
        = (Machine.run (seqCall g.n.toNat g.width) ([], d) calls).1.1 ∧
      (Machine.run (arrayCall a) (m, d) calls).1.2
        = (Machine.run (seqCall g.n.toNat g.width) ([], d) calls).1.2 ∧
      (arrayNelem (Machine.run (arrayCall a) (m, d) calls).1.1 a).toNat
        = (Machine.run (seqCall g.n.toNat g.width) ([], d) calls).1.1.length ∧
      arrayNalloc (Machine.run (arrayCall a) (m, d) calls).1.1 a = g.n ∧
      arraySize (Machine.run (arrayCall a) (m, d) calls).1.1 a = g.size ∧
      arrayStatus (Machine.run (arrayCall a) (m, d) calls).1.1 a = arrayStatus m₀ a := by
  rcases arrayCall_run g a m₀ m d calls hstart hok with ⟨hout, h, hd, hstatus⟩
  -- The header fields are what ArrayHolds says of them, the status what the run has kept.
  exact ⟨hout, arrayHolds_contents g _ a _ h, hd, h.nelem, h.nalloc, h.size, hstatus⟩

/-- The pops after a sort hand out the elements from the last in order on. -/
theorem array_pops_descend (m₀ m : Mem) (d : σ) (calls : List (ArrayCall σ))
    (compare : List UInt8 → List UInt8 → Int) (sorted : List (List UInt8)) (k : Nat)
    (hstart : m = arraySetup m₀ a g.n g.size ∨
      arrayCreate (some a) m₀ g.n g.size = (some a, m))
    (hok : Machine.Along (arrayCall a) (fun s c => c.Fits s.1 a) (m, d)
      (calls ++ .sort compare sorted :: List.replicate k (.call .pop))) :
    (Machine.run (arrayCall a) (m, d)
        (calls ++ .sort compare sorted :: List.replicate k (.call .pop))).2
        = (Machine.run (arrayCall a) (m, d) calls).2
          ++ .sorted :: (sorted.reverse.take k).map (fun x => .out (.popped x)) ∧
      sorted.Perm (arrayContents g (Machine.run (arrayCall a) (m, d) calls).1.1 a) ∧
      (sorted.reverse.take k).Pairwise (fun x y => compare y x ≤ 0) := by
  rw [Machine.along_append] at hok
  -- The calls, the sort and the pops follow each other, each under its own condition.
  rcases hok with ⟨hcalls, ⟨_, hperm, hsorted⟩, hpops⟩
  rcases arrayCall_run g a m₀ m d calls hstart hcalls with ⟨_, h, _, _⟩
  rw [arrayElems_seq g _ a _ h] at hperm
  have hafter := arraySort_holds g _ a _ h sorted hperm
  refine ⟨?_, ?_, ?_⟩
  -- After the sort the elements stand in order and the pops take them from the end.
  · rw [Machine.run_append_answers, Machine.run]
    exact congrArg (fun outs => _ ++ ArrayReply.sorted :: outs)
      (pops_reverse g a k _ sorted hafter hpops)
  · rw [arrayHolds_contents g _ a _ h]
    exact hperm
  -- What is taken is the reverse of the sorted list, so it descends.
  · exact List.Pairwise.sublist (List.take_sublist k _) (List.pairwise_reverse.mpr hsorted)

end Runs

/-- The order of the first bytes. -/
def firstByte (x y : List UInt8) : Int := (x.headD 0).toNat - (y.headD 0).toNat

/-- Three elements of a byte. -/
def threePushes : List (ArrayCall Unit) :=
  [.call (.push (fun _ => 5)), .call (.push (fun _ => 1)), .call (.push (fun _ => 3))]

theorem array_sorts_three :
    (Machine.run (arrayCall 64) (arraySetup (fun _ => 9) 64 3 1, ())
        (threePushes ++ [.sort firstByte [[1], [3], [5]], .idx 2, .call (.get 0)])).2
      = [.out (.pushed cmnOk), .out (.pushed cmnOk), .out (.pushed cmnOk), .sorted, .index 2,
        .out (.got [1])] :=
  (array_sorts ⟨3, 1, by decide, by decide⟩ 64 (fun _ => 9) _ () _ (Or.inl rfl)
    (by decide +kernel)).1.trans (by decide)

theorem array_pops_descend_three :
    (Machine.run (arrayCall 64) (arraySetup (fun _ => 9) 64 3 1, ())
        (threePushes ++ .sort firstByte [[1], [3], [5]] :: List.replicate 2 (.call .pop))).2
      = (Machine.run (arrayCall 64) (arraySetup (fun _ => 9) 64 3 1, ()) threePushes).2
        ++ [.sorted, .out (.popped [5]), .out (.popped [3])] :=
  (array_pops_descend ⟨3, 1, by decide, by decide⟩ 64 (fun _ => 9) _ () threePushes firstByte
    [[1], [3], [5]] 2 (Or.inl rfl) (by decide +kernel)).1

end Aircmn
