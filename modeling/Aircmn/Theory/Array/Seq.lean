import Aircmn.Lib.Machine
import Aircmn.Theory.Array.Slots

/-!
# The Array as a Sequence

An array is a bounded sequence of elements. The abstract object is `seqStep`,
a list with a bound and an answer for each operation, and `ArrayHolds` is the
simulation relation.

The functions that return an address are answered with the bytes found there
when the call returns, which is what the sequence can know of them. A
callback of `array_each` reads the element it is given; `arrayEach_visits`
is about the callbacks that look at addresses too.

What the source asserts about an argument or the count is the condition on the
calls of a run, together with the index of a store, which the caller keeps
below the count.

## Main definitions

* `ArrayOp`, `ArrayOut`: Calls and answers.
* `ArrayOp.Asserts`: The condition on a call.
* `arrayStep`: The code.
* `visit`: A callback called on a list until it returns a failure.
* `seqStep`: The sequence.

## Theorems

* `arrayEachLoop_visits`, `arrayEach_visits`: The loop is a visit of the
  slots in order.
* `arrayStep_refines`: One operation.
* `array_refines_sequence`: A whole run.
* `array_two_slots`: An array of two elements, with a pop and a store.
-/

namespace Aircmn

open Bytes

/-- A call. A callback of `array_each` is given the bytes of an element. -/
inductive ArrayOp (σ : Type) where
  | push (elem : Mem)
  | pop
  | get (idx : UInt32)
  | top
  | add (elem : Mem) (idx : UInt32)
  | each (func : List UInt8 → σ → Status × σ)

/-- What a call answers, an address by the bytes that are there. -/
inductive ArrayOut where
  | pushed (status : Status)
  | popped (bytes : List UInt8)
  | got (bytes : List UInt8)
  | added (status : Status)
  | visited (status : Status)
deriving DecidableEq

/-- What the source asserts before the call, and that a store is below the
    count. -/
def ArrayOp.Asserts {σ : Type} (m : Mem) (a : Nat) : ArrayOp σ → Prop
  | .push _ => True
  | .pop => arrayNelem m a ≠ 0
  | .get idx => arrayNelem m a ≠ 0 ∧ idx < arrayNelem m a
  | .top => arrayNelem m a ≠ 0
  | .add _ idx => idx < arrayNelem m a
  | .each _ => arrayNelem m a ≠ 0

instance {σ : Type} (m : Mem) (a : Nat) : ∀ op : ArrayOp σ, Decidable (op.Asserts m a)
  | .push _ => inferInstanceAs (Decidable True)
  | .pop => inferInstanceAs (Decidable (arrayNelem m a ≠ 0))
  | .get idx => inferInstanceAs (Decidable (arrayNelem m a ≠ 0 ∧ idx < arrayNelem m a))
  | .top => inferInstanceAs (Decidable (arrayNelem m a ≠ 0))
  | .add _ idx => inferInstanceAs (Decidable (idx < arrayNelem m a))
  | .each _ => inferInstanceAs (Decidable (arrayNelem m a ≠ 0))

/-- The bytes of the element at an address. -/
def arrayRead (m : Mem) (a ptr : Nat) : List UInt8 := slice m ptr (sizeOfInt (arraySize m a))

/-- A callback of `array_each` that reads the element it is given. -/
def readThen {σ : Type} (func : List UInt8 → σ → Status × σ) (a : Nat) :
    Nat → Mem → σ → Status × σ :=
  fun ptr m data => func (arrayRead m a ptr) data

/-- The code, on the array at `a`, next to whatever else the program holds. -/
def arrayStep {σ : Type} (a : Nat) (s : Mem × σ) : ArrayOp σ → (Mem × σ) × ArrayOut
  | .push elem => (((arrayPush s.1 a elem).2, s.2), .pushed (arrayPush s.1 a elem).1)
  | .pop =>
    (((arrayPop s.1 a).2, s.2), .popped (arrayRead (arrayPop s.1 a).2 a (arrayPop s.1 a).1))
  | .get idx => (s, .got (arrayRead s.1 a (arrayGet s.1 a idx)))
  | .top => (s, .got (arrayRead s.1 a (arrayTop s.1 a)))
  | .add elem idx => (((arrayAdd s.1 a elem idx).2, s.2), .added (arrayAdd s.1 a elem idx).1)
  | .each func =>
    ((s.1, (arrayEach s.1 a (readThen func a) s.2).2),
      .visited (arrayEach s.1 a (readThen func a) s.2).1)

/-- Call `func` on the members of a list in turn until it returns something
    other than `CMN_OK`, and return that. -/
def visit {α σ : Type} (func : α → σ → Status × σ) : List α → σ → Status × σ
  | [], data => (cmnOk, data)
  | x :: rest, data =>
    if (func x data).1 ≠ cmnOk then func x data else visit func rest (func x data).2

/-- A sequence of at most `n` elements of `width` bytes. -/
def seqStep {σ : Type} (n width : Nat) (s : List (List UInt8) × σ) :
    ArrayOp σ → (List (List UInt8) × σ) × ArrayOut
  | .push elem =>
    if s.1.length < n then ((s.1 ++ [slice elem 0 width], s.2), .pushed cmnOk)
    else (s, .pushed cmnEmem)
  | .pop => ((s.1.dropLast, s.2), .popped (s.1.getLastD []))
  | .get idx => (s, .got (s.1.getD idx.toNat []))
  | .top => (s, .got (s.1.getLastD []))
  | .add elem idx => ((s.1.set idx.toNat (slice elem 0 width), s.2), .added cmnOk)
  | .each func => ((s.1, (visit func s.1 s.2).2), .visited (visit func s.1 s.2).1)

theorem visit_map {α β σ : Type} (func : β → σ → Status × σ) (f : α → β) :
    ∀ (xs : List α) (data : σ),
      visit func (xs.map f) data = visit (fun x => func (f x)) xs data := by
  intro xs
  induction xs with
  | nil =>
      intro data
      rfl
  | cons x xs ih =>
      intro data
      rw [List.map_cons, visit, visit, ih]

theorem visit_congr {α σ : Type} (func func' : α → σ → Status × σ) :
    ∀ (xs : List α) (data : σ), (∀ x ∈ xs, func x = func' x) →
      visit func xs data = visit func' xs data := by
  intro xs
  induction xs with
  | nil =>
      intro data _
      rfl
  | cons x xs ih =>
      intro data h
      rw [visit, visit, h x List.mem_cons_self,
        ih _ (fun y hy => h y (List.mem_cons_of_mem x hy))]

/-- The loop from index `i` on visits the next `k` slots in order. -/
theorem arrayEachLoop_visits {σ : Type} (g : ArrayGeom) (func : Nat → Mem → σ → Status × σ)
    (m : Mem) (a : Nat) (hsize : arraySize m a = g.size) : ∀ (k : Nat) (i : UInt32) (data : σ),
      i.toNat + k ≤ g.n.toNat →
      arrayEachLoop func m a k i data
        = visit (fun j => func (a + arrayHdrSize + g.width * j) m) (List.range' i.toNat k)
          data := by
  intro k
  induction k with
  | zero =>
      intro i data _
      rfl
  | succ k ih =>
      intro i data hle
      have hn := g.n.toNat_lt
      -- The index does not wrap while there are slots to visit.
      have hnext : (i + 1).toNat = i.toNat + 1 := by
        rw [UInt32.toNat_add, UInt32.toNat_one]
        omega
      rw [arrayEachLoop, List.range'_succ, visit, arrayGet,
        arraySlot_eq g m a i hsize (by omega), ih (i + 1) _ (by omega), hnext]

/-- A callback given addresses is called on the slots of the sequence in
    order, each of which holds its element. -/
theorem arrayEach_visits {σ : Type} (g : ArrayGeom) (m : Mem) (a : Nat)
    (seq : List (List UInt8)) (func : Nat → Mem → σ → Status × σ) (data : σ)
    (h : ArrayHolds g m a seq) :
    arrayEach m a func data
      = visit (fun j => func (a + arrayHdrSize + g.width * j) m) (List.range seq.length) data := by
  rw [arrayEach, arrayEachLoop_visits g func m a h.size _ 0 data
    (by rw [UInt32.toNat_zero, Nat.zero_add, h.nelem]; exact h.le), UInt32.toNat_zero, h.nelem,
    List.range_eq_range']

/-- A callback that reads its element is called on the elements in order. -/
theorem arrayEach_elements {σ : Type} (g : ArrayGeom) (m : Mem) (a : Nat)
    (seq : List (List UInt8)) (func : List UInt8 → σ → Status × σ) (data : σ)
    (h : ArrayHolds g m a seq) : arrayEach m a (readThen func a) data = visit func seq data := by
  have hseq : (List.range seq.length).map (fun j => arrayEntry g m a j) = seq := by
    have hcontents := arrayHolds_contents g m a seq h
    rwa [arrayContents, h.nelem] at hcontents
  rw [arrayEach_visits g m a seq _ data h]
  conv_rhs => rw [← hseq]
  rw [visit_map]
  refine visit_congr _ _ _ data (fun j _ => ?_)
  funext d
  rw [readThen, arrayRead, h.size, sizeOfInt_of_pos _ g.pos]
  rfl

theorem arrayHolds_last (g : ArrayGeom) (m : Mem) (a : Nat) (seq : List (List UInt8))
    (idx : UInt32) (h : ArrayHolds g m a seq) (hidx : idx.toNat + 1 = seq.length) :
    slice m (arraySlot m a idx) (sizeOfInt (arraySize m a)) = seq.getLastD [] := by
  rw [arrayHolds_read g m a seq idx h (by omega), List.getLastD_eq_getLast?,
    List.getLast?_eq_getElem?, show seq.length - 1 = idx.toNat by omega,
    List.getElem?_eq_getElem (by omega), Option.getD_some]

theorem arrayHolds_nelem_ne (g : ArrayGeom) (m : Mem) (a : Nat) (seq : List (List UInt8))
    (h : ArrayHolds g m a seq) (hne : arrayNelem m a ≠ 0) :
    0 < seq.length ∧ (arrayNelem m a - 1).toNat + 1 = seq.length := by
  have hpos : 0 < (arrayNelem m a).toNat := by
    refine Nat.pos_of_ne_zero (fun hc => hne ?_)
    rw [← UInt32.toNat_inj, hc, UInt32.toNat_zero]
  have hone : (1 : UInt32) ≤ arrayNelem m a := by
    rw [UInt32.le_iff_toNat_le, UInt32.toNat_one]
    exact hpos
  rw [UInt32.toNat_sub_of_le _ _ hone, UInt32.toNat_one, ← h.nelem]
  omega

/-- One call answers as the sequence does, and keeps the relation. -/
theorem arrayStep_refines {σ : Type} (g : ArrayGeom) (a : Nat) (s : Mem × σ)
    (t : List (List UInt8) × σ) (op : ArrayOp σ) (h : ArrayHolds g s.1 a t.1 ∧ s.2 = t.2)
    (hok : op.Asserts s.1 a) :
    (arrayStep a s op).2 = (seqStep g.n.toNat g.width t op).2 ∧
      ArrayHolds g (arrayStep a s op).1.1 a (seqStep g.n.toNat g.width t op).1.1 ∧
      (arrayStep a s op).1.2 = (seqStep g.n.toNat g.width t op).1.2 := by
  rcases s with ⟨m, d⟩
  rcases t with ⟨seq, d'⟩
  rcases h with ⟨h, hd⟩
  simp only at h hd
  subst hd
  have hle := h.le
  cases op with
  | push elem =>
      -- The comparison of the words is that of the length and the bound.
      have hfull : arrayNelem m a = arrayNalloc m a ↔ seq.length = g.n.toNat := by
        rw [← UInt32.toNat_inj, h.nelem, h.nalloc]
      simp only [arrayStep, seqStep, arrayPush, beq_iff_eq, hfull]
      by_cases hroom : seq.length < g.n.toNat
      · have hidx : (arrayNelem m a).toNat ≤ g.n.toNat := by rw [h.nelem]; exact hle
        rw [if_neg (by omega), if_pos hroom, arrayCopy_nelem g m a elem _ h.size hidx]
        exact ⟨rfl, arrayHolds_append g m a seq elem h hroom, rfl⟩
      · rw [if_pos (by omega), if_neg hroom]
        exact ⟨rfl, h, rfl⟩
  | pop =>
      rcases arrayHolds_nelem_ne g m a seq h hok with ⟨hne, hlast⟩
      have hdrop := arrayHolds_dropLast g m a seq h hne
      -- Storing the count leaves the last element in its slot.
      have hread : arrayRead (arrayPop m a).2 a (arrayPop m a).1 = seq.getLastD [] := by
        simp only [arrayPop, arraySetNelem_nelem]
        rw [← arrayHolds_last g m a seq _ h hlast, arrayRead, arraySlot_eq g _ a _ hdrop.size
          (by omega), arraySlot_eq g m a _ h.size (by omega), hdrop.size, h.size]
        exact slice_blit_of_disjoint _ _ _ _ _ _ (by unfold arrayHdrSize; omega)
      refine ⟨?_, hdrop, rfl⟩
      simp only [arrayStep, seqStep, hread]
  | get idx =>
      have hidx : idx.toNat < seq.length := by
        rw [← h.nelem]
        exact UInt32.lt_iff_toNat_lt.mp hok.2
      refine ⟨?_, h, rfl⟩
      simp only [arrayStep, seqStep, arrayRead, arrayGet, arrayHolds_read g m a seq idx h hidx,
        List.getD_eq_getElem?_getD, List.getElem?_eq_getElem hidx, Option.getD_some]
  | top =>
      rcases arrayHolds_nelem_ne g m a seq h hok with ⟨_, hlast⟩
      refine ⟨?_, h, rfl⟩
      simp only [arrayStep, seqStep, arrayRead, arrayTop, arrayGet,
        arrayHolds_last g m a seq _ h hlast]
  | add elem idx =>
      have hidx : idx.toNat < seq.length := by
        rw [← h.nelem]
        exact UInt32.lt_iff_toNat_lt.mp hok
      -- An index below the count is not the one index that is refused.
      have hne : idx ≠ arrayNalloc m a :=
        ne_nalloc_of_lt m a idx (h.nalloc ▸ Nat.lt_of_lt_of_le hidx h.le)
      simp only [arrayStep, seqStep, arrayAdd_other m a elem idx hne]
      exact ⟨trivial, arrayHolds_set g m a seq elem idx h hidx, trivial⟩
  | each func =>
      refine ⟨?_, h, ?_⟩
      all_goals simp only [arrayStep, seqStep, arrayEach_elements g m a seq func d h]

/-- A push that does not return `CMN_OK` returns without a store. -/
theorem arrayPush_refused (m : Mem) (a : Nat) (elem : Mem) (h : (arrayPush m a elem).1 ≠ cmnOk) :
    arrayPush m a elem = (cmnEmem, m) := by
  unfold arrayPush at h ⊢
  by_cases hfull : (arrayNelem m a == arrayNalloc m a) = true
  · rw [if_pos hfull]
  · rw [if_neg hfull] at h
    exact absurd rfl h

theorem arrayCreate_eq (m : Mem) (a : Nat) (n : UInt32) (size : Int32) :
    arrayCreate (some a) m n size = (some a, arraySetup m a n size) := rfl

/-- An array refines a sequence of at most `n` elements: over every run of
    calls whose assertions hold, from an array just created or set up, it
    answers as the sequence does and its counted slots are the sequence; a
    push it refuses leaves memory as it was, and `array_each` calls any
    callback on the addresses of the elements in order. -/
theorem array_refines_sequence {σ : Type} (g : ArrayGeom) (a : Nat) (m₀ m : Mem) (d : σ)
    (ops : List (ArrayOp σ))
    (hstart : m = arraySetup m₀ a g.n g.size ∨
      arrayCreate (some a) m₀ g.n g.size = (some a, m))
    (hok : Machine.Along (arrayStep a) (fun s op => op.Asserts s.1 a) (m, d) ops) :
    (Machine.run (arrayStep a) (m, d) ops).2
        = (Machine.run (seqStep g.n.toNat g.width) ([], d) ops).2 ∧
      arrayContents g (Machine.run (arrayStep a) (m, d) ops).1.1 a
        = (Machine.run (seqStep g.n.toNat g.width) ([], d) ops).1.1 ∧
      (Machine.run (arrayStep a) (m, d) ops).1.2
        = (Machine.run (seqStep g.n.toNat g.width) ([], d) ops).1.2 ∧
      (arrayNelem (Machine.run (arrayStep a) (m, d) ops).1.1 a).toNat
        = (Machine.run (seqStep g.n.toNat g.width) ([], d) ops).1.1.length ∧
      (Machine.run (seqStep g.n.toNat g.width) ([], d) ops).1.1.length ≤ g.n.toNat ∧
      (∀ elem, (arrayPush (Machine.run (arrayStep a) (m, d) ops).1.1 a elem).1 ≠ cmnOk →
        arrayPush (Machine.run (arrayStep a) (m, d) ops).1.1 a elem
          = (cmnEmem, (Machine.run (arrayStep a) (m, d) ops).1.1)) ∧
      ∀ (func : Nat → Mem → σ → Status × σ) (data : σ),
        arrayEach (Machine.run (arrayStep a) (m, d) ops).1.1 a func data
          = visit (fun j => func (a + arrayHdrSize + g.width * j)
              (Machine.run (arrayStep a) (m, d) ops).1.1)
            (List.range (Machine.run (seqStep g.n.toNat g.width) ([], d) ops).1.1.length) data := by
  -- Both ways of making the array leave the memory of array_setup.
  have hm : m = arraySetup m₀ a g.n g.size := by
    rcases hstart with hsetup | hcreate
    · exact hsetup
    · rw [arrayCreate_eq, Prod.mk.injEq] at hcreate
      exact hcreate.2.symm
  -- The run refines the sequence, as long as the assertions hold along it.
  have hrun := Machine.run_refines_along (arrayStep a) (seqStep g.n.toNat g.width)
    (fun s op => op.Asserts s.1 a) (fun s t => ArrayHolds g s.1 a t.1 ∧ s.2 = t.2)
    (fun s t op h hop => arrayStep_refines g a s t op h hop) ops (m, d) ([], d)
    ⟨by rw [hm]; exact arrayHolds_setup g m₀ a, rfl⟩ hok
  rcases hrun with ⟨hout, h, hd⟩
  -- A refusal and a visit are then what they are in one step, in the state that was reached.
  exact ⟨hout, arrayHolds_contents g _ a _ h, hd, h.nelem, h.le,
    fun elem => arrayPush_refused _ a elem, fun func data => arrayEach_visits g _ a _ func data h⟩

/-- A callback that collects first bytes and fails at a zero. -/
def untilZero (bytes : List UInt8) (seen : List UInt8) : Status × List UInt8 :=
  (if bytes.headD 0 = 0 then cmnError else cmnOk, seen ++ bytes.take 1)

/-- An array of two elements of two bytes: the third push is refused, a store
    after a pop replaces the first element, and a visit stops at a zero. -/
theorem array_two_slots :
    (Machine.run (arrayStep 0) (arraySetup (fun _ => 9) 0 2 2, [])
        [.push (fun _ => 5), .push (fun i => UInt8.ofNat i), .push (fun _ => 7),
          .each untilZero, .pop, .add (fun _ => 6) 0, .top, .push (fun _ => 8), .get 1]).2
      = [.pushed cmnOk, .pushed cmnOk, .pushed cmnEmem, .visited cmnError, .popped [0, 1],
        .added cmnOk, .got [6, 6], .pushed cmnOk, .got [8, 8]] :=
  (array_refines_sequence ⟨2, 2, by decide, by decide⟩ 0 (fun _ => 9) _ _ _ (Or.inl rfl)
    (by decide +kernel)).1.trans (by decide)

end Aircmn
