import Aircmn.Theory.Queue.Run

/-!
# Lists of Several Kinds in One Program

A program uses the macros with several structures at once, and an element can
be in a list and in a tail queue at the same time, through two of its fields.
Each use has a layout of its own: which structure, which field, which heads and
elements. The uses share one memory, and what keeps them from disturbing each
other is that no byte of a head or of a field belongs to two of them. The rest
of memory is the program's, which stores there what it likes.

A macro of one use writes to nothing outside of its layout, so the sequences of
all others stand as they did, and the argument for one layout carries over.

## Main definitions

* `QueueFamily`, `FamiliesApart`: The uses, and that they share no byte.
* `QueuesOp`, `queuesStep`: What a program does.
* `queuesSpec`, `QueuesLegal`: The sequences of every use, and what a program
  may do.

## Theorems

* `holds_of_covers`: What the sequences of a layout depend on.
* `queues_step`: One macro, or a store of the program's own.
* `queues_frame`: What a program leaves alone.
* `queues_refine`: The macros of all four structures implement sequences.
-/

namespace Aircmn

open Links Machine

/-- A structure, with the field, the heads and the elements it is used for. -/
structure QueueFamily where
  kind : QueueKind
  layout : Layout kind

/-- No byte of a head or of a field is of two families. -/
def FamiliesApart {ι : Type} (F : ι → QueueFamily) : Prop :=
  ∀ i j, i ≠ j → ∀ a, (F i).layout.Covers a → ¬ (F j).layout.Covers a

/-- A use of a macro for one of the families, or a store to memory that is not
    of a list. -/
inductive QueuesOp (ι : Type) where
  | on (i : ι) (op : QueueOp)
  | other (c v : Nat)

/-- The program stores to no byte of the pointer at `c` on its own. -/
def QueuesOp.Misses {ι : Type} (c : Nat) : QueuesOp ι → Prop
  | .on _ _ => True
  | .other c' _ => c' + 8 ≤ c ∨ c + 8 ≤ c'

/-- The macro of the structure, with the field of the family. -/
def queuesStep {ι : Type} (F : ι → QueueFamily) (fuel : Nat) (s : Store) :
    QueuesOp ι → Store × QueueAns
  | .on i op => macroStep (F i).kind (F i).layout.off fuel s op
  | .other c v => (s.set c v, .done)

/-- Only the sequences of the family change. -/
def queuesSpec {ι : Type} [DecidableEq ι] (q : ι → Queues) :
    QueuesOp ι → (ι → Queues) × QueueAns
  | .on i op => (Function.update q i (queueSpec (q i) op).1, (queueSpec (q i) op).2)
  | .other _ _ => (q, .done)

/-- What a program may do, with each of the families and besides them. -/
def QueuesLegal {ι : Type} (F : ι → QueueFamily) (fuel : Nat) (q : ι → Queues) :
    QueuesOp ι → Prop
  | .on i op => QueueLegal (F i).layout fuel (q i) op
  | .other c _ => ∀ i, (F i).layout.Outside c

/-- Sequences depend on the pointers all of whose bytes are of the layout. -/
theorem holds_of_covers {k : QueueKind} (L : Layout k) (s s' : Store) (q : Queues)
    (hold : Holds L s q)
    (hsame : ∀ c, (∀ a, c ≤ a → a < c + 8 → L.Covers a) → s' c = s c) : Holds L s' q :=
  holds_congr L s s' q hold (fun g c hg hown => hsame c
    (owns_covers L q g c hold.apart (head_of_isSome q g hold.apart hg) hown))

section Families

variable {ι : Type} [DecidableEq ι] (F : ι → QueueFamily) (hapart : FamiliesApart F) (fuel : Nat)

include hapart

/-- One macro of a family keeps the sequences of all others, and so does a
    store of the program's own. -/
theorem queues_step (s : Store) (q : ι → Queues) (hold : ∀ i, Holds (F i).layout s (q i))
    (o : QueuesOp ι) (hlegal : QueuesLegal F fuel q o) :
    (queuesSpec q o).2 = (queuesStep F fuel s o).2 ∧
      ∀ i, Holds (F i).layout (queuesStep F fuel s o).1 ((queuesSpec q o).1 i) := by
  -- A step of one family is the step of that family alone; a foreign store reaches none.
  cases o with
  | on i op =>
      -- What the family's own step changes is known from its step lemma.
      have hstep := queue_step (F i).kind (F i).layout s (q i) (hold i) fuel op hlegal
      refine ⟨hstep.1, fun j => ?_⟩
      by_cases hji : j = i
      · subst hji
        simp only [queuesSpec, Function.update_self]
        exact hstep.2.holds
      · -- A pointer of family `j` is outside of family `i`.
        simp only [queuesSpec, Function.update_of_ne hji]
        exact holds_of_covers (F j).layout s _ (q j) (hold j) (fun c hc =>
          hstep.2.frame c (fun a hlo hhi => hapart j i hji a (hc a hlo hhi)))
  | other c v =>
      -- The store is outside of every family, so every family holds what it held.
      refine ⟨rfl, fun j => holds_of_covers (F j).layout s _ (q j) (hold j) (fun c' hc' => ?_)⟩
      refine set_other s c v c' (fun heq => ?_)
      exact hlegal j c (Nat.le_refl c) (by omega) (hc' c (by omega) (by omega))

/-- What is of no family is stored to by the program alone. -/
theorem queues_frame (c : Nat) (hout : ∀ i, (F i).layout.Outside c) :
    ∀ (ops : List (QueuesOp ι)) (s : Store) (q : ι → Queues),
      (∀ i, Holds (F i).layout s (q i)) → Along queuesSpec (QueuesLegal F fuel) q ops →
      (∀ o ∈ ops, o.Misses c) → (run (queuesStep F fuel) s ops).1 c = s c := by
  intro ops
  induction ops with
  | nil =>
      intro s q _ _ _
      rfl
  | cons o ops ih =>
      intro s q hold hlegal hmiss
      -- After a step every family still holds, which is what the rest of the run starts from.
      have hnext := (queues_step F hapart fuel s q hold o hlegal.1).2
      rw [run, ih _ _ hnext hlegal.2 (fun o' ho' => hmiss o' (List.mem_cons_of_mem o ho'))]
      cases o with
      -- A step of family i changes nothing outside its layout, and c is outside of it.
      | on i op =>
          exact (queue_step (F i).kind (F i).layout s (q i) (hold i) fuel op hlegal.1).2.frame c
            (hout i)
      -- The word that is stored lies clear of the one at c.
      | other c' v =>
          have hc : c' + 8 ≤ c ∨ c + 8 ≤ c' := hmiss _ List.mem_cons_self
          exact set_other s c' v c (by omega)

end Families

/-- A list of the elements of `smallLayout`, through another field. -/
def smallList : Layout .slist where
  off := 0
  head := fun h => h = 48
  elem := fun x => x = 100 ∨ x = 132
  elem_ne := (smallLayout .slist).elem_ne
  heads := by omega
  elems := (smallLayout .slist).elems
  both := by
    have hsizes := sizes_le .slist
    omega

/-- Two elements that may be in a tail queue and in a list. -/
def smallFamilies : Bool → QueueFamily
  | true => ⟨.tailq, smallLayout .tailq⟩
  | false => ⟨.slist, smallList⟩

theorem smallFamilies_apart : FamiliesApart smallFamilies := by
  have hcover : ∀ a, (smallFamilies true).layout.Covers a →
      ¬ (smallFamilies false).layout.Covers a := by
    -- The two heads lie apart, and so do the two fields of an element.
    rintro a (⟨h, hh, hlo, hhi⟩ | ⟨x, hx, hlo, hhi⟩)
      (⟨h', hh', hlo', hhi'⟩ | ⟨y, hy, hlo', hhi'⟩)
    all_goals
      simp only [smallFamilies, smallList, smallLayout, QueueKind.headSize, QueueKind.entrySize,
        QueueKind.tail, QueueKind.dbl, Bool.false_eq_true, if_true, if_false] at *
      omega
  intro i j hij a
  cases i <;> cases j
  · exact absurd rfl hij
  · exact fun hlist htail => hcover a htail hlist
  · exact hcover a
  · exact absurd rfl hij

/-- Both elements are put into both, and one is taken out of the list again. -/
def mixedProgram : List (QueuesOp Bool) :=
  [.on true (.init 8), .on false (.init 48), .on true (.insertTail 8 100),
    .on false (.insertHead 48 100), .other 108 7, .on false (.insertHead 48 132),
    .on true (.insertHead 8 132), .on false (.removeHead 48), .on true (.foreachReverse 8)]

theorem mixedProgram_legal :
    Along queuesSpec (QueuesLegal smallFamilies 4) (fun _ => noQueues) mixedProgram := by
  simp [mixedProgram, Along, QueuesLegal, QueueLegal, QueueFits, queuesSpec, queueSpec,
    QueueKind.has, QueueKind.dbl, QueueKind.tail, QueueKind.headSize, QueueKind.entrySize,
    smallFamilies, smallList, smallLayout, noQueues, Queues.elems, Queues.set, Queues.Free,
    Function.update_apply, Layout.Outside, Layout.Covers]
  refine ⟨⟨?_, ?_⟩, ⟨?_, ?_⟩, ⟨?_, ?_⟩, ⟨?_, ?_⟩, ⟨?_, ?_⟩, ?_, ?_⟩
  -- The bytes that the program stores to, and the sequences it has at each step.
  all_goals
    intro h
    first
      | omega
      | split_ifs <;> simp

end Aircmn
