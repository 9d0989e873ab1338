import Aircmn.Theory.Queue.Spec

/-!
# Sequences in Memory

How a store holds the sequence of a head, for all four structures. The head is
a slot and so is the field of every element, and each slot leads to the next
element or, the last one, to null. If the elements have a pointer back, it is
to the slot that leads to them, and if the head has a second pointer, it is to
the last slot.

Seen from the slots there are four changes. An element is put between a slot
and what it leads to, or taken out from behind a slot; a sequence is put
behind the last slot of another; two heads exchange what they lead to. For
each of them there is a description of what the store after it has to be, and
a theorem that the store then holds the new sequence. The macros differ in
which slot they start from and in the order of their assignments, so for a
macro it remains to be shown that it makes the change.

## Main definitions

* `QueueLink`, `QueueAt`: A sequence in memory.
* `IsSlot`, `QueueOwns`: The slots and the pointers of a sequence.
* `Spliced`, `Unlinked`, `Joined`, `Swapped`: The four changes.
* `Took`: One side of the last.

## Theorems

* `queueAt_congr`: A sequence depends on what it owns.
* `queueAt_splice`, `queueAt_unlink`, `queueAt_join`, `queueAt_swap`: What the
  changes leave.
-/

namespace Aircmn

open Links

/-- Slot `b` leads to `x`, and `x` back to it. -/
def QueueLink (k : QueueKind) (off : Nat) (s : Store) (b x : Nat) : Prop :=
  s b = x ∧ (k.dbl = true → s (x + off + 8) = b)

/-- The store has the sequence of the head. -/
structure QueueAt (k : QueueKind) (off : Nat) (s : Store) (h : Nat) (xs : List Nat) : Prop where
  linked : Linked (QueueLink k off s) (· + off) h xs
  ends : s (lastSlot (· + off) h xs) = 0
  tail : k.tail = true → s (h + 8) = lastSlot (· + off) h xs

/-- The slots of a sequence. -/
def IsSlot (off h : Nat) (xs : List Nat) (c : Nat) : Prop := c = h ∨ ∃ z ∈ xs, c = z + off

/-- The pointers of a sequence. -/
def QueueOwns (k : QueueKind) (off h : Nat) (xs : List Nat) (c : Nat) : Prop :=
  InHead k h c ∨ ∃ z ∈ xs, InEntry k off z c

/-- `x` has been put behind slot `b`. -/
structure Spliced (k : QueueKind) (off h : Nat) (s s' : Store) (b x : Nat) : Prop where
  here : s' b = x
  next : s' (x + off) = s b
  back : k.dbl = true → s' (x + off + 8) = b
  after : k.dbl = true → s b ≠ 0 → s' (s b + off + 8) = x + off
  tail : k.tail = true → s' (h + 8) = if s b = 0 then x + off else s (h + 8)
  frame : ∀ c, c ≠ b → ¬ InEntry k off x c → (k.dbl = true → s b ≠ 0 → c ≠ s b + off + 8) →
    (k.tail = true → s b = 0 → c ≠ h + 8) → s' c = s c

/-- `x` has been taken out from behind slot `b`. -/
structure Unlinked (k : QueueKind) (off h : Nat) (s s' : Store) (b x : Nat) : Prop where
  here : s' b = s (x + off)
  after : k.dbl = true → s (x + off) ≠ 0 → s' (s (x + off) + off + 8) = b
  tail : k.tail = true → s' (h + 8) = if s (x + off) = 0 then b else s (h + 8)
  frame : ∀ c, c ≠ b → (k.dbl = true → s (x + off) ≠ 0 → c ≠ s (x + off) + off + 8) →
    (k.tail = true → s (x + off) = 0 → c ≠ h + 8) → s' c = s c

/-- The sequence of `h'` has been put behind slot `b`, which was the last of
    `h`. -/
structure Joined (k : QueueKind) (off h h' : Nat) (s s' : Store) (b : Nat) : Prop where
  here : s' b = s h'
  back : k.dbl = true → s h' ≠ 0 → s' (s h' + off + 8) = b
  tail : k.tail = true → s' (h + 8) = if s h' = 0 then s (h + 8) else s (h' + 8)
  left : s' h' = 0
  leftTail : k.tail = true → s' (h' + 8) = h'
  frame : ∀ c, c ≠ b → ¬ InHead k h' c → (k.dbl = true → s h' ≠ 0 → c ≠ s h' + off + 8) →
    (k.tail = true → s h' ≠ 0 → c ≠ h + 8) → s' c = s c

/-- `h` has got what `h'` had. -/
structure Took (k : QueueKind) (off h h' : Nat) (s s' : Store) : Prop where
  here : s' h = s h'
  back : k.dbl = true → s h' ≠ 0 → s' (s h' + off + 8) = h
  tail : k.tail = true → s' (h + 8) = if s h' = 0 then h else s (h' + 8)

/-- Each of two heads has got what the other had. -/
structure Swapped (k : QueueKind) (off h h' : Nat) (s s' : Store) : Prop where
  mine : Took k off h h' s s'
  yours : Took k off h' h s s'
  frame : ∀ c, ¬ InHead k h c → ¬ InHead k h' c →
    (k.dbl = true → s h ≠ 0 → c ≠ s h + off + 8) →
    (k.dbl = true → s h' ≠ 0 → c ≠ s h' + off + 8) → s' c = s c

theorem lastSlot_isSlot (off h : Nat) (xs : List Nat) :
    IsSlot off h xs (lastSlot (· + off) h xs) :=
  lastSlot_mem (· + off) xs h

theorem isSlot_mono (off h c : Nat) (xs ys : List Nat) (hsub : ∀ z ∈ xs, z ∈ ys)
    (hc : IsSlot off h xs c) : IsSlot off h ys c := by
  rcases hc with hhead | ⟨z, hz, hslot⟩
  · exact Or.inl hhead
  · exact Or.inr ⟨z, hsub z hz, hslot⟩

theorem isSlot_owned (k : QueueKind) (off h c : Nat) (xs : List Nat) (hc : IsSlot off h xs c) :
    QueueOwns k off h xs c := by
  rcases hc with hhead | ⟨z, hz, hslot⟩
  · exact Or.inl (Or.inl hhead)
  · exact Or.inr ⟨z, hz, Or.inl hslot⟩

/-- A change that keeps the slots that lead on and the pointers back. -/
theorem linked_frame (k : QueueKind) (off : Nat) (s s' : Store) (a : Nat) (xs : List Nat)
    (hslots : ∀ b ∈ sources (· + off) a xs, s' b = s b)
    (hbacks : k.dbl = true → ∀ z ∈ xs, s' (z + off + 8) = s (z + off + 8))
    (h : Linked (QueueLink k off s) (· + off) a xs) :
    Linked (QueueLink k off s') (· + off) a xs := by
  refine linked_congr _ _ _ xs a (fun b hb x hx hlink => ⟨?_, fun hdbl => ?_⟩) h
  · rw [hslots b hb]
    exact hlink.1
  · rw [hbacks hdbl x hx]
    exact hlink.2 hdbl

theorem queueAt_congr (k : QueueKind) (off : Nat) (s s' : Store) (h : Nat) (xs : List Nat)
    (hsame : ∀ c, QueueOwns k off h xs c → s' c = s c) (hat : QueueAt k off s h xs) :
    QueueAt k off s' h xs := by
  have hslot : ∀ c, IsSlot off h xs c → s' c = s c := fun c hc =>
    hsame c (isSlot_owned k off h c xs hc)
  refine ⟨linked_frame k off s s' h xs (fun b hb => ?_) (fun hdbl z hz => ?_) hat.linked, ?_,
    fun htail => ?_⟩
  · exact hslot b (sources_mem (· + off) xs h b hb)
  · exact hsame _ (Or.inr ⟨z, hz, Or.inr ⟨hdbl, rfl⟩⟩)
  · rw [hslot _ (lastSlot_isSlot off h xs)]
    exact hat.ends
  · rw [hsame _ (Or.inl (Or.inr ⟨htail, rfl⟩))]
    exact hat.tail htail

section Cells

variable {k : QueueKind} (L : Layout k) (h : Nat) (xs : List Nat) (hh : L.head h)
  (hxs : ∀ z ∈ xs, L.elem z)

include hh hxs

/-- A slot is not an address of some other element. -/
theorem slot_not_inEntry (c x : Nat) (hx : L.elem x) (hnot : x ∉ xs)
    (hc : IsSlot L.off h xs c) : ¬ InEntry k L.off x c := by
  intro hin
  rcases hc with hhead | ⟨z, hz, hslot⟩
  · exact head_entry_ne L h x c hh hx (Or.inl hhead) hin
  · exact hnot (entry_unique L z x c (hxs z hz) hx (Or.inl hslot) hin ▸ hz)

/-- A slot is not a pointer back. -/
theorem slot_ne_back (c y : Nat) (hy : L.elem y) (hdbl : k.dbl = true)
    (hc : IsSlot L.off h xs c) : c ≠ y + L.off + 8 := by
  intro heq
  have hin : InEntry k L.off y c := Or.inr ⟨hdbl, heq⟩
  rcases hc with hhead | ⟨z, hz, hslot⟩
  · exact head_entry_ne L h y c hh hy (Or.inl hhead) hin
  · have hzy := entry_unique L z y c (hxs z hz) hy (Or.inl hslot) hin
    omega

/-- A slot is not the second pointer of the head. -/
theorem slot_ne_tail (c : Nat) (htail : k.tail = true) (hc : IsSlot L.off h xs c) :
    c ≠ h + 8 := by
  intro heq
  rcases hc with hhead | ⟨z, hz, hslot⟩
  · omega
  · exact head_entry_ne L h z c hh (hxs z hz) (Or.inr ⟨htail, heq⟩) (Or.inl hslot)

omit hxs in
theorem back_ne_tail (y : Nat) (hy : L.elem y) (hdbl : k.dbl = true) (htail : k.tail = true) :
    y + L.off + 8 ≠ h + 8 := by
  intro heq
  exact head_entry_ne L h y _ hh hy (Or.inr ⟨htail, heq⟩) (Or.inr ⟨hdbl, rfl⟩)

omit hxs in
/-- The slots of elements are not the head. -/
theorem slot_ne_head (y : Nat) (hy : L.elem y) : y + L.off ≠ h := fun heq =>
  head_entry_ne L h y _ hh hy (Or.inl heq) (Or.inl rfl)

/-- Before the last slot of a part of the sequence no link starts at it. -/
theorem sources_ne_lastSlot (hnodup : xs.Nodup) (c : Nat) (hc : c ∈ sources (· + L.off) h xs) :
    c ≠ lastSlot (· + L.off) h xs := by
  intro heq
  refine lastSlot_not_mem_sources (· + L.off) (fun x y hxy => Nat.add_right_cancel hxy) xs h
    hnodup (fun z hz => slot_ne_head L h hh z (hxs z hz)) ?_
  rwa [← heq]

end Cells

section Changes

variable {k : QueueKind} (L : Layout k) (s s' : Store) (h : Nat)

/-- The parts of a sequence before and after a slot. -/
theorem queueAt_cut (l r : List Nat) (hat : QueueAt k L.off s h (l ++ r)) :
    Linked (QueueLink k L.off s) (· + L.off) h l ∧
      Linked (QueueLink k L.off s) (· + L.off) (lastSlot (· + L.off) h l) r ∧
      s (lastSlot (· + L.off) (lastSlot (· + L.off) h l) r) = 0 ∧
      s (lastSlot (· + L.off) h l) = headOr r := by
  rcases (linked_append _ _ l r h).mp hat.linked with ⟨hlinkl, hlinkr⟩
  have hends := hat.ends
  rw [lastSlot_append] at hends
  refine ⟨hlinkl, hlinkr, hends, ?_⟩
  cases r with
  | nil => exact hends
  | cons y r => exact hlinkr.1.1

/-- A part of a sequence that has got another slot before it. -/
theorem linked_move (a b : Nat) (r : List Nat) (hr : ∀ z ∈ r, L.elem z)
    (hlead : s' a = headOr r)
    (hback : k.dbl = true → headOr r ≠ 0 → s' (headOr r + L.off + 8) = a)
    (hslots : ∀ z ∈ r, s' (z + L.off) = s (z + L.off))
    (hbacks : k.dbl = true → ∀ z ∈ r.tail, s' (z + L.off + 8) = s (z + L.off + 8))
    (hlink : Linked (QueueLink k L.off s) (· + L.off) b r)
    (hends : s (lastSlot (· + L.off) b r) = 0) :
    Linked (QueueLink k L.off s') (· + L.off) a r ∧ s' (lastSlot (· + L.off) a r) = 0 := by
  -- An empty part ends where the new slot says it ends.
  cases r with
  | nil => exact ⟨trivial, hlead⟩
  | cons y r =>
      have hy := L.elem_ne y (hr y List.mem_cons_self)
      -- The first element is linked from the new slot, and its back link points there.
      refine ⟨⟨⟨hlead, fun hdbl => hback hdbl hy⟩, ?_⟩, ?_⟩
      · refine linked_frame k L.off s s' _ r (fun c hc => ?_) hbacks hlink.2
        -- The rest is linked as it was: its slots and back links are none of the cells stored to.
        rcases sources_mem (· + L.off) r _ c hc with hfirst | ⟨z, hz, hslot⟩
        · rw [hfirst]
          exact hslots y List.mem_cons_self
        · rw [hslot]
          exact hslots z (List.mem_cons_of_mem y hz)
      · rw [lastSlot] at hends ⊢
        rw [← hends]
        rcases lastSlot_mem (· + L.off) r (y + L.off) with hfirst | ⟨z, hz, hslot⟩
        · rw [hfirst]
          exact hslots y List.mem_cons_self
        · rw [hslot]
          exact hslots z (List.mem_cons_of_mem y hz)

theorem headOr_mem (r : List Nat) (hne : headOr r ≠ 0) : headOr r ∈ r := by
  cases r with
  | nil => exact absurd rfl hne
  | cons y r => exact List.mem_cons_self

/-- The first element is not a later one. -/
theorem headOr_ne_tail (r : List Nat) (z : Nat) (hr : r.Nodup) (hz : z ∈ r.tail) :
    z ≠ headOr r := by
  cases r with
  | nil => exact absurd hz List.not_mem_nil
  | cons y r =>
      intro hzy
      have hy : z = y := hzy
      exact (List.nodup_cons.mp hr).1 (hy ▸ hz)

/-- The last slot of a part depends on where it starts only if it is empty. -/
theorem lastSlot_start (a b : Nat) (r : List Nat) (hr : ∀ z ∈ r, L.elem z) :
    lastSlot (· + L.off) a r = if headOr r = 0 then a else lastSlot (· + L.off) b r := by
  cases r with
  | nil => rfl
  | cons y r => exact (if_neg (L.elem_ne y (hr y List.mem_cons_self))).symm

/-- A change at the last slot of the first part and at one pointer back leaves
    that part and the slots of the second. -/
theorem queueAt_around (p : Nat) (l r : List Nat) (hh : L.head h)
    (hlr : ∀ z ∈ l ++ r, L.elem z) (hnodup : (l ++ r).Nodup)
    (hlink : Linked (QueueLink k L.off s) (· + L.off) h l) (hp : p ∉ l)
    (hslot : ∀ c, IsSlot L.off h (l ++ r) c → c ≠ lastSlot (· + L.off) h l → s' c = s c)
    (hbacks : k.dbl = true → ∀ z ∈ l ++ r, z ≠ p → s' (z + L.off + 8) = s (z + L.off + 8)) :
    Linked (QueueLink k L.off s') (· + L.off) h l ∧ ∀ z ∈ r, s' (z + L.off) = s (z + L.off) := by
  have hel : ∀ z ∈ l, L.elem z := fun z hz => hlr z (List.mem_append_left r hz)
  rcases List.nodup_append'.mp hnodup with ⟨hnl, _, hdisj⟩
  -- Two statements: the elements in front keep their links, and so do those behind p.
  constructor
  · refine linked_frame k L.off s s' h l (fun c hc => ?_) (fun hdbl z hz => ?_) hlink
    -- In front, the slot that was stored to is the last one, which is not among these.
    · exact hslot c (isSlot_mono _ h c l _ (fun z hz => List.mem_append_left r hz)
        (sources_mem (· + L.off) l h c hc)) (sources_ne_lastSlot L h l hh hel hnl c hc)
    · exact hbacks hdbl z (List.mem_append_left r hz) (fun hzp => hp (hzp ▸ hz))
  · intro z hz
    -- Behind, the last slot is either the head's or one in front, and neither is z's.
    refine hslot _ (Or.inr ⟨z, List.mem_append_right l hz, rfl⟩) (fun heq => ?_)
    rcases lastSlot_isSlot L.off h l with hhead | ⟨w, hw, hwslot⟩
    · exact slot_ne_head L h hh z (hlr z (List.mem_append_right l hz)) (heq.trans hhead)
    -- z stands behind and the owner of the slot in front, so they are two elements.
    · have hzw : z = w := Nat.add_right_cancel (heq.trans hwslot)
      exact hdisj (hzw ▸ hw) hz

/-- The store after an element has been put in. -/
theorem queueAt_splice (x : Nat) (l r : List Nat) (hh : L.head h) (hlr : ∀ z ∈ l ++ r, L.elem z)
    (hx : L.elem x) (hnew : x ∉ l ++ r) (hnodup : (l ++ r).Nodup)
    (hat : QueueAt k L.off s h (l ++ r))
    (hsp : Spliced k L.off h s s' (lastSlot (· + L.off) h l) x) :
    QueueAt k L.off s' h (l ++ x :: r) := by
  have hel : ∀ z ∈ l, L.elem z := fun z hz => hlr z (List.mem_append_left r hz)
  have her : ∀ z ∈ r, L.elem z := fun z hz => hlr z (List.mem_append_right l hz)
  rcases List.nodup_append'.mp hnodup with ⟨_, hnr, hdisj⟩
  rcases queueAt_cut L s h l r hat with ⟨hlinkl, hlinkr, hends, hlead⟩
  have htail := hat.tail
  rw [lastSlot_append] at htail
  have hbslot := lastSlot_isSlot L.off h l
  have haround := queueAt_around L s s' h (headOr r) l r hh hlr hnodup hlinkl
  generalize hb : lastSlot (· + L.off) h l = b at hsp hlinkr hends hlead htail hbslot haround
  rcases hsp with ⟨hhere, hnext, hback, hafter, hlast, hframe⟩
  rw [hlead] at hnext hafter hlast hframe
  -- Other slots and the pointers back of other elements are as before.
  have hslot : ∀ c, IsSlot L.off h (l ++ r) c → c ≠ b → s' c = s c := fun c hc hcb =>
    hframe c hcb (slot_not_inEntry L h _ hh hlr c x hx hnew hc)
      (fun hdbl hne => slot_ne_back L h _ hh hlr c _ (her _ (headOr_mem r hne)) hdbl hc)
      (fun htail _ => slot_ne_tail L h _ hh hlr c htail hc)
  have hbacks : k.dbl = true → ∀ z ∈ l ++ r, z ≠ headOr r →
      s' (z + L.off + 8) = s (z + L.off + 8) := by
    intro hdbl z hz hzr
    refine hframe _ (fun heq => ?_) (fun hin => ?_) (fun _ _ => by omega)
      (fun htail _ => back_ne_tail L h hh z (hlr z hz) hdbl htail)
    · exact slot_ne_back L h l hh hel b z (hlr z hz) hdbl hbslot heq.symm
    · exact hnew (entry_unique L z x _ (hlr z hz) hx (Or.inr ⟨hdbl, rfl⟩) hin ▸ hz)
  have hfirst : headOr r ∉ l := fun hmem =>
    hdisj hmem (headOr_mem r (L.elem_ne _ (hel _ hmem)))
  rcases haround hfirst hslot hbacks with ⟨hlinkl', hslotr⟩
  rcases linked_move L s s' (x + L.off) b r her hnext hafter hslotr
    (fun hdbl z hz => hbacks hdbl z (List.mem_append_right l (List.mem_of_mem_tail hz))
      (headOr_ne_tail r z hnr hz)) hlinkr hends with ⟨hrest, hends'⟩
  refine ⟨?_, ?_, fun hk => ?_⟩
  · rw [linked_append, hb]
    exact ⟨hlinkl', ⟨hhere, hback⟩, hrest⟩
  · rw [lastSlot_append, hb]
    exact hends'
  · rw [lastSlot_append, hb, lastSlot, hlast hk, htail hk, lastSlot_start L (x + L.off) b r her]

/-- The store after an element has been taken out. -/
theorem queueAt_unlink (x : Nat) (l r : List Nat) (hh : L.head h)
    (hlr : ∀ z ∈ l ++ x :: r, L.elem z) (hnodup : (l ++ x :: r).Nodup)
    (hat : QueueAt k L.off s h (l ++ x :: r))
    (hun : Unlinked k L.off h s s' (lastSlot (· + L.off) h l) x) :
    QueueAt k L.off s' h (l ++ r) := by
  have hel : ∀ z ∈ l, L.elem z := fun z hz => hlr z (List.mem_append_left _ hz)
  have hexr : ∀ z ∈ x :: r, L.elem z := fun z hz => hlr z (List.mem_append_right l hz)
  have her : ∀ z ∈ r, L.elem z := fun z hz => hexr z (List.mem_cons_of_mem x hz)
  rcases List.nodup_append'.mp hnodup with ⟨_, hnxr, hdisj⟩
  have hnr := (List.nodup_cons.mp hnxr).2
  rcases queueAt_cut L s h l (x :: r) hat with ⟨hlinkl, ⟨_, hlinkr⟩, hends, _⟩
  have htail := hat.tail
  rw [lastSlot_append] at htail
  have hbslot := lastSlot_isSlot L.off h l
  have haround := queueAt_around L s s' h (headOr r) l (x :: r) hh hlr hnodup hlinkl
  generalize hb : lastSlot (· + L.off) h l = b at hun hends htail hbslot haround
  rcases hun with ⟨hhere, hafter, hlast, hframe⟩
  -- The link that is copied leads to what follows `x`.
  have hnext : s (x + L.off) = headOr r := by
    cases r with
    | nil => exact hends
    | cons y r => exact hlinkr.1.1
  rw [hnext] at hhere hafter hlast hframe
  -- All other links stay, and all pointers back but that of the next element.
  have hslot : ∀ c, IsSlot L.off h (l ++ x :: r) c → c ≠ b → s' c = s c := fun c hc hcb =>
    hframe c hcb
      (fun hdbl hne => slot_ne_back L h _ hh hlr c _ (her _ (headOr_mem r hne)) hdbl hc)
      (fun htail _ => slot_ne_tail L h _ hh hlr c htail hc)
  have hbacks : k.dbl = true → ∀ z ∈ l ++ x :: r, z ≠ headOr r →
      s' (z + L.off + 8) = s (z + L.off + 8) := by
    intro hdbl z hz hzr
    refine hframe _ (fun heq => ?_) (fun _ _ => by omega)
      (fun htail _ => back_ne_tail L h hh z (hlr z hz) hdbl htail)
    exact slot_ne_back L h l hh hel b z (hlr z hz) hdbl hbslot heq.symm
  have hfirst : headOr r ∉ l := fun hmem =>
    hdisj hmem (List.mem_cons_of_mem x (headOr_mem r (L.elem_ne _ (hel _ hmem))))
  rcases haround hfirst hslot hbacks with ⟨hlinkl', hslotr⟩
  -- What followed `x` hangs on the slot that led to `x`.
  rcases linked_move L s s' b (x + L.off) r her hhere hafter
    (fun z hz => hslotr z (List.mem_cons_of_mem x hz))
    (fun hdbl z hz => hbacks hdbl z
      (List.mem_append_right l (List.mem_cons_of_mem x (List.mem_of_mem_tail hz)))
      (headOr_ne_tail r z hnr hz)) hlinkr hends with ⟨hrest, hends'⟩
  refine ⟨?_, ?_, fun hk => ?_⟩
  · rw [linked_append, hb]
    exact ⟨hlinkl', hrest⟩
  · rw [lastSlot_append, hb]
    exact hends'
  · rw [lastSlot_append, hb, hlast hk, htail hk, lastSlot_start L b (x + L.off) r her, lastSlot]

/-- The first pointer of a head leads to the first element. -/
theorem queueAt_first (xs : List Nat) (hat : QueueAt k L.off s h xs) : s h = headOr xs :=
  (queueAt_cut L s h [] xs hat).2.2.2

/-- The store after a sequence has been put behind another. -/
theorem queueAt_join (h' : Nat) (xs ys : List Nat) (hh : L.head h) (hh' : L.head h')
    (hne : h ≠ h') (hxy : ∀ z ∈ xs ++ ys, L.elem z) (hnodup : (xs ++ ys).Nodup)
    (hat : QueueAt k L.off s h xs) (hat' : QueueAt k L.off s h' ys)
    (hj : Joined k L.off h h' s s' (lastSlot (· + L.off) h xs)) :
    QueueAt k L.off s' h (xs ++ ys) ∧ QueueAt k L.off s' h' [] := by
  have hex : ∀ z ∈ xs, L.elem z := fun z hz => hxy z (List.mem_append_left ys hz)
  have hey : ∀ z ∈ ys, L.elem z := fun z hz => hxy z (List.mem_append_right xs hz)
  rcases List.nodup_append'.mp hnodup with ⟨_, hny, hdisj⟩
  have htail := hat.tail
  have hbslot := lastSlot_isSlot L.off h xs
  have haround := queueAt_around L s s' h (headOr ys) xs ys hh hxy hnodup hat.linked
  generalize hb : lastSlot (· + L.off) h xs = b at hj htail hbslot haround
  rcases hj with ⟨hhere, hback, hlast, hleft, hleftTail, hframe⟩
  rw [queueAt_first L s h' ys hat'] at hhere hback hlast hframe
  -- The other head is stored to, but it is no part of the elements.
  have hslot : ∀ c, IsSlot L.off h (xs ++ ys) c → c ≠ b → s' c = s c := by
    intro c hc hcb
    refine hframe c hcb (fun hin => ?_)
      (fun hdbl hne => slot_ne_back L h _ hh hxy c _ (hey _ (headOr_mem ys hne)) hdbl hc)
      (fun htail _ => slot_ne_tail L h _ hh hxy c htail hc)
    rcases hc with hhead | ⟨z, hz, hslot⟩
    · exact hne (head_unique L h h' c hh hh' (Or.inl hhead) hin)
    · exact head_entry_ne L h' z c hh' (hxy z hz) hin (Or.inl hslot)
  have hbacks : k.dbl = true → ∀ z ∈ xs ++ ys, z ≠ headOr ys →
      s' (z + L.off + 8) = s (z + L.off + 8) := by
    intro hdbl z hz hzy
    refine hframe _ (fun heq => ?_) (fun hin => ?_) (fun _ _ => by omega)
      (fun htail _ => back_ne_tail L h hh z (hxy z hz) hdbl htail)
    · exact slot_ne_back L h xs hh hex b z (hxy z hz) hdbl hbslot heq.symm
    · exact head_entry_ne L h' z _ hh' (hxy z hz) hin (Or.inr ⟨hdbl, rfl⟩)
  have hfirst : headOr ys ∉ xs := fun hmem =>
    hdisj hmem (headOr_mem ys (L.elem_ne _ (hex _ hmem)))
  rcases haround hfirst hslot hbacks with ⟨hlinkx, hsloty⟩
  -- The second sequence hangs on the last slot of the first.
  rcases linked_move L s s' b h' ys hey hhere hback hsloty
    (fun hdbl z hz => hbacks hdbl z (List.mem_append_right xs (List.mem_of_mem_tail hz))
      (headOr_ne_tail ys z hny hz)) hat'.linked hat'.ends with ⟨hrest, hends'⟩
  refine ⟨⟨?_, ?_, fun hk => ?_⟩, ⟨trivial, hleft, hleftTail⟩⟩
  · rw [linked_append, hb]
    exact ⟨hlinkx, hrest⟩
  · rw [lastSlot_append, hb]
    exact hends'
  · rw [lastSlot_append, hb, hlast hk, htail hk, hat'.tail hk, lastSlot_start L b h' ys hey]

/-- The store for one of two heads after they have exchanged their
    sequences. -/
theorem queueAt_took (h' : Nat) (xs ys : List Nat) (hh : L.head h) (hh' : L.head h')
    (hex : ∀ z ∈ xs, L.elem z) (hey : ∀ z ∈ ys, L.elem z) (hdisj : ∀ z ∈ xs, z ∉ ys)
    (hny : ys.Nodup) (hat : QueueAt k L.off s h xs) (hat' : QueueAt k L.off s h' ys)
    (htook : Took k L.off h h' s s')
    (hframe : ∀ c, ¬ InHead k h c → ¬ InHead k h' c →
      (k.dbl = true → s h ≠ 0 → c ≠ s h + L.off + 8) →
      (k.dbl = true → s h' ≠ 0 → c ≠ s h' + L.off + 8) → s' c = s c) :
    QueueAt k L.off s' h ys := by
  rcases htook with ⟨hhere, hback, hlast⟩
  rw [queueAt_first L s h' ys hat'] at hhere hback hlast hframe
  rw [queueAt_first L s h xs hat] at hframe
  -- A cell of ys that is not its first back link has kept its word.
  have hcell : ∀ z ∈ ys, ∀ c, InEntry k L.off z c →
      (k.dbl = true → c = z + L.off + 8 → z ≠ headOr ys) → s' c = s c := by
    intro z hz c hc hback
    refine hframe c (fun hin => head_entry_ne L h z c hh (hey z hz) hin hc)
      (fun hin => head_entry_ne L h' z c hh' (hey z hz) hin hc) (fun hdbl hne heq => ?_)
      (fun hdbl hne heq => ?_)
    -- The first elements' back links are excluded, each by the element it belongs to.
    · have hmem := headOr_mem xs hne
      have hzx := entry_unique L z (headOr xs) c (hey z hz) (hex _ hmem) hc (Or.inr ⟨hdbl, heq⟩)
      exact hdisj _ hmem (hzx ▸ hz)
    · have hmem := headOr_mem ys hne
      have hzy := entry_unique L z (headOr ys) c (hey z hz) (hey _ hmem) hc (Or.inr ⟨hdbl, heq⟩)
      exact hback hdbl (hzy ▸ heq) hzy
  -- The queue moves from h' to h: its first link and its last slot are what changes.
  rcases linked_move L s s' h h' ys hey hhere hback
    (fun z hz => hcell z hz _ (Or.inl rfl) (fun _ heq => by omega))
    (fun hdbl z hz => hcell z (List.mem_of_mem_tail hz) _ (Or.inr ⟨hdbl, rfl⟩)
      (fun _ _ => headOr_ne_tail ys z hny hz)) hat'.linked hat'.ends with ⟨hlink, hends⟩
  refine ⟨hlink, hends, fun hk => ?_⟩
  rw [hlast hk, hat'.tail hk, lastSlot_start L h h' ys hey]

/-- The store after two heads have exchanged their sequences. -/
theorem queueAt_swap (h' : Nat) (xs ys : List Nat) (hh : L.head h) (hh' : L.head h')
    (hex : ∀ z ∈ xs, L.elem z) (hey : ∀ z ∈ ys, L.elem z) (hdisj : ∀ z ∈ xs, z ∉ ys)
    (hnx : xs.Nodup) (hny : ys.Nodup) (hat : QueueAt k L.off s h xs)
    (hat' : QueueAt k L.off s h' ys) (hsw : Swapped k L.off h h' s s') :
    QueueAt k L.off s' h ys ∧ QueueAt k L.off s' h' xs := by
  refine ⟨queueAt_took L s s' h h' xs ys hh hh' hex hey hdisj hny hat hat' hsw.mine hsw.frame, ?_⟩
  exact queueAt_took L s s' h' h ys xs hh' hh hey hex (fun z hz hzx => hdisj z hzx hz) hnx hat'
    hat hsw.yours (fun c hin' hin hback' hback => hsw.frame c hin hin' hback hback')

end Changes

end Aircmn
