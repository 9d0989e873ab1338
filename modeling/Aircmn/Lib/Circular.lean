import Aircmn.Lib.Bytes
import Mathlib.Data.Nat.ModEq

/-!
# Circular Stores

A stream kept in a circular store of `N` slots. The stream itself is a list
that only ever grows, and a number `R` says how many of its entries have been
let go; entry `i` lives in slot `i % N` for as long as `R ≤ i`. A producer
grows the list, a consumer grows `R`, and neither counter ever wraps.

A program keeps two positions instead of the two counters, and its positions
do wrap. `distance_of_le` and `distance_of_lt` are the bridge: the two-case
subtraction every circular buffer performs on its positions is the difference
of the counters, provided fewer than `N` entries are live. Positions are
allowed to rest at `N`, one past the last slot, where they mean the same as
zero. The one pair that has to be excluded is a read position of zero with a
write position of `N`, which subtracts to a full turn although nothing is
live.

`Carries` is the invariant, stated over the counters so that a proof about it
never mentions wrapping.

A store of bytes is filled and drained in blocks, and a block that reaches the
end of the store is two copies: `a` bytes from the position to the end, and
`b` from the beginning. `wrapIn` and `wrapOut` are the two directions, and
what they do is said slot by slot, so that the split is forgotten.

## Main definitions

* `Carries`: The live entries of a stream sit in their slots.
* `window`: A run of slots, read with wrapping.
* `wrapIn`, `wrapOut`: A block copied into and out of a store of bytes.

## Theorems

* `mod_of_lt_two`: A remainder, for a number below twice the modulus.
* `mod_inj`: Counters within one turn of each other have distinct slots.
* `distance_of_le`, `distance_of_lt`: Positions subtract to counters.
* `window_mod`: A window depends on its position up to whole turns.
* `window_add`, `window_take`, `window_drop`: The parts of a window.
* `slice_eq_window`: A window that does not wrap.
* `carries_append`: The producer adds entries to free slots.
* `carries_release`: The consumer lets entries go.
* `carries_window`: A window from the first live slot is the live entries.
* `wrapIn_slot`, `wrapIn_other`: What a block copied in changes.
* `slice_wrapOut`: A block copied out is a window.
* `carries_wrapIn`: A block copied in extends the stream.
* `carries_wrapOut`: A block copied out is the oldest entries.
-/

namespace Circular

variable {α : Type}

theorem mod_of_lt_two (x N : Nat) (h : x < N + N) : x % N = if x < N then x else x - N := by
  by_cases hx : x < N
  · rw [if_pos hx, Nat.mod_eq_of_lt hx]
  · rw [if_neg hx, Nat.mod_eq_sub_mod (by omega), Nat.mod_eq_of_lt (by omega)]

/-- Two counters less than a turn apart name different slots. -/
theorem mod_inj (N R i j : Nat) (hi : R ≤ i) (hi' : i < R + N) (hj : R ≤ j) (hj' : j < R + N)
    (h : i % N = j % N) : i = j := by
  -- The difference is a multiple of a turn, and less than one.
  rcases Nat.le_total i j with hij | hij
  · have hd := (Nat.modEq_iff_dvd' hij).mp h
    have hz := Nat.eq_zero_of_dvd_of_lt hd (by omega)
    omega
  · have hd := (Nat.modEq_iff_dvd' hij).mp h.symm
    have hz := Nat.eq_zero_of_dvd_of_lt hd (by omega)
    omega

/-- The remainder of the read position advanced by the number of live entries
    is that of the write position. -/
theorem mod_advance (N r w R W : Nat) (hr : r % N = R % N) (hw : w % N = W % N) (hle : R ≤ W) :
    (r + (W - R)) % N = w % N := by
  rw [Nat.add_mod, hr, ← Nat.add_mod, Nat.add_sub_cancel' hle, hw]

theorem distance_of_le (N r w R W : Nat) (hr : r % N = R % N) (hw : w % N = W % N)
    (hwN : w ≤ N) (hle : R ≤ W) (hlt : W < R + N) (hrw : r ≤ w)
    (hturn : ¬ (r = 0 ∧ w = N)) : w - r = W - R := by
  have hadv := mod_advance N r w R W hr hw hle
  -- Neither side is two turns out, so each remainder is one subtraction.
  rw [mod_of_lt_two _ N (by omega), mod_of_lt_two w N (by omega)] at hadv
  split at hadv <;> split at hadv <;> omega

theorem distance_of_lt (N r w R W : Nat) (hr : r % N = R % N) (hw : w % N = W % N)
    (hrN : r ≤ N) (hle : R ≤ W) (hlt : W < R + N) (hrw : w < r) : N + w - r = W - R := by
  have hadv := mod_advance N r w R W hr hw hle
  rw [mod_of_lt_two _ N (by omega), mod_of_lt_two w N (by omega)] at hadv
  split at hadv <;> split at hadv <;> omega

/-- The `n` slots from position `r` on, wrapping after the last. -/
def window (N : Nat) (slot : Nat → α) (r n : Nat) : List α :=
  (List.range n).map (fun i => slot ((r + i) % N))

@[simp]
theorem window_length (N : Nat) (slot : Nat → α) (r n : Nat) :
    (window N slot r n).length = n := by
  rw [window, List.length_map, List.length_range]

/-- A window depends on its position only up to whole turns. -/
theorem window_mod (N : Nat) (slot : Nat → α) (r r' n : Nat) (h : r % N = r' % N) :
    window N slot r n = window N slot r' n := by
  refine List.map_congr_left (fun i _ => ?_)
  rw [Nat.add_mod, h, ← Nat.add_mod]

/-- A window is the windows of its two parts. -/
theorem window_add (N : Nat) (slot : Nat → α) (r m n : Nat) :
    window N slot r (m + n) = window N slot r m ++ window N slot (r + m) n := by
  rw [window, List.range_add, List.map_append, List.map_map]
  refine congrArg _ (List.map_congr_left (fun i _ => ?_))
  simp only [Function.comp_apply, Nat.add_assoc]

theorem window_take (N : Nat) (slot : Nat → α) (r m n : Nat) :
    (window N slot r (m + n)).take m = window N slot r m := by
  simp [window_add]

theorem window_drop (N : Nat) (slot : Nat → α) (r m n : Nat) :
    (window N slot r (m + n)).drop m = window N slot (r + m) n := by
  simp [window_add]

/-- A run of bytes that does not reach the end. -/
theorem slice_eq_window (N : Nat) (data : Bytes.Mem) (r n : Nat) (h : r + n ≤ N) :
    Bytes.slice data r n = window N data r n := by
  refine List.map_congr_left (fun i hi => ?_)
  have hin := List.mem_range.mp hi
  rw [Nat.mod_eq_of_lt (by omega)]

/-- The live entries of the stream `log`, those from index `R` on, sit in
    their slots, and there are fewer of them than slots. -/
structure Carries (N : Nat) (slot : Nat → α) (log : List α) (R : Nat) : Prop where
  le : R ≤ log.length
  room : log.length < R + N
  sits : ∀ i (h : i < log.length), R ≤ i → slot (i % N) = log[i]

theorem carries_nil (N : Nat) (slot : Nat → α) (h : 0 < N) : Carries N slot [] 0 :=
  ⟨Nat.le_refl _, by rw [List.length_nil]; omega, fun i hi => by
    rw [List.length_nil] at hi
    omega⟩

/-- Changing slots that hold no live entry changes nothing. -/
theorem carries_congr (N : Nat) (slot slot' : Nat → α) (log : List α) (R : Nat)
    (hc : Carries N slot log R)
    (hsame : ∀ i, R ≤ i → i < log.length → slot' (i % N) = slot (i % N)) :
    Carries N slot' log R :=
  ⟨hc.le, hc.room, fun i hi hR => (hsame i hR hi).trans (hc.sits i hi hR)⟩

/-- The producer adds entries: they go into the slots after the last live one,
    and every live entry keeps its slot. -/
theorem carries_append (N : Nat) (slot slot' : Nat → α) (log xs : List α) (R : Nat)
    (hc : Carries N slot log R) (hroom : log.length + xs.length < R + N)
    (hnew : ∀ k (h : k < xs.length), slot' ((log.length + k) % N) = xs[k])
    (hold : ∀ i, R ≤ i → i < log.length → slot' (i % N) = slot (i % N)) :
    Carries N slot' (log ++ xs) R := by
  have hle := hc.le
  refine ⟨by rw [List.length_append]; omega, by rw [List.length_append]; omega, ?_⟩
  intro i hi hR
  rw [List.length_append] at hi
  -- An entry is an old one, which kept its slot, or one of the new ones.
  by_cases hlog : i < log.length
  · rw [List.getElem_append_left hlog, hold i hR hlog, hc.sits i hlog hR]
  · rw [List.getElem_append_right (by omega)]
    have hput := hnew (i - log.length) (by omega)
    rwa [Nat.add_sub_cancel' (by omega)] at hput

/-- The consumer lets entries go, the oldest first. -/
theorem carries_release (N : Nat) (slot : Nat → α) (log : List α) (R R' : Nat)
    (hc : Carries N slot log R) (hle : R ≤ R') (hlen : R' ≤ log.length) :
    Carries N slot log R' := by
  have hroom := hc.room
  exact ⟨hlen, by omega, fun i hi hR => hc.sits i hi (by omega)⟩

/-- Reading slots from the first live one on gives the oldest entries. -/
theorem carries_window (N : Nat) (slot : Nat → α) (log : List α) (r R n : Nat)
    (hc : Carries N slot log R) (hr : r % N = R % N) (hn : R + n ≤ log.length) :
    window N slot r n = (log.drop R).take n := by
  rw [window_mod N slot r R n hr]
  refine List.ext_getElem ?_ (fun i hi hi' => ?_)
  · rw [window_length, List.length_take, List.length_drop]
    omega
  · rw [window_length] at hi
    rw [List.getElem_take, List.getElem_drop]
    simp only [window, List.getElem_map, List.getElem_range]
    exact hc.sits (R + i) (by omega) (by omega)

/-- All the live entries are a window as long as there are of them. -/
theorem carries_window_all (N : Nat) (slot : Nat → α) (log : List α) (r R n : Nat)
    (hc : Carries N slot log R) (hr : r % N = R % N) (hn : n = log.length - R) :
    window N slot r n = log.drop R := by
  have hle := hc.le
  rw [carries_window N slot log r R n hc hr (by omega), List.take_of_length_le]
  rw [List.length_drop]
  omega

/-- Copy `a` bytes to position `p`, then `b` more to the beginning. -/
def wrapIn (data : Bytes.Mem) (p : Nat) (src : Bytes.Mem) (a b : Nat) : Bytes.Mem :=
  Bytes.memcpy (Bytes.memcpy data p src 0 a) 0 src a b

/-- Copy out `a` bytes from position `p`, then `b` more from the beginning. -/
def wrapOut (dst data : Bytes.Mem) (p a b : Nat) : Bytes.Mem :=
  Bytes.memcpy (Bytes.memcpy dst 0 data p a) a data 0 b

theorem wrapIn_slot (N : Nat) (data : Bytes.Mem) (p : Nat) (src : Bytes.Mem) (a b k : Nat)
    (hfit : p + a ≤ N) (hturn : b = 0 ∨ p + a = N) (hfew : a + b ≤ N) (hk : k < a + b) :
    wrapIn data p src a b ((p + k) % N) = src k := by
  unfold wrapIn Bytes.memcpy
  by_cases hka : k < a
  · -- Before the turn: past everything the second copy writes.
    rw [Nat.mod_eq_of_lt (by omega), Bytes.blit_outside _ _ _ _ _ (by omega),
      Bytes.blit_inside _ _ _ _ _ hka, Nat.zero_add]
  · -- After the turn the second copy has the last word.
    have hslot : (p + k) % N = 0 + (k - a) := by
      rw [mod_of_lt_two _ N (by omega), if_neg (by omega)]
      omega
    rw [hslot, Bytes.blit_inside _ _ _ _ _ (by omega), Nat.add_sub_cancel' (by omega)]

theorem wrapIn_other (N : Nat) (data : Bytes.Mem) (p : Nat) (src : Bytes.Mem) (a b i : Nat)
    (hfit : p + a ≤ N) (hturn : b = 0 ∨ p + a = N) (hfew : a + b ≤ N)
    (hi : ∀ k, k < a + b → (p + k) % N ≠ i) : wrapIn data p src a b i = data i := by
  unfold wrapIn Bytes.memcpy
  -- A slot that either copy fills is one of the `a + b` from `p` on.
  have hsecond : i < 0 ∨ 0 + b ≤ i := by
    by_contra hc
    refine hi (a + i) (by omega) ?_
    rw [mod_of_lt_two _ N (by omega), if_neg (by omega)]
    omega
  have hfirst : i < p ∨ p + a ≤ i := by
    by_contra hc
    refine hi (i - p) (by omega) ?_
    rw [Nat.mod_eq_of_lt (by omega)]
    omega
  rw [Bytes.blit_outside _ _ _ _ _ hsecond, Bytes.blit_outside _ _ _ _ _ hfirst]

theorem slice_wrapOut (N : Nat) (dst data : Bytes.Mem) (p a b : Nat) (hfit : p + a ≤ N)
    (hturn : b = 0 ∨ p + a = N) (hfew : a + b ≤ N) :
    Bytes.slice (wrapOut dst data p a b) 0 (a + b) = window N data p (a + b) := by
  -- Byte k is asked for on both sides: in the first copy or in the second.
  refine List.map_congr_left (fun k hk => ?_)
  have hkab := List.mem_range.mp hk
  unfold wrapOut Bytes.memcpy
  rw [Nat.zero_add]
  by_cases hka : k < a
  · -- The second copy goes behind the first at the destination.
    have hfirst := Bytes.blit_inside dst 0 a k (fun i => data (p + i)) hka
    rw [Nat.zero_add] at hfirst
    rw [Bytes.blit_outside _ _ _ _ _ (by omega), hfirst, Nat.mod_eq_of_lt (by omega)]
  -- The second copy starts at the beginning of the data, a bytes into the destination.
  · have hsecond := Bytes.blit_inside (Bytes.blit dst 0 a (fun i => data (p + i))) a b (k - a)
      (fun i => data (0 + i)) (by omega)
    rw [Nat.add_sub_cancel' (by omega)] at hsecond
    rw [hsecond, mod_of_lt_two _ N (by omega), if_neg (by omega)]
    congr 1
    omega

/-- A block copied in after the last live entry extends the stream, as long as
    there is room for it. -/
theorem carries_wrapIn (N : Nat) (data : Bytes.Mem) (p : Nat) (src : Bytes.Mem) (a b : Nat)
    (log : List UInt8) (R : Nat) (hc : Carries N data log R) (hp : p % N = log.length % N)
    (hfit : p + a ≤ N) (hturn : b = 0 ∨ p + a = N)
    (hroom : log.length + (a + b) < R + N) :
    Carries N (wrapIn data p src a b) (log ++ Bytes.slice src 0 (a + b)) R := by
  have hle := hc.le
  have hslot : ∀ k, (p + k) % N = (log.length + k) % N := by
    intro k
    rw [Nat.add_mod, hp, ← Nat.add_mod]
  refine carries_append N data _ log _ R hc (by rw [Bytes.slice_length]; exact hroom) ?_ ?_
  · -- The new entries are in the slots the copies fill.
    intro k hk
    have hkab : k < a + b := by rwa [Bytes.slice_length] at hk
    rw [← hslot k, wrapIn_slot N data p src a b k hfit hturn (by omega) hkab,
      Bytes.slice_getElem, Nat.zero_add]
  · intro i hR hi
    refine wrapIn_other N data p src a b _ hfit hturn (by omega) (fun k hk hslots => ?_)
    -- A slot being filled and a live slot are less than a turn apart.
    rw [hslot k] at hslots
    have hsame := mod_inj N R _ _ (by omega) (by omega) hR (by omega) hslots
    omega

theorem carries_wrapOut (N : Nat) (dst data : Bytes.Mem) (p a b : Nat) (log : List UInt8)
    (R : Nat) (hc : Carries N data log R) (hp : p % N = R % N) (hfit : p + a ≤ N)
    (hturn : b = 0 ∨ p + a = N) (hlen : R + (a + b) ≤ log.length) :
    Bytes.slice (wrapOut dst data p a b) 0 (a + b) = (log.drop R).take (a + b) := by
  have hroom := hc.room
  rw [slice_wrapOut N dst data p a b hfit hturn (by omega),
    carries_window N data log p R (a + b) hc hp hlen]

end Circular
