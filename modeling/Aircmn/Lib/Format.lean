import Aircmn.Lib.CString

/-!
# Formats of String Conversions

The formats of `printf` that have no conversions but `%s`, with its flag, its
width and its precision, and `%%`. A format is text, and `parse` divides it
into the characters that are printed as they are and the conversions. A text
with any other conversion, or with one that is not finished, is none.

A `StrFormat n` is a format with `n` conversions. It carries its pieces, so
what it prints, given `n` strings, is always defined.

## Main definitions

* `StrConv`, `StrConv.text`: A conversion, and what it makes of a string.
* `Piece`, `render`: The pieces of a format, and what they print.
* `Stage`, `convStep`, `parse`: Reading a format.
* `StrFormat`, `StrFormat.text`: A format with its pieces.

## Theorems

* `parse_noNul`: The pieces of a string have no zero.
* `text_noNul`: A format of strings prints a string.
-/

namespace Format

open CString

/-- The flag `-`, the width and the precision. -/
structure StrConv where
  left : Bool
  width : Nat
  prec : Option Nat
deriving DecidableEq

/-- `%s`. -/
def StrConv.plain : StrConv := ⟨false, 0, none⟩

/-- As much of a string as the precision allows, with blanks up to the width. -/
def StrConv.text (k : StrConv) (s : List UInt8) : List UInt8 :=
  let s :=
    match k.prec with
    | some p => s.take p
    | none => s
  let pad := List.replicate (k.width - s.length) 32
  if k.left then s ++ pad else pad ++ s

/-- A character of a format, or a conversion of a string. -/
inductive Piece where
  | char (c : UInt8)
  | str (k : StrConv)
deriving DecidableEq

/-- What the pieces print, given the strings for the conversions. -/
def render : List Piece → List (List UInt8) → List UInt8
  | [], _ => []
  | .char c :: ps, args => c :: render ps args
  | .str k :: ps, a :: args => k.text a ++ render ps args
  | .str _ :: _, [] => []

/-- How far a conversion has been read. -/
inductive Stage where
  | percent
  | flags
  | width
  | prec
deriving DecidableEq

/-- A character inside a conversion, if it can stand there. -/
def convStep (st : Stage) (k : StrConv) (c : UInt8) : Option (Stage × StrConv) :=
  let digit := c.toNat - 48
  if c = 45 then
    if st = .percent ∨ st = .flags then some (.flags, { k with left := true }) else none
  else if c = 46 then
    if st = .prec then none else some (.prec, { k with prec := some 0 })
  else if 48 ≤ c ∧ c ≤ 57 then
    match st with
    | .prec => some (.prec, { k with prec := some (10 * k.prec.getD 0 + digit) })
    | .width => some (.width, { k with width := 10 * k.width + digit })
    -- A zero here would be a flag, which `%s` does not have.
    | _ => if c = 48 then none else some (.width, { k with width := digit })
  else none

/-- The pieces of a format, from inside a conversion or from outside. -/
def parse : Option (Stage × StrConv) → List UInt8 → Option (List Piece)
  | none, [] => some []
  | some _, [] => none
  | none, c :: s =>
    if c = 37 then parse (some (.percent, .plain)) s else (parse none s).map (.char c :: ·)
  | some (st, k), c :: s =>
    if c = 37 ∧ st = .percent then (parse none s).map (.char 37 :: ·)
    else if c = 115 then (parse none s).map (.str k :: ·)
    else
      match convStep st k c with
      | some next => parse (some next) s
      | none => none

/-- The piece takes an argument. -/
def Piece.isStr : Piece → Bool
  | .char _ => false
  | .str _ => true

/-- A format with `n` conversions. -/
structure StrFormat (n : Nat) where
  str : Str
  pieces : List Piece
  parsed : parse none str.bytes = some pieces
  convs : (pieces.filter Piece.isStr).length = n

/-- What the format prints. -/
def StrFormat.text {n : Nat} (fmt : StrFormat n) (args : List Str) : List UInt8 :=
  render fmt.pieces (args.map Str.bytes)

-- "a%-3s%%" and "hi".
example : (parse none [97, 37, 45, 51, 115, 37, 37]).map (render · [[104, 105]])
    = some [97, 104, 105, 32, 37] := by decide

theorem parse_noNul : ∀ (s : List UInt8) (st : Option (Stage × StrConv)) (ps : List Piece),
    0 ∉ s → parse st s = some ps → Piece.char 0 ∉ ps := by
  intro s
  induction s with
  | nil =>
      intro st ps _ h
      cases st with
      | none =>
          rw [parse, Option.some.injEq] at h
          rw [← h]
          exact List.not_mem_nil
      | some k => exact absurd h (fun h => nomatch h)
  | cons c s ih =>
      intro st ps hs h
      have hc : c ≠ 0 := fun hc => hs (hc ▸ List.mem_cons_self)
      have hrest : 0 ∉ s := fun h0 => hs (List.mem_cons_of_mem c h0)
      -- A piece that is not a zero, and the pieces of the rest.
      have hcons : ∀ p, p ≠ .char 0 → (parse none s).map (p :: ·) = some ps →
          Piece.char 0 ∉ ps := by
        intro p hp hmap
        rcases Option.map_eq_some_iff.mp hmap with ⟨qs, hqs, hps⟩
        rw [← hps, List.mem_cons, not_or]
        exact ⟨fun h0 => hp h0.symm, ih none qs hrest hqs⟩
      cases st with
      | none =>
          rw [parse] at h
          split at h
          · exact ih _ ps hrest h
          · exact hcons _ (fun h0 => hc (Piece.char.inj h0)) h
      | some k =>
          rw [parse] at h
          split at h
          · exact hcons (.char 37) (by decide) h
          · split at h
            · exact hcons (.str k.2) (fun h0 => nomatch h0) h
            · split at h
              · exact ih _ ps hrest h
              · exact absurd h (fun h => nomatch h)

theorem convText_noNul (k : StrConv) (s : List UInt8) (hs : 0 ∉ s) : 0 ∉ k.text s := by
  -- The padding is blanks, and a precision only shortens the text.
  have hblank : ∀ n : Nat, 0 ∉ List.replicate n (32 : UInt8) :=
    fun n h => absurd (List.eq_of_mem_replicate h) (by decide)
  have htake : ∀ n : Nat, 0 ∉ s.take n := fun n h => hs (List.mem_of_mem_take h)
  rw [StrConv.text]
  -- Padding stands in front of the text or behind it.
  cases k.prec with
  | none =>
      cases k.left
      all_goals simp only [List.mem_append, not_or, if_true, if_false, Bool.false_eq_true]
      · exact ⟨hblank _, hs⟩
      · exact ⟨hs, hblank _⟩
  | some p =>
      cases k.left
      all_goals simp only [List.mem_append, not_or, if_true, if_false, Bool.false_eq_true]
      · exact ⟨hblank _, htake p⟩
      · exact ⟨htake p, hblank _⟩

theorem render_noNul : ∀ (ps : List Piece) (args : List (List UInt8)), Piece.char 0 ∉ ps →
    (∀ a ∈ args, 0 ∉ a) → 0 ∉ render ps args := by
  intro ps
  induction ps with
  | nil =>
      intro args _ _
      exact List.not_mem_nil
  -- Each piece adds a character of the format or a converted argument.
  | cons p ps ih =>
      intro args hps hargs
      have hrest : Piece.char 0 ∉ ps := fun h0 => hps (List.mem_cons_of_mem p h0)
      cases p with
      | char c =>
          rw [render, List.mem_cons, not_or]
          exact ⟨fun h0 => hps (h0 ▸ List.mem_cons_self), ih args hrest hargs⟩
      | str k =>
          cases args with
          -- With no argument left nothing is printed for the conversion.
          | nil => exact List.not_mem_nil
          | cons a args =>
              rw [render, List.mem_append, not_or]
              exact ⟨convText_noNul k a (hargs a List.mem_cons_self),
                ih args hrest (fun b hb => hargs b (List.mem_cons_of_mem a hb))⟩

theorem text_noNul {n : Nat} (fmt : StrFormat n) (args : List Str) : 0 ∉ fmt.text args := by
  refine render_noNul _ _ (parse_noNul _ none _ fmt.str.noNul fmt.parsed) (fun a ha => ?_)
  rcases List.mem_map.mp ha with ⟨s, _, hs⟩
  rw [← hs]
  exact s.noNul

end Format
