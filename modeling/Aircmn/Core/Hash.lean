import Aircmn.Core.Base
import Aircmn.Lib.Bytes

/-!
# Hash Functions

`cmn_hash.c`, which has MurmurHash3 for words of 32 bits, and `cmn_jhash.h`,
which has Jenkins' hash and two forms of it for one word and for two.

Both functions read words at addresses that need not be aligned, as the
processors they are written for allow, and both end with a `switch` whose
cases fall through, so the case for `j` bytes is taken whenever at least `j`
bytes are left. The index of `hash_murmur3_32` goes up to zero from minus the
number of whole blocks, at whose end the addresses start. A `len` of `-4` or
less would start it above zero, and the loop would run through memory until
the index overflows.

## Main definitions

* `rotl32`, `getblock32`, `fmix32`, `murmurWord`, `murmurStep`, `murmurBlocks`,
  `murmurTail`, `hashMurmur3_32`: `cmn_hash.c`.
* `jhashRol32`, `jhashMix`, `jhashFinal`, `jhashLoop`, `jhashTail`, `jhash`,
  `jhashNwords`, `jhash1word`, `jhash2words`: `cmn_jhash.h`.
-/

namespace Aircmn

open Bytes

section Murmur

/-- `rotl32`, the macro `ROTL32`. -/
def rotl32 (x r : UInt32) : UInt32 := (x <<< r) ||| (x >>> (32 - r))

/-- `getblock32`, of the words from address `p` on. -/
def getblock32 (m : Mem) (p : Nat) (i : Int) : UInt32 := load32 m ((p : Int) + 4 * i).toNat

/-- `fmix32`. -/
def fmix32 (h : UInt32) : UInt32 :=
  let h := h ^^^ (h >>> 16)
  let h := h * 0x85ebca6b
  let h := h ^^^ (h >>> 13)
  let h := h * 0xc2b2ae35
  h ^^^ (h >>> 16)

/-- `c1`. -/
def murmurC1 : UInt32 := 0xcc9e2d51

/-- `c2`. -/
def murmurC2 : UInt32 := 0x1b873593

/-- The lines on `k1` that the loop and the `switch` share. -/
def murmurWord (k1 : UInt32) : UInt32 :=
  let k1 := k1 * murmurC1
  let k1 := rotl32 k1 15
  k1 * murmurC2

/-- The loop's body, for the block `k1`. -/
def murmurStep (h1 k1 : UInt32) : UInt32 :=
  let h1 := h1 ^^^ murmurWord k1
  let h1 := rotl32 h1 13
  h1 * 5 + 0xe6546b64

/-- The loop over the whole blocks. -/
def murmurBlocks (m : Mem) (blocks nblocks : Nat) (h1 : UInt32) : UInt32 :=
  ((List.range nblocks).map (fun j : Nat => -(nblocks : Int) + j)).foldl
    (fun h1 i => murmurStep h1 (getblock32 m blocks i)) h1

/-- The `switch`, for `rest` bytes from `tail` on. -/
def murmurTail (m : Mem) (tail rest : Nat) (h1 : UInt32) : UInt32 :=
  let k1 : UInt32 := 0
  let k1 := if 3 ≤ rest then k1 ^^^ ((m (tail + 2)).toUInt32 <<< 16) else k1
  let k1 := if 2 ≤ rest then k1 ^^^ ((m (tail + 1)).toUInt32 <<< 8) else k1
  if 1 ≤ rest then
    let k1 := k1 ^^^ (m tail).toUInt32
    h1 ^^^ murmurWord k1
  else h1

/-- `hash_murmur3_32`. -/
def hashMurmur3_32 (m : Mem) (key : Nat) (len : Int32) (seed : UInt32) (out : Nat) : Mem :=
  let nblocks := (len / 4).toInt.toNat
  let blocks := key + nblocks * 4
  let h1 := murmurBlocks m blocks nblocks seed
  let tail := key + nblocks * 4
  let h1 := murmurTail m tail (len &&& 3).toInt.toNat h1
  let h1 := h1 ^^^ len.toUInt32
  store32 m out (fmix32 h1)

end Murmur

section Jenkins

/-- `jhash_rol32`. -/
def jhashRol32 (word shift : UInt32) : UInt32 := (word <<< shift) ||| (word >>> (-shift &&& 31))

/-- The three words of the state. -/
structure Jwords where
  a : UInt32
  b : UInt32
  c : UInt32
deriving DecidableEq

/-- `__jhash_mix`. -/
def jhashMix (s : Jwords) : Jwords :=
  let ⟨a, b, c⟩ := s
  let a := a - c; let a := a ^^^ jhashRol32 c 4; let c := c + b
  let b := b - a; let b := b ^^^ jhashRol32 a 6; let a := a + c
  let c := c - b; let c := c ^^^ jhashRol32 b 8; let b := b + a
  let a := a - c; let a := a ^^^ jhashRol32 c 16; let c := c + b
  let b := b - a; let b := b ^^^ jhashRol32 a 19; let a := a + c
  let c := c - b; let c := c ^^^ jhashRol32 b 4; let b := b + a
  ⟨a, b, c⟩

/-- `__jhash_final`. -/
def jhashFinal (s : Jwords) : Jwords :=
  let ⟨a, b, c⟩ := s
  let c := c ^^^ b; let c := c - jhashRol32 b 14
  let a := a ^^^ c; let a := a - jhashRol32 c 11
  let b := b ^^^ a; let b := b - jhashRol32 a 25
  let c := c ^^^ b; let c := c - jhashRol32 b 16
  let a := a ^^^ c; let a := a - jhashRol32 c 4
  let b := b ^^^ a; let b := b - jhashRol32 a 14
  let c := c ^^^ b; let c := c - jhashRol32 b 24
  ⟨a, b, c⟩

/-- `JHASH_INITVAL`. -/
def jhashInitval : UInt32 := 0xdeadbeef

/-- The `while` loop: what is left of the key, how much, and the state. -/
def jhashLoop (m : Mem) (k : Nat) (length : UInt32) (s : Jwords) : Nat × UInt32 × Jwords :=
  if hlong : length > 12 then
    let s := { s with a := s.a + load32 m k }
    let s := { s with b := s.b + load32 m (k + 4) }
    let s := { s with c := s.c + load32 m (k + 8) }
    jhashLoop m (k + 12) (length - 12) (jhashMix s)
  else (k, length, s)
termination_by length.toNat
decreasing_by
  have hlt : (12 : UInt32).toNat < length.toNat := UInt32.lt_iff_toNat_lt.mp hlong
  rw [UInt32.toNat_sub_of_le _ _ (UInt32.le_iff_toNat_le.mpr (Nat.le_of_lt hlt))]
  have htwelve : (12 : UInt32).toNat = 12 := rfl
  omega

/-- One case of the `switch`: the byte at `k` goes into `word` if at least `n`
    bytes are left. -/
def jhashCase (m : Mem) (length : UInt32) (n : UInt32) (k : Nat) (shift word : UInt32) : UInt32 :=
  if n ≤ length then word + ((m k).toUInt32 <<< shift) else word

/-- The `switch`, which leaves the state unmixed when nothing is left. -/
def jhashTail (m : Mem) (k : Nat) (length : UInt32) (s : Jwords) : Jwords :=
  let c := jhashCase m length 12 (k + 11) 24 s.c
  let c := jhashCase m length 11 (k + 10) 16 c
  let c := jhashCase m length 10 (k + 9) 8 c
  let c := jhashCase m length 9 (k + 8) 0 c
  let b := jhashCase m length 8 (k + 7) 24 s.b
  let b := jhashCase m length 7 (k + 6) 16 b
  let b := jhashCase m length 6 (k + 5) 8 b
  let b := jhashCase m length 5 (k + 4) 0 b
  let a := jhashCase m length 4 (k + 3) 24 s.a
  let a := jhashCase m length 3 (k + 2) 16 a
  let a := jhashCase m length 2 (k + 1) 8 a
  let a := jhashCase m length 1 k 0 a
  if 1 ≤ length then jhashFinal ⟨a, b, c⟩ else ⟨a, b, c⟩

/-- `jhash`. -/
def jhash (m : Mem) (key : Nat) (length initval : UInt32) : UInt32 :=
  let start := jhashInitval + length + initval
  let left := jhashLoop m key length ⟨start, start, start⟩
  (jhashTail m left.1 left.2.1 left.2.2).c

/-- `__jhash_nwords`. -/
def jhashNwords (a b c initval : UInt32) : UInt32 :=
  (jhashFinal ⟨a + initval, b + initval, c + initval⟩).c

/-- `jhash_2words`. -/
def jhash2words (a b initval : UInt32) : UInt32 :=
  jhashNwords a b 0 (initval + jhashInitval + ((2 : UInt32) <<< 2))

/-- `jhash_1word`. -/
def jhash1word (a initval : UInt32) : UInt32 :=
  jhashNwords a 0 0 (initval + jhashInitval + ((1 : UInt32) <<< 2))

end Jenkins

end Aircmn
