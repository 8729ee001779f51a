import Mathlib
import Servus.Cpp.Blocks
import Servus.Md5.Model

/-!
# What an MD5 digest is

The definition of the digest, to compare the code with. The message is padded to whole blocks of 64
bytes, with its length in bits at the end; each block changes a state of four words by 64 steps,
which are one formula in the number of the step; the digest is the last state. The constants of the
steps are digits of the sine: `sineConstant`.

Words are taken from bytes, and given as bytes, by their value to the base 256, the lowest byte
first.
-/

namespace Servus.Md5.Spec

open Cpp

/-- The `n` lowest bytes of a number, the lowest first. -/
def leBytes (n v : Nat) : List UInt8 := (List.range n).map fun i => UInt8.ofNat (v / 256 ^ i)

/-- The number that four bytes are, the lowest first. -/
def leWord (bytes : List UInt8) : UInt32 :=
  UInt32.ofNat (Nat.ofDigits 256 ((bytes.take 4).map UInt8.toNat))

/-- The word at `k` of a block. -/
def blockWord (block : List UInt8) (k : Nat) : UInt32 := leWord (block.drop (4 * k))

/-! ## The steps -/

def rotl (x : UInt32) (n : Nat) : UInt32 := ⟨x.toBitVec.rotateLeft n⟩

/-- The basic function of step `i`. -/
def basic (i : Nat) : UInt32 → UInt32 → UInt32 → UInt32 :=
  match i / 16 with
  | 0 => F
  | 1 => G
  | 2 => H
  | _ => I

/-- The word of the block that step `i` takes. -/
def wordIndex (i : Nat) : Nat :=
  match i / 16 with
  | 0 => i
  | 1 => (5 * i + 1) % 16
  | 2 => (3 * i + 5) % 16
  | _ => 7 * i % 16

/-- The number of bits by which step `i` rotates. -/
def shift (i : Nat) : Nat :=
  match i / 16, i % 4 with
  | 0, 0 => 7 | 0, 1 => 12 | 0, 2 => 17 | 0, _ => 22
  | 1, 0 => 5 | 1, 1 => 9 | 1, 2 => 14 | 1, _ => 20
  | 2, 0 => 4 | 2, 1 => 11 | 2, 2 => 16 | 2, _ => 23
  | _, 0 => 6 | _, 1 => 10 | _, 2 => 15 | _, _ => 21

/-- The first 32 bits behind the point of `|sin (i + 1)|`. -/
noncomputable def sineConstant (i : Nat) : UInt32 :=
  UInt32.ofNat ⌊2 ^ 32 * |Real.sin (i + 1 : Nat)|⌋₊

/-- Step `i`, with the words `x` of the block and the constants `K`. -/
def step (K x : Nat → UInt32) (s : Words) (i : Nat) : Words where
  a := s.d
  b := s.b + rotl (s.a + basic i s.b s.c s.d + x (wordIndex i) + K i) (shift i)
  c := s.b
  d := s.c

/-- The state after a block. -/
noncomputable def compress (s : Words) (block : List UInt8) : Words :=
  s.add ((List.range 64).foldl (step sineConstant (blockWord block)) s)

/-! ## The digest -/

/-- The state before the first block. -/
def initial : Words := ⟨0x67452301, 0xefcdab89, 0x98badcfe, 0x10325476⟩

/-- A bit and zeros behind a message of `length` bytes, and the number `bits` in 8 bytes. -/
def paddingWith (length bits : Nat) : List UInt8 :=
  0x80 :: List.replicate ((119 - length % 64) % 64) 0 ++ leBytes 8 bits

/-- What is put behind a message of `length` bytes; the number is that of its bits. -/
def padding (length : Nat) : List UInt8 := paddingWith length (8 * length)

/-- Nothing taken yet. -/
def fresh : Absorbed Words UInt8 64 := ⟨initial, [], by decide⟩

/-- The state after all blocks of a list. -/
noncomputable def stateOf (bytes : List UInt8) : Words := (fresh.absorb compress bytes).state

/-- The 16 bytes of a state. -/
def stateBytes (s : Words) : List UInt8 := [s.a, s.b, s.c, s.d].flatMap (leBytes 4 ·.toNat)

/-- The MD5 digest of a message. -/
noncomputable def digest (message : List UInt8) : List UInt8 :=
  stateBytes (stateOf (message ++ padding message.length))

end Servus.Md5.Spec
