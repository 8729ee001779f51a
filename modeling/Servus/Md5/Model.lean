import Servus.Cpp.Loop
import Servus.Cpp.String

/-!
# `md5::MD5` (`servus/md5/md5.cc`)

The digest that `make_uint128` takes of a text. A context takes its input by any number of
`update` calls and gives the digest after one `finalize`. `buffer` holds what is not yet a block of
64 bytes, and its other bytes are left over from earlier blocks; in a new context they are
whatever the memory held, so `init` has them as an argument.

Arrays are lists of their length. A read or a write past the end of one, and a failed assertion,
are a `Fault`. A `size_t` is the length of an input that exists; `uint4` wraps.
-/

namespace Servus.Md5

open Cpp

/-- What ends a call with no result. -/
inductive Fault where
  /-- A failed `assert`. -/
  | assertion
  /-- A read or a write past the end of an array. -/
  | bounds
  /-- The model's loop ran out of fuel. -/
  | fuel
  deriving DecidableEq

/-- An array of `n` bytes. -/
abbrev Bytes (n : Nat) := { bytes : List UInt8 // bytes.length = n }

/-- `state[4]`. -/
structure Words where
  a : UInt32
  b : UInt32
  c : UInt32
  d : UInt32
  deriving DecidableEq

structure MD5 where
  state : Words
  /-- `count[0]` and `count[1]`: the number of bits. -/
  count0 : UInt32
  count1 : UInt32
  buffer : Bytes 64
  digest : Bytes 16
  finalized : Bool
  deriving DecidableEq

/-! ## Bytes and words -/

/-- The read of `len` bytes at the start of an array. -/
def readBytes (input : List UInt8) (len : Nat) : Except Fault (List UInt8) :=
  if len ≤ input.length then .ok (input.take len) else .error .bounds

/-- `memcpy(output + start, input, len)`, with the bytes that are read. -/
def memcpy {n : Nat} (output : Bytes n) (start : Nat) (input : List UInt8) :
    Except Fault (Bytes n) :=
  if h : start + input.length ≤ n then
    .ok ⟨output.1.take start ++ input ++ output.1.drop (start + input.length), by
      have hlen := output.2
      simp only [List.length_append, List.length_take, List.length_drop]
      omega⟩
  else .error .bounds

/-- `memset(output, value, len)`. -/
def memset {n : Nat} (output : Bytes n) (value : UInt8) (len : Nat) : Except Fault (Bytes n) :=
  memcpy output 0 (List.replicate len value)

/-- The four bytes of a word, the lowest first. -/
def wordBytes (w : UInt32) : List UInt8 :=
  [(w &&& 0xff).toUInt8, ((w >>> 8) &&& 0xff).toUInt8, ((w >>> 16) &&& 0xff).toUInt8,
    ((w >>> 24) &&& 0xff).toUInt8]

/-- `encode`. -/
def encode (input : List UInt32) : List UInt8 := input.flatMap wordBytes

/-- The word of four bytes. -/
def byteWord (b0 b1 b2 b3 : UInt8) : UInt32 :=
  b0.toUInt32 ||| (b1.toUInt32 <<< 8) ||| (b2.toUInt32 <<< 16) ||| (b3.toUInt32 <<< 24)

/-- `decode` of `len` bytes. -/
def decode : List UInt8 → Nat → Except Fault (List UInt32)
  | _, 0 => .ok []
  | b0 :: b1 :: b2 :: b3 :: input, len + 4 => (decode input len).map (byteWord b0 b1 b2 b3 :: ·)
  | _, _ => .error .bounds

/-- `sprintf(s, "%02x", byte)`. -/
def sprintf02x (byte : UInt8) : Str :=
  let digits := Nat.toDigits 16 byte.toNat
  List.replicate (2 - digits.length) '0' ++ digits

/-! ## Streams -/

/-- A `std::istream`: the bytes before its end or its first error, and whether it is `good()`. -/
structure IStream where
  bytes : List UInt8
  good : Bool
  deriving DecidableEq

/-- `stream.read(buf, n)`: the bytes that `gcount()` counts. -/
def IStream.read (s : IStream) (n : Nat) : List UInt8 × IStream :=
  if s.good then (s.bytes.take n, ⟨s.bytes.drop n, decide (n ≤ s.bytes.length)⟩) else ([], s)

/-! ## The basic transformation -/

/-- `rotate_left`. -/
def rotateLeft (x n : UInt32) : UInt32 := (x <<< n) ||| (x >>> (32 - n))

def F (x y z : UInt32) : UInt32 := (x &&& y) ||| (~~~x &&& z)
def G (x y z : UInt32) : UInt32 := (x &&& z) ||| (y &&& ~~~z)
def H (x y z : UInt32) : UInt32 := x ^^^ y ^^^ z
def I (x y z : UInt32) : UInt32 := y ^^^ (x ||| ~~~z)

/-- What `FF`, `GG`, `HH` and `II` assign to their first argument. -/
def mixed (f : UInt32 → UInt32 → UInt32 → UInt32) (a b c d x s ac : UInt32) : UInt32 :=
  rotateLeft (a + (f b c d + x + ac)) s + b

def FF := mixed F
def GG := mixed G
def HH := mixed H
def II := mixed I

def S11 : UInt32 := 7
def S12 : UInt32 := 12
def S13 : UInt32 := 17
def S14 : UInt32 := 22
def S21 : UInt32 := 5
def S22 : UInt32 := 9
def S23 : UInt32 := 14
def S24 : UInt32 := 20
def S31 : UInt32 := 4
def S32 : UInt32 := 11
def S33 : UInt32 := 16
def S34 : UInt32 := 23
def S41 : UInt32 := 6
def S42 : UInt32 := 10
def S43 : UInt32 := 15
def S44 : UInt32 := 21

namespace Words

variable (w : Words) (f : UInt32 → UInt32 → UInt32 → UInt32 → UInt32 → UInt32 → UInt32 → UInt32)
  (x s ac : UInt32)

/-- The line `f (a, b, c, d, x, s, ac)` of a round. -/
def setA : Words := { w with a := f w.a w.b w.c w.d x s ac }

/-- The line `f (d, a, b, c, x, s, ac)`. -/
def setD : Words := { w with d := f w.d w.a w.b w.c x s ac }

/-- The line `f (c, d, a, b, x, s, ac)`. -/
def setC : Words := { w with c := f w.c w.d w.a w.b x s ac }

/-- The line `f (b, c, d, a, x, s, ac)`. -/
def setB : Words := { w with b := f w.b w.c w.d w.a x s ac }

end Words

/-- Round 1 of `transform`. -/
def round1 (x : Nat → UInt32) (w : Words) : Words := w
  |>.setA FF (x 0) S11 0xd76aa478
  |>.setD FF (x 1) S12 0xe8c7b756
  |>.setC FF (x 2) S13 0x242070db
  |>.setB FF (x 3) S14 0xc1bdceee
  |>.setA FF (x 4) S11 0xf57c0faf
  |>.setD FF (x 5) S12 0x4787c62a
  |>.setC FF (x 6) S13 0xa8304613
  |>.setB FF (x 7) S14 0xfd469501
  |>.setA FF (x 8) S11 0x698098d8
  |>.setD FF (x 9) S12 0x8b44f7af
  |>.setC FF (x 10) S13 0xffff5bb1
  |>.setB FF (x 11) S14 0x895cd7be
  |>.setA FF (x 12) S11 0x6b901122
  |>.setD FF (x 13) S12 0xfd987193
  |>.setC FF (x 14) S13 0xa679438e
  |>.setB FF (x 15) S14 0x49b40821

/-- Round 2 of `transform`. -/
def round2 (x : Nat → UInt32) (w : Words) : Words := w
  |>.setA GG (x 1) S21 0xf61e2562
  |>.setD GG (x 6) S22 0xc040b340
  |>.setC GG (x 11) S23 0x265e5a51
  |>.setB GG (x 0) S24 0xe9b6c7aa
  |>.setA GG (x 5) S21 0xd62f105d
  |>.setD GG (x 10) S22 0x2441453
  |>.setC GG (x 15) S23 0xd8a1e681
  |>.setB GG (x 4) S24 0xe7d3fbc8
  |>.setA GG (x 9) S21 0x21e1cde6
  |>.setD GG (x 14) S22 0xc33707d6
  |>.setC GG (x 3) S23 0xf4d50d87
  |>.setB GG (x 8) S24 0x455a14ed
  |>.setA GG (x 13) S21 0xa9e3e905
  |>.setD GG (x 2) S22 0xfcefa3f8
  |>.setC GG (x 7) S23 0x676f02d9
  |>.setB GG (x 12) S24 0x8d2a4c8a

/-- Round 3 of `transform`. -/
def round3 (x : Nat → UInt32) (w : Words) : Words := w
  |>.setA HH (x 5) S31 0xfffa3942
  |>.setD HH (x 8) S32 0x8771f681
  |>.setC HH (x 11) S33 0x6d9d6122
  |>.setB HH (x 14) S34 0xfde5380c
  |>.setA HH (x 1) S31 0xa4beea44
  |>.setD HH (x 4) S32 0x4bdecfa9
  |>.setC HH (x 7) S33 0xf6bb4b60
  |>.setB HH (x 10) S34 0xbebfbc70
  |>.setA HH (x 13) S31 0x289b7ec6
  |>.setD HH (x 0) S32 0xeaa127fa
  |>.setC HH (x 3) S33 0xd4ef3085
  |>.setB HH (x 6) S34 0x4881d05
  |>.setA HH (x 9) S31 0xd9d4d039
  |>.setD HH (x 12) S32 0xe6db99e5
  |>.setC HH (x 15) S33 0x1fa27cf8
  |>.setB HH (x 2) S34 0xc4ac5665

/-- Round 4 of `transform`. -/
def round4 (x : Nat → UInt32) (w : Words) : Words := w
  |>.setA II (x 0) S41 0xf4292244
  |>.setD II (x 7) S42 0x432aff97
  |>.setC II (x 14) S43 0xab9423a7
  |>.setB II (x 5) S44 0xfc93a039
  |>.setA II (x 12) S41 0x655b59c3
  |>.setD II (x 3) S42 0x8f0ccc92
  |>.setC II (x 10) S43 0xffeff47d
  |>.setB II (x 1) S44 0x85845dd1
  |>.setA II (x 8) S41 0x6fa87e4f
  |>.setD II (x 15) S42 0xfe2ce6e0
  |>.setC II (x 6) S43 0xa3014314
  |>.setB II (x 13) S44 0x4e0811a1
  |>.setA II (x 4) S41 0xf7537e82
  |>.setD II (x 11) S42 0xbd3af235
  |>.setC II (x 2) S43 0x2ad7d2bb
  |>.setB II (x 9) S44 0xeb86d391

/-- The words that `transform` adds to the state. -/
def rounds (x : Nat → UInt32) (s : Words) : Words := round4 x (round3 x (round2 x (round1 x s)))

/-- `state[0] += a` and the three others. -/
def Words.add (s t : Words) : Words := ⟨s.a + t.a, s.b + t.b, s.c + t.c, s.d + t.d⟩

namespace MD5

/-- `transform`, of the 64 bytes that start at `block`. -/
def transform (m : MD5) (block : List UInt8) : Except Fault MD5 := do
  let x ← decode block 64
  if m.finalized then .error .assertion
  else .ok { m with state := m.state.add (rounds (x.getD · 0) m.state) }

/-! ## The context -/

/-- `init`, in memory that holds `buffer` and `digest`. -/
def init (buffer : Bytes 64) (digest : Bytes 16) : MD5 where
  state := ⟨0x67452301, 0xefcdab89, 0x98badcfe, 0x10325476⟩
  count0 := 0
  count1 := 0
  buffer := buffer
  digest := digest
  finalized := false

/-- The number of bytes mod 64. -/
def bufferIndex (m : MD5) : Nat := ((m.count0 >>> 3) &&& 0x3F).toNat

/-- The update of the number of bits; the length is cast to a `uint4`. -/
def addCount (m : MD5) (inputLength : Nat) : MD5 :=
  let length : UInt32 := UInt32.ofNat inputLength
  let count0 := m.count0 + (length <<< 3)
  let count1 := if count0 < length <<< 3 then m.count1 + 1 else m.count1
  { m with count0 := count0, count1 := count1 + (length >>> 29) }

/-- The loop that transforms each piece of 64 bytes of the input, from `inputIndex` on: the context
and `input_index` after it. -/
def transformPieces (m : MD5) (input : List UInt8) (inputIndex : Nat) :
    Except Fault (MD5 × Nat) :=
  whileLoop .fuel (fun s => decide (s.2 + 63 < input.length))
    (fun s => (s.1.transform (input.drop s.2)).map (·, s.2 + 64)) input.length (m, inputIndex)

/-- `update`; a finalized context only complains. -/
def update (m : MD5) (input : List UInt8) : Except Fault MD5 :=
  if m.finalized then .ok m
  else do
    let bufferIndex := m.bufferIndex
    let m := m.addCount input.length
    let bufferSpace := 64 - bufferIndex
    let (m, inputIndex, bufferIndex) ←
      if input.length ≥ bufferSpace then do
        let buffer ← memcpy m.buffer bufferIndex (← readBytes input bufferSpace)
        let m ← { m with buffer := buffer }.transform buffer.1
        let (m, inputIndex) ← m.transformPieces input bufferSpace
        pure (m, inputIndex, 0)
      else pure (m, 0, bufferIndex)
    let buffer ← memcpy m.buffer bufferIndex (input.drop inputIndex)
    pure { m with buffer := buffer }

def PADDING : List UInt8 := 0x80 :: List.replicate 63 0

/-- `finalize`; a finalized context only complains. -/
def finalize (m : MD5) : Except Fault MD5 :=
  if m.finalized then .ok m
  else do
    let bits := encode [m.count0, m.count1]
    let index := m.bufferIndex
    let padLen := if index < 56 then 56 - index else 120 - index
    let m ← m.update (← readBytes PADDING padLen)
    let m ← m.update bits
    let digest : Bytes 16 := ⟨encode [m.state.a, m.state.b, m.state.c, m.state.d], rfl⟩
    -- `sizeof(*buffer)` is the size of one element
    let buffer ← memset m.buffer 0 1
    pure { m with digest := digest, buffer := buffer, finalized := true }

/-- `update(std::istream&)`. -/
def updateIStream (m : MD5) (stream : IStream) : Except Fault (MD5 × IStream) :=
  whileLoop .fuel (fun s => s.2.good)
    (fun s => (s.1.update (s.2.read 1024).1).map (·, (s.2.read 1024).2))
    (stream.bytes.length + 1) (m, stream)

/-- `update(FILE*)`: `file` is what is left of the file, and `buf` the result of the last
`fread`. -/
def updateFile (m : MD5) (file : List UInt8) : Except Fault MD5 :=
  (whileLoop .fuel (fun s : MD5 × List UInt8 × List UInt8 => s.2.1.length != 0)
    (fun s => (s.1.update s.2.1).map (·, s.2.2.take 1024, s.2.2.drop 1024))
    file.length (m, file.take 1024, file.drop 1024)).map (·.1)

/-- `MD5(unsigned char* string)`, with the bytes of the string before its NUL. -/
def ofString (buffer : Bytes 64) (digest : Bytes 16) (string : List UInt8) : Except Fault MD5 :=
  (init buffer digest).update string >>= finalize

/-- `MD5(std::istream& stream)`. -/
def ofIStream (buffer : Bytes 64) (digest : Bytes 16) (stream : IStream) : Except Fault MD5 :=
  (init buffer digest).updateIStream stream >>= fun s => s.1.finalize

/-- `MD5(FILE *file)`. -/
def ofFile (buffer : Bytes 64) (digest : Bytes 16) (file : List UInt8) : Except Fault MD5 :=
  (init buffer digest).updateFile file >>= finalize

/-- `raw_digest(high, low)`. -/
def rawDigest (m : MD5) : UInt64 × UInt64 :=
  let digest (i : Nat) : UInt64 := (m.digest.1.getD i 0).toUInt64
  (digest 7 <<< 0 ||| digest 6 <<< 8 ||| digest 5 <<< 16 ||| digest 4 <<< 24 |||
      digest 3 <<< 32 ||| digest 2 <<< 40 ||| digest 1 <<< 48 ||| digest 0 <<< 56,
    digest 15 <<< 0 ||| digest 14 <<< 8 ||| digest 13 <<< 16 ||| digest 12 <<< 24 |||
      digest 11 <<< 32 ||| digest 10 <<< 40 ||| digest 9 <<< 48 ||| digest 8 <<< 56)

/-- `hex_digest`, which `operator<<` writes. -/
def hexDigest (m : MD5) : Str := if !m.finalized then [] else m.digest.1.flatMap sprintf02x

end MD5

end Servus.Md5
