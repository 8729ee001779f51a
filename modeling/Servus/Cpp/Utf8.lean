import Servus.Cpp.String

/-!
# Unicode texts in a `std::string`

`utf8` writes a text as bytes, and `fromUtf8` reads it back (`fromUtf8_utf8`). `fromUtf8` reads
every string: a byte that no character starts with becomes a replacement character, so that two
strings may read as one text.

`IsUtf8` are the strings that every converter keeps: UTF-8, without what a converter may take out,
which are the noncharacters of Unicode and a byte order mark in front.
-/

namespace Cpp

/-- A byte, as the `Char` of its code. -/
def byteChar (b : UInt8) : Char := Char.ofNat b.toNat

def charByte (c : Char) : UInt8 := UInt8.ofNat c.toNat

/-- A text in UTF-8. -/
def utf8 (text : List Char) : Str := text.flatMap fun c => (String.utf8EncodeChar c).map byteChar

/-- The character that starts a string. -/
def firstChar? (s : Str) : Option Char := (s.map charByte).toByteArray.utf8DecodeChar? 0

/-- The text behind the first `skip` bytes, which belong to a character that was read. -/
def decodeFrom : Nat → Str → List Char
  | _, [] => []
  | skip + 1, _ :: s => decodeFrom skip s
  | 0, c :: s =>
    match firstChar? (c :: s) with
    | some d => d :: decodeFrom (d.utf8Size - 1) s
    | none => '\uFFFD' :: decodeFrom 0 s

/-- The text of a string. -/
def fromUtf8 (s : Str) : List Char := decodeFrom 0 s

def isNoncharacter (c : Char) : Bool :=
  decide (0xFDD0 ≤ c.toNat ∧ c.toNat ≤ 0xFDEF ∨ 0xFFFE ≤ c.toNat % 0x10000)

/-- No noncharacter, and no byte order mark in front. -/
def IsPlain (text : List Char) : Prop :=
  text.head? ≠ some '\uFEFF' ∧ ∀ c ∈ text, isNoncharacter c = false

instance (text : List Char) : Decidable (IsPlain text) :=
  decidable_of_iff (text.head? ≠ some '\uFEFF' ∧ (text.all fun c => !isNoncharacter c) = true)
    (by simp [IsPlain])

/-- A plain text in UTF-8. -/
def IsUtf8 (s : Str) : Prop := ∃ text, IsPlain text ∧ utf8 text = s

@[simp] theorem utf8_append (text text' : List Char) :
    utf8 (text ++ text') = utf8 text ++ utf8 text' := List.flatMap_append

theorem IsPlain.append {text text' : List Char} (h : IsPlain text) (h' : IsPlain text') :
    IsPlain (text ++ text') := by
  refine ⟨?_, fun c hc => (List.mem_append.mp hc).elim (h.2 c) (h'.2 c)⟩
  cases text with
  | nil => exact h'.1
  | cons c text => exact h.1

theorem IsUtf8.append {s s' : Str} (h : IsUtf8 s) (h' : IsUtf8 s') : IsUtf8 (s ++ s') := by
  obtain ⟨text, hplain, rfl⟩ := h
  obtain ⟨text', hplain', rfl⟩ := h'
  exact ⟨text ++ text', hplain.append hplain', utf8_append text text'⟩

theorem charByte_byteChar (b : UInt8) : charByte (byteChar b) = b := by
  have hlt := b.toNat_lt
  have hcode : (Char.ofNat b.toNat).toNat = b.toNat := by
    rw [Char.ofNat, dif_pos (Or.inl (by omega))]
    rfl
  rw [charByte, byteChar, hcode, UInt8.ofNat_toNat]

theorem map_charByte_utf8 (text : List Char) :
    (utf8 text).map charByte = text.flatMap String.utf8EncodeChar := by
  rw [utf8, List.map_flatMap]
  refine List.flatMap_congr fun c _ => ?_
  rw [List.map_map]
  exact List.map_id'' charByte_byteChar _

theorem firstChar?_utf8 (c : Char) (text : List Char) :
    firstChar? (utf8 (c :: text)) = some c := by
  rw [firstChar?, map_charByte_utf8, List.flatMap_cons, List.toByteArray_append]
  exact ByteArray.utf8DecodeChar?_utf8EncodeChar_append

theorem decodeFrom_append (a s : Str) : decodeFrom a.length (a ++ s) = decodeFrom 0 s := by
  induction a with
  | nil => rfl
  | cons c a ih => exact ih

/-- A text is read back. -/
theorem fromUtf8_utf8 (text : List Char) : fromUtf8 (utf8 text) = text := by
  induction text with
  | nil => rfl
  | cons c text ih =>
    obtain ⟨b, bs, hbytes⟩ :=
      List.exists_cons_of_ne_nil (String.utf8EncodeChar_ne_nil (c := c))
    have hutf8 : utf8 (c :: text) = byteChar b :: (bs.map byteChar ++ utf8 text) := by
      rw [utf8, List.flatMap_cons, hbytes]
      rfl
    have hsize : c.utf8Size - 1 = (bs.map byteChar).length := by
      rw [← String.length_utf8EncodeChar, hbytes]
      simp
    have hfirst := firstChar?_utf8 c text
    rw [hutf8] at hfirst
    rw [hutf8, fromUtf8, decodeFrom, hfirst]
    dsimp only
    rw [hsize, decodeFrom_append]
    exact congrArg (c :: ·) ih

theorem isUtf8_iff (s : Str) : IsUtf8 s ↔ IsPlain (fromUtf8 s) ∧ utf8 (fromUtf8 s) = s := by
  constructor
  · rintro ⟨text, hplain, rfl⟩
    rw [fromUtf8_utf8]
    exact ⟨hplain, rfl⟩
  · intro h
    exact ⟨_, h⟩

instance (s : Str) : Decidable (IsUtf8 s) := decidable_of_iff' _ (isUtf8_iff s)

/-- Two bytes that no character starts with read as one text. -/
example : fromUtf8 "\xff".toList = fromUtf8 "\xfe".toList ∧ ¬ IsUtf8 "\xff".toList ∧
    IsUtf8 "\xc3\xa4".toList := by decide

end Cpp
