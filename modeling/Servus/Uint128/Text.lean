import Servus.Cpp.Numeric
import Servus.Uint128.Arith

/-!
# `servus::uint128_t`: text forms (`servus/uint128_t.h`, `servus/uint128_t.cpp`)

Three writers share one reader. `getString` prints both words with `snprintf` into a buffer of 34
bytes; `operator<<` leaves out a zero high word; and a `:` may arrive as the four characters
`\058` of a DNS name. `operator=(const std::string&)` decides by where `strtoull` stopped.

`assign_texts`: every text form of a value, also with upper-case digits and with `0x` in front of
either word, is read back as that value, and `getString` never truncates.

`getShortString` is for a display and cannot be read back. `getShortString_eq_iff`: it returns the
ends of the digits exactly when there are three of them; with fewer, it throws.
-/

namespace Servus.Uint128

open Cpp

/-- `printf("%llx")`, and `os << std::hex` of a 64-bit word on a stream with default flags. -/
def hexText (w : UInt64) : Str := Nat.toDigits 16 w.toNat

/-- `snprintf` into a buffer of `size` bytes, read back as a string. -/
def snprintf (size : Nat) (text : Str) : Str := cStr (text.take (size - 1))

/-- `uint128_t::getString`. -/
def getString (v : UInt128) : Str := snprintf 34 (hexText v.high ++ ":".toList ++ hexText v.low)

/-- `operator<<(std::ostream&, const uint128_t&)` on a fresh stream. -/
def print (v : UInt128) : Str :=
  if v.high = 0 then hexText v.low else hexText v.high ++ ":".toList ++ hexText v.low

/-- The text in the stream of `getShortString`: the digits of both words, with nothing between
them. -/
def shortStream (v : UInt128) : Str := hexText v.high ++ hexText v.low

/-- `uint128_t::getShortString`. -/
def getShortString (v : UInt128) : Res Str := do
  let str := shortStream v
  pure ((← substr str 0 (some 3)) ++ "..".toList ++ (← substr str (sizeSub str.length 3) none))

/-- `uint128_t::operator=(const std::string&)`: the value assigned, with the assertions of a
debug build. -/
def assign (text : Str) : Res UInt128 :=
  if text = [] then .ok ⟨0, 0⟩
  else do
    let (high, used) := strtoull text
    assert (used != 0)
    let next := (cStr text).drop used
    if next = [] then pure ⟨0, high⟩
    else if "\\058".toList.isPrefixOf next then
      pure ⟨high, (strtoull (next.drop 4)).1⟩
    else
      assert (next.head? == some ':')
      pure ⟨high, (strtoull (next.drop 1)).1⟩

/-- A text of the word `w`: its digits in any case, with or without `0x`. -/
def IsHex (w : UInt64) (t : Str) : Prop :=
  ∃ marker ds, (marker = [] ∨ marker = "0x".toList ∨ marker = "0X".toList) ∧
    ds.map Char.toLower = hexText w ∧ t = marker ++ ds

/-! ## Words -/

theorem isHex_hexText (w : UInt64) : IsHex w (hexText w) := by
  refine ⟨[], hexText w, .inl rfl, ?_, rfl⟩
  have hdig := toLower_toDigits 16 (by decide) (by decide) w.toNat
  exact (List.map_congr_left hdig).trans (List.map_id _)

theorem length_hexText_le (w : UInt64) : (hexText w).length ≤ 16 :=
  (Nat.length_toDigits_le_iff (by decide) (by decide)).mpr w.toNat_lt

theorem length_hexText_pos (w : UInt64) : 0 < (hexText w).length := Nat.length_toDigits_pos

/-- One digit writes the words below 16. -/
theorem length_hexText_le_one_iff {w : UInt64} : (hexText w).length ≤ 1 ↔ w < 16 := by
  rw [hexText, Nat.length_toDigits_le_iff (by decide) (by decide), UInt64.lt_iff_toNat_lt]
  rfl

theorem digits_of_isHex {w : UInt64} {ds : Str} (h : ds.map Char.toLower = hexText w) :
    ds ≠ [] ∧ (∀ c ∈ ds, isDigitOf 16 c = true) ∧ digitsVal 16 ds = w.toNat := by
  refine ⟨?_, fun c hc => ?_, ?_⟩
  · rintro rfl
    exact Nat.toDigits_ne_nil h.symm
  · have hlow := isDigitOf_toDigits 16 (by decide) (by decide) w.toNat c.toLower
      (by rw [← hexText, ← h]; exact List.mem_map_of_mem hc)
    rwa [isDigitOf, digitVal_toLower] at hlow
  · rw [← digitsVal_toLower, h]
    exact digitsVal_toDigits 16 (by decide) (by decide) w.toNat

/-- What may follow a word: nothing, or a separator. -/
def Stops (rest : Str) : Prop :=
  ∀ c ∈ rest.head?, isDigitOf 16 c = false ∧ c ≠ 'x' ∧ c ≠ 'X'

/-- `strtoull` finds the marker of a word where there is one. -/
theorem hexMarker_append {marker ds rest : Str}
    (hm : marker = [] ∨ marker = "0x".toList ∨ marker = "0X".toList) (hne : ds ≠ [])
    (hds : ∀ c ∈ ds, isDigitOf 16 c = true) (hrest : Stops rest) :
    hexMarker (marker ++ ds ++ rest) = marker.length := by
  obtain ⟨d, ds, rfl⟩ := List.exists_cons_of_ne_nil hne
  have hd := hds d (by simp)
  rcases hm with rfl | rfl | rfl
  · -- no `x` stands behind the first digit
    unfold hexMarker
    split
    · rename_i x _ _ heq
      have hx : x ≠ 'x' ∧ x ≠ 'X' := by
        cases ds with
        | nil =>
          obtain ⟨-, hr⟩ : d = '0' ∧ rest = x :: _ := by simpa using heq
          exact (hrest x (by simp [hr])).2
        | cons d' ds =>
          obtain ⟨-, rfl, -⟩ : d = '0' ∧ d' = x ∧ _ := by simpa using heq
          have hx := hds d' (by simp)
          constructor <;> rintro rfl <;> revert hx <;> decide
      simp [hx]
    · rfl
  · simp [hexMarker, hd]
  · simp [hexMarker, hd]

/-- `strtoull` reads a word up to the separator. -/
theorem strtoull_isHex {w : UInt64} {t : Str} (h : IsHex w t) (rest : Str)
    (hrest : Stops rest) (hnul : '\x00' ∉ rest) :
    strtoull (t ++ rest) = (w, t.length) ∧ cStr (t ++ rest) = t ++ rest := by
  obtain ⟨marker, ds, hm, hlow, rfl⟩ := h
  obtain ⟨hne, hds, hval⟩ := digits_of_isHex hlow
  have hm0 : ∀ c ∈ marker, c = '0' ∨ c = 'x' ∨ c = 'X' := by
    rcases hm with rfl | rfl | rfl <;> simp
  have hcstr : cStr (marker ++ ds ++ rest) = marker ++ ds ++ rest := by
    refine cStr_eq_self_iff.mpr fun hc => ?_
    simp only [List.mem_append] at hc
    rcases hc with (hc | hc) | hc
    · rcases hm0 _ hc with h | h | h <;> cases h
    · exact ne_of_isDigitOf (hds _ hc) (d := '\x00') (by decide) rfl
    · exact hnul hc
  have hto := strto_eq 16 marker rest hne hds hm0
    (by simpa using hexMarker_append hm hne hds hrest) fun c hc => (hrest c hc).1
  have hsmall := w.toNat_lt
  refine ⟨?_, hcstr⟩
  simp only [strtoull, hcstr, hto, hval, show ¬ 2 ^ 64 ≤ w.toNat by omega, Bool.false_eq_true,
    ↓reduceIte, List.length_append, UInt64.ofNat_toNat]

theorem IsHex.ne_nil {w : UInt64} {t : Str} (h : IsHex w t) : t ≠ [] := by
  obtain ⟨marker, ds, -, hlow, rfl⟩ := h
  simp [(digits_of_isHex hlow).1]

theorem IsHex.strtoull_self {w : UInt64} {t : Str} (h : IsHex w t) :
    strtoull t = (w, t.length) ∧ cStr t = t := by
  simpa using strtoull_isHex h [] (by simp [Stops]) (by simp)

theorem IsHex.nul_notMem {w : UInt64} {t : Str} (h : IsHex w t) : '\x00' ∉ t :=
  cStr_eq_self_iff.mp h.strtoull_self.2

/-! ## Assignment -/

/-- The short form has only the low word. -/
theorem assign_short {lo : UInt64} {t : Str} (h : IsHex lo t) : assign t = .ok ⟨0, lo⟩ := by
  have hlen : t.length ≠ 0 := by simpa using h.ne_nil
  simp [assign, h.ne_nil, h.strtoull_self, assert, hlen]

/-- The long form, with either separator. -/
theorem assign_long {hi lo : UInt64} {t t' sep : Str} (h : IsHex hi t) (h' : IsHex lo t')
    (hsep : sep = ":".toList ∨ sep = "\\058".toList) :
    assign (t ++ sep ++ t') = .ok ⟨hi, lo⟩ := by
  have hstops : Stops (sep ++ t') := by
    rcases hsep with rfl | rfl <;> (intro c hc; cases hc; decide)
  have hnul : '\x00' ∉ sep ++ t' := by
    rcases hsep with rfl | rfl <;> simpa using h'.nul_notMem
  obtain ⟨hto, hcstr⟩ := strtoull_isHex h _ hstops hnul
  have hlen : t.length ≠ 0 := by simpa using h.ne_nil
  have hdrop : (t ++ (sep ++ t')).drop t.length = sep ++ t' := List.drop_left
  simp only [assign, List.append_assoc, hto, hcstr, hdrop, assert]
  rcases hsep with rfl | rfl
  · simp [h.ne_nil, hlen, h'.strtoull_self, List.isPrefixOf]
  · simp [h.ne_nil, hlen, h'.strtoull_self, List.isPrefixOf]

theorem getString_eq (v : UInt128) :
    getString v = hexText v.high ++ ":".toList ++ hexText v.low := by
  have h1 := length_hexText_le v.high
  have h2 := length_hexText_le v.low
  rw [getString, snprintf, List.take_of_length_le (by simp; omega)]
  exact List.append_assoc .. ▸ (strtoull_isHex (isHex_hexText v.high)
    (":".toList ++ hexText v.low) (by intro c hc; cases hc; decide)
    (by simpa using (isHex_hexText v.low).nul_notMem)).2

/-- `getString` and `operator<<` write texts of the two words, the buffer of `getString` holds
its text and the final NUL, and assignment reads every such text back: with `:` or `\058` between
the words, with digits of any case, and with `0x` in front of either word. -/
theorem assign_texts (v : UInt128) :
    getString v = hexText v.high ++ ":".toList ++ hexText v.low ∧
    (hexText v.high ++ ":".toList ++ hexText v.low).length < 34 ∧
    print v = (if v.high = 0 then hexText v.low else getString v) ∧
    assign (getString v) = .ok v ∧ assign (print v) = .ok v ∧
    ∀ hi lo, IsHex v.high hi → IsHex v.low lo →
      assign (hi ++ ":".toList ++ lo) = .ok v ∧ assign (hi ++ "\\058".toList ++ lo) = .ok v ∧
      (v.high = 0 → assign lo = .ok v) := by
  have hhi := isHex_hexText v.high
  have hlo := isHex_hexText v.low
  have hget := getString_eq v
  have hshort : ∀ {lo}, IsHex v.low lo → v.high = 0 → assign lo = .ok v := by
    intro lo h h0
    rw [assign_short h, ← h0]
  have hlong := assign_long hhi hlo (.inl rfl)
  refine ⟨hget, ?_, ?_, by rw [hget, hlong], ?_, fun hi lo h h' =>
    ⟨assign_long h h' (.inl rfl), assign_long h h' (.inr rfl), hshort h'⟩⟩
  · have h1 := length_hexText_le v.high
    have h2 := length_hexText_le v.low
    have hsep : ":".toList.length = 1 := rfl
    simp only [List.length_append, hsep]
    omega
  · rw [print, hget]
  · unfold print
    split
    · rename_i h0
      exact hshort hlo h0
    · exact hlong

theorem assign_texts_prefixed :
    assign "0xC0FFEE\\0580xa".toList = .ok ⟨0xc0ffee, 10⟩ := by
  refine ((assign_texts ⟨0xc0ffee, 10⟩).2.2.2.2.2 "0xC0FFEE".toList "0xa".toList ?_ ?_).2.1
  · exact ⟨"0x".toList, "C0FFEE".toList, by decide, by decide, by decide⟩
  · exact ⟨"0x".toList, "a".toList, by decide, by decide, by decide⟩

/-! ## The short form -/

/-- The first and the last three characters of the digits, or all of them. -/
def shortText (v : UInt128) : Str :=
  let n := min 3 (shortStream v).length
  (shortStream v).take n ++ "..".toList ++ (shortStream v).drop ((shortStream v).length - n)

theorem length_shortStream_le (v : UInt128) : (shortStream v).length ≤ 32 := by
  have hhi := length_hexText_le v.high
  have hlo := length_hexText_le v.low
  simp only [shortStream, List.length_append]
  omega

/-- Three digits are there when one of the words needs two. -/
theorem three_le_length_shortStream_iff {v : UInt128} :
    3 ≤ (shortStream v).length ↔ 16 ≤ v.high ∨ 16 ≤ v.low := by
  have hhi := length_hexText_pos v.high
  have hlo := length_hexText_pos v.low
  have hhi1 := length_hexText_le_one_iff (w := v.high)
  have hlo1 := length_hexText_le_one_iff (w := v.low)
  rw [← UInt64.not_lt, ← UInt64.not_lt, ← hhi1, ← hlo1, shortStream, List.length_append]
  omega

theorem getShortString_of_le {v : UInt128} (h : 3 ≤ (shortStream v).length) :
    getShortString v = .ok (shortText v) := by
  have hlen := length_shortStream_le v
  have hsub := sizeSub_of_le (b := 3) h (by omega)
  simp [getShortString, shortText, substr, hsub, h]

/-- The start of the second substring wraps around. -/
theorem getShortString_of_lt {v : UInt128} (h : (shortStream v).length < 3) :
    getShortString v = .error .outOfRange := by
  have hsub := lt_sizeSub (b := 3) h (by omega)
  have hout : ¬ sizeSub (shortStream v).length 3 ≤ (shortStream v).length := by omega
  simp [getShortString, substr, hout]

/-- `getShortString` returns the ends of the digits exactly when one of the words has at least two
digits. -/
theorem getShortString_eq_iff (v : UInt128) :
    getShortString v = .ok (shortText v) ↔ 16 ≤ v.high ∨ 16 ≤ v.low := by
  rw [← three_le_length_shortStream_iff]
  refine ⟨fun h => ?_, getShortString_of_le⟩
  by_contra hlt
  rw [getShortString_of_lt (by omega)] at h
  cases h

/-- There are two digits for zero, and no short form. -/
theorem getShortString_zero_throws : getShortString ⟨0, 0⟩ = .error .outOfRange ∧
    getShortString ⟨0, 0⟩ ≠ .ok (shortText ⟨0, 0⟩) := by decide

end Servus.Uint128
