import Mathlib
import Servus.Cpp.String

/-!
# Numbers as text: `strtol`, `strtoull` and the digits that streams print

`strto base` is the common part of the ISO C conversions in the C locale: blanks, a sign, the
marker `0x` of base 16 when a digit follows it, and the longest run of digits. It gives the sign,
the magnitude and the number of characters used, `0` when there is no digit. `strtol` (a 64-bit
`long`) and `strtoull` saturate the magnitude and apply the sign; both read up to the first NUL.

`os << n` and `printf("%llx")` print `Nat.toDigits`: `strtol_toDigits` and the `strtoull` lemmas
say that the conversions undo them. `numeral` is the integer that a whole text denotes:
`strtol_used_iff` says that `strtol` reads a text to its end exactly when it denotes one.
-/

namespace Cpp

/-- The C string that `s.c_str()` points to. -/
def cStr (s : Str) : Str := s.takeWhile (· != '\x00')

/-- `isspace` in the C locale: the blank and the codes from `'\t'` to `'\r'`. -/
def isSpace (c : Char) : Bool := c == ' ' || (9 ≤ c.toNat && c.toNat ≤ 13)

/-- The value of a letter or digit in the conversions. -/
def digitVal (c : Char) : Option Nat :=
  if c.isDigit then some (c.toNat - '0'.toNat)
  else if c.isLower then some (c.toNat - 'a'.toNat + 10)
  else if c.isUpper then some (c.toNat - 'A'.toNat + 10)
  else none

def isDigitOf (base : Nat) (c : Char) : Bool := (digitVal c).any (· < base)

/-- The number that a run of digits denotes. -/
def digitsVal (base : Nat) (ds : Str) : Nat :=
  ds.foldl (fun v c => v * base + (digitVal c).getD 0) 0

/-- The length of a sign at the head of `s`. -/
def signLen (s : Str) : Nat := if s.head? = some '-' ∨ s.head? = some '+' then 1 else 0

/-- The length of the marker `0x` or `0X`, which counts only in front of a digit. -/
def hexMarker : Str → Nat
  | '0' :: x :: d :: _ => if (x = 'x' ∨ x = 'X') ∧ isDigitOf 16 d then 2 else 0
  | _ => 0

/-- What a conversion read: the sign, the magnitude, and how many characters it used. -/
structure Strto where
  neg : Bool
  magnitude : Nat
  used : Nat
  deriving DecidableEq, Repr

/-- The common part of `strtol` and `strtoull`. -/
def strto (base : Nat) (s : Str) : Strto :=
  let blanks := (s.takeWhile isSpace).length
  let signed := s.drop blanks
  let sign := signLen signed
  let unsigned := signed.drop sign
  let marker := if base = 16 then hexMarker unsigned else 0
  let digits := (unsigned.drop marker).takeWhile (isDigitOf base)
  if digits = [] then ⟨false, 0, 0⟩
  else ⟨signed.head? = some '-', digitsVal base digits, blanks + sign + marker + digits.length⟩

/-- `strtol(s, &end, 10)` with a 64-bit `long`: the value and the offset of `end`. -/
def strtol (s : Str) : Int × Nat :=
  let r := strto 10 (cStr s)
  (max (-2 ^ 63) (min (2 ^ 63 - 1) (if r.neg then -r.magnitude else r.magnitude)), r.used)

/-- `strtoull(s, &end, 16)`: the value and the offset of `end`. A negated magnitude wraps. -/
def strtoull (s : Str) : UInt64 × Nat :=
  let r := strto 16 (cStr s)
  (if 2 ^ 64 ≤ r.magnitude then UInt64.ofNat (2 ^ 64 - 1)
    else if r.neg then 0 - UInt64.ofNat r.magnitude
    else UInt64.ofNat r.magnitude, r.used)

/-! ## Digits -/

/-- An upper-case letter is one of the codes `65..90`. -/
theorem isUpper_cases {P : Char → Prop} {c : Char} (h : c.isUpper = true)
    (hP : ∀ n : Nat, 65 ≤ n → n ≤ 90 → P (Char.ofNat n)) : P c := by
  simp only [Char.isUpper, ge_iff_le, decide_eq_true_eq, UInt32.le_iff_toNat_le] at h
  rw [← Char.ofNat_toNat c]
  exact hP c.toNat h.1 h.2

theorem isLower_cases {P : Char → Prop} {c : Char} (h : c.isLower = true)
    (hP : ∀ n : Nat, 97 ≤ n → n ≤ 122 → P (Char.ofNat n)) : P c := by
  simp only [Char.isLower, ge_iff_le, Bool.and_eq_true, decide_eq_true_eq,
    UInt32.le_iff_toNat_le] at h
  rw [← Char.ofNat_toNat c]
  exact hP c.toNat h.1 h.2

theorem isDigit_cases {P : Char → Prop} {c : Char} (h : c.isDigit = true)
    (hP : ∀ n : Nat, 48 ≤ n → n ≤ 57 → P (Char.ofNat n)) : P c := by
  simp only [Char.isDigit, ge_iff_le, Bool.and_eq_true, decide_eq_true_eq,
    UInt32.le_iff_toNat_le] at h
  rw [← Char.ofNat_toNat c]
  exact hP c.toNat h.1 h.2

theorem digitVal_toLower (c : Char) : digitVal c.toLower = digitVal c := by
  cases h : c.isUpper with
  | true =>
    refine isUpper_cases (P := fun c => digitVal c.toLower = digitVal c) h fun n h1 h2 => ?_
    interval_cases n <;> decide
  | false => rw [Char.toLower_eq_of_not_isUpper (by simp [h])]

theorem digitVal_digitChar {d : Nat} (h : d < 16) : digitVal d.digitChar = some d := by
  interval_cases d <;> decide

theorem digitsVal_append (base : Nat) (ds : Str) (c : Char) :
    digitsVal base (ds ++ [c]) = digitsVal base ds * base + (digitVal c).getD 0 := by
  simp [digitsVal]

/-- Case does not change the number that digits denote. -/
theorem digitsVal_toLower (base : Nat) (ds : Str) :
    digitsVal base (ds.map Char.toLower) = digitsVal base ds := by
  simp [digitsVal, List.foldl_map, digitVal_toLower]

theorem digitsVal_toDigits (base : Nat) (h1 : 1 < base) (h16 : base ≤ 16) (n : Nat) :
    digitsVal base (Nat.toDigits base n) = n := by
  induction n using Nat.strong_induction_on with
  | _ n ih =>
    rw [Nat.toDigits_eq_if h1]
    split
    · rename_i hn
      simp [digitsVal, digitVal_digitChar (show n < 16 by omega)]
    · rename_i hn
      have hmod := Nat.mod_lt n (show 0 < base by omega)
      rw [digitsVal_append, ih _ (Nat.div_lt_self (by omega) h1),
        digitVal_digitChar (show n % base < 16 by omega), Option.getD_some]
      exact Nat.div_add_mod' n base

theorem mem_toDigits {base : Nat} (h1 : 1 < base) (n : Nat) :
    ∀ c ∈ Nat.toDigits base n, ∃ d < base, c = d.digitChar := by
  induction n using Nat.strong_induction_on with
  | _ n ih =>
    intro c hc
    rw [Nat.toDigits_eq_if h1] at hc
    split at hc
    · rename_i hn
      exact ⟨n, hn, List.mem_singleton.mp hc⟩
    · rcases List.mem_append.mp hc with hc | hc
      · exact ih _ (Nat.div_lt_self (by omega) h1) c hc
      · exact ⟨n % base, Nat.mod_lt n (by omega), List.mem_singleton.mp hc⟩

theorem isDigitOf_toDigits (base : Nat) (h1 : 1 < base) (h16 : base ≤ 16) (n : Nat) :
    ∀ c ∈ Nat.toDigits base n, isDigitOf base c = true := by
  intro c hc
  obtain ⟨d, hd, rfl⟩ := mem_toDigits h1 n c hc
  simp [isDigitOf, digitVal_digitChar (show d < 16 by omega), hd]

/-- Printed digits are lower case. -/
theorem toLower_toDigits (base : Nat) (h1 : 1 < base) (h16 : base ≤ 16) (n : Nat) :
    ∀ c ∈ Nat.toDigits base n, c.toLower = c := by
  intro c hc
  obtain ⟨d, hd, rfl⟩ := mem_toDigits h1 n c hc
  have hd16 : d < 16 := by omega
  interval_cases d <;> decide

/-- A digit is a letter or a decimal digit, so it is no blank, sign, NUL or separator. -/
theorem isAlphanum_of_isDigitOf {base : Nat} {c : Char} (h : isDigitOf base c = true) :
    c.isAlphanum = true := by
  unfold isDigitOf digitVal at h
  unfold Char.isAlphanum Char.isAlpha
  split at h
  · simp_all
  · split at h
    · simp_all
    · split at h
      · simp_all
      · simp at h

theorem ne_of_isDigitOf {base : Nat} {c d : Char} (h : isDigitOf base c = true)
    (hd : d.isAlphanum = false) : c ≠ d := by
  rintro rfl
  rw [isAlphanum_of_isDigitOf h] at hd
  cases hd

theorem not_isSpace_of_isDigitOf {base : Nat} {c : Char} (h : isDigitOf base c = true) :
    isSpace c = false := by
  by_contra hs
  simp only [isSpace, Bool.or_eq_true, Bool.and_eq_true, decide_eq_true_eq, beq_iff_eq,
    Bool.not_eq_false] at hs
  rcases hs with rfl | ⟨h1, h2⟩
  · exact ne_of_isDigitOf h (by decide) rfl
  · refine ne_of_isDigitOf h (d := Char.ofNat c.toNat) ?_ (Char.ofNat_toNat c).symm
    generalize c.toNat = n at h1 h2
    interval_cases n <;> decide

/-! ## Conversions of printed numbers -/

/-- A run of digits behind its marker, in front of something that is no digit. -/
theorem strto_eq (base : Nat) (marker : Str) {ds : Str} (t : Str) (hne : ds ≠ [])
    (hds : ∀ c ∈ ds, isDigitOf base c = true) (hm : ∀ c ∈ marker, c = '0' ∨ c = 'x' ∨ c = 'X')
    (hmark : (if base = 16 then hexMarker (marker ++ ds ++ t) else 0) = marker.length)
    (ht : ∀ c ∈ t.head?, isDigitOf base c = false) :
    strto base (marker ++ ds ++ t) = ⟨false, digitsVal base ds, marker.length + ds.length⟩ := by
  obtain ⟨c, s, hs, hsp, h1, h2⟩ : ∃ c s, marker ++ ds ++ t = c :: s ∧ isSpace c = false ∧
      c ≠ '-' ∧ c ≠ '+' := by
    cases marker with
    | nil =>
      cases ds with
      | nil => exact absurd rfl hne
      | cons d ds =>
        have hd := hds d (by simp)
        exact ⟨d, ds ++ t, rfl, not_isSpace_of_isDigitOf hd, ne_of_isDigitOf hd (by decide),
          ne_of_isDigitOf hd (by decide)⟩
    | cons m marker =>
      refine ⟨m, marker ++ ds ++ t, rfl, ?_⟩
      rcases hm m (by simp) with rfl | rfl | rfl <;> decide
  have hblank : (marker ++ ds ++ t).takeWhile isSpace = [] := by
    rw [hs, List.takeWhile_cons]; simp [hsp]
  have hsign : signLen (marker ++ ds ++ t) = 0 := by simp [signLen, hs, h1, h2]
  have hneg : decide ((marker ++ ds ++ t).head? = some '-') = false := by simp [hs, h1]
  have hdig : ((marker ++ ds ++ t).drop marker.length).takeWhile (isDigitOf base) = ds := by
    rw [List.append_assoc, List.drop_left]
    cases t with
    | nil => rw [List.append_nil, List.takeWhile_eq_self_iff]; exact hds
    | cons d t => exact takeWhile_split hds (ht d (by simp))
  simp only [strto, hblank, List.length_nil, List.drop_zero, hsign, hmark, hdig, hne,
    ↓reduceIte, hneg]
  simp

theorem cStr_eq_self_iff {s : Str} : cStr s = s ↔ '\x00' ∉ s := by
  rw [cStr, List.takeWhile_eq_self_iff]
  constructor
  · intro h hmem
    simpa using h _ hmem
  · exact all_ne_of_notMem

theorem cStr_digits {base : Nat} {ds : Str} (hds : ∀ c ∈ ds, isDigitOf base c = true) :
    cStr ds = ds :=
  cStr_eq_self_iff.mpr fun hnul => ne_of_isDigitOf (hds _ hnul) (d := '\x00') (by decide) rfl

/-- `strtol` reads a printed number back. -/
theorem strtol_toDigits {n : Nat} (hn : n < 2 ^ 63) :
    strtol (Nat.toDigits 10 n) = ((n : Int), (Nat.toDigits 10 n).length) := by
  have hds := isDigitOf_toDigits 10 (by decide) (by decide) n
  have h := strto_eq 10 [] [] Nat.toDigits_ne_nil hds (by simp) rfl (by simp)
  simp only [List.nil_append, List.append_nil, List.length_nil, Nat.zero_add,
    digitsVal_toDigits 10 (by decide) (by decide)] at h
  simp only [strtol, cStr_digits hds, h, Bool.false_eq_true, ↓reduceIte, Prod.mk.injEq, and_true]
  omega

/-! ## Texts that are one number -/

/-- The integer that the whole of `s` denotes: blanks, a sign, and decimal digits. -/
def numeral (s : Str) : Option Int :=
  let signed := s.dropWhile isSpace
  let digits := signed.drop (signLen signed)
  if digits ≠ [] ∧ digits.all (isDigitOf 10) = true then
    some (if signed.head? = some '-' then -digitsVal 10 digits else digitsVal 10 digits)
  else none

/-- The `long` that `strtol` gives for the integer `n`. -/
def saturate (n : Int) : Int := max (-2 ^ 63) (min (2 ^ 63 - 1) n)

theorem signLen_le (s : Str) : signLen s ≤ s.length := by
  cases s with
  | nil => simp [signLen]
  | cons c s =>
    unfold signLen
    split <;> simp

theorem mem_take_signLen {s : Str} {c : Char} (h : c ∈ s.take (signLen s)) :
    c = '-' ∨ c = '+' := by
  unfold signLen at h
  split at h
  · cases s with
    | nil => simp at h
    | cons d s => simp_all
  · simp at h

/-- `strto 10` reads the digits behind the blanks and the sign. -/
theorem strto_ten (s : Str) :
    let signed := s.dropWhile isSpace
    let unsigned := signed.drop (signLen signed)
    let digits := unsigned.takeWhile (isDigitOf 10)
    strto 10 s = if digits = [] then ⟨false, 0, 0⟩
      else ⟨signed.head? = some '-', digitsVal 10 digits,
        s.length - unsigned.length + digits.length⟩ := by
  have happ : s.takeWhile isSpace ++ s.dropWhile isSpace = s := List.takeWhile_append_dropWhile
  have hlen := congrArg List.length happ
  have hdrop : s.drop (s.takeWhile isSpace).length = s.dropWhile isSpace := by
    have hleft : (s.takeWhile isSpace ++ s.dropWhile isSpace).drop (s.takeWhile isSpace).length =
        s.dropWhile isSpace := List.drop_left
    rwa [happ] at hleft
  have hsign := signLen_le (s.dropWhile isSpace)
  rw [List.length_append] at hlen
  simp only [strto, hdrop, show ¬ (10 = 16) by decide, ↓reduceIte, List.drop_zero,
    List.length_drop]
  split
  · rfl
  · congr 1
    omega

theorem unsigned_length_le (s : Str) :
    ((s.dropWhile isSpace).drop (signLen (s.dropWhile isSpace))).length ≤ s.length := by
  have hle := (List.dropWhile_suffix (l := s) isSpace).length_le
  rw [List.length_drop]
  omega

theorem strto_used_le (s : Str) : (strto 10 s).used ≤ s.length := by
  have hle := unsigned_length_le s
  have hdigits := (List.takeWhile_prefix (isDigitOf 10)
    (l := (s.dropWhile isSpace).drop (signLen (s.dropWhile isSpace)))).length_le
  rw [strto_ten]
  split
  · simp
  · dsimp only
    omega

/-- The conversion reads a text to its end exactly when the text is one number. -/
theorem strto_used_iff {s : Str} (hne : s ≠ []) :
    (strto 10 s).used = s.length ↔ ∃ n, numeral s = some n := by
  have hle := unsigned_length_le s
  have hlen := List.length_pos_of_ne_nil hne
  rw [strto_ten, numeral]
  generalize (s.dropWhile isSpace).drop (signLen (s.dropWhile isSpace)) = unsigned at hle ⊢
  constructor
  · intro h
    split at h
    · dsimp only at h
      omega
    · rename_i hdigits
      dsimp only at h
      have hall : unsigned.takeWhile (isDigitOf 10) = unsigned :=
        (List.takeWhile_prefix _).eq_of_length (by omega)
      rw [hall] at hdigits
      exact ⟨_, if_pos ⟨hdigits, List.all_eq_true.mpr (List.takeWhile_eq_self_iff.mp hall)⟩⟩
  · rintro ⟨n, hn⟩
    obtain ⟨⟨hdigits, hall⟩, -⟩ := Option.ite_none_right_eq_some.mp hn
    rw [List.takeWhile_eq_self_iff.mpr (List.all_eq_true.mp hall), if_neg hdigits]
    dsimp only
    omega

/-- The value of a number that is read to its end. -/
theorem strto_numeral {s : Str} {n : Int} (h : numeral s = some n) :
    (if (strto 10 s).neg then -((strto 10 s).magnitude : Int) else (strto 10 s).magnitude) = n := by
  rw [numeral] at h
  obtain ⟨⟨hdigits, hall⟩, hn⟩ := Option.ite_none_right_eq_some.mp h
  rw [strto_ten]
  rw [List.takeWhile_eq_self_iff.mpr (List.all_eq_true.mp hall), if_neg hdigits]
  simpa using hn

/-- A number has no NUL. -/
theorem cStr_numeral {s : Str} {n : Int} (h : numeral s = some n) : cStr s = s := by
  obtain ⟨⟨-, hall⟩, -⟩ := Option.ite_none_right_eq_some.mp h
  have hall := List.all_eq_true.mp hall
  refine cStr_eq_self_iff.mpr fun hnul => ?_
  rw [← List.takeWhile_append_dropWhile (p := isSpace) (l := s), List.mem_append] at hnul
  rcases hnul with hnul | hnul
  · exact absurd (List.mem_takeWhile_imp hnul) (by decide)
  · rw [← List.take_append_drop (signLen (s.dropWhile isSpace)) (s.dropWhile isSpace),
      List.mem_append] at hnul
    rcases hnul with hnul | hnul
    · rcases mem_take_signLen hnul with h | h <;> cases h
    · exact absurd (hall _ hnul) (by decide)

/-- `strtol` reads a number to its end and gives it, saturated. -/
theorem strtol_numeral {s : Str} {n : Int} (h : numeral s = some n) :
    strtol s = (saturate n, s.length) := by
  have hne : s ≠ [] := by
    rintro rfl
    cases h
  have hused := (strto_used_iff hne).mpr ⟨n, h⟩
  rw [strtol, saturate, cStr_numeral h, hused, strto_numeral h]

/-- `strtol` reads a text to its end only when the text is one number. -/
theorem strtol_used_iff {s : Str} (hne : s ≠ []) :
    (strtol s).2 = s.length ↔ ∃ n, numeral s = some n := by
  constructor
  · intro h
    have hused : (strto 10 (cStr s)).used = s.length := h
    have hle := strto_used_le (cStr s)
    have hpre : cStr s <+: s := List.takeWhile_prefix _
    have hstr : cStr s = s := hpre.eq_of_length (by have := hpre.length_le; omega)
    rw [hstr] at hused
    exact (strto_used_iff hne).mp hused
  · rintro ⟨n, hn⟩
    rw [strtol_numeral hn]

end Cpp
