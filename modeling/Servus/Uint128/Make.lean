import Servus.Md5.Digest
import Servus.Uint128.Text

/-!
# `make_uint128` (`servus/uint128_t.cpp`)

The value of a text is its MD5 digest, the first byte highest. `make_uint128_digest` says so for
every text of less than 2^32 bytes (`MD5::update` counts them in 32 bits), and for every text that
`hex_digest` writes the same value: with a `:` behind the 16th digit, `operator=` reads it back.
-/

namespace Servus.Uint128

open Cpp Md5

/-- The bytes of a string. -/
def stringBytes (s : Str) : List UInt8 := s.map fun c => UInt8.ofNat c.toNat

/-- `make_uint128(const char*)`; `buffer` and `digest` are what the memory of the context holds. -/
def makeUint128 (buffer : Bytes 64) (digest : Bytes 16) (string : Str) :
    Except Fault UInt128 := do
  let md5 ← MD5.ofString buffer digest (stringBytes (cStr string))
  let (high, low) := md5.rawDigest
  pure ⟨high, low⟩

/-! ## The digest as a number -/

/-- The number of a list of bytes, the first byte highest. -/
def beNat (bytes : List UInt8) : Nat := bytes.foldl (fun n byte => n * 256 + byte.toNat) 0

theorem beNat_append (bytes : List UInt8) (byte : UInt8) :
    beNat (bytes ++ [byte]) = beNat bytes * 256 + byte.toNat := by simp [beNat]

theorem beNat_add (l l' : List UInt8) : beNat (l ++ l') = beNat l * 256 ^ l'.length + beNat l' := by
  induction l' using List.reverseRecOn with
  | nil => simp [beNat]
  | append_singleton l' byte ih =>
    rw [← List.append_assoc, beNat_append, ih, beNat_append, List.length_append,
      List.length_singleton, pow_succ]
    ring

theorem beNat_lt (bytes : List UInt8) : beNat bytes < 256 ^ bytes.length := by
  induction bytes using List.reverseRecOn with
  | nil => decide
  | append_singleton bytes byte ih =>
    have hbyte := byte.toNat_lt
    rw [beNat_append, List.length_append, List.length_singleton, pow_succ]
    omega

/-- The eight bytes of a word of `raw_digest`. -/
theorem toNat_word (b0 b1 b2 b3 b4 b5 b6 b7 : UInt8) :
    (b7.toUInt64 <<< 0 ||| b6.toUInt64 <<< 8 ||| b5.toUInt64 <<< 16 ||| b4.toUInt64 <<< 24 |||
      b3.toUInt64 <<< 32 ||| b2.toUInt64 <<< 40 ||| b1.toUInt64 <<< 48 |||
      b0.toUInt64 <<< 56).toNat = beNat [b0, b1, b2, b3, b4, b5, b6, b7] := by
  have hshift : ∀ (b : UInt8) {n : Nat}, n ≤ 56 →
      b.toNat <<< n % 18446744073709551616 = b.toNat <<< n := by
    intro b n hn
    have hb : b.toNat < 2 ^ 8 := b.toNat_lt
    have hpow : (2 : Nat) ^ n ≤ 2 ^ 56 := Nat.pow_le_pow_right (by decide) hn
    rw [Nat.shiftLeft_eq]
    exact Nat.mod_eq_of_lt (Nat.mul_lt_mul_of_lt_of_le hb hpow (by positivity))
  have h0 := b0.toNat_lt
  have h1 := b1.toNat_lt
  have h2 := b2.toNat_lt
  have h3 := b3.toNat_lt
  have h4 := b4.toNat_lt
  have h5 := b5.toNat_lt
  have h6 := b6.toNat_lt
  have h7 := b7.toNat_lt
  simp only [UInt64.toNat_or, UInt64.toNat_shiftLeft, UInt8.toNat_toUInt64, UInt64.toNat_ofNat,
    Nat.reduceMod, Nat.reducePow, Nat.shiftLeft_zero, hshift b6 (n := 8) (by decide),
    hshift b5 (n := 16) (by decide), hshift b4 (n := 24) (by decide),
    hshift b3 (n := 32) (by decide), hshift b2 (n := 40) (by decide),
    hshift b1 (n := 48) (by decide), hshift b0 (n := 56) (by decide)]
  rw [Nat.mod_eq_of_lt (by omega)]
  -- each byte stands above those before it
  rw [or_shiftLeft_eq_add b6.toNat (by omega), or_shiftLeft_eq_add b5.toNat (by omega),
    or_shiftLeft_eq_add b4.toNat (by omega), or_shiftLeft_eq_add b3.toNat (by omega),
    or_shiftLeft_eq_add b2.toNat (by omega), or_shiftLeft_eq_add b1.toNat (by omega),
    or_shiftLeft_eq_add b0.toNat (by omega)]
  simp only [beNat, List.foldl_cons, List.foldl_nil]
  omega

theorem range_map_getD {l : List UInt8} {n : Nat} (h : n ≤ l.length) :
    (List.range n).map (l.getD · 0) = l.take n := by
  refine List.ext_getElem (by simp [h]) fun i hi _ => ?_
  have hi : i < n := by simpa using hi
  simp [List.getD_eq_getElem?_getD, List.getElem?_eq_getElem (show i < l.length by omega)]

/-- `raw_digest` gives the halves of the digest. -/
theorem toNat_rawDigest (m : MD5) :
    toNat ⟨m.rawDigest.1, m.rawDigest.2⟩ = beNat m.digest.1 := by
  have hlen := m.digest.2
  have hhigh := range_map_getD (l := m.digest.1) (n := 8) (by omega)
  have hlow := range_map_getD (l := m.digest.1.drop 8) (n := 8) (by rw [List.length_drop]; omega)
  have hdrop : (m.digest.1.drop 8).take 8 = m.digest.1.drop 8 :=
    List.take_of_length_le (by rw [List.length_drop]; omega)
  have hall : m.digest.1 = m.digest.1.take 8 ++ (m.digest.1.drop 8).take 8 := by
    rw [hdrop, List.take_append_drop]
  rw [hall, ← hhigh, ← hlow, toNat, MD5.rawDigest, toNat_word, toNat_word]
  simp [beNat, List.range, List.range.loop, Nat.add_mul, Nat.mul_assoc]
  omega

/-! ## The digits of the digest -/

theorem sprintf02x_eq (byte : UInt8) :
    sprintf02x byte = [(byte.toNat / 16).digitChar, (byte.toNat % 16).digitChar] := by
  have hbyte := byte.toNat_lt
  rw [sprintf02x, Nat.toDigits_eq_if (by decide)]
  split
  · rename_i hlt
    rw [Nat.div_eq_of_lt hlt, Nat.mod_eq_of_lt hlt]
    rfl
  · rw [Nat.toDigits_of_lt_base (by omega)]
    rfl

theorem digitsVal_hex (bytes : List UInt8) :
    digitsVal 16 (bytes.flatMap sprintf02x) = beNat bytes := by
  induction bytes using List.reverseRecOn with
  | nil => rfl
  | append_singleton bytes byte ih =>
    have hbyte := byte.toNat_lt
    have hsplit : (bytes ++ [byte]).flatMap sprintf02x = bytes.flatMap sprintf02x ++
        [(byte.toNat / 16).digitChar] ++ [(byte.toNat % 16).digitChar] := by
      simp [sprintf02x_eq]
    rw [hsplit, digitsVal_append, digitsVal_append, ih, beNat_append,
      digitVal_digitChar (by omega), digitVal_digitChar (by omega)]
    simp only [Option.getD_some]
    omega

theorem isDigitOf_hex {bytes : List UInt8} {c : Char} (h : c ∈ bytes.flatMap sprintf02x) :
    isDigitOf 16 c = true := by
  obtain ⟨byte, -, hc⟩ := List.mem_flatMap.mp h
  have hbyte := byte.toNat_lt
  have hdigit : ∀ d < 16, isDigitOf 16 d.digitChar = true := fun d hd => by
    simp [isDigitOf, digitVal_digitChar hd, hd]
  rw [sprintf02x_eq] at hc
  obtain rfl | hc := List.mem_cons.mp hc
  · exact hdigit _ (by omega)
  · rw [List.mem_singleton.mp hc]
    exact hdigit _ (by omega)

theorem length_hex (bytes : List UInt8) :
    (bytes.flatMap sprintf02x).length = 2 * bytes.length := by
  induction bytes with
  | nil => rfl
  | cons byte bytes ih =>
    rw [List.flatMap_cons, List.length_append, ih, sprintf02x_eq, List.length_cons]
    simp only [List.length_cons, List.length_nil]
    omega

/-- `strtoull` reads the digits of up to eight bytes, with their leading zeros. -/
theorem strtoull_hex {bytes : List UInt8} (hne : bytes ≠ []) (hlen : bytes.length ≤ 8) (rest : Str)
    (hrest : Stops rest) (hnul : '\x00' ∉ rest) :
    let ds := bytes.flatMap sprintf02x
    strtoull (ds ++ rest) = (UInt64.ofNat (beNat bytes), ds.length) ∧
      cStr (ds ++ rest) = ds ++ rest := by
  intro ds
  have hds : ∀ c ∈ ds, isDigitOf 16 c = true := fun _ => isDigitOf_hex
  have hcstr : cStr (ds ++ rest) = ds ++ rest := by
    refine cStr_eq_self_iff.mpr fun hc => ?_
    obtain hc | hc := List.mem_append.mp hc
    · exact ne_of_isDigitOf (hds _ hc) (d := '\x00') (by decide) rfl
    · exact hnul hc
  have hpos : ds ≠ [] := by
    have hlen := List.length_pos_iff.mpr hne
    rw [← List.length_pos_iff, length_hex]
    omega
  have hsmall : beNat bytes < 2 ^ 64 := by
    have hpow : 256 ^ bytes.length ≤ 256 ^ 8 := Nat.pow_le_pow_right (by decide) hlen
    have hlt := beNat_lt bytes
    omega
  have hto := strto_eq 16 [] rest hpos hds (by simp)
    (by simpa using hexMarker_append (.inl rfl) hpos hds hrest) fun c hc => (hrest c hc).1
  refine ⟨?_, hcstr⟩
  simp only [List.nil_append, List.length_nil, Nat.zero_add] at hto
  simp only [strtoull, hcstr, hto, ds, digitsVal_hex, show ¬ 2 ^ 64 ≤ beNat bytes by omega,
    Bool.false_eq_true, ↓reduceIte]

/-- The digits of 16 bytes with a `:` between them are a text of their value. -/
theorem assign_hex {bytes : List UInt8} (hlen : bytes.length = 16) {v : UInt128}
    (hv : toNat v = beNat bytes) :
    assign ((bytes.flatMap sprintf02x).take 16 ++ ":".toList ++
      (bytes.flatMap sprintf02x).drop 16) = .ok v := by
  have hbytes : bytes = bytes.take 8 ++ bytes.drop 8 := (List.take_append_drop 8 bytes).symm
  have hhi : (bytes.take 8).length = 8 := by rw [List.length_take]; omega
  have hlo : (bytes.drop 8).length = 8 := by rw [List.length_drop]; omega
  generalize bytes.take 8 = hi at hbytes hhi
  generalize bytes.drop 8 = lo at hbytes hlo
  subst hbytes
  have hne : ∀ {l : List UInt8}, l.length = 8 → l ≠ [] := by
    rintro _ h rfl
    cases h
  have hhilen : (hi.flatMap sprintf02x).length = 16 := by rw [length_hex, hhi]
  have hlolen : (lo.flatMap sprintf02x).length = 16 := by rw [length_hex, hlo]
  have hnul : '\x00' ∉ lo.flatMap sprintf02x := fun hc =>
    ne_of_isDigitOf (isDigitOf_hex hc) (d := '\x00') (by decide) rfl
  obtain ⟨htohi, hcstr⟩ := strtoull_hex (hne hhi) hhi.le
    (":".toList ++ lo.flatMap sprintf02x) (by intro c hc; cases hc; decide)
    (by simpa using hnul)
  obtain ⟨htolo, -⟩ := strtoull_hex (hne hlo) hlo.le [] (by simp [Stops]) (by simp)
  have hdrop : (hi.flatMap sprintf02x ++ (":".toList ++ lo.flatMap sprintf02x)).drop 16 =
      ":".toList ++ lo.flatMap sprintf02x := List.drop_left' hhilen
  have hsmall : ∀ {l : List UInt8}, l.length = 8 → beNat l < 2 ^ 64 := by
    intro l hl
    have hlt := beNat_lt l
    rw [hl] at hlt
    omega
  have hvalue : (⟨UInt64.ofNat (beNat hi), UInt64.ofNat (beNat lo)⟩ : UInt128) = v := by
    have hmod : ∀ {n : Nat}, n < 2 ^ 64 → (UInt64.ofNat n).toNat = n := fun h =>
      UInt64.toNat_ofNat_of_lt' h
    refine toNat_inj.mp ?_
    rw [hv, toNat, hmod (hsmall hhi), hmod (hsmall hlo), beNat_add, hlo]
    rfl
  rw [List.append_nil] at htolo
  rw [List.flatMap_append, List.take_left' hhilen, List.drop_left' hhilen, List.append_assoc,
    assign, if_neg (by simp), htohi, hcstr]
  simp only [hhilen, hdrop]
  simp [assert, List.isPrefixOf, htolo, hvalue]

/-! ## The value of a text -/

/-- **`make_uint128` gives the MD5 digest of the text**, whatever the memory holds, when the text is
shorter than 2^32 bytes; `hex_digest` writes the same value, of every text. -/
theorem make_uint128_digest (buffer : Bytes 64) (digest : Bytes 16) (string : Str) :
    ∃ m v, MD5.ofString buffer digest (stringBytes (cStr string)) = .ok m ∧
      makeUint128 buffer digest string = .ok v ∧
      (string.length < 2 ^ 32 → toNat v = beNat (Spec.digest (stringBytes (cStr string)))) ∧
      assign (m.hexDigest.take 16 ++ ":".toList ++ m.hexDigest.drop 16) = .ok v := by
  have hbytes : (stringBytes (cStr string)).length ≤ string.length := by
    rw [stringBytes, List.length_map]
    exact (List.takeWhile_prefix _).length_le
  obtain ⟨m, hm, hdone⟩ := (MD5.constructors_finished buffer digest (stringBytes (cStr string)) []
    ⟨[], true⟩).1
  refine ⟨m, ⟨m.rawDigest.1, m.rawDigest.2⟩, hm, ?_, fun hlen => ?_, ?_⟩
  · rw [makeUint128, hm]
    rfl
  · rw [toNat_rawDigest, hdone.digest_eq (by rw [Nat.mod_eq_of_lt (by omega)])]
  · rw [MD5.hexDigest, hdone.finalized]
    exact assign_hex m.digest.2 (toNat_rawDigest m)

end Servus.Uint128
