import Servus.Md5.Stream

/-!
# Digests

`calls_digest`: after any calls, the digest is that of the bytes they took before the first
`finalize`, however these are cut into calls and whatever the memory held before `init`. Streams and
files are read in pieces of 1024 bytes; `update` counts the bits with the length of its argument
cast to 32 bits, so that the digest is right for arguments of less than 4 GiB. After `finalize` the
end of the padded input is still in the buffer: `memset(buffer, 0, sizeof(*buffer))` is for one
byte.
-/

namespace Servus.Md5

open Cpp Spec

/-! ## Padding -/

theorem leBytes_mod {n v m : Nat} (h : n ≤ m) : leBytes n (v % 256 ^ m) = leBytes n v := by
  refine List.map_congr_left fun i hi => ?_
  have hi := List.mem_range.mp hi
  apply UInt8.toNat_inj.mp
  rw [UInt8.toNat_ofNat', UInt8.toNat_ofNat', show m = i + 1 + (m - (i + 1)) by omega, pow_add,
    pow_succ]
  rw [Nat.mul_assoc, Nat.mod_mul_right_div_self]
  exact Nat.mod_mod_of_dvd _ ⟨_, rfl⟩

@[simp] theorem length_leBytes (n v : Nat) : (leBytes n v).length = n := by simp [leBytes]

/-- The read of the padding in `finalize`. -/
theorem readBytes_PADDING {index : Nat} (h : index < 64) :
    readBytes MD5.PADDING (if index < 56 then 56 - index else 120 - index) =
      .ok (0x80 :: List.replicate ((119 - index) % 64) 0) := by
  have hlen : (if index < 56 then 56 - index else 120 - index) = (119 - index) % 64 + 1 := by
    split <;> omega
  rw [hlen, readBytes_ok (by simp [MD5.PADDING]; omega), MD5.PADDING, List.take_succ_cons,
    List.take_replicate, Nat.min_eq_left (by omega)]

theorem paddingWith_congr {l l' v v' : Nat} (hl : l % 64 = l' % 64)
    (hv : v % 2 ^ 64 = v' % 2 ^ 64) :
    paddingWith l v = paddingWith l' v' := by
  have hbytes : ∀ v, leBytes 8 (v % 2 ^ 64) = leBytes 8 v := fun v =>
    leBytes_mod (n := 8) (m := 8) le_rfl
  rw [paddingWith, paddingWith, hl, ← hbytes v, hv, hbytes]

theorem IStream.read_of_good {s : IStream} (h : s.good = true) (n : Nat) :
    s.read n = (s.bytes.take n, ⟨s.bytes.drop n, decide (n ≤ s.bytes.length)⟩) := if_pos h

namespace MD5

/-- **`finalize` absorbs the padding**, and gives the state as the digest. The last block stays in
the buffer, but for its first byte. -/
theorem finalize_represents {m : MD5} {b : Absorbed Words UInt8 64} (h : m.Represents b) :
    ∃ m' kept, m.finalize = .ok m' ∧ m'.finalized = true ∧
      m'.digest.1 = stateBytes (b.absorb compress (paddingWith b.rest.length m.bits)).state ∧
      m'.buffer.1 = 0 :: kept ∧ kept <:+ b.rest ++ paddingWith b.rest.length m.bits := by
  have hlt := b.rest_lt
  have hread := readBytes_PADDING hlt
  set ones := (0x80 :: List.replicate ((119 - b.rest.length) % 64) 0 : List UInt8) with hones
  have hpad : paddingWith b.rest.length m.bits = ones ++ leBytes 8 m.bits := by
    rw [paddingWith, Nat.mod_eq_of_lt hlt]
  obtain ⟨m₁, hup₁, hrep₁, -, -⟩ := update_represents h ones
  -- with the padding there are 56 bytes in the buffer, so the count ends the last block
  have hrest : (b.absorb compress ones).rest.length = 56 := by
    rw [Absorbed.length_rest_absorb, hones, List.length_cons, List.length_replicate]
    omega
  obtain ⟨m₂, hup₂, hrep₂, -, hblock⟩ := update_represents hrep₁ (leBytes 8 m.bits)
  have hblock := hblock (by rw [hrest, length_leBytes])
  have hone : 0 + (List.replicate 1 (0 : UInt8)).length ≤ 64 := by decide
  obtain ⟨buffer, hset, hbuffer⟩ := memcpy_ok m₂.buffer 0 hone
  have hstate : m₂.state = (b.absorb compress (ones ++ leBytes 8 m.bits)).state := by
    rw [Absorbed.absorb_append, hrep₂.state]
  refine ⟨{ m₂ with
      digest := ⟨encode [m₂.state.a, m₂.state.b, m₂.state.c, m₂.state.d], rfl⟩
      buffer := buffer, finalized := true },
    (((b.absorb compress ones).rest ++ leBytes 8 m.bits).drop 1), ?_, rfl, ?_, ?_, ?_⟩
  · simp only [finalize, h.finalized, Bool.false_eq_true, ↓reduceIte, h.index, hread, bind,
      Except.bind, hup₁, encode_count, hup₂, memset, hset, pure, Except.pure]
  · rw [hpad, ← hstate]
    exact congrArg (List.flatMap · _) (funext wordBytes_eq)
  · dsimp only
    rw [hbuffer, hblock]
    rfl
  · rw [hpad, ← List.append_assoc]
    refine (List.drop_suffix _ _).trans ?_
    obtain ⟨t, ht⟩ := Absorbed.rest_absorb_suffix compress b ones
    exact ⟨t, by rw [← ht, List.append_assoc]⟩

/-! ## What a context holds -/

/-- The context has absorbed `text`, and counted `n` bits. -/
structure Holds (m : MD5) (text : List UInt8) (n : Nat) : Prop where
  represents : m.Represents (fresh.absorb compress text)
  bits : m.bits % 2 ^ 64 = n % 2 ^ 64

/-- The context has the digest of `text` with the number `n`, and in its buffer, behind a zero, the
end of the padded text. -/
structure Finished (m : MD5) (text : List UInt8) (n : Nat) : Prop where
  finalized : m.finalized = true
  digest : m.digest.1 = stateBytes (stateOf (text ++ paddingWith text.length n))
  buffer : ∃ kept, m.buffer.1 = 0 :: kept ∧ kept <:+ text ++ paddingWith text.length n

theorem holds_init (buffer : Bytes 64) (digest : Bytes 16) : (init buffer digest).Holds [] 0 :=
  ⟨represents_init buffer digest, by simp [MD5.bits, init]⟩

theorem Holds.update {m : MD5} {text : List UInt8} {n : Nat} (h : m.Holds text n)
    (input : List UInt8) :
    ∃ m', m.update input = .ok m' ∧ m'.Holds (text ++ input) (n + 8 * (input.length % 2 ^ 32)) := by
  obtain ⟨m', hup, hrep, hbits, -⟩ := update_represents h.represents input
  refine ⟨m', hup, by rwa [Absorbed.absorb_append], ?_⟩
  have hm := h.bits
  rw [hbits]
  omega

/-- A piece of a stream is short, so that all of it is counted. -/
theorem Holds.update_piece {m : MD5} {text read : List UInt8} {n : Nat}
    (h : m.Holds (text ++ read) (n + 8 * read.length)) {piece : List UInt8}
    (hlen : piece.length ≤ 1024) :
    ∃ m', m.update piece = .ok m' ∧
      m'.Holds (text ++ (read ++ piece)) (n + 8 * (read ++ piece).length) := by
  obtain ⟨m', hup, hholds⟩ := h.update piece
  refine ⟨m', hup, ?_⟩
  rw [Nat.mod_eq_of_lt (by omega), Nat.add_assoc, ← Nat.mul_add] at hholds
  rwa [List.length_append, ← List.append_assoc]

theorem Holds.finalize {m : MD5} {text : List UInt8} {n : Nat} (h : m.Holds text n) :
    ∃ m', m.finalize = .ok m' ∧ m'.Finished text n := by
  obtain ⟨m', kept, hfin, hdone, hdigest, hbuffer, hkept⟩ := finalize_represents h.represents
  have hpad : paddingWith (fresh.absorb compress text).rest.length m.bits =
      paddingWith text.length n := by
    refine paddingWith_congr ?_ h.bits
    rw [Absorbed.length_rest_absorb]
    simp [fresh]
  rw [hpad, ← Absorbed.absorb_append] at hdigest
  rw [hpad] at hkept
  obtain ⟨t, ht⟩ := Absorbed.rest_absorb_suffix compress fresh text
  refine ⟨m', hfin, hdone, hdigest, kept, hbuffer, hkept.trans ⟨t, ?_⟩⟩
  rw [← List.append_assoc, ht]
  rfl

/-- With all bits counted, the digest is that of the definition. -/
theorem Finished.digest_eq {m : MD5} {text : List UInt8} {n : Nat} (h : m.Finished text n)
    (hn : n = 8 * text.length) : m.digest.1 = Spec.digest text := by
  rw [h.digest, hn]
  rfl

/-- A stream is read to its end: what each `update` with a piece of it keeps, of the context and the
bytes read, holds at the end of all bytes. -/
theorem updateIStream_spec (P : MD5 → List UInt8 → Prop)
    (step : ∀ m read piece, P m read → piece.length ≤ 1024 →
      ∃ m', m.update piece = .ok m' ∧ P m' (read ++ piece))
    {m : MD5} (h : P m []) (stream : IStream) :
    ∃ m' left, m.updateIStream stream = .ok (m', left) ∧ left.good = false ∧
      P m' (if stream.good then stream.bytes else []) := by
  let inv (s : MD5 × IStream) : Prop := ∃ read,
    read ++ (if s.2.good then s.2.bytes else []) = (if stream.good then stream.bytes else []) ∧
    P s.1 read
  let measure (s : MD5 × IStream) : Nat := s.2.bytes.length + if s.2.good then 1 else 0
  have hstep : ∀ s, inv s → s.2.good = true → ∃ s',
      (s.1.update (s.2.read 1024).1).map (·, (s.2.read 1024).2) = .ok s' ∧ inv s' ∧
        measure s' < measure s := by
    rintro ⟨m₁, ⟨bytes, good⟩⟩ ⟨read, hread, hP⟩ hgood
    obtain rfl : good = true := hgood
    obtain ⟨m₂, hup, hP₂⟩ := step m₁ read _ hP (List.length_take_le 1024 bytes)
    refine ⟨(m₂, ⟨bytes.drop 1024, decide (1024 ≤ bytes.length)⟩), ?_,
      ⟨read ++ bytes.take 1024, ?_, hP₂⟩, ?_⟩
    · rw [IStream.read_of_good rfl, hup]
      rfl
    · -- after a short read nothing is left
      rw [← hread, List.append_assoc]
      congr 1
      by_cases hle : 1024 ≤ bytes.length
      · simp [hle]
      · simp [hle, List.take_of_length_le (Nat.le_of_not_le hle)]
    · simp only [measure, ↓reduceIte, List.length_drop, decide_eq_true_eq]
      split <;> omega
  obtain ⟨⟨m', left⟩, hloop, ⟨read, hread, hP⟩, hend⟩ :=
    whileLoop_spec Fault.fuel (fun s : MD5 × IStream => s.2.good) _ inv measure hstep
      (stream.bytes.length + 1) (m, stream) ⟨[], List.nil_append _, h⟩
      (by simp only [measure]; split <;> omega)
  have hend : left.good = false := hend
  refine ⟨m', left, hloop, hend, ?_⟩
  simpa [← hread, hend] using hP

/-- A file is read to its end, in the same way. -/
theorem updateFile_spec (P : MD5 → List UInt8 → Prop)
    (step : ∀ m read piece, P m read → piece.length ≤ 1024 →
      ∃ m', m.update piece = .ok m' ∧ P m' (read ++ piece))
    {m : MD5} (h : P m []) (file : List UInt8) :
    ∃ m', m.updateFile file = .ok m' ∧ P m' file := by
  let inv (s : MD5 × List UInt8 × List UInt8) : Prop := ∃ read, read ++ s.2.1 ++ s.2.2 = file ∧
    s.2.1.length ≤ 1024 ∧ (s.2.1 = [] → s.2.2 = []) ∧ P s.1 read
  have htake : ∀ l : List UInt8, l.take 1024 = [] → l.drop 1024 = [] := by
    intro l hl
    obtain hl | hl := List.take_eq_nil_iff.mp hl
    · cases hl
    · rw [hl, List.drop_nil]
  have hstep : ∀ s, inv s → (s.2.1.length != 0) = true → ∃ s',
      (s.1.update s.2.1).map (·, s.2.2.take 1024, s.2.2.drop 1024) = .ok s' ∧ inv s' ∧
        (s'.2.1 ++ s'.2.2).length < (s.2.1 ++ s.2.2).length := by
    rintro ⟨m₁, buf, rest⟩ ⟨read, hread, hbuf, -, hP⟩ hs
    obtain ⟨m₂, hup, hP₂⟩ := step m₁ read buf hP hbuf
    refine ⟨(m₂, rest.take 1024, rest.drop 1024), ?_,
      ⟨read ++ buf, ?_, List.length_take_le _ _, htake rest, hP₂⟩, ?_⟩
    · rw [hup]
      rfl
    · dsimp only at hread ⊢
      rw [← hread, List.append_assoc (read ++ buf), List.take_append_drop]
    · have hpos : buf.length ≠ 0 := by simpa using hs
      dsimp only
      rw [List.take_append_drop, List.length_append]
      omega
  obtain ⟨⟨m', buf, rest⟩, hloop, ⟨read, hread, -, hnil, hP⟩, hend⟩ :=
    whileLoop_spec Fault.fuel (fun s : MD5 × List UInt8 × List UInt8 => s.2.1.length != 0) _ inv
      (fun s => (s.2.1 ++ s.2.2).length) hstep file.length
      (m, file.take 1024, file.drop 1024)
      ⟨[], by rw [List.nil_append, List.take_append_drop], List.length_take_le _ _, htake file, h⟩
      (by rw [List.take_append_drop])
  obtain rfl : buf = [] := by simpa using hend
  obtain rfl : rest = [] := hnil rfl
  obtain rfl : read = file := by simpa using hread
  exact ⟨m', by rw [updateFile, hloop]; rfl, hP⟩

/-! ## Calls -/

/-- A call on a context. -/
inductive Call where
  | update (input : List UInt8)
  | updateIStream (stream : IStream)
  | updateFile (file : List UInt8)
  | finalize
  deriving DecidableEq

/-- The bytes that a call takes. -/
def Call.text : Call → List UInt8
  | .update input => input
  | .updateIStream stream => if stream.good then stream.bytes else []
  | .updateFile file => file
  | .finalize => []

/-- The number of bits that a call counts: the length of the argument of `update` is cast to 32
bits. -/
def Call.bits : Call → Nat
  | .update input => 8 * (input.length % 2 ^ 32)
  | c => 8 * c.text.length

def Call.isUpdate : Call → Bool
  | .finalize => false
  | _ => true

/-- A call. -/
def call (m : MD5) : Call → Except Fault MD5
  | .update input => m.update input
  | .updateIStream stream => (m.updateIStream stream).map (·.1)
  | .updateFile file => m.updateFile file
  | .finalize => m.finalize

theorem Holds.call {m : MD5} {text : List UInt8} {n : Nat} (h : m.Holds text n) {c : Call}
    (hc : c.isUpdate = true) :
    ∃ m', m.call c = .ok m' ∧ m'.Holds (text ++ c.text) (n + c.bits) := by
  let P (m' : MD5) (read : List UInt8) : Prop := m'.Holds (text ++ read) (n + 8 * read.length)
  have hstep : ∀ m' read piece, P m' read → piece.length ≤ 1024 →
      ∃ m'', m'.update piece = .ok m'' ∧ P m'' (read ++ piece) :=
    fun _ _ _ hread hlen => Holds.update_piece hread hlen
  have hstart : P m [] := by simpa [P] using h
  cases c with
  | update input => exact h.update input
  | updateIStream stream =>
    obtain ⟨m', left, hup, -, hholds⟩ := updateIStream_spec P hstep hstart stream
    exact ⟨m', by rw [MD5.call, hup]; rfl, hholds⟩
  | updateFile file => exact updateFile_spec P hstep hstart file
  | finalize => cases hc

/-- The constructors with an argument finish its digest. -/
theorem constructors_finished (buffer : Bytes 64) (digest : Bytes 16) (string file : List UInt8)
    (stream : IStream) :
    (∃ m, ofString buffer digest string = .ok m ∧
      m.Finished string (8 * (string.length % 2 ^ 32))) ∧
    (∃ m, ofIStream buffer digest stream = .ok m ∧
      m.Finished (Call.updateIStream stream).text (Call.updateIStream stream).bits) ∧
    ∃ m, ofFile buffer digest file = .ok m ∧ m.Finished file (8 * file.length) := by
  have hinit := holds_init buffer digest
  have hfinish : ∀ c : Call, c.isUpdate = true →
      ∃ m, ((init buffer digest).call c >>= finalize) = .ok m ∧ m.Finished c.text c.bits := by
    intro c hc
    obtain ⟨m₁, hcall, hholds⟩ := hinit.call hc
    rw [List.nil_append, Nat.zero_add] at hholds
    rw [hcall]
    exact hholds.finalize
  refine ⟨hfinish (.update string) rfl, ?_, hfinish (.updateFile file) rfl⟩
  obtain ⟨m, hm, hdone⟩ := hfinish (.updateIStream stream) rfl
  refine ⟨m, ?_, hdone⟩
  rw [← hm, ofIStream, MD5.call]
  cases (init buffer digest).updateIStream stream <;> rfl

/-- A finalized context stays as it is. -/
theorem call_of_finalized {m : MD5} (h : m.finalized = true) (c : Call) : m.call c = .ok m := by
  have hup : ∀ input, m.update input = .ok m := fun input => by rw [update, if_pos h]
  have hstep : ∀ (m' : MD5) (read piece : List UInt8), m' = m → piece.length ≤ 1024 →
      ∃ m'', m'.update piece = .ok m'' ∧ m'' = m := fun _ _ piece hm _ => ⟨m, hm ▸ hup piece, rfl⟩
  cases c with
  | update input => exact hup input
  | updateIStream stream =>
    obtain ⟨m', left, hloop, -, rfl⟩ := updateIStream_spec (fun m' _ => m' = m) hstep rfl stream
    rw [MD5.call, hloop]
    rfl
  | updateFile file =>
    obtain ⟨m', hloop, rfl⟩ := updateFile_spec (fun m' _ => m' = m) hstep rfl file
    exact hloop
  | finalize => rw [MD5.call, MD5.finalize, if_pos h]

theorem calls_of_finalized {m : MD5} (h : m.finalized = true) (calls : List Call) :
    calls.foldlM call m = .ok m := by
  induction calls with
  | nil => rfl
  | cons c calls ih =>
    rw [List.foldlM_cons, call_of_finalized h]
    exact ih

/-- After any calls, a context holds what they have taken, or is finished with what they had taken
before the first `finalize`. -/
theorem Holds.calls {m : MD5} {text : List UInt8} {n : Nat} (h : m.Holds text n)
    (calls : List Call) :
    ∃ m', calls.foldlM MD5.call m = .ok m' ∧
      (let before := calls.takeWhile Call.isUpdate
      if .finalize ∈ calls then
        m'.Finished (text ++ before.flatMap Call.text) (n + (before.map Call.bits).sum)
      else m'.finalized = false) := by
  induction calls generalizing m text n with
  | nil => exact ⟨m, rfl, h.represents.finalized⟩
  | cons c calls ih =>
    cases hc : c.isUpdate with
    | true =>
      obtain ⟨m₁, hcall, hholds⟩ := h.call hc
      obtain ⟨m', hcalls, hends⟩ := ih hholds
      refine ⟨m', ?_, ?_⟩
      · rw [List.foldlM_cons, hcall]
        exact hcalls
      · have hne : Call.finalize ≠ c := by rintro rfl; cases hc
        simpa [hc, hne, Nat.add_assoc] using hends
    | false =>
      obtain rfl : c = .finalize := by cases c <;> first | rfl | cases hc
      obtain ⟨m₁, hfin, hdone⟩ := h.finalize
      refine ⟨m₁, ?_, by simpa [Call.isUpdate] using hdone⟩
      rw [List.foldlM_cons, show m.call .finalize = .ok m₁ from hfin]
      exact calls_of_finalized hdone.finalized calls

/-- The bits of calls whose arguments are each shorter than 2^32 bytes are all counted. -/
theorem sum_bits_of_lt {calls : List Call}
    (h : ∀ input, .update input ∈ calls → input.length < 2 ^ 32) :
    (calls.map Call.bits).sum = 8 * (calls.flatMap Call.text).length := by
  induction calls with
  | nil => rfl
  | cons c calls ih =>
    have hc : c.bits = 8 * c.text.length := by
      cases c with
      | update input => exact congrArg (8 * ·) (Nat.mod_eq_of_lt (h input List.mem_cons_self))
      | _ => rfl
    have hcalls := ih fun input hmem => h input (List.mem_cons_of_mem _ hmem)
    rw [List.map_cons, List.sum_cons, List.flatMap_cons, List.length_append, Nat.mul_add, hcalls,
      hc]

/-- **Any calls, in any order, never fail**, and the digest is that of what they took before the
first `finalize`: it does not depend on how that is cut into calls, nor on what the memory held
before. The number of bits in it is the one that was counted. Of the buffer, `finalize` clears one
byte; the end of the padded text stays in it. -/
theorem calls_digest (buffer : Bytes 64) (digest : Bytes 16) (calls : List Call) :
    ∃ m, calls.foldlM call (init buffer digest) = .ok m ∧
      (m.finalized = true ↔ .finalize ∈ calls) ∧ (m.finalized = true →
        let before := calls.takeWhile Call.isUpdate
        let text := before.flatMap Call.text
        let padded := text ++ paddingWith text.length (before.map Call.bits).sum
        m.digest.1 = stateBytes (stateOf padded) ∧
        ((∀ input, .update input ∈ before → input.length < 2 ^ 32) →
          m.digest.1 = Spec.digest text) ∧
        ∃ kept, m.buffer.1 = 0 :: kept ∧ kept <:+ padded) := by
  obtain ⟨m, hcalls, hends⟩ := (holds_init buffer digest).calls calls
  refine ⟨m, hcalls, ?_⟩
  by_cases hmem : Call.finalize ∈ calls
  · rw [if_pos hmem, List.nil_append, Nat.zero_add] at hends
    refine ⟨iff_of_true hends.finalized hmem, fun _ => ⟨hends.digest, fun hlen => ?_, hends.buffer⟩⟩
    exact hends.digest_eq (sum_bits_of_lt hlen)
  · rw [if_neg hmem] at hends
    have hnot : ¬ m.finalized = true := by rw [hends]; decide
    exact ⟨iff_of_false hnot hmem, fun hdone => absurd hdone hnot⟩

end MD5

end Servus.Md5
