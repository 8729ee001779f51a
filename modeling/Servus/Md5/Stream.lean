import Servus.Md5.Rounds

/-!
# Digests of streams

A context absorbs its input. `Represents` ties one to what the definition of the digest has of the
bytes so far, and `update_represents` says that a call of `update` keeps the tie: it never reads or
writes out of bounds, and leaves aside what the memory held before `init`.
-/

namespace Servus.Md5

open Cpp Spec

/-! ## Bytes -/

theorem wordBytes_eq (w : UInt32) : wordBytes w = leBytes 4 w.toNat := by
  have hbyte : ∀ v : UInt32, (v &&& 0xff).toUInt8 = UInt8.ofNat v.toNat := by
    intro v
    apply UInt8.toNat_inj.mp
    simp [Nat.and_two_pow_sub_one_eq_mod _ 8]
  simp [wordBytes, leBytes, List.range, List.range.loop, hbyte, Nat.shiftRight_eq_div_pow]

theorem memcpy_ok {n : Nat} (output : Bytes n) (start : Nat) {input : List UInt8}
    (h : start + input.length ≤ n) :
    ∃ b, memcpy output start input = .ok b ∧
      b.1 = output.1.take start ++ input ++ output.1.drop (start + input.length) :=
  ⟨_, dif_pos h, rfl⟩

theorem readBytes_ok {input : List UInt8} {len : Nat} (h : len ≤ input.length) :
    readBytes input len = .ok (input.take len) := if_pos h

/-- Only the first 64 bytes of an array are compressed. -/
theorem compress_take (s : Words) (block : List UInt8) :
    compress s (block.take 64) = compress s block := by
  have hx : ∀ i < 16, blockWord (block.take 64) i = blockWord block i := by
    intro i hi
    rw [blockWord, blockWord, leWord, leWord, List.drop_take, List.take_take,
      Nat.min_eq_left (by omega)]
  rw [compress, compress, foldl_step_congr (fun _ _ => rfl) hx]

namespace MD5

/-! ## The number of bits -/

/-- The number of bits so far, modulo `2 ^ 64`. -/
def bits (m : MD5) : Nat := m.count0.toNat + 2 ^ 32 * m.count1.toNat

theorem bits_addCount (m : MD5) (n : Nat) :
    (m.addCount n).bits = (m.bits + 8 * (n % 2 ^ 32)) % 2 ^ 64 := by
  have h0 := m.count0.toNat_lt
  have h1 := m.count1.toNat_lt
  unfold bits addCount
  dsimp only
  split
  all_goals
    rename_i hcarry
    rw [UInt32.lt_iff_toNat_lt] at hcarry
    simp [Nat.shiftLeft_eq, Nat.shiftRight_eq_div_pow] at *
    omega

theorem bufferIndex_eq (m : MD5) : m.bufferIndex = m.bits / 8 % 64 := by
  have hindex : m.bufferIndex = m.count0.toNat / 8 % 64 := by
    simp [bufferIndex, Nat.and_two_pow_sub_one_eq_mod _ 6, Nat.shiftRight_eq_div_pow]
  rw [hindex, bits]
  omega

theorem bufferIndex_addCount (m : MD5) (n : Nat) :
    (m.addCount n).bufferIndex = (m.bufferIndex + n) % 64 := by
  rw [bufferIndex_eq, bufferIndex_eq, bits_addCount]
  omega

/-- The length field of the padding. -/
theorem encode_count (m : MD5) : encode [m.count0, m.count1] = leBytes 8 m.bits := by
  have h0 := m.count0.toNat_lt
  have hlow : ∀ i < 4, UInt8.ofNat (m.count0.toNat / 256 ^ i) = UInt8.ofNat (m.bits / 256 ^ i) := by
    intro i hi
    apply UInt8.toNat_inj.mp
    simp only [bits, UInt8.toNat_ofNat']
    interval_cases i <;> omega
  have hhigh : ∀ i < 4,
      UInt8.ofNat (m.count1.toNat / 256 ^ i) = UInt8.ofNat (m.bits / 256 ^ (4 + i)) := by
    intro i hi
    apply UInt8.toNat_inj.mp
    simp only [bits, UInt8.toNat_ofNat']
    interval_cases i <;> omega
  simp only [encode, List.flatMap_cons, List.flatMap_nil, List.append_nil, wordBytes_eq, leBytes]
  rw [show 8 = 4 + 4 from rfl, List.range_add, List.map_append, List.map_map]
  congr 1
  · exact List.map_congr_left fun i hi => hlow i (List.mem_range.mp hi)
  · exact List.map_congr_left fun i hi => hhigh i (List.mem_range.mp hi)

/-! ## The context of a stream -/

/-- The context has absorbed what `b` has: the state and the waiting bytes are those of `b`. -/
structure Represents (m : MD5) (b : Absorbed Words UInt8 64) : Prop where
  finalized : m.finalized = false
  state : m.state = b.state
  index : m.bufferIndex = b.rest.length
  buffer : m.buffer.1.take b.rest.length = b.rest

theorem represents_init (buffer : Bytes 64) (digest : Bytes 16) :
    (init buffer digest).Represents fresh :=
  ⟨rfl, rfl, by simp [bufferIndex, init, fresh], rfl⟩

/-- The loop over the input takes it in blocks up to a rest. -/
theorem transformPieces_ok {m : MD5} (hm : m.finalized = false) {input : List UInt8} {start : Nat}
    (h : start ≤ input.length) :
    ∃ s i, m.transformPieces input start = .ok ({ m with state := s }, i) ∧ i ≤ input.length ∧
      ∃ hlt, (⟨m.state, [], by decide⟩ : Absorbed Words UInt8 64).absorb compress
        (input.drop start) = ⟨s, input.drop i, hlt⟩ := by
  let inv (p : MD5 × Nat) : Prop := ∃ s, p.1 = { m with state := s } ∧ p.2 ≤ input.length ∧
    (⟨s, [], by decide⟩ : Absorbed Words UInt8 64).absorb compress (input.drop p.2) =
      (⟨m.state, [], by decide⟩ : Absorbed Words UInt8 64).absorb compress (input.drop start)
  have hstep : ∀ p, inv p → decide (p.2 + 63 < input.length) = true →
      ∃ q, (p.1.transform (input.drop p.2)).map (·, p.2 + 64) = .ok q ∧ inv q ∧
        input.length - q.2 < input.length - p.2 := by
    -- one piece of 64 bytes is one block
    rintro ⟨m', i⟩ ⟨s, hs, hi, habs⟩ hcond
    obtain rfl : m' = { m with state := s } := hs
    have hlen : i + 63 < input.length := by simpa using hcond
    have hblock : 64 ≤ (input.drop i).length := by rw [List.length_drop]; omega
    refine ⟨({ m with state := compress s (input.drop i) }, i + 64), ?_, ⟨_, rfl, ?_, ?_⟩, ?_⟩
    · rw [transform_eq (m := { m with state := s }) hm hblock]
      rfl
    · dsimp only; omega
    · rw [← habs]
      conv_rhs => rw [← List.take_append_drop 64 (input.drop i), Absorbed.absorb_append,
        Absorbed.absorb_block compress (by rw [List.length_take]; omega), List.drop_drop,
        compress_take]
    · dsimp only; omega
  obtain ⟨⟨m', i⟩, hloop, ⟨s, hs, hi, habs⟩, hend⟩ := whileLoop_spec Fault.fuel
    (fun p : MD5 × Nat => decide (p.2 + 63 < input.length)) _ inv
    (fun p => input.length - p.2) hstep input.length (m, start) ⟨m.state, rfl, h, rfl⟩
    (Nat.sub_le _ _)
  obtain rfl : m' = { m with state := s } := hs
  have hrest : input.length ≤ i + 63 := by simpa using hend
  have hlt : (input.drop i).length < 64 := by rw [List.length_drop]; omega
  refine ⟨s, i, hloop, hi, hlt, ?_⟩
  rw [← habs, Absorbed.absorb_of_lt compress (by simpa using hlt)]
  rfl

/-- A short input is put into the buffer. -/
theorem update_of_lt {m : MD5} (hm : m.finalized = false) {input : List UInt8}
    (h : m.bufferIndex + input.length < 64) :
    ∃ buffer : Bytes 64,
      m.update input = .ok { m.addCount input.length with buffer := buffer } ∧
      buffer.1 = m.buffer.1.take m.bufferIndex ++ input ++
        m.buffer.1.drop (m.bufferIndex + input.length) := by
  obtain ⟨buffer, hcpy, hbuffer⟩ := memcpy_ok m.buffer m.bufferIndex h.le
  refine ⟨buffer, ?_, hbuffer⟩
  have hspace : ¬ input.length ≥ 64 - m.bufferIndex := by omega
  have hcpy' : memcpy (m.addCount input.length).buffer m.bufferIndex input = .ok buffer := hcpy
  simp only [update, hm, Bool.false_eq_true, ↓reduceIte, hspace, pure, Except.pure, bind,
    Except.bind, List.drop_zero, hcpy']

/-- A longer one fills the buffer first; its last bytes are put into it. -/
theorem update_of_ge {m : MD5} (hm : m.finalized = false) {input : List UInt8}
    (hindex : m.bufferIndex < 64) (h : 64 ≤ m.bufferIndex + input.length) :
    ∃ (s : Words) (i : Nat) (buffer : Bytes 64),
      m.update input = .ok { m.addCount input.length with state := s, buffer := buffer } ∧
      buffer.1 = input.drop i ++ (m.buffer.1.take m.bufferIndex ++
        input.take (64 - m.bufferIndex)).drop (input.drop i).length ∧
      ∃ hlt, (⟨compress m.state (m.buffer.1.take m.bufferIndex ++
          input.take (64 - m.bufferIndex)), [], by decide⟩ : Absorbed Words UInt8 64).absorb
        compress (input.drop (64 - m.bufferIndex)) = ⟨s, input.drop i, hlt⟩ := by
  have hspace : input.length ≥ 64 - m.bufferIndex := by omega
  have hread := readBytes_ok hspace
  have htake : (input.take (64 - m.bufferIndex)).length = 64 - m.bufferIndex := by
    rw [List.length_take]; omega
  have hend : m.bufferIndex + (input.take (64 - m.bufferIndex)).length ≤ 64 := by omega
  obtain ⟨full, hcpy, hfull⟩ := memcpy_ok m.buffer m.bufferIndex hend
  have hblock : full.1 = m.buffer.1.take m.bufferIndex ++ input.take (64 - m.bufferIndex) := by
    rw [hfull, htake, List.drop_of_length_le (by rw [m.buffer.2]; omega), List.append_nil]
  unfold update
  -- the count does not change what is absorbed
  have hstate : (m.addCount input.length).state = m.state := rfl
  have hbuf : (m.addCount input.length).buffer = m.buffer := rfl
  have hfin : (m.addCount input.length).finalized = false := hm
  generalize m.addCount input.length = c at hstate hbuf hfin ⊢
  have htransform := transform_eq (m := { c with buffer := full }) hfin full.2.ge
  obtain ⟨s, i, hpieces, hi, hlt, habs⟩ := transformPieces_ok
    (m := { c with state := compress c.state full.1, buffer := full }) hfin hspace
  have hlast : 0 + (input.drop i).length ≤ 64 := by omega
  obtain ⟨buffer, hlast, hbuffer⟩ := memcpy_ok full 0 hlast
  refine ⟨s, i, buffer, ?_, ?_, hlt, ?_⟩
  · simp only [hm, Bool.false_eq_true, ↓reduceIte, hspace, pure, Except.pure, bind,
      Except.bind, hread, hbuf, hcpy, htransform, hpieces, hlast]
  · rw [hbuffer, List.take_zero, List.nil_append, Nat.zero_add, hblock]
  · rw [← hblock, ← hstate]
    exact habs

/-- **A call of `update` absorbs its input.** When the input fills a block, the block stays in the
buffer. -/
theorem update_represents {m : MD5} {b : Absorbed Words UInt8 64} (h : m.Represents b)
    (input : List UInt8) :
    ∃ m', m.update input = .ok m' ∧ m'.Represents (b.absorb compress input) ∧
      m'.bits = (m.bits + 8 * (input.length % 2 ^ 32)) % 2 ^ 64 ∧
      (b.rest.length + input.length = 64 → m'.buffer.1 = b.rest ++ input) := by
  have hlt := b.rest_lt
  have hindex := bufferIndex_addCount m input.length
  have hrest := Absorbed.length_rest_absorb compress b input
  rw [← h.index] at hlt hrest
  by_cases hshort : m.bufferIndex + input.length < 64
  · obtain ⟨buffer, hupdate, hbuffer⟩ := update_of_lt h.finalized hshort
    have hshort' : b.rest.length + input.length < 64 := h.index ▸ hshort
    refine ⟨_, hupdate, ?_, bits_addCount m input.length, fun hfill => by omega⟩
    rw [Absorbed.absorb_of_lt compress hshort'] at hrest ⊢
    refine ⟨h.finalized, h.state, hindex.trans hrest.symm, ?_⟩
    dsimp only
    rw [hbuffer, h.index, h.buffer]
    exact List.take_left
  · obtain ⟨s, i, buffer, hupdate, hbuffer, hlt', habs⟩ :=
      update_of_ge h.finalized hlt (Nat.not_lt.mp hshort)
    have hfull : b.absorb compress input = ⟨s, input.drop i, hlt'⟩ := by
      have hfill : b.rest.length + (input.take (64 - b.rest.length)).length = 64 := by
        rw [← h.index, List.length_take]
        omega
      rw [← habs, h.index, h.buffer, h.state]
      conv_lhs => rw [← List.take_append_drop (64 - b.rest.length) input, Absorbed.absorb_append,
        Absorbed.absorb_fill compress hfill]
    rw [h.index, h.buffer] at hbuffer
    rw [hfull] at hrest ⊢
    refine ⟨_, hupdate, ⟨h.finalized, rfl, hindex.trans hrest.symm, ?_⟩,
      bits_addCount m input.length, fun hfill => ?_⟩
    · dsimp only
      rw [hbuffer, List.take_left]
    · have hnil : input.drop i = [] := by
        have hidx := h.index
        have hlen : (input.drop i).length = (m.bufferIndex + input.length) % 64 := hrest
        rw [← List.length_eq_zero_iff, hlen]
        omega
      dsimp only
      rw [hbuffer, hnil, List.take_of_length_le (by omega)]
      rfl

end MD5

end Servus.Md5
