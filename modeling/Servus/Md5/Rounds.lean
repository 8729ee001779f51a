import Servus.Math.Sine
import Servus.Md5.Spec

/-!
# `transform` is the compression of MD5

The source writes the 64 steps out, each with its own constants, and moves the roles of `a`, `b`,
`c` and `d` where the definition moves the words. `transform_eq`: on a block of 64 bytes it computes
`Spec.compress`. `constants_eq_sine` says that the 64 numbers in it are the digits of the sine;
their check is a computation with integers (`sineOk`).
-/

namespace Servus.Md5

open Cpp Spec

/-! ## Steps -/

theorem rotateLeft_eq_rotl (x : UInt32) {n : Nat} (h0 : 0 < n) (h : n < 32) :
    rotateLeft x (UInt32.ofNat n) = rotl x n := by
  have hn : n % 4294967296 = n := Nat.mod_eq_of_lt (by omega)
  have hback : (4294967296 - n) % 32 = 32 - n := by omega
  apply UInt32.toBitVec_inj.mp
  simp [rotateLeft, rotl, BitVec.rotateLeft_def, BitVec.toNat_sub, hn, hback, Nat.mod_eq_of_lt h]

theorem shift_pos (i : Nat) : 0 < shift i := by
  unfold shift
  split <;> decide

theorem shift_lt (i : Nat) : shift i < 32 := by
  unfold shift
  split <;> decide

theorem wordIndex_lt {i : Nat} (h : i < 64) : wordIndex i < 16 := by
  unfold wordIndex
  split <;> omega

namespace Words

/-- Each word takes the role of the next. -/
def turn (w : Words) : Words := ⟨w.d, w.a, w.b, w.c⟩

variable (w : Words) (f : UInt32 → UInt32 → UInt32 → UInt32 → UInt32 → UInt32 → UInt32 → UInt32)
  (x s ac : UInt32)

@[simp] theorem setA_turn : w.turn.setA f x s ac = (w.setD f x s ac).turn := rfl
@[simp] theorem setD_turn : w.turn.setD f x s ac = (w.setC f x s ac).turn := rfl
@[simp] theorem setC_turn : w.turn.setC f x s ac = (w.setB f x s ac).turn := rfl
@[simp] theorem turn_turn_turn_turn : w.turn.turn.turn.turn = w := rfl

end Words

/-- A step is a line of a round, with the roles moved. -/
theorem step_eq (K x : Nat → UInt32) (s : Words) (i : Nat) :
    step K x s i =
      (s.setA (mixed (basic i)) (x (wordIndex i)) (UInt32.ofNat (shift i)) (K i)).turn := by
  have hadd : ∀ f : UInt32, s.a + (f + x (wordIndex i) + K i) =
      s.a + f + x (wordIndex i) + K i := fun f => by rw [← UInt32.add_assoc, ← UInt32.add_assoc]
  rw [Words.setA, mixed, hadd, rotateLeft_eq_rotl _ (shift_pos i) (shift_lt i), UInt32.add_comm]
  rfl

/-! ## Constants -/

/-- The constants of the 64 lines. -/
def constants : List UInt32 := [
  0xd76aa478, 0xe8c7b756, 0x242070db, 0xc1bdceee,
  0xf57c0faf, 0x4787c62a, 0xa8304613, 0xfd469501,
  0x698098d8, 0x8b44f7af, 0xffff5bb1, 0x895cd7be,
  0x6b901122, 0xfd987193, 0xa679438e, 0x49b40821,
  0xf61e2562, 0xc040b340, 0x265e5a51, 0xe9b6c7aa,
  0xd62f105d, 0x2441453, 0xd8a1e681, 0xe7d3fbc8,
  0x21e1cde6, 0xc33707d6, 0xf4d50d87, 0x455a14ed,
  0xa9e3e905, 0xfcefa3f8, 0x676f02d9, 0x8d2a4c8a,
  0xfffa3942, 0x8771f681, 0x6d9d6122, 0xfde5380c,
  0xa4beea44, 0x4bdecfa9, 0xf6bb4b60, 0xbebfbc70,
  0x289b7ec6, 0xeaa127fa, 0xd4ef3085, 0x4881d05,
  0xd9d4d039, 0xe6db99e5, 0x1fa27cf8, 0xc4ac5665,
  0xf4292244, 0x432aff97, 0xab9423a7, 0xfc93a039,
  0x655b59c3, 0x8f0ccc92, 0xffeff47d, 0x85845dd1,
  0x6fa87e4f, 0xfe2ce6e0, 0xa3014314, 0x4e0811a1,
  0xf7537e82, 0xbd3af235, 0x2ad7d2bb, 0xeb86d391]

/-- The constant of step `i` is the integer part of `2 ^ 32 * |sin (i + 1)|`, also if the
approximation of the sine by integers is off by `2 ^ -48`. -/
def sineOk (i : Nat) : Bool :=
  let s := (Sine.sinNumerator 39 (i + 1)).natAbs
  let d := Nat.factorial 39 ^ (i + 1)
  let k := (constants.getD i 0).toNat
  decide (2 ^ 16 * (k * d) + d ≤ 2 ^ 48 * s ∧ 2 ^ 48 * s + d < 2 ^ 16 * ((k + 1) * d))

theorem sineOk_of_lt : ∀ i < 64, sineOk i = true := by decide +kernel

/-- The approximation of the sine that `sineOk` takes is close enough. -/
theorem abs_sub_sine_le {k : Nat} (hk : k ≤ 64) :
    |Real.sin k - Sine.sinNumerator 39 k / (Nat.factorial 39 : ℝ) ^ k| ≤ 1 / 2 ^ 48 := by
  have herror : Sine.taylorError 39 ≤ 1 / 2 ^ 112 := by
    norm_num [Sine.taylorError, Nat.factorial]
  have hpow : (2 : ℝ) ^ k ≤ 2 ^ 64 := pow_le_pow_right₀ (by norm_num) hk
  calc |Real.sin k - Sine.sinNumerator 39 k / (Nat.factorial 39 : ℝ) ^ k|
      ≤ 2 ^ k * Sine.taylorError 39 := Sine.abs_sin_sub_le (herror.trans (by norm_num)) k
    _ ≤ 2 ^ 64 * (1 / 2 ^ 112) := by
      have h0 : 0 ≤ Sine.taylorError 39 := by unfold Sine.taylorError; positivity
      gcongr
    _ = 1 / 2 ^ 48 := by norm_num

/-- **The constants of the code are those of MD5.** -/
theorem constants_eq_sine {i : Nat} (h : i < 64) : constants.getD i 0 = sineConstant i := by
  have hok := of_decide_eq_true (sineOk_of_lt i h)
  have hclose := abs_sub_sine_le (k := i + 1) (by omega)
  have hfloor : ⌊2 ^ 32 * |Real.sin (i + 1 : Nat)|⌋₊ = (constants.getD i 0).toNat :=
    Sine.floor_eq_of_close (m := 16) (d := Nat.factorial 39 ^ (i + 1)) (by positivity)
      (by exact_mod_cast hclose) hok.1 hok.2
  rw [sineConstant, hfloor, UInt32.ofNat_toNat]

/-! ## Rounds -/

theorem foldl_step_congr {K K' x x' : Nat → UInt32} (hK : ∀ i < 64, K i = K' i)
    (hx : ∀ i < 16, x i = x' i) (s : Words) :
    (List.range 64).foldl (step K x) s = (List.range 64).foldl (step K' x') s := by
  refine List.foldl_ext _ _ _ fun s i hi => ?_
  have hi := List.mem_range.mp hi
  rw [step, step, hK i hi, hx _ (wordIndex_lt hi)]

/-- The lines of the four rounds are the 64 steps. -/
theorem rounds_eq (x : Nat → UInt32) (s : Words) :
    rounds x s = (List.range 64).foldl (step sineConstant x) s := by
  have hK : ∀ i < 64, sineConstant i = constants.getD i 0 := fun i hi => (constants_eq_sine hi).symm
  have hlines : (List.range 64).foldl (step (constants.getD · 0) x) s = rounds x s := by
    simp only [List.range, List.range.loop, List.foldl_cons, List.foldl_nil, step_eq,
      Words.setA_turn, Words.setD_turn, Words.setC_turn, Words.turn_turn_turn_turn]
    rfl
  rw [foldl_step_congr hK (fun _ _ => rfl), hlines]

/-! ## Words and bytes -/

/-- A number below `2 ^ n` and one shifted by `n` have no bit in common. -/
theorem or_shiftLeft_eq_add {a n : Nat} (b : Nat) (h : a < 2 ^ n) :
    a ||| b <<< n = a + b * 2 ^ n := by
  rw [Nat.or_comm, ← Nat.shiftLeft_add_eq_or_of_lt h, Nat.shiftLeft_eq, Nat.add_comm]

theorem byteWord_eq_leWord (b0 b1 b2 b3 : UInt8) (rest : List UInt8) :
    byteWord b0 b1 b2 b3 = leWord (b0 :: b1 :: b2 :: b3 :: rest) := by
  have h0 := b0.toNat_lt
  have h1 := b1.toNat_lt
  have h2 := b2.toNat_lt
  have h3 := b3.toNat_lt
  have hshift : ∀ (b : UInt8) {n : Nat}, n ≤ 24 → b.toNat <<< n % 4294967296 = b.toNat <<< n := by
    intro b n hn
    have hb : b.toNat < 2 ^ 8 := b.toNat_lt
    have hpow : (2 : Nat) ^ n ≤ 2 ^ 24 := Nat.pow_le_pow_right (by decide) hn
    rw [Nat.shiftLeft_eq]
    exact Nat.mod_eq_of_lt (Nat.mul_lt_mul_of_lt_of_le hb hpow (by positivity))
  apply UInt32.toNat_inj.mp
  simp only [byteWord, leWord, UInt32.toNat_or, UInt32.toNat_shiftLeft, UInt8.toNat_toUInt32]
  simp only [UInt32.toNat_ofNat, Nat.reduceMod, Nat.reducePow, hshift b1 (n := 8) (by decide),
    hshift b2 (n := 16) (by decide), hshift b3 (n := 24) (by decide)]
  rw [or_shiftLeft_eq_add b1.toNat h0, or_shiftLeft_eq_add b2.toNat (by omega),
    or_shiftLeft_eq_add b3.toNat (by omega)]
  simp [Nat.ofDigits]
  omega

theorem decode_eq {block : List UInt8} (n : Nat) (h : 4 * n ≤ block.length) :
    decode block (4 * n) = .ok ((List.range n).map (blockWord block)) := by
  induction n generalizing block with
  | zero => cases block <;> rfl
  | succ n ih =>
    match block, h with
    | b0 :: b1 :: b2 :: b3 :: block, h =>
      have hblock : 4 * n ≤ block.length := by simp at h; omega
      have hdrop : ∀ k, blockWord (b0 :: b1 :: b2 :: b3 :: block) (k + 1) = blockWord block k := by
        intro k
        rw [blockWord, blockWord, show 4 * (k + 1) = 4 * k + 4 by omega]
        rfl
      rw [show 4 * (n + 1) = 4 * n + 4 by omega, decode, ih hblock, List.range_succ_eq_map,
        List.map_cons, List.map_map]
      simp only [Function.comp_def, Nat.succ_eq_add_one, hdrop]
      rw [byteWord_eq_leWord b0 b1 b2 b3 block]
      rfl

/-- **`transform` compresses a block.** -/
theorem transform_eq {m : MD5} (hm : m.finalized = false) {block : List UInt8}
    (h : 64 ≤ block.length) :
    m.transform block = .ok { m with state := compress m.state block } := by
  have hx : ∀ i < 16, ((List.range 16).map (blockWord block)).getD i 0 = blockWord block i := by
    intro i hi
    simp [List.getD_eq_getElem?_getD, List.getElem?_range hi]
  have hrounds : rounds (((List.range 16).map (blockWord block)).getD · 0) m.state =
      (List.range 64).foldl (step sineConstant (blockWord block)) m.state :=
    (rounds_eq _ _).trans (foldl_step_congr (fun _ _ => rfl) hx m.state)
  rw [MD5.transform, decode_eq 16 h]
  simp only [bind, Except.bind, hm, Bool.false_eq_true, ↓reduceIte, hrounds, compress]

end Servus.Md5
