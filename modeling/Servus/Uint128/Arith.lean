import Mathlib

/-!
# `servus::uint128_t`: arithmetic, bits and order (`servus/uint128_t.h`)

A 128-bit value is two 64-bit words. Each operator finds the carry or the borrow between them in
its own way: `++` tests the low word after the increment, `--` before the decrement, `+=`
compares with the old low word, and the operators with a 64-bit operand compare with the
operand's low word. `toNat` is the number that a value stands for; the operators compute on it
modulo `2 ^ 128` (`uint128_arithmetic`).

`operator+=` reads its right-hand side through a reference, which may be the object itself. It
is a function on a store of objects, so `a += a` is the case of two equal references.
-/

namespace Servus.Uint128

/-- `uint128_t`: the members `_high` and `_low`. -/
structure UInt128 where
  high : UInt64
  low : UInt64
  deriving DecidableEq, Repr

/-- The number that a value stands for. -/
def toNat (v : UInt128) : Nat := v.high.toNat * 2 ^ 64 + v.low.toNat

/-! ## Comparisons -/

/-- `operator==`. -/
def eq (lhs rhs : UInt128) : Bool := lhs.high == rhs.high && lhs.low == rhs.low

/-- `operator!=`. -/
def ne (lhs rhs : UInt128) : Bool := lhs.high != rhs.high || lhs.low != rhs.low

/-- `operator<`. -/
def lt (lhs rhs : UInt128) : Bool :=
  if lhs.high < rhs.high then true
  else if lhs.high > rhs.high then false
  else lhs.low < rhs.low

/-- `operator>`. -/
def gt (lhs rhs : UInt128) : Bool :=
  if lhs.high > rhs.high then true
  else if lhs.high < rhs.high then false
  else lhs.low > rhs.low

/-- `operator<=`. -/
def le (lhs rhs : UInt128) : Bool :=
  if lhs.high < rhs.high then true
  else if lhs.high > rhs.high then false
  else lhs.low ≤ rhs.low

/-- `operator>=`. -/
def ge (lhs rhs : UInt128) : Bool :=
  if lhs.high > rhs.high then true
  else if lhs.high < rhs.high then false
  else lhs.low ≥ rhs.low

/-! ## Arithmetic -/

/-- `operator++`. -/
def inc (v : UInt128) : UInt128 :=
  let v := { v with low := v.low + 1 }
  if v.low = 0 then { v with high := v.high + 1 } else v

/-- `operator--`. -/
def dec (v : UInt128) : UInt128 :=
  let v := if v.low = 0 then { v with high := v.high - 1 } else v
  { v with low := v.low - 1 }

section Store

variable {Ref : Type} [DecidableEq Ref]

/-- `operator+=` on the object at `this`, with the object at `rhs`. Both are read again after
each write. -/
def addAssign (objects : Ref → UInt128) (this rhs : Ref) : Ref → UInt128 :=
  let oldLow := (objects this).low
  let objects := Function.update objects this
    { objects this with low := (objects this).low + (objects rhs).low }
  if (objects this).low < oldLow then
    Function.update objects this
      { objects this with high := (objects this).high + ((objects rhs).high + 1) }
  else
    Function.update objects this
      { objects this with high := (objects this).high + (objects rhs).high }

end Store

/-- `operator+` of two 128-bit values: `result`, a copy of `a` (the object `true`), and
`result += b`. -/
def add (a b : UInt128) : UInt128 := addAssign (fun r : Bool => if r then a else b) true false true

/-- `operator+` with a 64-bit value. -/
def add64 (a : UInt128) (b : UInt64) : UInt128 :=
  let result := { a with low := a.low + b }
  if result.low < a.low then { result with high := result.high + 1 } else result

/-- `operator-` with a 64-bit value. -/
def sub64 (a : UInt128) (b : UInt64) : UInt128 :=
  let result := { a with low := a.low - b }
  if result.low > a.low then { result with high := result.high - 1 } else result

/-- `operator&`. -/
def and (a b : UInt128) : UInt128 := { high := a.high &&& b.high, low := a.low &&& b.low }

/-- `operator|`. -/
def or (a b : UInt128) : UInt128 := { high := a.high ||| b.high, low := a.low ||| b.low }

/-! ## What the operators compute -/

theorem toNat_lt (v : UInt128) : toNat v < 2 ^ 128 := by
  have h1 := v.high.toNat_lt
  have h2 := v.low.toNat_lt
  unfold toNat
  omega

theorem toNat_inj {a b : UInt128} : toNat a = toNat b ↔ a = b := by
  refine ⟨fun h => ?_, fun h => h ▸ rfl⟩
  have h1 := a.low.toNat_lt
  have h2 := b.low.toNat_lt
  unfold toNat at h
  have hh : a.high = b.high := UInt64.toNat_inj.mp (by omega)
  have hl : a.low = b.low := UInt64.toNat_inj.mp (by omega)
  cases a; cases b
  simp_all

theorem toNat_inc (v : UInt128) : toNat (inc v) = (toNat v + 1) % 2 ^ 128 := by
  have h1 := v.high.toNat_lt
  have h2 := v.low.toNat_lt
  unfold inc toNat
  simp only [← UInt64.toNat_inj, UInt64.toNat_add, UInt64.toNat_one, UInt64.toNat_zero]
  split <;> simp only [UInt64.toNat_add, UInt64.toNat_one] <;> omega

theorem toNat_dec (v : UInt128) : (toNat (dec v) : Int) = ((toNat v : Int) - 1) % 2 ^ 128 := by
  have h1 := v.high.toNat_lt
  have h2 := v.low.toNat_lt
  unfold dec toNat
  simp only [← UInt64.toNat_inj, UInt64.toNat_zero]
  split <;> simp only [UInt64.toNat_sub, UInt64.toNat_one] <;> omega

theorem toNat_add64 (a : UInt128) (b : UInt64) :
    toNat (add64 a b) = (toNat a + b.toNat) % 2 ^ 128 := by
  have h1 := a.high.toNat_lt
  have h2 := a.low.toNat_lt
  have h3 := b.toNat_lt
  unfold add64 toNat
  simp only [UInt64.lt_iff_toNat_lt, UInt64.toNat_add]
  split <;> simp only [UInt64.toNat_add, UInt64.toNat_one] <;> omega

theorem toNat_sub64 (a : UInt128) (b : UInt64) :
    (toNat (sub64 a b) : Int) = ((toNat a : Int) - b.toNat) % 2 ^ 128 := by
  have h1 := a.high.toNat_lt
  have h2 := a.low.toNat_lt
  have h3 := b.toNat_lt
  unfold sub64 toNat
  simp only [gt_iff_lt, UInt64.lt_iff_toNat_lt, UInt64.toNat_sub]
  split <;> simp only [UInt64.toNat_sub, UInt64.toNat_one] <;> omega

section Store

variable {Ref : Type} [DecidableEq Ref]

/-- `+=` adds the value that the right-hand side had before, also when it is the object itself. -/
theorem toNat_addAssign (objects : Ref → UInt128) (this rhs : Ref) :
    toNat (addAssign objects this rhs this) =
      (toNat (objects this) + toNat (objects rhs)) % 2 ^ 128 := by
  have h1 := (objects this).high.toNat_lt
  have h2 := (objects this).low.toNat_lt
  have h3 := (objects rhs).high.toNat_lt
  have h4 := (objects rhs).low.toNat_lt
  unfold addAssign toNat
  by_cases hr : rhs = this
  · subst hr
    simp only [Function.update_self, UInt64.lt_iff_toNat_lt, UInt64.toNat_add]
    split <;> simp only [Function.update_self, UInt64.toNat_add, UInt64.toNat_one] <;> omega
  · simp only [Function.update_self, Function.update_of_ne hr, UInt64.lt_iff_toNat_lt,
      UInt64.toNat_add]
    split <;> simp only [Function.update_self, UInt64.toNat_add, UInt64.toNat_one] <;> omega

/-- `+=` changes no other object. -/
theorem addAssign_of_ne (objects : Ref → UInt128) {this rhs other : Ref} (h : other ≠ this) :
    addAssign objects this rhs other = objects other := by
  unfold addAssign
  dsimp only
  split <;> rw [Function.update_of_ne h, Function.update_of_ne h]

end Store

/-- The bits of a value: those of the low word, then those of the high word. -/
theorem testBit_toNat (v : UInt128) (i : Nat) :
    (toNat v).testBit i =
      if i < 64 then v.low.toNat.testBit i else v.high.toNat.testBit (i - 64) := by
  rw [toNat, Nat.mul_comm]
  exact Nat.testBit_two_pow_mul_add v.high.toNat v.low.toNat_lt i

theorem toNat_and (a b : UInt128) : toNat (and a b) = toNat a &&& toNat b := by
  apply Nat.eq_of_testBit_eq
  intro i
  rw [Nat.testBit_and, testBit_toNat, testBit_toNat, testBit_toNat]
  split <;> simp [and]

theorem toNat_or (a b : UInt128) : toNat (or a b) = toNat a ||| toNat b := by
  apply Nat.eq_of_testBit_eq
  intro i
  rw [Nat.testBit_or, testBit_toNat, testBit_toNat, testBit_toNat]
  split <;> simp [or]

/-- The order of the numbers is the order of the high words, then of the low words. -/
theorem toNat_lt_toNat {a b : UInt128} :
    toNat a < toNat b ↔ a.high < b.high ∨ a.high = b.high ∧ a.low < b.low := by
  have h1 := a.low.toNat_lt
  have h2 := b.low.toNat_lt
  simp only [toNat, UInt64.lt_iff_toNat_lt, ← UInt64.toNat_inj]
  omega

theorem eq_iff {a b : UInt128} : eq a b = true ↔ toNat a = toNat b := by
  rw [toNat_inj]
  cases a; cases b
  simp [eq]

theorem ne_iff {a b : UInt128} : ne a b = true ↔ toNat a ≠ toNat b := by
  rw [Ne, toNat_inj]
  cases a; cases b
  simp [ne, imp_iff_not_or]

theorem lt_iff {a b : UInt128} : lt a b = true ↔ toNat a < toNat b := by
  rw [toNat_lt_toNat, lt]
  simp only [gt_iff_lt, UInt64.lt_iff_toNat_lt, ← UInt64.toNat_inj]
  split
  · simp [*]
  · split <;> simp <;> omega

/-- `>` is `<` with its operands swapped, and `<=` and `>=` are their negations. -/
theorem gt_eq (a b : UInt128) : gt a b = lt b a := rfl

theorem le_eq (a b : UInt128) : le a b = !lt b a := by
  unfold le lt
  by_cases h1 : a.high < b.high
  · have h2 : ¬ b.high < a.high := by simp only [UInt64.lt_iff_toNat_lt] at *; omega
    simp [h1, h2]
  · by_cases h2 : b.high < a.high
    · simp [h1, h2]
    · simp [h1, h2, ← decide_not]

theorem ge_eq (a b : UInt128) : ge a b = le b a := rfl

theorem le_iff {a b : UInt128} : le a b = true ↔ toNat a ≤ toNat b := by
  rw [le_eq, Bool.not_eq_true', ← Bool.not_eq_true, lt_iff, Nat.not_lt]

/-- **`uint128_t` is arithmetic modulo `2 ^ 128` with the usual order.** The `+=` of an object
with itself is the case `this = rhs`. -/
theorem uint128_arithmetic (a b : UInt128) (c : UInt64) :
    (toNat (inc a) = (toNat a + 1) % 2 ^ 128 ∧
      (toNat (dec a) : Int) = ((toNat a : Int) - 1) % 2 ^ 128) ∧
    (∀ (Ref : Type) [DecidableEq Ref] (objects : Ref → UInt128) (this rhs : Ref),
      toNat (addAssign objects this rhs this) =
        (toNat (objects this) + toNat (objects rhs)) % 2 ^ 128) ∧
    (toNat (add a b) = (toNat a + toNat b) % 2 ^ 128 ∧
      toNat (add64 a c) = (toNat a + c.toNat) % 2 ^ 128 ∧
      (toNat (sub64 a c) : Int) = ((toNat a : Int) - c.toNat) % 2 ^ 128) ∧
    (toNat (and a b) = toNat a &&& toNat b ∧ toNat (or a b) = toNat a ||| toNat b) ∧
    (lt a b = true ↔ toNat a < toNat b) ∧ (gt a b = true ↔ toNat a > toNat b) ∧
    (le a b = true ↔ toNat a ≤ toNat b) ∧ (ge a b = true ↔ toNat a ≥ toNat b) ∧
    (eq a b = true ↔ toNat a = toNat b) ∧ (ne a b = true ↔ toNat a ≠ toNat b) := by
  refine ⟨⟨toNat_inc a, toNat_dec a⟩, ?_, ⟨?_, toNat_add64 a c, toNat_sub64 a c⟩,
    ⟨toNat_and a b, toNat_or a b⟩, lt_iff, ?_, le_iff, ?_, eq_iff, ne_iff⟩
  · intro Ref _ objects this rhs
    exact toNat_addAssign objects this rhs
  · exact toNat_addAssign _ true false
  · rw [gt_eq]; exact lt_iff
  · rw [ge_eq]; exact le_iff

end Servus.Uint128
