import Mathlib.Data.List.Basic
import Mathlib.Tactic

/-!
# Streams taken in blocks

A hash takes a stream in blocks of `n` elements: `compress` changes its state by each full block,
and what is not yet a block waits. `Absorbed` is the state with what waits, which is always less
than a block. `absorb` takes a list element by element; `absorb_append` says that the pieces in
which a stream comes do not matter, and `absorb_of_lt`, `absorb_fill` and `absorb_block` are the
steps of a program that takes it in larger pieces.
-/

namespace Cpp

/-- A state, and the elements behind the last full block of `n`. -/
@[ext]
structure Absorbed (σ α : Type*) (n : Nat) where
  state : σ
  rest : List α
  rest_lt : rest.length < n

namespace Absorbed

variable {σ α : Type*} {n : Nat} (compress : σ → List α → σ) (m : Absorbed σ α n)

/-- One more element. -/
def push (a : α) : Absorbed σ α n :=
  if h : m.rest.length + 1 < n then ⟨m.state, m.rest ++ [a], by simpa using h⟩
  else ⟨compress m.state (m.rest ++ [a]), [], by have := m.rest_lt; simp; omega⟩

/-- The elements of a list, in order. -/
def absorb (l : List α) : Absorbed σ α n := l.foldl (push compress) m

@[simp] theorem absorb_nil : m.absorb compress [] = m := rfl

theorem absorb_cons (a : α) (l : List α) :
    m.absorb compress (a :: l) = (m.push compress a).absorb compress l := rfl

theorem absorb_append (l l' : List α) :
    m.absorb compress (l ++ l') = (m.absorb compress l).absorb compress l' := List.foldl_append

variable {m}

/-- What does not fill a block waits. -/
theorem absorb_of_lt {l : List α} (h : m.rest.length + l.length < n) :
    m.absorb compress l = ⟨m.state, m.rest ++ l, by simpa using h⟩ := by
  induction l generalizing m with
  | nil => ext1 <;> simp
  | cons a l ih =>
    have hpush : m.push compress a = ⟨m.state, m.rest ++ [a], by simp at h ⊢; omega⟩ :=
      dif_pos (by simp at h; omega)
    have hlt : (m.push compress a).rest.length + l.length < n := by
      rw [hpush]
      simp at h ⊢
      omega
    rw [absorb_cons, ih hlt]
    ext1 <;> simp [hpush]

/-- What fills a block is compressed with what waited. -/
theorem absorb_fill {l : List α} (h : m.rest.length + l.length = n) :
    m.absorb compress l =
      ⟨compress m.state (m.rest ++ l), [], by have := m.rest_lt; simp; omega⟩ := by
  have hlt := m.rest_lt
  rcases List.eq_nil_or_concat l with rfl | ⟨l, a, rfl⟩
  · simp at h
    omega
  · simp only [List.concat_eq_append] at h ⊢
    have hl : m.rest.length + l.length < n := by simp at h; omega
    have hfull : ¬ (m.rest ++ l).length + 1 < n := by simp at h ⊢; omega
    rw [absorb_append, absorb_of_lt compress hl, absorb_cons, absorb_nil, push, dif_neg hfull]
    ext1 <;> simp

/-- A whole block with nothing waiting. -/
theorem absorb_block {s : σ} {h0 : [].length < n} {l : List α} (h : l.length = n) :
    (⟨s, [], h0⟩ : Absorbed σ α n).absorb compress l = ⟨compress s l, [], h0⟩ :=
  absorb_fill compress (by simpa using h)

/-- How many elements wait. -/
theorem length_rest_absorb (m : Absorbed σ α n) (l : List α) :
    (m.absorb compress l).rest.length = (m.rest.length + l.length) % n := by
  induction l generalizing m with
  | nil => exact (Nat.mod_eq_of_lt m.rest_lt).symm
  | cons a l ih =>
    have hlt := m.rest_lt
    rw [absorb_cons, ih, push, List.length_cons]
    split
    · simp [Nat.add_assoc, Nat.add_comm 1]
    · have hsum : m.rest.length + (l.length + 1) = l.length + n := by omega
      rw [hsum, Nat.add_mod_right]
      simp

/-- What waits came last. -/
theorem rest_absorb_suffix (m : Absorbed σ α n) (l : List α) :
    (m.absorb compress l).rest <:+ m.rest ++ l := by
  induction l generalizing m with
  | nil => simp
  | cons a l ih =>
    have hpush : (m.push compress a).rest <:+ m.rest ++ [a] := by
      unfold push
      split
      · exact List.suffix_rfl
      · exact List.nil_suffix
    have happend : (m.push compress a).rest ++ l <:+ m.rest ++ [a] ++ l := by
      obtain ⟨t, ht⟩ := hpush
      exact ⟨t, by rw [← ht, List.append_assoc]⟩
    rw [absorb_cons, List.append_cons]
    exact (ih _).trans happend

end Absorbed

end Cpp
