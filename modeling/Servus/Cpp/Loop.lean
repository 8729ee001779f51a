import Mathlib.Tactic

/-!
# `while` loops

`whileLoop out cond body fuel s` runs `body` while `cond` holds, at most `fuel` times; a loop
that is still running then ends with the error `out`. A loop proof is one proof about a single
iteration: in `whileLoop_spec` an invariant and a measure that each iteration makes smaller give a
result that satisfies the invariant, within as many iterations as the measure says.

`AtHead cond body s₀ n s`: the loop tests its condition in the state `s` after `n` iterations. It
knows no fuel. `AtHead.invariant` is the induction over the iterations; `whileLoop_ends` says how
a loop ends whose condition is tested at most `fuel` times with success.
-/

namespace Cpp

variable {σ ε : Type*}

/-- `while (cond) body`, with at most `fuel` iterations; `out` when they do not suffice. -/
def whileLoop (out : ε) (cond : σ → Bool) (body : σ → Except ε σ) : Nat → σ → Except ε σ
  | 0, s => if cond s then .error out else .ok s
  | fuel + 1, s =>
    if cond s then
      match body s with
      | .error e => .error e
      | .ok s' => whileLoop out cond body fuel s'
    else .ok s

variable {out : ε} {cond : σ → Bool} {body : σ → Except ε σ}

theorem whileLoop_done {s : σ} (fuel : Nat) (h : cond s = false) :
    whileLoop out cond body fuel s = .ok s := by
  cases fuel <;> simp [whileLoop, h]

theorem whileLoop_next {s s' : σ} (fuel : Nat) (h : cond s = true) (hb : body s = .ok s') :
    whileLoop out cond body (fuel + 1) s = whileLoop out cond body fuel s' := by
  simp [whileLoop, h, hb]

theorem whileLoop_throw {s : σ} {e : ε} (fuel : Nat) (h : cond s = true)
    (hb : body s = .error e) : whileLoop out cond body (fuel + 1) s = .error e := by
  simp [whileLoop, h, hb]

/-- An invariant and a decreasing measure: the loop ends within `m s` iterations, in a state
with the invariant where the condition is false. -/
theorem whileLoop_spec (out : ε) (cond : σ → Bool) (body : σ → Except ε σ) (inv : σ → Prop)
    (m : σ → Nat)
    (step : ∀ s, inv s → cond s = true → ∃ s', body s = .ok s' ∧ inv s' ∧ m s' < m s) :
    ∀ (fuel : Nat) (s : σ), inv s → m s ≤ fuel →
      ∃ s', whileLoop out cond body fuel s = .ok s' ∧ inv s' ∧ cond s' = false := by
  intro fuel
  induction fuel with
  | zero =>
    intro s hs hm
    cases hc : cond s with
    | false => exact ⟨s, whileLoop_done _ hc, hs, hc⟩
    | true =>
      obtain ⟨s', -, -, hlt⟩ := step s hs hc
      omega
  | succ fuel ih =>
    intro s hs hm
    cases hc : cond s with
    | false => exact ⟨s, whileLoop_done _ hc, hs, hc⟩
    | true =>
      obtain ⟨s', hb, hinv, hlt⟩ := step s hs hc
      rw [whileLoop_next _ hc hb]
      exact ih s' hinv (by omega)

/-- The loop from `s₀` on comes to its condition in the state `s`, after `n` iterations. -/
inductive AtHead (cond : σ → Bool) (body : σ → Except ε σ) (s₀ : σ) : Nat → σ → Prop
  | start : AtHead cond body s₀ 0 s₀
  | next {n : Nat} {s s' : σ} (h : AtHead cond body s₀ n s) (hc : cond s = true)
      (hb : body s = .ok s') : AtHead cond body s₀ (n + 1) s'

/-- What holds at the start, and is kept by every iteration that runs, holds at every test of the
condition. -/
theorem AtHead.invariant {s₀ : σ} (inv : Nat → σ → Prop) (h0 : inv 0 s₀)
    (step : ∀ n s s', inv n s → cond s = true → body s = .ok s' → inv (n + 1) s') :
    ∀ {n s}, AtHead cond body s₀ n s → inv n s := by
  intro n s h
  induction h with
  | start => exact h0
  | next _ hc hb ih => exact step _ _ _ ih hc hb

/-- How a loop ends that runs less than `N` iterations before each one it starts: its condition is
false, or its body throws. -/
theorem whileLoop_ends (out : ε) {s₀ : σ} {N : Nat}
    (hN : ∀ n s, AtHead cond body s₀ n s → cond s = true → n < N) :
    ∃ n s, n ≤ N ∧ AtHead cond body s₀ n s ∧
      ((cond s = false ∧ whileLoop out cond body N s₀ = .ok s) ∨
        (cond s = true ∧ ∃ e, body s = .error e ∧ whileLoop out cond body N s₀ = .error e)) := by
  suffices hrun : ∀ fuel n s, n + fuel = N → AtHead cond body s₀ n s →
      ∃ n' s', n' ≤ N ∧ AtHead cond body s₀ n' s' ∧
        ((cond s' = false ∧ whileLoop out cond body fuel s = .ok s') ∨
          (cond s' = true ∧ ∃ e, body s' = .error e ∧
            whileLoop out cond body fuel s = .error e)) from
    hrun N 0 s₀ (Nat.zero_add N) .start
  intro fuel
  induction fuel with
  | zero =>
    intro n s hn hat
    cases hc : cond s with
    | false => exact ⟨n, s, by omega, hat, .inl ⟨hc, whileLoop_done 0 hc⟩⟩
    | true =>
      have hlt := hN n s hat hc
      omega
  | succ fuel ih =>
    intro n s hn hat
    cases hc : cond s with
    | false => exact ⟨n, s, by omega, hat, .inl ⟨hc, whileLoop_done _ hc⟩⟩
    | true =>
      cases hb : body s with
      | error e =>
        exact ⟨n, s, by omega, hat, .inr ⟨hc, e, hb, whileLoop_throw fuel hc hb⟩⟩
      | ok s' =>
        rw [whileLoop_next fuel hc hb]
        exact ih (n + 1) s' (by omega) (.next hat hc hb)

end Cpp
