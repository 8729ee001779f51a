import Servus.Cpp.Run
import Servus.Uint128.Arith

/-!
# `make_UUID` (`servus/uint128_t.cpp`)

Any number of threads call `make_UUID`, each again and again. The engine is one for all of them, and
a mutex guards it: `value` gets its two words under one lock. A `System` is the threads at their
places in the function; a step is one thread's next action, and a thread that waits for the mutex
has none. `gen` is the sequence of numbers of the engine.

`make_UUID_threads`: whatever the order of the steps, every value that a call returns is one pair of
the sequence, the words in order and the first not zero, and no two calls return the same pair.
-/

namespace Servus.Uint128

open Cpp

/-- Where a thread is in `make_UUID`. -/
inductive Pc where
  /-- At the condition of the loop. -/
  | test
  /-- At `ScopedLock lock(mutex)`. -/
  | lock
  /-- At `value.high() = generator(engine)`. -/
  | high
  /-- At `value.low() = generator(engine)`. -/
  | low
  /-- At the end of the scope of `lock`. -/
  | unlock
  deriving DecidableEq

/-- In the scope of the lock. -/
def Pc.locked : Pc → Bool
  | .high | .low | .unlock => true
  | _ => false

structure Thread where
  pc : Pc
  value : UInt128

structure System (ι : Type) where
  mutex : Option ι
  /-- How many numbers the engine has given. -/
  drawn : Nat
  threads : ι → Thread
  /-- What the calls so far have returned, and to which thread. -/
  results : List (ι × UInt128)

variable {ι : Type} [DecidableEq ι] {gen : Nat → UInt64} {s s' : System ι} {i : ι}

namespace System

/-- No call has done anything yet. -/
def initial : System ι := ⟨none, 0, fun _ => ⟨.test, ⟨0, 0⟩⟩, []⟩

def set (s : System ι) (i : ι) (t : Thread) : System ι :=
  { s with threads := Function.update s.threads i t }

theorem threads_set (t : Thread) (j : ι) :
    (s.set i t).threads j = if j = i then t else s.threads j := Function.update_apply ..

/-- The next action of the thread `i`. After a return it calls again. -/
def step (gen : Nat → UInt64) (s : System ι) (i : ι) : Option (System ι) :=
  let t := s.threads i
  match t.pc with
  | .test =>
    if t.value.high = 0 then some (s.set i { t with pc := .lock })
    else some { s.set i ⟨.test, ⟨0, 0⟩⟩ with results := s.results ++ [(i, t.value)] }
  | .lock =>
    if s.mutex = none then some { s.set i { t with pc := .high } with mutex := some i } else none
  | .high =>
    some { s.set i ⟨.low, { t.value with high := gen s.drawn }⟩ with drawn := s.drawn + 1 }
  | .low =>
    some { s.set i ⟨.unlock, { t.value with low := gen s.drawn }⟩ with drawn := s.drawn + 1 }
  | .unlock => some { s.set i { t with pc := .test } with mutex := none }

/-- The `k`-th pair of numbers. -/
def pair (gen : Nat → UInt64) (k : Nat) : UInt128 := ⟨gen (2 * k), gen (2 * k + 1)⟩

/-- The calls have returned the pairs `ks`, and the threads have drawn the pairs `held`, which are
all different. One thread is in the scope of the lock, the one that has the mutex. -/
structure Inv (gen : Nat → UInt64) (s : System ι) (ks : List Nat) (held : ι → Option Nat) :
    Prop where
  results : s.results.map Prod.snd = ks.map (pair gen)
  nodup : ks.Nodup
  ks_ok : ∀ k ∈ ks, 2 * k + 2 ≤ s.drawn ∧ gen (2 * k) ≠ 0
  held_inj : ∀ i j k, held i = some k → held j = some k → i = j
  held_fresh : ∀ i k, held i = some k → k ∉ ks
  held_lt : ∀ i k, held i = some k → 2 * k + 2 ≤ s.drawn
  mutex : ∀ i, (s.threads i).pc.locked = true ↔ s.mutex = some i
  value : ∀ i, (s.threads i).pc = .test ∨ (s.threads i).pc = .unlock →
    (s.threads i).value.high ≠ 0 → ∃ k, held i = some k ∧ (s.threads i).value = pair gen k
  low : ∀ i, (s.threads i).pc = .low →
    ∃ k, s.drawn = 2 * k + 1 ∧ (s.threads i).value.high = gen (2 * k)
  even : (∀ i, (s.threads i).pc ≠ .low) → ∃ k, s.drawn = 2 * k

omit [DecidableEq ι] in
theorem inv_initial : Inv gen (initial : System ι) [] fun _ => none where
  results := rfl
  nodup := List.nodup_nil
  ks_ok := by simp
  held_inj := by simp
  held_fresh := by simp
  held_lt := by simp
  mutex := by simp [initial, Pc.locked]
  value := by simp [initial]
  low := by simp [initial]
  even _ := ⟨0, rfl⟩

omit [DecidableEq ι] in
/-- The mutex excludes other threads. -/
theorem Inv.eq_of_locked {ks : List Nat} {held : ι → Option Nat} (h : s.Inv gen ks held) {i j : ι}
    (hi : (s.threads i).pc.locked = true) (hj : (s.threads j).pc.locked = true) : i = j :=
  Option.some.inj (((h.mutex i).mp hi).symm.trans ((h.mutex j).mp hj))

/-! ## Steps -/

section Steps

variable {ks : List Nat} {held : ι → Option Nat} (h : s.Inv gen ks held)

include h

/-- The loop goes on. -/
theorem Inv.test_zero (hpc : (s.threads i).pc = .test) (hzero : (s.threads i).value.high = 0) :
    (s.set i { s.threads i with pc := .lock }).Inv gen ks held where
  results := h.results
  nodup := h.nodup
  ks_ok := h.ks_ok
  held_inj := h.held_inj
  held_fresh := h.held_fresh
  held_lt := h.held_lt
  mutex j := by
    have hj := h.mutex j
    grind [threads_set, Pc.locked, System.set]
  value j := by
    have hj := h.value j
    grind [threads_set]
  low j := by
    have hj := h.low j
    grind [threads_set, System.set]
  even hl := h.even fun j => by
    have hj := hl j
    grind [threads_set]

/-- A call returns the pair that its thread has drawn last. -/
theorem Inv.test_ne {k : Nat} (hpc : (s.threads i).pc = .test)
    (hne : (s.threads i).value.high ≠ 0) (hk : held i = some k)
    (hvalue : (s.threads i).value = pair gen k) :
    ({ s.set i ⟨.test, ⟨0, 0⟩⟩ with
      results := s.results ++ [(i, (s.threads i).value)] } : System ι).Inv gen (ks ++ [k])
      (Function.update held i none) where
  results := by rw [List.map_append, List.map_append, h.results, List.map_singleton, hvalue]; rfl
  nodup := by
    have hnot := h.held_fresh i k hk
    have hnodup := h.nodup
    grind
  ks_ok l hl := by
    obtain hl | hl := List.mem_append.mp hl
    · exact h.ks_ok l hl
    · obtain rfl := List.mem_singleton.mp hl
      exact ⟨h.held_lt i l hk, by rw [hvalue] at hne; exact hne⟩
  held_inj := by
    have hinj := h.held_inj
    grind [Function.update_apply]
  held_fresh := by
    have hinj := h.held_inj
    have hfresh := h.held_fresh
    grind [Function.update_apply]
  held_lt := by
    have hlt := h.held_lt
    grind [Function.update_apply, System.set]
  mutex j := by
    have hj := h.mutex j
    grind [threads_set, Pc.locked, System.set]
  value j := by
    have hj := h.value j
    grind [threads_set, Function.update_apply]
  low j := by
    have hj := h.low j
    grind [threads_set, System.set]
  even hl := h.even fun j => by
    have hj := hl j
    grind [threads_set]

/-- A thread takes the mutex. -/
theorem Inv.lock (hpc : (s.threads i).pc = .lock) (hfree : s.mutex = none) :
    ({ s.set i { s.threads i with pc := .high } with mutex := some i } : System ι).Inv gen ks
      held where
  results := h.results
  nodup := h.nodup
  ks_ok := h.ks_ok
  held_inj := h.held_inj
  held_fresh := h.held_fresh
  held_lt := h.held_lt
  mutex j := by
    have hj := h.mutex j
    grind [threads_set, Pc.locked]
  value j := by
    have hj := h.value j
    grind [threads_set]
  low j := by
    have hj := h.low j
    grind [threads_set, System.set]
  even hl := h.even fun j => by
    have hj := hl j
    grind [threads_set]

/-- A thread draws the first number of a pair: no other is between the two. -/
theorem Inv.high (hpc : (s.threads i).pc = .high) :
    ({ s.set i ⟨.low, { (s.threads i).value with high := gen s.drawn }⟩ with
      drawn := s.drawn + 1 } : System ι).Inv gen ks held := by
  have honly : ∀ j, (s.threads j).pc ≠ .low := by
    intro j hj
    have hij := h.eq_of_locked (i := i) (j := j) (by rw [hpc]; rfl) (by rw [hj]; rfl)
    subst hij
    rw [hpc] at hj
    cases hj
  obtain ⟨k, hk⟩ := h.even honly
  exact
  { results := h.results
    nodup := h.nodup
    ks_ok := fun l hl => ⟨(h.ks_ok l hl).1.trans (Nat.le_succ _), (h.ks_ok l hl).2⟩
    held_inj := h.held_inj
    held_fresh := h.held_fresh
    held_lt := fun j l hl => (h.held_lt j l hl).trans (Nat.le_succ _)
    mutex := fun j => by
      have hj := h.mutex j
      grind [threads_set, Pc.locked, System.set]
    value := fun j => by
      have hj := h.value j
      grind [threads_set]
    low := fun j => by
      have hj := honly j
      grind [threads_set]
    even := fun hl => absurd (by simp [threads_set]) (hl i) }

/-- A thread draws the second number, and has the pair. -/
theorem Inv.low_step {k : Nat} (hpc : (s.threads i).pc = .low) (hdrawn : s.drawn = 2 * k + 1)
    (hhigh : (s.threads i).value.high = gen (2 * k)) :
    ({ s.set i ⟨.unlock, { (s.threads i).value with low := gen s.drawn }⟩ with
      drawn := s.drawn + 1 } : System ι).Inv gen ks (Function.update held i (some k)) where
  results := h.results
  nodup := h.nodup
  ks_ok l hl := ⟨(h.ks_ok l hl).1.trans (Nat.le_succ _), (h.ks_ok l hl).2⟩
  held_inj := by
    have hinj := h.held_inj
    have hlt := h.held_lt
    grind [Function.update_apply]
  held_fresh := by
    have hks := h.ks_ok
    have hfresh := h.held_fresh
    grind [Function.update_apply]
  held_lt := by
    have hlt := h.held_lt
    grind [Function.update_apply]
  mutex j := by
    have hj := h.mutex j
    grind [threads_set, Pc.locked, System.set]
  value j := by
    have hj := h.value j
    by_cases hji : j = i
    · subst hji
      intro _ _
      refine ⟨k, Function.update_self .., ?_⟩
      simp [threads_set, pair, hhigh, hdrawn]
    · grind [threads_set, Function.update_apply]
  low j := by
    have hj := h.eq_of_locked (i := i) (j := j)
    grind [threads_set, Pc.locked]
  even _ := ⟨k + 1, by grind⟩

/-- A thread gives the mutex back. -/
theorem Inv.unlock (hpc : (s.threads i).pc = .unlock) :
    ({ s.set i { s.threads i with pc := .test } with mutex := none } : System ι).Inv gen ks
      held where
  results := h.results
  nodup := h.nodup
  ks_ok := h.ks_ok
  held_inj := h.held_inj
  held_fresh := h.held_fresh
  held_lt := h.held_lt
  mutex j := by
    have hj := h.eq_of_locked (i := i) (j := j)
    grind [threads_set, Pc.locked]
  value j := by
    have hj := h.value j
    grind [threads_set]
  low j := by
    have hj := h.low j
    grind [threads_set, System.set]
  even hl := h.even fun j => by
    have hj := hl j
    grind [threads_set]

end Steps

theorem Inv.step {ks : List Nat} {held : ι → Option Nat} (h : s.Inv gen ks held)
    (hs : s.step gen i = some s') : ∃ ks' held', s'.Inv gen ks' held' := by
  unfold System.step at hs
  dsimp only at hs
  split at hs
  · rename_i hpc
    split at hs
    · rename_i hzero
      cases hs
      exact ⟨_, _, h.test_zero hpc hzero⟩
    · rename_i hne
      cases hs
      obtain ⟨k, hk, hvalue⟩ := h.value i (.inl hpc) hne
      exact ⟨_, _, h.test_ne hpc hne hk hvalue⟩
  · rename_i hpc
    split at hs
    · rename_i hfree
      cases hs
      exact ⟨_, _, h.lock hpc hfree⟩
    · cases hs
  · rename_i hpc
    cases hs
    exact ⟨_, _, h.high hpc⟩
  · rename_i hpc
    cases hs
    obtain ⟨k, hdrawn, hhigh⟩ := h.low i hpc
    exact ⟨_, _, h.low_step hpc hdrawn hhigh⟩
  · rename_i hpc
    cases hs
    exact ⟨_, _, h.unlock hpc⟩

/-- A thread has an action, or the thread that has the mutex does. -/
theorem Inv.progress {ks : List Nat} {held : ι → Option Nat} (h : s.Inv gen ks held) (i : ι) :
    (s.step gen i).isSome ∨ ∃ j, s.mutex = some j ∧ (s.step gen j).isSome := by
  cases hm : s.mutex with
  | none =>
    left
    unfold System.step
    dsimp only
    split
    · split <;> rfl
    · rw [if_pos hm]
      rfl
    all_goals rfl
  | some j =>
    have hj := (h.mutex j).mpr hm
    right
    refine ⟨j, rfl, ?_⟩
    unfold System.step
    dsimp only
    cases hpc : (s.threads j).pc with
    | test | lock =>
      rw [hpc] at hj
      cases hj
    | high | low | unlock => rfl

/-- **Any number of threads may call `make_UUID`.** In every order of their actions, what the calls
return are pairs of consecutive numbers of the engine, all of them different pairs, and each a
UUID. At most one thread is in the scope of the lock, and some thread can always go on. -/
theorem make_UUID_threads {is : List ι} (h : run (step gen) initial is = some s) :
    (∃ ks : List Nat, ks.Nodup ∧ s.results.map Prod.snd = ks.map (pair gen) ∧
      ∀ k ∈ ks, 2 * k + 2 ≤ s.drawn ∧ gen (2 * k) ≠ 0) ∧
    (∀ i j, (s.threads i).pc.locked = true → (s.threads j).pc.locked = true → i = j) ∧
    ∀ i, (s.step gen i).isSome ∨ ∃ j, s.mutex = some j ∧ (s.step gen j).isSome := by
  obtain ⟨ks, held, hinv⟩ := run_invariant (I := fun s => ∃ ks held, s.Inv gen ks held) h
    (fun u i v _ ⟨ks, held, hu⟩ huv => hu.step huv) ⟨[], fun _ => none, inv_initial⟩
  exact ⟨⟨ks, hinv.nodup, hinv.results, hinv.ks_ok⟩,
    fun i j hi hj => hinv.eq_of_locked hi hj, hinv.progress⟩

/-- Two threads take turns: the first pair is drawn in vain, as its first number is zero. -/
theorem make_UUID_threads_two :
    ∃ s : System Bool, run (step fun n => UInt64.ofNat (n / 2)) initial
        [true, false, true, true, true, true, false, false, true, false, false, false] = some s ∧
      s.results = [(false, ⟨1, 1⟩)] ∧
      ∃ ks : List Nat, ks.Nodup ∧
        s.results.map Prod.snd = ks.map (pair fun n => UInt64.ofNat (n / 2)) ∧
        ∀ k ∈ ks, 2 * k + 2 ≤ s.drawn ∧ UInt64.ofNat (2 * k / 2) ≠ 0 := by
  obtain ⟨s, hs⟩ : ∃ s : System Bool, run (step fun n => UInt64.ofNat (n / 2)) initial
      [true, false, true, true, true, true, false, false, true, false, false, false] = some s :=
    ⟨_, rfl⟩
  refine ⟨s, hs, ?_, (make_UUID_threads hs).1⟩
  cases hs
  rfl

end System

end Servus.Uint128
