import Mathlib.Tactic

/-!
# Runs of a step function

A system is a function `step : σ → α → Option σ`: the state after an operation, or `none` when the
operation cannot take place in that state.

* `run`: the state after a list of operations. `run_invariant` is the induction of every safety
  property: what holds initially and is kept by each step holds after every run.
* `EveryStep`: a condition on an operation and the state in front of it, at every operation of a
  run. `EveryStep.invariant` and `EveryStep.imp` are the inductions for runs whose steps all meet
  a condition: the invariant need only survive such steps. `forall_prefix_iff`: for an exact
  condition, the steps meet it exactly if the invariant holds all along the run.
* `outputs`: what a run puts out. `view_run`: a view of the state that each step changes by its
  output alone is a function of the output.
-/

namespace Cpp

variable {σ α : Type} {step : σ → α → Option σ} {s s' t : σ} {as bs : List α}

/-- The state after the operations `as`, if they can all take place. -/
def run (step : σ → α → Option σ) : σ → List α → Option σ
  | s, [] => some s
  | s, a :: as => (step s a).bind fun s' => run step s' as

/-- `C` holds at every operation of the run, in the state in front of it. -/
def EveryStep (step : σ → α → Option σ) (C : σ → α → Prop) : σ → List α → Prop
  | _, [] => True
  | s, a :: as => C s a ∧ ∀ s', step s a = some s' → EveryStep step C s' as

/-- Along a concrete run a decidable condition is decided. -/
instance EveryStep.decidable (C : σ → α → Prop) [∀ s a, Decidable (C s a)] :
    ∀ s as, Decidable (EveryStep step C s as)
  | _, [] => isTrue trivial
  | s, a :: as =>
    match h : step s a with
    | none => decidable_of_iff (C s a) ⟨fun hC => ⟨hC, fun s' h' => by simp [h] at h'⟩, And.left⟩
    | some s' =>
      have := EveryStep.decidable C s' as
      decidable_of_iff (C s a ∧ EveryStep step C s' as)
        ⟨fun hC => ⟨hC.1, fun t ht => by
          obtain rfl : s' = t := by simpa [h] using ht
          exact hC.2⟩, fun hC => ⟨hC.1, hC.2 s' h⟩⟩

@[simp] theorem run_nil : run step s [] = some s := rfl

theorem run_cons {a : α} : run step s (a :: as) = (step s a).bind fun s' => run step s' as := rfl

theorem run_cons_eq_some {a : α} :
    run step s (a :: as) = some t ↔ ∃ s', step s a = some s' ∧ run step s' as = some t := by
  rw [run_cons, Option.bind_eq_some_iff]

theorem run_append_eq_some :
    run step s (as ++ bs) = some t ↔ ∃ s', run step s as = some s' ∧ run step s' bs = some t := by
  induction as generalizing s with
  | nil => simp
  | cons a as ih =>
    simp only [List.cons_append, run_cons_eq_some, ih]
    constructor
    · rintro ⟨u, hu, v, hv, ht⟩
      exact ⟨v, ⟨u, hu, hv⟩, ht⟩
    · rintro ⟨v, ⟨u, hu, hv⟩, ht⟩
      exact ⟨u, hu, v, hv, ht⟩

/-- A loop over the elements of a list is a run. -/
theorem foldlM_eq_run : as.foldlM step s = run step s as := by
  induction as generalizing s with
  | nil => rfl
  | cons a as ih =>
    rw [List.foldlM_cons, run_cons]
    exact congrArg (Option.bind (step s a)) (funext fun s' => ih)

/-- What every step keeps, every run keeps. The step may use that its operation is one of the
run's. -/
theorem run_invariant {I : σ → Prop} (h : run step s as = some t)
    (hstep : ∀ u a v, a ∈ as → I u → step u a = some v → I v) (hs : I s) : I t := by
  induction as generalizing s with
  | nil => cases h; exact hs
  | cons a as ih =>
    obtain ⟨s', h1, h2⟩ := run_cons_eq_some.mp h
    exact ih h2 (fun u b v hb => hstep u b v (List.mem_cons_of_mem a hb))
      (hstep s a s' List.mem_cons_self hs h1)

/-- An invariant that survives the steps which meet `C` holds after a run of such steps. -/
theorem EveryStep.invariant {C : σ → α → Prop} {I : σ → Prop} (hC : EveryStep step C s as)
    (h : run step s as = some t) (hstep : ∀ u a v, I u → C u a → step u a = some v → I v)
    (hs : I s) : I t := by
  induction as generalizing s with
  | nil => cases h; exact hs
  | cons a as ih =>
    obtain ⟨s', h1, h2⟩ := run_cons_eq_some.mp h
    exact ih (hC.2 s' h1) h2 (hstep s a s' hs hC.1 h1)

/-- What is met along a run is met along its beginning. -/
theorem EveryStep.of_prefix {C : σ → α → Prop} (hC : EveryStep step C s as) (h : bs <+: as) :
    EveryStep step C s bs := by
  induction as generalizing s bs with
  | nil =>
    rw [List.prefix_nil.mp h]
    trivial
  | cons a as ih =>
    cases bs with
    | nil => trivial
    | cons b bs =>
      obtain ⟨rfl, hbs⟩ := List.cons_prefix_cons.mp h
      exact ⟨hC.1, fun s' hs' => ih (hC.2 s' hs') hbs⟩

/-- One condition implies another along a run, under an invariant that survives its steps. -/
theorem EveryStep.imp {C D : σ → α → Prop} {I : σ → Prop} (hC : EveryStep step C s as)
    (hstep : ∀ u a v, a ∈ as → I u → C u a → step u a = some v → I v)
    (hCD : ∀ u a, a ∈ as → I u → C u a → D u a) (hs : I s) : EveryStep step D s as := by
  induction as generalizing s with
  | nil => trivial
  | cons a as ih =>
    have ha : a ∈ a :: as := List.mem_cons_self
    refine ⟨hCD s a ha hs hC.1, fun s' h => ?_⟩
    exact ih (hC.2 s' h) (fun u b v hb => hstep u b v (List.mem_cons_of_mem a hb))
      (fun u b hb => hCD u b (List.mem_cons_of_mem a hb)) (hstep s a s' ha hs hC.1 h)

/-- Along a run two conditions agree that agree under an invariant, which survives the steps that
meet them. -/
theorem everyStep_congr {C D : σ → α → Prop} {I : σ → Prop} (hiff : ∀ u a, I u → (C u a ↔ D u a))
    (hstep : ∀ u a v, I u → C u a → step u a = some v → I v) (hs : I s) :
    EveryStep step C s as ↔ EveryStep step D s as := by
  constructor
  · intro h
    exact h.imp (fun u a v _ => hstep u a v) (fun u a _ hI hC => (hiff u a hI).mp hC) hs
  · intro h
    exact h.imp (fun u a v _ hI hD => hstep u a v hI ((hiff u a hI).mpr hD))
      (fun u a _ hI hD => (hiff u a hI).mpr hD) hs

/-- When a step keeps an invariant exactly if it meets `C`, the invariant holds all along a run
exactly if it holds initially and every step meets `C`. -/
theorem forall_prefix_iff {C : σ → α → Prop} {I : σ → Prop}
    (hstep : ∀ u a, I u → ∃ v, step u a = some v ∧ (I v ↔ C u a)) :
    (∀ bs t, bs <+: as → run step s bs = some t → I t) ↔ I s ∧ EveryStep step C s as := by
  constructor
  · intro h
    have hs : I s := h [] s List.nil_prefix rfl
    refine ⟨hs, ?_⟩
    induction as generalizing s with
    | nil => trivial
    | cons a as ih =>
      obtain ⟨v, hv, hiff⟩ := hstep s a hs
      have hrest : ∀ bs t, bs <+: as → run step v bs = some t → I t := fun bs t hbs ht =>
        h (a :: bs) t (List.cons_prefix_cons.mpr ⟨rfl, hbs⟩) (run_cons_eq_some.mpr ⟨v, hv, ht⟩)
      have hI : I v := hrest [] v List.nil_prefix rfl
      refine ⟨hiff.mp hI, fun v' hv' => ?_⟩
      obtain rfl : v = v' := Option.some.inj (hv.symm.trans hv')
      exact ih hrest hI
  · rintro ⟨hs, hC⟩ bs t hbs ht
    refine (hC.of_prefix hbs).invariant ht (fun u a v hu ha hv => ?_) hs
    obtain ⟨v', hv', hiff⟩ := hstep u a hu
    obtain rfl : v = v' := Option.some.inj (hv.symm.trans hv')
    exact hiff.mpr ha

/-- A function `f` of the state maps the run of one system to the run of another, when it maps each
step that meets `C`, and an invariant survives these. -/
theorem EveryStep.map_run {τ : Type} {step' : τ → α → Option τ} {f : σ → τ} {C : σ → α → Prop}
    {I : σ → Prop} (hC : EveryStep step C s as)
    (hstep : ∀ u a, I u → C u a → (step u a).map f = step' (f u) a ∧ ∀ v, step u a = some v → I v)
    (hs : I s) : (run step s as).map f = run step' (f s) as := by
  induction as generalizing s with
  | nil => rfl
  | cons a as ih =>
    obtain ⟨hmap, hkeep⟩ := hstep s a hs hC.1
    rw [run_cons, run_cons, ← hmap]
    cases h : step s a with
    | none => rfl
    | some s' => exact ih (hC.2 s' h) (hkeep s' h)

/-- A view of the state that each operation changes in a way of its own, the operations of a run
change one after the other. -/
theorem foldl_run {τ : Type} {view : σ → τ} {act : τ → α → τ}
    (hstep : ∀ u a v, step u a = some v → view v = act (view u) a) (h : run step s as = some t) :
    view t = as.foldl act (view s) := by
  induction as generalizing s with
  | nil => cases h; rfl
  | cons a as ih =>
    obtain ⟨s', h1, h2⟩ := run_cons_eq_some.mp h
    rw [List.foldl_cons, ← hstep s a s' h1]
    exact ih h2

/-! ## The output of a run -/

section Outputs

variable {ε : Type} {out : σ → α → List ε}

/-- What the operations of a run put out. -/
def outputs (step : σ → α → Option σ) (out : σ → α → List ε) : σ → List α → List ε
  | _, [] => []
  | s, a :: as => out s a ++ ((step s a).elim [] fun s' => outputs step out s' as)

/-- A view of the state that each step changes by its output alone, a run changes by its output. -/
theorem view_run {τ : Type} {view : σ → τ} {act : τ → ε → τ}
    (hstep : ∀ u a v, step u a = some v → view v = (out u a).foldl act (view u))
    (h : run step s as = some t) : view t = (outputs step out s as).foldl act (view s) := by
  induction as generalizing s with
  | nil => cases h; rfl
  | cons a as ih =>
    obtain ⟨s', h1, h2⟩ := run_cons_eq_some.mp h
    rw [outputs, h1, Option.elim_some, List.foldl_append, ← hstep s a s' h1]
    exact ih h2

/-- What holds of the output of each step, holds of the output of the run. -/
theorem EveryStep.forall_outputs {P : ε → Prop}
    (hC : EveryStep step (fun s a => ∀ e ∈ out s a, P e) s as) :
    ∀ e ∈ outputs step out s as, P e := by
  induction as generalizing s with
  | nil => exact fun e he => absurd he List.not_mem_nil
  | cons a as ih =>
    intro e he
    rcases List.mem_append.mp he with he | he
    · exact hC.1 e he
    · cases h : step s a with
      | none => rw [h] at he; cases he
      | some s' =>
        rw [h] at he
        exact ih (hC.2 s' h) e he

end Outputs

/-- The condition at the last operation. -/
theorem EveryStep.last {C : σ → α → Prop} {a : α} (hC : EveryStep step C s (as ++ [a]))
    (h : run step s as = some t) : C t a := by
  induction as generalizing s with
  | nil => cases h; exact hC.1
  | cons b as ih =>
    obtain ⟨s', h1, h2⟩ := run_cons_eq_some.mp h
    exact ih (hC.2 s' h1) h2

end Cpp
