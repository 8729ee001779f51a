import Mathlib.Logic.Equiv.Basic
import Mathlib.Tactic

/-!
# Objects that own a cell by a raw pointer

A `Store` is a heap of cells and, for each live object, its one raw pointer, which may be null.
`Exclusive`: each live object points to a cell that exists, and no two to the same one.
`write`, `allocate`, `swap` and `release` keep it; `not_exclusive_null`: an object that is left with
null breaks it.

`Consistent` allows null, and adds that no cell is lost. `view` is what the objects mean without
their addresses; for each operation there is what it does to the view of a consistent store.
-/

namespace Cpp

structure Store (ι κ : Type) where
  cells : Nat → Option κ := fun _ => none
  /-- The pointer of a live object; `some none` is null. -/
  pointers : ι → Option (Option Nat) := fun _ => none

namespace Store

variable {ι κ : Type} {s : Store ι κ} {x : ι} {a : Nat} {c : κ}

def Live (s : Store ι κ) (x : ι) : Prop := (s.pointers x).isSome = true

instance (s : Store ι κ) (x : ι) : Decidable (s.Live x) := inferInstanceAs (Decidable (_ = true))

/-- Where the pointer of an object leads, and what is there. -/
def deref (s : Store ι κ) (x : ι) : Option (Nat × κ) :=
  ((s.pointers x).bind id).bind fun a => (s.cells a).map (a, ·)

/-- An assignment to the cell at `a`. -/
def write (s : Store ι κ) (a : Nat) (c : κ) : Store ι κ :=
  { s with cells := Function.update s.cells a (some c) }

structure Exclusive (s : Store ι κ) : Prop where
  owns : ∀ x p, s.pointers x = some p → ∃ a c, p = some a ∧ s.cells a = some c
  alone : ∀ x y a, s.pointers x = some (some a) → s.pointers y = some (some a) → x = y

theorem exclusive_empty : Exclusive ({} : Store ι κ) := ⟨nofun, nofun⟩

theorem not_exclusive_null (h : s.pointers x = some none) : ¬ s.Exclusive := by
  intro hs
  obtain ⟨a, c, ha, -⟩ := hs.owns x none h
  cases ha

/-- A live object has its cell. -/
theorem Exclusive.deref (h : s.Exclusive) (hx : s.Live x) :
    ∃ a c, s.pointers x = some (some a) ∧ s.cells a = some c ∧ s.deref x = some (a, c) := by
  obtain ⟨p, hp⟩ := Option.isSome_iff_exists.mp hx
  obtain ⟨a, c, rfl, hc⟩ := h.owns x p hp
  exact ⟨a, c, hp, hc, by simp [Store.deref, hp, hc]⟩

theorem Exclusive.write (h : s.Exclusive) (a : Nat) (c : κ) : (s.write a c).Exclusive := by
  refine ⟨fun x p hx => ?_, h.alone⟩
  obtain ⟨b, d, rfl, hd⟩ := h.owns x p hx
  by_cases hba : b = a
  · exact ⟨b, c, rfl, by simp [Store.write, hba]⟩
  · exact ⟨b, d, rfl, by simp [Store.write, Function.update_of_ne hba, hd]⟩

/-! ## Objects that come and go -/

variable [DecidableEq ι]

/-- A new object, with a new cell at `a`. -/
def allocate (s : Store ι κ) (x : ι) (a : Nat) (c : κ) : Store ι κ where
  cells := Function.update s.cells a (some c)
  pointers := Function.update s.pointers x (some (some a))

/-- A new object, with a null pointer. -/
def null (s : Store ι κ) (x : ι) : Store ι κ :=
  { s with pointers := Function.update s.pointers x (some none) }

/-- `std::swap` of the pointers of two objects. -/
def swap (s : Store ι κ) (x y : ι) : Store ι κ :=
  { s with pointers := s.pointers ∘ Equiv.swap x y }

/-- `delete` of the pointer, at the end of the object. A null pointer is fine, a dangling one is
not. -/
def release (s : Store ι κ) (x : ι) : Option (Store ι κ) :=
  match (s.pointers x).bind id with
  | none => some { s with pointers := Function.update s.pointers x none }
  | some a =>
    if (s.cells a).isSome then
      some ⟨Function.update s.cells a none, Function.update s.pointers x none⟩
    else none

theorem Exclusive.allocate (h : s.Exclusive) (ha : s.cells a = none) (x : ι) (c : κ) :
    (s.allocate x a c).Exclusive := by
  have hother : ∀ y, s.pointers y ≠ some (some a) := by
    intro y hy
    obtain ⟨b, d, hb, hd⟩ := h.owns y _ hy
    cases hb
    simp [ha] at hd
  refine ⟨fun y p hy => ?_, fun y z b hy hz => ?_⟩
  · by_cases hyx : y = x
    · subst hyx
      simp only [Store.allocate, Function.update_self, Option.some.injEq] at hy
      exact ⟨a, c, hy.symm, by simp [Store.allocate]⟩
    · simp only [Store.allocate, Function.update_of_ne hyx] at hy ⊢
      obtain ⟨b, d, rfl, hd⟩ := h.owns y p hy
      have hba : b ≠ a := fun e => hother y (e ▸ hy)
      exact ⟨b, d, rfl, by rwa [Function.update_of_ne hba]⟩
  · simp only [Store.allocate, Function.update_apply] at hy hz
    split at hy <;> split at hz
    · simp_all
    · cases hy
      exact absurd hz (hother z)
    · cases hz
      exact absurd hy (hother y)
    · exact h.alone y z b hy hz

theorem Exclusive.swap (h : s.Exclusive) (x y : ι) : (s.swap x y).Exclusive :=
  ⟨fun _ p hz => h.owns _ p hz,
    fun _ _ a hz hw => (Equiv.swap x y).injective (h.alone _ _ a hz hw)⟩

/-- The end of an object takes its own cell with it, and no other. -/
theorem Exclusive.release (h : s.Exclusive) (hx : s.Live x) :
    ∃ t, s.release x = some t ∧ t.Exclusive := by
  obtain ⟨a, c, hp, hc, -⟩ := h.deref hx
  have hrelease : s.release x =
      some ⟨Function.update s.cells a none, Function.update s.pointers x none⟩ := by
    simp [Store.release, hp, hc]
  have hkeep : ∀ y q, Function.update s.pointers x none y = some q →
      y ≠ x ∧ s.pointers y = some q := by
    intro y q hy
    by_cases hyx : y = x
    · simp [hyx] at hy
    · exact ⟨hyx, by rwa [Function.update_of_ne hyx] at hy⟩
  refine ⟨_, hrelease, fun y p hy => ?_, fun y z b hy hz => ?_⟩
  · obtain ⟨hyx, hy⟩ := hkeep y p hy
    obtain ⟨b, d, rfl, hd⟩ := h.owns y p hy
    have hba : b ≠ a := fun e => hyx (h.alone y x a (e ▸ hy) hp)
    exact ⟨b, d, rfl, (Function.update_of_ne hba none s.cells).trans hd⟩
  · exact h.alone y z b (hkeep y _ hy).2 (hkeep z _ hz).2

/-! ## The objects without their addresses -/

/-- The value of a live object; `some none` for one whose pointer is null. -/
def view (s : Store ι κ) (x : ι) : Option (Option κ) := (s.pointers x).map (·.bind s.cells)

/-- Each pointer is null or leads to a cell, and each cell is that of one object. -/
structure Consistent (s : Store ι κ) : Prop where
  valid : ∀ x a, s.pointers x = some (some a) → (s.cells a).isSome = true
  alone : ∀ x y a, s.pointers x = some (some a) → s.pointers y = some (some a) → x = y
  kept : ∀ a, (s.cells a).isSome = true → ∃ x, s.pointers x = some (some a)

omit [DecidableEq ι] in
theorem consistent_empty : Consistent ({} : Store ι κ) := ⟨nofun, nofun, nofun⟩

omit [DecidableEq ι] in
theorem isSome_view : (s.view x).isSome = true ↔ s.Live x := by rw [view, Option.isSome_map, Live]

omit [DecidableEq ι] in
theorem map_deref : (s.deref x).map Prod.snd = (s.view x).join := by
  cases hp : s.pointers x with
  | none => simp [deref, view, hp]
  | some p => cases p <;> simp [deref, view, hp, Option.map_map, Function.comp_def]

omit [DecidableEq ι] in
/-- The address behind a value. -/
theorem deref_of_view (h : s.view x = some (some c)) :
    ∃ a, s.pointers x = some (some a) ∧ s.cells a = some c ∧ s.deref x = some (a, c) := by
  obtain ⟨p, hp, hc⟩ := Option.map_eq_some_iff.mp h
  obtain ⟨a, rfl, hc⟩ := Option.bind_eq_some_iff.mp hc
  have hcell : s.cells a = some c := hc
  exact ⟨a, hp, hcell, by simp [deref, hp, hcell]⟩

omit [DecidableEq ι] in
/-- An object means the same when its pointer and its cell are the same. -/
theorem view_congr {t : Store ι κ} (hp : t.pointers x = s.pointers x)
    (hc : ∀ a, s.pointers x = some (some a) → t.cells a = s.cells a) : t.view x = s.view x := by
  rw [view, view, hp]
  cases hx : s.pointers x with
  | none => rfl
  | some p =>
    cases p with
    | none => rfl
    | some a => exact congrArg some (hc a hx)

theorem Consistent.write (h : s.Consistent) (hx : s.pointers x = some (some a)) (c : κ) :
    (s.write a c).Consistent ∧ (s.write a c).view = Function.update s.view x (some (some c)) := by
  refine ⟨⟨fun y b hy => ?_, h.alone, fun b hb => ?_⟩, funext fun y => ?_⟩
  · have hvalid := h.valid y b hy
    simp only [Store.write, Function.update_apply]
    split
    · rfl
    · exact hvalid
  · by_cases hba : b = a
    · exact ⟨x, hba ▸ hx⟩
    · exact h.kept b (by simpa [Store.write, Function.update_of_ne hba] using hb)
  · by_cases hyx : y = x
    · subst hyx
      simp [view, Store.write, hx]
    · rw [Function.update_of_ne hyx]
      refine view_congr rfl fun b hy => Function.update_of_ne ?_ ..
      exact fun e => hyx (h.alone y x a (e ▸ hy) hx)

theorem Consistent.allocate (h : s.Consistent) (hx : ¬ s.Live x) (ha : s.cells a = none) (c : κ) :
    (s.allocate x a c).Consistent ∧
      (s.allocate x a c).view = Function.update s.view x (some (some c)) := by
  have hother : ∀ y, s.pointers y ≠ some (some a) := by
    intro y hy
    have hvalid := h.valid y a hy
    rw [ha] at hvalid
    cases hvalid
  refine ⟨⟨fun y b hy => ?_, fun y z b hy hz => ?_, fun b hb => ?_⟩, funext fun y => ?_⟩
  · by_cases hyx : y = x
    · subst hyx
      obtain rfl : a = b := by simpa [Store.allocate] using hy
      simp [Store.allocate]
    · have hy : s.pointers y = some (some b) := by
        simpa [Store.allocate, Function.update_of_ne hyx] using hy
      have hba : b ≠ a := fun e => hother y (e ▸ hy)
      simpa [Store.allocate, Function.update_of_ne hba] using h.valid y b hy
  · simp only [Store.allocate, Function.update_apply] at hy hz
    split at hy <;> split at hz
    · simp_all
    · cases hy
      exact absurd hz (hother z)
    · cases hz
      exact absurd hy (hother y)
    · exact h.alone y z b hy hz
  · by_cases hba : b = a
    · exact ⟨x, by simp [Store.allocate, hba]⟩
    · obtain ⟨y, hy⟩ := h.kept b (by simpa [Store.allocate, Function.update_of_ne hba] using hb)
      have hyx : y ≠ x := by
        rintro rfl
        exact hx (by rw [Live, hy]; rfl)
      exact ⟨y, by simpa [Store.allocate, Function.update_of_ne hyx] using hy⟩
  · by_cases hyx : y = x
    · subst hyx
      simp [view, Store.allocate]
    · rw [Function.update_of_ne hyx]
      refine view_congr (Function.update_of_ne hyx ..) fun b hy => Function.update_of_ne ?_ ..
      exact fun e => hother y (e ▸ hy)

theorem Consistent.null (h : s.Consistent) (hx : ¬ s.Live x) :
    (s.null x).Consistent ∧ (s.null x).view = Function.update s.view x (some none) := by
  have hkeep : ∀ y a, (s.null x).pointers y = some (some a) → s.pointers y = some (some a) := by
    intro y a hy
    by_cases hyx : y = x
    · simp [Store.null, hyx] at hy
    · simpa [Store.null, Function.update_of_ne hyx] using hy
  refine ⟨⟨fun y a hy => h.valid y a (hkeep y a hy),
    fun y z a hy hz => h.alone y z a (hkeep y a hy) (hkeep z a hz), fun a ha => ?_⟩,
    funext fun y => ?_⟩
  · obtain ⟨y, hy⟩ := h.kept a ha
    have hyx : y ≠ x := by
      rintro rfl
      exact hx (by rw [Live, hy]; rfl)
    exact ⟨y, by simpa [Store.null, Function.update_of_ne hyx] using hy⟩
  · by_cases hyx : y = x
    · simp [view, Store.null, hyx]
    · simp [view, Store.null, Function.update_of_ne hyx]

theorem Consistent.swap (h : s.Consistent) (x y : ι) :
    (s.swap x y).Consistent ∧ (s.swap x y).view = s.view ∘ Equiv.swap x y := by
  refine ⟨⟨fun z a hz => h.valid _ a hz, fun z w a hz hw =>
    (Equiv.swap x y).injective (h.alone _ _ a hz hw), fun a ha => ?_⟩, rfl⟩
  obtain ⟨z, hz⟩ := h.kept a ha
  exact ⟨Equiv.swap x y z, by simp [Store.swap, hz]⟩

/-- The end of an object takes its own cell with it, if it has one. -/
theorem Consistent.release (h : s.Consistent) (x : ι) :
    ∃ t, s.release x = some t ∧ t.Consistent ∧ t.view = Function.update s.view x none := by
  have hkeep : ∀ y q, Function.update s.pointers x none y = some q →
      y ≠ x ∧ s.pointers y = some q := by
    intro y q hy
    by_cases hyx : y = x
    · simp [hyx] at hy
    · exact ⟨hyx, by rwa [Function.update_of_ne hyx] at hy⟩
  cases hp : (s.pointers x).bind id with
  | none =>
    have hx : ∀ a, s.pointers x ≠ some (some a) := by
      intro a ha
      simp [ha] at hp
    have hrelease : s.release x =
        some { s with pointers := Function.update s.pointers x none } := by
      rw [Store.release, hp]
    refine ⟨_, hrelease, ⟨fun y a hy => h.valid y a (hkeep y _ hy).2,
      fun y z a hy hz => h.alone y z a (hkeep y _ hy).2 (hkeep z _ hz).2, fun a ha => ?_⟩,
      funext fun y => ?_⟩
    · obtain ⟨y, hy⟩ := h.kept a ha
      have hyx : y ≠ x := by
        rintro rfl
        exact hx a hy
      exact ⟨y, (Function.update_of_ne hyx none s.pointers).trans hy⟩
    · by_cases hyx : y = x
      · simp [view, hyx]
      · rw [Function.update_of_ne hyx]
        exact view_congr (Function.update_of_ne hyx ..) fun _ _ => rfl
  | some a =>
    have hpx : s.pointers x = some (some a) := by
      obtain ⟨p, hpx, rfl⟩ := Option.bind_eq_some_iff.mp hp
      exact hpx
    have hrelease : s.release x =
        some ⟨Function.update s.cells a none, Function.update s.pointers x none⟩ := by
      rw [Store.release, hp]
      exact if_pos (h.valid x a hpx)
    refine ⟨_, hrelease, ⟨fun y b hy => ?_,
      fun y z b hy hz => h.alone y z b (hkeep y _ hy).2 (hkeep z _ hz).2, fun b hb => ?_⟩,
      funext fun y => ?_⟩
    · obtain ⟨hyx, hy⟩ := hkeep y _ hy
      have hba : b ≠ a := fun e => hyx (h.alone y x a (e ▸ hy) hpx)
      exact (congrArg Option.isSome (Function.update_of_ne hba none s.cells)).trans (h.valid y b hy)
    · by_cases hba : b = a
      · simp [hba] at hb
      · obtain ⟨y, hy⟩ := h.kept b (by simpa [Function.update_of_ne hba] using hb)
        have hyx : y ≠ x := by
          rintro rfl
          exact hba (Option.some.inj (Option.some.inj (hy.symm.trans hpx)))
        exact ⟨y, (Function.update_of_ne hyx none s.pointers).trans hy⟩
    · by_cases hyx : y = x
      · simp [view, hyx]
      · rw [Function.update_of_ne hyx]
        refine view_congr (Function.update_of_ne hyx ..) fun b hy => Function.update_of_ne ?_ ..
        exact fun e => hyx (h.alone y x a (e ▸ hy) hpx)

end Store

end Cpp
