import Mathlib

/-!
# `std::map` and `std::set`

Ordered containers are the extensional trees of `Std`; a loop over one is a fold over its `toList`.

* `assignAll`: a loop of `m[key] = value`. `getElem?_assignAll` says that the last value of a key
  wins, `getElem?_assignAll_bindings` that a loop over a whole map overrides.
* `setSymmetricDifference`: the merge of `<algorithm>`. On strictly ascending ranges it gives, again
  ascending, what stands in exactly one of them.
-/

namespace Cpp

/-- A search from the end finds the last element with `p`. -/
theorem find?_reverse_eq_some {α : Type*} {p : α → Bool} {l : List α} {a : α} :
    l.reverse.find? p = some a ↔
      p a = true ∧ ∃ before after, l = before ++ a :: after ∧ ∀ b ∈ after, p b = false := by
  simp only [List.find?_eq_some_iff_append, Bool.not_eq_true']
  refine and_congr_right fun _ => ⟨?_, ?_⟩
  · rintro ⟨as, bs, h, has⟩
    refine ⟨bs.reverse, as.reverse, ?_, fun b hb => has b (List.mem_reverse.mp hb)⟩
    simpa using congrArg List.reverse h
  · rintro ⟨before, after, rfl, hafter⟩
    exact ⟨after.reverse, before.reverse, by simp, fun b hb => hafter b (List.mem_reverse.mp hb)⟩

/-! ## Maps -/

section Map

variable {κ β : Type} [Ord κ] [Std.TransOrd κ] [Std.LawfulEqOrd κ] [DecidableEq κ]

/-- `for (kv : entries) m[kv.first] = kv.second`. -/
def assignAll (m : Std.ExtTreeMap κ β) (entries : List (κ × β)) : Std.ExtTreeMap κ β :=
  entries.foldl (fun m kv => m.insert kv.1 kv.2) m

theorem getElem?_assignAll (m : Std.ExtTreeMap κ β) (entries : List (κ × β)) (k : κ) :
    (assignAll m entries)[k]? = ((entries.reverse.find? (·.1 = k)).map (·.2)).or m[k]? := by
  induction entries generalizing m with
  | nil => rfl
  | cons kv entries ih =>
    rw [assignAll, List.foldl_cons, ← assignAll, ih, List.reverse_cons, List.find?_append]
    cases entries.reverse.find? (·.1 = k) with
    | some _ => simp
    | none =>
      by_cases hk : kv.1 = k
      · simp [hk]
      · simp [Std.ExtTreeMap.getElem?_insert, hk]

theorem getElem?_assignAll_map {α : Type*} (m : Std.ExtTreeMap κ β) {l : List α} {f : α → κ × β}
    {key : α → κ} (hf : ∀ a ∈ l, (f a).1 = key a) (k : κ) :
    (assignAll m (l.map f))[k]? =
      ((l.reverse.find? (key · = k)).map fun a => (f a).2).or m[k]? := by
  have hfind : l.reverse.find? ((·.1 = k) ∘ f) = l.reverse.find? (key · = k) :=
    List.find?_congr fun a ha => by simp [hf a (List.mem_reverse.mp ha)]
  rw [getElem?_assignAll, ← List.map_reverse, List.find?_map, Option.map_map]
  exact congrArg (fun o => (Option.map (fun a => (f a).2) o).or m[k]?) hfind

/-- A loop over the bindings of a map, in any order, overrides with that map. -/
theorem getElem?_assignAll_bindings (m m' : Std.ExtTreeMap κ β) {entries : List (κ × β)}
    (h : ∀ kv, kv ∈ entries ↔ kv ∈ m'.toList) (k : κ) :
    (assignAll m entries)[k]? = m'[k]?.or m[k]? := by
  rw [getElem?_assignAll]
  congr 1
  cases hfind : entries.reverse.find? (·.1 = k) with
  | some kv =>
    obtain rfl : kv.1 = k := by simpa using List.find?_some hfind
    have hmem := (h kv).mp (List.mem_reverse.mp (List.mem_of_find?_eq_some hfind))
    exact (Std.ExtTreeMap.mem_toList_iff_getElem?_eq_some.mp hmem).symm
  | none =>
    cases hv : m'[k]? with
    | none => rfl
    | some v =>
      have hmem := (h (k, v)).mpr (Std.ExtTreeMap.mem_toList_iff_getElem?_eq_some.mpr hv)
      simpa using List.find?_eq_none.mp hfind (k, v) (List.mem_reverse.mpr hmem)

theorem getElem?_assignAll_toList (m m' : Std.ExtTreeMap κ β) (k : κ) :
    (assignAll m m'.toList)[k]? = m'[k]?.or m[k]? :=
  getElem?_assignAll_bindings m m' (fun _ => Iff.rfl) k

omit [DecidableEq κ] in
/-- Maps with the same keys list them in the same order. -/
theorem keys_eq_of_mem_iff {γ : Type} {m : Std.ExtTreeMap κ β} {m' : Std.ExtTreeMap κ γ}
    (h : ∀ k, k ∈ m ↔ k ∈ m') : m.keys = m'.keys := by
  have hm : m.keys.Pairwise fun a b => compare a b = .lt := Std.ExtTreeMap.ordered_keys
  have hm' : m'.keys.Pairwise fun a b => compare a b = .lt := Std.ExtTreeMap.ordered_keys
  have hne : ∀ {a b : κ}, compare a b = .lt → a ≠ b := by
    rintro a b hab rfl
    simp at hab
  refine List.Perm.eq_of_pairwise ?_ hm hm' ?_
  · intro a b _ _ hab hba
    rw [Std.OrientedCmp.gt_of_lt hba] at hab
    cases hab
  · refine (List.perm_ext_iff_of_nodup (hm.imp hne) (hm'.imp hne)).mpr fun k => ?_
    rw [Std.ExtTreeMap.mem_keys, Std.ExtTreeMap.mem_keys, h]

end Map

/-! ## Sets -/

section Set

variable {α : Type} [LinearOrder α]

/-- The merge with the first range at `x :: xs`; `rest` merges `xs` with what is left. -/
def symmetricDifferenceFrom (x : α) (xs : List α) (rest : List α → List α) : List α → List α
  | [] => x :: xs
  | y :: ys =>
    if x < y then x :: rest (y :: ys)
    else if y < x then y :: symmetricDifferenceFrom x xs rest ys
    else rest ys

/-- `std::set_symmetric_difference`. -/
def setSymmetricDifference : List α → List α → List α
  | [], ys => ys
  | x :: xs, ys => symmetricDifferenceFrom x xs (setSymmetricDifference xs) ys

theorem mem_setSymmetricDifference {xs ys : List α} (hx : xs.Pairwise (· < ·))
    (hy : ys.Pairwise (· < ·)) (a : α) :
    a ∈ setSymmetricDifference xs ys ↔ (a ∈ xs ∧ a ∉ ys) ∨ (a ∈ ys ∧ a ∉ xs) := by
  induction xs generalizing ys with
  | nil => simp [setSymmetricDifference]
  | cons x xs ih =>
    obtain ⟨hx1, hx2⟩ := List.pairwise_cons.mp hx
    induction ys with
    | nil => simp [setSymmetricDifference, symmetricDifferenceFrom]
    | cons y ys ihy =>
      obtain ⟨hy1, hy2⟩ := List.pairwise_cons.mp hy
      simp only [setSymmetricDifference, symmetricDifferenceFrom] at ihy ⊢
      rcases lt_trichotomy x y with hlt | rfl | hgt
      · have hxy : ∀ b ∈ y :: ys, x ≠ b := by
          intro b hb
          rcases List.mem_cons.mp hb with rfl | hb
          · exact hlt.ne
          · exact (hlt.trans (hy1 b hb)).ne
        have hxs : ∀ b ∈ xs, x ≠ b := fun b hb => (hx1 b hb).ne
        rw [if_pos hlt, List.mem_cons, ih hx2 hy]
        grind
      · have hxs : ∀ b ∈ xs, x ≠ b := fun b hb => (hx1 b hb).ne
        have hys : ∀ b ∈ ys, x ≠ b := fun b hb => (hy1 b hb).ne
        rw [if_neg (lt_irrefl x), if_neg (lt_irrefl x), ih hx2 hy2]
        grind
      · have hyx : ∀ b ∈ x :: xs, y ≠ b := by
          intro b hb
          rcases List.mem_cons.mp hb with rfl | hb
          · exact hgt.ne
          · exact (hgt.trans (hx1 b hb)).ne
        have hys : ∀ b ∈ ys, y ≠ b := fun b hb => (hy1 b hb).ne
        rw [if_neg hgt.not_gt, if_pos hgt, List.mem_cons, ihy hy2]
        grind

theorem nodup_setSymmetricDifference {xs ys : List α} (hx : xs.Pairwise (· < ·))
    (hy : ys.Pairwise (· < ·)) : (setSymmetricDifference xs ys).Nodup := by
  induction xs generalizing ys with
  | nil => exact hy.imp fun h => h.ne
  | cons x xs ih =>
    obtain ⟨hx1, hx2⟩ := List.pairwise_cons.mp hx
    induction ys with
    | nil => exact hx.imp fun h => h.ne
    | cons y ys ihy =>
      obtain ⟨hy1, hy2⟩ := List.pairwise_cons.mp hy
      simp only [setSymmetricDifference, symmetricDifferenceFrom] at ihy ⊢
      rcases lt_trichotomy x y with hlt | rfl | hgt
      · rw [if_pos hlt, List.nodup_cons, mem_setSymmetricDifference hx2 hy]
        refine ⟨?_, ih hx2 hy⟩
        rintro (⟨h, -⟩ | ⟨h, -⟩)
        · exact lt_irrefl x (hx1 x h)
        · rcases List.mem_cons.mp h with rfl | h
          · exact lt_irrefl x hlt
          · exact lt_irrefl x (hlt.trans (hy1 x h))
      · rw [if_neg (lt_irrefl x), if_neg (lt_irrefl x)]
        exact ih hx2 hy2
      · have hmem := mem_setSymmetricDifference hx hy2 y
        rw [setSymmetricDifference] at hmem
        rw [if_neg hgt.not_gt, if_pos hgt, List.nodup_cons, hmem]
        refine ⟨?_, ihy hy2⟩
        rintro (⟨h, -⟩ | ⟨h, -⟩)
        · rcases List.mem_cons.mp h with rfl | h
          · exact lt_irrefl y hgt
          · exact lt_irrefl y (hgt.trans (hx1 y h))
        · exact lt_irrefl y (hy1 y h)

end Set

end Cpp
