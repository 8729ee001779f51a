import Servus.Serializable.Model

/-!
# What the objects mean

Without their addresses, the objects are values: a live object has its two callbacks, or nothing
when it was moved from. `Values.step` says what an operation does to values: a copy has the
callbacks of its source, a move takes them away, an assignment by move exchanges them.

`run_values`: as long as a `new` gives an address that is free, the objects with their pointers do
the same as the values, in every sequence of operations, and are undefined exactly when these are;
no implementation is shared, and none is lost.
-/

namespace Servus.Serializable

open Cpp

structure Values where
  /-- A live object; `some none` is one without an implementation. -/
  objects : Nat → Option (Option Impl) := fun _ => none
  notified : List Callback := []

namespace Values

variable (v : Values)

/-- The callbacks of a live object that has an implementation. -/
def value (x : Nat) : Option Impl := (v.objects x).join

def set (x : Nat) (i : Option Impl) : Values :=
  { v with objects := Function.update v.objects x (some i) }

def notify (callback : Option Callback) : Values :=
  { v with notified := v.notified ++ callback.toList }

def register (x : Nat) (get : Impl → Option Callback) (set : Impl → Impl)
    (callback : Option Callback) : Option Values :=
  (v.value x).map fun i => if (get i).isSome ∧ callback.isSome then v else v.set x (some (set i))

/-- The effect of an operation on the values. -/
def step : Op → Option Values
  | .construct x _ => if v.objects x = none then some (v.set x (some {})) else none
  | .copyConstruct x rhs _ =>
    if v.objects x = none then (v.value rhs).map fun i => v.set x (some i) else none
  | .moveConstruct x rhs =>
    if v.objects x = none then (v.objects rhs).map fun i => (v.set x i).set rhs none else none
  | .copyAssign x rhs =>
    if x = rhs then (v.objects x).map fun _ => v
    else (v.value x).bind fun _ => (v.value rhs).map fun i => v.set x (some i)
  | .moveAssign x rhs =>
    (v.objects x).bind fun i => (v.objects rhs).map fun j => (v.set x j).set rhs i
  | .destroy x =>
    (v.objects x).map fun _ => { v with objects := Function.update v.objects x none }
  | .registerDeserializedCallback x c =>
    v.register x (·.deserialized) (fun i => { i with deserialized := c }) c
  | .registerSerializeCallback x c =>
    v.register x (·.serialize) (fun i => { i with serialize := c }) c
  | .fromBinary x (.ok true) | .fromJSON x (.ok true) =>
    (v.value x).map fun i => v.notify i.deserialized
  | .fromBinary x _ | .fromJSON x _ => (v.objects x).map fun _ => v
  | .toBinary x _ | .toJSON x _ => (v.value x).map fun i => v.notify i.serialize

end Values

/-- A `new` gives an address that is free. -/
def Op.FreshIn (s : State) : Op → Prop
  | .construct _ a | .copyConstruct _ _ a => s.cells a = none
  | _ => True

namespace State

/-- The objects without their addresses. -/
def values (s : State) : Values := ⟨s.view, s.notified⟩

/-- The step of a state is that of its values. -/
def Refines (s : State) (op : Op) : Prop :=
  (s.step op).map values = s.values.step op ∧ ∀ t, s.step op = some t → t.Consistent

variable {s : State}

theorem live_iff {x : Nat} : s.Live x ↔ s.values.objects x ≠ none := by
  rw [← Store.isSome_view, Option.isSome_iff_ne_none]
  rfl

theorem deref_eq_none {x : Nat} (h : s.values.value x = none) : s.deref x = none := by
  have hmap := Store.map_deref (s := s.toStore) (x := x)
  rw [← Option.map_eq_none_iff (f := Prod.snd), hmap]
  exact h

theorem deref_eq_some {x : Nat} {i : Impl} (h : s.values.value x = some i) :
    ∃ a, s.pointers x = some (some a) ∧ s.cells a = some i ∧ s.deref x = some (a, i) :=
  Store.deref_of_view (Option.join_eq_some_iff.mp h)

theorem live_of_value {x : Nat} {i : Impl} (h : s.values.value x = some i) : s.Live x := by
  rw [live_iff, Option.join_eq_some_iff.mp h]
  exact Option.some_ne_none _

theorem values_eq {store : Store Nat Impl} {objects : Nat → Option (Option Impl)}
    (h : store.view = objects) :
    ({ s with toStore := store } : State).values = ⟨objects, s.notified⟩ := by rw [values, h]

/-- The values when the store changes at one object. -/
theorem values_set {store : Store Nat Impl} {x : Nat} {i : Option Impl}
    (h : store.view = Function.update s.view x (some i)) :
    ({ s with toStore := store } : State).values = s.values.set x i := values_eq h

/-- An operation that is not possible, or undefined. -/
theorem refines_none {op : Op} (h : s.Possible op → s.perform op = none)
    (hv : s.values.step op = none) : s.Refines op := by
  have hstep : s.step op = none := by
    unfold State.step
    split
    · exact h ‹_›
    · rfl
  rw [Refines, hstep, hv]
  exact ⟨rfl, nofun⟩

theorem refines_some {op : Op} {t : State} (hp : s.Possible op) (h : s.perform op = some t)
    (ht : t.Consistent) (hv : s.values.step op = some t.values) : s.Refines op := by
  rw [Refines, State.step, if_pos hp, h, hv]
  refine ⟨rfl, fun u hu => ?_⟩
  cases hu
  exact ht

/-! ## The operations -/

section Operations

variable (hs : s.Consistent)
include hs

theorem construct_refines {x a : Nat} (ha : s.cells a = none) : s.Refines (.construct x a) := by
  by_cases hx : s.Live x
  · exact refines_none (fun hp => absurd hx hp.1) (if_neg (live_iff.mp hx))
  · have hnone : s.values.objects x = none := not_not.mp (live_iff.not.mp hx)
    obtain ⟨hcons, hview⟩ := hs.allocate hx ha {}
    refine refines_some ⟨hx, ha⟩ rfl hcons ?_
    rw [construct, values_set hview]
    exact if_pos hnone

theorem copyConstruct_refines {x rhs a : Nat} (ha : s.cells a = none) :
    s.Refines (.copyConstruct x rhs a) := by
  by_cases hx : s.Live x
  · exact refines_none (fun hp => absurd hx hp.1) (if_neg (live_iff.mp hx))
  · have hnone : s.values.objects x = none := not_not.mp (live_iff.not.mp hx)
    have hstep : s.values.step (.copyConstruct x rhs a) =
        (s.values.value rhs).map fun i => s.values.set x (some i) := if_pos hnone
    cases hv : s.values.value rhs with
    | none =>
      refine refines_none (fun _ => ?_) (by rw [hstep, hv]; rfl)
      rw [perform, copyConstruct, deref_eq_none hv]
      rfl
    | some i =>
      obtain ⟨b, -, -, hd⟩ := deref_eq_some hv
      obtain ⟨hcons, hview⟩ := hs.allocate hx ha i
      have hperform : s.perform (.copyConstruct x rhs a) =
          some { s with toStore := s.toStore.allocate x a i } := by
        rw [perform, copyConstruct, hd]
        rfl
      refine refines_some ⟨hx, live_of_value hv, ha⟩ hperform hcons ?_
      rw [hstep, hv, values_set hview]
      rfl

theorem moveConstruct_refines (x rhs : Nat) : s.Refines (.moveConstruct x rhs) := by
  by_cases hx : s.Live x
  · exact refines_none (fun hp => absurd hx hp.1) (if_neg (live_iff.mp hx))
  · have hnone : s.values.objects x = none := not_not.mp (live_iff.not.mp hx)
    have hstep : s.values.step (.moveConstruct x rhs) =
        (s.values.objects rhs).map fun i => (s.values.set x i).set rhs none := if_pos hnone
    by_cases hrhs : s.Live rhs
    · obtain ⟨i, hi⟩ := Option.ne_none_iff_exists'.mp (live_iff.mp hrhs)
      have hne : rhs ≠ x := by
        rintro rfl
        exact hx hrhs
      obtain ⟨hcons, hview⟩ := hs.null hx
      obtain ⟨hcons', hview'⟩ := hcons.swap x rhs
      refine refines_some ⟨hx, hrhs⟩ rfl hcons' ?_
      rw [hstep, hi, moveConstruct, values_eq (hview'.trans (congrArg (· ∘ _) hview))]
      refine congrArg some (congrArg (Values.mk · _) (funext fun y => ?_))
      have hview : s.view rhs = some i := hi
      simp only [Values.set, values, Function.comp_apply, Function.update_apply,
        Equiv.swap_apply_def]
      grind
    · have hnot : s.values.objects rhs = none := not_not.mp (live_iff.not.mp hrhs)
      exact refines_none (fun hp => absurd hp.2 hrhs) (by rw [hstep, hnot]; rfl)

theorem copyAssign_refines (x rhs : Nat) : s.Refines (.copyAssign x rhs) := by
  by_cases hself : x = rhs
  · subst hself
    have hstep : s.values.step (.copyAssign x x) = (s.values.objects x).map fun _ => s.values :=
      if_pos rfl
    have hperform : s.perform (.copyAssign x x) = some s := if_neg (not_not.mpr rfl)
    by_cases hx : s.Live x
    · obtain ⟨i, hi⟩ := Option.ne_none_iff_exists'.mp (live_iff.mp hx)
      exact refines_some ⟨hx, hx⟩ hperform hs (by rw [hstep, hi]; rfl)
    · have hnot : s.values.objects x = none := not_not.mp (live_iff.not.mp hx)
      exact refines_none (fun hp => absurd hp.1 hx) (by rw [hstep, hnot]; rfl)
  · have hstep : s.values.step (.copyAssign x rhs) = (s.values.value x).bind fun _ =>
        (s.values.value rhs).map fun i => s.values.set x (some i) := if_neg hself
    have hperform : s.perform (.copyAssign x rhs) = (s.deref x).bind fun p =>
        (s.deref rhs).map fun q => { s with toStore := s.toStore.write p.1 q.2 } := if_pos hself
    cases hv : s.values.value x with
    | none =>
      refine refines_none (fun _ => ?_) (by rw [hstep, hv]; rfl)
      rw [hperform, deref_eq_none hv]
      rfl
    | some i =>
      obtain ⟨a, hpx, -, hd⟩ := deref_eq_some hv
      cases hv' : s.values.value rhs with
      | none =>
        refine refines_none (fun _ => ?_) (by rw [hstep, hv, hv']; rfl)
        rw [hperform, hd, deref_eq_none hv']
        rfl
      | some j =>
        obtain ⟨b, -, -, hd'⟩ := deref_eq_some hv'
        obtain ⟨hcons, hview⟩ := hs.write hpx j
        refine refines_some ⟨live_of_value hv, live_of_value hv'⟩ (by rw [hperform, hd, hd']; rfl)
          hcons ?_
        rw [hstep, hv, hv', values_set hview]
        rfl

theorem moveAssign_refines (x rhs : Nat) : s.Refines (.moveAssign x rhs) := by
  have hstep : s.values.step (.moveAssign x rhs) = (s.values.objects x).bind fun i =>
      (s.values.objects rhs).map fun j => (s.values.set x j).set rhs i := rfl
  cases hi : s.values.objects x with
  | none => exact refines_none (fun hp => absurd hi (live_iff.mp hp.1)) (by rw [hstep, hi]; rfl)
  | some i =>
    cases hj : s.values.objects rhs with
    | none =>
      exact refines_none (fun hp => absurd hj (live_iff.mp hp.2)) (by rw [hstep, hi, hj]; rfl)
    | some j =>
      have hx : s.Live x := live_iff.mpr (by rw [hi]; exact Option.some_ne_none i)
      have hrhs : s.Live rhs := live_iff.mpr (by rw [hj]; exact Option.some_ne_none j)
      obtain ⟨hcons, hview⟩ := hs.swap x rhs
      refine refines_some ⟨hx, hrhs⟩ rfl hcons ?_
      rw [hstep, hi, hj, moveAssign, values_eq hview]
      refine congrArg some (congrArg (Values.mk · _) (funext fun y => ?_))
      have hi : s.view x = some i := hi
      have hj : s.view rhs = some j := hj
      simp only [Values.set, values, Function.comp_apply, Function.update_apply,
        Equiv.swap_apply_def]
      grind

theorem destroy_refines (x : Nat) : s.Refines (.destroy x) := by
  have hstep : s.values.step (.destroy x) = (s.values.objects x).map fun _ =>
      { s.values with objects := Function.update s.values.objects x none } := rfl
  cases hi : s.values.objects x with
  | none => exact refines_none (fun hp => absurd hi (live_iff.mp hp)) (by rw [hstep, hi]; rfl)
  | some i =>
    have hx : s.Live x := live_iff.mpr (by rw [hi]; exact Option.some_ne_none i)
    obtain ⟨t, ht, hcons, hview⟩ := hs.release x
    refine refines_some hx (by rw [perform, destroy, ht]; rfl) hcons ?_
    rw [hstep, hi, values_eq hview]
    rfl

theorem register_refines {op : Op} {x : Nat} {get : Impl → Option Callback} {set : Impl → Impl}
    {what : Str} {callback : Option Callback} (hp : s.Possible op = s.Live x)
    (hperform : s.perform op = (s.register x get set what callback).map (·.1))
    (hstep : s.values.step op = s.values.register x get set callback) : s.Refines op := by
  cases hv : s.values.value x with
  | none =>
    refine refines_none (fun _ => ?_) (by rw [hstep, Values.register, hv]; rfl)
    rw [hperform, State.register, deref_eq_none hv]
    rfl
  | some i =>
    obtain ⟨a, hpx, -, hd⟩ := deref_eq_some hv
    have hp' : s.Possible op := by
      rw [hp]
      exact live_of_value hv
    by_cases hset : (get i).isSome ∧ callback.isSome
    · refine refines_some hp' (by rw [hperform, State.register, hd]; simp [hset]) hs ?_
      rw [hstep, Values.register, hv]
      simp [hset]
    · obtain ⟨hcons, hview⟩ := hs.write hpx (set i)
      refine refines_some hp' (t := { s with toStore := s.toStore.write a (set i) })
        (by rw [hperform, State.register, hd]; simp [hset]) hcons ?_
      rw [hstep, Values.register, hv, values_set hview]
      simp [hset]

theorem deserialize_refines {op : Op} {x : Nat} {result : Res Bool}
    (hp : s.Possible op = s.Live x)
    (hperform : s.perform op = (s.deserialize x result).map (·.1))
    (hstep : s.values.step op =
      if result = .ok true then (s.values.value x).map fun i => s.values.notify i.deserialized
      else (s.values.objects x).map fun _ => s.values) : s.Refines op := by
  by_cases htrue : result = .ok true
  · subst htrue
    rw [if_pos rfl] at hstep
    cases hv : s.values.value x with
    | none =>
      refine refines_none (fun _ => ?_) (by rw [hstep, hv]; rfl)
      rw [hperform, deserialize, deref_eq_none hv]
      rfl
    | some i =>
      obtain ⟨a, -, -, hd⟩ := deref_eq_some hv
      refine refines_some (t := s.notify i.deserialized) (by rw [hp]; exact live_of_value hv) ?_ hs
        (by rw [hstep, hv]; rfl)
      rw [hperform, deserialize, hd]
      rfl
  · rw [if_neg htrue] at hstep
    have hsame : s.perform op = some s := by
      rw [hperform]
      match result with
      | .error e => rfl
      | .ok false => rfl
      | .ok true => exact absurd rfl htrue
    cases hi : s.values.objects x with
    | none =>
      exact refines_none (fun h => absurd hi (live_iff.mp (hp ▸ h))) (by rw [hstep, hi]; rfl)
    | some i =>
      have hx : s.Live x := live_iff.mpr (by rw [hi]; exact Option.some_ne_none i)
      exact refines_some (by rw [hp]; exact hx) hsame hs (by rw [hstep, hi]; rfl)

theorem serialize_refines {op : Op} {x : Nat} {result : Res Str} (hp : s.Possible op = s.Live x)
    (hperform : s.perform op = (s.serialize x result).map (·.1))
    (hstep : s.values.step op = (s.values.value x).map fun i => s.values.notify i.serialize) :
    s.Refines op := by
  cases hv : s.values.value x with
  | none =>
    refine refines_none (fun _ => ?_) (by rw [hstep, hv]; rfl)
    rw [hperform, State.serialize, deref_eq_none hv]
    rfl
  | some i =>
    obtain ⟨a, -, -, hd⟩ := deref_eq_some hv
    refine refines_some (t := s.notify i.serialize) (by rw [hp]; exact live_of_value hv) ?_ hs
      (by rw [hstep, hv]; rfl)
    rw [hperform, State.serialize, hd]
    rfl

theorem step_refines {op : Op} (hf : op.FreshIn s) : s.Refines op := by
  have hresult : ∀ (r : Res Bool) (x : Nat),
      s.values.step (.fromBinary x r) = (if r = .ok true then
        (s.values.value x).map fun i => s.values.notify i.deserialized
      else (s.values.objects x).map fun _ => s.values) := by
    intro r x
    match r with
    | .error e => rfl
    | .ok true => rfl
    | .ok false => rfl
  cases op with
  | construct x a => exact construct_refines hs hf
  | copyConstruct x rhs a => exact copyConstruct_refines hs hf
  | moveConstruct x rhs => exact moveConstruct_refines hs x rhs
  | copyAssign x rhs => exact copyAssign_refines hs x rhs
  | moveAssign x rhs => exact moveAssign_refines hs x rhs
  | destroy x => exact destroy_refines hs x
  | registerDeserializedCallback x c => exact register_refines hs rfl rfl rfl
  | registerSerializeCallback x c => exact register_refines hs rfl rfl rfl
  | fromBinary x r => exact deserialize_refines hs rfl rfl (hresult r x)
  | fromJSON x r =>
    refine deserialize_refines hs rfl rfl (.trans ?_ (hresult r x))
    match r with
    | .error e => rfl
    | .ok true => rfl
    | .ok false => rfl
  | toBinary x r => exact serialize_refines hs rfl rfl rfl
  | toJSON x r => exact serialize_refines hs rfl rfl rfl

end Operations

end State

/-! ## Runs -/

/-- **The objects do what their values do**, and are undefined when these are, as long as a `new`
gives a free address. Each implementation is that of one live object. -/
theorem run_values {ops : List Op}
    (hfresh : EveryStep State.step (fun s op => op.FreshIn s) {} ops) :
    (run State.step {} ops).map State.values = run Values.step {} ops ∧
      ∀ s, run State.step {} ops = some s → s.Consistent := by
  refine ⟨hfresh.map_run (I := fun s => s.Consistent) (fun s op hs hf => State.step_refines hs hf)
    Store.consistent_empty, fun s h => ?_⟩
  exact hfresh.invariant h (fun u op v hu hf huv => (State.step_refines hu hf).2 v huv)
    Store.consistent_empty

/-- A copy, a move and a call: the source of the move has no implementation any more. -/
theorem run_values_move :
    let ops : List Op := [.construct 0 8, .registerSerializeCallback 0 (some 5),
      .copyConstruct 1 0 16, .moveConstruct 2 1, .toJSON 2 (.ok [])]
    (run State.step {} ops).map State.values = run Values.step {} ops ∧
      ∀ s, run State.step {} ops = some s → s.Consistent := by
  intro ops
  refine run_values ⟨rfl, fun s h => ?_⟩
  cases h
  refine ⟨trivial, fun s h => ?_⟩
  cases h
  refine ⟨rfl, fun s h => ?_⟩
  cases h
  refine ⟨trivial, fun s h => ⟨trivial, fun s h => trivial⟩⟩

end Servus.Serializable
