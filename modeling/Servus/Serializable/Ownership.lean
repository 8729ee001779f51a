import Servus.Serializable.Model

/-!
# Each object owns its implementation

`owned_iff_no_moveConstruct`: along every sequence of operations, each finds the implementations
that it needs and leaves every live object with one of its own, if and only if no object is
constructed by a move: the move constructor leaves its source with null.
-/

namespace Servus.Serializable

open Cpp State

/-! ## The operations on objects that own their implementations -/

section Operations

variable {s : State} (hs : s.Exclusive)
include hs

theorem copyConstruct_exclusive {x rhs a : Nat} (hrhs : s.Live rhs) (ha : s.cells a = none) :
    ∃ t, s.copyConstruct x rhs a = some t ∧ t.Exclusive := by
  obtain ⟨b, c, -, -, hd⟩ := hs.deref hrhs
  refine ⟨{ s with toStore := s.toStore.allocate x a c }, ?_, hs.allocate ha x c⟩
  rw [copyConstruct, hd]
  rfl

theorem copyAssign_exclusive {x rhs : Nat} (hx : s.Live x) (hrhs : s.Live rhs) :
    ∃ t, s.copyAssign x rhs = some t ∧ t.Exclusive := by
  unfold copyAssign
  split
  · obtain ⟨a, c, -, -, hd⟩ := hs.deref hx
    obtain ⟨b, d, -, -, hd'⟩ := hs.deref hrhs
    refine ⟨{ s with toStore := s.toStore.write a d }, ?_, hs.write a d⟩
    rw [hd, hd']
    rfl
  · exact ⟨s, rfl, hs⟩

theorem destroy_exclusive {x : Nat} (hx : s.Live x) :
    ∃ t, s.destroy x = some t ∧ t.Exclusive := by
  obtain ⟨t, ht, hex⟩ := hs.release hx
  refine ⟨{ s with toStore := t }, ?_, hex⟩
  rw [destroy, ht]
  rfl

theorem deserialize_exclusive {x : Nat} (hx : s.Live x) (result : Res Bool) :
    ∃ t, (s.deserialize x result).map (·.1) = some t ∧ t.Exclusive := by
  obtain ⟨a, c, -, -, hd⟩ := hs.deref hx
  unfold deserialize
  split
  · refine ⟨s.notify c.deserialized, ?_, hs⟩
    rw [hd]
    rfl
  · exact ⟨s, rfl, hs⟩
  · exact ⟨s, rfl, hs⟩

theorem serialize_exclusive {x : Nat} (hx : s.Live x) (result : Res Str) :
    ∃ t, (s.serialize x result).map (·.1) = some t ∧ t.Exclusive := by
  obtain ⟨a, c, -, -, hd⟩ := hs.deref hx
  refine ⟨s.notify c.serialize, ?_, hs⟩
  rw [State.serialize, hd]
  rfl

theorem register_exclusive {x : Nat} (hx : s.Live x) (get : Impl → Option Callback)
    (set : Impl → Impl) (what : Str) (callback : Option Callback) :
    ∃ t, (s.register x get set what callback).map (·.1) = some t ∧ t.Exclusive := by
  obtain ⟨a, c, -, -, hd⟩ := hs.deref hx
  rw [register, hd]
  by_cases hset : (get c).isSome ∧ callback.isSome
  · exact ⟨s, by simp [hset], hs⟩
  · exact ⟨{ s with toStore := s.toStore.write a (set c) }, by simp [hset], hs.write a _⟩

/-- Every operation but the move constructor is defined, and each object still owns its
implementation after it. -/
theorem perform_exclusive {op : Op} (hp : s.Possible op) (hop : op.isMoveConstruct = false) :
    ∃ t, s.perform op = some t ∧ t.Exclusive := by
  cases op with
  | construct x a => exact ⟨_, rfl, hs.allocate hp.2 x _⟩
  | copyConstruct x rhs a => exact copyConstruct_exclusive hs hp.2.1 hp.2.2
  | moveConstruct x rhs => cases hop
  | copyAssign x rhs => exact copyAssign_exclusive hs hp.1 hp.2
  | moveAssign x rhs => exact ⟨_, rfl, hs.swap x rhs⟩
  | destroy x => exact destroy_exclusive hs hp
  | registerDeserializedCallback x callback => exact register_exclusive hs hp _ _ _ _
  | registerSerializeCallback x callback => exact register_exclusive hs hp _ _ _ _
  | fromBinary x result => exact deserialize_exclusive hs hp result
  | fromJSON x result => exact deserialize_exclusive hs hp result
  | toBinary x result => exact serialize_exclusive hs hp result
  | toJSON x result => exact serialize_exclusive hs hp result

end Operations

/-- The source of a move construction is left with null. -/
theorem moveConstruct_pointers {s : State} {x rhs : Nat} (hx : ¬ s.Live x) (hrhs : s.Live rhs) :
    (s.moveConstruct x rhs).pointers rhs = some none := by
  have hne : rhs ≠ x := by
    rintro rfl
    exact hx hrhs
  simp [moveConstruct, Store.swap, Store.null]

/-! ## Runs -/

/-- An operation of the program finds the implementations that it needs, and each live object has
one of its own after it. -/
def OwnedAfter (s : State) (op : Op) : Prop :=
  s.Possible op → ∃ t, step s op = some t ∧ t.Exclusive

/-- **Each live object owns its implementation exactly as long as none is move constructed.** -/
theorem owned_iff_no_moveConstruct (ops : List Op) :
    EveryStep step OwnedAfter {} ops ↔
      EveryStep step (fun s op => s.Possible op → op.isMoveConstruct = false) {} ops := by
  have hiff : ∀ (s : State) (op : Op), s.Exclusive →
      (OwnedAfter s op ↔ (s.Possible op → op.isMoveConstruct = false)) := by
    intro s op hs
    refine forall_congr' fun hp => ?_
    rw [step, if_pos hp]
    constructor
    · rintro ⟨t, ht, hex⟩
      cases op with
      | moveConstruct x rhs =>
        cases ht
        exact absurd hex (Store.not_exclusive_null (moveConstruct_pointers hp.1 hp.2))
      | _ => rfl
    · intro hop
      exact perform_exclusive hs hp hop
  have hkeep : ∀ (s : State) (op : Op) (t : State), s.Exclusive → OwnedAfter s op →
      step s op = some t → t.Exclusive := by
    intro s op t _ hafter ht
    by_cases hp : s.Possible op
    · obtain ⟨u, hu, hex⟩ := hafter hp
      obtain rfl : u = t := by simpa [hu] using ht
      exact hex
    · rw [step, if_neg hp] at ht
      cases ht
  exact everyStep_congr hiff hkeep Store.exclusive_empty

/-- An object is moved from, and the copy assignment to it follows null. -/
theorem not_ownedAfter : ¬ ∀ ops, EveryStep step OwnedAfter {} ops := by
  intro h
  have hsteps := h ([.construct 0 100, .moveConstruct 1 0] ++ [.copyAssign 0 1])
  obtain ⟨s, hs⟩ : ∃ s, run step {} [.construct 0 100, .moveConstruct 1 0] = some s :=
    Option.isSome_iff_exists.mp (by decide)
  have hbad : ∀ s ∈ run step {} [.construct 0 100, .moveConstruct 1 0],
      s.Possible (.copyAssign 0 1) ∧ (step s (.copyAssign 0 1)).isNone = true := by decide
  obtain ⟨t, ht, -⟩ := hsteps.last hs (hbad s hs).1
  have hnone := (hbad s hs).2
  rw [ht] at hnone
  cases hnone

end Servus.Serializable
