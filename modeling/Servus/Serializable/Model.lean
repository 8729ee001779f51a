import Servus.Cpp.Ownership
import Servus.Cpp.Run
import Servus.Cpp.String

/-!
# `servus::Serializable` (`servus/serializable.cpp`)

Any number of objects, numbered, each with its raw pointer `_impl`. An operation that would follow
a null or dangling `_impl` is undefined, and gives `none`; the address that a `new` returns is part
of the operation. What a subclass's virtual functions give is data. A callback's own doings are
operations behind the one that calls it; `notified` records the calls.
-/

namespace Servus.Serializable

open Cpp

/-- A `std::function` that is not empty. -/
abbrev Callback := Nat

/-- `Serializable::Impl`. -/
structure Impl where
  deserialized : Option Callback := none
  serialize : Option Callback := none
  deriving DecidableEq

structure State extends Store Nat Impl where
  notified : List Callback := []

namespace State

/-- The call of a callback that is set. -/
def notify (s : State) (callback : Option Callback) : State :=
  { s with notified := s.notified ++ callback.toList }

/-- `Serializable()`. -/
def construct (s : State) (x a : Nat) : State := { s with toStore := s.toStore.allocate x a {} }

/-- `Serializable(const Serializable& rhs)`. -/
def copyConstruct (s : State) (x rhs a : Nat) : Option State :=
  (s.deref rhs).map fun p => { s with toStore := s.toStore.allocate x a p.2 }

/-- `Serializable(Serializable&& rhs)`. -/
def moveConstruct (s : State) (x rhs : Nat) : State :=
  { s with toStore := (s.toStore.null x).swap x rhs }

/-- `operator=(const Serializable& rhs)`. -/
def copyAssign (s : State) (x rhs : Nat) : Option State :=
  if x ≠ rhs then
    (s.deref x).bind fun p => (s.deref rhs).map fun q =>
      { s with toStore := s.toStore.write p.1 q.2 }
  else some s

/-- `operator=(Serializable&& rhs)`. -/
def moveAssign (s : State) (x rhs : Nat) : State := { s with toStore := s.toStore.swap x rhs }

/-- `~Serializable()`. -/
def destroy (s : State) (x : Nat) : Option State :=
  (s.release x).map fun t => { s with toStore := t }

/-- The part that `fromBinary` and `fromJSON` share; `result` is what the subclass's function
does. -/
def deserialize (s : State) (x : Nat) (result : Res Bool) : Option (State × Res Bool) :=
  match result with
  | .ok true => (s.deref x).map fun p => (s.notify p.2.deserialized, .ok true)
  | .ok false => some (s, .ok false)
  | .error e => some (s, .error e)

def fromBinary (s : State) (x : Nat) (_fromBinary : Res Bool) : Option (State × Res Bool) :=
  s.deserialize x _fromBinary

def fromJSON (s : State) (x : Nat) (_fromJSON : Res Bool) : Option (State × Res Bool) :=
  s.deserialize x _fromJSON

/-- The part that `toBinary` and `toJSON` share. -/
def serialize (s : State) (x : Nat) (result : Res Str) : Option (State × Res Str) :=
  (s.deref x).map fun p => (s.notify p.2.serialize, result)

def toBinary (s : State) (x : Nat) (_toBinary : Res Str) : Option (State × Res Str) :=
  s.serialize x _toBinary

def toJSON (s : State) (x : Nat) (_toJSON : Res Str) : Option (State × Res Str) :=
  s.serialize x _toJSON

/-- Registers `callback` where `get` and `set` say; an empty one always. -/
def register (s : State) (x : Nat) (get : Impl → Option Callback) (set : Impl → Impl) (what : Str)
    (callback : Option Callback) : Option (State × Res Unit) :=
  (s.deref x).map fun p =>
    if (get p.2).isSome ∧ callback.isSome then (s, .error (.runtimeError what))
    else ({ s with toStore := s.toStore.write p.1 (set p.2) }, .ok ())

def registerDeserializedCallback (s : State) (x : Nat) (callback : Option Callback) :
    Option (State × Res Unit) :=
  s.register x (·.deserialized) (fun i => { i with deserialized := callback })
    "A DeserializedCallback is already registered. Only one is supported at the moment".toList
    callback

def registerSerializeCallback (s : State) (x : Nat) (callback : Option Callback) :
    Option (State × Res Unit) :=
  s.register x (·.serialize) (fun i => { i with serialize := callback })
    "A SerializeCallback is already registered. Only one is supported at the moment".toList
    callback

end State

/-- An operation on object `x`; `a` is the address of a `new`. -/
inductive Op where
  | construct (x a : Nat)
  | copyConstruct (x rhs a : Nat)
  | moveConstruct (x rhs : Nat)
  | copyAssign (x rhs : Nat)
  | moveAssign (x rhs : Nat)
  | destroy (x : Nat)
  | registerDeserializedCallback (x : Nat) (callback : Option Callback)
  | registerSerializeCallback (x : Nat) (callback : Option Callback)
  | fromBinary (x : Nat) (result : Res Bool)
  | fromJSON (x : Nat) (result : Res Bool)
  | toBinary (x : Nat) (result : Res Str)
  | toJSON (x : Nat) (result : Res Str)

def Op.isMoveConstruct : Op → Bool
  | .moveConstruct .. => true
  | _ => false

namespace State

/-- The program can perform the operation: a new object is no live one, the others are live, and a
`new` gives an address that is free. -/
def Possible (s : State) : Op → Prop
  | .construct x a => ¬ s.Live x ∧ s.cells a = none
  | .copyConstruct x rhs a => ¬ s.Live x ∧ s.Live rhs ∧ s.cells a = none
  | .moveConstruct x rhs => ¬ s.Live x ∧ s.Live rhs
  | .copyAssign x rhs | .moveAssign x rhs => s.Live x ∧ s.Live rhs
  | .destroy x | .registerDeserializedCallback x _ | .registerSerializeCallback x _
  | .fromBinary x _ | .fromJSON x _ | .toBinary x _ | .toJSON x _ => s.Live x

instance (s : State) (op : Op) : Decidable (s.Possible op) := by
  cases op <;> unfold Possible <;> infer_instance

/-- The state after an operation, also when it throws. -/
def perform (s : State) : Op → Option State
  | .construct x a => some (s.construct x a)
  | .copyConstruct x rhs a => s.copyConstruct x rhs a
  | .moveConstruct x rhs => some (s.moveConstruct x rhs)
  | .copyAssign x rhs => s.copyAssign x rhs
  | .moveAssign x rhs => some (s.moveAssign x rhs)
  | .destroy x => s.destroy x
  | .registerDeserializedCallback x c => (s.registerDeserializedCallback x c).map (·.1)
  | .registerSerializeCallback x c => (s.registerSerializeCallback x c).map (·.1)
  | .fromBinary x r => (s.fromBinary x r).map (·.1)
  | .fromJSON x r => (s.fromJSON x r).map (·.1)
  | .toBinary x r => (s.toBinary x r).map (·.1)
  | .toJSON x r => (s.toJSON x r).map (·.1)

def step (s : State) (op : Op) : Option State := if s.Possible op then s.perform op else none

end State

end Servus.Serializable
