import Servus.Cpp.Run
import Servus.Service.Impl

/-!
# The test driver (`servus/test/servus.h`)

Any number of `test::Servus` objects share one directory, a `std::set` of pointers. An address is a
number, `Sys.objects` holds the live objects, and both the directory and the `_instances` of an
object iterate in address order. `browse` rebuilds its map from the objects of the directory and
derives its calls on listeners from the symmetric difference with the objects it saw before.

A call on an object that is not live, and a read of an object that is no longer live, have no
result (`none`). `Op` and `step` put the public calls together; a run is `Cpp.run (step hostname)`.
-/

namespace Servus.Test

open Cpp

/-- One `test::Servus`. -/
structure Service extends Impl where
  instanceName : Str := []
  port : UInt16 := 0
  announced : Bool := false
  browsing : Bool := false
  /-- The objects seen by the last `browse` of the session. -/
  instances : Std.ExtTreeSet Nat := ∅
  deriving DecidableEq

/-- All live objects and the shared `_directory`. -/
structure Sys where
  objects : Std.ExtTreeMap Nat Service := ∅
  directory : Std.ExtTreeSet Nat := ∅
  deriving DecidableEq

/-- `isAnnounced`. -/
def Service.isAnnounced (o : Service) : Bool := o.announced

/-- The `ValueMap` that `browse` builds for an announced object. -/
def Service.values (o : Service) : ValueMap :=
  assignAll ((∅ : ValueMap).insert "servus_host".toList "localhost".toList) o.data.toList

namespace Sys

/-- The object at `a` becomes `o`. -/
def put (s : Sys) (a : Nat) (o : Service) : Sys := { s with objects := s.objects.insert a o }

/-- `new test::Servus`, at an address that is free. -/
def construct (s : Sys) (a : Nat) : Option Sys :=
  if a ∈ s.objects then none else some (s.put a { name := "_servus._test".toList })

/-- `announce`; `hostname` is what `getHostname()` returns. -/
def announce (hostname : Str) (s : Sys) (a : Nat) (port : UInt16) (instanceName : Str) :
    Option (Result × Sys) := do
  let o ← s.objects[a]?
  let o := { o with
    port := port
    instanceName := if instanceName = [] then hostname else instanceName
    announced := true }
  some (Result.SUCCESS, { s.put a o with directory := s.directory.insert a })

/-- `withdraw`. -/
def withdraw (s : Sys) (a : Nat) : Option Sys := do
  let o ← s.objects[a]?
  let o := { o with announced := false, port := 0, instanceName := [] }
  some { s.put a o with directory := s.directory.erase a }

/-- `Impl::set`; `_updateRecord` does nothing here. -/
def set (s : Sys) (a : Nat) (key value : Str) : Option Sys := do
  let o ← s.objects[a]?
  some (s.put a { o with toImpl := o.toImpl.setData key value })

/-- `beginBrowsing`. -/
def beginBrowsing (s : Sys) (a : Nat) : Option (Result × Sys) := do
  let o ← s.objects[a]?
  if o.browsing then some (Result.PENDING, s)
  else some (Result.SUCCESS, s.put a { o with instances := ∅, browsing := true })

/-- The first loop of `browse`: `_instanceMap` after it. -/
def discovered (s : Sys) : Option InstanceMap :=
  s.directory.toList.foldlM (fun m i => do
    let o ← s.objects[i]?
    some (m.insert o.instanceName o.values)) ∅

/-- The calls on the listeners of `o` about the object at `i`, which is read for each of them. -/
def tell (s : Sys) (o : Service) (i : Nat) (event : Str → Event) : Option Service :=
  if o.listeners.isEmpty then some o
  else do
    let p ← s.objects[i]?
    some { o with toImpl := o.toImpl.notify (event p.instanceName) }

/-- The body of the second loop of `browse`. -/
def report (s : Sys) (o : Service) (i : Nat) : Option Service :=
  if i ∉ o.instances then
    s.tell { o with instances := o.instances.insert i } i .instanceAdded
  else do
    let o ← s.tell o i .instanceRemoved
    some { o with instances := o.instances.erase i }

/-- `browse`. -/
def browse (s : Sys) (a : Nat) : Option (Result × Sys) := do
  let o ← s.objects[a]?
  let diff := setSymmetricDifference s.directory.toList o.instances.toList
  let m ← s.discovered
  let o ← diff.foldlM s.report { o with instanceMap := m }
  some (Result.SUCCESS, s.put a o)

/-- `endBrowsing`. -/
def endBrowsing (s : Sys) (a : Nat) : Option Sys := do
  let o ← s.objects[a]?
  some (s.put a { o with browsing := false, instances := ∅ })

/-- The part of `Impl::discover` behind `beginBrowsing`, whose result is `res`. -/
def discoverFrom (s : Sys) (a : Nat) (res : Result) : Option Sys :=
  if res = Result.SUCCESS ∨ res = Result.PENDING then
    (s.browse a).bind fun (_, s) => if res = Result.SUCCESS then s.endBrowsing a else some s
  else some s

/-- `Impl::discover`. -/
def discover (s : Sys) (a : Nat) : Option (List Str × Sys) := do
  let (res, s) ← s.beginBrowsing a
  let s ← s.discoverFrom a res
  let o ← s.objects[a]?
  some (o.getInstances, s)

/-- `~Servus`. -/
def destroy (s : Sys) (a : Nat) : Option Sys := do
  let s ← s.withdraw a
  let s ← s.endBrowsing a
  some { s with objects := s.objects.erase a }

/-- `addListener` and `removeListener`. -/
def withListeners (s : Sys) (a : Nat) (f : Impl → Impl) : Option Sys := do
  let o ← s.objects[a]?
  some (s.put a { o with toImpl := f o.toImpl })

end Sys

/-- A call on the object at its first argument. -/
inductive Op where
  | construct (a : Nat)
  | announce (a : Nat) (port : UInt16) (instanceName : Str)
  | withdraw (a : Nat)
  | set (a : Nat) (key value : Str)
  | beginBrowsing (a : Nat)
  | browse (a : Nat)
  | endBrowsing (a : Nat)
  | discover (a : Nat)
  | destroy (a : Nat)
  | addListener (a listener : Nat)
  | removeListener (a listener : Nat)
  deriving DecidableEq

/-- The object that a call is made on. -/
def Op.object : Op → Nat
  | .construct a | .announce a _ _ | .withdraw a | .set a _ _ | .beginBrowsing a | .browse a
  | .endBrowsing a | .discover a | .destroy a | .addListener a _ | .removeListener a _ => a

/-- A call about the listeners of an object. -/
def Op.onListeners : Op → Bool
  | .addListener .. | .removeListener .. => true
  | _ => false

def step (hostname : Str) (s : Sys) : Op → Option Sys
  | .construct a => s.construct a
  | .announce a port instanceName => (s.announce hostname a port instanceName).map (·.2)
  | .withdraw a => s.withdraw a
  | .set a key value => s.set a key value
  | .beginBrowsing a => (s.beginBrowsing a).map (·.2)
  | .browse a => (s.browse a).map (·.2)
  | .endBrowsing a => s.endBrowsing a
  | .discover a => (s.discover a).map (·.2)
  | .destroy a => s.destroy a
  | .addListener a listener => s.withListeners a (·.addListener listener)
  | .removeListener a listener => s.withListeners a (·.removeListener listener)

end Servus.Test
