import Servus.Cpp.Container
import Servus.Cpp.String

/-!
# `servus::Servus::Impl` (`servus/servus.cpp`), what the backends share

The data that every backend has, its accessors, and the calls it makes on its listeners. A
`Listener*` is a number, and the record keeps each call in `calls`: `heard` is what one listener
was told, in order, and `heard_notify` that each registered listener is told once.
-/

namespace Servus

open Cpp

abbrev ValueMap := Std.ExtTreeMap Str Str

abbrev InstanceMap := Std.ExtTreeMap Str ValueMap

/-- `servus::Servus::Result`, a code. -/
abbrev Result := Int

namespace Result

def SUCCESS : Result := 0

/-- The operation did not complete. -/
def PENDING : Result := -1

/-- Error during polling for an event. -/
def POLL_ERROR : Result := -3

end Result

/-- A call on a `Listener`. -/
inductive Event where
  | instanceAdded (instanceName : Str)
  | instanceRemoved (instanceName : Str)
  deriving DecidableEq

/-- The instance that a call is about. -/
def Event.instanceName : Event → Str
  | .instanceAdded n | .instanceRemoved n => n

/-- A change of the discovered data. -/
inductive Change where
  | resolved (name host : Str) (items : List (Str × Str))
  | removed (name : Str)
  deriving DecidableEq

/-- The instance that a change is about. -/
def Change.name : Change → Str
  | .resolved name _ _ | .removed name => name

/-- The call that a change makes on the listeners. -/
def Change.event : Change → Event
  | .resolved name _ _ => .instanceAdded name
  | .removed name => .instanceRemoved name

/-- `Servus::Interface`. -/
inductive Interface where
  | IF_ALL
  | IF_LOCAL
  deriving DecidableEq

structure Impl where
  name : Str
  /-- Last discovered data. -/
  instanceMap : InstanceMap := ∅
  /-- Self data to announce. -/
  data : ValueMap := ∅
  listeners : Std.ExtTreeSet Nat := ∅
  /-- The calls made on listeners so far. -/
  calls : List (Nat × Event) := []
  deriving DecidableEq

namespace Impl

/-- `Impl::getInstances`. -/
def getInstances (i : Impl) : List Str := i.instanceMap.keys

/-- `Impl::getKeys(instance)`. -/
def getKeys (i : Impl) (instanceName : Str) : List Str :=
  match i.instanceMap[instanceName]? with
  | none => []
  | some values => values.keys

/-- `Impl::containsKey`. -/
def containsKey (i : Impl) (instanceName key : Str) : Bool :=
  match i.instanceMap[instanceName]? with
  | none => false
  | some values => values.contains key

/-- `Impl::get(instance, key)`. -/
def get (i : Impl) (instanceName key : Str) : Str :=
  match i.instanceMap[instanceName]? with
  | none => []
  | some values => values[key]?.getD []

/-- `Servus::getHost`. -/
def getHost (i : Impl) (instanceName : Str) : Str := i.get instanceName "servus_host".toList

/-- The part of `Impl::set` that is the same in every backend. -/
def setData (i : Impl) (key value : Str) : Impl := { i with data := i.data.insert key value }

/-- `Impl::addListener`. -/
def addListener (i : Impl) (listener : Nat) : Impl :=
  { i with listeners := i.listeners.insert listener }

/-- `Impl::removeListener`. -/
def removeListener (i : Impl) (listener : Nat) : Impl :=
  { i with listeners := i.listeners.erase listener }

/-- `for (Listener* listener : _listeners)` with the call `e`. -/
def notify (i : Impl) (e : Event) : Impl :=
  { i with calls := i.calls ++ i.listeners.toList.map (·, e) }

/-- What a browsing callback does to the shared data: an instance is resolved, with what its TXT
record gives, or removed. -/
def change (i : Impl) : Change → Impl
  | .resolved name host items =>
    let values := (i.instanceMap[name]?.getD ∅).insert "servus_host".toList host
    { i with instanceMap := i.instanceMap.insert name (assignAll values items) }.notify
      (.instanceAdded name)
  | .removed name =>
    { i with instanceMap := i.instanceMap.erase name }.notify (.instanceRemoved name)

@[simp] theorem notify_instanceMap (i : Impl) (e : Event) :
    (i.notify e).instanceMap = i.instanceMap := rfl

theorem mem_getInstances {i : Impl} {n : Str} : n ∈ i.getInstances ↔ n ∈ i.instanceMap :=
  Std.ExtTreeMap.mem_keys

theorem ordered_getInstances (i : Impl) :
    i.getInstances.Pairwise (fun a b => compare a b = .lt) :=
  Std.ExtTreeMap.ordered_keys

theorem nodup_getInstances (i : Impl) : i.getInstances.Nodup :=
  i.ordered_getInstances.imp fun hlt heq => by simp [heq] at hlt

/-! ## Changes -/

/-- The other instances keep their data. -/
theorem getElem?_change_of_ne {i : Impl} {c : Change} {n : Str} (h : n ≠ c.name) :
    (i.change c).instanceMap[n]? = i.instanceMap[n]? := by
  have hne : ¬ compare c.name n = .eq := by simpa using h.symm
  cases c with
  | resolved m host items => exact Std.ExtTreeMap.getElem?_insert.trans (if_neg hne)
  | removed m => exact Std.ExtTreeMap.getElem?_erase.trans (if_neg hne)

/-- A record that is resolved for an instance is entered behind its host, over what was there. -/
theorem getElem?_change_resolved (i : Impl) (name host : Str) (items : List (Str × Str)) :
    (i.change (.resolved name host items)).instanceMap[name]? =
      some (assignAll ((i.instanceMap[name]?.getD ∅).insert "servus_host".toList host) items) := by
  simp [change]

/-- Behind its host, what a record that is resolved for a new instance leaves in the map. -/
theorem getElem?_change_new {i : Impl} {name : Str} (h : name ∉ i.instanceMap) (host : Str)
    (items : List (Str × Str)) :
    (i.change (.resolved name host items)).instanceMap[name]? =
      some (assignAll ((∅ : ValueMap).insert "servus_host".toList host) items) := by
  rw [getElem?_change_resolved, Std.ExtTreeMap.getElem?_eq_none h, Option.getD_none]

theorem mem_change_resolved {i : Impl} {n host : Str} {items : List (Str × Str)} {m : Str} :
    m ∈ (i.change (.resolved n host items)).getInstances ↔ m = n ∨ m ∈ i.getInstances := by
  simp only [mem_getInstances, change, notify_instanceMap, Std.ExtTreeMap.mem_insert,
    Std.compare_eq_iff_eq]
  exact or_congr_left eq_comm

theorem mem_change_removed {i : Impl} {n m : Str} :
    m ∈ (i.change (.removed n)).getInstances ↔ m ≠ n ∧ m ∈ i.getInstances := by
  simp only [mem_getInstances, change, notify_instanceMap, Std.ExtTreeMap.mem_erase, ne_eq,
    Std.compare_eq_iff_eq]
  exact and_congr_left' (not_congr eq_comm)

/-- An instance that is listed is resolved again. -/
theorem getInstances_change_listed {i : Impl} {n : Str} (h : n ∈ i.instanceMap) (host : Str)
    (items : List (Str × Str)) :
    (i.change (.resolved n host items)).getInstances.Perm i.getInstances := by
  refine (List.perm_ext_iff_of_nodup (nodup_getInstances _) (nodup_getInstances i)).mpr fun m => ?_
  rw [mem_change_resolved, or_iff_right_iff_imp]
  rintro rfl
  exact mem_getInstances.mpr h

/-- A new instance is resolved. -/
theorem getInstances_change_new {i : Impl} {n : Str} (h : n ∉ i.instanceMap) (host : Str)
    (items : List (Str × Str)) :
    (i.change (.resolved n host items)).getInstances.Perm (n :: i.getInstances) := by
  have hnodup := List.nodup_cons.mpr ⟨fun hn => h (mem_getInstances.mp hn), nodup_getInstances i⟩
  refine (List.perm_ext_iff_of_nodup (nodup_getInstances _) hnodup).mpr fun m => ?_
  rw [mem_change_resolved, List.mem_cons]

/-- An instance that is listed is removed. -/
theorem getInstances_change_removed {i : Impl} {n : Str} (h : n ∈ i.instanceMap) :
    i.getInstances.Perm (n :: (i.change (.removed n)).getInstances) := by
  have hnodup := List.nodup_cons.mpr
    ⟨fun hn => (mem_change_removed.mp hn).1 rfl, nodup_getInstances (i.change (.removed n))⟩
  refine (List.perm_ext_iff_of_nodup (nodup_getInstances i) hnodup).mpr fun m => ?_
  rw [List.mem_cons, mem_change_removed]
  by_cases hm : m = n
  · subst hm
    exact iff_of_true (mem_getInstances.mpr h) (.inl rfl)
  · simp [hm]

/-- A name that is not listed is removed. -/
theorem getInstances_change_unlisted {i : Impl} {n : Str} (h : n ∉ i.instanceMap) :
    (i.change (.removed n)).getInstances.Perm i.getInstances := by
  refine (List.perm_ext_iff_of_nodup (nodup_getInstances _) (nodup_getInstances i)).mpr fun m => ?_
  rw [mem_change_removed, and_iff_right_iff_imp]
  rintro hm rfl
  exact h (mem_getInstances.mp hm)

@[simp] theorem change_listeners (i : Impl) (c : Change) :
    (i.change c).listeners = i.listeners := by
  cases c <;> rfl

end Impl

/-! ## Listeners -/

/-- What `listener` was told. -/
def heard (listener : Nat) (calls : List (Nat × Event)) : List Event :=
  calls.filterMap fun c => if c.1 = listener then some c.2 else none

theorem heard_append (listener : Nat) (calls calls' : List (Nat × Event)) :
    heard listener (calls ++ calls') = heard listener calls ++ heard listener calls' :=
  List.filterMap_append

theorem heard_map {listener : Nat} {l : List Nat} (e : Event) (hn : l.Nodup) :
    heard listener (l.map (·, e)) = if listener ∈ l then [e] else [] := by
  induction l with
  | nil => rfl
  | cons a l ih =>
    obtain ⟨ha, hn⟩ := List.nodup_cons.mp hn
    rw [List.map_cons, heard, List.filterMap_cons, ← heard, ih hn]
    by_cases h : a = listener
    · subst h; simp [ha]
    · simp [h, Ne.symm h]

/-- A registered listener is told once, the others nothing. -/
theorem heard_notify (listener : Nat) (i : Impl) (e : Event) :
    heard listener (i.notify e).calls =
      heard listener i.calls ++ if listener ∈ i.listeners then [e] else [] := by
  have hn : i.listeners.toList.Nodup :=
    (Std.ExtTreeSet.distinct_toList (t := i.listeners)).imp fun h e => h (by simp [e])
  rw [Impl.notify, heard_append, heard_map e hn]
  simp

/-- A registered listener is told once of each change. -/
theorem heard_change {listener : Nat} {i : Impl} (h : listener ∈ i.listeners) (c : Change) :
    heard listener ((i.change c).calls.drop i.calls.length) = [c.event] := by
  have hcalls : (i.change c).calls = i.calls ++ i.listeners.toList.map (·, c.event) := by
    cases c <;> rfl
  have hnew := heard_notify listener i c.event
  rw [Impl.notify, heard_append, List.append_cancel_left_eq, if_pos h] at hnew
  rw [hcalls, List.drop_left, hnew]

/-- The set of names after the calls `es`, starting with `names`. -/
def replay (names : Std.ExtTreeSet Str) : List Event → Std.ExtTreeSet Str
  | [] => names
  | .instanceAdded n :: es => replay (names.insert n) es
  | .instanceRemoved n :: es => replay (names.erase n) es

end Servus
