import Servus.Cpp.Run
import Servus.Service.Impl

/-!
# What a service goes through, in every backend

Whatever the backend, its public calls and callbacks reach the data of `Impl` in five ways
(`Effect`), so that this data is a function of the effects so far.

* `data_foldl_apply`: the self data is what `set` assigned, in order.
* `known`: what an instance's data should be, read off the effects alone: the records that were
  resolved for it since it was last absent. `getElem?_foldl_apply` says that the map holds it.
* `told`: what a listener should hear. `heard_foldl_apply` says that it hears this, and
  `mem_replay_told` that a listener which stays registered can rebuild the set of instances.

The last sections are for a backend: which of its calls start a session or go on with one
(`Sessions`), and that its runs are functions of the effects of its calls.
-/

namespace Servus

open Cpp

inductive Effect where
  | set (key value : Str)
  /-- A browsing session begins: `_instanceMap.clear()`. -/
  | clear
  | change (c : Change)
  | addListener (listener : Nat)
  | removeListener (listener : Nat)
  deriving DecidableEq

namespace Impl

/-- `Impl::get(key)`: self data. -/
def getSelf (i : Impl) (key : Str) : Str := i.data[key]?.getD []

/-- `Impl::getKeys()`: the keys of the self data. -/
def getSelfKeys (i : Impl) : List Str := i.data.keys

def apply (i : Impl) : Effect → Impl
  | .set key value => i.setData key value
  | .clear => { i with instanceMap := ∅ }
  | .change c => i.change c
  | .addListener listener => i.addListener listener
  | .removeListener listener => i.removeListener listener

theorem foldl_apply_change (cs : List Change) (i : Impl) :
    (cs.map Effect.change).foldl apply i = cs.foldl change i := by
  rw [List.foldl_map]
  rfl

end Impl

/-! ## Self data -/

/-- The assignments to the self data. -/
def Effect.assigns : Effect → Option (Str × Str)
  | .set key value => some (key, value)
  | _ => none

theorem data_foldl_apply (es : List Effect) (i : Impl) :
    (es.foldl Impl.apply i).data = assignAll i.data (es.filterMap Effect.assigns) := by
  induction es generalizing i with
  | nil => rfl
  | cons e es ih =>
    rw [List.foldl_cons, ih]
    cases e with
    | change c => cases c <;> rfl
    | set | clear | addListener | removeListener => rfl

/-! ## Discovered data -/

/-- The last value that the items have for the key. -/
def lastValue (items : List (Str × Str)) (key : Str) : Option Str :=
  (items.reverse.find? (·.1 = key)).map (·.2)

theorem getElem?_assignAll_empty (items : List (Str × Str)) (key : Str) :
    (assignAll (∅ : ValueMap) items)[key]? = lastValue items key := by
  rw [getElem?_assignAll, Std.ExtTreeMap.getElem?_empty, Option.or_none]
  rfl

/-- The items of instance `n` behind an effect, when it had `items` in front of it: each record
comes in behind its host, over the records before it. -/
def known (n : Str) (items : Option (List (Str × Str))) : Effect → Option (List (Str × Str))
  | .change (.resolved m host record) =>
    if m = n then some (items.getD [] ++ ("servus_host".toList, host) :: record) else items
  | .change (.removed m) => if m = n then none else items
  | .clear => none
  | .set .. | .addListener _ | .removeListener _ => items

theorem assignAll_append (m : ValueMap) (items items' : List (Str × Str)) :
    assignAll m (items ++ items') = assignAll (assignAll m items) items' :=
  List.foldl_append

theorem getElem?_apply {i : Impl} {n : Str} {items : Option (List (Str × Str))}
    (h : i.instanceMap[n]? = items.map (assignAll ∅)) (e : Effect) :
    (i.apply e).instanceMap[n]? = (known n items e).map (assignAll ∅) := by
  cases e with
  | set | addListener | removeListener => exact h
  | clear => exact Std.ExtTreeMap.getElem?_empty
  | change c =>
    by_cases hn : c.name = n
    · subst hn
      cases c with
      | resolved m host record =>
        -- the record is entered over what is known
        have hbase : i.instanceMap[m]?.getD ∅ = assignAll ∅ (items.getD []) := by
          rw [show i.instanceMap[m]? = _ from h]
          cases items <;> rfl
        rw [Impl.apply, Change.name, Impl.getElem?_change_resolved, hbase, known, if_pos rfl,
          Option.map_some, assignAll_append]
        rfl
      | removed m =>
        rw [known, Change.name, if_pos rfl]
        exact Std.ExtTreeMap.getElem?_erase_self
    · rw [Impl.apply, Impl.getElem?_change_of_ne (Ne.symm hn), h]
      cases c with
      | resolved m host record =>
        have hm : m ≠ n := hn
        rw [known, if_neg hm]
      | removed m =>
        have hm : m ≠ n := hn
        rw [known, if_neg hm]

theorem getElem?_foldl_apply {i : Impl} {n : Str} {items : Option (List (Str × Str))}
    (h : i.instanceMap[n]? = items.map (assignAll ∅)) (es : List Effect) :
    (es.foldl Impl.apply i).instanceMap[n]? = (es.foldl (known n) items).map (assignAll ∅) := by
  induction es generalizing i items with
  | nil => exact h
  | cons e es ih => exact ih (getElem?_apply h e)

/-- A property of the records that are resolved for `n` is one of all that is known of it. -/
theorem forall_mem_known {n : Str} {P : Str × Str → Prop} {es : List Effect}
    (hes : ∀ host record, .change (.resolved n host record) ∈ es →
      P ("servus_host".toList, host) ∧ ∀ kv ∈ record, P kv)
    {items : Option (List (Str × Str))} (hitems : ∀ l ∈ items, ∀ kv ∈ l, P kv) :
    ∀ l ∈ es.foldl (known n) items, ∀ kv ∈ l, P kv := by
  induction es generalizing items with
  | nil => exact hitems
  | cons e es ih =>
    refine ih (fun host record h => hes host record (List.mem_cons_of_mem e h)) ?_
    cases e with
    | set | addListener | removeListener => exact hitems
    | clear => exact fun l hl => absurd hl (by simp [known])
    | change c =>
      cases c with
      | resolved m host record =>
        by_cases hm : m = n
        · subst hm
          obtain ⟨hhost, hrecord⟩ := hes host record List.mem_cons_self
          intro l hl kv hkv
          rw [known, if_pos rfl] at hl
          cases hl
          rcases List.mem_append.mp hkv with hkv | hkv
          · cases items with
            | none => cases hkv
            | some l => exact hitems l rfl kv hkv
          · rcases List.mem_cons.mp hkv with rfl | hkv
            · exact hhost
            · exact hrecord kv hkv
        · rw [known, if_neg hm]
          exact hitems
      | removed m =>
        by_cases hm : m = n
        · rw [known, if_pos hm]
          exact fun l hl => absurd hl (by simp)
        · rw [known, if_neg hm]
          exact hitems

/-- An effect that is about instance `n`. -/
def Effect.concerns (n : Str) : Effect → Bool
  | .change c => c.name = n
  | .clear => true
  | .set .. | .addListener _ | .removeListener _ => false

theorem foldl_known_of_not_concerns {n : Str} {es : List Effect}
    (hes : ∀ e ∈ es, e.concerns n = false) (items : Option (List (Str × Str))) :
    es.foldl (known n) items = items := by
  induction es generalizing items with
  | nil => rfl
  | cons e es ih =>
    obtain ⟨he, htail⟩ := List.forall_mem_cons.mp hes
    rw [List.foldl_cons, ih htail]
    cases e with
    | set | addListener | removeListener => rfl
    | clear => cases he
    | change c =>
      cases c with
      | resolved m host record =>
        have hm : m ≠ n := of_decide_eq_false he
        rw [known, if_neg hm]
      | removed m =>
        have hm : m ≠ n := of_decide_eq_false he
        rw [known, if_neg hm]

theorem mem_of_lastValue {items : List (Str × Str)} {key value : Str}
    (h : lastValue items key = some value) : (key, value) ∈ items := by
  obtain ⟨kv, hkv, rfl⟩ := Option.map_eq_some_iff.mp h
  have hkey : kv.1 = key := by simpa using List.find?_some hkv
  subst hkey
  exact List.mem_reverse.mp (List.mem_of_find?_eq_some hkv)

/-- A listed instance has a host. -/
def Impl.Hosted (i : Impl) : Prop :=
  ∀ n : Str, ∀ values ∈ i.instanceMap[n]?, "servus_host".toList ∈ values

theorem Impl.hosted_change {i : Impl} (h : i.Hosted) (c : Change) : (i.change c).Hosted := by
  intro n values hvalues
  by_cases hn : n = c.name
  · subst hn
    cases c with
    | resolved m host record =>
      rw [Change.name, getElem?_change_resolved] at hvalues
      obtain rfl := Option.some.inj hvalues
      rw [Std.ExtTreeMap.mem_iff_isSome_getElem?, getElem?_assignAll, Option.isSome_or,
        Std.ExtTreeMap.getElem?_insert_self, Option.isSome_some, Bool.or_true]
    | removed m => simp [Change.name, change] at hvalues
  · rw [getElem?_change_of_ne hn] at hvalues
    exact h n values hvalues

theorem Impl.hosted_foldl_apply {i : Impl} (h : i.Hosted) (es : List Effect) :
    (es.foldl apply i).Hosted := by
  induction es generalizing i with
  | nil => exact h
  | cons e es ih =>
    refine ih ?_
    cases e with
    | set | addListener | removeListener => exact h
    | clear => exact fun n values hvalues => by simp [apply] at hvalues
    | change c => exact hosted_change h c

theorem Impl.hosted_of_empty {i : Impl} (h : i.instanceMap = ∅) : i.Hosted := by
  intro n values hvalues
  rw [h] at hvalues
  simp at hvalues

theorem Impl.hosted_changes {i : Impl} (h : i.Hosted) (cs : List Change) :
    (cs.foldl change i).Hosted := by
  rw [← foldl_apply_change]
  exact hosted_foldl_apply h _

/-- What the getters give of instance `n`, when `items` are known of it. -/
structure Impl.Gives (i : Impl) (n : Str) (items : Option (List (Str × Str))) : Prop where
  getInstances : n ∈ i.getInstances ↔ items.isSome = true
  getKeys : ∀ key, key ∈ i.getKeys n ↔ ∃ l ∈ items, (lastValue l key).isSome = true
  containsKey : ∀ key, i.containsKey n key = true ↔ ∃ l ∈ items, (lastValue l key).isSome = true
  get : ∀ key, i.get n key = (items.bind (lastValue · key)).getD []

theorem Impl.gives_of_getElem? {i : Impl} {n : Str} {items : Option (List (Str × Str))}
    (h : i.instanceMap[n]? = items.map (assignAll ∅)) : i.Gives n items := by
  have hmem : n ∈ i.getInstances ↔ items.isSome = true := by
    rw [mem_getInstances, Std.ExtTreeMap.mem_iff_isSome_getElem?, h, Option.isSome_map]
  cases items with
  | none =>
    rw [Option.map_none] at h
    exact ⟨hmem, by simp [Impl.getKeys, h], by simp [Impl.containsKey, h], by simp [Impl.get, h]⟩
  | some items =>
    rw [Option.map_some] at h
    have hkey : ∀ key, key ∈ assignAll (∅ : ValueMap) items ↔
        (lastValue items key).isSome = true := fun key => by
      rw [Std.ExtTreeMap.mem_iff_isSome_getElem?, getElem?_assignAll_empty]
    refine ⟨hmem, fun key => ?_, fun key => ?_, fun key => ?_⟩
    · simpa [Impl.getKeys, h] using hkey key
    · simpa [Impl.containsKey, h] using hkey key
    · simp [Impl.get, h, getElem?_assignAll_empty]

/-- The getters give what the effects so far say, of each instance and of the self data. -/
structure Impl.Follows (i : Impl) (es : List Effect) : Prop where
  gives : ∀ n, i.Gives n (es.foldl (known n) none)
  getSelf : ∀ key, i.getSelf key = (lastValue (es.filterMap Effect.assigns) key).getD []
  getSelfKeys : ∀ key, key ∈ i.getSelfKeys ↔
    (lastValue (es.filterMap Effect.assigns) key).isSome = true

/-! ## Listeners -/

/-- What `listener` is told by the effects, when it is `registered` in front of them or not. -/
def told (listener : Nat) : Bool → List Effect → List Event
  | _, [] => []
  | registered, .change c :: es =>
    (if registered then [c.event] else []) ++ told listener registered es
  | registered, .addListener l :: es => told listener (registered || l = listener) es
  | registered, .removeListener l :: es => told listener (registered && l ≠ listener) es
  | registered, .set .. :: es | registered, .clear :: es => told listener registered es

theorem Impl.change_calls (i : Impl) (c : Change) :
    (i.change c).calls = (i.notify c.event).calls := by
  cases c <;> rfl

/-- A listener hears exactly what it is told. -/
theorem heard_foldl_apply (listener : Nat) (es : List Effect) (i : Impl) :
    heard listener (es.foldl Impl.apply i).calls =
      heard listener i.calls ++ told listener (listener ∈ i.listeners) es := by
  induction es generalizing i with
  | nil => exact (List.append_nil _).symm
  | cons e es ih =>
    rw [List.foldl_cons, ih]
    cases e with
    | change c =>
      have hsame : (i.apply (.change c)).listeners = i.listeners := i.change_listeners c
      rw [hsame, Impl.apply, Impl.change_calls, heard_notify, told, List.append_assoc]
      simp
    | addListener l =>
      have hmem : listener ∈ (i.addListener l).listeners ↔ listener ∈ i.listeners ∨ l = listener :=
        by simp [Impl.addListener, Std.ExtTreeSet.mem_insert, or_comm]
      rw [told, Impl.apply, decide_eq_decide.mpr hmem, Bool.decide_or]
      rfl
    | removeListener l =>
      have hmem : listener ∈ (i.removeListener l).listeners ↔
          listener ∈ i.listeners ∧ l ≠ listener := by
        simp [Impl.removeListener, Std.ExtTreeSet.mem_erase, and_comm]
      rw [told, Impl.apply, decide_eq_decide.mpr hmem, Bool.decide_and]
      rfl
    | set | clear => rfl

/-- An effect of a session in which `listener` stays registered. -/
def Effect.keeps (listener : Nat) : Effect → Bool
  | .clear => false
  | .removeListener l => l ≠ listener
  | .set .. | .change _ | .addListener _ => true

theorem keeps_change (listener : Nat) (cs : List Change) :
    ∀ e ∈ cs.map Effect.change, e.keeps listener = true := by
  intro e he
  obtain ⟨c, -, rfl⟩ := List.mem_map.mp he
  rfl

/-- A listener that stays registered through a session can replay what it is told, from the names
that were listed, to the names that are. -/
theorem mem_replay_told {listener : Nat} {es : List Effect} {names : Std.ExtTreeSet Str} {i : Impl}
    (hes : ∀ e ∈ es, e.keeps listener = true) (hnames : ∀ n, n ∈ names ↔ n ∈ i.getInstances)
    (n : Str) :
    n ∈ replay names (told listener true es) ↔ n ∈ (es.foldl Impl.apply i).getInstances := by
  induction es generalizing names i with
  | nil => exact hnames n
  | cons e es ih =>
    obtain ⟨he, htail⟩ := List.forall_mem_cons.mp hes
    cases e with
    | set key value => exact ih htail hnames
    | clear => cases he
    | addListener l => exact ih htail hnames
    | removeListener l =>
      have hne : (true && decide (l ≠ listener)) = true := by simpa [Effect.keeps] using he
      rw [told, hne]
      exact ih htail hnames
    | change c =>
      cases c with
      | resolved m host record =>
        refine ih htail fun k => ?_
        rw [Impl.apply, Impl.mem_change_resolved, Std.ExtTreeSet.mem_insert,
          Std.compare_eq_iff_eq, hnames, eq_comm]
      | removed m =>
        refine ih htail fun k => ?_
        rw [Impl.apply, Impl.mem_change_removed, Std.ExtTreeSet.mem_erase, ne_eq,
          Std.compare_eq_iff_eq, hnames, eq_comm]

/-- An effect that neither changes the instances nor calls a listener. -/
def Effect.quiet : Effect → Bool
  | .clear | .change _ => false
  | .set .. | .addListener _ | .removeListener _ => true

theorem foldl_apply_quiet {es : List Effect} (hes : ∀ e ∈ es, e.quiet = true) (i : Impl) :
    (es.foldl Impl.apply i).instanceMap = i.instanceMap ∧
      (es.foldl Impl.apply i).calls = i.calls := by
  induction es generalizing i with
  | nil => exact ⟨rfl, rfl⟩
  | cons e es ih =>
    obtain ⟨he, htail⟩ := List.forall_mem_cons.mp hes
    cases e with
    | clear | change => cases he
    | set | addListener | removeListener => exact ih htail _

/-! ## Sessions -/

section Sessions

variable {σ α : Type} (isBrowsing : σ → Bool) (mayBegin : α → Bool) (removed : α → Option Nat)

/-- The call starts a browsing session: the object does not browse. -/
def Begins (s : σ) (c : α) : Prop := mayBegin c = true ∧ isBrowsing s = false

instance (s : σ) (c : α) : Decidable (Begins isBrowsing mayBegin s c) :=
  inferInstanceAs (Decidable (_ ∧ _))

/-- The call starts no session, and `listener` stays registered. -/
def Keeps (listener : Nat) (s : σ) (c : α) : Prop :=
  removed c ≠ some listener ∧ ¬ Begins isBrowsing mayBegin s c

instance (listener : Nat) (s : σ) (c : α) :
    Decidable (Keeps isBrowsing mayBegin removed listener s c) :=
  inferInstanceAs (Decidable (_ ∧ _))

/-- What a backend has to show of its calls: one that may begin clears the map if the object does
not browse, and then only changes it; the others do not clear it, and remove no listener but the one
that they are about. -/
structure Sessions (effects : σ → α → List Effect) : Prop where
  begin : ∀ s c, mayBegin c = true → ∃ cs : List Change,
    effects s c = (if isBrowsing s then [] else [.clear]) ++ cs.map .change
  other : ∀ s c listener, mayBegin c = false → removed c ≠ some listener →
    ∀ e ∈ effects s c, e.keeps listener = true

variable {isBrowsing mayBegin removed} {effects : σ → α → List Effect} {s : σ} {c : α}
  (hsessions : Sessions isBrowsing mayBegin removed effects)

include hsessions

/-- A call that starts a session clears the map first. -/
theorem Sessions.effects_of_begins (h : Begins isBrowsing mayBegin s c) :
    ∃ cs : List Change, effects s c = .clear :: cs.map .change := by
  obtain ⟨cs, hcs⟩ := hsessions.begin s c h.1
  exact ⟨cs, by rw [hcs, h.2]; rfl⟩

theorem Sessions.effects_of_keeps {listener : Nat}
    (h : Keeps isBrowsing mayBegin removed listener s c) :
    ∀ e ∈ effects s c, e.keeps listener = true := by
  cases hmay : mayBegin c with
  | false => exact hsessions.other s c listener hmay h.1
  | true =>
    have hbrowsing : isBrowsing s = true := by simpa [Begins, hmay] using h.2
    obtain ⟨cs, hcs⟩ := hsessions.begin s c hmay
    rw [hcs, hbrowsing]
    exact keeps_change listener cs

theorem Sessions.keeps_outputs {call : σ → α → Option σ} {listener : Nat} {cs : List α}
    (hcs : EveryStep call (Keeps isBrowsing mayBegin removed listener) s cs) :
    ∀ e ∈ outputs call effects s cs, e.keeps listener = true := by
  have hkeeps := hcs.imp (I := fun _ => True) (fun _ _ _ _ _ _ _ => trivial)
    (fun _ _ _ _ hc => hsessions.effects_of_keeps hc) trivial
  exact hkeeps.forall_outputs

end Sessions

/-! ## Runs -/

/-! An object with shared data (`view`), whose calls have their `effects` on it and no others. -/

section Run

variable {σ α : Type} {call : σ → α → Option σ} {view : σ → Impl} {effects : σ → α → List Effect}
  {s t : σ} {c : α} {cs : List α}
  (hcall : ∀ s c t, call s c = some t → view t = (effects s c).foldl Impl.apply (view s))

include hcall

/-- What is known of each instance is what the effects of the run make known. -/
theorem gives_run (hs : (view s).instanceMap = ∅) (h : run call s cs = some t) (n : Str) :
    (view t).Gives n ((outputs call effects s cs).foldl (known n) none) := by
  apply Impl.gives_of_getElem?
  rw [view_run hcall h]
  apply getElem?_foldl_apply
  rw [hs]
  exact Std.ExtTreeMap.getElem?_empty

/-- The getters of an object that starts empty follow its history. -/
theorem follows_run (hs : (view s).instanceMap = ∅) (hd : (view s).data = ∅)
    (h : run call s cs = some t) : (view t).Follows (outputs call effects s cs) := by
  have hdata : ∀ key, (view t).data[key]? =
      lastValue ((outputs call effects s cs).filterMap Effect.assigns) key := fun key => by
    rw [view_run hcall h, data_foldl_apply, hd, getElem?_assignAll_empty]
  refine ⟨gives_run hcall hs h, fun key => ?_, fun key => ?_⟩
  · rw [Impl.getSelf, hdata]
  · rw [Impl.getSelfKeys, Std.ExtTreeMap.mem_keys, Std.ExtTreeMap.mem_iff_isSome_getElem?, hdata]

theorem heard_run (h : run call s cs = some t) (listener : Nat) :
    heard listener (view t).calls = heard listener (view s).calls ++
      told listener (listener ∈ (view s).listeners) (outputs call effects s cs) := by
  rw [view_run hcall h, heard_foldl_apply]

variable {isBrowsing : σ → Bool} {mayBegin : α → Bool} {removed : α → Option Nat}
  (hsessions : Sessions isBrowsing mayBegin removed effects)

include hsessions

/-- Within a session the events lead from the names at the start to the names at the end. -/
theorem replay_run {listener : Nat} (hs : listener ∈ (view s).listeners)
    (hcs : EveryStep call (Keeps isBrowsing mayBegin removed listener) s cs)
    (h : run call s cs = some t) :
    ∃ es, heard listener (view t).calls = heard listener (view s).calls ++ es ∧
      ∀ n, n ∈ replay (.ofList (view s).getInstances) es ↔ n ∈ (view t).getInstances := by
  refine ⟨_, heard_run hcall h listener, fun n => ?_⟩
  rw [decide_eq_true hs,
    mem_replay_told (i := view s) (hsessions.keeps_outputs hcs) (by simp),
    ← view_run hcall h]

/-- A session that the call `c` starts, possibly with changes already: its events lead from no
names. -/
theorem replay_session {u : σ} {listener : Nat} (hs : listener ∈ (view s).listeners)
    (hc : Begins isBrowsing mayBegin s c) (hu : call s c = some u)
    (hcs : EveryStep call (Keeps isBrowsing mayBegin removed listener) u cs)
    (h : run call u cs = some t) :
    ∃ es, heard listener (view t).calls = heard listener (view s).calls ++ es ∧
      ∀ n, n ∈ replay ∅ es ↔ n ∈ (view t).getInstances := by
  have hrun : run call s (c :: cs) = some t := run_cons_eq_some.mpr ⟨u, hu, h⟩
  obtain ⟨changes, hclear⟩ := hsessions.effects_of_begins hc
  refine ⟨_, heard_run hcall hrun listener, fun n => ?_⟩
  rw [decide_eq_true hs, view_run hcall hrun, outputs, hu, Option.elim_some, hclear,
    List.cons_append, told, List.foldl_cons]
  refine mem_replay_told (fun e he => ?_) (by simp [Impl.apply, Impl.getInstances]) n
  rcases List.mem_append.mp he with he | he
  · exact keeps_change listener changes e he
  · exact hsessions.keeps_outputs hcs e he

end Run

end Servus
