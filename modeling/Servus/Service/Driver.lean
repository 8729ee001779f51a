import Servus.Service.Network
import Servus.Test.Directory

/-!
# The test driver in place of a network

With the test driver a program makes the same calls as with a backend that has a network (`op`),
and finds at once what is announced. `data_driven`: after the same calls the objects have the same
data. `driver_agrees`: when the network has come to rest, as one of the objects sees it (`Settled`),
the getters of this object give what they give after a browse of the driver, apart from the host.
-/

namespace Servus.Network

open Cpp

/-- The call on the driver's object at `i`; a callback is none. -/
def Call.op (i : Nat) : Call → Option Test.Op
  | .avahi (.op (.announce port instanceName _ _))
  | .dnssd (.op (.announce port instanceName _ _)) => some (.announce i port instanceName)
  | .avahi (.op .withdraw) | .dnssd (.op .withdraw) => some (.withdraw i)
  | .avahi (.op (.set key value _)) | .dnssd (.op (.set key value)) => some (.set i key value)
  | .avahi (.op (.beginBrowsing ..)) | .dnssd (.op (.beginBrowsing ..)) => some (.beginBrowsing i)
  | .avahi (.op (.browse ..)) | .dnssd (.op (.browse ..)) => some (.browse i)
  | .avahi (.op .endBrowsing) | .dnssd (.op .endBrowsing) => some (.endBrowsing i)
  | .avahi (.op (.callback _)) => none
  | .avahi (.discover ..) | .dnssd (.discover ..) => some (.discover i)
  | .avahi (.addListener listener) | .dnssd (.addListener listener) =>
    some (.addListener i listener)
  | .avahi (.removeListener listener) | .dnssd (.removeListener listener) =>
    some (.removeListener i listener)

/-- The calls on the driver. -/
def driven (calls : List (Nat × Call)) : List Test.Op := calls.filterMap fun c => c.2.op c.1

/-- The assignment of a call to the data of its object. -/
def assignment : Test.Op → Option (Str × Str)
  | .set _ key value => some (key, value)
  | _ => none

/-! ## The data -/

theorem filterMap_assigns_change (cs : List Change) :
    (cs.map Effect.change).filterMap Effect.assigns = [] := by
  rw [List.filterMap_eq_nil_iff]
  intro e he
  obtain ⟨c, -, rfl⟩ := List.mem_map.mp he
  rfl

theorem filterMap_assigns_clear (b : Bool) :
    (if b then [] else [Effect.clear]).filterMap Effect.assigns = [] := by
  cases b <;> rfl

theorem filterMap_assigns_browse (P : Prop) [Decidable P] (cs : List Change) :
    (if P then cs.map Effect.change else []).filterMap Effect.assigns = [] := by
  split
  · exact filterMap_assigns_change cs
  · rfl

namespace Party

variable {net : Net} {p p' : Party} {c : Call}

/-- A call assigns what it does on the driver. -/
theorem assigns_effects (h : p.call net.env c = some p') (i : Nat) :
    (p.effects net.env c).filterMap Effect.assigns = ((c.op i).bind assignment).toList := by
  cases p with
  | avahi s =>
    cases c with
    | dnssd c => cases h
    | avahi c =>
      cases c with
      | op op =>
        cases op with
        | announce | browse | callback => exact filterMap_assigns_change _
        | beginBrowsing => exact filterMap_assigns_clear _
        | withdraw | set | endBrowsing => rfl
      | discover =>
        rw [effects, Avahi.Service.effects, List.filterMap_append, filterMap_assigns_browse]
        exact congrArg (· ++ []) (filterMap_assigns_clear _)
      | addListener | removeListener => rfl
  | dnssd s =>
    cases c with
    | avahi c => cases h
    | dnssd c =>
      cases c with
      | op op =>
        cases op with
        | browse => exact filterMap_assigns_change _
        | beginBrowsing => exact filterMap_assigns_clear _
        | announce | withdraw | set | endBrowsing => rfl
      | discover =>
        rw [effects, Dnssd.Service.effects, List.filterMap_append, filterMap_assigns_browse]
        exact congrArg (· ++ []) (filterMap_assigns_clear _)
      | addListener | removeListener => rfl

theorem call_data (h : p.call net.env c = some p') (i : Nat) :
    p'.impl.data = assignAll p.impl.data ((c.op i).bind assignment).toList := by
  rw [call_impl h, data_foldl_apply, assigns_effects h i]

end Party

/-- The data of all objects behind a change of the one at `a`. -/
theorem put_data {y : Test.Sys} {a : Nat} {o o' : Test.Service} (ho : y.objects[a]? = some o)
    {entries : List (Str × Str)} (hdata : o'.data = assignAll o.data entries) {j : Nat}
    {q : Test.Service} (hq : (y.put a o').objects[j]? = some q) :
    ∃ p : Test.Service, y.objects[j]? = some p ∧
      q.data = assignAll p.data (if j = a then entries else []) := by
  rw [Test.Sys.put_objects] at hq
  by_cases hj : a = j
  · subst hj
    rw [if_pos rfl] at hq
    obtain rfl := Option.some.inj hq
    exact ⟨o, ho, by rw [if_pos rfl, hdata]⟩
  · rw [if_neg hj] at hq
    exact ⟨q, hq, by rw [if_neg (Ne.symm hj)]; rfl⟩

/-- A call on the driver assigns to the data of its object only. -/
theorem driver_data {hostname : Str} {y y' : Test.Sys} {op : Test.Op} (hinv : Test.Inv y)
    (hop : ∀ i, op ≠ .construct i) (h : Test.step hostname y op = some y') {j : Nat}
    {q : Test.Service} (hq : y'.objects[j]? = some q) :
    ∃ p : Test.Service, y.objects[j]? = some p ∧
      q.data = assignAll p.data (if j = op.object then (assignment op).toList else []) := by
  by_cases hset : ∃ a k v, op = .set a k v
  · obtain ⟨a, k, v, rfl⟩ := hset
    obtain ⟨o, ho, h⟩ := Option.bind_eq_some_iff.mp h
    cases h
    exact put_data ho rfl hq
  have hnone : assignment op = none := by
    cases op with
    | set a k v => exact absurd ⟨a, k, v, rfl⟩ hset
    | _ => rfl
  rw [hnone]
  rcases Test.step_cases hinv h with ⟨a, rfl, -⟩ | ⟨a, port, n, o, rfl, ho, rfl⟩ |
    ⟨a, o, rfl, ho, rfl⟩ | ⟨a, o, rfl, ho, rfl⟩ | ⟨a, k, v, o, rfl, -⟩ | ⟨o, o', ho, rfl, hsame, -⟩
  · exact absurd rfl (hop a)
  · exact put_data ho rfl hq
  · exact put_data ho rfl hq
  · rw [Std.ExtTreeMap.getElem?_erase] at hq
    split at hq
    · cases hq
    · exact ⟨q, hq, by simp [assignAll]⟩
  · exact absurd ⟨a, k, v, rfl⟩ hset
  · exact put_data ho hsame.data hq

theorem op_cases {c : Call} {i : Nat} {op : Test.Op} (h : c.op i = some op) :
    op.object = i ∧ ∀ j, op ≠ .construct j := by
  unfold Call.op at h
  split at h <;> cases h <;> exact ⟨rfl, nofun⟩

/-! ## The same calls -/

/-- The objects have the same data on the network and on the driver. -/
def SameData (w : World) (y : Test.Sys) : Prop :=
  ∀ (i : Nat) (o : Test.Service), y.objects[i]? = some o → o.data = (w.parties i).impl.data

section Driven

variable {net : Net} {w w' : World} {hostname : Str} {y y' : Test.Sys} {calls : List (Nat × Call)}

theorem World.step_data {i : Nat} {c : Call} (h : World.step net w (i, c) = some w') (j : Nat) :
    (w'.parties j).impl.data = assignAll (w.parties j).impl.data
      (if j = i then ((c.op i).bind assignment).toList else []) := by
  obtain ⟨p, hp, hparties, -⟩ := World.step_cases h
  rw [hparties]
  by_cases hj : j = i
  · subst hj
    rw [Function.update_self, if_pos rfl, Party.call_data hp j]
  · rw [Function.update_of_ne hj, if_neg hj]
    rfl

theorem data_driven (hinv : Test.Inv y) (hsame : SameData w y)
    (hw : run (World.step net) w calls = some w')
    (hy : run (Test.step hostname) y (driven calls) = some y') : Test.Inv y' ∧ SameData w' y' := by
  induction calls generalizing w y with
  | nil =>
    cases hw
    cases hy
    exact ⟨hinv, hsame⟩
  | cons ic calls ih =>
    obtain ⟨i, c⟩ := ic
    obtain ⟨u, hu, hw⟩ := run_cons_eq_some.mp hw
    cases hop : c.op i with
    | none =>
      have hdriven : driven ((i, c) :: calls) = driven calls := List.filterMap_cons_none hop
      rw [hdriven] at hy
      refine ih hinv (fun j o ho => ?_) hw hy
      rw [World.step_data hu, hop, hsame j o ho]
      simp [assignAll]
    | some op =>
      have hdriven : driven ((i, c) :: calls) = op :: driven calls := List.filterMap_cons_some hop
      rw [hdriven] at hy
      obtain ⟨v, hv, hy⟩ := run_cons_eq_some.mp hy
      obtain ⟨hobject, hnew⟩ := op_cases hop
      refine ih (Test.inv_step hinv hv) (fun j q hq => ?_) hw hy
      obtain ⟨o, ho, hdata⟩ := driver_data hinv hnew hv hq
      rw [World.step_data hu, hop, Option.bind_some, hdata, hsame j o ho, hobject]

/-- On a new driver the objects have no data. -/
theorem driver_constructed {n : Nat}
    (hy : run (Test.step hostname) {} ((List.range n).map .construct) = some y) :
    Test.Inv y ∧ ∀ (i : Nat) (o : Test.Service), y.objects[i]? = some o → o.data = ∅ := by
  refine run_invariant (I := fun y => Test.Inv y ∧
    ∀ (i : Nat) (o : Test.Service), y.objects[i]? = some o → o.data = ∅) hy ?_
    ⟨Test.inv_init, by simp⟩
  rintro u op v hop ⟨hu, hdata⟩ hv
  obtain ⟨a, -, rfl⟩ := List.mem_map.mp hop
  refine ⟨Test.inv_step hu hv, fun i o ho => ?_⟩
  have hv : u.construct a = some v := hv
  unfold Test.Sys.construct at hv
  split at hv
  · cases hv
  · cases hv
    rw [Test.Sys.put_objects] at ho
    split at ho
    · cases ho
      rfl
    · exact hdata i o ho

end Driven

/-! ## A network at rest -/

/-- The network has come to rest, as party `a` sees it: who is announced on the driver is announced
on the network, alone under its name and with data that a TXT record can have, and `a` was last told
its present record; and of other names `a` was told nothing, or that they are gone. -/
structure Settled (net : Net) (w : World) (y : Test.Sys) (a : Nat) : Prop where
  announced : ∀ (i : Nat) (o : Test.Service), y.objects[i]? = some o → o.isAnnounced = true →
    (w.parties i).isAnnounced = true ∧ Announceable (w.parties i).impl.data ∧
      ∀ r ∈ w.published, r.name = o.instanceName → r.party = i
  news : ∀ (i : Nat) (o : Test.Service), y.objects[i]? = some o → o.isAnnounced = true →
    ∃ txt before host items after, (w.parties i).handedTxt net = some txt ∧
      w.logOf a = before ++ .change (.resolved o.instanceName host items) :: after ∧
      (∀ e ∈ after, e.concerns o.instanceName = false) ∧
      items.Perm (txt.map (w.parties a).backend.read)
  others : ∀ n, (∀ (i : Nat) (o : Test.Service), y.objects[i]? = some o → o.isAnnounced = true →
    o.instanceName ≠ n) → (w.logOf a).foldl (known n) none = none

/-- The getters cannot tell one from the other, apart from the host. -/
structure SameGetters (i j : Impl) : Prop where
  getInstances : i.getInstances = j.getInstances
  getKeys : ∀ n, i.getKeys n = j.getKeys n
  containsKey : ∀ n key, i.containsKey n key = j.containsKey n key
  get : ∀ n (key : Str), key ≠ "servus_host".toList → i.get n key = j.get n key

/-- Maps with the same keys, and with the same values but for the host. -/
theorem sameGetters_of_getElem? {i j : Impl}
    (h : ∀ n : Str, (i.instanceMap[n]? = none ∧ j.instanceMap[n]? = none) ∨
      ∃ values values', i.instanceMap[n]? = some values ∧ j.instanceMap[n]? = some values' ∧
        ∀ k : Str, (k ∈ values ↔ k ∈ values') ∧
          (k ≠ "servus_host".toList → values[k]? = values'[k]?)) : SameGetters i j := by
  constructor
  · refine keys_eq_of_mem_iff fun n => ?_
    rw [Std.ExtTreeMap.mem_iff_isSome_getElem?, Std.ExtTreeMap.mem_iff_isSome_getElem?]
    rcases h n with ⟨hi, hj⟩ | ⟨values, values', hi, hj, -⟩
    · rw [hi, hj]
    · rw [hi, hj, Option.isSome_some, Option.isSome_some]
  · intro n
    rcases h n with ⟨hi, hj⟩ | ⟨values, values', hi, hj, hsame⟩
    · rw [Impl.getKeys, Impl.getKeys, hi, hj]
    · rw [Impl.getKeys, Impl.getKeys, hi, hj]
      exact keys_eq_of_mem_iff fun k => (hsame k).1
  · intro n key
    rcases h n with ⟨hi, hj⟩ | ⟨values, values', hi, hj, hsame⟩
    · rw [Impl.containsKey, Impl.containsKey, hi, hj]
    · rw [Impl.containsKey, Impl.containsKey, hi, hj, Bool.eq_iff_iff]
      exact (hsame key).1
  · intro n key hkey
    rcases h n with ⟨hi, hj⟩ | ⟨values, values', hi, hj, hsame⟩
    · rw [Impl.get, Impl.get, hi, hj]
    · rw [Impl.get, Impl.get, hi, hj]
      exact congrArg (·.getD []) ((hsame key).2 hkey)

/-- **The driver stands for the network.** The same calls are made on any number of objects of
either backend and on as many objects of the driver. When the network has come to rest, as one of
its objects sees it, the getters of that object give what they give behind a `browse` or a
`discover` on the driver, apart from the host. -/
theorem driver_agrees {net : Net} (hnet : net.Documented) {start : Nat → Party}
    (hstart : ∀ i, (start i).Fresh) {calls : List (Nat × Call)} {w : World}
    (hw : run (World.step net) { parties := start } calls = some w) {hostname : Str} {n : Nat}
    {y y' : Test.Sys}
    (hy : run (Test.step hostname) {} ((List.range n).map .construct ++ driven calls) = some y)
    {a : Nat} (hsettled : Settled net w y a) (hbrowse : Test.Browses y a y') :
    ∃ o, y'.objects[a]? = some o ∧ SameGetters (w.parties a).impl o.toImpl := by
  obtain ⟨y₀, hy₀, hy⟩ := run_append_eq_some.mp hy
  obtain ⟨hinv₀, hempty⟩ := driver_constructed hy₀
  obtain ⟨hinv, hsame⟩ := data_driven hinv₀ (w := { parties := start })
    (fun i o ho => (hempty i o ho).trans (hstart i).impl.2.symm) hw hy
  have hwinv := World.inv_run hnet hstart hw
  obtain ⟨o, o', ho, rfl, hann, hmap⟩ := hbrowse.cases hinv
  refine ⟨o', by simp, sameGetters_of_getElem? fun m => ?_⟩
  have hshows := Test.shows_of_published hinv hmap
  by_cases hm : m ∈ o'.getInstances
  · right
    obtain ⟨i, p, values', hp, hpann, rfl, -, hvalues', -, hget⟩ := hshows.values m hm
    obtain ⟨hiann, hdata, honly⟩ := hsettled.announced i p hp hpann
    obtain ⟨txt, before, host, items, after, htxt, hlog, hafter, hitems⟩ :=
      hsettled.news i p hp hpann
    obtain ⟨values, hvalues, hlatest⟩ := hwinv.getElem?_latest hnet hstart
      (World.current_run hnet hstart hw i) hiann htxt hdata honly hlog hafter hitems
    refine ⟨values, values', hvalues, hvalues', fun k => ?_⟩
    have hk := (hget k).1
    rw [hsame i p hp] at hk
    constructor
    · rw [Std.ExtTreeMap.mem_iff_isSome_getElem?, Std.ExtTreeMap.mem_iff_isSome_getElem?, hk,
        hlatest]
      split <;> simp
    · intro hhost
      rw [hk, hlatest, if_neg hhost, if_neg hhost]
  · left
    have hnone : o'.instanceMap[m]? = none := by
      rw [Impl.mem_getInstances] at hm
      simpa using hm
    refine ⟨?_, hnone⟩
    rw [hwinv.getElem?_instanceMap hstart a m, hsettled.others m fun i p hp hpann hname =>
      hm ((hshows.names m).mpr ⟨i, p, hp, hpann, hname⟩)]
    rfl

/-- The avahi object and its records, as the dnssd object was told them. -/
theorem driver_agrees_changedBetween :
    ∃ w y y' o, run (World.step World.documented) { parties := World.twoParties }
        World.changedBetween = some w ∧
      run (Test.step []) {} ((List.range 2).map .construct ++ driven World.changedBetween) =
        some y ∧ Test.Browses y 1 y' ∧ y'.objects[1]? = some o ∧
      SameGetters (w.parties 1).impl o.toImpl := by
  obtain ⟨w, hw⟩ : ∃ w, run (World.step World.documented) { parties := World.twoParties }
      World.changedBetween = some w := Option.isSome_iff_exists.mp (by decide)
  obtain ⟨y, hy⟩ : ∃ y, run (Test.step []) {}
      ((List.range 2).map .construct ++ driven World.changedBetween) = some y :=
    Option.isSome_iff_exists.mp (by decide)
  have hdriver : ∀ y ∈ run (Test.step []) {}
      ((List.range 2).map .construct ++ driven World.changedBetween), (y.browse 1).isSome ∧
        (∀ io ∈ y.objects.toList, io.2.isAnnounced = true →
          io.1 = 0 ∧ io.2.instanceName = "x".toList) ∧
        ∃ o ∈ y.objects[0]?, o.isAnnounced = true ∧ o.instanceName = "x".toList := by decide
  obtain ⟨hbrowse, hannounced, p, hp, hpann, hpname⟩ := hdriver y hy
  obtain ⟨⟨r, y'⟩, hy'⟩ := Option.isSome_iff_exists.mp hbrowse
  have hx : ∀ (i : Nat) (o : Test.Service), y.objects[i]? = some o → o.isAnnounced = true →
      i = 0 ∧ o.instanceName = "x".toList := fun i o ho =>
    hannounced (i, o) (Std.ExtTreeMap.mem_toList_iff_getElem?_eq_some.mpr ho)
  have hgood := World.changedBetween_run hw
  have hsettled : Settled World.documented w y 1 := by
    refine ⟨fun i o ho hann => ?_, fun i o ho hann => ?_, fun n hn => ?_⟩
    · obtain ⟨rfl, hname⟩ := hx i o ho hann
      exact ⟨hgood.isAnnounced, hgood.announceable, hname ▸ hgood.published⟩
    · obtain ⟨rfl, hname⟩ := hx i o ho hann
      refine ⟨_, _, _, _, _, hgood.handedTxt, hname ▸ hgood.logOf, by simp, ?_⟩
      rw [hgood.backend]
      decide
    · have hne : "x".toList ≠ n := hpname ▸ hn 0 p hp hpann
      rw [hgood.logOf]
      simp only [List.cons_append, List.nil_append, List.foldl_cons, List.foldl_nil, known,
        if_neg hne]
  obtain ⟨o, ho, hgetters⟩ := driver_agrees World.documented_documented World.fresh_twoParties hw hy
    hsettled (.inl ⟨r, hy'⟩)
  exact ⟨w, y, y', o, hw, hy, .inl ⟨r, hy'⟩, ho, hgetters⟩

end Servus.Network
