import Servus.Avahi.Trace
import Servus.Dnssd.Model

/-!
# TXT records, between the backends and on the wire

An instance's data travels as a list of entries `key=value`. avahi hands the entries over and
`_resolveCB` splits them by hand; dns_sd splits them itself (`txtItem`).

* `resolveCB_agree_iff`: the backends decode a record alike if and only if the last entry of each
  key has a `=`. Without one, avahi's value is the whole entry and dns_sd's is empty.
* `resolveCB_encode_iff`: what `_createServices` encodes is decoded again if and only if no key has
  a `=`.
* `getHost_resolveCB_iff`: the host of an instance is entered in front of its TXT record, under the
  key `servus_host`. It is the resolved one if and only if the record has no other value for this
  key.
-/

namespace Servus

open Cpp

/-! ## Decoding -/

/-- The key of an entry. -/
def txtKey (entry : Str) : Str := entry.takeWhile (· != '=')

/-- An entry of a TXT record. -/
structure ValidEntry (entry : Str) : Prop where
  size : 1 ≤ entry.length ∧ entry.length ≤ 255
  key_ne_nil : txtKey entry ≠ []
  key_noNul : '\x00' ∉ txtKey entry

instance (entry : Str) : Decidable (ValidEntry entry) :=
  decidable_of_iff ((1 ≤ entry.length ∧ entry.length ≤ 255) ∧ txtKey entry ≠ [] ∧
    '\x00' ∉ txtKey entry) ⟨fun h => ⟨h.1, h.2.1, h.2.2⟩, fun h => ⟨h.1, h.2, h.3⟩⟩

/-- What `TXTRecordGetItemAtIndex` gives for an entry: the key as a C string, and the bytes behind
the first `=` as the value, none if there is no `=`. -/
def txtItem (entry : Str) : Str × Str :=
  (cStr (txtKey entry), (entry.dropWhile (· != '=')).tail)

/-- No later entry of the record has the key of this one. -/
def IsLastEntry (txt : List Str) (entry : Str) : Prop :=
  ∃ before after, txt = before ++ entry :: after ∧ ∀ e ∈ after, txtKey e ≠ txtKey entry

theorem IsLastEntry.mem {txt : List Str} {entry : Str} (h : IsLastEntry txt entry) :
    entry ∈ txt := by
  obtain ⟨before, after, rfl, -⟩ := h
  simp

/-- The two readings of an entry differ exactly when it has no `=`. -/
theorem entryItem_eq_txtItem_iff {entry : Str} (h : ValidEntry entry) :
    (Avahi.entryItem entry).2 = (txtItem entry).2 ↔ '=' ∈ entry := by
  unfold Avahi.entryItem txtItem
  by_cases hmem : '=' ∈ entry
  · simp [hmem]
  · have hall := all_ne_of_notMem hmem
    have hdrop : entry.dropWhile (· != '=') = [] := List.dropWhile_eq_nil_iff.mpr hall
    have hne : entry ≠ [] := List.ne_nil_of_length_pos h.size.1
    simp [hmem, hdrop, hne]

theorem find?_eq_some_iff_isLastEntry {txt : List Str} {k e : Str} :
    txt.reverse.find? (txtKey · = k) = some e ↔ txtKey e = k ∧ IsLastEntry txt e := by
  rw [find?_reverse_eq_some]
  simp only [decide_eq_true_eq, decide_eq_false_iff_not]
  refine and_congr_right ?_
  rintro rfl
  rfl

/-- Two decodings that give each entry its key agree exactly when they give the last entry of each
key the same value. -/
theorem assignAll_eq_iff {txt : List Str} {f g : Str → Str × Str} (m : ValueMap)
    (hf : ∀ e ∈ txt, (f e).1 = txtKey e) (hg : ∀ e ∈ txt, (g e).1 = txtKey e) :
    assignAll m (txt.map f) = assignAll m (txt.map g) ↔
      ∀ e, IsLastEntry txt e → (f e).2 = (g e).2 := by
  rw [Std.ExtTreeMap.ext_getElem?_iff]
  simp only [getElem?_assignAll_map m hf, getElem?_assignAll_map m hg]
  constructor
  · intro h e hlast
    have hfind := find?_eq_some_iff_isLastEntry.mpr ⟨rfl, hlast⟩
    have hk := h (txtKey e)
    rw [hfind] at hk
    exact Option.some.inj hk
  · intro h k
    cases hfind : txt.reverse.find? (txtKey · = k) with
    | none => rfl
    | some e =>
      rw [Option.map_some, Option.map_some, h e (find?_eq_some_iff_isLastEntry.mp hfind).2]

/-- **The backends decode a record alike exactly when the last entry of each key has a `=`.** -/
theorem resolveCB_agree_iff {s : Avahi.Service} {d : Dnssd.Service} {txt : List Str}
    {items : List (Str × Str)} {isLocal : Bool} (hs : d.browsedName ∉ s.instanceMap)
    (hd : d.browsedName ∉ d.instanceMap) (hscope : ¬ (s.scope = .IF_LOCAL ∧ isLocal = false))
    (hvalid : ∀ entry ∈ txt, ValidEntry entry) (hitems : items = txt.map txtItem) (host : Str)
    (errno : Int) :
    (∃ s', s.resolveCB .FOUND d.browsedName host txt isLocal errno = .ok s' ∧
        s'.instanceMap[d.browsedName]? = (d.resolveCB host items).instanceMap[d.browsedName]?) ↔
      ∀ entry, IsLastEntry txt entry → '=' ∈ entry := by
  have hdnssd : (d.resolveCB host items).toImpl =
      d.toImpl.change (.resolved d.browsedName host items) := rfl
  have hkeys : ∀ entry ∈ txt, (txtItem entry).1 = txtKey entry :=
    fun entry hentry => cStr_eq_self_iff.mpr (hvalid entry hentry).key_noNul
  rw [Avahi.resolveCB_found_eq hscope, hdnssd, Impl.getElem?_change_new hd, hitems]
  simp only [Except.ok.injEq, exists_eq_left', Impl.getElem?_change_new hs, Option.some.injEq]
  rw [assignAll_eq_iff _ (fun _ _ => rfl) hkeys]
  exact forall₂_congr fun entry hlast => entryItem_eq_txtItem_iff (hvalid entry hlast.mem)

/-- A key with several `=` in its value, an empty value, and a key without `=` that comes again. -/
theorem resolveCB_agree_iff_repeated :
    ∃ s', Avahi.Service.resolveCB { name := "_t._tcp".toList } .FOUND "x".toList "h".toList
        ["k".toList, "k=a=b".toList, "l=".toList] false 0 = .ok s' ∧
      s'.instanceMap["x".toList]? =
        (Dnssd.Service.resolveCB { name := "_t._tcp".toList, browsedName := "x".toList }
          "h".toList [("k".toList, []), ("k".toList, "a=b".toList),
            ("l".toList, [])]).instanceMap["x".toList]? := by
  refine (resolveCB_agree_iff (d := { name := "_t._tcp".toList, browsedName := "x".toList })
    (by simp) (by simp) (by simp) (by decide) (by decide) _ _).mpr fun entry hlast => ?_
  have hall : ∀ e ∈ ["k".toList, "k=a=b".toList, "l=".toList],
      ["k".toList, "k=a=b".toList, "l=".toList].reverse.find? (txtKey · = txtKey e) = some e →
        '=' ∈ e := by decide
  exact hall entry hlast.mem (find?_eq_some_iff_isLastEntry.mpr ⟨rfl, hlast⟩)

/-- An entry without `=`: with avahi the value of `k` is `k`, with dns_sd it is empty. -/
theorem not_resolveCB_agree : ¬ ∀ (s : Avahi.Service) (d : Dnssd.Service) (txt : List Str)
    (items : List (Str × Str)) (isLocal : Bool) (host : Str) (errno : Int),
    d.browsedName ∉ s.instanceMap → d.browsedName ∉ d.instanceMap →
    ¬ (s.scope = .IF_LOCAL ∧ isLocal = false) → (∀ entry ∈ txt, ValidEntry entry) →
    items = txt.map txtItem →
    ∃ s', s.resolveCB .FOUND d.browsedName host txt isLocal errno = .ok s' ∧
      s'.instanceMap[d.browsedName]? = (d.resolveCB host items).instanceMap[d.browsedName]? := by
  intro h
  obtain ⟨s', hs', heq⟩ := h { name := "_t._tcp".toList }
    { name := "_t._tcp".toList, browsedName := "x".toList } ["k".toList] [("k".toList, [])] false
    "h".toList 0 (by simp) (by simp) (by simp) (by decide) (by decide)
  cases hs'
  revert heq
  decide

/-! ## Encoding and decoding -/

/-- The string list of a map: its pairs from the last to the first. -/
theorem encode_eq {env : Avahi.Env} {data : ValueMap}
    (hadd : ∀ l key value, env.addPair l key value = (key ++ '=' :: value) :: l)
    (hdata : ∀ kv ∈ data.toList, '\x00' ∉ kv.1 ∧ '\x00' ∉ kv.2) :
    env.encode data = data.toList.reverse.map fun kv => kv.1 ++ '=' :: kv.2 := by
  have hstep : ∀ (l : List Str), ∀ kv ∈ data.toList,
      env.addPair l (cStr kv.1) (cStr kv.2) = (kv.1 ++ '=' :: kv.2) :: l := by
    intro l kv hkv
    rw [cStr_eq_self_iff.mpr (hdata kv hkv).1, cStr_eq_self_iff.mpr (hdata kv hkv).2, hadd]
  rw [Avahi.Env.encode, List.foldl_ext _ _ _ hstep, List.foldl_flip_cons_eq_append,
    List.append_nil, List.map_reverse]

/-- No decoded key has a `=`. -/
theorem getElem?_decoded {k : Str} (h : '=' ∈ k) (m : ValueMap) (txt : List Str) :
    (assignAll m (txt.map Avahi.entryItem))[k]? = m[k]? := by
  have hfind : (txt.map Avahi.entryItem).reverse.find? (·.1 = k) = none := by
    refine List.find?_eq_none.mpr fun item hitem hkey => ?_
    obtain ⟨entry, -, rfl⟩ := List.mem_map.mp (List.mem_reverse.mp hitem)
    obtain rfl := of_decide_eq_true hkey
    simpa using List.mem_takeWhile_imp h
  rw [getElem?_assignAll, hfind]
  rfl

theorem getElem?_host (host k : Str) : ((∅ : ValueMap).insert "servus_host".toList host)[k]? =
    if k = "servus_host".toList then some host else none := by
  rw [Std.ExtTreeMap.getElem?_insert, Std.ExtTreeMap.getElem?_empty]
  exact if_congr (by rw [Std.compare_eq_iff_eq, eq_comm]) rfl rfl

/-- What avahi's `FOUND` leaves in the map for a new instance. -/
theorem resolveCB_values_iff {s : Avahi.Service} {name : Str} {isLocal : Bool}
    (hname : name ∉ s.instanceMap) (hscope : ¬ (s.scope = .IF_LOCAL ∧ isLocal = false))
    (host : Str) (txt : List Str) (errno : Int) (P : ValueMap → Prop) :
    (∃ s' values, s.resolveCB .FOUND name host txt isLocal errno = .ok s' ∧
        s'.instanceMap[name]? = some values ∧ P values) ↔
      P (assignAll ((∅ : ValueMap).insert "servus_host".toList host)
        (txt.map Avahi.entryItem)) := by
  rw [Avahi.resolveCB_found_eq hscope]
  constructor
  · rintro ⟨s', values, hs', hv, h⟩
    obtain rfl := Except.ok.inj hs'
    rw [Impl.getElem?_change_new hname, Option.some.injEq] at hv
    exact hv ▸ h
  · intro h
    exact ⟨_, _, rfl, Impl.getElem?_change_new hname host _, h⟩

/-- **Decoding undoes encoding exactly when no key has a `=`.** -/
theorem resolveCB_encode_iff (env : Avahi.Env) {s : Avahi.Service} {data : ValueMap} {name : Str}
    {isLocal : Bool}
    (hadd : ∀ l key value, env.addPair l key value = (key ++ '=' :: value) :: l)
    (hdata : ∀ kv ∈ data.toList, '\x00' ∉ kv.1 ∧ '\x00' ∉ kv.2) (hname : name ∉ s.instanceMap)
    (hscope : ¬ (s.scope = .IF_LOCAL ∧ isLocal = false)) (host : Str) (errno : Int) :
    (∃ s' values, s.resolveCB .FOUND name host (env.encode data) isLocal errno = .ok s' ∧
        s'.instanceMap[name]? = some values ∧ ∀ k : Str, values[k]? =
          data[k]?.or (if k = "servus_host".toList then some host else none)) ↔
      ∀ k ∈ data, '=' ∉ k := by
  rw [resolveCB_values_iff hname hscope]
  constructor
  · intro h k hk heq
    have hhost : k ≠ "servus_host".toList := by
      rintro rfl
      exact absurd heq (by decide)
    have hk' := h k
    rw [getElem?_decoded heq, getElem?_host, if_neg hhost] at hk'
    obtain ⟨v, hv⟩ := Option.isSome_iff_exists.mp (Std.ExtTreeMap.mem_iff_isSome_getElem?.mp hk)
    simp [hv] at hk'
  · intro h k
    have hitems : (env.encode data).map Avahi.entryItem = data.toList.reverse := by
      rw [encode_eq hadd hdata, List.map_map]
      refine (List.map_congr_left fun kv hkv => ?_).trans (List.map_id _)
      have hsome := Std.ExtTreeMap.mem_toList_iff_getElem?_eq_some.mp (List.mem_reverse.mp hkv)
      exact Avahi.entryItem_append kv.2 (h kv.1 (Std.ExtTreeMap.getElem?_eq_some_iff.mp hsome).1)
    rw [hitems, getElem?_assignAll_bindings _ data (fun _ => List.mem_reverse), getElem?_host]

/-- An empty key, an empty value, and a `=` in a value. -/
def separators : ValueMap :=
  .ofList [([], "v".toList), ("k".toList, "a=b".toList), ("l".toList, [])]

theorem resolveCB_encode_iff_separators :
    ∃ s' values, Avahi.Service.resolveCB { name := "_t._tcp".toList } .FOUND "x".toList "h".toList
        ((Avahi.Env.documented []).encode separators) false 0 = .ok s' ∧
      s'.instanceMap["x".toList]? = some values ∧ ∀ k : Str, values[k]? =
        separators[k]?.or (if k = "servus_host".toList then some "h".toList else none) := by
  have hkeys : ∀ k ∈ separators.keys, '=' ∉ k := by decide
  exact (resolveCB_encode_iff (.documented []) (fun _ _ _ => rfl) (by decide) (by simp)
    (by simp) _ _).mpr fun k hk => hkeys k (Std.ExtTreeMap.mem_keys.mpr hk)

/-! ## The host -/

/-- The last item of the key `servus_host`, if there is one, has the host as its value. -/
def KeepsHost (host : Str) (items : List (Str × Str)) : Prop :=
  ∀ before value after, items = before ++ ("servus_host".toList, value) :: after →
    (∀ item ∈ after, item.1 ≠ "servus_host".toList) → value = host

theorem keepsHost_iff_find? {host : Str} {items : List (Str × Str)} :
    KeepsHost host items ↔
      ∀ item, items.reverse.find? (·.1 = "servus_host".toList) = some item → item.2 = host := by
  simp only [find?_reverse_eq_some, decide_eq_true_eq, decide_eq_false_iff_not]
  constructor
  · rintro h ⟨key, value⟩ ⟨hkey, before, after, rfl, hafter⟩
    obtain rfl : key = "servus_host".toList := hkey
    exact h before value after rfl hafter
  · intro h before value after hitems hafter
    exact h ("servus_host".toList, value) ⟨rfl, before, after, hitems, hafter⟩

instance (host : Str) (items : List (Str × Str)) : Decidable (KeepsHost host items) :=
  decidable_of_iff
    (∀ item ∈ items.reverse.find? fun item : Str × Str => item.1 = "servus_host".toList,
      item.2 = host) keepsHost_iff_find?.symm

/-- After an instance is resolved, its host is the resolved one exactly when the items keep it. -/
theorem getHost_change_iff (i : Impl) (name host : Str) (items : List (Str × Str)) :
    (i.change (.resolved name host items)).getHost name = host ↔ KeepsHost host items := by
  rw [keepsHost_iff_find?, Impl.getHost, Impl.get, Impl.getElem?_change_resolved]
  dsimp only
  rw [getElem?_assignAll, Std.ExtTreeMap.getElem?_insert_self]
  cases items.reverse.find? (·.1 = "servus_host".toList) with
  | none => simp
  | some item => simp

/-- Avahi's `FOUND` is the change of a resolved instance. -/
theorem resolveCB_getHost_iff {s : Avahi.Service} {name : Str} {isLocal : Bool}
    (hscope : ¬ (s.scope = .IF_LOCAL ∧ isLocal = false)) (host : Str) (txt : List Str)
    (errno : Int) :
    (∃ s', s.resolveCB .FOUND name host txt isLocal errno = .ok s' ∧ s'.getHost name = host) ↔
      KeepsHost host (txt.map Avahi.entryItem) := by
  rw [Avahi.resolveCB_found_eq hscope]
  simp only [Except.ok.injEq, exists_eq_left']
  exact getHost_change_iff s.toImpl name host _

/-- **An announced record keeps the host exactly when it has no other value for it.** In both
backends, whatever was known of the instance before, and whichever of two records comes with it:
`getHost` gives the resolved host exactly when both records keep it. -/
theorem getHost_resolveCB_iff {s : Avahi.Service} {d : Dnssd.Service} {isLocal : Bool}
    (hscope : ¬ (s.scope = .IF_LOCAL ∧ isLocal = false)) (name host : Str) (txt txt' : List Str)
    (items items' : List (Str × Str)) (errno : Int) :
    ((∀ t ∈ [txt, txt'], ∃ s', s.resolveCB .FOUND name host t isLocal errno = .ok s' ∧
        s'.getHost name = host) ↔ ∀ t ∈ [txt, txt'], KeepsHost host (t.map Avahi.entryItem)) ∧
      ((∀ t ∈ [items, items'], (d.resolveCB host t).getHost d.browsedName = host) ↔
        ∀ t ∈ [items, items'], KeepsHost host t) := by
  constructor
  · exact forall₂_congr fun t _ => resolveCB_getHost_iff hscope host t errno
  · exact forall₂_congr fun t _ => getHost_change_iff d.toImpl d.browsedName host t

/-- A record without the key, and one that repeats the host. -/
theorem getHost_resolveCB_iff_repeated :
    (∀ t ∈ [["k=v".toList], ["servus_host=e".toList, "servus_host=h".toList]],
      ∃ s', Avahi.Service.resolveCB { name := "_t._tcp".toList } .FOUND "x".toList "h".toList t
        false 0 = .ok s' ∧ s'.getHost "x".toList = "h".toList) ∧
    ∀ t ∈ [[], [("servus_host".toList, "h".toList)]],
      (Dnssd.Service.resolveCB { name := "_t._tcp".toList, browsedName := "x".toList } "h".toList
        t).getHost "x".toList = "h".toList := by
  have hscope : ¬ (({ name := "_t._tcp".toList } : Avahi.Service).scope = .IF_LOCAL ∧
      false = false) := by simp
  have hiff := getHost_resolveCB_iff
    (d := { name := "_t._tcp".toList, browsedName := "x".toList }) hscope "x".toList "h".toList
    ["k=v".toList] ["servus_host=e".toList, "servus_host=h".toList] []
    [("servus_host".toList, "h".toList)] 0
  exact ⟨hiff.1.mpr (by decide), hiff.2.mpr (by decide)⟩

/-- An announced `servus_host` replaces the host, with both backends. -/
theorem getHost_resolveCB_overridden :
    (¬ ∃ s', Avahi.Service.resolveCB { name := "_t._tcp".toList } .FOUND "x".toList "h".toList
        ["servus_host=e".toList] false 0 = .ok s' ∧ s'.getHost "x".toList = "h".toList) ∧
      (Dnssd.Service.resolveCB { name := "_t._tcp".toList, browsedName := "x".toList } "h".toList
        [("servus_host".toList, "e".toList)]).getHost "x".toList ≠ "h".toList := by
  constructor
  · rintro ⟨s', hs', heq⟩
    cases hs'
    revert heq
    decide
  · decide

end Servus
