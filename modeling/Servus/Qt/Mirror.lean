import Servus.Qt.ItemModel

/-!
# The item model and its service

`Mirrors`: the model has one row for each listed instance, with one child `k = v` for each of its
keys. The model looks at the service when it is constructed and when an instance is added that it
does not have, and drops a row when its instance is removed. It does not see

* `beginBrowsing` clear the map behind the rows that the constructor has made (`ConstructOk`),
* an instance that is resolved again with other data, nor, since `findChild` searches the whole
  tree, an instance whose name is the text of a key and value (`ChangeOk`).

A name that is not UTF-8 is another one when it comes back from its row: the model asks the service
for the keys of an instance that is none, and two such names may read as one. So the names that are
added, their keys and their values have to be UTF-8.

`mirrors_of_changesOk`: under these conditions the model mirrors its service after every `browse`.
-/

namespace Servus.Qt

open Cpp

/-- The texts to show for an instance. -/
def texts (service : Impl) (n : Str) : List Str :=
  (service.getKeys n).map fun key => key ++ " = ".toList ++ service.get n key

/-- The rows are the instances, and the children of each its texts, as Qt reads them. -/
structure Mirrors (qt : Lib) (service : Impl) (rootItem : List Item) : Prop where
  nodup : (rows rootItem).Nodup
  rows : (Qt.rows rootItem).Perm (service.getInstances.map qt.fromStdString)
  children : ∀ n ∈ service.getInstances, ∀ item ∈ rootItem, item.objectName = qt.fromStdString n →
    item.children.Perm ((texts service n).map qt.fromStdString)

/-- The keys and values of the instance are UTF-8, and no key has a place marker that `arg` would
take for that of the value. -/
def KeysOk (service : Impl) (n : Str) : Prop :=
  ∀ key ∈ service.getKeys n, IsUtf8 key ∧ IsUtf8 (service.get n key) ∧
    ∀ m ∈ placeMarkers (fromUtf8 key), 2 < m

instance (service : Impl) (n : Str) : Decidable (KeysOk service n) :=
  inferInstanceAs (Decidable (∀ key ∈ service.getKeys n, _))

/-- The name reads as that of a listed instance, or as the text of one of its keys and values. -/
def IsTaken (qt : Lib) (service : Impl) (n : Str) : Prop :=
  ∃ m ∈ service.getInstances, ∃ text ∈ m :: texts service m,
    qt.fromStdString text = qt.fromStdString n

instance (qt : Lib) (service : Impl) (n : Str) : Decidable (IsTaken qt service n) :=
  inferInstanceAs (Decidable (∃ m ∈ service.getInstances, _))

/-- The condition on a change: an instance that is listed is resolved with the texts that it has,
one that is not listed has a name in UTF-8 that is not taken, and a name that is removed is listed
or not taken. -/
def ChangeOk (qt : Lib) (service : Impl) : Change → Prop
  | .resolved n host items =>
    if n ∈ service.instanceMap then
      (texts service n).Perm (texts (service.change (.resolved n host items)) n)
    else
      IsUtf8 n ∧ KeysOk (service.change (.resolved n host items)) n ∧ ¬ IsTaken qt service n
  | .removed n => n ∈ service.instanceMap ∨ ¬ IsTaken qt service n

instance (qt : Lib) (service : Impl) (c : Change) : Decidable (ChangeOk qt service c) := by
  cases c <;> unfold ChangeOk <;> infer_instance

def ChangesOk (qt : Lib) (service : Impl) (cs : List Change) : Prop :=
  EveryStep (fun service c => some (service.change c)) (ChangeOk qt) service cs

instance (qt : Lib) (service : Impl) (cs : List Change) : Decidable (ChangesOk qt service cs) :=
  inferInstanceAs (Decidable (EveryStep _ _ service cs))

/-- The condition on the construction: nothing is listed, or the service browses already, so that
its map is not cleared, and what is listed is UTF-8. -/
def ConstructOk (browsing : Bool) (service : Impl) : Prop :=
  service.getInstances = [] ∨
    browsing = true ∧ ∀ n ∈ service.getInstances, IsUtf8 n ∧ KeysOk service n

/-- What stays so as a service changes: the model mirrors it and is registered there, and the names
that are listed are UTF-8. -/
structure Follows (qt : Lib) (listener : Nat) (service : Impl) (rootItem : List Item) : Prop where
  mirrors : Mirrors qt service rootItem
  registered : listener ∈ service.listeners
  utf8 : ∀ n ∈ service.getInstances, IsUtf8 n

theorem texts_congr {service service' : Impl} {n : Str}
    (h : service.instanceMap[n]? = service'.instanceMap[n]?) :
    texts service n = texts service' n := by
  simp only [texts, Impl.getKeys, Impl.get, h]

/-- The other instances keep their texts. -/
theorem texts_change_of_ne {service : Impl} {c : Change} {n : Str} (h : n ≠ c.name) :
    texts (service.change c) n = texts service n :=
  texts_congr (Impl.getElem?_change_of_ne h)

/-! ## One call -/

section Calls

variable {qt : Lib} {service : Impl} {rootItem : List Item}

namespace Mirrors

/-- A listed instance has a row. -/
theorem mem_rows (hm : Mirrors qt service rootItem) {n : Str} (hn : n ∈ service.instanceMap) :
    qt.fromStdString n ∈ Qt.rows rootItem :=
  hm.rows.mem_iff.mpr (List.mem_map_of_mem (Impl.mem_getInstances.mpr hn))

/-- A name that is not taken is no row. -/
theorem notMem_rows (hm : Mirrors qt service rootItem) {n : Str}
    (hn : ¬ IsTaken qt service n) : qt.fromStdString n ∉ Qt.rows rootItem := by
  intro h
  obtain ⟨m, hm, heq⟩ := List.mem_map.mp (hm.rows.mem_iff.mp h)
  exact hn ⟨m, hm, m, List.mem_cons_self, heq⟩

/-- Nor is it the text of a key and value. -/
theorem notMem_children (hm : Mirrors qt service rootItem) {n : Str}
    (hn : ¬ IsTaken qt service n) : ∀ item ∈ rootItem, qt.fromStdString n ∉ item.children := by
  intro item hitem hchild
  obtain ⟨m, hlisted, hname⟩ := List.mem_map.mp
    (hm.rows.mem_iff.mp (List.mem_map_of_mem (f := Item.objectName) hitem))
  obtain ⟨text, htext, heq⟩ :=
    List.mem_map.mp ((hm.children m hlisted item hitem hname.symm).mem_iff.mp hchild)
  exact hn ⟨m, hlisted, text, List.mem_cons_of_mem m htext, heq⟩

end Mirrors

variable (hq : qt.Documented)
include hq

/-- `arg` makes the texts of UTF-8 keys and values. -/
theorem arg_eq {key value : Str} (hkey : IsUtf8 key) (hvalue : IsUtf8 value)
    (hmarkers : ∀ m ∈ placeMarkers (fromUtf8 key), 2 < m) :
    qt.arg (qt.arg "%1 = %2" (qt.fromStdString key)) (qt.fromStdString value) =
      qt.fromStdString (key ++ " = ".toList ++ value) := by
  have hsep : IsUtf8 " = ".toList := by decide
  have hread : qt.fromStdString " = ".toList = " = " := fromStdString_eq hq hsep
  rw [hq.arg_key, hq.arg_value _ _ (by rwa [fromStdString_eq hq hkey]),
    fromStdString_append hq (hkey.append hsep) hvalue, fromStdString_append hq hkey hsep, hread]

theorem addInstanceItem_eq {n : Str} (hn : IsUtf8 n) (h : KeysOk service n) :
    addInstanceItem qt service rootItem (qt.fromStdString n) =
      rootItem ++ [⟨qt.fromStdString n, (texts service n).map qt.fromStdString⟩] := by
  have htexts : ((service.getKeys n).map fun key => qt.arg (qt.arg "%1 = %2" (qt.fromStdString key))
      (qt.fromStdString (service.get n key))) = (texts service n).map qt.fromStdString := by
    rw [texts, List.map_map]
    exact List.map_congr_left fun key hkey => arg_eq hq (h key hkey).1 (h key hkey).2.1
      (h key hkey).2.2
  simp only [addInstanceItem, toStdString_fromStdString hq hn, htexts]

theorem mirrors_resolved (hm : Mirrors qt service rootItem) {n host : Str}
    {items : List (Str × Str)} (hok : ChangeOk qt service (.resolved n host items)) :
    Mirrors qt (service.change (.resolved n host items))
      (instanceAdded qt (service.change (.resolved n host items)) rootItem n) := by
  simp only [ChangeOk] at hok
  rcases added_cases hq.toSearches rootItem (service.change (.resolved n host items)) n with
    ⟨hfound, hsame, -⟩ | ⟨hnew, -, hadded, -⟩
  · have hn : n ∈ service.instanceMap := by
      by_contra hn
      rw [if_neg hn] at hok
      rcases hfound with hrow | ⟨item, hitem, hchild⟩
      · exact hm.notMem_rows hok.2.2 hrow
      · exact hm.notMem_children hok.2.2 item hitem hchild
    rw [if_pos hn] at hok
    rw [hsame]
    have hlist := Impl.getInstances_change_listed hn host items
    refine ⟨hm.nodup, hm.rows.trans (hlist.map _).symm, fun m hlisted item hitem hname => ?_⟩
    have hchildren := hm.children m (hlist.mem_iff.mp hlisted) item hitem hname
    by_cases hmn : m = n
    · subst hmn
      exact hchildren.trans (hok.map _)
    · rw [texts_change_of_ne hmn]
      exact hchildren
  · have hn : n ∉ service.instanceMap := fun hn => hnew (hm.mem_rows hn)
    rw [if_neg hn] at hok
    obtain ⟨hutf8, hkeys, htaken⟩ := hok
    rw [hadded, addInstanceItem_eq hq hutf8 hkeys]
    have hlist := Impl.getInstances_change_new hn host items
    have hlisted : ∀ m ∈ (service.change (.resolved n host items)).getInstances, m ≠ n →
        m ∈ service.getInstances := fun m hm hmn =>
      (List.mem_cons.mp (hlist.mem_iff.mp hm)).resolve_left hmn
    refine ⟨?_, ?_, fun m hm' item hitem hname => ?_⟩
    · rw [rows, List.map_append]
      exact hm.nodup.append (List.nodup_singleton _) (by simpa using hnew)
    · rw [rows, List.map_append]
      exact ((hm.rows.append_right _).trans List.perm_append_comm).trans (hlist.map _).symm
    · rcases List.mem_append.mp hitem with hitem | hitem
      · have hmn : m ≠ n := by
          intro heq
          rw [heq] at hname
          exact hnew (hname ▸ List.mem_map_of_mem hitem)
        rw [texts_change_of_ne hmn]
        exact hm.children m (hlisted m hm' hmn) item hitem hname
      · obtain rfl := List.mem_singleton.mp hitem
        by_cases hmn : m = n
        · rw [hmn]
        · exact absurd ⟨m, hlisted m hm' hmn, m, List.mem_cons_self, hname.symm⟩ htaken

theorem mirrors_removed (hm : Mirrors qt service rootItem) {n : Str}
    (hok : ChangeOk qt service (.removed n)) :
    Mirrors qt (service.change (.removed n)) (instanceRemoved qt rootItem n) := by
  have hchildren : ∀ m ∈ (service.change (.removed n)).getInstances, ∀ item ∈ rootItem,
      item.objectName = qt.fromStdString m →
        item.children.Perm ((texts (service.change (.removed n)) m).map qt.fromStdString) := by
    intro m hlisted item hitem hname
    obtain ⟨hmn, hbefore⟩ := Impl.mem_change_removed.mp hlisted
    rw [texts_change_of_ne hmn]
    exact hm.children m hbefore item hitem hname
  by_cases hn : n ∈ service.instanceMap
  · obtain ⟨i, hi, hremoved⟩ : ∃ i, (rows rootItem)[i]? = some (qt.fromStdString n) ∧
        instanceRemoved qt rootItem n = rootItem.eraseIdx i := by
      rcases removed_cases hq.toSearches rootItem n with ⟨i, hi, hremoved, -⟩ | ⟨hrow, -⟩ |
        ⟨hrow, -⟩
      · exact ⟨i, hi, hremoved⟩
      · exact absurd (hm.mem_rows hn) hrow
      · exact absurd (hm.mem_rows hn) hrow
    have hnames := rows_eraseIdx hm.nodup hi
    rw [hremoved]
    refine ⟨hnames ▸ hm.nodup.erase _, ?_, fun m hlisted item hitem =>
      hchildren m hlisted item (List.mem_of_mem_eraseIdx hitem)⟩
    have hrows := hm.rows.trans ((Impl.getInstances_change_removed hn).map _)
    have hless := hrows.erase (qt.fromStdString n)
    rwa [List.map_cons, List.erase_cons_head, ← hnames] at hless
  · have htaken : ¬ IsTaken qt service n := hok.resolve_left hn
    have hsame : instanceRemoved qt rootItem n = rootItem := by
      rcases removed_cases hq.toSearches rootItem n with ⟨i, hi, -⟩ |
        ⟨-, i, j, item, hitem, htext, -⟩ | ⟨-, -, hsame, -⟩
      · exact absurd (List.mem_of_getElem? hi) (hm.notMem_rows htaken)
      · exact absurd (List.mem_of_getElem? htext)
          (hm.notMem_children htaken item (List.mem_of_getElem? hitem))
      · exact hsame
    rw [hsame]
    exact ⟨hm.nodup, hm.rows.trans ((Impl.getInstances_change_unlisted hn).map _).symm, hchildren⟩

/-- One change and the call that it makes. -/
theorem mirrors_listen (hm : Mirrors qt service rootItem) {c : Change}
    (hok : ChangeOk qt service c) :
    Mirrors qt (service.change c) (listen qt (service.change c) rootItem c.event) := by
  cases c with
  | resolved n host items => exact mirrors_resolved hq hm hok
  | removed n => exact mirrors_removed hq hm hok

/-! ## The construction and the calls of a `browse` -/

theorem foldl_addInstanceItem {names : List Str}
    (h : ∀ n ∈ names, IsUtf8 n ∧ KeysOk service n) :
    names.foldl (fun rootItem i => addInstanceItem qt service rootItem (qt.fromStdString i))
        rootItem =
      rootItem ++ names.map fun n =>
        ⟨qt.fromStdString n, (texts service n).map qt.fromStdString⟩ := by
  induction names generalizing rootItem with
  | nil => simp
  | cons n names ih =>
    obtain ⟨hutf8, hkeys⟩ := h n List.mem_cons_self
    rw [List.foldl_cons, addInstanceItem_eq hq hutf8 hkeys,
      ih fun m hm => h m (List.mem_cons_of_mem n hm), List.map_cons, List.append_assoc,
      List.singleton_append]

/-- The model mirrors the service when `beginBrowsing` has cleared the map or left it as it is. -/
theorem mirrors_construct {browsing : Bool} (h : ConstructOk browsing service) {service' : Impl}
    (hmap : service'.instanceMap = if browsing then service.instanceMap else ∅) :
    Mirrors qt service' (instanceItems qt service) := by
  rcases h with hnone | ⟨rfl, hlisted⟩
  · have hno : service'.getInstances = [] := by
      cases browsing with
      | false => exact (congrArg (·.keys) hmap).trans rfl
      | true => exact (congrArg (·.keys) hmap).trans hnone
    rw [instanceItems, hnone]
    exact ⟨List.nodup_nil, by simp [hno, rows], by simp [hno]⟩
  · have hsame : service'.getInstances = service.getInstances := congrArg (·.keys) hmap
    have hitems : instanceItems qt service = service.getInstances.map fun n =>
        ⟨qt.fromStdString n, (texts service n).map qt.fromStdString⟩ :=
      foldl_addInstanceItem hq hlisted
    have hnames : rows (instanceItems qt service) =
        service.getInstances.map qt.fromStdString := by
      rw [rows, hitems, List.map_map, Function.comp_def]
    refine ⟨?_, by rw [hnames, hsame], fun n hn item hitem hname => ?_⟩
    · rw [hnames]
      exact service.nodup_getInstances.map_on fun m hm n hn heq =>
        fromStdString_inj hq (hlisted m hm).1 (hlisted n hn).1 heq
    · rw [hitems] at hitem
      obtain ⟨m, hm, rfl⟩ := List.mem_map.mp hitem
      rw [hsame] at hn
      obtain rfl := fromStdString_inj hq (hlisted m hm).1 (hlisted n hn).1 hname
      rw [texts_congr (congrArg (·[m]?) hmap)]

theorem follows_construct {browsing : Bool} (h : ConstructOk browsing service) {service' : Impl}
    (hmap : service'.instanceMap = if browsing then service.instanceMap else ∅) {self : Nat}
    (hself : self ∈ service'.listeners) :
    Follows qt self service' (instanceItems qt service) := by
  have hm := mirrors_construct hq h hmap
  refine ⟨hm, hself, fun n hn => ?_⟩
  obtain ⟨item, hitem, -⟩ := List.mem_map.mp (hm.rows.mem_iff.mpr (List.mem_map_of_mem hn))
  rcases h with hnone | ⟨rfl, hlisted⟩
  · rw [instanceItems, hnone] at hitem
    cases hitem
  · have hsame : service'.getInstances = service.getInstances := congrArg (·.keys) hmap
    exact (hlisted n (hsame ▸ hn)).1

theorem follows_listen {self : Nat} (hf : Follows qt self service rootItem) {c : Change}
    (hok : ChangeOk qt service c) :
    Follows qt self (service.change c) (listen qt (service.change c) rootItem c.event) where
  mirrors := mirrors_listen hq hf.mirrors hok
  registered := by
    rw [Impl.change_listeners]
    exact hf.registered
  utf8 := by
    intro m hm
    cases c with
    | resolved n host items =>
      rcases Impl.mem_change_resolved.mp hm with rfl | hm
      · by_cases hn : m ∈ service.instanceMap
        · exact hf.utf8 m (Impl.mem_getInstances.mpr hn)
        · simp only [ChangeOk, if_neg hn] at hok
          exact hok.1
      · exact hf.utf8 m hm
    | removed n => exact hf.utf8 m (Impl.mem_change_removed.mp hm).2

/-- The calls of a list of changes. -/
theorem follows_follow {self : Nat} (hf : Follows qt self service rootItem) {cs : List Change}
    (hok : ChangesOk qt service cs) :
    Follows qt self (cs.foldl Impl.change service) (follow qt self service rootItem cs) := by
  induction cs generalizing service rootItem with
  | nil => exact hf
  | cons c cs ih =>
    rw [List.foldl_cons, follow, heard_change hf.registered c]
    exact ih (follows_listen hq hf hok.1) (hok.2 _ rfl)

end Calls

/-! ## Both backends -/

theorem ofAvahi_eq (qt : Lib) (self : Nat) (s : Avahi.Service) (newBrowser : Bool) (errno : Int) :
    (ofAvahi qt self s newBrowser errno).service.instanceMap =
        (if s.browser then s.instanceMap else ∅) ∧
      self ∈ (ofAvahi qt self s newBrowser errno).service.listeners := by
  unfold ofAvahi Avahi.Service.beginBrowsing
  cases s.browser <;> cases newBrowser <;> simp [Impl.addListener]

theorem ofDnssd_eq (qt : Lib) (self : Nat) (s : Dnssd.Service) (error : Int) (ref : Bool) :
    (ofDnssd qt self s error ref).service.instanceMap = (if s.in_ then s.instanceMap else ∅) ∧
      self ∈ (ofDnssd qt self s error ref).service.listeners := by
  unfold ofDnssd Dnssd.Service.beginBrowsing Dnssd.Service.endBrowsing
  cases s.in_ with
  | true => simp [Impl.addListener]
  | false =>
    by_cases he : error = Dnssd.kDNSServiceErr_NoError <;> cases ref <;>
      simp [Impl.addListener, he]

section Browse

variable {qt : Lib} (hq : qt.Documented) {self : Nat}
include hq

theorem follows_browseAvahi {env : Avahi.Env} {m m' : ItemModel Avahi.Service}
    {browse : Int × List Avahi.Poll} (hf : Follows qt self m.service.toImpl m.rootItem)
    (hok : ChangesOk qt m.service.toImpl (m.service.browseChanges browse.1 browse.2))
    (h : browseAvahi qt self env m browse = some m') :
    Follows qt self m'.service.toImpl m'.rootItem := by
  obtain ⟨⟨s, r⟩, hs, rfl⟩ := Option.map_eq_some_iff.mp h
  dsimp only
  rw [(Avahi.browse_changed hs).toImpl]
  exact follows_follow hq hf hok

theorem follows_browseDnssd {m m' : ItemModel Dnssd.Service}
    {browse : Int × List (Dnssd.Iter Dnssd.BrowseReply)}
    (hf : Follows qt self m.service.toImpl m.rootItem)
    (hok : ChangesOk qt m.service.toImpl (m.service.browseChanges browse.1 browse.2))
    (h : browseDnssd qt self m browse = some m') :
    Follows qt self m'.service.toImpl m'.rootItem := by
  obtain ⟨⟨r, s⟩, hs, rfl⟩ := Option.map_eq_some_iff.mp h
  dsimp only
  rw [Dnssd.browse_toImpl hs]
  exact follows_follow hq hf hok

end Browse

/-- **The item model mirrors its service.** On a service of either backend, whatever was called on
it before: if nothing is listed or it browses already when the model is constructed, what is listed
then is UTF-8, and each change of the `browse` calls behind it meets `ChangeOk`, then the model
mirrors the service when it is constructed and after every `browse`. -/
theorem mirrors_of_changesOk {qt : Lib} (hq : qt.Documented) (self : Nat) :
    (∀ (env : Avahi.Env) (s : Avahi.Service) (newBrowser : Bool) (errno : Int)
      (browses : List (Int × List Avahi.Poll)) (m : ItemModel Avahi.Service),
      ConstructOk s.browser s.toImpl →
      EveryStep (browseAvahi qt self env)
        (fun m b => ChangesOk qt m.service.toImpl (m.service.browseChanges b.1 b.2))
        (ofAvahi qt self s newBrowser errno) browses →
      run (browseAvahi qt self env) (ofAvahi qt self s newBrowser errno) browses = some m →
      Mirrors qt m.service.toImpl m.rootItem) ∧
    ∀ (s : Dnssd.Service) (error : Int) (ref : Bool)
      (browses : List (Int × List (Dnssd.Iter Dnssd.BrowseReply))) (m : ItemModel Dnssd.Service),
      ConstructOk s.in_ s.toImpl →
      EveryStep (browseDnssd qt self)
        (fun m b => ChangesOk qt m.service.toImpl (m.service.browseChanges b.1 b.2))
        (ofDnssd qt self s error ref) browses →
      run (browseDnssd qt self) (ofDnssd qt self s error ref) browses = some m →
      Mirrors qt m.service.toImpl m.rootItem := by
  constructor
  · intro env s newBrowser errno browses m hconstruct hok h
    obtain ⟨hmap, hself⟩ := ofAvahi_eq qt self s newBrowser errno
    have hf : Follows qt self m.service.toImpl m.rootItem :=
      hok.invariant (I := fun m => Follows qt self m.service.toImpl m.rootItem) h
        (fun _ _ _ hf hok hstep => follows_browseAvahi hq hf hok hstep)
        (follows_construct hq hconstruct hmap hself)
    exact hf.mirrors
  · intro s error ref browses m hconstruct hok h
    obtain ⟨hmap, hself⟩ := ofDnssd_eq qt self s error ref
    have hf : Follows qt self m.service.toImpl m.rootItem :=
      hok.invariant (I := fun m => Follows qt self m.service.toImpl m.rootItem) h
        (fun _ _ _ hf hok hstep => follows_browseDnssd hq hf hok hstep)
        (follows_construct hq hconstruct hmap hself)
    exact hf.mirrors

/-- Found, found again with the same data, and removed. -/
def foundAndRemoved : List (Int × List Avahi.Poll) :=
  [(0, [⟨[.resolve .FOUND "x".toList "h".toList ["k=v".toList] false 0], 0, 0⟩]),
    (0, [⟨[.resolve .FOUND "x".toList "h".toList ["k=v".toList] false 0,
      .browse 1 0 .REMOVE "x".toList false 0], 0, 0⟩])]

/-- An instance is added and resolves. -/
def addedAndResolved : List (Int × List (Dnssd.Iter Dnssd.BrowseReply)) :=
  [(3, [.ready true [⟨0, true, "x".toList, 0, true, 4,
    [.ready true [⟨0, "h".toList, [("k".toList, "v".toList)]⟩] 0]⟩] 0, .timeout])]

theorem mirrors_of_changesOk_found :
    (∃ m, run (browseAvahi plainLib 7 (.documented []))
        (ofAvahi plainLib 7 { name := "_t._tcp".toList } true 0) foundAndRemoved = some m ∧
      Mirrors plainLib m.service.toImpl m.rootItem) ∧
    ∃ m, run (browseDnssd plainLib 7) (ofDnssd plainLib 7 { name := "_t._tcp".toList } 0 true)
        addedAndResolved = some m ∧ Mirrors plainLib m.service.toImpl m.rootItem := by
  obtain ⟨m, hm⟩ : ∃ m, run (browseAvahi plainLib 7 (.documented []))
      (ofAvahi plainLib 7 { name := "_t._tcp".toList } true 0) foundAndRemoved = some m :=
    Option.isSome_iff_exists.mp (by decide)
  obtain ⟨m', hm'⟩ : ∃ m, run (browseDnssd plainLib 7)
      (ofDnssd plainLib 7 { name := "_t._tcp".toList } 0 true) addedAndResolved = some m :=
    Option.isSome_iff_exists.mp (by decide)
  have hmirrors := mirrors_of_changesOk documented_plainLib 7
  exact ⟨⟨m, hm, hmirrors.1 _ _ true 0 _ m (.inl rfl) (by decide) hm⟩,
    m', hm', hmirrors.2 _ 0 true _ m' (.inl rfl) (by decide) hm'⟩

/-- The conditions are enough, but not all of them are needed: of two changes in one `browse` the
second may undo what the model has not seen of the first. -/
example :
    let resolved (v : Str) : Change := .resolved "x".toList "h".toList [("k".toList, v)]
    let service := Impl.change { name := "_t._tcp".toList, listeners := .ofList [7] }
      (resolved "v".toList)
    let changes := [resolved "w".toList, resolved "v".toList]
    let rootItem : List Item := [⟨"x", ["k = v", "servus_host = h"]⟩]
    ¬ ChangesOk plainLib service changes ∧
      follow plainLib 7 service rootItem changes = rootItem ∧
      (texts (changes.foldl Impl.change service) "x".toList).map plainLib.fromStdString =
        ["k = v", "servus_host = h"] := by decide

/-- A service that has discovered `x` and does not browse any more. -/
def discovered : List Avahi.Op :=
  [.beginBrowsing .IF_ALL true 0,
    .browse 0 [⟨[.resolve .FOUND "x".toList "h".toList ["k=v".toList] false 0], 0, 0⟩],
    .endBrowsing]

/-- The constructor makes a row for `x`, and then `beginBrowsing` clears the map. -/
theorem not_mirrors_construct : ¬ ∀ (qt : Lib) (self : Nat) (env : Avahi.Env) (name : Str)
    (ops : List Avahi.Op) (s : Avahi.Service) (newBrowser : Bool) (errno : Int), qt.Documented →
    run (Avahi.step env) { name := name } ops = some s →
    ∀ text, text ∈ (ofAvahi qt self s newBrowser errno).rootItem.map Item.objectName ↔
      text ∈ (ofAvahi qt self s newBrowser errno).service.getInstances.map qt.fromStdString := by
  intro h
  obtain ⟨s, hs⟩ : ∃ s, run (Avahi.step (.documented [])) { name := "_t._tcp".toList } discovered =
      some s := Option.isSome_iff_exists.mp (by decide)
  have hbad : ∀ s ∈ run (Avahi.step (.documented [])) { name := "_t._tcp".toList } discovered,
      ↑"x" ∈ (ofAvahi plainLib 7 s true 0).rootItem.map Item.objectName ∧
        ↑"x" ∉ (ofAvahi plainLib 7 s true 0).service.getInstances.map plainLib.fromStdString := by
    decide
  have hx := h plainLib 7 (.documented []) "_t._tcp".toList discovered s true 0 documented_plainLib
    hs "x"
  exact (hbad s hs).2 (hx.mp (hbad s hs).1)

end Servus.Qt
