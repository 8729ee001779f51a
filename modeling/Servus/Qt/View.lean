import Servus.Qt.Mirror
import Servus.Qt.Navigation
import Servus.Service.History

/-!
# What a view shows of a service (`ItemModel::data` of `servus/qt/itemModel.cpp`)

A view knows indexes only: it walks down with `rowCount` and `index` and asks for the `data` of
each. `shown_eq` is what it shows of the items. `shown_service` is what it shows of a service,
whatever was discovered before: the instances one after the other, each with its host as the tool
tip and followed by its own keys and values (`Shows`).
-/

namespace Servus.Qt

open Cpp

def DisplayRole : Int := 0
def ToolTipRole : Int := 3
def UserRole : Int := 0x0100

/-- `QObject::objectName` of an object below the root item. -/
def objectName (rootItem : List Item) : Child → QString
  | .row i => (rootItem[i]?.map Item.objectName).getD ""
  | .keyValue i j => (rootItem[i]?.bind fun item => item.children[j]?).getD ""

/-- What a view shows of an index: its text, its tool tip and its user data. -/
structure Shown where
  display : Option QString
  toolTip : Option QString := none
  user : Option QString := none
  deriving DecidableEq

section Data

variable (qt : Lib) (service : Impl)

/-- `data`; a `QVariant()` is `none`. The root item has no index. -/
def data (rootItem : List Item) (idx : ModelIndex (Option Child)) (role : Int) : Option QString :=
  if !idx.isValid then none
  else
    match idx.internalPointer with
    | some (some item) =>
      if role = DisplayRole then some (objectName rootItem item)
      else if role = ToolTipRole ∨ role = UserRole then
        if objectChildren rootItem (some item) = [] then none
        else some (qt.fromStdString (service.getHost (qt.toStdString (objectName rootItem item))))
      else none
    | _ => none

/-- A view that walks over `levels` levels. -/
def shown (rootItem : List Item) (levels : Nat) : List Shown :=
  ((objectTree rootItem).walk levels {}).map fun idx =>
    ⟨data qt service rootItem idx DisplayRole, data qt service rootItem idx ToolTipRole,
      data qt service rootItem idx UserRole⟩

/-- What a view should show of an item. -/
def Item.shown (item : Item) : List Shown :=
  let host := if item.children = [] then none
    else some (qt.fromStdString (service.getHost (qt.toStdString item.objectName)))
  ⟨some item.objectName, host, host⟩ :: item.children.map fun text => ⟨some text, none, none⟩

/-- What a view should show of an instance with the texts `below` it. -/
def shownInstance (n : Str) (below : List Str) : List Shown :=
  let host := qt.fromStdString (service.getHost n)
  ⟨some (qt.fromStdString n), some host, some host⟩ ::
    below.map fun text => ⟨some (qt.fromStdString text), none, none⟩

/-- The instances in some order, each followed by its own texts in some order. -/
def Shows (shown : List Shown) : Prop :=
  ∃ (instances : List Str) (below : Str → List Str), instances.Perm service.getInstances ∧
    (∀ n ∈ instances, (below n).Perm (texts service n)) ∧
      shown = instances.flatMap fun n => shownInstance qt service n (below n)

end Data

/-! ## The walk of a view -/

/-- A loop over the positions of a list is a loop over the list. -/
theorem flatMap_range_length {α β : Type*} {l : List α} {F : α → List β} {G : Nat → List β}
    (h : ∀ i x, l[i]? = some x → G i = F x) :
    (List.range l.length).flatMap G = l.flatMap F := by
  have hrange : List.range l.length = l.zipIdx.map Prod.snd := by
    rw [List.zipIdx_map_snd, List.range_eq_range']
  have hfst : l.zipIdx.map Prod.fst = l := List.zipIdx_map_fst 0 l
  conv_rhs => rw [← hfst, List.flatMap_map]
  rw [hrange, List.flatMap_map]
  exact List.flatMap_congr fun x hx => h x.2 x.1 (List.mem_zipIdx_iff_getElem?.mp hx)

theorem exists_map_of_perm {α β : Type*} {f : α → β} {l : List β} {m : List α}
    (h : l.Perm (m.map f)) : ∃ m' : List α, l = m'.map f ∧ m'.Perm m :=
  (congrFun₂ (List.eq_map_comp_perm f) l m).mpr h

theorem isValid_of_mem_walk {Ptr : Type} (t : ObjectTree Ptr) (levels : Nat) {p : ModelIndex Ptr}
    {item : Ptr} (h : t.parentItem p = some item) :
    ∀ idx ∈ t.walk levels p, idx.isValid = true := by
  induction levels generalizing p item with
  | zero => exact fun idx hidx => absurd hidx List.not_mem_nil
  | succ levels ih =>
    intro idx hidx
    rw [t.walk_succ h] at hidx
    obtain ⟨x, -, hidx⟩ := List.mem_flatMap.mp hidx
    rcases List.mem_cons.mp hidx with rfl | hidx
    · exact ObjectTree.isValid_createIndex x.2 x.1
    · exact ih (t.parentItem_createIndex x.2 x.1) idx hidx

section Shown

variable (qt : Lib) (service : Impl) (rootItem : List Item)

/-- What is shown of an object of the tree. -/
def shownObject : Option Child → Shown
  | none => ⟨none, none, none⟩
  | some item =>
    let host := if objectChildren rootItem (some item) = [] then none
      else some (qt.fromStdString (service.getHost (qt.toStdString (objectName rootItem item))))
    ⟨some (objectName rootItem item), host, host⟩

theorem data_of_isValid {idx : ModelIndex (Option Child)} (hvalid : idx.isValid = true) :
    (⟨data qt service rootItem idx DisplayRole, data qt service rootItem idx ToolTipRole,
      data qt service rootItem idx UserRole⟩ : Shown) =
        shownObject qt service rootItem idx.internalPointer.join := by
  rcases hptr : idx.internalPointer with _ | _ | item <;>
    simp [data, hvalid, hptr, shownObject, DisplayRole, ToolTipRole, UserRole]

/-- A view shows the items in order, each with its texts. -/
theorem shown_eq (levels : Nat) :
    shown qt service rootItem (levels + 2) = rootItem.flatMap (Item.shown qt service) := by
  have hwalk : shown qt service rootItem (levels + 2) =
      (objectTree rootItem).items.map (shownObject qt service rootItem) := by
    have hptr := (objectTree rootItem).walk_items levels
    have hobject : (((objectTree rootItem).walk (levels + 2) {}).map (·.internalPointer)).map
        (fun ptr => shownObject qt service rootItem ptr.join) =
          shown qt service rootItem (levels + 2) := by
      rw [List.map_map]
      exact List.map_congr_left fun idx hidx => (data_of_isValid qt service rootItem
        (isValid_of_mem_walk _ _ (objectTree rootItem).parentItem_invalid idx hidx)).symm
    rw [← hobject, hptr, List.map_map]
    rfl
  rw [hwalk, ObjectTree.items, List.map_flatMap]
  show ((List.range rootItem.length).map fun i => some (Child.row i)).flatMap _ = _
  rw [List.flatMap_map]
  refine flatMap_range_length fun i item hitem => ?_
  have hcount : textCount rootItem i = item.children.length := by rw [textCount, hitem]; rfl
  have hchildren : objectChildren rootItem (some (.row i)) =
      (List.range item.children.length).map fun j => some (.keyValue i j) := by
    rw [objectChildren, hcount]
  have hnone : objectChildren rootItem (some (.row i)) = [] ↔ item.children = [] := by
    rw [hchildren, List.map_eq_nil_iff, List.range_eq_nil, List.length_eq_zero_iff]
  have hname : objectName rootItem (.row i) = item.objectName := by rw [objectName, hitem]; rfl
  show shownObject qt service rootItem (some (.row i)) ::
    (objectChildren rootItem (some (.row i))).map (shownObject qt service rootItem) = _
  rw [hchildren, List.map_map, Item.shown]
  congr 1
  · simp only [shownObject, hname, hnone]
  · rw [List.map_eq_flatMap, List.map_eq_flatMap]
    refine flatMap_range_length fun j text htext => ?_
    have hkeyValue : objectName rootItem (.keyValue i j) = text := by
      rw [objectName, hitem, Option.bind_some, htext]; rfl
    rw [Function.comp_apply, shownObject, hkeyValue]
    rfl

end Shown

/-- A row whose service knows no such instance is shown with an empty host. -/
example : shown plainLib { name := "_t._tcp".toList } [⟨"x", ["k = v"]⟩] 2 =
    [⟨some "x", some "", some ""⟩, ⟨some "k = v", none, none⟩] := by decide

/-! ## A view of a service -/

section Mirrors

variable {service : Impl} {rootItem : List Item}

/-- A listed instance has a text, that of its host. -/
theorem texts_ne_nil (h : service.Hosted) {n : Str} (hn : n ∈ service.getInstances) :
    texts service n ≠ [] := by
  have hmem := Impl.mem_getInstances.mp hn
  obtain ⟨values, hvalues⟩ :=
    Option.isSome_iff_exists.mp (Std.ExtTreeMap.mem_iff_isSome_getElem?.mp hmem)
  have hhost := Std.ExtTreeMap.mem_keys.mpr (h n values hvalues)
  rw [texts, Impl.getKeys, hvalues]
  simpa using List.ne_nil_of_mem hhost

/-- The row of a listed instance is shown with its host. -/
theorem Item.shown_eq {qt : Lib} (hq : qt.Documented) (h : service.Hosted) {n : Str}
    (hn : n ∈ service.getInstances) (hutf8 : IsUtf8 n) {item : Item} {below : List Str}
    (hname : item.objectName = qt.fromStdString n)
    (hchildren : item.children = below.map qt.fromStdString)
    (hbelow : below.Perm (texts service n)) :
    Item.shown qt service item = shownInstance qt service n below := by
  have hne : item.children ≠ [] := by
    rw [hchildren, ne_eq, List.map_eq_nil_iff]
    rintro rfl
    exact texts_ne_nil h hn hbelow.nil_eq.symm
  rw [Item.shown, shownInstance, if_neg hne, hname, hchildren, toStdString_fromStdString hq hutf8,
    List.map_map]
  rfl

/-- The rows may come in another order than the instances, and the texts than the keys. -/
theorem shown_of_mirrors {qt : Lib} (hq : qt.Documented) (hm : Mirrors qt service rootItem)
    (hutf8 : ∀ n ∈ service.getInstances, IsUtf8 n) (h : service.Hosted) (levels : Nat) :
    Shows qt service (shown qt service rootItem (levels + 2)) := by
  obtain ⟨instances, hrows, hperm⟩ := exists_map_of_perm hm.rows
  have hbelow : ∀ n, ∃ below : List Str, n ∈ service.getInstances →
      below.Perm (texts service n) ∧ ∀ item ∈ rootItem, item.objectName = qt.fromStdString n →
        item.children = below.map qt.fromStdString := by
    intro n
    by_cases hn : n ∈ service.getInstances
    · obtain ⟨item, hitem, hname⟩ :=
        List.mem_map.mp (hm.rows.mem_iff.mpr (List.mem_map_of_mem hn))
      obtain ⟨below, hchildren, hperm⟩ := exists_map_of_perm (hm.children n hn item hitem hname)
      refine ⟨below, fun _ => ⟨hperm, fun item' hitem' hname' => ?_⟩⟩
      rw [← hchildren, List.inj_on_of_nodup_map hm.nodup hitem' hitem (hname'.trans hname.symm)]
    · exact ⟨[], fun h => absurd h hn⟩
  choose below hbelow using hbelow
  have hlisted : ∀ n ∈ instances, n ∈ service.getInstances := fun n => hperm.mem_iff.mp
  refine ⟨instances, below, hperm, fun n hn => (hbelow n (hlisted n hn)).1, ?_⟩
  have hlen : rootItem.length = instances.length := by
    simpa [rows] using congrArg List.length hrows
  have hblocks : rootItem.map (Item.shown qt service) =
      instances.map fun n => shownInstance qt service n (below n) := by
    refine List.ext_getElem (by simpa using hlen) fun i hi hi' => ?_
    rw [List.getElem_map, List.getElem_map]
    simp only [List.length_map] at hi hi'
    have hname : rootItem[i].objectName = qt.fromStdString instances[i] := by
      have hget := congrArg (·[i]?) hrows
      simpa [rows, hi, hi'] using hget
    have hn := hlisted _ (List.getElem_mem hi')
    obtain ⟨hperm, hchildren⟩ := hbelow _ hn
    exact Item.shown_eq hq h hn (hutf8 _ hn) hname (hchildren _ (List.getElem_mem hi) hname) hperm
  rw [Qt.shown_eq, List.flatMap_def, List.flatMap_def, hblocks]

/-- Along its browses a view shows the service, if they change it by changes that the model follows,
and every instance has a host at the start. -/
theorem shown_run {qt : Lib} (hq : qt.Documented) {σ β : Type} (toImpl : σ → Impl)
    (changes : σ → β → List Change)
    {browse : ItemModel σ → β → Option (ItemModel σ)} {self : Nat} {start m : ItemModel σ}
    {browses : List β}
    (hchanges : ∀ m b m', browse m b = some m' →
      toImpl m'.service = (changes m.service b).foldl Impl.change (toImpl m.service))
    (hfollows : ∀ m b m', Follows qt self (toImpl m.service) m.rootItem →
      ChangesOk qt (toImpl m.service) (changes m.service b) → browse m b = some m' →
      Follows qt self (toImpl m'.service) m'.rootItem)
    (hstart : Follows qt self (toImpl start.service) start.rootItem)
    (hhosted : (toImpl start.service).Hosted)
    (hok : EveryStep browse (fun m b => ChangesOk qt (toImpl m.service) (changes m.service b)) start
      browses)
    (h : run browse start browses = some m) (levels : Nat) :
    Shows qt (toImpl m.service) (shown qt (toImpl m.service) m.rootItem (levels + 2)) := by
  have hinv : Follows qt self (toImpl m.service) m.rootItem ∧ (toImpl m.service).Hosted := by
    refine hok.invariant (I := fun m => Follows qt self (toImpl m.service) m.rootItem ∧
      (toImpl m.service).Hosted) h (fun m b m' hI hb hstep => ?_) ⟨hstart, hhosted⟩
    refine ⟨hfollows m b m' hI.1 hb hstep, ?_⟩
    rw [hchanges m b m' hstep]
    exact Impl.hosted_changes hI.2 _
  exact shown_of_mirrors hq hinv.1.mirrors hinv.1.utf8 hinv.2 levels

end Mirrors

/-- **A view shows what is discovered.** On a service of either backend with any history of calls,
and under the conditions under which the model mirrors it: after its construction and after every
`browse` of it, a view that walks over the model shows the listed instances, each once with its host
as the tool tip and user data, and directly behind it each of its own keys and values once. -/
theorem shown_service {qt : Lib} (hq : qt.Documented) (self : Nat) (name : Str) :
    (∀ (env : Avahi.Env) (calls : List Avahi.Call) (s : Avahi.Service) (newBrowser : Bool)
      (errno : Int) (browses : List (Int × List Avahi.Poll)) (m : ItemModel Avahi.Service)
      (levels : Nat), run (Avahi.call env) { name := name } calls = some s →
      ConstructOk s.browser s.toImpl →
      EveryStep (browseAvahi qt self env)
        (fun m b => ChangesOk qt m.service.toImpl (m.service.browseChanges b.1 b.2))
        (ofAvahi qt self s newBrowser errno) browses →
      run (browseAvahi qt self env) (ofAvahi qt self s newBrowser errno) browses = some m →
      Shows qt m.service.toImpl (shown qt m.service.toImpl m.rootItem (levels + 2))) ∧
    ∀ (calls : List Dnssd.Call) (s : Dnssd.Service) (error : Int) (ref : Bool)
      (browses : List (Int × List (Dnssd.Iter Dnssd.BrowseReply))) (m : ItemModel Dnssd.Service)
      (levels : Nat), run Dnssd.call { name := name } calls = some s →
      ConstructOk s.in_ s.toImpl →
      EveryStep (browseDnssd qt self)
        (fun m b => ChangesOk qt m.service.toImpl (m.service.browseChanges b.1 b.2))
        (ofDnssd qt self s error ref) browses →
      run (browseDnssd qt self) (ofDnssd qt self s error ref) browses = some m →
      Shows qt m.service.toImpl (shown qt m.service.toImpl m.rootItem (levels + 2)) := by
  constructor
  · intro env calls s newBrowser errno browses m levels hs hconstruct hok h
    obtain ⟨hmap, hself⟩ := ofAvahi_eq qt self s newBrowser errno
    have hhosted : s.Hosted := by
      rw [view_run (Avahi.call_effects env) hs]
      exact Impl.hosted_foldl_apply (Impl.hosted_of_empty rfl) _
    refine shown_run hq (·.toImpl) (fun s b => s.browseChanges b.1 b.2) (fun m b m' hstep => ?_)
      (fun m b m' hf hb hstep => follows_browseAvahi hq hf hb hstep)
      (follows_construct hq hconstruct hmap hself) ?_ hok h levels
    · obtain ⟨⟨t, r⟩, ht, rfl⟩ := Option.map_eq_some_iff.mp hstep
      exact (Avahi.browse_changed ht).toImpl
    · rw [ofAvahi, Avahi.beginBrowsing_effects]
      apply Impl.hosted_foldl_apply
      exact hhosted
  · intro calls s error ref browses m levels hs hconstruct hok h
    obtain ⟨hmap, hself⟩ := ofDnssd_eq qt self s error ref
    have hhosted : s.Hosted := by
      rw [view_run Dnssd.call_effects hs]
      exact Impl.hosted_foldl_apply (Impl.hosted_of_empty rfl) _
    refine shown_run hq (·.toImpl) (fun s b => s.browseChanges b.1 b.2) (fun m b m' hstep => ?_)
      (fun m b m' hf hb hstep => follows_browseDnssd hq hf hb hstep)
      (follows_construct hq hconstruct hmap hself) ?_ hok h levels
    · obtain ⟨⟨r, t⟩, ht, rfl⟩ := Option.map_eq_some_iff.mp hstep
      exact Dnssd.browse_toImpl ht
    · rw [ofDnssd, Dnssd.beginBrowsing_effects]
      apply Impl.hosted_foldl_apply
      exact hhosted

/-- The last instance of the avahi service was removed again; that of the dnssd service has a key
beside its host. -/
theorem shown_service_found :
    (∃ m, run (browseAvahi plainLib 7 (.documented []))
        (ofAvahi plainLib 7 { name := "_t._tcp".toList } true 0) foundAndRemoved = some m ∧
      Shows plainLib m.service.toImpl (shown plainLib m.service.toImpl m.rootItem 2)) ∧
    ∃ m, run (browseDnssd plainLib 7) (ofDnssd plainLib 7 { name := "_t._tcp".toList } 0 true)
        addedAndResolved = some m ∧
      Shows plainLib m.service.toImpl (shown plainLib m.service.toImpl m.rootItem 2) := by
  obtain ⟨m, hm⟩ : ∃ m, run (browseAvahi plainLib 7 (.documented []))
      (ofAvahi plainLib 7 { name := "_t._tcp".toList } true 0) foundAndRemoved = some m :=
    Option.isSome_iff_exists.mp (by decide)
  obtain ⟨m', hm'⟩ : ∃ m, run (browseDnssd plainLib 7)
      (ofDnssd plainLib 7 { name := "_t._tcp".toList } 0 true) addedAndResolved = some m :=
    Option.isSome_iff_exists.mp (by decide)
  have hshown := shown_service documented_plainLib 7 "_t._tcp".toList
  exact ⟨⟨m, hm, hshown.1 _ [] _ true 0 _ m 0 rfl (.inl rfl) (by decide) hm⟩,
    m', hm', hshown.2 [] _ 0 true _ m' 0 rfl (.inl rfl) (by decide) hm'⟩

end Servus.Qt
