import Servus.Avahi.Trace
import Servus.Cpp.Utf8
import Servus.Dnssd.Trace

/-!
# The item model (`servus/qt/itemModel.cpp`)

`ItemModel` shows a service as a tree of two levels: an `Item` for each instance, and below it one
for each key. It is filled once, when it is constructed, and from then on follows the calls on its
listener, each made while the service is as the call's change left it.

What Qt does is `Lib`, with what its documentation promises in `Lib.Documented`. The service has
bytes and the items have Unicode texts, so that a name goes through `fromStdString` on its way to
the items and comes back through `toStdString`: of a name that is not UTF-8 nothing is promised.
`signals` are the calls around a change of the rows that tell the views, and `added_cases` and
`removed_cases` what a call does to the items and signals.
-/

namespace Servus.Qt

open Cpp

/-- A `QString`: the characters of its text. -/
structure QString where
  toList : List Char
  deriving DecidableEq

instance : Append QString := ⟨fun a b => ⟨a.toList ++ b.toList⟩⟩

instance : Coe String QString := ⟨fun s => ⟨s.toList⟩⟩

/-- An instance item: its `objectName`, and those of its children. -/
structure Item where
  objectName : QString
  children : List QString := []
  deriving DecidableEq

/-- The texts of the rows. -/
def rows (rootItem : List Item) : List QString := rootItem.map Item.objectName

/-- An object of the tree, by its place. -/
inductive Child where
  | row (i : Nat)
  | keyValue (i j : Nat)
  deriving DecidableEq

/-- What the model takes from Qt: the conversions of `QString`, `QString::arg`, and
`findChild<QObject*>(name)` on the root item. -/
structure Lib where
  fromStdString : Str → QString
  toStdString : QString → Str
  arg : QString → QString → QString
  findChild : List Item → QString → Option Child

/-- The number of the place marker that a text behind a `%` starts with. -/
def markerNumber (s : List Char) : Option Nat :=
  let digits := ((if s.head? = some 'L' then s.tail else s).takeWhile Char.isDigit).take 2
  if digits = [] then none else some (digitsVal 10 digits)

/-- The numbers of the place markers in a text. -/
def placeMarkers : List Char → List Nat
  | [] => []
  | c :: s => (if c = '%' then (markerNumber s).toList else []) ++ placeMarkers s

/-- `findChild` searches the whole tree, the most direct children first. -/
structure Lib.Searches (qt : Lib) : Prop where
  findChild_row : ∀ rootItem name, name ∈ rows rootItem →
    ∃ i, qt.findChild rootItem name = some (.row i) ∧ (rows rootItem)[i]? = some name
  findChild_keyValue : ∀ rootItem name, name ∉ rows rootItem →
    (∃ item ∈ rootItem, name ∈ item.children) →
    ∃ i j item, qt.findChild rootItem name = some (.keyValue i j) ∧ rootItem[i]? = some item ∧
      item.children[j]? = some name
  findChild_none : ∀ rootItem name, name ∉ rows rootItem →
    (∀ item ∈ rootItem, name ∉ item.children) → qt.findChild rootItem name = none

/-- A `QString` is written in UTF-8 and read from it; what is no UTF-8 is replaced or suppressed, in
a way that is left open. `arg` replaces the lowest numbered place marker. -/
structure Lib.Documented (qt : Lib) : Prop extends qt.Searches where
  fromStdString_utf8 : ∀ text, IsPlain text → qt.fromStdString (utf8 text) = ⟨text⟩
  toStdString_eq : ∀ text, qt.toStdString text = utf8 text.toList
  arg_key : ∀ key, qt.arg "%1 = %2" key = key ++ " = %2"
  arg_value : ∀ key value, (∀ n ∈ placeMarkers key.toList, 2 < n) →
    qt.arg (key ++ " = %2") value = key ++ " = " ++ value

section Conversions

variable {qt : Lib} (hq : qt.Documented)
include hq

theorem fromStdString_eq {s : Str} (h : IsUtf8 s) : qt.fromStdString s = ⟨fromUtf8 s⟩ := by
  obtain ⟨text, hplain, rfl⟩ := h
  rw [hq.fromStdString_utf8 text hplain, fromUtf8_utf8]

/-- UTF-8 comes back. -/
theorem toStdString_fromStdString {s : Str} (h : IsUtf8 s) :
    qt.toStdString (qt.fromStdString s) = s := by
  obtain ⟨text, hplain, rfl⟩ := h
  rw [hq.fromStdString_utf8 text hplain, hq.toStdString_eq]

theorem fromStdString_inj {s s' : Str} (h : IsUtf8 s) (h' : IsUtf8 s')
    (heq : qt.fromStdString s = qt.fromStdString s') : s = s' := by
  rw [← toStdString_fromStdString hq h, heq, toStdString_fromStdString hq h']

theorem fromStdString_append {s s' : Str} (h : IsUtf8 s) (h' : IsUtf8 s') :
    qt.fromStdString (s ++ s') = qt.fromStdString s ++ qt.fromStdString s' := by
  obtain ⟨text, hplain, rfl⟩ := h
  obtain ⟨text', hplain', rfl⟩ := h'
  rw [← utf8_append, hq.fromStdString_utf8 _ (hplain.append hplain'),
    hq.fromStdString_utf8 text hplain, hq.fromStdString_utf8 text' hplain']
  rfl

end Conversions

/-- A search of the tree, the rows first. -/
def firstChild (rootItem : List Item) (name : QString) : Option Child :=
  match rootItem.findIdx? (·.objectName = name) with
  | some i => some (.row i)
  | none =>
    match rootItem.findIdx? (name ∈ ·.children) with
    | some i => some (.keyValue i ((rootItem[i]?.map (·.children.idxOf name)).getD 0))
    | none => none

/-- A library that formats as `arg` does the texts that are asked for here. -/
def plainLib : Lib where
  fromStdString s := ⟨fromUtf8 s⟩
  toStdString text := utf8 text.toList
  arg text value :=
    if text = "%1 = %2" then value ++ " = %2"
    else ⟨text.toList.dropLast.dropLast ++ value.toList⟩
  findChild := firstChild

theorem documented_plainLib : plainLib.Documented where
  fromStdString_utf8 text _ := congrArg QString.mk (fromUtf8_utf8 text)
  toStdString_eq _ := rfl
  arg_key key := rfl
  arg_value key value hkey := by
    have hne : key ++ (" = %2" : QString) ≠ "%1 = %2" := by
      intro h
      have hlist : key.toList ++ " = %2".toList = "%1".toList ++ " = %2".toList :=
        congrArg QString.toList h
      rw [List.append_cancel_right hlist] at hkey
      exact absurd (hkey 1 (by decide)) (by omega)
    have hcut : (key.toList ++ " = %2".toList).dropLast.dropLast = key.toList ++ " = ".toList := by
      simp
    show (if _ then _ else _) = _
    rw [if_neg hne]
    exact congrArg (fun text => QString.mk (text ++ value.toList)) hcut
  findChild_row rootItem name h := by
    rcases findIdx?_cases (·.objectName = name) rootItem with ⟨-, hall⟩ | ⟨a, c, b, rfl, hc, -, hf⟩
    · obtain ⟨item, hitem, hname⟩ := List.mem_map.mp h
      exact absurd (hall item hitem) (by simp [hname])
    · have hc : c.objectName = name := of_decide_eq_true hc
      refine ⟨a.length, ?_, by simp [rows, hc]⟩
      show firstChild _ _ = _
      rw [firstChild, hf]
  findChild_keyValue rootItem name h hchild := by
    have hrow : rootItem.findIdx? (·.objectName = name) = none := by
      simpa [rows] using h
    rcases findIdx?_cases (name ∈ ·.children) rootItem with ⟨-, hall⟩ | ⟨a, c, b, rfl, hc, -, hf⟩
    · obtain ⟨item, hitem, hname⟩ := hchild
      exact absurd (hall item hitem) (by simp [hname])
    · have hc : name ∈ c.children := of_decide_eq_true hc
      refine ⟨a.length, c.children.idxOf name, c, ?_, by simp, List.getElem?_idxOf hc⟩
      show firstChild _ _ = _
      rw [firstChild, hrow, hf]
      simp
  findChild_none rootItem name h hchild := by
    have hrow : rootItem.findIdx? (·.objectName = name) = none := by
      simpa [rows] using h
    have hkey : rootItem.findIdx? (name ∈ ·.children) = none := by
      simpa using hchild
    show firstChild _ _ = _
    rw [firstChild, hrow, hkey]

/-- `delete child`. -/
def deleteChild (rootItem : List Item) : Child → List Item
  | .row i => rootItem.eraseIdx i
  | .keyValue i j => rootItem.modify i fun item =>
      { item with children := item.children.eraseIdx j }

section ItemModel

variable (qt : Lib) (service : Impl)

/-- `_addInstanceItem`. -/
def addInstanceItem (rootItem : List Item) (instanceName : QString) : List Item :=
  let instanceStr := qt.toStdString instanceName
  rootItem ++ [⟨instanceName, (service.getKeys instanceStr).map fun key =>
    qt.arg (qt.arg "%1 = %2" (qt.fromStdString key))
      (qt.fromStdString (service.get instanceStr key))⟩]

/-- `_removeInstanceItem`. -/
def removeInstanceItem (rootItem : List Item) (instanceName : QString) : List Item :=
  match qt.findChild rootItem instanceName with
  | none => rootItem
  | some child => deleteChild rootItem child

/-- `instanceAdded`. -/
def instanceAdded (rootItem : List Item) (instanceName : Str) : List Item :=
  let qstr := qt.fromStdString instanceName
  match qt.findChild rootItem qstr with
  | some _ => rootItem
  | none => addInstanceItem qt service rootItem qstr

/-- `instanceRemoved`. -/
def instanceRemoved (rootItem : List Item) (instanceName : Str) : List Item :=
  let qstr := qt.fromStdString instanceName
  match qt.findChild rootItem qstr with
  | none => rootItem
  | some _ => removeInstanceItem qt rootItem qstr

/-- `beginInsertRows` and `beginRemoveRows` below the root, from the first row to the last, and
their ends. -/
inductive Signal where
  | beginInsertRows (first last : Int)
  | endInsertRows
  | beginRemoveRows (first last : Int)
  | endRemoveRows
  deriving DecidableEq

/-- `rootItem->children().indexOf(child)`. -/
def Child.indexOf : Child → Int
  | .row i => i
  | .keyValue _ _ => -1

/-- The signals of `instanceAdded` and `instanceRemoved`. -/
def signals (rootItem : List Item) : Event → List Signal
  | .instanceAdded n =>
    match qt.findChild rootItem (qt.fromStdString n) with
    | some _ => []
    | none => [.beginInsertRows rootItem.length rootItem.length, .endInsertRows]
  | .instanceRemoved n =>
    match qt.findChild rootItem (qt.fromStdString n) with
    | none => []
    | some child => [.beginRemoveRows child.indexOf child.indexOf, .endRemoveRows]

/-- A call on the listener. -/
def listen (rootItem : List Item) : Event → List Item
  | .instanceAdded n => instanceAdded qt service rootItem n
  | .instanceRemoved n => instanceRemoved qt rootItem n

/-- The items that the constructor makes. -/
def instanceItems : List Item :=
  service.getInstances.foldl (fun rootItem i =>
    addInstanceItem qt service rootItem (qt.fromStdString i)) []

/-- The items after the changes, with the listener `self`: each change makes its calls before the
next one. -/
def follow (self : Nat) : Impl → List Item → List Change → List Item
  | _, rootItem, [] => rootItem
  | service, rootItem, c :: cs =>
    let service' := service.change c
    let calls := heard self (service'.calls.drop service.calls.length)
    follow self service' (calls.foldl (listen qt service') rootItem) cs

end ItemModel

/-- An instance whose name is not UTF-8 gets a row without children: the service is asked for the
keys of another name. -/
example :
    let service := Impl.change { name := "_t._tcp".toList } (.resolved "\xff".toList "h".toList [])
    instanceAdded plainLib service [] "\xff".toList = [⟨"\uFFFD", []⟩] := by decide

/-! ## What a call does -/

theorem rows_eraseIdx {rootItem : List Item} (hnodup : (rows rootItem).Nodup) {i : Nat}
    {text : QString} (hi : (rows rootItem)[i]? = some text) :
    rows (rootItem.eraseIdx i) = (rows rootItem).erase text := by
  obtain ⟨hlt, hget⟩ := List.getElem?_eq_some_iff.mp hi
  rw [← hget, hnodup.erase_getElem i hlt]
  exact (List.eraseIdx_map ..).symm

section Calls

variable {qt : Lib} (hq : qt.Searches) (rootItem : List Item)
include hq

/-- What `findChild` gives for a name. -/
theorem findChild_cases (text : QString) :
    (∃ i, qt.findChild rootItem text = some (.row i) ∧ (rows rootItem)[i]? = some text) ∨
      (text ∉ rows rootItem ∧ ∃ i j item, qt.findChild rootItem text = some (.keyValue i j) ∧
        rootItem[i]? = some item ∧ item.children[j]? = some text) ∨
      (text ∉ rows rootItem ∧ (∀ item ∈ rootItem, text ∉ item.children) ∧
        qt.findChild rootItem text = none) := by
  by_cases hrow : text ∈ rows rootItem
  · exact .inl (hq.findChild_row rootItem text hrow)
  · by_cases hkey : ∃ item ∈ rootItem, text ∈ item.children
    · exact .inr (.inl ⟨hrow, hq.findChild_keyValue rootItem text hrow hkey⟩)
    · have hnone : ∀ item ∈ rootItem, text ∉ item.children :=
        fun item hitem hmem => hkey ⟨item, hitem, hmem⟩
      exact .inr (.inr ⟨hrow, hnone, hq.findChild_none rootItem text hrow hnone⟩)

/-- An addition does nothing when something has the name already, or makes a new last row. -/
theorem added_cases (service : Impl) (n : Str) :
    ((qt.fromStdString n ∈ rows rootItem ∨
          ∃ item ∈ rootItem, qt.fromStdString n ∈ item.children) ∧
        instanceAdded qt service rootItem n = rootItem ∧
        signals qt rootItem (.instanceAdded n) = []) ∨
      (qt.fromStdString n ∉ rows rootItem ∧
        (∀ item ∈ rootItem, qt.fromStdString n ∉ item.children) ∧
        instanceAdded qt service rootItem n =
          addInstanceItem qt service rootItem (qt.fromStdString n) ∧
        signals qt rootItem (.instanceAdded n) =
          [.beginInsertRows rootItem.length rootItem.length, .endInsertRows]) := by
  rcases findChild_cases hq rootItem (qt.fromStdString n) with ⟨i, hfound, hi⟩ |
    ⟨-, i, j, item, hfound, hitem, htext⟩ | ⟨hrow, hkey, hfound⟩
  · refine .inl ⟨.inl (List.mem_of_getElem? hi), ?_, ?_⟩
    · simp only [instanceAdded, hfound]
    · simp only [signals, hfound]
  · have hmem := List.mem_of_getElem? hitem
    refine .inl ⟨.inr ⟨item, hmem, List.mem_of_getElem? htext⟩, ?_, ?_⟩
    · simp only [instanceAdded, hfound]
    · simp only [signals, hfound]
  · refine .inr ⟨hrow, hkey, ?_, ?_⟩
    · simp only [instanceAdded, hfound]
    · simp only [signals, hfound]

/-- A removal deletes a row of the name, or else a text of that name, which its signals say to be
row `-1`, or nothing. -/
theorem removed_cases (n : Str) :
    (∃ i : Nat, (rows rootItem)[i]? = some (qt.fromStdString n) ∧
        instanceRemoved qt rootItem n = rootItem.eraseIdx i ∧
        signals qt rootItem (.instanceRemoved n) = [.beginRemoveRows i i, .endRemoveRows]) ∨
      (qt.fromStdString n ∉ rows rootItem ∧ ∃ i j item, rootItem[i]? = some item ∧
        item.children[j]? = some (qt.fromStdString n) ∧
        instanceRemoved qt rootItem n = deleteChild rootItem (.keyValue i j) ∧
        signals qt rootItem (.instanceRemoved n) = [.beginRemoveRows (-1) (-1), .endRemoveRows]) ∨
      (qt.fromStdString n ∉ rows rootItem ∧
        (∀ item ∈ rootItem, qt.fromStdString n ∉ item.children) ∧
        instanceRemoved qt rootItem n = rootItem ∧
        signals qt rootItem (.instanceRemoved n) = []) := by
  rcases findChild_cases hq rootItem (qt.fromStdString n) with ⟨i, hfound, hi⟩ |
    ⟨hrow, i, j, item, hfound, hitem, htext⟩ | ⟨hrow, hkey, hfound⟩
  · refine .inl ⟨i, hi, ?_, ?_⟩
    · simp only [instanceRemoved, removeInstanceItem, hfound, deleteChild]
    · simp only [signals, hfound, Child.indexOf]
  · refine .inr (.inl ⟨hrow, i, j, item, hitem, htext, ?_, ?_⟩)
    · simp only [instanceRemoved, removeInstanceItem, hfound]
    · simp only [signals, hfound, Child.indexOf]
  · refine .inr (.inr ⟨hrow, hkey, ?_, ?_⟩)
    · simp only [instanceRemoved, hfound]
    · simp only [signals, hfound]

end Calls

/-- A service, and the items of a model on it. -/
structure ItemModel (σ : Type) where
  service : σ
  rootItem : List Item

section Backends

variable (qt : Lib) (self : Nat)

/-- A model on an avahi service; `newBrowser` and `errno` are for `beginBrowsing`. -/
def ofAvahi (s : Avahi.Service) (newBrowser : Bool) (errno : Int) : ItemModel Avahi.Service where
  rootItem := instanceItems qt s.toImpl
  service := (Avahi.Service.beginBrowsing { s with toImpl := s.toImpl.addListener self } .IF_ALL
    newBrowser errno).1

/-- `service.browse(timeout)`, with the polls of the library. -/
def browseAvahi (env : Avahi.Env) (m : ItemModel Avahi.Service) (browse : Int × List Avahi.Poll) :
    Option (ItemModel Avahi.Service) :=
  (m.service.browse env browse.1 browse.2).map fun (s, _) =>
    ⟨s, follow qt self m.service.toImpl m.rootItem (m.service.browseChanges browse.1 browse.2)⟩

/-- A model on a dnssd service; `error` and `ref` are for `beginBrowsing`. -/
def ofDnssd (s : Dnssd.Service) (error : Int) (ref : Bool) : ItemModel Dnssd.Service where
  rootItem := instanceItems qt s.toImpl
  service := (Dnssd.Service.beginBrowsing { s with toImpl := s.toImpl.addListener self } error
    ref).2

/-- `service.browse()`, with the passes of its loop. -/
def browseDnssd (m : ItemModel Dnssd.Service)
    (browse : Int × List (Dnssd.Iter Dnssd.BrowseReply)) : Option (ItemModel Dnssd.Service) :=
  (m.service.browse browse.1 browse.2).map fun (_, s) =>
    ⟨s, follow qt self m.service.toImpl m.rootItem (m.service.browseChanges browse.1 browse.2)⟩

end Backends

end Servus.Qt
