import Servus.Qt.ItemModel

/-!
# Navigation in the item model (`servus/qt/itemModel.cpp`)

`index` goes down from an index by a position, `parent` goes up by the pointers of the objects and
finds the row with `indexOf`. `ObjectTree` is a tree of objects as `QObject` keeps it, with the two
levels of the model, and `objectTree` that of its items.

`navigation`: the two are inverse to each other, in every tree, and a walk with `rowCount` and
`index` visits every item once.
-/

namespace Servus.Qt

/-- A tree of objects of two levels. -/
structure ObjectTree (Ptr : Type) where
  rootItem : Ptr
  /-- `QObject::parent`. -/
  parent : Ptr → Option Ptr
  /-- `QObject::children`. -/
  children : Ptr → List Ptr
  parent_rootItem : parent rootItem = none
  mem_children : ∀ p c, c ∈ children p ↔ parent c = some p
  nodup_children : ∀ p, (children p).Nodup
  two_levels : ∀ i ∈ children rootItem, ∀ k ∈ children i, children k = []

/-- `QModelIndex`; `hasModel` is whether it points to the model. -/
structure ModelIndex (Ptr : Type) where
  row : Int := -1
  column : Int := -1
  internalPointer : Option Ptr := none
  hasModel : Bool := false
  deriving DecidableEq

/-- `QModelIndex::isValid`. -/
def ModelIndex.isValid {Ptr : Type} (idx : ModelIndex Ptr) : Bool :=
  decide (0 ≤ idx.row) && decide (0 ≤ idx.column) && idx.hasModel

/-- `QAbstractItemModel::createIndex`. -/
def createIndex {Ptr : Type} (row column : Int) (item : Ptr) : ModelIndex Ptr :=
  ⟨row, column, some item, true⟩

namespace ObjectTree

variable {Ptr : Type} (t : ObjectTree Ptr)

/-- The item that `index` and `rowCount` take for a parent index. -/
def parentItem (parent : ModelIndex Ptr) : Option Ptr :=
  if parent.isValid then parent.internalPointer else some t.rootItem

/-- The number of children; a valid index always has a pointer. -/
def rowCount (parent : ModelIndex Ptr) : Nat :=
  match t.parentItem parent with
  | some item => (t.children item).length
  | none => 0

def columnCount (_ : ObjectTree Ptr) (_ : ModelIndex Ptr) : Nat := 1

/-- `QAbstractItemModel::hasIndex`. -/
def hasIndex (row column : Int) (parent : ModelIndex Ptr) : Bool :=
  if row < 0 ∨ column < 0 then false
  else decide (row < t.rowCount parent) && decide (column < t.columnCount parent)

def index (row column : Int) (parent : ModelIndex Ptr) : ModelIndex Ptr :=
  if !t.hasIndex row column parent then {}
  else
    match (t.parentItem parent).bind fun item => (t.children item)[row.toNat]? with
    | some childItem => createIndex row column childItem
    | none => {}

/-- `QList::indexOf`. -/
def indexOf [DecidableEq Ptr] (items : List Ptr) (item : Ptr) : Int :=
  match items.idxOf? item with
  | some row => row
  | none => -1

/-- `ItemModel::parent`; an item that an index points to has a parent. -/
def parentIndex [DecidableEq Ptr] (idx : ModelIndex Ptr) : ModelIndex Ptr :=
  if !idx.isValid then {}
  else
    match idx.internalPointer.bind t.parent with
    | none => {}
    | some parentItem =>
      if parentItem = t.rootItem then {}
      else
        match t.parent parentItem with
        | none => createIndex 0 0 parentItem
        | some grandparent => createIndex (indexOf (t.children grandparent) parentItem) 0 parentItem

/-- The parent indexes that a caller can have: `QModelIndex()`, and what `index` returns. -/
inductive Obtained : ModelIndex Ptr → Prop
  | root : Obtained {}
  | index (row column : Int) {parent : ModelIndex Ptr} (h : Obtained parent) :
      Obtained (t.index row column parent)

/-- A walk over `levels` levels below an index, each item before the items below it. -/
def walk : Nat → ModelIndex Ptr → List (ModelIndex Ptr)
  | 0, _ => []
  | levels + 1, parent => (List.range (t.rowCount parent)).flatMap fun row : Nat =>
      t.index row 0 parent :: walk levels (t.index row 0 parent)

/-! ## What `index` returns -/

@[simp] theorem parentItem_invalid : t.parentItem {} = some t.rootItem := rfl

@[simp] theorem parentItem_createIndex (row : Nat) (item : Ptr) :
    t.parentItem (createIndex row 0 item) = some item := by
  simp [parentItem, ModelIndex.isValid, createIndex]

/-- `index` gives the child at its row, in column 0, or no index. -/
theorem index_cases {parent : ModelIndex Ptr} {item : Ptr} (h : t.parentItem parent = some item)
    (row column : Int) :
    (t.index row column parent = {} ∧
        ¬ (column = 0 ∧ 0 ≤ row ∧ row < (t.children item).length)) ∨
      ∃ (k : Nat) (child : Ptr), row = k ∧ column = 0 ∧ (t.children item)[k]? = some child ∧
        t.index row column parent = createIndex k 0 child := by
  have hcount : t.rowCount parent = (t.children item).length := by rw [rowCount, h]
  unfold index
  by_cases hrow : column = 0 ∧ 0 ≤ row ∧ row < (t.children item).length
  · obtain ⟨rfl, h0, hlt⟩ := hrow
    obtain ⟨k, rfl⟩ := Int.eq_ofNat_of_zero_le h0
    have hk : k < (t.children item).length := by omega
    have hget := List.getElem?_eq_getElem hk
    refine .inr ⟨k, (t.children item)[k], rfl, rfl, hget, ?_⟩
    have hhas : t.hasIndex k 0 parent = true := by
      simp [hasIndex, hcount, columnCount, hk]
    rw [hhas, h]
    simp [hget]
  · refine .inl ⟨?_, hrow⟩
    have hhas : t.hasIndex row column parent = false := by
      unfold hasIndex
      split
      · rfl
      · rw [hcount, columnCount]
        simp only [Bool.and_eq_false_iff, decide_eq_false_iff_not]
        omega
    rw [hhas]
    rfl

theorem isValid_createIndex (k : Nat) (item : Ptr) :
    (createIndex k 0 item : ModelIndex Ptr).isValid = true := by
  simp [ModelIndex.isValid, createIndex]

/-- A parent index is invalid, or points to an item of the first or the second level at its
place. -/
theorem obtained_cases {p : ModelIndex Ptr} (h : t.Obtained p) :
    p = {} ∨ ∃ (k : Nat) (above item : Ptr), p = createIndex k 0 item ∧
      (t.children above)[k]? = some item ∧
        (above = t.rootItem ∨ above ∈ t.children t.rootItem) := by
  induction h with
  | root => exact .inl rfl
  | @index row column parent _ ih =>
    rcases ih with rfl | ⟨k, above, item, rfl, hk, habove⟩
    · rcases t.index_cases t.parentItem_invalid row column with
        ⟨hidx, -⟩ | ⟨k, child, -, -, hk, hidx⟩
      · exact .inl hidx
      · exact .inr ⟨k, t.rootItem, child, hidx, hk, .inl rfl⟩
    · rcases t.index_cases (t.parentItem_createIndex k item) row column with
        ⟨hidx, -⟩ | ⟨l, child, -, -, hl, hidx⟩
      · exact .inl hidx
      · have hmem := List.mem_of_getElem? hk
        rcases habove with rfl | habove
        · exact .inr ⟨l, item, child, hidx, hl, .inr hmem⟩
        · rw [t.two_levels above habove item hmem] at hl
          cases hl

/-- A child is found at its row. -/
theorem indexOf_eq [DecidableEq Ptr] {items : List Ptr} (hnodup : items.Nodup) {k : Nat}
    {item : Ptr} (h : items[k]? = some item) : indexOf items item = k := by
  obtain ⟨hk, rfl⟩ := List.getElem?_eq_some_iff.mp h
  have hidx : items.idxOf? items[k] = some k := by
    refine List.idxOf?_eq_some_iff.mpr ⟨hk, rfl, fun j hj heq => ?_⟩
    have hjk := (List.Nodup.getElem_inj_iff hnodup).mp heq
    omega
  rw [indexOf, hidx]

/-! ## Down and up again -/

/-- An index is valid exactly when its row exists. -/
theorem isValid_index_iff {p : ModelIndex Ptr} (h : t.Obtained p) (row : Int) :
    (t.index row 0 p).isValid = true ↔ 0 ≤ row ∧ row < t.rowCount p := by
  obtain ⟨item, hitem⟩ : ∃ item, t.parentItem p = some item := by
    rcases t.obtained_cases h with rfl | ⟨k, above, item, rfl, -, -⟩
    · exact ⟨_, t.parentItem_invalid⟩
    · exact ⟨item, t.parentItem_createIndex k item⟩
  have hcount : t.rowCount p = (t.children item).length := by rw [rowCount, hitem]
  rw [hcount]
  rcases t.index_cases hitem row 0 with ⟨hidx, hno⟩ | ⟨k, child, rfl, -, hk, hidx⟩
  · rw [hidx]
    simp only [ModelIndex.isValid, Bool.and_false, Bool.false_eq_true, false_iff]
    exact fun hrow => hno ⟨rfl, hrow⟩
  · rw [hidx]
    obtain ⟨hlt, -⟩ := List.getElem?_eq_some_iff.mp hk
    exact ⟨fun _ => by omega, fun _ => isValid_createIndex k child⟩

/-- A valid index has the row that was asked for. -/
theorem row_index {p : ModelIndex Ptr} {row : Int}
    (h : (t.index row 0 p).isValid = true) : (t.index row 0 p).row = row := by
  revert h
  unfold index
  split
  · intro h
    cases h
  · split
    · intro _
      rfl
    · intro h
      cases h

/-- The parent of an item is the index that leads to it. -/
theorem parentIndex_index [DecidableEq Ptr] {p : ModelIndex Ptr} (h : t.Obtained p) {row : Int}
    (hrow : (t.index row 0 p).isValid = true) : t.parentIndex (t.index row 0 p) = p := by
  rcases t.obtained_cases h with rfl | ⟨k, above, item, rfl, hk, habove⟩
  · rcases t.index_cases t.parentItem_invalid row 0 with ⟨hidx, -⟩ | ⟨l, child, -, -, hl, hidx⟩
    · rw [hidx] at hrow
      cases hrow
    · -- an item of the first level has the root item for a parent
      have hparent := (t.mem_children _ _).mp (List.mem_of_getElem? hl)
      rw [hidx, parentIndex, isValid_createIndex]
      simp [createIndex, hparent]
  · rcases t.index_cases (t.parentItem_createIndex k item) row 0 with
      ⟨hidx, -⟩ | ⟨l, child, -, -, hl, hidx⟩
    · rw [hidx] at hrow
      cases hrow
    · have hparent := (t.mem_children _ _).mp (List.mem_of_getElem? hl)
      have hitem := (t.mem_children _ _).mp (List.mem_of_getElem? hk)
      have hne : item ≠ t.rootItem := by
        rintro rfl
        rw [t.parent_rootItem] at hitem
        cases hitem
      have hk' := indexOf_eq (t.nodup_children above) hk
      rw [hidx, parentIndex, isValid_createIndex]
      simp [createIndex, hparent, hne, hitem, hk']

/-- Two levels down there is nothing. -/
theorem rowCount_index_index {row row' : Int} (hrow : (t.index row 0 {}).isValid = true)
    (hrow' : (t.index row' 0 (t.index row 0 {})).isValid = true) :
    t.rowCount (t.index row' 0 (t.index row 0 {})) = 0 := by
  rcases t.index_cases t.parentItem_invalid row 0 with ⟨hidx, -⟩ | ⟨k, item, -, -, hk, hidx⟩
  · rw [hidx] at hrow
    cases hrow
  · rw [hidx] at hrow' ⊢
    rcases t.index_cases (t.parentItem_createIndex k item) row' 0 with
      ⟨hidx', -⟩ | ⟨l, child, -, -, hl, hidx'⟩
    · rw [hidx'] at hrow'
      cases hrow'
    · rw [hidx', rowCount, parentItem_createIndex]
      have hnone := t.two_levels item (List.mem_of_getElem? hk) child (List.mem_of_getElem? hl)
      simp [hnone]

/-! ## The walk -/

/-- The items below the root item, each before the items below it. -/
def items : List Ptr := (t.children t.rootItem).flatMap fun i => i :: t.children i

theorem mem_items {item : Ptr} :
    item ∈ t.items ↔ item ∈ t.children t.rootItem ∨
      ∃ i ∈ t.children t.rootItem, item ∈ t.children i := by
  simp only [items, List.mem_flatMap, List.mem_cons]
  constructor
  · rintro ⟨i, hi, rfl | hmem⟩
    · exact .inl hi
    · exact .inr ⟨i, hi, hmem⟩
  · rintro (hmem | ⟨i, hi, hmem⟩)
    · exact ⟨item, hmem, .inl rfl⟩
    · exact ⟨i, hi, .inr hmem⟩

/-- No object is its own child or below two others: each has one parent. -/
theorem nodup_items : t.items.Nodup := by
  have hparent : ∀ {c p q}, c ∈ t.children p → c ∈ t.children q → p = q := by
    intro c p q hp hq
    have hsome := ((t.mem_children p c).mp hp).symm.trans ((t.mem_children q c).mp hq)
    exact Option.some.inj hsome
  have hroot : ∀ p, t.rootItem ∉ t.children p := by
    intro p hmem
    have hsome := (t.mem_children p _).mp hmem
    rw [t.parent_rootItem] at hsome
    cases hsome
  refine List.nodup_flatMap.mpr ⟨fun i hi => ?_, ?_⟩
  · refine List.nodup_cons.mpr ⟨fun hself => ?_, t.nodup_children i⟩
    obtain rfl := hparent hi hself
    exact hroot _ hself
  · refine (t.nodup_children t.rootItem).imp_of_mem fun {i j} hi hj hne => ?_
    intro c hci hcj
    rcases List.mem_cons.mp hci with rfl | hci
    · rcases List.mem_cons.mp hcj with rfl | hcj
      · exact hne rfl
      · obtain rfl := hparent hi hcj
        exact hroot _ hj
    · rcases List.mem_cons.mp hcj with rfl | hcj
      · obtain rfl := hparent hj hci
        exact hroot _ hi
      · exact hne (hparent hci hcj)

/-- A walk visits the children in order. -/
theorem walk_succ {levels : Nat} {p : ModelIndex Ptr} {item : Ptr}
    (h : t.parentItem p = some item) :
    t.walk (levels + 1) p = (t.children item).zipIdx.flatMap fun x =>
      createIndex x.2 0 x.1 :: t.walk levels (createIndex x.2 0 x.1) := by
  have hcount : t.rowCount p = (t.children item).length := by rw [rowCount, h]
  have hrange : List.range (t.children item).length = (t.children item).zipIdx.map Prod.snd := by
    rw [List.zipIdx_map_snd, List.range_eq_range']
  rw [walk, hcount, hrange, List.flatMap_map]
  refine List.flatMap_congr fun x hx => ?_
  have hget : (t.children item)[x.2]? = some x.1 := List.mem_zipIdx_iff_getElem?.mp hx
  have hidx : t.index x.2 0 p = createIndex x.2 0 x.1 := by
    obtain ⟨hlt, -⟩ := List.getElem?_eq_some_iff.mp hget
    rcases t.index_cases h x.2 0 with ⟨-, hno⟩ | ⟨k, child, hk, -, hchild, hidx⟩
    · exact absurd ⟨rfl, by omega, by omega⟩ hno
    · obtain rfl : x.2 = k := by omega
      rw [hidx, Option.some.inj (hchild.symm.trans hget)]
  rw [hidx]

/-- Below an item without children there is nothing to visit. -/
theorem walk_of_children_nil {levels : Nat} {p : ModelIndex Ptr} {item : Ptr}
    (h : t.parentItem p = some item) (hnone : t.children item = []) : t.walk levels p = [] := by
  cases levels with
  | zero => rfl
  | succ levels => rw [t.walk_succ h, hnone]; rfl

theorem walk_items (levels : Nat) :
    (t.walk (levels + 2) {}).map (·.internalPointer) = t.items.map some := by
  have hfst : ∀ l : List Ptr, l.zipIdx.map Prod.fst = l := List.zipIdx_map_fst 0
  rw [t.walk_succ t.parentItem_invalid, items, List.map_flatMap, List.map_flatMap]
  conv_rhs => rw [← hfst (t.children t.rootItem), List.flatMap_map]
  refine List.flatMap_congr fun x hx => ?_
  have hitem : x.1 ∈ t.children t.rootItem := List.fst_mem_of_mem_zipIdx hx
  rw [List.map_cons, List.map_cons, t.walk_succ (t.parentItem_createIndex x.2 x.1),
    List.map_flatMap]
  congr 1
  conv_rhs => rw [← hfst (t.children x.1), List.map_map]
  rw [List.map_eq_flatMap]
  refine List.flatMap_congr fun y hy => ?_
  have hnone := t.two_levels x.1 hitem y.1 (List.fst_mem_of_mem_zipIdx hy)
  rw [t.walk_of_children_nil (t.parentItem_createIndex y.2 y.1) hnone]
  rfl

/-- **Navigation is a consistent tree.** In every tree of two levels and for every parent index that
a caller can have: `index` is valid exactly for the rows that `rowCount` counts, `parent` undoes it,
different places have different indexes, nothing is two levels down, and a walk over all levels
visits every item once. -/
theorem navigation [DecidableEq Ptr] :
    (∀ p, t.Obtained p → ∀ row : Int,
      ((t.index row 0 p).isValid = true ↔ 0 ≤ row ∧ row < t.rowCount p) ∧
        ((t.index row 0 p).isValid = true → t.parentIndex (t.index row 0 p) = p)) ∧
    (∀ p p', t.Obtained p → t.Obtained p' → ∀ row row' : Int,
      (t.index row 0 p).isValid = true → (t.index row' 0 p').isValid = true →
        t.index row 0 p = t.index row' 0 p' → p = p' ∧ row = row') ∧
    (∀ row row' : Int, (t.index row 0 {}).isValid = true →
      (t.index row' 0 (t.index row 0 {})).isValid = true →
        t.rowCount (t.index row' 0 (t.index row 0 {})) = 0) ∧
    ∀ levels, 2 ≤ levels → ((t.walk levels {}).map (·.internalPointer)).Nodup ∧
      ∀ item, some item ∈ (t.walk levels {}).map (·.internalPointer) ↔
        item ∈ t.children t.rootItem ∨ ∃ i ∈ t.children t.rootItem, item ∈ t.children i := by
  refine ⟨fun p h row => ⟨t.isValid_index_iff h row, t.parentIndex_index h⟩, ?_, ?_, ?_⟩
  · intro p p' h h' row row' hrow hrow' heq
    have hp : p = p' := by
      rw [← t.parentIndex_index h hrow, heq, t.parentIndex_index h' hrow']
    exact ⟨hp, by rw [← t.row_index hrow, heq, t.row_index hrow']⟩
  · intro row row' hrow hrow'
    exact t.rowCount_index_index hrow hrow'
  · intro levels hlevels
    obtain ⟨levels, rfl⟩ := Nat.exists_eq_add_of_le' hlevels
    rw [t.walk_items]
    refine ⟨t.nodup_items.map (Option.some_injective Ptr), fun item => ?_⟩
    rw [← t.mem_items]
    simp

end ObjectTree

/-! ## The tree of the model -/

/-- The number of texts below a row. -/
def textCount (rootItem : List Item) (i : Nat) : Nat :=
  (rootItem[i]?.map fun item : Item => item.children.length).getD 0

/-- The children of an object in the tree of the items; `none` is the root item. -/
def objectChildren (rootItem : List Item) : Option Child → List (Option Child)
  | none => (List.range rootItem.length).map fun i => some (.row i)
  | some (.row i) => (List.range (textCount rootItem i)).map fun j => some (.keyValue i j)
  | some (.keyValue _ _) => []

/-- The parent of an object in the tree of the items. -/
def objectParent (rootItem : List Item) : Option Child → Option (Option Child)
  | none => none
  | some (.row i) => if i < rootItem.length then some none else none
  | some (.keyValue i j) => if j < textCount rootItem i then some (some (.row i)) else none

/-- The items of the model are a tree of objects. -/
def objectTree (rootItem : List Item) : ObjectTree (Option Child) where
  rootItem := none
  parent := objectParent rootItem
  children := objectChildren rootItem
  parent_rootItem := rfl
  mem_children p c := by
    rcases p with _ | i | ⟨i, j⟩ <;> rcases c with _ | k | ⟨k, l⟩
    case some.row.some.keyValue =>
      simp only [objectChildren, objectParent, List.mem_map, List.mem_range]
      constructor
      · rintro ⟨a, ha, heq⟩
        obtain ⟨rfl, rfl⟩ : i = k ∧ a = l := by simpa using heq
        exact if_pos ha
      · intro h
        split at h
        · rename_i hl
          obtain rfl : k = i := by simpa using h
          exact ⟨l, hl, rfl⟩
        · cases h
    all_goals simp [objectChildren, objectParent]
  nodup_children p := by
    rcases p with _ | i | ⟨i, j⟩
    · exact List.nodup_range.map fun a b h => by simpa using h
    · exact List.nodup_range.map fun a b h => by simpa using h
    · exact List.nodup_nil
  two_levels i hi k hk := by
    obtain ⟨a, -, rfl⟩ := List.mem_map.mp hi
    obtain ⟨b, -, rfl⟩ := List.mem_map.mp hk
    rfl

/-- `rowCount` counts the items of the model, and below each its texts. -/
theorem rowCount_objectTree (rootItem : List Item) :
    (objectTree rootItem).rowCount {} = rootItem.length ∧
      ∀ (i : Nat) (item : Item), rootItem[i]? = some item →
        (objectTree rootItem).rowCount ((objectTree rootItem).index i 0 {}) =
          item.children.length := by
  have hroot : ((objectTree rootItem).children none).length = rootItem.length :=
    (List.length_map _).trans List.length_range
  refine ⟨hroot, fun i item hitem => ?_⟩
  obtain ⟨hlt, -⟩ := List.getElem?_eq_some_iff.mp hitem
  rcases (objectTree rootItem).index_cases (objectTree rootItem).parentItem_invalid i 0 with
    ⟨-, hno⟩ | ⟨k, child, hk, -, hchild, hidx⟩
  · refine absurd ⟨rfl, by omega, ?_⟩ hno
    rw [show (objectTree rootItem).rootItem = none from rfl, hroot]
    omega
  · obtain rfl : i = k := by omega
    obtain rfl : child = some (.row i) := by
      have hrow : (objectTree rootItem).children none =
          (List.range rootItem.length).map fun i => some (.row i) := rfl
      rw [show (objectTree rootItem).rootItem = none from rfl, hrow] at hchild
      simpa [hlt, eq_comm] using hchild
    rw [hidx, ObjectTree.rowCount, ObjectTree.parentItem_createIndex]
    show ((List.range (textCount rootItem i)).map _).length = _
    rw [List.length_map, List.length_range, textCount, hitem]
    rfl

end Servus.Qt
