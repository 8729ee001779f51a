import Servus.Qt.Rows

/-!
# Views that keep what they have read

A view may read the items once and then follow the signals: rows that are inserted it reads where
they are said to be, rows that are removed it drops, and it looks at no other row again.
`views_agree_iff`: whatever the service tells and has at that time, such a view has the items of
the model after every call exactly if no call removes a name that reads like the text of a key and
value but like no row. An addition of such a name does no harm here: there is no row then, in the
model either.
-/

namespace Servus.Qt

open Cpp

/-- What a view has after a signal. The rows that are inserted it reads from `rootItem`, the items
behind the call. -/
def redraw (rootItem view : List Item) : Signal → List Item
  | .beginInsertRows first last =>
    view.take first.toNat ++ (rootItem.drop first.toNat).take (last + 1 - first).toNat ++
      view.drop first.toNat
  | .beginRemoveRows first last => view.take first.toNat ++ view.drop (last + 1).toNat
  | .endInsertRows | .endRemoveRows => view

/-- The items of the model, and those that a view has. -/
structure Cached where
  rootItem : List Item
  view : List Item
  deriving DecidableEq

/-- The service as it is at a call, and the call. -/
def showCall (qt : Lib) (m : Cached) (call : Impl × Event) : Option Cached :=
  let rootItem := listen qt call.1 m.rootItem call.2
  some ⟨rootItem, (signals qt m.rootItem call.2).foldl (redraw rootItem) m.view⟩

/-- A call that removes a name that reads just like the text of a key and value. -/
def RemovesText (qt : Lib) (rootItem : List Item) : Event → Prop
  | .instanceAdded _ => False
  | .instanceRemoved n => qt.fromStdString n ∉ rows rootItem ∧
      ∃ item ∈ rootItem, qt.fromStdString n ∈ item.children

instance (qt : Lib) (rootItem : List Item) : DecidablePred (RemovesText qt rootItem)
  | .instanceAdded _ => inferInstanceAs (Decidable False)
  | .instanceRemoved n => inferInstanceAs (Decidable (qt.fromStdString n ∉ rows rootItem ∧
      ∃ item ∈ rootItem, qt.fromStdString n ∈ item.children))

section Calls

variable {qt : Lib} (hq : qt.Searches) {rootItem : List Item}
include hq

/-- A new row is the last one, and the view reads it there. -/
theorem redraw_added (service : Impl) (n : Str) :
    (signals qt rootItem (.instanceAdded n)).foldl
      (redraw (instanceAdded qt service rootItem n)) rootItem =
        instanceAdded qt service rootItem n := by
  rcases added_cases hq rootItem service n with ⟨-, hsame, hsignals⟩ | ⟨-, -, hadded, hsignals⟩
  · rw [hsignals, hsame, List.foldl_nil]
  · rw [hsignals, hadded]
    simp only [List.foldl_cons, List.foldl_nil, redraw, Int.toNat_natCast, addInstanceItem]
    simp

/-- A row that goes is dropped. A text goes unseen: the row that its signal names is none. -/
theorem redraw_removed_iff (n : Str) :
    (signals qt rootItem (.instanceRemoved n)).foldl
      (redraw (instanceRemoved qt rootItem n)) rootItem = instanceRemoved qt rootItem n ↔
        ¬ RemovesText qt rootItem (.instanceRemoved n) := by
  rcases removed_cases hq rootItem n with ⟨i, hi, hremoved, hsignals⟩ |
    ⟨hrow, i, j, item, hitem, htext, hremoved, hsignals⟩ | ⟨-, hkey, hsame, hsignals⟩
  · refine iff_of_true ?_ fun h => h.1 (List.mem_of_getElem? hi)
    rw [hsignals, hremoved]
    simp only [List.foldl_cons, List.foldl_nil, redraw, List.eraseIdx_eq_take_drop_succ]
    rfl
  · have hmem := List.mem_of_getElem? hitem
    refine iff_of_false (fun h => ?_) fun h => h ⟨hrow, item, hmem, List.mem_of_getElem? htext⟩
    rw [hsignals, hremoved] at h
    have hsame : rootItem[i]? = (deleteChild rootItem (.keyValue i j))[i]? := congrArg (·[i]?) h
    simp only [deleteChild, List.getElem?_modify_eq, hitem, Option.map_eq_map, Option.map_some,
      Option.some.injEq] at hsame
    have hlen := congrArg (·.children.length) hsame
    obtain ⟨hj, -⟩ := List.getElem?_eq_some_iff.mp htext
    simp only [List.length_eraseIdx_of_lt hj] at hlen
    omega
  · refine iff_of_true ?_ fun h => ?_
    · rw [hsignals, hsame, List.foldl_nil]
    · obtain ⟨-, item, hitem, hmem⟩ := h
      exact hkey item hitem hmem

end Calls

/-- **Views that follow the signals.** From any items on, and for every sequence of calls with
whatever data at each: a view that reads the items once and then follows the signals has those of
the model after every call exactly if no call removes a name that `QString` reads like the text of a
key and value, but like no row. -/
theorem views_agree_iff {qt : Lib} (hq : qt.Searches) (rootItem : List Item)
    (calls : List (Impl × Event)) :
    (∀ calls' m, calls' <+: calls → run (showCall qt) ⟨rootItem, rootItem⟩ calls' = some m →
        m.view = m.rootItem) ↔
      EveryStep (showCall qt) (fun m call => ¬ RemovesText qt m.rootItem call.2)
        ⟨rootItem, rootItem⟩ calls := by
  have hstep : ∀ (m : Cached) call, m.view = m.rootItem → ∃ m', showCall qt m call = some m' ∧
      (m'.view = m'.rootItem ↔ ¬ RemovesText qt m.rootItem call.2) := by
    rintro ⟨items, view⟩ ⟨service, e⟩ hview
    obtain rfl : view = items := hview
    refine ⟨_, rfl, ?_⟩
    cases e with
    | instanceAdded n => exact iff_of_true (redraw_added hq service n) not_false
    | instanceRemoved n => exact redraw_removed_iff hq n
  exact (forall_prefix_iff hstep).trans (and_iff_right rfl)

/-- An instance with the name of a text is not shown, and the text goes with its row. -/
def addedAsText : List (Impl × Event) :=
  [(resolvedService, .instanceAdded "x".toList), (resolvedService, .instanceAdded "k = v".toList),
    (resolvedService, .instanceRemoved "x".toList)]

theorem views_agree_iff_added :
    ∃ m, run (showCall plainLib) ⟨[], []⟩ addedAsText = some m ∧ m.view = m.rootItem := by
  obtain ⟨m, hm⟩ : ∃ m, run (showCall plainLib) ⟨[], []⟩ addedAsText = some m :=
    Option.isSome_iff_exists.mp (by decide)
  have hagree := (views_agree_iff documented_plainLib.toSearches [] addedAsText).mpr (by decide)
  exact ⟨m, hm, hagree addedAsText m (List.prefix_refl _) hm⟩

/-- Without the text of the key `k`, which the view still shows. -/
example : run (showCall plainLib) ⟨[], []⟩ [(resolvedService, .instanceAdded "x".toList),
    (resolvedService, .instanceRemoved "k = v".toList)] =
      some ⟨[⟨"x", ["servus_host = h"]⟩], [⟨"x", ["k = v", "servus_host = h"]⟩]⟩ := by decide

end Servus.Qt
