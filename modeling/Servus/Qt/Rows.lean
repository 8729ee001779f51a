import Servus.Qt.ItemModel

/-!
# The rows of the item model

What a view sees of the model are its rows and the signals around their changes. Whatever the
service tells and has at that time, the rows are those of the names that were added and not removed
since (`expected`), and a signal names the position where a row is then inserted or removed
(`Announced`), as long as each call is about such a name, or about one that reads neither like a row
nor like the text of a key and value (`rows_follow_iff`): `findChild` would take these for the
instance. Names that are UTF-8 do not read alike, others may.
-/

namespace Servus.Qt

open Cpp

/-- The names that have rows after a call: those that were added and not removed since, in the order
of their addition. -/
def expected (names : List Str) : Event → List Str
  | .instanceAdded n => if n ∈ names then names else names ++ [n]
  | .instanceRemoved n => names.filter (· ≠ n)

theorem expected_removed_of_notMem {names : List Str} {n : Str} (h : n ∉ names) :
    expected names (.instanceRemoved n) = names :=
  List.filter_eq_self.mpr fun _ hm => decide_eq_true fun heq => h (heq ▸ hm)

/-- The signals of a call that leads from `before` to `after` name the row that is inserted or
removed; without signals no row changes. -/
def Announced (before after : List Item) : List Signal → Prop
  | [] => after = before
  | [.beginInsertRows first last, .endInsertRows] =>
    ∃ p : Nat, first = p ∧ last = p ∧ p ≤ before.length ∧ ∃ item, after = before.insertIdx p item
  | [.beginRemoveRows first last, .endRemoveRows] =>
    ∃ p : Nat, first = p ∧ last = p ∧ p < before.length ∧ after = before.eraseIdx p
  | _ => False

/-- The items, with the names that there should be rows of. -/
structure Watched where
  rootItem : List Item := []
  names : List Str := []

/-- The service as it is at a call, and the call. -/
def watch (qt : Lib) (m : Watched) (call : Impl × Event) : Option Watched :=
  some ⟨listen qt call.1 m.rootItem call.2, expected m.names call.2⟩

/-- After the call the rows are those of the expected names, without duplicates, and its signals
name the row that is inserted or removed. -/
structure RowsOk (qt : Lib) (m : Watched) (call : Impl × Event) : Prop where
  rows : rows (listen qt call.1 m.rootItem call.2) =
    (expected m.names call.2).map qt.fromStdString
  nodup : (Qt.rows (listen qt call.1 m.rootItem call.2)).Nodup
  announced : Announced m.rootItem (listen qt call.1 m.rootItem call.2)
    (signals qt m.rootItem call.2)

/-- A name without a row reads like no row and no text of a key and value. -/
def EventOk (qt : Lib) (m : Watched) (e : Event) : Prop :=
  e.instanceName ∈ m.names ∨
    (qt.fromStdString e.instanceName ∉ rows m.rootItem ∧
      ∀ item ∈ m.rootItem, qt.fromStdString e.instanceName ∉ item.children)

instance (qt : Lib) (m : Watched) (e : Event) : Decidable (EventOk qt m e) :=
  inferInstanceAs (Decidable (_ ∈ m.names ∨ (_ ∉ rows m.rootItem ∧ ∀ item ∈ m.rootItem, _)))

/-- Up to a call the rows are those of the expected names. -/
structure InStep (qt : Lib) (m : Watched) : Prop where
  rows : rows m.rootItem = m.names.map qt.fromStdString
  nodup : (Qt.rows m.rootItem).Nodup

namespace InStep

variable {qt : Lib} {m : Watched} (hm : InStep qt m)
include hm

theorem mem_rows {n : Str} (hn : n ∈ m.names) : qt.fromStdString n ∈ Qt.rows m.rootItem := by
  rw [hm.rows]
  exact List.mem_map_of_mem hn

theorem fromStdString_inj {n n' : Str} (hn : n ∈ m.names) (hn' : n' ∈ m.names)
    (heq : qt.fromStdString n = qt.fromStdString n') : n = n' :=
  List.inj_on_of_nodup_map (hm.rows ▸ hm.nodup) hn hn' heq

/-- The rows without that of a name are those of the other names. -/
theorem rows_filter {n : Str} (hn : n ∈ m.names) :
    (Qt.rows m.rootItem).erase (qt.fromStdString n) =
      (m.names.filter (· ≠ n)).map qt.fromStdString := by
  rw [hm.nodup.erase_eq_filter, hm.rows, List.filter_map]
  refine congrArg _ (List.filter_congr fun n' hn' => ?_)
  rw [Bool.eq_iff_iff]
  simp only [Function.comp_apply, bne_iff_ne, ne_eq, decide_eq_true_eq]
  exact not_congr ⟨hm.fromStdString_inj hn' hn, congrArg _⟩

end InStep

/-! ## One call -/

section Calls

variable {qt : Lib} (hq : qt.Searches) {m : Watched} (hm : InStep qt m) (service : Impl)
include hq hm

theorem rowsOk_added_iff (n : Str) :
    RowsOk qt m (service, .instanceAdded n) ↔ EventOk qt m (.instanceAdded n) := by
  rcases added_cases hq m.rootItem service n with ⟨hfound, hsame, hsignals⟩ |
    ⟨hrow, hkey, hadded, hsignals⟩
  · by_cases hn : n ∈ m.names
    · refine iff_of_true ⟨?_, ?_, ?_⟩ (.inl hn)
      · rw [listen, hsame, expected, if_pos hn, hm.rows]
      · rw [listen, hsame]
        exact hm.nodup
      · rw [listen, hsame, hsignals]
        rfl
    · -- what was found is taken for the instance, which gets no row
      refine iff_of_false (fun h => ?_) fun h => ?_
      · have hrows := h.rows
        rw [listen, hsame, expected, if_neg hn, hm.rows, List.map_append] at hrows
        simp at hrows
      · obtain ⟨hrow, hkey⟩ := h.resolve_left hn
        rcases hfound with hfound | ⟨item, hitem, hmem⟩
        · exact hrow hfound
        · exact hkey item hitem hmem
  · have hn : n ∉ m.names := fun hn => hrow (hm.mem_rows hn)
    have hrows : rows (addInstanceItem qt service m.rootItem (qt.fromStdString n)) =
        rows m.rootItem ++ [qt.fromStdString n] := List.map_append
    refine iff_of_true ⟨?_, ?_, ?_⟩ (.inr ⟨hrow, hkey⟩)
    · rw [listen, hadded, hrows, expected, if_neg hn, List.map_append, hm.rows, List.map_singleton]
    · rw [listen, hadded, hrows]
      exact hm.nodup.append (List.nodup_singleton _) (by simpa using hrow)
    · rw [listen, hadded, hsignals]
      exact ⟨m.rootItem.length, rfl, rfl, le_rfl, _, List.insertIdx_length_self.symm⟩

theorem rowsOk_removed_iff (n : Str) :
    RowsOk qt m (service, .instanceRemoved n) ↔ EventOk qt m (.instanceRemoved n) := by
  rcases removed_cases hq m.rootItem n with ⟨i, hi, hremoved, hsignals⟩ |
    ⟨hrow, i, j, item, hitem, htext, -, hsignals⟩ | ⟨hrow, hkey, hsame, hsignals⟩
  · have hlt : i < m.rootItem.length := by
      obtain ⟨hlt, -⟩ := List.getElem?_eq_some_iff.mp hi
      simpa [rows] using hlt
    by_cases hn : n ∈ m.names
    · have hrows := rows_eraseIdx hm.nodup hi
      refine iff_of_true ⟨?_, ?_, ?_⟩ (.inl hn)
      · rw [listen, hremoved, hrows, expected, hm.rows_filter hn]
      · rw [listen, hremoved, hrows]
        exact hm.nodup.erase _
      · rw [listen, hremoved, hsignals]
        exact ⟨i, rfl, rfl, hlt, rfl⟩
    · -- the row is that of a name that reads like it
      refine iff_of_false (fun h => ?_) fun h =>
        (h.resolve_left hn).1 (List.mem_of_getElem? hi)
      have hlen := congrArg List.length h.rows
      rw [listen, hremoved, expected_removed_of_notMem hn, ← hm.rows, rows, rows, List.length_map,
        List.length_map, List.length_eraseIdx_of_lt hlt] at hlen
      omega
  · -- the text is taken for the instance, and its item is no row
    have hn : n ∉ m.names := fun hn => hrow (hm.mem_rows hn)
    refine iff_of_false (fun h => ?_) fun h => (h.resolve_left hn).2 item
      (List.mem_of_getElem? hitem) (List.mem_of_getElem? htext)
    have hannounced := h.announced
    rw [hsignals] at hannounced
    obtain ⟨p, hp, -⟩ := hannounced
    omega
  · have hn : n ∉ m.names := fun hn => hrow (hm.mem_rows hn)
    refine iff_of_true ⟨?_, ?_, ?_⟩ (.inr ⟨hrow, hkey⟩)
    · rw [listen, hsame, expected_removed_of_notMem hn, hm.rows]
    · rw [listen, hsame]
      exact hm.nodup
    · rw [listen, hsame, hsignals]
      rfl

theorem rowsOk_iff (call : Impl × Event) : RowsOk qt m call ↔ EventOk qt m call.2 := by
  obtain ⟨service, e⟩ := call
  cases e with
  | instanceAdded n => exact rowsOk_added_iff hq hm service n
  | instanceRemoved n => exact rowsOk_removed_iff hq hm service n

end Calls

/-- **When the rows follow the calls.** For every sequence of calls on a model without rows, with
whatever names and whatever data at each, and whatever `fromStdString` makes of them: after each
call the rows are those of the names that were added and not removed since, without duplicates and
in the order of addition, and its signals name the row that changes, exactly when each call is about
such a name, or about one that reads neither like a row nor like the text of a key and value. -/
theorem rows_follow_iff {qt : Lib} (hq : qt.Searches) (calls : List (Impl × Event)) :
    EveryStep (watch qt) (RowsOk qt) {} calls ↔
      EveryStep (watch qt) (fun m call => EventOk qt m call.2) {} calls := by
  refine everyStep_congr (I := InStep qt) (fun m call hm => rowsOk_iff hq hm call) ?_
    ⟨rfl, List.nodup_nil⟩
  rintro m call _ hm hok ⟨⟩
  exact ⟨hok.rows, hok.nodup⟩

/-- A service that has resolved `x`, with `v` for `k`. -/
def resolvedService : Impl :=
  Impl.change { name := "_t._tcp".toList }
    (.resolved "x".toList "h".toList [("k".toList, "v".toList)])

/-- Added twice, and removed twice; two names that are not UTF-8, one behind the other. -/
theorem rows_follow_added : EveryStep (watch plainLib) (RowsOk plainLib) {}
    [(resolvedService, .instanceAdded "x".toList), (resolvedService, .instanceAdded "y".toList),
      (resolvedService, .instanceAdded "x".toList), (resolvedService, .instanceRemoved "x".toList),
      (resolvedService, .instanceRemoved "x".toList),
      (resolvedService, .instanceAdded "\xff".toList),
      (resolvedService, .instanceRemoved "\xff".toList),
      (resolvedService, .instanceAdded "\xfe".toList)] :=
  (rows_follow_iff documented_plainLib.toSearches _).mpr (by decide)

/-- An instance with the name `k = v` gets no row, and when one is removed, row `-1` is said to go
and the text goes. Of two names that read alike one gets no row. -/
theorem not_rows_follow :
    ¬ EveryStep (watch plainLib) (RowsOk plainLib) {}
        [(resolvedService, .instanceAdded "x".toList),
          (resolvedService, .instanceAdded "k = v".toList)] ∧
      ¬ EveryStep (watch plainLib) (RowsOk plainLib) {}
        [(resolvedService, .instanceAdded "x".toList),
          (resolvedService, .instanceRemoved "k = v".toList)] ∧
      ¬ EveryStep (watch plainLib) (RowsOk plainLib) {}
        [(resolvedService, .instanceAdded "\xff".toList),
          (resolvedService, .instanceAdded "\xfe".toList)] := by
  refine ⟨fun h => ?_, fun h => ?_, fun h => ?_⟩
  · have hrows := (h.2 _ rfl).1.rows
    revert hrows
    decide
  · obtain ⟨p, hp, -⟩ := (h.2 _ rfl).1.announced
    have hsignal : (-1 : Int) = p := hp
    omega
  · have hrows := (h.2 _ rfl).1.rows
    revert hrows
    decide

end Servus.Qt
