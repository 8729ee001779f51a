import Servus.Cpp.Container
import Servus.Uri.Grammar

/-!
# The query string and the query map

A URI keeps its query twice: as text, and as the map that `_parseQueryMap` made of it.

* `findQuery_iff_last`: after the constructor or `setQuery`, a key is found with the value of the
  last piece of the query that has it.
* `query_in_sync`: the constructor and `setQuery` leave text and map in step, the other setters
  keep them so, and `addQuery`, which goes from the map to the text, does exactly when the
  new pair can be read back. What can be read back is what the parser can give (`Readable`), and
  splitting undoes joining for maps of such pairs (`queryMapOf_joinQuery`).
-/

namespace Servus.Uri

open Cpp

/-! ## The last piece wins -/

theorem foldl_bindPiece_eq (pieces : List Str) (queryMap : KVMap) :
    pieces.foldl bindPiece queryMap = assignAll queryMap
      ((pieces.filter (pieceKey · ≠ [])).map fun p => (pieceKey p, pieceValue p)) := by
  induction pieces generalizing queryMap with
  | nil => rfl
  | cons p pieces ih =>
    rw [List.foldl_cons, ih]
    by_cases hk : pieceKey p = []
    · simp [bindPiece, hk]
    · simp [bindPiece, hk, assignAll]

/-- Among the pieces of `query` with the key `key`, the last has the value `value`. -/
def LastPiece (query key value : Str) : Prop :=
  ∃ before piece after, query.splitOn '&' = before ++ piece :: after ∧ pieceKey piece = key ∧
    pieceValue piece = value ∧ ∀ p ∈ after, pieceKey p ≠ key

theorem getElem?_queryMapOf {query key value : Str} :
    (queryMapOf query)[key]? = some value ↔ key ≠ [] ∧ LastPiece query key value := by
  rw [queryMapOf, foldl_bindPiece_eq, getElem?_assignAll, Std.ExtTreeMap.getElem?_empty,
    Option.or_none, ← List.map_reverse, List.find?_map, ← List.filter_reverse,
    List.find?_filter]
  simp only [Option.map_map, Option.map_eq_some_iff, List.find?_eq_some_iff_append]
  constructor
  · rintro ⟨piece, ⟨hkey, after, before, hsplit, hafter⟩, rfl⟩
    obtain ⟨hne, rfl⟩ : pieceKey piece ≠ [] ∧ pieceKey piece = key := by simpa using hkey
    refine ⟨hne, before.reverse, piece, after.reverse, ?_, rfl, rfl, fun p hp => ?_⟩
    · rw [← List.reverse_inj, hsplit]
      simp
    · intro hp'
      have := hafter p (List.mem_reverse.mp hp)
      simp [hp', hne] at this
  · rintro ⟨hne, before, piece, after, hsplit, rfl, rfl, hafter⟩
    refine ⟨piece, ⟨by simpa using hne, after.reverse, before.reverse, ?_, fun p hp => ?_⟩, rfl⟩
    · rw [hsplit]
      simp
    · simpa using .inr (hafter p (List.mem_reverse.mp hp))

/-! ## In sync -/

/-- The query map is what `_parseQueryMap` makes of the query. -/
def InSync (u : URIData) : Prop := parseQueryMap u = .ok u

theorem inSync_iff {u : URIData} : InSync u ↔ u.queryMap = queryMapOf u.query := by
  rw [InSync, parseQueryMap_eq, Except.ok.injEq]
  constructor
  · intro h
    rw [← h]
  · intro h
    rw [← h]

/-- A URI that the constructor returns is in sync. -/
theorem inSync_URI {s : Str} {u : URIData} (h : URI s = .ok u) : InSync u := by
  rw [URI_eq_ok_iff, parts_eq_some_iff] at h
  obtain ⟨scheme, r, -, ⟨-, rfl⟩ | ⟨-, -, p, -, rfl⟩⟩ := h
  · exact inSync_iff.mpr rfl
  · exact inSync_iff.mpr rfl

/-- After `setQuery(q)`, and in every URI that the constructor returns with the query `q`, a key
is found if and only if it is not empty and some piece of `q` has it; its value is that of the last
such piece. Neither the constructor nor `setQuery` runs forever. -/
theorem findQuery_iff_last :
    (∀ (u : URIData) (q : Str), ∃ u', u.setQuery q = .ok u' ∧ u'.getQuery = q ∧
      ∀ key value, u'.findQuery key = some value ↔ key ≠ [] ∧ LastPiece q key value) ∧
    ∀ s : Str, (∀ e, URI s ≠ .error (.fault e)) ∧
      ∀ u, URI s = .ok u →
        ∀ key value, u.findQuery key = some value ↔ key ≠ [] ∧ LastPiece u.getQuery key value := by
  refine ⟨fun u q => ⟨_, setQuery_eq u q, rfl, fun key value => getElem?_queryMapOf⟩,
    fun s => ⟨fun e => ?_, fun u h key value => ?_⟩⟩
  · rw [URI_eq_parts]
    cases Grammar.parts s <;> simp [uriParse]
  · rw [URIData.findQuery, inSync_iff.mp (inSync_URI h)]
    exact getElem?_queryMapOf

theorem findQuery_iff_last_separators :
    ∃ u, URI "x?&&=&a==&a".toList = .ok u ∧ ∀ key value,
      u.findQuery key = some value ↔ key ≠ [] ∧ LastPiece u.getQuery key value := by
  obtain ⟨u, hu⟩ : ∃ u, URI "x?&&=&a==&a".toList = .ok u := ⟨_, URI_eq_ok_iff.mpr rfl⟩
  exact ⟨u, hu, (findQuery_iff_last.2 _).2 u hu⟩

/-! ## Joining -/

/-- The `&`-join of `key=value` over the map, in the order of the keys. -/
def joinQuery (queryMap : KVMap) : Str :=
  List.intercalate ['&'] (queryMap.toList.map fun kv => kv.1 ++ '=' :: kv.2)

theorem rebuildQuery_eq (queryMap : KVMap) :
    URIData.rebuildQuery queryMap = joinQuery queryMap := by
  unfold URIData.rebuildQuery joinQuery
  cases queryMap.toList with
  | nil => rfl
  | cons kv kvs =>
    -- behind the first pair the query is not empty any more
    have hloop : ∀ (kvs : List (Str × Str)) (query : Str), query ≠ [] →
        kvs.foldl (fun query kv => if query = [] then kv.1 ++ '=' :: kv.2
          else query ++ ('&' :: kv.1 ++ '=' :: kv.2)) query =
        List.intercalate ['&'] (query :: kvs.map fun kv => kv.1 ++ '=' :: kv.2) := by
      intro kvs
      induction kvs with
      | nil => simp
      | cons kv kvs ih =>
        intro query hne
        rw [List.foldl_cons, if_neg hne, ih _ (by simp), List.map_cons]
        cases kvs <;> simp [List.intercalate, List.intersperse]
    rw [List.foldl_cons, if_pos rfl, hloop kvs _ (by simp), List.map_cons]

/-- A pair that the parser can give: a nonempty key without separators, a value without `&`. -/
structure Readable (key value : Str) : Prop where
  ne_nil : key ≠ []
  key_amp : '&' ∉ key
  key_eq : '=' ∉ key
  value_amp : '&' ∉ value

/-- Every pair of a parsed map is readable. -/
theorem readable_of_queryMapOf {query key value : Str}
    (h : (queryMapOf query)[key]? = some value) : Readable key value := by
  obtain ⟨hne, before, piece, after, hsplit, rfl, rfl, -⟩ := getElem?_queryMapOf.mp h
  have hpiece : '&' ∉ piece := notMem_of_mem_splitOn (s := query) (by simp [hsplit])
  refine ⟨hne, fun hk => hpiece ?_, fun hk => ?_, fun hv => hpiece ?_⟩
  · exact (List.takeWhile_prefix _).subset hk
  · simpa using List.mem_takeWhile_imp hk
  · exact (List.dropWhile_suffix _).subset (List.mem_of_mem_tail hv)

/-- A piece that was joined from a readable pair binds that pair. -/
theorem bindPiece_readable (queryMap : KVMap) {key value : Str} (h : Readable key value) :
    bindPiece queryMap (key ++ '=' :: value) = queryMap.insert key value := by
  rw [bindPiece_append _ _ h.key_eq, if_neg h.ne_nil]

/-- Splitting undoes joining. -/
theorem queryMapOf_joinQuery {queryMap : KVMap}
    (h : ∀ key value, queryMap[key]? = some value → Readable key value) :
    queryMapOf (joinQuery queryMap) = queryMap := by
  have hread : ∀ kv ∈ queryMap.toList, Readable kv.1 kv.2 := fun kv hkv =>
    h _ _ (Std.ExtTreeMap.mem_toList_iff_getElem?_eq_some.mp hkv)
  have hfold : ∀ (l : List (Str × Str)) (m : KVMap), (∀ kv ∈ l, Readable kv.1 kv.2) →
      (l.map fun kv => kv.1 ++ '=' :: kv.2).foldl bindPiece m = assignAll m l := by
    intro l
    induction l with
    | nil => simp [assignAll]
    | cons kv l ih =>
      intro m hl
      rw [List.map_cons, List.foldl_cons, bindPiece_readable _ (hl kv List.mem_cons_self),
        ih _ fun kv hkv => hl kv (List.mem_cons_of_mem _ hkv)]
      rfl
  have hself : assignAll ∅ queryMap.toList = queryMap := by
    refine Std.ExtTreeMap.ext_getElem? fun key => ?_
    rw [getElem?_assignAll_toList]
    simp
  unfold queryMapOf joinQuery
  by_cases hnil : queryMap.toList = []
  · rw [hnil] at hself ⊢
    simpa [assignAll] using hself
  · rw [List.splitOn_intercalate, hfold _ _ hread, hself]
    · intro piece hpiece
      obtain ⟨kv, hkv, rfl⟩ := List.mem_map.mp hpiece
      have hkv := hread kv hkv
      simp [hkv.key_amp, hkv.value_amp]
    · simpa using hnil

/-- A URI that is in sync stays so exactly when `addQuery` adds a readable pair. -/
theorem inSync_addQuery_iff {u : URIData} (hu : InSync u) (key value : Str) :
    InSync (u.addQuery key value) ↔ Readable key value := by
  rw [inSync_iff] at hu ⊢
  simp only [URIData.addQuery, rebuildQuery_eq]
  constructor
  · intro h
    have hself : (queryMapOf (joinQuery (u.queryMap.insert key value)))[key]? = some value := by
      rw [← h, Std.ExtTreeMap.getElem?_insert_self]
    exact readable_of_queryMapOf hself
  · intro h
    refine (queryMapOf_joinQuery fun k v hkv => ?_).symm
    rw [Std.ExtTreeMap.getElem?_insert] at hkv
    split at hkv
    · rename_i hk
      obtain rfl : key = k := by simpa using hk
      cases hkv
      exact h
    · rw [hu] at hkv
      exact readable_of_queryMapOf hkv

/-- Every constructor and `setQuery` give a URI in sync, and every other setter keeps it (`URI()` is
the constructor on an empty text, and a copy has the members of its source). From a URI in sync,
`addQuery` makes the query the `&`-join of the map, and the URI stays in sync if and only
if the key is not empty and has no `&` and no `=`, and the value has no `&`. -/
theorem query_in_sync :
    (∀ s u, URI s = .ok u → InSync u) ∧
    (∀ (u : URIData) (query : Str), ∃ u', u.setQuery query = .ok u' ∧ InSync u') ∧
    (∀ (u : URIData) (m : Mutator), InSync u → (∀ key value, m ≠ .addQuery key value) →
      ∃ u', u.apply m = .ok u' ∧ InSync u') ∧
    ∀ (u : URIData) (key value : Str), InSync u →
      (u.addQuery key value).queryMap = u.queryMap.insert key value ∧
      (u.addQuery key value).query = joinQuery (u.addQuery key value).queryMap ∧
      (InSync (u.addQuery key value) ↔ key ≠ [] ∧ '&' ∉ key ∧ '=' ∉ key ∧ '&' ∉ value) := by
  have hset : ∀ (u : URIData) (query : Str), ∃ u', u.setQuery query = .ok u' ∧ InSync u' :=
    fun u query => ⟨_, setQuery_eq u query, inSync_iff.mpr rfl⟩
  refine ⟨fun s u => inSync_URI, hset, fun u m hu hm => ?_, fun u key value hu => ⟨rfl, ?_, ?_⟩⟩
  · have hmap := inSync_iff.mp hu
    cases m with
    | setQuery query => exact hset u query
    | addQuery key value => exact absurd rfl (hm key value)
    | _ => exact ⟨_, rfl, inSync_iff.mpr hmap⟩
  · exact rebuildQuery_eq _
  · rw [inSync_addQuery_iff hu]
    exact ⟨fun h => ⟨h.1, h.2, h.3, h.4⟩, fun h => ⟨h.1, h.2.1, h.2.2.1, h.2.2.2⟩⟩

/-- A value may have `=`, but a value with `&` takes the map out of step. -/
theorem query_in_sync_separators :
    ∃ u, URI "x?a&b=1".toList = .ok u ∧ InSync (u.addQuery "k".toList "v=w".toList) ∧
      ¬ InSync (u.addQuery "k".toList "v&w".toList) := by
  obtain ⟨u, hu⟩ : ∃ u, URI "x?a&b=1".toList = .ok u := ⟨_, URI_eq_ok_iff.mpr rfl⟩
  have hsync : InSync u := query_in_sync.1 _ u hu
  refine ⟨u, hu, ?_, fun h => ?_⟩
  · exact (query_in_sync.2.2.2 u _ _ hsync).2.2.mpr (by decide)
  · exact absurd ((query_in_sync.2.2.2 u _ _ hsync).2.2.mp h) (by decide)

end Servus.Uri
