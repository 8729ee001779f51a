import Servus.Uri.Model

/-!
# The query map of a URI

`_parseQueryMap` reads the query pair by pair, with an early `continue` for a leading `&` and
for an empty key. `queryMapOf` says what it computes: the query is split at every `&`, each piece
at its first `=`, and the pieces with a nonempty key are bound from left to right
(`parseQueryMap_eq`). The loop always ends, and no `substr` of it throws.
-/

namespace Servus.Uri

open Cpp

/-- The text of a piece before its first `=`; the whole piece if it has none. -/
def pieceKey (piece : Str) : Str := piece.takeWhile (· != '=')

/-- The text of a piece behind its first `=`; empty if it has none. -/
def pieceValue (piece : Str) : Str := (piece.dropWhile (· != '=')).tail

/-- Bind a piece of the query; a piece with an empty key binds nothing. -/
def bindPiece (queryMap : KVMap) (piece : Str) : KVMap :=
  if pieceKey piece = [] then queryMap else queryMap.insert (pieceKey piece) (pieceValue piece)

/-- The query map that belongs to a query. -/
def queryMapOf (query : Str) : KVMap := (query.splitOn '&').foldl bindPiece ∅

@[simp] theorem bindPiece_nil (queryMap : KVMap) : bindPiece queryMap [] = queryMap := rfl

@[simp] theorem queryMapOf_nil : queryMapOf [] = ∅ := by simp [queryMapOf]

/-- A piece without `=` is a key with an empty value. -/
theorem bindPiece_of_not_mem {piece : Str} (queryMap : KVMap) (hne : piece ≠ [])
    (h : '=' ∉ piece) : bindPiece queryMap piece = queryMap.insert piece [] := by
  have hall := all_ne_of_notMem h
  have hk : pieceKey piece = piece := List.takeWhile_eq_self_iff.mpr hall
  have hv : pieceValue piece = [] := by
    rw [pieceValue, List.dropWhile_eq_nil_iff.mpr hall, List.tail_nil]
  rw [bindPiece, hk, hv, if_neg hne]

theorem bindPiece_append {key : Str} (queryMap : KVMap) (value : Str) (h : '=' ∉ key) :
    bindPiece queryMap (key ++ '=' :: value) =
      if key = [] then queryMap else queryMap.insert key value := by
  have hall := all_ne_of_notMem h
  rw [bindPiece, pieceKey, pieceValue, takeWhile_split hall (by simp),
    dropWhile_split hall (by simp), List.tail_cons]

theorem bindPair_eq (queryMap : KVMap) {pair : Str} (hne : pair ≠ []) :
    bindPair queryMap pair = .ok (bindPiece queryMap pair) := by
  unfold bindPair
  rcases findChar_cases '=' pair with ⟨hn, hmem⟩ | ⟨key, value, rfl, hkey, hf⟩
  · rw [hn, bindPiece_of_not_mem _ hne hmem]; rfl
  · rw [hf, bindPiece_append _ _ hkey]
    cases hk : key with
    | nil => rfl
    | cons c key =>
      simp only [List.length_cons, reduceCtorEq, ↓reduceIte]
      rw [show key.length + 1 = (c :: key).length from rfl, substr_prefix, substr_suffix_cons]
      rfl

/-- One iteration binds the first piece of the query and goes on behind it. -/
theorem queryStep_spec {query : Str} (queryMap : KVMap) (hne : query ≠ []) :
    ∃ query' queryMap', queryStep (query, queryMap) = .ok (query', queryMap') ∧
      query'.length < query.length ∧
      (query'.splitOn '&').foldl bindPiece queryMap' =
        (query.splitOn '&').foldl bindPiece queryMap := by
  rcases findChar_cases '&' query with ⟨hn, hmem⟩ | ⟨pair, rest, rfl, hpair, hf⟩
  · refine ⟨[], bindPiece queryMap query, ?_, by simpa using List.length_pos_of_ne_nil hne, ?_⟩
    · simp [queryStep, hn, bindPair_eq queryMap hne]
    · simp [List.splitOn_eq_singleton hmem]
  · rcases pair.eq_nil_or_concat with rfl | hp
    · -- A leading `&` is skipped: it ends an empty piece.
      refine ⟨rest, queryMap, ?_, by simp, ?_⟩
      · have hcut := substr_suffix_cons [] rest '&'
        simp only [List.nil_append, List.length_nil, Nat.zero_add] at hcut hf
        simp [queryStep, hf, hcut]
      · rw [List.splitOn_append_cons_self_of_not_mem hpair, List.foldl_cons, bindPiece_nil]
    · have hp : pair ≠ [] := by obtain ⟨_, _, rfl⟩ := hp; simp
      refine ⟨rest, bindPiece queryMap pair, ?_, by simp; omega, ?_⟩
      · simp [queryStep, hf, hp, substr_prefix, substr_suffix_cons, bindPair_eq queryMap hp]
      · rw [List.splitOn_append_cons_self_of_not_mem hpair, List.foldl_cons]

/-- `_parseQueryMap` ends without an exception, with the map of the query. -/
theorem parseQueryMap_eq (data : URIData) :
    parseQueryMap data = .ok { data with queryMap := queryMapOf data.query } := by
  obtain ⟨⟨query, queryMap⟩, hloop, hinv, hend⟩ :=
    whileLoop_spec Exn.fuel (fun s : Str × KVMap => !s.1.isEmpty) queryStep
      (fun s => (s.1.splitOn '&').foldl bindPiece s.2 = queryMapOf data.query)
      (fun s => s.1.length)
      (fun s hs hc => by
        obtain ⟨q, m, hstep, hlt, hfold⟩ := queryStep_spec s.2 (by simpa using hc : s.1 ≠ [])
        exact ⟨(q, m), hstep, hfold.trans hs, hlt⟩)
      data.query.length (data.query, ∅) rfl le_rfl
  obtain rfl : query = [] := by simpa using hend
  have hmap : queryMap = queryMapOf data.query := by simpa using hinv
  simp only [parseQueryMap, hloop, hmap]
  rfl

theorem setQuery_eq (u : URIData) (query : Str) :
    u.setQuery query = .ok { u with query, queryMap := queryMapOf query } := by
  rw [URIData.setQuery, parseQueryMap_eq]

end Servus.Uri
