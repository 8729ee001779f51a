import Servus.Cpp.Run
import Servus.Uri.Mutators
import Servus.Uri.RoundTrip

/-!
# Which URIs survive printing

A URI that is built by calls may hold anything. `survives_iff`: it is read back from its printed
form exactly when it is `Printable`; there is no other URI that survives by chance, since what is
read back is a parsed one.

`Keeps` says what a call may be given so that a URI that survives still does. `survives_along`: all
along a run of calls, from any URI on, the URI survives exactly when it did in the beginning and
each call is given that.
-/

namespace Servus.Uri

open Cpp Grammar

/-- Printing and parsing `u` gives `u`. -/
def Survives (u : URIData) : Prop := URI (toString u) = .ok u

theorem survives_iff {u : URIData} : Survives u ↔ Printable u := by
  rw [Survives, URI_eq_ok_iff]
  refine ⟨fun h => ?_, parts_toString⟩
  exact printable_of_parts h fun hn => parts_toString_ne h hn h

/-! ## The scheme and the authority -/

/-- A path that is not taken for a scheme and what follows it. -/
def NoScheme (path : Str) : Prop := ∀ x y, path = x ++ "://".toList ++ y → x = [] ∨ '/' ∈ x

/-- What a scheme other than the empty one is. -/
def LowerScheme (scheme : Str) : Prop := isScheme scheme = true ∧ toLower scheme = scheme

/-- `PrintableFront`, by the members. -/
structure Front (u : URIData) : Prop where
  scheme : u.scheme = [] ∨ LowerScheme u.scheme
  hasAuthority : u.host ≠ [] → hasAuthority u.scheme = true
  host : FreeOf ":/?#".toList u.host
  userinfo : FreeOf "@/?#".toList u.userinfo
  hidden : u.userinfo = [] → '@' ∉ u.host
  noHost : u.host = [] → u.userinfo = [] ∧ u.port = 0
  absolute : Grammar.hasAuthority u.scheme = true → IsAbsolute u.path
  noScheme : u.scheme = [] → NoScheme u.path

theorem freeOf_nil (set : Str) : FreeOf set [] := fun _ hc => absurd hc List.not_mem_nil

theorem printableFront_iff {u : URIData} : PrintableFront u ↔ Front u := by
  constructor
  · intro h
    cases h with
    | host hs hl hf hne hh hu hat hp =>
      have hnil := (isScheme_freeOf hs).1
      exact ⟨.inr ⟨hs, hl⟩, fun _ => hasAuthority_iff.mpr ⟨hnil, hf⟩, hh, hu, hat,
        fun h0 => absurd h0 hne, fun _ => hp, fun h0 => absurd h0 hnil⟩
    | noHost hs hl h0 hu hport hp =>
      exact ⟨.inr ⟨hs, hl⟩, fun hne => absurd h0 hne, h0 ▸ freeOf_nil _, hu ▸ freeOf_nil _,
        fun _ => by simp [h0], fun _ => ⟨hu, hport⟩, fun ha => hp (hasAuthority_iff.mp ha).2,
        fun hnil => absurd hnil (isScheme_freeOf hs).1⟩
    | relative hs h0 hu hport hp =>
      exact ⟨.inl hs, fun hne => absurd h0 hne, h0 ▸ freeOf_nil _, hu ▸ freeOf_nil _,
        fun _ => by simp [h0], fun _ => ⟨hu, hport⟩, fun ha => absurd hs (hasAuthority_iff.mp ha).1,
        fun _ => hp⟩
  · intro h
    by_cases h0 : u.host = []
    · obtain ⟨hu, hport⟩ := h.noHost h0
      rcases h.scheme with hs | ⟨hs, hl⟩
      · exact .relative hs h0 hu hport (h.noScheme hs)
      · exact .noHost hs hl h0 hu hport fun hf =>
          h.absolute (hasAuthority_iff.mpr ⟨(isScheme_freeOf hs).1, hf⟩)
    · have ha := h.hasAuthority h0
      obtain ⟨hnil, hf⟩ := hasAuthority_iff.mp ha
      obtain ⟨hs, hl⟩ := h.scheme.resolve_left hnil
      exact .host hs hl hf h0 h.host h.userinfo h.hidden (h.absolute ha)

/-! ## The query -/

theorem freeOf_hash_iff {t : Str} : FreeOf "#".toList t ↔ '#' ∉ t := by
  refine ⟨fun h hmem => h '#' hmem (by decide), fun h c hc hset => h ?_⟩
  obtain rfl : c = '#' := by simpa using hset
  exact hc

/-- The pairs of a parsed map stand in the query. -/
theorem mem_of_queryMapOf {query key value : Str} (h : (queryMapOf query)[key]? = some value)
    {c : Char} (hne : c ≠ '&') (hc : c ∈ key ∨ c ∈ value) : c ∈ query := by
  obtain ⟨-, before, piece, after, hsplit, rfl, rfl, -⟩ := getElem?_queryMapOf.mp h
  have hpiece : c ∈ piece := by
    rcases hc with hc | hc
    · exact (List.takeWhile_prefix _).subset hc
    · exact (List.dropWhile_suffix _).subset (List.mem_of_mem_tail hc)
  have hjoin : List.intercalate ['&'] (query.splitOn '&') = query := List.intercalate_splitOn '&'
  rw [← hjoin, mem_intercalate_iff hne]
  exact ⟨piece, by simp [hsplit], hpiece⟩

theorem mem_joinQuery_iff {queryMap : KVMap} {c : Char} (hamp : c ≠ '&') (heq : c ≠ '=') :
    c ∈ joinQuery queryMap ↔
      ∃ key value : Str, queryMap[key]? = some value ∧ (c ∈ key ∨ c ∈ value) := by
  rw [joinQuery, mem_intercalate_iff hamp]
  constructor
  · rintro ⟨piece, hpiece, hc⟩
    obtain ⟨⟨key, value⟩, hkv, rfl⟩ := List.mem_map.mp hpiece
    refine ⟨key, value, Std.ExtTreeMap.mem_toList_iff_getElem?_eq_some.mp hkv, ?_⟩
    simpa [heq] using hc
  · rintro ⟨key, value, hkv, hc⟩
    refine ⟨key ++ '=' :: value, List.mem_map.mpr ⟨(key, value), ?_, rfl⟩, by simpa [heq] using hc⟩
    exact Std.ExtTreeMap.mem_toList_iff_getElem?_eq_some.mpr hkv

/-- The rebuilt query has a `#` exactly if the new pair has one. -/
theorem freeOf_joinQuery_iff {u : URIData} (hq : FreeOf "#".toList u.query)
    (hmap : u.queryMap = queryMapOf u.query) (key value : Str) :
    FreeOf "#".toList (joinQuery (u.queryMap.insert key value)) ↔ '#' ∉ key ∧ '#' ∉ value := by
  rw [freeOf_hash_iff, mem_joinQuery_iff (by decide) (by decide), ← not_or, not_iff_not]
  constructor
  · rintro ⟨k, v, hkv, hc⟩
    rw [Std.ExtTreeMap.getElem?_insert] at hkv
    split at hkv
    · rename_i hk
      obtain rfl : key = k := by simpa using hk
      cases hkv
      exact hc
    · rw [hmap] at hkv
      exact absurd (mem_of_queryMapOf hkv (by decide) hc) (freeOf_hash_iff.mp hq)
  · intro hc
    exact ⟨key, value, Std.ExtTreeMap.getElem?_insert_self, hc⟩

/-! ## The calls -/

/-- What a call may be given, so that a URI that survives does so behind it. -/
def Keeps (u : URIData) : Mutator → Prop
  | .setScheme scheme =>
    (scheme = [] ∨ LowerScheme scheme) ∧ (u.host ≠ [] → hasAuthority scheme = true) ∧
      (hasAuthority scheme = true → IsAbsolute u.path) ∧ (scheme = [] → NoScheme u.path)
  | .setUserInfo userinfo =>
    FreeOf "@/?#".toList userinfo ∧ (userinfo = [] → '@' ∉ u.host) ∧ (u.host = [] → userinfo = [])
  | .setHost host =>
    (host ≠ [] → hasAuthority u.scheme = true) ∧ FreeOf ":/?#".toList host ∧
      (u.userinfo = [] → '@' ∉ host) ∧ (host = [] → u.userinfo = [] ∧ u.port = 0)
  | .setPort port => u.host = [] → port = 0
  | .setPath path =>
    FreeOf "?#".toList path ∧ (hasAuthority u.scheme = true → IsAbsolute path) ∧
      (u.scheme = [] → NoScheme path)
  | .setQuery query => FreeOf "#".toList query
  | .setFragment _ => True
  | .addQuery key value => Readable key value ∧ '#' ∉ key ∧ '#' ∉ value

theorem printable_applied_iff {u : URIData} (hu : Printable u) (m : Mutator) :
    Printable (u.applied m) ↔ Keeps u m := by
  have f := printableFront_iff.mp hu.front
  -- The calls about the query and the fragment leave the front as it is.
  have hfront : ∀ query queryMap fragment,
      PrintableFront { u with query, queryMap, fragment } := fun _ _ _ =>
    printableFront_iff.mpr ⟨f.scheme, f.hasAuthority, f.host, f.userinfo, f.hidden, f.noHost,
      f.absolute, f.noScheme⟩
  constructor
  · intro h
    have f' := printableFront_iff.mp h.front
    cases m with
    | setScheme scheme => exact ⟨f'.scheme, f'.hasAuthority, f'.absolute, f'.noScheme⟩
    | setUserInfo userinfo => exact ⟨f'.userinfo, f'.hidden, fun h0 => (f'.noHost h0).1⟩
    | setHost host => exact ⟨f'.hasAuthority, f'.host, f'.hidden, f'.noHost⟩
    | setPort port => exact fun h0 => (f'.noHost h0).2
    | setPath path => exact ⟨h.path, f'.absolute, f'.noScheme⟩
    | setQuery query => exact h.query
    | setFragment fragment => trivial
    | addQuery key value =>
      have hsync : InSync (u.addQuery key value) := inSync_iff.mpr h.queryMap
      have hquery := h.query
      rw [show (u.applied (.addQuery key value)).query = _ from rebuildQuery_eq _] at hquery
      exact ⟨(inSync_addQuery_iff (inSync_iff.mpr hu.queryMap) key value).mp hsync,
        (freeOf_joinQuery_iff hu.query hu.queryMap key value).mp hquery⟩
  · intro h
    cases m with
    | setScheme scheme =>
      obtain ⟨hs, ha, habs, hno⟩ := h
      exact ⟨printableFront_iff.mpr ⟨hs, ha, f.host, f.userinfo, f.hidden, f.noHost, habs, hno⟩,
        hu.path, hu.query, hu.queryMap⟩
    | setUserInfo userinfo =>
      obtain ⟨hfree, hhidden, h0⟩ := h
      exact ⟨printableFront_iff.mpr ⟨f.scheme, f.hasAuthority, f.host, hfree, hhidden,
        fun hnil => ⟨h0 hnil, (f.noHost hnil).2⟩, f.absolute, f.noScheme⟩,
        hu.path, hu.query, hu.queryMap⟩
    | setHost host =>
      obtain ⟨ha, hfree, hhidden, h0⟩ := h
      exact ⟨printableFront_iff.mpr ⟨f.scheme, ha, hfree, f.userinfo, hhidden, h0, f.absolute,
        f.noScheme⟩, hu.path, hu.query, hu.queryMap⟩
    | setPort port =>
      exact ⟨printableFront_iff.mpr ⟨f.scheme, f.hasAuthority, f.host, f.userinfo, f.hidden,
        fun hnil => ⟨(f.noHost hnil).1, h hnil⟩, f.absolute, f.noScheme⟩,
        hu.path, hu.query, hu.queryMap⟩
    | setPath path =>
      obtain ⟨hfree, habs, hno⟩ := h
      exact ⟨printableFront_iff.mpr ⟨f.scheme, f.hasAuthority, f.host, f.userinfo, f.hidden,
        f.noHost, habs, hno⟩, hfree, hu.query, hu.queryMap⟩
    | setQuery query => exact ⟨hfront _ _ _, hu.path, h, rfl⟩
    | setFragment fragment => exact ⟨hfront _ _ _, hu.path, hu.query, hu.queryMap⟩
    | addQuery key value =>
      obtain ⟨hread, hhash⟩ := h
      have hsync := (inSync_addQuery_iff (inSync_iff.mpr hu.queryMap) key value).mpr hread
      refine ⟨hfront _ _ _, hu.path, ?_, inSync_iff.mp hsync⟩
      rw [show (u.applied (.addQuery key value)).query = _ from rebuildQuery_eq _]
      exact (freeOf_joinQuery_iff hu.query hu.queryMap key value).mpr hhash

/-! ## Runs of calls -/

/-- A call as a step. -/
def applyStep (u : URIData) (m : Mutator) : Option URIData := (u.apply m).toOption

theorem applyStep_eq (u : URIData) (m : Mutator) : applyStep u m = some (u.applied m) := by
  rw [applyStep, apply_eq]
  rfl

theorem run_applyStep (u : URIData) (ms : List Mutator) :
    run applyStep u ms = (u.applyAll ms).toOption := by
  rw [applyAll_eq]
  induction ms generalizing u with
  | nil => rfl
  | cons m ms ih =>
    rw [run_cons, applyStep_eq]
    exact ih (u.applied m)

/-- **A URI survives all along a run of calls**, before the first and behind each, exactly if it is
printable in the beginning and each call is given what keeps it so. -/
theorem survives_along (u : URIData) (ms : List Mutator) :
    (∀ ms' u', ms' <+: ms → u.applyAll ms' = .ok u' → Survives u') ↔
      Printable u ∧ EveryStep applyStep Keeps u ms := by
  have hstep : ∀ u m, Printable u →
      ∃ v, applyStep u m = some v ∧ (Printable v ↔ Keeps u m) := fun u m hu =>
    ⟨_, applyStep_eq u m, printable_applied_iff hu m⟩
  rw [← forall_prefix_iff hstep]
  refine forall_congr' fun ms' => forall_congr' fun u' => forall_congr' fun _ => ?_
  rw [run_applyStep, applyAll_eq, survives_iff]
  simp [Except.toOption]

/-- A host that is set before a scheme is read back as a path. -/
example : URI (toString (({} : URIData).setHost "h".toList)) = .ok { path := "h".toList } := by
  decide

end Servus.Uri
