import Servus.Dnssd.Model

/-!
# The TXT record that is announced with dnssd

`_createTXTRecord` calls `TXTRecordSetValue` for each pair and drops what it returns. The library
stores an item `key=value` behind a byte with its length, and refuses one that is longer than 255.
The code cuts a value at 255 on its own, without the key: `setAll_eq` says which items are left,
and `createTXTRecord_complete_iff` when these are all.
-/

namespace Servus.Dnssd

open Cpp

/-- The bytes that an item takes: its length, the key, a `=` and the value. -/
def itemSize (key : Str) (valueSize : UInt8) : Nat := 1 + key.length + 1 + valueSize.toNat

/-- The bytes that a record takes. -/
def recordSize (record : List (Str × Str)) : Nat :=
  (record.map fun item => 1 + item.1.length + 1 + item.2.length).sum

/-- A key of printable ASCII characters other than `=`. -/
structure ValidKey (key : Str) : Prop where
  ne_nil : key ≠ []
  printable : ∀ c ∈ key, 0x20 ≤ c.toNat ∧ c.toNat ≤ 0x7E
  noEq : '=' ∉ key

/-- Keys are compared without regard to case. -/
def SameKey (key key' : Str) : Prop := key.map Char.toLower = key'.map Char.toLower

instance (key key' : Str) : Decidable (SameKey key key') := inferInstanceAs (Decidable (_ = _))

/-- What the code takes from the library: `TXTRecordSetValue(record, key, valueSize, value)`, as
the items of the record after it, and its return value. -/
structure TXTLib where
  setValue : List (Str × Str) → Str → UInt8 → Str → List (Str × Str) × Int

/-- A new valid key is appended with the first `valueSize` bytes of the value, unless the item is
too long, or the record would be. -/
structure TXTLib.Documented (lib : TXTLib) : Prop where
  setValue_append : ∀ record key valueSize value, ValidKey key →
    (∀ item ∈ record, ¬ SameKey item.1 key) → itemSize key valueSize ≤ 255 →
    recordSize record + itemSize key valueSize ≤ 65535 →
    lib.setValue record key valueSize value =
      (record ++ [(key, value.take valueSize.toNat)], kDNSServiceErr_NoError)
  setValue_tooLong : ∀ record key valueSize value, 255 < itemSize key valueSize →
    (lib.setValue record key valueSize value).1 = record ∧
      (lib.setValue record key valueSize value).2 ≠ kDNSServiceErr_NoError

/-- The record after the calls of `_createTXTRecord` on a new one. -/
def TXTLib.setAll (lib : TXTLib) (calls : TXTRecord) : List (Str × Str) :=
  calls.foldl (fun record call => (lib.setValue record call.1 call.2.1 call.2.2).1) []

/-- Data whose keys a TXT record can have: valid ones, that differ in more than case. -/
structure AnnouncedKeys (data : ValueMap) : Prop where
  valid : ∀ key ∈ data, ValidKey key
  distinct : ∀ key ∈ data, ∀ key' ∈ data, SameKey key key' → key = key'

/-- The item that is meant for a pair: the key with the value, cut at 255 bytes. -/
def announcedItem (kv : Str × Str) : Str × Str := (kv.1, kv.2.take (min kv.2.length 255))

/-- The key and the value as it is cut leave room for the two bytes between them and the limit. -/
def Fits (kv : Str × Str) : Prop := kv.1.length + min kv.2.length 255 ≤ 253

instance (kv : Str × Str) : Decidable (Fits kv) := inferInstanceAs (Decidable (_ ≤ _))

/-- The size with which a value is handed over. -/
def valueSize (value : Str) : UInt8 :=
  if value.length > 255 then 255 else UInt8.ofNat value.length

theorem valueSize_toNat (value : Str) : (valueSize value).toNat = min value.length 255 := by
  unfold valueSize
  split
  · rw [Nat.min_eq_right (by omega)]
    rfl
  · rw [Nat.min_eq_left (by omega), UInt8.toNat_ofNat', Nat.mod_eq_of_lt (by omega)]

@[simp] theorem recordSize_cons (item : Str × Str) (record : List (Str × Str)) :
    recordSize (item :: record) = 1 + item.1.length + 1 + item.2.length + recordSize record := rfl

@[simp] theorem recordSize_append (record record' : List (Str × Str)) :
    recordSize (record ++ record') = recordSize record + recordSize record' := by
  simp [recordSize]

theorem recordSize_announcedItem (kv : Str × Str) :
    recordSize [announcedItem kv] = itemSize kv.1 (valueSize kv.2) := by
  simp [recordSize, announcedItem, itemSize, valueSize_toNat]

theorem ValidKey.cStr_eq {key : Str} (h : ValidKey key) : cStr key = key := by
  refine cStr_eq_self_iff.mpr fun hnul => ?_
  have hprint := (h.printable _ hnul).1
  simp at hprint

/-- One call appends the item of a pair that fits, and does nothing for another. -/
theorem setValue_eq {lib : TXTLib} (hlib : lib.Documented) {record : List (Str × Str)}
    {kv : Str × Str} (hkey : ValidKey kv.1) (hnew : ∀ item ∈ record, ¬ SameKey item.1 kv.1)
    (hsize : recordSize record + recordSize [announcedItem kv] ≤ 65535) :
    (lib.setValue record (cStr kv.1) (valueSize kv.2)
        (kv.2.take (valueSize kv.2).toNat)).1 =
      record ++ if Fits kv then [announcedItem kv] else [] := by
  rw [recordSize_announcedItem] at hsize
  have hitem : itemSize kv.1 (valueSize kv.2) = kv.1.length + min kv.2.length 255 + 2 := by
    rw [itemSize, valueSize_toNat]
    omega
  rw [hkey.cStr_eq]
  by_cases hfits : Fits kv
  · have hfits' : kv.1.length + min kv.2.length 255 ≤ 253 := hfits
    rw [hlib.setValue_append record kv.1 _ _ hkey hnew (by omega) hsize, if_pos hfits,
      announcedItem, List.take_take, Nat.min_self, valueSize_toNat]
  · have hfits' : ¬ kv.1.length + min kv.2.length 255 ≤ 253 := hfits
    rw [(hlib.setValue_tooLong record kv.1 _ _ (by omega)).1, if_neg hfits, List.append_nil]

/-- The calls for the pairs `l` append the items of those that fit. -/
theorem foldl_setValue_eq {lib : TXTLib} (hlib : lib.Documented) {l : List (Str × Str)}
    (hvalid : ∀ kv ∈ l, ValidKey kv.1) (hdistinct : l.Pairwise fun a b => ¬ SameKey a.1 b.1)
    (record : List (Str × Str)) (hnew : ∀ item ∈ record, ∀ kv ∈ l, ¬ SameKey item.1 kv.1)
    (hsize : recordSize record + recordSize (l.map announcedItem) ≤ 65535) :
    l.foldl (fun record kv => (lib.setValue record (cStr kv.1) (valueSize kv.2)
        (kv.2.take (valueSize kv.2).toNat)).1) record =
      record ++ (l.filter fun kv => Fits kv).map announcedItem := by
  induction l generalizing record with
  | nil => simp
  | cons kv l ih =>
    obtain ⟨hkv, hdistinct⟩ := List.pairwise_cons.mp hdistinct
    obtain ⟨hvalidkv, hvalid⟩ := List.forall_mem_cons.mp hvalid
    have hfresh : ∀ item ∈ record, ¬ SameKey item.1 kv.1 :=
      fun item hitem => hnew item hitem kv List.mem_cons_self
    rw [List.map_cons, ← List.singleton_append, recordSize_append] at hsize
    rw [List.foldl_cons, setValue_eq hlib hvalidkv hfresh (by omega), ih hvalid hdistinct]
    · by_cases hfits : Fits kv
      · simp [hfits]
      · simp [hfits]
    · intro item hitem kv' hkv'
      rcases List.mem_append.mp hitem with hitem | hitem
      · exact hnew item hitem kv' (List.mem_cons_of_mem _ hkv')
      · split at hitem
        · obtain rfl := List.mem_singleton.mp hitem
          exact hkv kv' hkv'
        · cases hitem
    · rw [recordSize_append]
      split
      · omega
      · simp only [recordSize, List.map_nil, List.sum_nil] at hsize ⊢
        omega

/-- What the record has after the calls: the items of the pairs that fit, in order. -/
theorem setAll_eq {lib : TXTLib} (hlib : lib.Documented) {data : ValueMap}
    (hdata : AnnouncedKeys data)
    (hsize : recordSize (data.toList.map announcedItem) ≤ 65535) :
    lib.setAll (createTXTRecord data) =
      (data.toList.filter fun kv => Fits kv).map announcedItem := by
  have hmem : ∀ kv ∈ data.toList, kv.1 ∈ data := fun kv hkv =>
    (Std.ExtTreeMap.getElem?_eq_some_iff.mp
      (Std.ExtTreeMap.mem_toList_iff_getElem?_eq_some.mp hkv)).1
  have hdistinct : data.toList.Pairwise fun a b => ¬ SameKey a.1 b.1 :=
    (Std.ExtTreeMap.distinct_keys_toList (t := data)).imp_of_mem fun ha hb hne hsame =>
      hne (Std.compare_eq_iff_eq.mpr
        (hdata.distinct _ (hmem _ ha) _ (hmem _ hb) hsame))
  have hfold := foldl_setValue_eq hlib (fun kv hkv => hdata.valid kv.1 (hmem kv hkv)) hdistinct []
    (by simp) (by rwa [recordSize, List.map_nil, List.sum_nil, Nat.zero_add])
  rw [TXTLib.setAll, createTXTRecord, List.foldl_map]
  exact hfold

/-- **The record is complete exactly when every pair fits.** Each key is in it, with its value cut
at 255 bytes, exactly when no key is longer than the value, as cut, leaves room for. -/
theorem createTXTRecord_complete_iff {lib : TXTLib} (hlib : lib.Documented) {data : ValueMap}
    (hdata : AnnouncedKeys data)
    (hsize : recordSize (data.toList.map announcedItem) ≤ 65535) :
    (∀ kv ∈ data.toList, announcedItem kv ∈ lib.setAll (createTXTRecord data)) ↔
      ∀ kv ∈ data.toList, kv.1.length + min kv.2.length 255 ≤ 253 := by
  rw [setAll_eq hlib hdata hsize]
  constructor
  · intro h kv hkv
    obtain ⟨kv', hkv', heq⟩ := List.mem_map.mp (h kv hkv)
    obtain ⟨hmem, hfits⟩ := List.mem_filter.mp hkv'
    -- A key is in the map once, so the item that fits is the one of this pair.
    have hkey : kv'.1 = kv.1 := congrArg (·.1) heq
    have hv := Std.ExtTreeMap.mem_toList_iff_getElem?_eq_some.mp hkv
    have hv' := Std.ExtTreeMap.mem_toList_iff_getElem?_eq_some.mp hmem
    rw [hkey, hv] at hv'
    obtain rfl : kv' = kv := Prod.ext hkey (Option.some.inj hv').symm
    exact of_decide_eq_true hfits
  · intro h kv hkv
    exact List.mem_map_of_mem (List.mem_filter.mpr ⟨hkv, decide_eq_true (h kv hkv)⟩)

/-- A library as documented. -/
def TXTLib.plain : TXTLib where
  setValue record key valueSize value :=
    if itemSize key valueSize ≤ 255 ∧ recordSize record + itemSize key valueSize ≤ 65535 then
      (record ++ [(key, value.take valueSize.toNat)], kDNSServiceErr_NoError)
    else (record, kDNSServiceErr_BadParam)

theorem documented_plain : TXTLib.plain.Documented where
  setValue_append record key valueSize value _ _ hitem hrecord := if_pos ⟨hitem, hrecord⟩
  setValue_tooLong record key valueSize value hsize := by
    have hno : ¬ (itemSize key valueSize ≤ 255 ∧
        recordSize record + itemSize key valueSize ≤ 65535) := by omega
    rw [TXTLib.plain]
    simp only [hno, ↓reduceIte]
    exact ⟨trivial, by decide⟩

theorem announcedKeys_of_keys {data : ValueMap} (hkeys : data.keys = ["k".toList, "l".toList]) :
    AnnouncedKeys data := by
  have hmem : ∀ key ∈ data, key = "k".toList ∨ key = "l".toList := by
    intro key hkey
    simpa [hkeys] using Std.ExtTreeMap.mem_keys.mpr hkey
  constructor
  · intro key hkey
    rcases hmem key hkey with rfl | rfl <;> exact ⟨by simp, by simp, by simp⟩
  · intro key hkey key' hkey' hsame
    rcases hmem key hkey with rfl | rfl <;> rcases hmem key' hkey' with rfl | rfl
    · rfl
    · exact absurd hsame (by decide)
    · exact absurd hsame (by decide)
    · rfl

/-- Two keys, one of them with the longest value that it can have. -/
def longestValue : ValueMap :=
  .ofList [("k".toList, List.replicate 252 'v'), ("l".toList, [])]

/-- One byte more. -/
def tooLongValue : ValueMap :=
  .ofList [("k".toList, List.replicate 253 'v'), ("l".toList, [])]

theorem createTXTRecord_complete_longest : AnnouncedKeys longestValue ∧
    recordSize (longestValue.toList.map announcedItem) ≤ 65535 ∧
    ∀ kv ∈ longestValue.toList,
      announcedItem kv ∈ TXTLib.plain.setAll (createTXTRecord longestValue) := by
  have hdata : AnnouncedKeys longestValue := announcedKeys_of_keys (by decide +kernel)
  have hsize : recordSize (longestValue.toList.map announcedItem) ≤ 65535 := by decide +kernel
  exact ⟨hdata, hsize,
    (createTXTRecord_complete_iff documented_plain hdata hsize).mpr (by decide +kernel)⟩

/-- The whole item of `k` is missing. -/
theorem not_createTXTRecord_complete : AnnouncedKeys tooLongValue ∧
    recordSize (tooLongValue.toList.map announcedItem) ≤ 65535 ∧
    ¬ ∀ kv ∈ tooLongValue.toList,
      announcedItem kv ∈ TXTLib.plain.setAll (createTXTRecord tooLongValue) := by
  have hdata : AnnouncedKeys tooLongValue := announcedKeys_of_keys (by decide +kernel)
  have hsize : recordSize (tooLongValue.toList.map announcedItem) ≤ 65535 := by decide +kernel
  refine ⟨hdata, hsize, fun h => ?_⟩
  rw [setAll_eq documented_plain hdata hsize] at h
  revert h
  decide +kernel

end Servus.Dnssd
