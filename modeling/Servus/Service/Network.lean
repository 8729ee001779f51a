import Servus.Dnssd.Record
import Servus.Service.History
import Servus.Service.TxtRecord

/-!
# Services on one network

Any number of objects, of either backend, announce and browse at the same time. What an object
has on the network is a TXT record under a name. The network loses, delays, repeats and reorders
the records, at will and differently for each object, and it may say at any time that an instance
is gone; but a record that a library resolves for a name is one that was announced under this name,
with its entries in some order (`Authentic`).

* `integrity`: whatever an object lists of an instance was set on an object that announced it.
* `converges`: an object whose latest news of an instance is the present record of the object that
  announces it gives exactly the data of that object, whatever it was told before.
-/

namespace Servus.Network

open Cpp

inductive Backend where
  | avahi
  | dnssd
  deriving DecidableEq

/-- One object, with its backend. -/
inductive Party where
  | avahi (s : Avahi.Service)
  | dnssd (s : Dnssd.Service)

/-- A call on an object of one of the backends. -/
inductive Call where
  | avahi (c : Avahi.Call)
  | dnssd (c : Dnssd.Call)

/-- What is outside: what the backends take from their libraries, and the name that dns_sd gives to
the registration of a party, with the name that was asked for. -/
structure Net where
  env : Avahi.Env
  lib : Dnssd.TXTLib
  registered : Nat → Option Str → Str

/-- An entry of a TXT record. -/
def entry (kv : Str × Str) : Str := kv.1 ++ '=' :: kv.2

namespace Backend

/-- The entry that a pair of the data becomes. -/
def wire : Backend → Str × Str → Str
  | avahi, (key, value) => entry (cStr key, cStr value)
  | dnssd, (key, value) => entry (cStr key, value.take (Dnssd.valueSize value).toNat)

/-- The pair that an entry is read as. -/
def read : Backend → Str → Str × Str
  | avahi => Avahi.entryItem
  | dnssd => txtItem

end Backend

namespace Party

def backend : Party → Backend
  | avahi _ => .avahi
  | dnssd _ => .dnssd

def impl : Party → Impl
  | avahi s => s.toImpl
  | dnssd s => s.toImpl

/-- The party behind a call. -/
def call (env : Avahi.Env) : Party → Call → Option Party
  | avahi s, .avahi c => (Avahi.call env s c).map .avahi
  | dnssd s, .dnssd c => (Dnssd.call s c).map .dnssd
  | _, _ => none

def effects (env : Avahi.Env) : Party → Call → List Effect
  | avahi s, .avahi c => s.effects env c
  | dnssd s, .dnssd c => s.effects c
  | _, _ => []

def isAnnounced : Party → Bool
  | avahi s => s.isAnnounced
  | dnssd s => s.isAnnounced

/-- The entries of the record that was last handed to the library. -/
def handedTxt (net : Net) : Party → Option (List Str)
  | avahi s => s.handed.map (·.txt)
  | dnssd s => s.handed.map fun record => (net.lib.setAll record).map entry

/-- The name under which party number `i` last handed a record over. -/
def handedName (net : Net) (i : Nat) : Party → Option Str
  | avahi s => s.handed.map (·.name)
  | dnssd s => s.registration.map fun r => net.registered i r.instanceName

/-- A new object. -/
def Fresh (p : Party) : Prop :=
  ∃ name, p = avahi { name := name } ∨ p = dnssd { name := name }

end Party

/-- A record that was handed over, and by which party. -/
structure Published where
  party : Nat
  name : Str
  txt : List Str
  deriving DecidableEq

/-- What party number `i` last handed over. -/
def Party.handed (net : Net) (i : Nat) (p : Party) : Option Published :=
  (p.handedName net i).bind fun name => (p.handedTxt net).map fun txt => ⟨i, name, txt⟩

structure World where
  parties : Nat → Party
  published : List Published := []
  /-- What the calls did, and to which party. -/
  log : List (Nat × Effect) := []

/-- What a party is told was published: a resolve is of a record with its name. -/
def Authentic (published : List Published) (b : Backend) : Effect → Prop
  | .change (.resolved name _ items) =>
    ∃ p ∈ published, p.name = name ∧ items.Perm (p.txt.map b.read)
  | _ => True

instance (published : List Published) (b : Backend) (e : Effect) :
    Decidable (Authentic published b e) := by
  unfold Authentic
  split <;> infer_instance

namespace World

/-- The effects on party number `i`. -/
def logOf (w : World) (i : Nat) : List Effect :=
  w.log.filterMap fun e => if e.1 = i then some e.2 else none

/-- A call on party number `i`, if what the library delivers in it is authentic. -/
def step (net : Net) (w : World) : Nat × Call → Option World
  | (i, c) => do
    let p ← (w.parties i).call net.env c
    let published := w.published ++ (p.handed net i).toList
    let effects := (w.parties i).effects net.env c
    if ∀ e ∈ effects, Authentic published p.backend e then
      some ⟨Function.update w.parties i p, published, w.log ++ effects.map (i, ·)⟩
    else none

end World

/-! ## What the outside is documented to do -/

/-- A host has a name, a pair is put in front of a string list, and a record has no other items
than those that were set. -/
structure Net.Documented (net : Net) : Prop where
  hostname : net.env.hostname ≠ []
  addPair : ∀ l key value, net.env.addPair l key value = (key ++ '=' :: value) :: l
  lib : net.lib.Documented
  setValue : ∀ record key valueSize value,
    ∀ item ∈ (net.lib.setValue record key valueSize value).1,
      item ∈ record ∨ item = (key, value.take valueSize.toNat)

theorem Net.Documented.mem_setAll {net : Net} (hnet : net.Documented) {calls : Dnssd.TXTRecord}
    {item : Str × Str} (h : item ∈ net.lib.setAll calls) :
    ∃ c ∈ calls, item = (c.1, c.2.2.take c.2.1.toNat) := by
  have hfold : ∀ record, (∀ item ∈ record, ∃ c ∈ calls, item = (c.1, c.2.2.take c.2.1.toNat)) →
      ∀ cs ⊆ calls, ∀ item ∈ cs.foldl (fun record c => (net.lib.setValue record c.1 c.2.1 c.2.2).1)
        record, ∃ c ∈ calls, item = (c.1, c.2.2.take c.2.1.toNat) := by
    intro record hrecord cs hcs
    induction cs generalizing record with
    | nil => exact hrecord
    | cons c cs ih =>
      obtain ⟨hc, hcs⟩ := List.cons_subset.mp hcs
      refine ih _ (fun item hitem => ?_) hcs
      rcases hnet.setValue record c.1 c.2.1 c.2.2 item hitem with hold | rfl
      · exact hrecord item hold
      · exact ⟨c, hc, rfl⟩
  exact hfold [] (fun _ h => absurd h List.not_mem_nil) calls (List.Subset.refl calls) item h

/-! ## The data on the wire -/

/-- What a party hands over for its data are entries of pairs of the data. -/
theorem mem_encode {net : Net} (hnet : net.Documented) {data : ValueMap} {e : Str}
    (h : e ∈ net.env.encode data) : ∃ kv ∈ data.toList, e = Backend.avahi.wire kv := by
  have hstep : ∀ (l : List Str), ∀ kv ∈ data.toList,
      net.env.addPair l (cStr kv.1) (cStr kv.2) = Backend.avahi.wire kv :: l :=
    fun l kv _ => hnet.addPair l (cStr kv.1) (cStr kv.2)
  rw [Avahi.Env.encode, List.foldl_ext _ _ _ hstep, List.foldl_flip_cons_eq_append,
    List.append_nil, List.mem_reverse] at h
  obtain ⟨kv, hkv, rfl⟩ := List.mem_map.mp h
  exact ⟨kv, hkv, rfl⟩

theorem mem_createTXTRecord {net : Net} (hnet : net.Documented) {data : ValueMap} {e : Str}
    (h : e ∈ (net.lib.setAll (Dnssd.createTXTRecord data)).map entry) :
    ∃ kv ∈ data.toList, e = Backend.dnssd.wire kv := by
  obtain ⟨item, hitem, rfl⟩ := List.mem_map.mp h
  obtain ⟨c, hc, rfl⟩ := hnet.mem_setAll hitem
  obtain ⟨kv, hkv, rfl⟩ := List.mem_map.mp hc
  have hitem : ((cStr kv.1, (kv.2.take (Dnssd.valueSize kv.2).toNat).take
      (Dnssd.valueSize kv.2).toNat) : Str × Str) =
      (cStr kv.1, kv.2.take (Dnssd.valueSize kv.2).toNat) := by
    rw [List.take_take, Nat.min_self]
  exact ⟨kv, hkv, congrArg entry hitem⟩

/-- Data that goes through a TXT record unharmed: keys that a record can have, values without a
null byte, and pairs that fit. -/
structure Announceable (data : ValueMap) : Prop where
  keys : Dnssd.AnnouncedKeys data
  fits : ∀ kv ∈ data.toList, Dnssd.Fits kv
  noNul : ∀ kv ∈ data.toList, '\x00' ∉ kv.2
  size : Dnssd.recordSize (data.toList.map Dnssd.announcedItem) ≤ 65535

/-- A valid key comes through, whatever its value. -/
theorem read_wire_key (b b' : Backend) {kv : Str × Str} (hkey : Dnssd.ValidKey kv.1) :
    (b.read (b'.wire kv)).1 = kv.1 := by
  have hwire : ∃ value, b'.wire kv = kv.1 ++ '=' :: value := by
    cases b' with
    | avahi => exact ⟨cStr kv.2, congrArg (fun key => entry (key, cStr kv.2)) hkey.cStr_eq⟩
    | dnssd => exact ⟨_, congrArg (fun key => entry (key, _)) hkey.cStr_eq⟩
  obtain ⟨value, hwire⟩ := hwire
  rw [hwire]
  have hread := Avahi.entryItem_append value hkey.noEq
  cases b with
  | avahi => exact congrArg (·.1) hread
  | dnssd =>
    have htxt : txtKey (kv.1 ++ '=' :: value) = kv.1 := congrArg (·.1) hread
    rw [Backend.read, txtItem, htxt]
    exact hkey.cStr_eq

/-- A pair that is written as it is, is read as it is. -/
theorem read_entry (b : Backend) {kv : Str × Str} (hkey : Dnssd.ValidKey kv.1) :
    b.read (entry kv) = kv := by
  have hread : Avahi.entryItem (entry kv) = kv := Avahi.entryItem_append kv.2 hkey.noEq
  cases b with
  | avahi => exact hread
  | dnssd =>
    have hall := all_ne_of_notMem hkey.noEq
    have htxt : txtKey (entry kv) = kv.1 := congrArg (·.1) hread
    have hvalue : ((entry kv).dropWhile (· != '=')).tail = kv.2 := by
      rw [entry, dropWhile_split hall (by simp)]
      simp
    rw [Backend.read, txtItem, htxt, hkey.cStr_eq, hvalue]

section Data

variable {net : Net} (hnet : net.Documented) {data : ValueMap} (hdata : Announceable data)

include hdata

theorem Announceable.validKey {kv : Str × Str} (hkv : kv ∈ data.toList) : Dnssd.ValidKey kv.1 :=
  hdata.keys.valid kv.1 (Std.ExtTreeMap.getElem?_eq_some_iff.mp
    (Std.ExtTreeMap.mem_toList_iff_getElem?_eq_some.mp hkv)).1

/-- The entries of the data, read by either backend, are the data. -/
theorem Announceable.map_read (b : Backend) {l : List (Str × Str)} (hl : l.Perm data.toList) :
    ((l.map entry).map b.read).Perm data.toList := by
  have hid : (l.map entry).map b.read = l := by
    rw [List.map_map]
    refine (List.map_congr_left fun kv hkv => ?_).trans (List.map_id l)
    exact read_entry b (hdata.validKey (hl.subset hkv))
  rw [hid]
  exact hl

include hnet

theorem Announceable.encode_eq (b : Backend) :
    ((net.env.encode data).map b.read).Perm data.toList := by
  have hnul : ∀ kv ∈ data.toList, '\x00' ∉ kv.1 ∧ '\x00' ∉ kv.2 := fun kv hkv =>
    ⟨cStr_eq_self_iff.mp (hdata.validKey hkv).cStr_eq, hdata.noNul kv hkv⟩
  rw [Servus.encode_eq hnet.addPair hnul]
  exact hdata.map_read b (List.reverse_perm _)

theorem Announceable.setAll_eq (b : Backend) :
    (((net.lib.setAll (Dnssd.createTXTRecord data)).map entry).map b.read).Perm data.toList := by
  have hall : (data.toList.filter fun kv => Dnssd.Fits kv) = data.toList :=
    List.filter_eq_self.mpr fun kv hkv => decide_eq_true (hdata.fits kv hkv)
  have hsame : data.toList.map Dnssd.announcedItem = data.toList := by
    refine (List.map_congr_left fun kv hkv => ?_).trans (List.map_id _)
    -- a pair that fits is not cut
    have hfits : kv.1.length + min kv.2.length 255 ≤ 253 := hdata.fits kv hkv
    rw [Dnssd.announcedItem, Nat.min_eq_left (by omega), List.take_length]
    rfl
  rw [Dnssd.setAll_eq hnet.lib hdata.keys hdata.size, hall, hsame]
  exact hdata.map_read b (List.Perm.refl _)

end Data

/-! ## One call -/

namespace Party

variable {net : Net} {p p' : Party} {c : Call}

theorem call_impl (h : p.call net.env c = some p') :
    p'.impl = (p.effects net.env c).foldl Impl.apply p.impl := by
  cases p with
  | avahi s =>
    cases c with
    | avahi c =>
      obtain ⟨t, ht, rfl⟩ := Option.map_eq_some_iff.mp h
      exact Avahi.call_effects net.env s c t ht
    | dnssd c => cases h
  | dnssd s =>
    cases c with
    | avahi c => cases h
    | dnssd c =>
      obtain ⟨t, ht, rfl⟩ := Option.map_eq_some_iff.mp h
      exact Dnssd.call_effects s c t ht

theorem call_backend (h : p.call net.env c = some p') : p'.backend = p.backend := by
  cases p with
  | avahi s =>
    cases c with
    | avahi c =>
      obtain ⟨t, ht, rfl⟩ := Option.map_eq_some_iff.mp h
      rfl
    | dnssd c => cases h
  | dnssd s =>
    cases c with
    | avahi c => cases h
    | dnssd c =>
      obtain ⟨t, ht, rfl⟩ := Option.map_eq_some_iff.mp h
      rfl

/-- What was last handed over is as before, or all of it is of the present data. -/
theorem call_handedTxt (hnet : net.Documented) (h : p.call net.env c = some p') {txt : List Str}
    (htxt : p'.handedTxt net = some txt) :
    p.handedTxt net = some txt ∨
      ∀ e ∈ txt, ∃ kv ∈ p'.impl.data.toList, e = p'.backend.wire kv := by
  cases p with
  | avahi s =>
    cases c with
    | avahi c =>
      obtain ⟨t, ht, rfl⟩ := Option.map_eq_some_iff.mp h
      rcases Avahi.handedOver_call ht with hsame | ⟨entry, hentry, hdata⟩
      · left
        rw [handedTxt, ← hsame]
        exact htxt
      · right
        rw [handedTxt, hentry, Option.map_some, Option.some.injEq] at htxt
        intro e he
        rw [← htxt, hdata] at he
        exact mem_encode hnet he
    | dnssd c => cases h
  | dnssd s =>
    cases c with
    | avahi c => cases h
    | dnssd c =>
      obtain ⟨t, ht, rfl⟩ := Option.map_eq_some_iff.mp h
      rcases Dnssd.handedOver_call ht with hsame | hrecord
      · left
        rw [handedTxt, ← hsame]
        exact htxt
      · right
        rw [handedTxt, hrecord, Option.map_some, Option.some.injEq] at htxt
        intro e he
        rw [← htxt] at he
        exact mem_createTXTRecord hnet he

/-- What is announced is the present data. -/
def Current (env : Avahi.Env) : Party → Prop
  | avahi s => Avahi.Current env s
  | dnssd s => Dnssd.Current s

theorem call_current (hnet : net.Documented) (hp : p.Current net.env)
    (h : p.call net.env c = some p') : p'.Current net.env := by
  cases p with
  | avahi s =>
    cases c with
    | avahi c =>
      obtain ⟨t, ht, rfl⟩ := Option.map_eq_some_iff.mp h
      refine Avahi.current_call hp ?_ ht
      cases c with
      | op op =>
        cases op with
        | announce port instanceName c polls =>
          rw [Avahi.Call.Named, Avahi.Op.Named, Avahi.Env.effectiveName]
          split
          · exact hnet.hostname
          · assumption
        | _ => trivial
      | _ => trivial
    | dnssd c => cases h
  | dnssd s =>
    cases c with
    | avahi c => cases h
    | dnssd c =>
      obtain ⟨t, ht, rfl⟩ := Option.map_eq_some_iff.mp h
      exact Dnssd.current_call hp ht

/-- The record of an announced party, read by either backend, is its data. -/
theorem Current.handedTxt (hnet : net.Documented) (hp : p.Current net.env)
    (hann : p.isAnnounced = true) (hdata : Announceable p.impl.data) :
    ∃ txt, p.handedTxt net = some txt ∧
      ∀ b : Backend, (txt.map b.read).Perm p.impl.data.toList := by
  cases p with
  | avahi s =>
    refine ⟨net.env.encode s.data, ?_, fun b => hdata.encode_eq hnet b⟩
    rw [Party.handedTxt, (Avahi.Current.handed hp hann).2]
    rfl
  | dnssd s =>
    refine ⟨_, ?_, fun b => hdata.setAll_eq hnet b⟩
    have hcurrent : s.handed = some (Dnssd.createTXTRecord s.data) := hp hann
    rw [Party.handedTxt, hcurrent]
    rfl

theorem Fresh.current (env : Avahi.Env) (h : p.Fresh) : p.Current env := by
  obtain ⟨name, rfl | rfl⟩ := h
  · exact ⟨nofun, fun _ => rfl⟩
  · exact nofun

theorem Fresh.handedTxt (h : p.Fresh) : p.handedTxt net = none := by
  obtain ⟨name, rfl | rfl⟩ := h <;> rfl

theorem Fresh.impl (h : p.Fresh) : p.impl.instanceMap = ∅ ∧ p.impl.data = ∅ := by
  obtain ⟨name, rfl | rfl⟩ := h <;> exact ⟨rfl, rfl⟩

end Party

/-! ## The invariant -/

theorem authentic_mono {published published' : List Published} {b : Backend} {e : Effect}
    (h : Authentic published b e) (hsub : published ⊆ published') : Authentic published' b e := by
  unfold Authentic at h ⊢
  split at h
  · obtain ⟨p, hp, hread⟩ := h
    exact ⟨p, hsub hp, hread⟩
  · trivial

namespace World

variable {net : Net} {start : Nat → Party} {w w' : World}

/-- The pair was set on party number `i`. -/
def Assigned (w : World) (i : Nat) (kv : Str × Str) : Prop := .set kv.1 kv.2 ∈ w.logOf i

/-- In a run from `start`: each party is what its log makes of it; what is handed over and what was
published was set on its party before; and what the parties were told is authentic. -/
structure Inv (net : Net) (start : Nat → Party) (w : World) : Prop where
  impl : ∀ i, (w.parties i).impl = (w.logOf i).foldl Impl.apply (start i).impl
  backend : ∀ i, (w.parties i).backend = (start i).backend
  handed : ∀ i txt, (w.parties i).handedTxt net = some txt → ∀ e ∈ txt,
    ∃ kv, w.Assigned i kv ∧ e = (start i).backend.wire kv
  published : ∀ r ∈ w.published, ∀ e ∈ r.txt,
    ∃ kv, w.Assigned r.party kv ∧ e = (start r.party).backend.wire kv
  authentic : ∀ i, ∀ e ∈ w.logOf i, Authentic w.published (start i).backend e

theorem inv_start (hstart : ∀ i, (start i).Fresh) : Inv net start { parties := start } where
  impl _ := rfl
  backend _ := rfl
  handed i txt h := by
    rw [(hstart i).handedTxt] at h
    cases h
  published r h := absurd h List.not_mem_nil
  authentic i e h := absurd h List.not_mem_nil

/-- The data of a party was set on it. -/
theorem assigned_of_mem_data {i : Nat} (hstart : (start i).Fresh)
    (himpl : (w.parties i).impl = (w.logOf i).foldl Impl.apply (start i).impl) {kv : Str × Str}
    (hkv : kv ∈ (w.parties i).impl.data.toList) : w.Assigned i kv := by
  have hvalue := Std.ExtTreeMap.mem_toList_iff_getElem?_eq_some.mp hkv
  rw [himpl, data_foldl_apply, hstart.impl.2, getElem?_assignAll_empty] at hvalue
  obtain ⟨e, he, hkv⟩ := List.mem_filterMap.mp (mem_of_lastValue hvalue)
  cases e with
  | set key value =>
    cases hkv
    exact he
  | clear | change | addListener | removeListener => cases hkv

/-- What a step of the network does. -/
theorem step_cases {i : Nat} {c : Call} (h : step net w (i, c) = some w') :
    ∃ p, (w.parties i).call net.env c = some p ∧ w'.parties = Function.update w.parties i p ∧
      w'.published = w.published ++ (p.handed net i).toList ∧
      w'.log = w.log ++ ((w.parties i).effects net.env c).map (i, ·) ∧
      ∀ e ∈ (w.parties i).effects net.env c, Authentic w'.published p.backend e := by
  obtain ⟨p, hp, h⟩ := Option.bind_eq_some_iff.mp h
  dsimp only at h
  split at h
  · rename_i hauth
    cases h
    exact ⟨p, hp, rfl, rfl, rfl, hauth⟩
  · cases h

theorem logOf_append {es : List Effect} {i : Nat} (h : w'.log = w.log ++ es.map (i, ·)) (j : Nat) :
    w'.logOf j = w.logOf j ++ if j = i then es else [] := by
  rw [logOf, h, List.filterMap_append, ← logOf, List.filterMap_map]
  congr 1
  by_cases hj : j = i
  · subst hj
    simp
  · have hij : i ≠ j := Ne.symm hj
    simp [hj, hij]

/-- A call keeps the invariant, whichever party it is on. -/
theorem inv_step (hnet : net.Documented) (hstart : ∀ i, (start i).Fresh) {ic : Nat × Call}
    (hw : Inv net start w) (h : step net w ic = some w') : Inv net start w' := by
  obtain ⟨i, c⟩ := ic
  obtain ⟨p, hp, hparties, hpublished, hlog, hauth⟩ := step_cases h
  have hlogOf := logOf_append hlog
  have hself : w'.parties i = p := by rw [hparties, Function.update_self]
  have hother : ∀ j, j ≠ i → w'.parties j = w.parties j := fun j hj => by
    rw [hparties, Function.update_of_ne hj]
  have himpl : ∀ j, (w'.parties j).impl = (w'.logOf j).foldl Impl.apply (start j).impl := by
    intro j
    rw [hlogOf]
    by_cases hj : j = i
    · subst hj
      rw [hself, if_pos rfl, List.foldl_append, ← hw.impl]
      exact Party.call_impl hp
    · rw [hother j hj, if_neg hj, List.append_nil, hw.impl]
  have hbackend : ∀ j, (w'.parties j).backend = (start j).backend := by
    intro j
    by_cases hj : j = i
    · subst hj
      rw [hself, Party.call_backend hp, hw.backend]
    · rw [hother j hj, hw.backend]
  have hassigned : ∀ j kv, w.Assigned j kv → w'.Assigned j kv := by
    intro j kv hkv
    rw [Assigned, hlogOf]
    exact List.mem_append_left _ hkv
  have hsub : w.published ⊆ w'.published := by
    rw [hpublished]
    exact List.subset_append_left _ _
  have hdata : ∀ kv ∈ (w'.parties i).impl.data.toList, w'.Assigned i kv :=
    fun kv hkv => assigned_of_mem_data (hstart i) (himpl i) hkv
  have hhanded : ∀ j txt, (w'.parties j).handedTxt net = some txt → ∀ e ∈ txt,
      ∃ kv, w'.Assigned j kv ∧ e = (start j).backend.wire kv := by
    intro j txt htxt e he
    by_cases hj : j = i
    · subst hj
      rw [hself] at htxt
      rcases Party.call_handedTxt hnet hp htxt with hold | hnew
      · obtain ⟨kv, hkv, rfl⟩ := hw.handed j txt hold e he
        exact ⟨kv, hassigned j kv hkv, rfl⟩
      · obtain ⟨kv, hkv, rfl⟩ := hnew e he
        rw [← hself] at hkv ⊢
        exact ⟨kv, hdata kv hkv, by rw [hbackend]⟩
    · rw [hother j hj] at htxt
      obtain ⟨kv, hkv, rfl⟩ := hw.handed j txt htxt e he
      exact ⟨kv, hassigned j kv hkv, rfl⟩
  refine ⟨himpl, hbackend, hhanded, fun r hr e he => ?_, fun j e he => ?_⟩
  · rw [hpublished] at hr
    rcases List.mem_append.mp hr with hr | hr
    · obtain ⟨kv, hkv, rfl⟩ := hw.published r hr e he
      exact ⟨kv, hassigned _ kv hkv, rfl⟩
    · obtain ⟨name, -, hr⟩ := Option.bind_eq_some_iff.mp (Option.mem_toList.mp hr)
      obtain ⟨txt, htxt, rfl⟩ := Option.map_eq_some_iff.mp hr
      rw [← hself] at htxt
      exact hhanded i txt htxt e he
  · rw [hlogOf] at he
    rcases List.mem_append.mp he with he | he
    · exact authentic_mono (hw.authentic j e he) hsub
    · by_cases hj : j = i
      · subst hj
        rw [if_pos rfl] at he
        rw [← hw.backend, ← Party.call_backend hp]
        exact hauth e he
      · rw [if_neg hj] at he
        cases he

theorem inv_run (hnet : net.Documented) (hstart : ∀ i, (start i).Fresh)
    {calls : List (Nat × Call)} (h : run (step net) { parties := start } calls = some w) :
    Inv net start w :=
  run_invariant h (fun _ _ _ _ hu hv => inv_step hnet hstart hu hv) (inv_start hstart)

/-! ## Integrity -/

/-- Apart from the host, what a party was told of an instance is what a party that published under
this name had been given. -/
theorem Inv.mem_known (hw : Inv net start w) {a : Nat} {n : Str} {es : List Effect}
    (hes : es ⊆ w.logOf a) : ∀ l ∈ es.foldl (known n) none, ∀ kv ∈ l,
      kv.1 = "servus_host".toList ∨ ∃ r ∈ w.published, r.name = n ∧
        ∃ kv', w.Assigned r.party kv' ∧
          (start a).backend.read ((start r.party).backend.wire kv') = kv := by
  refine forall_mem_known (fun host record hmem => ⟨.inl rfl, fun kv hkv => .inr ?_⟩) (by simp)
  obtain ⟨r, hr, hname, hperm⟩ := hw.authentic a _ (hes hmem)
  obtain ⟨e, he, rfl⟩ := List.mem_map.mp (hperm.subset hkv)
  obtain ⟨kv', hkv', rfl⟩ := hw.published r hr e he
  exact ⟨r, hr, hname, kv', hkv', rfl⟩

/-- The map of a party, by its log. -/
theorem Inv.getElem?_instanceMap (hw : Inv net start w) (hstart : ∀ i, (start i).Fresh) (a : Nat)
    (n : Str) : (w.parties a).impl.instanceMap[n]? =
      ((w.logOf a).foldl (known n) none).map (assignAll ∅) := by
  rw [hw.impl a]
  apply getElem?_foldl_apply
  rw [(hstart a).impl.1]
  exact Std.ExtTreeMap.getElem?_empty

/-- **No data is invented.** In every run of any number of objects of both backends on one network:
what an object lists under a key of an instance, the host apart, is what some object that handed
a record over under that name was given by `set`, as the one writes it into a TXT record and the
other reads it. -/
theorem integrity (hnet : net.Documented) (hstart : ∀ i, (start i).Fresh)
    {calls : List (Nat × Call)} (h : run (step net) { parties := start } calls = some w) {a : Nat}
    {n key : Str} (hkey : (w.parties a).impl.containsKey n key = true) :
    key = "servus_host".toList ∨ ∃ r ∈ w.published, r.name = n ∧ ∃ kv, w.Assigned r.party kv ∧
      (w.parties a).backend.read ((w.parties r.party).backend.wire kv) =
        (key, (w.parties a).impl.get n key) := by
  have hw := inv_run hnet hstart h
  have hgives := Impl.gives_of_getElem? (hw.getElem?_instanceMap hstart a n)
  obtain ⟨l, hl, hvalue⟩ := (hgives.containsKey key).mp hkey
  obtain ⟨value, hvalue⟩ := Option.isSome_iff_exists.mp hvalue
  have hget : (w.parties a).impl.get n key = value := by
    rw [hgives.get, hl, Option.bind_some, hvalue, Option.getD_some]
  rw [hget, hw.backend a]
  rcases hw.mem_known (List.Subset.refl _) l hl _ (mem_of_lastValue hvalue) with hhost | hset
  · exact .inl hhost
  · obtain ⟨r, hr, hname, kv, hkv, hread⟩ := hset
    exact .inr ⟨r, hr, hname, kv, hkv, by rw [hw.backend r.party]; exact hread⟩

/-! ## Convergence -/

theorem current_run (hnet : net.Documented) (hstart : ∀ i, (start i).Fresh)
    {calls : List (Nat × Call)} (h : run (step net) { parties := start } calls = some w) (i : Nat) :
    (w.parties i).Current net.env := by
  refine run_invariant (I := fun w : World => ∀ i, (w.parties i).Current net.env) h ?_
    (fun i => (hstart i).current net.env) i
  rintro u ⟨i, c⟩ v - hu hv j
  obtain ⟨p, hp, hparties, -⟩ := step_cases hv
  by_cases hj : j = i
  · subst hj
    rw [hparties, Function.update_self]
    exact Party.call_current hnet (hu j) hp
  · rw [hparties, Function.update_of_ne hj]
    exact hu j

/-- A key that was set stays a key of the data. -/
theorem Inv.mem_data_of_assigned (hw : Inv net start w) {i : Nat} {kv : Str × Str}
    (hkv : w.Assigned i kv) : kv.1 ∈ (w.parties i).impl.data := by
  have hmem : kv ∈ (w.logOf i).filterMap Effect.assigns := List.mem_filterMap.mpr ⟨_, hkv, rfl⟩
  rw [Std.ExtTreeMap.mem_iff_isSome_getElem?, hw.impl i, data_foldl_apply, getElem?_assignAll,
    Option.isSome_or, Option.isSome_map, List.isSome_find?]
  simp only [Bool.or_eq_true, List.any_eq_true]
  exact .inl ⟨kv, List.mem_reverse.mpr hmem, by simp⟩

/-- Of a name that is of party `b` only, no other keys are known than those of its data. -/
theorem Inv.keys_known (hw : Inv net start w) {a b : Nat} {n : Str}
    (hkeys : ∀ key ∈ (w.parties b).impl.data, Dnssd.ValidKey key)
    (honly : ∀ r ∈ w.published, r.name = n → r.party = b) {es : List Effect}
    (hes : es ⊆ w.logOf a) : ∀ kv ∈ (es.foldl (known n) none).getD [],
      kv.1 = "servus_host".toList ∨ kv.1 ∈ (w.parties b).impl.data := by
  intro kv hkv
  obtain ⟨l, hl, hkv⟩ : ∃ l ∈ es.foldl (known n) none, kv ∈ l := by
    cases hl : es.foldl (known n) none with
    | none => rw [hl] at hkv; cases hkv
    | some l => rw [hl] at hkv; exact ⟨l, rfl, hkv⟩
  refine (hw.mem_known hes l hl kv hkv).imp_right ?_
  rintro ⟨r, hr, hname, kv', hkv', rfl⟩
  obtain rfl := honly r hr hname
  have hmem := hw.mem_data_of_assigned hkv'
  rwa [read_wire_key _ _ (hkeys _ hmem)]

/-- A record that has all keys that were known before it leaves no trace of them. -/
theorem getElem?_assignAll_record {data : ValueMap} {prev items : List (Str × Str)} (host : Str)
    (hprev : ∀ kv ∈ prev, kv.1 = "servus_host".toList ∨ kv.1 ∈ data)
    (hitems : items.Perm data.toList) (k : Str) :
    (assignAll (∅ : ValueMap) (prev ++ ("servus_host".toList, host) :: items))[k]? =
      data[k]?.or (if k = "servus_host".toList then some host else none) := by
  rw [List.append_cons, assignAll_append, getElem?_assignAll_bindings _ _ fun kv => hitems.mem_iff]
  cases hk : data[k]? with
  | some value => rfl
  | none =>
    have hold : k ≠ "servus_host".toList → (assignAll (∅ : ValueMap) prev)[k]? = none := by
      intro hhost
      rw [getElem?_assignAll_empty, Option.eq_none_iff_forall_ne_some]
      intro value hvalue
      have hmem := (hprev (k, value) (mem_of_lastValue hvalue)).resolve_left hhost
      rw [Std.ExtTreeMap.mem_iff_isSome_getElem?, hk] at hmem
      cases hmem
    have hinsert : (assignAll (assignAll (∅ : ValueMap) prev) [("servus_host".toList, host)])[k]? =
        if compare "servus_host".toList k = .eq then some host
        else (assignAll (∅ : ValueMap) prev)[k]? := Std.ExtTreeMap.getElem?_insert
    rw [Option.none_or, Option.none_or, assignAll_append, hinsert]
    by_cases hhost : k = "servus_host".toList
    · rw [if_pos (Std.compare_eq_iff_eq.mpr hhost.symm), if_pos hhost]
    · rw [if_neg (mt Std.compare_eq_iff_eq.mp (Ne.symm hhost)), if_neg hhost]
      exact hold hhost

/-- Where a name is of party `b` only, the last news of it, its present record, leaves its data. -/
theorem Inv.getElem?_latest (hw : Inv net start w) (hnet : net.Documented)
    (hstart : ∀ i, (start i).Fresh) {a b : Nat} {n host : Str} {items : List (Str × Str)}
    {before after : List Effect} {txt : List Str} (hcurrent : (w.parties b).Current net.env)
    (hann : (w.parties b).isAnnounced = true) (htxt : (w.parties b).handedTxt net = some txt)
    (hdata : Announceable (w.parties b).impl.data)
    (honly : ∀ r ∈ w.published, r.name = n → r.party = b)
    (hlog : w.logOf a = before ++ .change (.resolved n host items) :: after)
    (hafter : ∀ e ∈ after, e.concerns n = false)
    (hitems : items.Perm (txt.map (w.parties a).backend.read)) :
    ∃ values, (w.parties a).impl.instanceMap[n]? = some values ∧ ∀ k : Str, values[k]? =
      (w.parties b).impl.data[k]?.or (if k = "servus_host".toList then some host else none) := by
  -- the items of the record are the present data
  obtain ⟨txt', htxt', hread⟩ := hcurrent.handedTxt hnet hann hdata
  obtain rfl : txt' = txt := Option.some.inj (htxt'.symm.trans htxt)
  have hperm := hitems.trans (hread _)
  have hbefore : before ⊆ w.logOf a := by
    rw [hlog]
    exact List.subset_append_left _ _
  have hknown : (w.logOf a).foldl (known n) none =
      some ((before.foldl (known n) none).getD [] ++ ("servus_host".toList, host) :: items) := by
    rw [hlog, List.foldl_append, List.foldl_cons, foldl_known_of_not_concerns hafter, known,
      if_pos rfl]
  refine ⟨_, (hw.getElem?_instanceMap hstart a n).trans (congrArg _ hknown), fun k => ?_⟩
  exact getElem?_assignAll_record host (hw.keys_known hdata.keys.valid honly hbefore) hperm k

/-- **The latest record is what counts.** In every run of any number of objects of both backends on
one network, where a name is of one object, which is announced with data that a TXT record can
have: an object whose last news of the name is the present record lists it with exactly this
data, beside the host. Older records that it was told before, in whatever order, leave no trace,
because keys are never taken back. -/
theorem converges (hnet : net.Documented) (hstart : ∀ i, (start i).Fresh)
    {calls : List (Nat × Call)} (h : run (step net) { parties := start } calls = some w)
    {a b : Nat} {n host : Str} {items : List (Str × Str)} {before after : List Effect}
    {txt : List Str} (hann : (w.parties b).isAnnounced = true)
    (htxt : (w.parties b).handedTxt net = some txt)
    (hdata : Announceable (w.parties b).impl.data)
    (honly : ∀ r ∈ w.published, r.name = n → r.party = b)
    (hlog : w.logOf a = before ++ .change (.resolved n host items) :: after)
    (hafter : ∀ e ∈ after, e.concerns n = false)
    (hitems : items.Perm (txt.map (w.parties a).backend.read)) :
    ∃ values, (w.parties a).impl.instanceMap[n]? = some values ∧ ∀ k : Str, values[k]? =
      (w.parties b).impl.data[k]?.or (if k = "servus_host".toList then some host else none) :=
  (inv_run hnet hstart h).getElem?_latest hnet hstart (current_run hnet hstart h b) hann htxt hdata
    honly hlog hafter hitems

/-! ## One announces with avahi and one browses with dnssd -/

/-- The libraries as documented. -/
def documented : Net where
  env := .documented "h".toList
  lib := .plain
  registered _ instanceName := instanceName.getD []

theorem documented_documented : documented.Documented where
  hostname := by simp [documented, Avahi.Env.documented]
  addPair _ _ _ := rfl
  lib := Dnssd.documented_plain
  setValue record key valueSize value item hitem := by
    rw [documented, Dnssd.TXTLib.plain] at hitem
    dsimp only at hitem
    split at hitem
    · rcases List.mem_append.mp hitem with hitem | hitem
      · exact .inl hitem
      · exact .inr (List.mem_singleton.mp hitem)
    · exact .inl hitem

def twoParties : Nat → Party
  | 0 => .avahi { name := "_t._tcp".toList }
  | _ => .dnssd { name := "_t._tcp".toList }

theorem fresh_twoParties (i : Nat) : (twoParties i).Fresh := by
  cases i with
  | zero => exact ⟨_, .inl rfl⟩
  | succ i => exact ⟨_, .inr rfl⟩

/-- A browse in which the record of `x` is resolved. -/
def resolving (items : List (Str × Str)) : Nat × Call :=
  (1, .dnssd (.op (.browse 3 [.ready true
    [⟨0, true, "x".toList, 0, true, 4, [.ready true [⟨0, "h".toList, items⟩] 0]⟩] 0, .timeout])))

/-- A value is changed between two resolves. -/
def changedBetween : List (Nat × Call) :=
  [(0, .avahi (.op (.callback (.client .S_RUNNING 0 ⟨true, 0, 0⟩)))),
    (0, .avahi (.op (.set "k".toList "v".toList ⟨true, 0, 0⟩))),
    (0, .avahi (.op (.announce 80 "x".toList ⟨true, 0, 0⟩ []))),
    (1, .dnssd (.op (.beginBrowsing 0 true))), resolving [("k".toList, "v".toList)],
    (0, .avahi (.op (.set "l".toList "u".toList ⟨true, 0, 0⟩))),
    (0, .avahi (.op (.set "k".toList "w".toList ⟨true, 0, 0⟩))),
    resolving [("l".toList, "u".toList), ("k".toList, "w".toList)]]

theorem integrity_changedBetween :
    ∃ w, run (step documented) { parties := twoParties } changedBetween = some w ∧
      ∃ r ∈ w.published, r.name = "x".toList ∧ ∃ kv, w.Assigned r.party kv ∧
        (w.parties 1).backend.read ((w.parties r.party).backend.wire kv) =
          ("l".toList, (w.parties 1).impl.get "x".toList "l".toList) := by
  obtain ⟨w, hw⟩ : ∃ w, run (step documented) { parties := twoParties } changedBetween = some w :=
    Option.isSome_iff_exists.mp (by decide)
  have hkey : ∀ w ∈ run (step documented) { parties := twoParties } changedBetween,
      (w.parties 1).impl.containsKey "x".toList "l".toList = true := by decide
  exact ⟨w, hw, (integrity documented_documented fresh_twoParties hw (hkey w hw)).resolve_left
    (by decide)⟩

/-- What the two objects have come to. -/
structure ChangedBetween (w : World) : Prop where
  isAnnounced : (w.parties 0).isAnnounced = true
  handedTxt : (w.parties 0).handedTxt documented = some ["l=u".toList, "k=w".toList]
  announceable : Announceable (w.parties 0).impl.data
  published : ∀ r ∈ w.published, r.name = "x".toList → r.party = 0
  logOf : w.logOf 1 =
    [.clear, .change (.resolved "x".toList "h".toList [("k".toList, "v".toList)])] ++
      .change (.resolved "x".toList "h".toList
        [("l".toList, "u".toList), ("k".toList, "w".toList)]) :: []
  backend : (w.parties 1).backend = .dnssd

theorem changedBetween_run {w : World}
    (hw : run (step documented) { parties := twoParties } changedBetween = some w) :
    ChangedBetween w := by
  have hgood : ∀ w ∈ run (step documented) { parties := twoParties } changedBetween,
      (w.parties 0).isAnnounced = true ∧
      (w.parties 0).handedTxt documented = some ["l=u".toList, "k=w".toList] ∧
      (∀ r ∈ w.published, r.name = "x".toList → r.party = 0) ∧
      w.logOf 1 = [.clear, .change (.resolved "x".toList "h".toList [("k".toList, "v".toList)])] ++
        .change (.resolved "x".toList "h".toList
          [("l".toList, "u".toList), ("k".toList, "w".toList)]) :: [] ∧
      (w.parties 1).backend = .dnssd := by decide
  have hkeys : ∀ w ∈ run (step documented) { parties := twoParties } changedBetween,
      (w.parties 0).impl.data.keys = ["k".toList, "l".toList] := by decide
  have hdata : ∀ w ∈ run (step documented) { parties := twoParties } changedBetween,
      (∀ kv ∈ (w.parties 0).impl.data.toList, Dnssd.Fits kv) ∧
      (∀ kv ∈ (w.parties 0).impl.data.toList, '\x00' ∉ kv.2) ∧
      Dnssd.recordSize ((w.parties 0).impl.data.toList.map Dnssd.announcedItem) ≤ 65535 := by
    decide
  obtain ⟨hann, htxt, hpublished, hlog, hbackend⟩ := hgood w hw
  obtain ⟨hfits, hnul, hsize⟩ := hdata w hw
  exact ⟨hann, htxt, ⟨Dnssd.announcedKeys_of_keys (hkeys w hw), hfits, hnul, hsize⟩, hpublished,
    hlog, hbackend⟩

theorem converges_changedBetween :
    ∃ w, run (step documented) { parties := twoParties } changedBetween = some w ∧
      ∃ values, (w.parties 1).impl.instanceMap["x".toList]? = some values ∧
        ∀ k : Str, values[k]? = (w.parties 0).impl.data[k]?.or
          (if k = "servus_host".toList then some "h".toList else none) := by
  obtain ⟨w, hw⟩ : ∃ w, run (step documented) { parties := twoParties } changedBetween = some w :=
    Option.isSome_iff_exists.mp (by decide)
  have hgood := changedBetween_run hw
  exact ⟨w, hw, converges documented_documented fresh_twoParties hw hgood.isAnnounced
    hgood.handedTxt hgood.announceable hgood.published hgood.logOf (by simp)
    (by rw [hgood.backend]; decide)⟩

end World

end Servus.Network
