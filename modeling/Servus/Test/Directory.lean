import Servus.Test.Model

/-!
# The shared directory of the test driver

`Inv` ties the directory to the objects. `step_cases` says what a call changes: only its own
object, and the directory only in `announce`, `withdraw` and the destructor. `published` is what
the announced objects show, in directory order, and `browse` turns it into its map
(`browse_cases`), so that what a browse finds does not depend on who browses.
-/

namespace Servus.Test

open Cpp

/-! ## What a call changes -/

namespace Sys

@[simp] theorem put_objects (s : Sys) (a b : Nat) (o : Service) :
    (s.put a o).objects[b]? = if a = b then some o else s.objects[b]? := by
  simp [put, Std.ExtTreeMap.getElem?_insert]

@[simp] theorem put_directory (s : Sys) (a : Nat) (o : Service) :
    (s.put a o).directory = s.directory := rfl

theorem put_put (s : Sys) (a : Nat) (o o' : Service) : (s.put a o).put a o' = s.put a o' := by
  have hobj : ((s.put a o).put a o').objects = (s.put a o').objects := by
    refine Std.ExtTreeMap.ext_getElem? fun b => ?_
    simp only [put_objects]
    split <;> rfl
  rw [put, put, put] at *
  simpa using hobj

theorem put_self {s : Sys} {a : Nat} {o : Service} (h : s.objects[a]? = some o) :
    s.put a o = s := by
  have hobj : (s.put a o).objects = s.objects := by
    refine Std.ExtTreeMap.ext_getElem? fun b => ?_
    rw [put_objects]
    split
    · rename_i hb; rw [← hb, h]
    · rfl
  cases s
  simpa [put] using hobj

/-- What the objects in the directory show, in directory order. -/
def published (s : Sys) : List (Str × ValueMap) :=
  s.directory.toList.filterMap fun i => s.objects[i]?.map fun o => (o.instanceName, o.values)

/-- The name that an event about the object at `i` carries. -/
def nameOf (s : Sys) (i : Nat) : Str := (s.objects[i]?.map (·.instanceName)).getD []

/-- The event about the object at `i`, when `seen` are the objects seen before. -/
def change (s : Sys) (seen : Std.ExtTreeSet Nat) (i : Nat) : Event :=
  if i ∉ seen then .instanceAdded (s.nameOf i) else .instanceRemoved (s.nameOf i)

/-- The events of a browse. -/
def changes (s : Sys) (seen : Std.ExtTreeSet Nat) : List Event :=
  (setSymmetricDifference s.directory.toList seen.toList).map (s.change seen)

end Sys

/-- `o'` announces as `o` does. -/
structure SameAnnouncement (o o' : Service) : Prop where
  announced : o'.announced = o.announced
  instanceName : o'.instanceName = o.instanceName
  data : o'.data = o.data

theorem SameAnnouncement.rfl {o : Service} : SameAnnouncement o o := ⟨.refl _, .refl _, .refl _⟩

theorem SameAnnouncement.trans {o p q : Service} (h : SameAnnouncement o p)
    (h' : SameAnnouncement p q) : SameAnnouncement o q :=
  ⟨h'.announced.trans h.announced, h'.instanceName.trans h.instanceName, h'.data.trans h.data⟩

theorem SameAnnouncement.values {o o' : Service} (h : SameAnnouncement o o') :
    o'.values = o.values := by rw [Service.values, Service.values, h.data]

/-- The directory holds exactly the live objects that are announced, and an object that is not
announced has no name. -/
structure Inv (s : Sys) : Prop where
  directory : ∀ a, a ∈ s.directory ↔ ∃ o : Service, s.objects[a]? = some o ∧ o.announced = true
  unnamed : ∀ (a : Nat) (o : Service), s.objects[a]? = some o → o.announced = false →
    o.instanceName = []

theorem Inv.live {s : Sys} (h : Inv s) {a : Nat} (ha : a ∈ s.directory) :
    ∃ o, s.objects[a]? = some o := by
  obtain ⟨o, ho, -⟩ := (h.directory a).mp ha
  exact ⟨o, ho⟩

theorem inv_init : Inv {} :=
  ⟨by simp, by simp⟩

/-- A call that changes one object has to establish the invariant there only. -/
theorem Inv.update {s s' : Sys} (h : Inv s) (a : Nat)
    (hobj : ∀ b, a ≠ b → s'.objects[b]? = s.objects[b]?)
    (hdir : ∀ b, a ≠ b → (b ∈ s'.directory ↔ b ∈ s.directory))
    (hself : a ∈ s'.directory ↔ ∃ o : Service, s'.objects[a]? = some o ∧ o.announced = true)
    (hname : ∀ o : Service, s'.objects[a]? = some o → o.announced = false → o.instanceName = []) :
    Inv s' where
  directory b := by
    by_cases hb : a = b
    · exact hb ▸ hself
    · rw [hdir b hb, hobj b hb]; exact h.directory b
  unnamed b p hp := by
    by_cases hb : a = b
    · subst hb; exact hname p hp
    · exact h.unnamed b p (hobj b hb ▸ hp)

theorem Inv.put {s : Sys} (h : Inv s) {a : Nat} {o o' : Service} (ho : s.objects[a]? = some o)
    (ha : o'.announced = o.announced) (hn : o'.instanceName = o.instanceName) :
    Inv (s.put a o') := by
  refine h.update a (fun b hb => by simp [hb]) (fun b _ => Iff.rfl) ?_ fun p hp => ?_
  · rw [Sys.put_directory, h.directory]
    simp [ho, ha]
  · obtain rfl : o' = p := by simpa using hp
    rw [ha, hn]
    exact h.unnamed a o ho

theorem Inv.put_same {s : Sys} (h : Inv s) {a : Nat} {o o' : Service}
    (ho : s.objects[a]? = some o) (hs : SameAnnouncement o o') : Inv (s.put a o') :=
  h.put ho hs.announced hs.instanceName

/-- Keeping the announcement keeps what the directory shows. -/
theorem published_put_same {s : Sys} {a : Nat} {o o' : Service} (ho : s.objects[a]? = some o)
    (hs : SameAnnouncement o o') : (s.put a o').published = s.published := by
  refine List.filterMap_congr fun b _ => ?_
  rw [Sys.put_objects]
  by_cases hb : a = b
  · subst hb; simp [ho, hs.instanceName, hs.values]
  · simp [hb]

/-! ## The loops of `browse` -/

theorem discovered_eq {s : Sys} (h : ∀ a ∈ s.directory, ∃ o, s.objects[a]? = some o) :
    s.discovered = some (assignAll ∅ s.published) := by
  have hfold : ∀ (l : List Nat) (m : InstanceMap), (∀ a ∈ l, ∃ o, s.objects[a]? = some o) →
      l.foldlM (fun m i => do
        let o ← s.objects[i]?
        some (m.insert o.instanceName o.values)) m =
      some (assignAll m (l.filterMap fun i =>
        s.objects[i]?.map fun o => (o.instanceName, o.values))) := by
    intro l
    induction l with
    | nil => intro m _; rfl
    | cons a l ih =>
      intro m hl
      obtain ⟨o, ho⟩ := hl a List.mem_cons_self
      rw [List.foldlM_cons, ho, List.filterMap_cons, ho]
      exact ih _ fun b hb => hl b (List.mem_cons_of_mem a hb)
  exact hfold _ _ fun a ha => h a (Std.ExtTreeSet.mem_toList.mp ha)

/-- `o'` is `o` after calls about the objects in `l`, each made once. -/
structure Reported (s : Sys) (o o' : Service) (l : List Nat) : Prop where
  instances : ∀ x, x ∈ o'.instances ↔ (x ∈ l ∧ x ∉ o.instances) ∨ (x ∉ l ∧ x ∈ o.instances)
  instanceMap : o'.instanceMap = o.instanceMap
  listeners : o'.listeners = o.listeners
  browsing : o'.browsing = o.browsing
  same : SameAnnouncement o o'
  heard : ∀ listener ∈ o.listeners,
    heard listener o'.calls = heard listener o.calls ++ l.map (s.change o.instances)

theorem tell_cases {s : Sys} {o o' : Service} {i : Nat} {event : Str → Event}
    (h : s.tell o i event = some o') :
    o' = { o with calls := o'.calls } ∧ ∀ listener ∈ o.listeners,
      heard listener o'.calls = heard listener o.calls ++ [event (s.nameOf i)] := by
  unfold Sys.tell at h
  split at h
  · rename_i hempty
    cases h
    refine ⟨rfl, fun listener hl => ?_⟩
    rw [Std.ExtTreeSet.isEmpty_iff.mp hempty] at hl
    exact absurd hl Std.ExtTreeSet.not_mem_empty
  · obtain ⟨p, hp, h⟩ := Option.bind_eq_some_iff.mp h
    cases h
    refine ⟨rfl, fun listener hl => ?_⟩
    rw [heard_notify, if_pos hl, Sys.nameOf, hp]
    rfl

theorem report_reported {s : Sys} {o o' : Service} {i : Nat} (h : s.report o i = some o') :
    Reported s o o' [i] := by
  unfold Sys.report at h
  split at h
  · rename_i hi
    obtain ⟨heq, hheard⟩ := tell_cases h
    rw [heq]
    refine ⟨fun x => ?_, rfl, rfl, rfl, ⟨rfl, rfl, rfl⟩, fun listener hl => ?_⟩
    · simp only [Std.ExtTreeSet.mem_insert, List.mem_singleton]
      grind
    · rw [hheard listener hl, List.map_singleton, Sys.change, if_pos hi]
  · rename_i hi
    obtain ⟨o1, ho1, h⟩ := Option.bind_eq_some_iff.mp h
    cases h
    obtain ⟨heq, hheard⟩ := tell_cases ho1
    rw [heq]
    refine ⟨fun x => ?_, rfl, rfl, rfl, ⟨rfl, rfl, rfl⟩, fun listener hl => ?_⟩
    · simp only [Std.ExtTreeSet.mem_erase, List.mem_singleton]
      grind
    · rw [hheard listener hl, List.map_singleton, Sys.change, if_neg hi]

/-- The second loop reports each object once, by whether it was seen before the loop. -/
theorem foldlM_report {s : Sys} {l : List Nat} {o o' : Service} (hn : l.Nodup)
    (h : l.foldlM s.report o = some o') : Reported s o o' l := by
  induction l generalizing o with
  | nil =>
    cases h
    exact ⟨by simp, rfl, rfl, rfl, .rfl, by simp⟩
  | cons i l ih =>
    obtain ⟨hi, hn⟩ := List.nodup_cons.mp hn
    obtain ⟨o1, ho1, h⟩ := Option.bind_eq_some_iff.mp h
    have h1 := report_reported ho1
    have h2 := ih hn h
    refine ⟨fun x => ?_, h2.instanceMap.trans h1.instanceMap, h2.listeners.trans h1.listeners,
      h2.browsing.trans h1.browsing, h1.same.trans h2.same, fun listener hl => ?_⟩
    · rw [h2.instances, h1.instances]
      grind
    · have hmap : l.map (s.change o1.instances) = l.map (s.change o.instances) := by
        refine List.map_congr_left fun x hx => ?_
        have hx1 : x ∈ o1.instances ↔ x ∈ o.instances := by rw [h1.instances]; grind
        simp only [Sys.change, hx1]
      rw [h2.heard listener (by rwa [h1.listeners]), h1.heard listener hl, hmap]
      simp

/-- The second loop has a result unless it reads an object that is gone. -/
theorem foldlM_report_isSome {s : Sys} {l : List Nat} {o : Service}
    (h : o.listeners = ∅ ∨ ∀ i ∈ l, ∃ p, s.objects[i]? = some p) :
    ∃ o', l.foldlM s.report o = some o' := by
  induction l generalizing o with
  | nil => exact ⟨o, rfl⟩
  | cons i l ih =>
    have htell : ∀ o : Service, ∀ event, (o.listeners = ∅ ∨ ∃ p, s.objects[i]? = some p) →
        ∃ o', s.tell o i event = some o' := by
      intro o event ho
      unfold Sys.tell
      split
      · exact ⟨o, rfl⟩
      · rename_i hne
        rcases ho with ho | ⟨p, hp⟩
        · simp [ho] at hne
        · rw [hp]; exact ⟨_, rfl⟩
    obtain ⟨o1, ho1⟩ : ∃ o1, s.report o i = some o1 := by
      unfold Sys.report
      split
      · exact htell _ _ (h.imp_right fun h => h i List.mem_cons_self)
      · obtain ⟨o1, ho1⟩ := htell o .instanceRemoved (h.imp_right fun h => h i List.mem_cons_self)
        exact ⟨_, by rw [ho1]; rfl⟩
    have hl : o1.listeners = ∅ ∨ ∀ i ∈ l, ∃ p, s.objects[i]? = some p := by
      rw [(report_reported ho1).listeners]
      exact h.imp_right fun h j hj => h j (List.mem_cons_of_mem i hj)
    rw [List.foldlM_cons, ho1]
    exact ih hl

theorem toList_pairwise_lt (t : Std.ExtTreeSet Nat) : t.toList.Pairwise (· < ·) :=
  Std.ExtTreeSet.ordered_toList.imp fun h => Nat.compare_eq_lt.mp h

/-! ## `browse` -/

/-- `o'` is `o` after a `browse` in the state `s`. -/
structure Browsed (s : Sys) (o o' : Service) : Prop where
  instances : o'.instances = s.directory
  instanceMap : o'.instanceMap = assignAll ∅ s.published
  listeners : o'.listeners = o.listeners
  browsing : o'.browsing = o.browsing
  same : SameAnnouncement o o'
  heard : ∀ listener ∈ o.listeners,
    heard listener o'.calls = heard listener o.calls ++ s.changes o.instances

theorem browse_cases {s s' : Sys} {a : Nat} {r : Result} (hinv : Inv s)
    (h : s.browse a = some (r, s')) :
    ∃ o o', s.objects[a]? = some o ∧ r = Result.SUCCESS ∧ s' = s.put a o' ∧ Browsed s o o' := by
  unfold Sys.browse at h
  obtain ⟨o, ho, h⟩ := Option.bind_eq_some_iff.mp h
  rw [discovered_eq fun b hb => hinv.live hb] at h
  simp only [Option.bind_eq_bind, Option.bind_some] at h
  obtain ⟨o', ho', h⟩ := Option.bind_eq_some_iff.mp h
  cases h
  have hdir := toList_pairwise_lt s.directory
  have hseen := toList_pairwise_lt o.instances
  have hrep := foldlM_report (nodup_setSymmetricDifference hdir hseen) ho'
  refine ⟨o, o', ho, rfl, rfl, ?_, hrep.instanceMap, hrep.listeners, hrep.browsing,
    ⟨hrep.same.announced, hrep.same.instanceName, hrep.same.data⟩, hrep.heard⟩
  refine Std.ExtTreeSet.ext_mem fun x => ?_
  rw [hrep.instances, mem_setSymmetricDifference hdir hseen, Std.ExtTreeSet.mem_toList,
    Std.ExtTreeSet.mem_toList]
  grind

/-- `browse` has a result unless it would tell a listener about an object that is gone. -/
theorem browse_isSome {s : Sys} {a : Nat} {o : Service} (hinv : Inv s)
    (ho : s.objects[a]? = some o)
    (hlive : o.listeners = ∅ ∨ ∀ i ∈ o.instances, ∃ p, s.objects[i]? = some p) :
    ∃ s', s.browse a = some (Result.SUCCESS, s') := by
  have hdir := toList_pairwise_lt s.directory
  have hseen := toList_pairwise_lt o.instances
  obtain ⟨o', ho'⟩ := foldlM_report_isSome (s := s)
    (l := setSymmetricDifference s.directory.toList o.instances.toList)
    (o := { o with instanceMap := assignAll ∅ s.published }) (hlive.imp_right fun h i hi => by
      rw [mem_setSymmetricDifference hdir hseen, Std.ExtTreeSet.mem_toList,
        Std.ExtTreeSet.mem_toList] at hi
      rcases hi with ⟨hi, -⟩ | ⟨hi, -⟩
      · exact hinv.live hi
      · exact h i hi)
  refine ⟨s.put a o', ?_⟩
  unfold Sys.browse
  rw [ho, discovered_eq fun b hb => hinv.live hb]
  simp only [Option.bind_eq_bind, Option.bind_some]
  rw [ho']
  rfl

theorem beginBrowsing_cases {s s' : Sys} {a : Nat} {r : Result}
    (h : s.beginBrowsing a = some (r, s')) :
    ∃ o o', s.objects[a]? = some o ∧ s' = s.put a o' ∧ SameAnnouncement o o' ∧
      o'.listeners = o.listeners ∧ o'.calls = o.calls ∧ (r = Result.PENDING ∧ o' = o ∨
        r = Result.SUCCESS ∧ o.browsing = false ∧ o'.instances = ∅ ∧ o'.browsing = true) := by
  unfold Sys.beginBrowsing at h
  obtain ⟨o, ho, h⟩ := Option.bind_eq_some_iff.mp h
  split at h
  · cases h
    exact ⟨o, o, ho, (Sys.put_self ho).symm, .rfl, rfl, rfl, .inl ⟨rfl, rfl⟩⟩
  · rename_i hb
    cases h
    exact ⟨o, _, ho, rfl, ⟨rfl, rfl, rfl⟩, rfl, rfl, .inr ⟨rfl, by simpa using hb, rfl, rfl⟩⟩

theorem endBrowsing_cases {s s' : Sys} {a : Nat} (h : s.endBrowsing a = some s') :
    ∃ o, s.objects[a]? = some o ∧ s' = s.put a { o with browsing := false, instances := ∅ } := by
  obtain ⟨o, ho, h⟩ := Option.bind_eq_some_iff.mp h
  cases h
  exact ⟨o, ho, rfl⟩

/-- `discover` begins a session, if there is none, browses once, and ends a session it began. -/
theorem discover_cases {s s' : Sys} {a : Nat} {names : List Str} (hinv : Inv s)
    (h : s.discover a = some (names, s')) :
    ∃ o o', s.objects[a]? = some o ∧ s' = s.put a o' ∧ names = o'.getInstances ∧
      o'.instanceMap = assignAll ∅ s.published ∧ SameAnnouncement o o' ∧
      o'.listeners = o.listeners := by
  unfold Sys.discover at h
  obtain ⟨⟨res, s1⟩, h1, h⟩ := Option.bind_eq_some_iff.mp h
  obtain ⟨s3, h3, h⟩ := Option.bind_eq_some_iff.mp h
  obtain ⟨p, hp, h⟩ := Option.bind_eq_some_iff.mp h
  cases h
  obtain ⟨o, o1, ho, rfl, hsame1, hl1, -, hres⟩ := beginBrowsing_cases h1
  have hinv1 := hinv.put_same ho hsame1
  have hpub1 := published_put_same ho hsame1
  have hres' : res = Result.SUCCESS ∨ res = Result.PENDING :=
    hres.elim (fun h => .inr h.1) fun h => .inl h.1
  rw [Sys.discoverFrom, if_pos hres'] at h3
  obtain ⟨⟨r, s2⟩, h2, h3⟩ := Option.bind_eq_some_iff.mp h3
  obtain ⟨o1', o2, ho1, -, rfl, hb⟩ := browse_cases hinv1 h2
  obtain rfl : o1 = o1' := by simpa using ho1
  rw [Sys.put_put] at h3
  have hmap2 := hb.instanceMap
  rw [hpub1] at hmap2
  dsimp only at h3
  -- only a session that was begun here is ended
  obtain ⟨o3, rfl, hmap, hl3, hsame3⟩ : ∃ o3, s' = s.put a o3 ∧
      o3.instanceMap = o2.instanceMap ∧ o3.listeners = o2.listeners ∧ SameAnnouncement o2 o3 := by
    split at h3
    · obtain ⟨o2', ho2, rfl⟩ := endBrowsing_cases h3
      obtain rfl : o2 = o2' := by simpa using ho2
      exact ⟨_, Sys.put_put .., rfl, rfl, ⟨rfl, rfl, rfl⟩⟩
    · cases h3
      exact ⟨o2, rfl, rfl, rfl, .rfl⟩
  obtain rfl : o3 = p := by simpa using hp
  exact ⟨o, o3, ho, rfl, rfl, hmap.trans hmap2, (hsame1.trans hb.same).trans hsame3,
    hl3.trans (hb.listeners.trans hl1)⟩

theorem discover_isSome {s : Sys} {a : Nat} {o : Service} (hinv : Inv s)
    (ho : s.objects[a]? = some o) (hl : o.listeners = ∅) :
    ∃ names s', s.discover a = some (names, s') := by
  obtain ⟨r, s1, h1⟩ : ∃ r s1, s.beginBrowsing a = some (r, s1) := by
    unfold Sys.beginBrowsing
    rw [ho]
    by_cases hb : o.browsing = true <;> simp [hb]
  obtain ⟨o', o1, ho', rfl, hsame, hl1, -, hres⟩ := beginBrowsing_cases h1
  obtain rfl : o = o' := by simpa [ho] using ho'
  have hres' : r = Result.SUCCESS ∨ r = Result.PENDING :=
    hres.elim (fun h => .inr h.1) fun h => .inl h.1
  obtain ⟨s2, h2⟩ := browse_isSome (hinv.put_same ho hsame) (a := a) (o := o1)
    (by simp) (.inl (hl1.trans hl))
  obtain ⟨_, o2, -, -, rfl, -⟩ := browse_cases (hinv.put_same ho hsame) h2
  rw [Sys.put_put] at h2
  unfold Sys.discover Sys.discoverFrom
  simp only [h1, hres', ↓reduceIte, h2, Option.bind_eq_bind, Option.bind_some]
  split
  · simp [Sys.endBrowsing]
  · simp

/-! ## Steps -/

/-- What a call changes. -/
theorem step_cases {hostname : Str} {s s' : Sys} {op : Op} (hinv : Inv s)
    (h : step hostname s op = some s') :
    (∃ a, op = .construct a ∧ a ∉ s.objects ∧ s' = s.put a { name := "_servus._test".toList }) ∨
    (∃ a port n o, op = .announce a port n ∧ s.objects[a]? = some o ∧
      s' = { s.put a { o with
        port := port, instanceName := if n = [] then hostname else n, announced := true } with
        directory := s.directory.insert a }) ∨
    (∃ a o, op = .withdraw a ∧ s.objects[a]? = some o ∧
      s' = { s.put a { o with announced := false, port := 0, instanceName := [] } with
        directory := s.directory.erase a }) ∨
    (∃ a o, op = .destroy a ∧ s.objects[a]? = some o ∧
      s' = ⟨s.objects.erase a, s.directory.erase a⟩) ∨
    (∃ a k v o, op = .set a k v ∧ s.objects[a]? = some o ∧
      s' = s.put a { o with toImpl := o.toImpl.setData k v }) ∨
    ∃ o o', s.objects[op.object]? = some o ∧ s' = s.put op.object o' ∧ SameAnnouncement o o' ∧
      (op.onListeners = false → o'.listeners = o.listeners) := by
  cases op with
  | construct a =>
    simp only [step, Sys.construct] at h
    split at h
    · cases h
    · rename_i ha
      cases h
      exact .inl ⟨a, rfl, ha, rfl⟩
  | announce a port n =>
    obtain ⟨⟨r, t⟩, ht, rfl⟩ := Option.map_eq_some_iff.mp h
    obtain ⟨o, ho, ht⟩ := Option.bind_eq_some_iff.mp ht
    cases ht
    exact .inr (.inl ⟨a, port, n, o, rfl, ho, rfl⟩)
  | withdraw a =>
    obtain ⟨o, ho, h⟩ := Option.bind_eq_some_iff.mp h
    cases h
    exact .inr (.inr (.inl ⟨a, o, rfl, ho, rfl⟩))
  | destroy a =>
    obtain ⟨s1, h1, h⟩ := Option.bind_eq_some_iff.mp h
    obtain ⟨s2, h2, h⟩ := Option.bind_eq_some_iff.mp h
    obtain ⟨o, ho, h1⟩ := Option.bind_eq_some_iff.mp h1
    cases h1
    obtain ⟨o', -, rfl⟩ := endBrowsing_cases h2
    cases h
    refine .inr (.inr (.inr (.inl ⟨a, o, rfl, ho, ?_⟩)))
    have hobj : ∀ m : Std.ExtTreeMap Nat Service, ∀ p q : Service,
        ((m.insert a p).insert a q).erase a = m.erase a := by
      intro m p q
      refine Std.ExtTreeMap.ext_getElem? fun b => ?_
      simp only [Std.ExtTreeMap.getElem?_erase, Std.ExtTreeMap.getElem?_insert]
      split <;> rfl
    simp [Sys.put, hobj]
  | set a k v =>
    obtain ⟨o, ho, h⟩ := Option.bind_eq_some_iff.mp h
    cases h
    exact .inr (.inr (.inr (.inr (.inl ⟨a, k, v, o, rfl, ho, rfl⟩))))
  | beginBrowsing a =>
    obtain ⟨⟨r, t⟩, ht, rfl⟩ := Option.map_eq_some_iff.mp h
    obtain ⟨o, o', ho, hs, hsame, hl, -⟩ := beginBrowsing_cases ht
    exact .inr (.inr (.inr (.inr (.inr ⟨o, o', ho, hs, hsame, fun _ => hl⟩))))
  | browse a =>
    obtain ⟨⟨r, t⟩, ht, rfl⟩ := Option.map_eq_some_iff.mp h
    obtain ⟨o, o', ho, -, hs, hb⟩ := browse_cases hinv ht
    exact .inr (.inr (.inr (.inr (.inr ⟨o, o', ho, hs, hb.same, fun _ => hb.listeners⟩))))
  | endBrowsing a =>
    obtain ⟨o, ho, hs⟩ := endBrowsing_cases h
    exact .inr (.inr (.inr (.inr (.inr ⟨o, _, ho, hs, ⟨rfl, rfl, rfl⟩, fun _ => rfl⟩))))
  | discover a =>
    obtain ⟨⟨r, t⟩, ht, rfl⟩ := Option.map_eq_some_iff.mp h
    obtain ⟨o, o', ho, hs, -, -, hsame, hl⟩ := discover_cases hinv ht
    exact .inr (.inr (.inr (.inr (.inr ⟨o, o', ho, hs, hsame, fun _ => hl⟩))))
  | addListener a listener | removeListener a listener =>
    obtain ⟨o, ho, h⟩ := Option.bind_eq_some_iff.mp h
    cases h
    exact .inr (.inr (.inr (.inr (.inr ⟨o, _, ho, rfl, ⟨rfl, rfl, rfl⟩, nofun⟩))))

theorem inv_step {hostname : Str} {s s' : Sys} {op : Op} (hinv : Inv s)
    (h : step hostname s op = some s') : Inv s' := by
  rcases step_cases hinv h with ⟨a, -, ha, rfl⟩ | ⟨a, port, n, o, -, ho, rfl⟩ |
    ⟨a, o, -, ho, rfl⟩ | ⟨a, o, -, ho, rfl⟩ | ⟨a, k, v, o, -, ho, rfl⟩ |
    ⟨o, o', ho, rfl, hsame, -⟩
  · have hnone : s.objects[a]? = none := by simpa using ha
    refine hinv.update a (fun b hb => by simp [hb]) (fun b _ => Iff.rfl) ?_ ?_
    · rw [Sys.put_directory, hinv.directory]; simp [hnone]
    · rintro p hp -
      obtain rfl : _ = p := by simpa using hp
      rfl
  · refine hinv.update a (fun b hb => by simp [hb]) (fun b hb => by simp [hb]) (by simp) ?_
    rintro p hp hf
    obtain rfl : _ = p := by simpa using hp
    cases hf
  · refine hinv.update a (fun b hb => by simp [hb]) (fun b hb => by simp [hb]) (by simp) ?_
    rintro p hp -
    obtain rfl : _ = p := by simpa using hp
    rfl
  · exact hinv.update a (fun b hb => by simp [Std.ExtTreeMap.getElem?_erase, hb])
      (fun b hb => by simp [hb]) (by simp) (by simp)
  · exact hinv.put ho rfl rfl
  · exact hinv.put_same ho hsame

/-- A property of every live object survives a call if the object called keeps it. -/
theorem forall_step {hostname : Str} {s s' : Sys} {op : Op} {P : Service → Prop} (hinv : Inv s)
    (h : step hostname s op = some s')
    (hs : ∀ (b : Nat) (o : Service), s.objects[b]? = some o → P o)
    (hnew : P { name := "_servus._test".toList })
    (hannounce : ∀ o port n, P o → P { o with
      port := port, instanceName := if n = [] then hostname else n, announced := true })
    (hwithdraw : ∀ o, P o → P { o with announced := false, port := 0, instanceName := [] })
    (hset : ∀ o k v, P o → P { o with toImpl := o.toImpl.setData k v })
    (hsame : ∀ o o', P o → SameAnnouncement o o' →
      (op.onListeners = false → o'.listeners = o.listeners) → P o') :
    ∀ (b : Nat) (o : Service), s'.objects[b]? = some o → P o := by
  have hput : ∀ (a : Nat) (o : Service), P o →
      ∀ (b : Nat) (p : Service), (s.put a o).objects[b]? = some p → P p := by
    intro a o ho b p hp
    rw [Sys.put_objects] at hp
    by_cases hb : a = b
    · obtain rfl : o = p := by simpa [hb] using hp
      exact ho
    · exact hs b p (by simpa [hb] using hp)
  rcases step_cases hinv h with ⟨a, -, ha, rfl⟩ | ⟨a, port, n, o, -, ho, rfl⟩ |
    ⟨a, o, -, ho, rfl⟩ | ⟨a, o, -, ho, rfl⟩ | ⟨a, k, v, o, -, ho, rfl⟩ |
    ⟨o, o', ho, rfl, hann, hlis⟩
  · exact hput a _ hnew
  · exact hput a _ (hannounce o port n (hs a o ho))
  · exact hput a _ (hwithdraw o (hs a o ho))
  · intro b p hp
    rw [Std.ExtTreeMap.getElem?_erase] at hp
    by_cases hb : a = b
    · simp [hb] at hp
    · exact hs b p (by simpa [hb] using hp)
  · exact hput a _ (hset o k v (hs a o ho))
  · exact hput _ o' (hsame o o' (hs _ o ho) hann hlis)

/-! ## What a browse shows -/

/-- The map of `o` is what the announced objects of `s` show: each name once, in order, with the
data of the last object of that name. -/
structure Shows (s : Sys) (o : Service) : Prop where
  sorted : o.getInstances.Pairwise fun n n' => compare n n' = .lt
  names : ∀ n, n ∈ o.getInstances ↔
    ∃ (a : Nat) (p : Service), s.objects[a]? = some p ∧ p.isAnnounced = true ∧ p.instanceName = n
  values : ∀ n ∈ o.getInstances, ∃ (a : Nat) (p : Service) (values : ValueMap),
    s.objects[a]? = some p ∧ p.isAnnounced = true ∧ p.instanceName = n ∧
    (∀ (b : Nat) (q : Service), s.objects[b]? = some q → q.isAnnounced = true →
      q.instanceName = n → b ≤ a) ∧
    o.instanceMap[n]? = some values ∧ o.getKeys n = values.keys ∧
    ∀ k, values[k]? = p.data[k]?.or
        (if k = "servus_host".toList then some "localhost".toList else none) ∧
      o.containsKey n k = values[k]?.isSome ∧ o.get n k = values[k]?.getD []

theorem Service.getElem?_values (o : Service) (k : Str) :
    o.values[k]? = o.data[k]?.or
      (if k = "servus_host".toList then some "localhost".toList else none) := by
  rw [Service.values, getElem?_assignAll_toList, Std.ExtTreeMap.getElem?_insert]
  generalize "servus_host".toList = host, "localhost".toList = localhost
  simp only [Std.compare_eq_iff_eq, eq_comm (a := host), Std.ExtTreeMap.getElem?_empty]

/-- The last entry of a name comes from the greatest address of that name. -/
theorem find?_reverse_filterMap {β : Type} {l : List Nat} (hl : l.Pairwise (· < ·))
    {f : Nat → Option (Str × β)} {n : Str} {kv : Str × β}
    (h : (l.filterMap f).reverse.find? (·.1 = n) = some kv) :
    ∃ a ∈ l, f a = some kv ∧ kv.1 = n ∧
      ∀ b ∈ l, ∀ kv', f b = some kv' → kv'.1 = n → b ≤ a := by
  induction l with
  | nil => cases h
  | cons a l ih =>
    obtain ⟨ha, hl⟩ := List.pairwise_cons.mp hl
    have htail : (l.filterMap f).reverse.find? (·.1 = n) = some kv →
        ∃ c ∈ a :: l, f c = some kv ∧ kv.1 = n ∧
          ∀ b ∈ a :: l, ∀ kv', f b = some kv' → kv'.1 = n → b ≤ c := by
      intro ht
      obtain ⟨c, hc, hfc, hn, hmax⟩ := ih hl ht
      refine ⟨c, List.mem_cons_of_mem a hc, hfc, hn, fun b hb kv' hfb hn' => ?_⟩
      rcases List.mem_cons.mp hb with rfl | hb
      · exact (ha c hc).le
      · exact hmax b hb kv' hfb hn'
    rw [List.filterMap_cons] at h
    cases hfa : f a with
    | none => exact htail (by simpa [hfa] using h)
    | some kv0 =>
      simp only [hfa, List.reverse_cons, List.find?_append] at h
      cases ht : (l.filterMap f).reverse.find? (·.1 = n) with
      | some kv1 =>
        rw [ht, Option.some_or] at h
        exact htail (ht.trans h)
      | none =>
        rw [ht, Option.none_or] at h
        obtain rfl : kv = kv0 := by simpa using List.mem_of_find?_eq_some h
        have hn : kv.1 = n := by simpa using List.find?_some h
        refine ⟨a, List.mem_cons_self, hfa, hn, fun b hb kv' hfb hn' => ?_⟩
        rcases List.mem_cons.mp hb with rfl | hb
        · exact le_rfl
        · have hmem : kv' ∈ (l.filterMap f).reverse :=
            List.mem_reverse.mpr (List.mem_filterMap.mpr ⟨b, hb, hfb⟩)
          simpa [hn'] using List.find?_eq_none.mp ht kv' hmem

theorem mem_published {s : Sys} (hinv : Inv s) {kv : Str × ValueMap} :
    kv ∈ s.published ↔ ∃ (a : Nat) (p : Service), s.objects[a]? = some p ∧
      p.isAnnounced = true ∧ kv = (p.instanceName, p.values) := by
  simp only [Sys.published, List.mem_filterMap, Std.ExtTreeSet.mem_toList, hinv.directory,
    Option.map_eq_some_iff, Service.isAnnounced]
  constructor
  · rintro ⟨a, ⟨o, ho, han⟩, p, hp, rfl⟩
    obtain rfl : o = p := by simpa [ho] using hp
    exact ⟨a, o, ho, han, rfl⟩
  · rintro ⟨a, p, hp, han, rfl⟩
    exact ⟨a, ⟨p, hp, han⟩, p, hp, rfl⟩

theorem shows_of_published {s : Sys} {o : Service} (hinv : Inv s)
    (h : o.instanceMap = assignAll ∅ s.published) : Shows s o := by
  have hget : ∀ n, o.instanceMap[n]? = (s.published.reverse.find? (·.1 = n)).map (·.2) := by
    intro n
    rw [h, getElem?_assignAll]
    simp
  refine ⟨o.ordered_getInstances, fun n => ?_, fun n hn => ?_⟩
  · have hmem : n ∈ o.instanceMap ↔ ∃ kv ∈ s.published, kv.1 = n := by
      rw [← Std.ExtTreeMap.isSome_getElem?_iff_mem, hget]
      simp
    rw [Impl.mem_getInstances, hmem]
    constructor
    · rintro ⟨kv, hkv, rfl⟩
      obtain ⟨a, p, hp, han, rfl⟩ := (mem_published hinv).mp hkv
      exact ⟨a, p, hp, han, rfl⟩
    · rintro ⟨a, p, hp, han, rfl⟩
      exact ⟨_, (mem_published hinv).mpr ⟨a, p, hp, han, rfl⟩, rfl⟩
  · have hin : n ∈ o.instanceMap := Impl.mem_getInstances.mp hn
    obtain ⟨values, hv⟩ := Option.isSome_iff_exists.mp
      (Std.ExtTreeMap.isSome_getElem?_iff_mem.mpr hin)
    rw [hget] at hv
    obtain ⟨kv, hfind, rfl⟩ := Option.map_eq_some_iff.mp hv
    obtain ⟨a, ha, hfa, hkn, hmax⟩ :=
      find?_reverse_filterMap (toList_pairwise_lt s.directory) hfind
    obtain ⟨p, hp, rfl⟩ := Option.map_eq_some_iff.mp hfa
    obtain ⟨p', hp', han⟩ := (hinv.directory a).mp (Std.ExtTreeSet.mem_toList.mp ha)
    obtain rfl : p = p' := by simpa [hp] using hp'
    have hmap : o.instanceMap[n]? = some p.values := by rw [hget, hfind]; rfl
    refine ⟨a, p, p.values, hp, han, hkn, ?_, hmap, by rw [Impl.getKeys, hmap],
      fun k => ⟨p.getElem?_values k, ?_, by rw [Impl.get, hmap]⟩⟩
    · intro b q hq hqan hqn
      have hb : b ∈ s.directory.toList :=
        Std.ExtTreeSet.mem_toList.mpr ((hinv.directory b).mpr ⟨q, hq, hqan⟩)
      exact hmax b hb (q.instanceName, q.values) (by simp [hq]) hqn
    · rw [Impl.containsKey, hmap, Std.ExtTreeMap.isSome_getElem?_eq_contains]

/-- Without calls about listeners there are none. -/
def NoListeners (s : Sys) : Prop :=
  ∀ (a : Nat) (o : Service), s.objects[a]? = some o → o.listeners = ∅

theorem noListeners_step {hostname : Str} {s s' : Sys} {op : Op} (hinv : Inv s)
    (hl : NoListeners s) (hop : op.onListeners = false) (h : step hostname s op = some s') :
    NoListeners s' :=
  forall_step (P := fun o => o.listeners = ∅) hinv h hl rfl (fun _ _ _ ho => ho) (fun _ ho => ho)
    (fun _ _ _ ho => ho) fun _ _ ho _ hlis => (hlis hop).trans ho

/-- A call that leaves all announcements alone; the destructor withdraws. -/
def Quiet (s : Sys) : Op → Prop
  | .announce .. | .withdraw _ | .set .. => False
  | .destroy a => ∀ o : Service, s.objects[a]? = some o → o.isAnnounced = false
  | _ => True

theorem published_quiet {hostname : Str} {s s' : Sys} {op : Op} (hinv : Inv s) (hq : Quiet s op)
    (h : step hostname s op = some s') : s'.published = s.published := by
  have hcongr : ∀ {t : Sys}, t.directory = s.directory →
      (∀ i ∈ s.directory, t.objects[i]? = s.objects[i]?) → t.published = s.published := by
    intro t hdir hobj
    rw [Sys.published, Sys.published, hdir]
    exact List.filterMap_congr fun i hi => by rw [hobj i (Std.ExtTreeSet.mem_toList.mp hi)]
  rcases step_cases hinv h with ⟨a, -, ha, rfl⟩ | ⟨a, port, n, o, rfl, -⟩ |
    ⟨a, o, rfl, -⟩ | ⟨a, o, rfl, ho, rfl⟩ | ⟨a, k, v, o, rfl, -⟩ | ⟨o, o', ho, rfl, hsame, -⟩
  · refine hcongr rfl fun i hi => ?_
    obtain ⟨p, hp⟩ := hinv.live hi
    have hne : a ≠ i := fun e => ha (Std.ExtTreeMap.mem_iff_isSome_getElem?.mpr (by simp [e, hp]))
    rw [Sys.put_objects, if_neg hne]
  · exact hq.elim
  · exact hq.elim
  · have hnot : a ∉ s.directory := by
      intro hmem
      obtain ⟨p, hp, han⟩ := (hinv.directory a).mp hmem
      have := hq p hp
      simp [Service.isAnnounced, han] at this
    refine hcongr ?_ fun i hi => ?_
    · refine Std.ExtTreeSet.ext_mem fun x => ?_
      simp only [Std.ExtTreeSet.mem_erase]
      grind
    · have hne : a ≠ i := fun e => hnot (e ▸ hi)
      simp [Std.ExtTreeMap.getElem?_erase, hne]
  · exact hq.elim
  · exact published_put_same ho hsame

/-- A call of `browse` or `discover` on `a`, from `s` to `s'`. -/
def Browses (s : Sys) (a : Nat) (s' : Sys) : Prop :=
  (∃ r, s.browse a = some (r, s')) ∨ ∃ names, s.discover a = some (names, s')

theorem Browses.cases {s s' : Sys} {a : Nat} (hinv : Inv s) (h : Browses s a s') :
    ∃ o o', s.objects[a]? = some o ∧ s' = s.put a o' ∧ SameAnnouncement o o' ∧
      o'.instanceMap = assignAll ∅ s.published := by
  rcases h with ⟨r, h⟩ | ⟨names, h⟩
  · obtain ⟨o, o', ho, -, hs, hb⟩ := browse_cases hinv h
    exact ⟨o, o', ho, hs, hb.same, hb.instanceMap⟩
  · obtain ⟨o, o', ho, hs, -, hmap, hsame, -⟩ := discover_cases hinv h
    exact ⟨o, o', ho, hs, hsame, hmap⟩

/-- In every reachable state the directory holds exactly the live objects that are announced;
`browse` and `discover` return, and leave their object with what the announced objects show; and
two objects that browse with only quiet calls in between find the same. -/
theorem directory_correct (hostname : Str) {ops : List Op} {s : Sys}
    (hops : ∀ op ∈ ops, op.onListeners = false) (h : run (step hostname) {} ops = some s) :
    (∀ a, a ∈ s.directory ↔ ∃ o : Service, s.objects[a]? = some o ∧ o.isAnnounced = true) ∧
    (∀ a ∈ s.objects, (∃ s', s.browse a = some (Result.SUCCESS, s')) ∧
      ∃ names s', s.discover a = some (names, s')) ∧
    (∀ a s', Browses s a s' → ∃ o : Service, s'.objects[a]? = some o ∧ Shows s' o) ∧
    (∀ a names s', s.discover a = some (names, s') →
      ∃ o : Service, s'.objects[a]? = some o ∧ names = o.getInstances) ∧
    ∀ a s1 ops' s2 b s3, Browses s a s1 → EveryStep (step hostname) Quiet s1 ops' →
      run (step hostname) s1 ops' = some s2 → Browses s2 b s3 →
      ∃ o p : Service, s1.objects[a]? = some o ∧ s3.objects[b]? = some p ∧
        p.instanceMap = o.instanceMap := by
  obtain ⟨hinv, hlis⟩ : Inv s ∧ NoListeners s :=
    run_invariant (I := fun s => Inv s ∧ NoListeners s) h
      (fun u op v hop hu hv => ⟨inv_step hu.1 hv, noListeners_step hu.1 hu.2 (hops op hop) hv⟩)
      ⟨inv_init, by simp [NoListeners]⟩
  refine ⟨hinv.directory, fun a ha => ?_, fun a s' hb => ?_, fun a names s' hd => ?_, ?_⟩
  · obtain ⟨o, ho⟩ := Option.isSome_iff_exists.mp (Std.ExtTreeMap.mem_iff_isSome_getElem?.mp ha)
    exact ⟨browse_isSome hinv ho (.inl (hlis a o ho)), discover_isSome hinv ho (hlis a o ho)⟩
  · obtain ⟨o, o', ho, rfl, hsame, hmap⟩ := hb.cases hinv
    refine ⟨o', by simp, shows_of_published (hinv.put_same ho hsame) ?_⟩
    rw [hmap, published_put_same ho hsame]
  · obtain ⟨o, o', -, rfl, hn, -⟩ := discover_cases hinv hd
    exact ⟨o', by simp, hn⟩
  · intro a s1 ops' s2 b s3 hb hquiet hrun hb'
    obtain ⟨o, o', ho, rfl, hsame, hmap⟩ := hb.cases hinv
    obtain ⟨hinv2, hpub⟩ : Inv s2 ∧ s2.published = s.published :=
      hquiet.invariant (I := fun t => Inv t ∧ t.published = s.published) hrun
        (fun u op v hu hq hv => ⟨inv_step hu.1 hv, (published_quiet hu.1 hq hv).trans hu.2⟩)
        ⟨hinv.put_same ho hsame, published_put_same ho hsame⟩
    obtain ⟨p, p', -, rfl, -, hmap'⟩ := hb'.cases hinv2
    exact ⟨o', p', by simp, by simp, by rw [hmap', hmap, hpub]⟩

/-- Two objects announce under one name, a third browses, and so does the first behind a quiet
call. -/
theorem directory_correct_shared_name :
    ∃ s s1 s2 s3, run (step []) {} [.construct 1, .construct 2, .construct 3,
        .set 1 "k".toList "v".toList, .announce 1 80 "x".toList, .announce 3 80 "x".toList] =
      some s ∧ Browses s 2 s1 ∧ run (step []) s1 [.beginBrowsing 2] = some s2 ∧
      Browses s2 1 s3 ∧ ∃ o p : Service, s1.objects[2]? = some o ∧ s3.objects[1]? = some p ∧
        p.instanceMap = o.instanceMap := by
  obtain ⟨s3, h⟩ := Option.isSome_iff_exists.mp (show (run (step []) {} ([.construct 1,
    .construct 2, .construct 3, .set 1 "k".toList "v".toList, .announce 1 80 "x".toList,
    .announce 3 80 "x".toList] ++ ([.browse 2] ++ ([.beginBrowsing 2] ++ [.browse 1])))).isSome
    by decide)
  obtain ⟨s, hs, h⟩ := run_append_eq_some.mp h
  obtain ⟨s1, h1, h⟩ := run_append_eq_some.mp h
  obtain ⟨s2, h2, h3⟩ := run_append_eq_some.mp h
  have hbrowse : ∀ {u v a}, run (step []) u [.browse a] = some v → Browses u a v := by
    intro u v a huv
    obtain ⟨w, hw, hv⟩ := run_cons_eq_some.mp huv
    cases hv
    obtain ⟨⟨r, _⟩, hr, rfl⟩ := Option.map_eq_some_iff.mp hw
    exact .inl ⟨r, hr⟩
  exact ⟨s, s1, s2, s3, hs, hbrowse h1, h2, hbrowse h3,
    (directory_correct [] (by decide) hs).2.2.2.2 2 s1 [.beginBrowsing 2] s2 1 s3
      (hbrowse h1)
      ⟨trivial, fun _ _ => trivial⟩ h2 (hbrowse h3)⟩

end Servus.Test
