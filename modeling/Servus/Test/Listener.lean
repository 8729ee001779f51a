import Servus.Test.Directory

/-!
# Listeners of the test driver

A listener of a browsing object is told about objects that enter or leave the directory, under
the name that they have when `browse` looks. `withdraw` has cleared that name by then, so a
removal is reported for the empty name, and an object that is announced again under another name
is not reported at all.

`BrowseOk` is what has to hold in front of a `browse` for the listener and `getInstances` to agree
after it. `coherent_of_browseOk`: in a session whose browses all meet it, what the listener was
told always gives `getInstances`; and with a host name, only in such sessions.
-/

namespace Servus.Test

open Cpp

/-- What `listener` was told by `o`, behind the first `k` events. -/
def told (k listener : Nat) (o : Service) : List Event := (heard listener o.calls).drop k

/-- Every `instanceRemoved` names an instance that was added before. -/
def RemovedWereAdded (es : List Event) : Prop :=
  ∀ pre n post, es = pre ++ .instanceRemoved n :: post → .instanceAdded n ∈ pre

/-- The events of the session give the instances of `a`. -/
def Coherent (k a listener : Nat) (s : Sys) : Prop :=
  ∃ o : Service, s.objects[a]? = some o ∧
    (replay ∅ (told k listener o)).toList = o.getInstances ∧ RemovedWereAdded (told k listener o)

/-- A `browse` of `a` returns, and then the events of the session give the instances of `a`. -/
def BrowseCoherent (hostname : Str) (k a listener : Nat) (s : Sys) (op : Op) : Prop :=
  op = .browse a → ∃ s', step hostname s op = some s' ∧ Coherent k a listener s'

/-- The start of a browsing session of `a` whose listener has heard `k` events before. -/
def Session (hostname : Str) (k a listener : Nat) (s1 : Sys) : Prop :=
  ∃ ops s o, run (step hostname) {} ops = some s ∧ s.objects[a]? = some o ∧
    listener ∈ o.listeners ∧ k = (heard listener o.calls).length ∧
    s.beginBrowsing a = some (Result.SUCCESS, s1)

/-- The calls of a session of `a`. -/
def Op.inSession (a : Nat) : Op → Bool
  | .announce .. | .withdraw _ | .set .. | .beginBrowsing _ | .browse _ => true
  | .endBrowsing b => b ≠ a
  | _ => false

/-- The condition on a `browse` of `a`: no object seen in the session has been withdrawn, each name
that was reported still belongs to an announced object, and the name of each object seen was
reported or belongs to an announced object that was not seen. -/
structure BrowseOk (k a listener : Nat) (s : Sys) : Prop where
  seen : ∀ o ∈ s.objects[a]?, ∀ i ∈ o.instances.toList, i ∈ s.directory
  reported : ∀ o ∈ s.objects[a]?, ∀ e ∈ told k listener o,
    ∃ i ∈ s.directory.toList, e = .instanceAdded (s.nameOf i)
  named : ∀ o ∈ s.objects[a]?, ∀ i ∈ o.instances.toList,
    .instanceAdded (s.nameOf i) ∈ told k listener o ∨
      ∃ j ∈ s.directory.toList, j ∉ o.instances ∧ s.nameOf j = s.nameOf i

instance (k a listener : Nat) (s : Sys) : Decidable (BrowseOk k a listener s) :=
  decidable_of_iff (_ ∧ _ ∧ _) ⟨fun h => ⟨h.1, h.2.1, h.2.2⟩, fun h => ⟨h.1, h.2, h.3⟩⟩

/-! ## Events and instances -/

theorem mem_replay_of_added {es : List Event} (h : ∀ e ∈ es, ∃ n, e = .instanceAdded n)
    (names : Std.ExtTreeSet Str) (n : Str) :
    n ∈ replay names es ↔ n ∈ names ∨ .instanceAdded n ∈ es := by
  induction es generalizing names with
  | nil => simp [replay]
  | cons e es ih =>
    obtain ⟨m, rfl⟩ := h e List.mem_cons_self
    rw [replay, ih fun e he => h e (List.mem_cons_of_mem _ he), Std.ExtTreeSet.mem_insert,
      Std.compare_eq_iff_eq, List.mem_cons, Event.instanceAdded.injEq]
    grind

/-- An ordered set and the keys of an ordered map agree when their members do. -/
theorem toList_eq_keys_iff {β : Type} (t : Std.ExtTreeSet Str) (m : Std.ExtTreeMap Str β) :
    t.toList = m.keys ↔ ∀ n, n ∈ t ↔ n ∈ m := by
  constructor
  · intro h n
    rw [← Std.ExtTreeSet.mem_toList, h, Std.ExtTreeMap.mem_keys]
  · intro h
    have ht : t.toList.Pairwise fun a b => compare a b = .lt := Std.ExtTreeSet.ordered_toList
    have hm : m.keys.Pairwise fun a b => compare a b = .lt := Std.ExtTreeMap.ordered_keys
    have hne : ∀ {a b : Str}, compare a b = .lt → a ≠ b := by
      rintro a b hab rfl
      simp at hab
    refine List.Perm.eq_of_pairwise ?_ ht hm ?_
    · intro a b _ _ hab hba
      rw [Std.OrientedCmp.gt_of_lt hba] at hab
      cases hab
    · refine (List.perm_ext_iff_of_nodup (ht.imp hne) (hm.imp hne)).mpr fun n => ?_
      rw [Std.ExtTreeSet.mem_toList, Std.ExtTreeMap.mem_keys, h]

theorem mem_changes {s : Sys} {seen : Std.ExtTreeSet Nat} {e : Event} :
    e ∈ s.changes seen ↔
      (∃ i, i ∈ s.directory ∧ i ∉ seen ∧ e = .instanceAdded (s.nameOf i)) ∨
      ∃ i, i ∈ seen ∧ i ∉ s.directory ∧ e = .instanceRemoved (s.nameOf i) := by
  simp only [Sys.changes, List.mem_map, mem_setSymmetricDifference (toList_pairwise_lt _)
    (toList_pairwise_lt _), Std.ExtTreeSet.mem_toList, Sys.change]
  constructor
  · rintro ⟨i, ⟨hd, hs⟩ | ⟨hs, hd⟩, rfl⟩
    · exact .inl ⟨i, hd, hs, if_pos hs⟩
    · exact .inr ⟨i, hs, hd, if_neg (not_not.mpr hs)⟩
  · rintro (⟨i, hd, hs, rfl⟩ | ⟨i, hs, hd, rfl⟩)
    · exact ⟨i, .inl ⟨hd, hs⟩, if_pos hs⟩
    · exact ⟨i, .inr ⟨hs, hd⟩, if_neg (not_not.mpr hs)⟩

/-- After a browse the instances are the names of the objects in the directory. -/
theorem Browsed.mem_instanceMap {s : Sys} {o o' : Service} (hinv : Inv s) (h : Browsed s o o')
    (n : Str) : n ∈ o'.instanceMap ↔ ∃ i, i ∈ s.directory ∧ s.nameOf i = n := by
  rw [← Impl.mem_getInstances, (shows_of_published hinv h.instanceMap).names]
  constructor
  · rintro ⟨i, p, hp, han, rfl⟩
    exact ⟨i, (hinv.directory i).mpr ⟨p, hp, han⟩, by simp [Sys.nameOf, hp]⟩
  · rintro ⟨i, hi, rfl⟩
    obtain ⟨p, hp, han⟩ := (hinv.directory i).mp hi
    exact ⟨i, p, hp, han, by simp [Sys.nameOf, hp]⟩

/-! ## The session -/

/-- With a host name, an announced object has a name. -/
def Named (hostname : Str) (s : Sys) : Prop :=
  hostname ≠ [] → ∀ (b : Nat) (o : Service), s.objects[b]? = some o → o.announced = true →
    o.instanceName ≠ []

theorem named_step {hostname : Str} {s s' : Sys} {op : Op} (hinv : Inv s) (hn : Named hostname s)
    (h : step hostname s op = some s') : Named hostname s' := by
  intro hh
  refine forall_step (P := fun o => o.announced = true → o.instanceName ≠ []) hinv h (hn hh)
    nofun (fun o port n _ _ => ?_) (fun _ _ => nofun) (fun _ _ _ ho => ho) fun o o' ho hsame _ => ?_
  · by_cases hnil : n = [] <;> simp [hnil, hh]
  · rw [hsame.announced, hsame.instanceName]
    exact ho

/-- Calls of a session keep all objects alive. -/
theorem live_step {hostname : Str} {s s' : Sys} {op : Op} {a : Nat} (hinv : Inv s)
    (hop : op.inSession a = true) (h : step hostname s op = some s') {i : Nat} {p : Service}
    (hp : s.objects[i]? = some p) : ∃ p', s'.objects[i]? = some p' := by
  have hput : ∀ (b : Nat) (o : Service), ∃ p', (s.put b o).objects[i]? = some p' := by
    intro b o
    by_cases hb : b = i <;> simp [hb, hp]
  rcases step_cases hinv h with ⟨b, -, -, rfl⟩ | ⟨b, port, n, o, -, -, rfl⟩ |
    ⟨b, o, -, -, rfl⟩ | ⟨b, o, rfl, -⟩ | ⟨b, k, v, o, -, -, rfl⟩ | ⟨o, o', -, rfl, -⟩
  · exact hput ..
  · exact hput ..
  · exact hput ..
  · cases hop
  · exact hput ..
  · exact hput ..

/-- Calls of a session other than its `browse` leave the session alone. -/
theorem session_frame {hostname : Str} {s s' : Sys} {op : Op} {a : Nat} {o : Service}
    (hinv : Inv s) (hop : op.inSession a = true) (hne : op ≠ .browse a)
    (ho : s.objects[a]? = some o) (hb : o.browsing = true) (h : step hostname s op = some s') :
    ∃ o' : Service, s'.objects[a]? = some o' ∧ o'.listeners = o.listeners ∧ o'.browsing = true ∧
      o'.calls = o.calls ∧ o'.instances = o.instances := by
  have hput : ∀ (b : Nat) (p q : Service), s.objects[b]? = some p → q.listeners = p.listeners →
      q.browsing = p.browsing → q.calls = p.calls → q.instances = p.instances →
      ∃ o' : Service, (s.put b q).objects[a]? = some o' ∧ o'.listeners = o.listeners ∧
        o'.browsing = true ∧ o'.calls = o.calls ∧ o'.instances = o.instances := by
    intro b p q hp hl hbr hc hi
    by_cases hba : b = a
    · obtain rfl : p = o := by simpa [hba, ho] using hp.symm
      exact ⟨q, by simp [hba], hl, hbr.trans hb, hc, hi⟩
    · exact ⟨o, by simp [hba, ho], rfl, hb, rfl, rfl⟩
  have hother : ∀ (b : Nat) (q : Service), b ≠ a →
      ∃ o' : Service, (s.put b q).objects[a]? = some o' ∧ o'.listeners = o.listeners ∧
        o'.browsing = true ∧ o'.calls = o.calls ∧ o'.instances = o.instances :=
    fun b q hba => ⟨o, by simp [hba, ho], rfl, hb, rfl, rfl⟩
  cases op with
  | announce b port n =>
    obtain ⟨⟨r, t⟩, ht, rfl⟩ := Option.map_eq_some_iff.mp h
    obtain ⟨p, hp, ht⟩ := Option.bind_eq_some_iff.mp ht
    cases ht
    exact hput b p _ hp rfl rfl rfl rfl
  | withdraw b =>
    obtain ⟨p, hp, h⟩ := Option.bind_eq_some_iff.mp h
    cases h
    exact hput b p _ hp rfl rfl rfl rfl
  | set b key value =>
    obtain ⟨p, hp, h⟩ := Option.bind_eq_some_iff.mp h
    cases h
    exact hput b p _ hp rfl rfl rfl rfl
  | beginBrowsing b =>
    obtain ⟨⟨r, t⟩, ht, rfl⟩ := Option.map_eq_some_iff.mp h
    obtain ⟨p, q, hp, hs, -, -, -, hr⟩ := beginBrowsing_cases ht
    simp only [hs]
    by_cases hba : b = a
    · -- a session is open, so `beginBrowsing` only returns `PENDING`
      obtain rfl : p = o := by simpa [hba, ho] using hp.symm
      rcases hr with ⟨-, rfl⟩ | ⟨-, hfalse, -⟩
      · exact hput b q q hp rfl rfl rfl rfl
      · rw [hb] at hfalse; cases hfalse
    · exact hother b q hba
  | browse b =>
    obtain ⟨⟨r, t⟩, ht, rfl⟩ := Option.map_eq_some_iff.mp h
    obtain ⟨p, q, -, -, hs, -⟩ := browse_cases hinv ht
    simp only [hs]
    exact hother b q fun e => hne (by rw [e])
  | endBrowsing b =>
    obtain ⟨p, -, rfl⟩ := endBrowsing_cases h
    exact hother b _ (by simpa [Op.inSession] using hop)
  | construct b | discover b | destroy b | addListener b l | removeListener b l => cases hop

/-- The browsing object in a session whose browses met their condition so far: the listener has
heard additions only. -/
structure Hears (hostname : Str) (k listener : Nat) (s : Sys) (o : Service) : Prop where
  registered : listener ∈ o.listeners
  browsing : o.browsing = true
  length : k ≤ (heard listener o.calls).length
  live : ∀ i ∈ o.instances, ∃ p : Service, s.objects[i]? = some p
  added : ∀ e ∈ told k listener o, ∃ n, e = .instanceAdded n ∧ (hostname ≠ [] → n ≠ [])

structure SessionInv (hostname : Str) (k a listener : Nat) (s : Sys) : Prop where
  inv : Inv s
  named : Named hostname s
  session : ∃ o : Service, s.objects[a]? = some o ∧ Hears hostname k listener s o

theorem Session.inv {hostname : Str} {k a listener : Nat} {s1 : Sys}
    (h : Session hostname k a listener s1) : SessionInv hostname k a listener s1 := by
  obtain ⟨ops, s, o, hrun, ho, hl, rfl, hbegin⟩ := h
  obtain ⟨hinv, hnamed⟩ : Inv s ∧ Named hostname s :=
    run_invariant (I := fun s => Inv s ∧ Named hostname s) hrun
      (fun u op v _ hu hv => ⟨inv_step hu.1 hv, named_step hu.1 hu.2 hv⟩)
      ⟨inv_init, fun _ => by simp⟩
  have hstep : step hostname s (.beginBrowsing a) = some s1 := by simp [step, hbegin]
  obtain ⟨p, o', hp, rfl, -, hl', hcalls, ⟨hpend, -⟩ | ⟨-, -, hnone, hbr⟩⟩ :=
    beginBrowsing_cases hbegin
  · cases hpend
  · obtain rfl : o = p := by simpa [ho] using hp
    refine ⟨inv_step hinv hstep, named_step hinv hnamed hstep, o', by simp, hl' ▸ hl, hbr, ?_, ?_,
      ?_⟩
    · rw [hcalls]
    · simp [hnone]
    · simp [told, hcalls]

/-- A browse of the session returns, and the listener hears the changes. -/
theorem SessionInv.browse {hostname : Str} {k a listener : Nat} {s : Sys}
    (h : SessionInv hostname k a listener s) :
    ∃ o o' : Service, s.objects[a]? = some o ∧ Hears hostname k listener s o ∧
      step hostname s (.browse a) = some (s.put a o') ∧ Browsed s o o' ∧
      told k listener o' = told k listener o ++ s.changes o.instances := by
  obtain ⟨o, ho, hears⟩ := h.session
  obtain ⟨s', hs'⟩ := browse_isSome h.inv ho (.inr hears.live)
  obtain ⟨p, o', hp, -, rfl, hb⟩ := browse_cases h.inv hs'
  obtain rfl : o = p := by simpa [ho] using hp
  refine ⟨o, o', ho, hears, by simp [step, hs'], hb, ?_⟩
  rw [told, hb.heard listener hears.registered, List.drop_append_of_le_length hears.length, told]

theorem removedWereAdded_of_added {es : List Event} (h : ∀ e ∈ es, ∃ n, e = .instanceAdded n) :
    RemovedWereAdded es := by
  rintro pre n post rfl
  obtain ⟨m, hm⟩ := h (.instanceRemoved n) (by simp)
  cases hm

/-- If no object seen was withdrawn, a browse reports additions only. -/
theorem changes_added {s : Sys} {seen : Std.ExtTreeSet Nat} (h : ∀ i ∈ seen, i ∈ s.directory) :
    ∀ e ∈ s.changes seen, ∃ i, i ∈ s.directory ∧ i ∉ seen ∧ e = .instanceAdded (s.nameOf i) := by
  intro e he
  rcases mem_changes.mp he with he | ⟨i, hi, hd, -⟩
  · exact he
  · exact absurd (h i hi) hd

theorem Named.nameOf_ne_nil {hostname : Str} {s : Sys} (hn : Named hostname s) (hinv : Inv s)
    (hh : hostname ≠ []) {i : Nat} (hi : i ∈ s.directory) : s.nameOf i ≠ [] := by
  obtain ⟨p, hp, han⟩ := (hinv.directory i).mp hi
  simpa [Sys.nameOf, hp] using hn hh i p hp han

/-- A browse that meets its condition: the events give the instances, and the session goes on. -/
theorem BrowseOk.coherent {hostname : Str} {k a listener : Nat} {s : Sys}
    (h : SessionInv hostname k a listener s) (hok : BrowseOk k a listener s) :
    ∃ s', step hostname s (.browse a) = some s' ∧ Coherent k a listener s' ∧
      SessionInv hostname k a listener s' := by
  obtain ⟨o, o', ho, hears, hstep, hb, htold⟩ := h.browse
  have hseen : ∀ i ∈ o.instances, i ∈ s.directory := fun i hi =>
    hok.seen o ho i (Std.ExtTreeSet.mem_toList.mpr hi)
  have hch := changes_added hseen
  have hadd' : ∀ e ∈ told k listener o', ∃ n, e = .instanceAdded n ∧ (hostname ≠ [] → n ≠ []) := by
    intro e he
    rw [htold, List.mem_append] at he
    rcases he with he | he
    · exact hears.added e he
    · obtain ⟨i, hi, -, rfl⟩ := hch e he
      exact ⟨_, rfl, fun hh => h.named.nameOf_ne_nil h.inv hh hi⟩
  have honly : ∀ e ∈ told k listener o', ∃ n, e = .instanceAdded n := fun e he =>
    (hadd' e he).imp fun _ hn => hn.1
  refine ⟨s.put a o', hstep, ⟨o', by simp, ?_, removedWereAdded_of_added honly⟩,
    inv_step h.inv hstep, named_step h.inv h.named hstep, ?_⟩
  · refine (toList_eq_keys_iff _ _).mpr fun n => ?_
    rw [mem_replay_of_added honly, hb.mem_instanceMap h.inv, htold, List.mem_append]
    constructor
    · rintro (hn | hn | hn)
      · exact absurd hn Std.ExtTreeSet.not_mem_empty
      · obtain ⟨i, hi, he⟩ := hok.reported o ho _ hn
        exact ⟨i, Std.ExtTreeSet.mem_toList.mp hi, by cases he; rfl⟩
      · obtain ⟨i, hi, -, he⟩ := hch _ hn
        exact ⟨i, hi, by cases he; rfl⟩
    · rintro ⟨i, hi, rfl⟩
      by_cases hs : i ∈ o.instances
      · rcases hok.named o ho i (Std.ExtTreeSet.mem_toList.mpr hs) with hn | ⟨j, hj, hjs, hn⟩
        · exact .inr (.inl hn)
        · rw [← hn]
          exact .inr (.inr (mem_changes.mpr
            (.inl ⟨j, Std.ExtTreeSet.mem_toList.mp hj, hjs, rfl⟩)))
      · exact .inr (.inr (mem_changes.mpr (.inl ⟨i, hi, hs, rfl⟩)))
  · refine ⟨o', by simp, hb.listeners ▸ hears.registered, hb.browsing.trans hears.browsing, ?_,
      fun i hi => ?_, hadd'⟩
    · rw [hb.heard listener hears.registered, List.length_append]
      exact Nat.le_add_right_of_le hears.length
    · rw [hb.instances] at hi
      obtain ⟨p, hp⟩ := h.inv.live hi
      exact live_step h.inv (show (Op.browse a).inSession a = true from rfl) hstep hp

/-- With a host name the condition is also necessary. -/
theorem browseOk_of_coherent {hostname : Str} {k a listener : Nat} {s s' : Sys}
    (h : SessionInv hostname k a listener s) (hh : hostname ≠ [])
    (hs : step hostname s (.browse a) = some s') (hc : Coherent k a listener s') :
    BrowseOk k a listener s := by
  obtain ⟨o, o', ho, hears, hstep, hb, htold⟩ := h.browse
  obtain rfl : s.put a o' = s' := by simpa [hstep] using hs
  obtain ⟨p, hp, hrep, hrem⟩ := hc
  obtain rfl : o' = p := by simpa using hp
  have hnames : ∀ e ∈ told k listener o', e ≠ .instanceAdded [] := by
    rintro e he rfl
    rw [htold, List.mem_append] at he
    rcases he with he | he
    · obtain ⟨n, hn, hne⟩ := hears.added _ he
      cases hn
      exact hne hh rfl
    · rcases mem_changes.mp he with ⟨i, hi, -, hn⟩ | ⟨i, -, -, hn⟩
      · exact h.named.nameOf_ne_nil h.inv hh hi (Event.instanceAdded.inj hn).symm
      · cases hn
  -- a withdrawn object is reported under the empty name, which was never added
  have hseen : ∀ i ∈ o.instances, i ∈ s.directory := by
    intro i hi
    by_contra hd
    obtain ⟨p, hp⟩ := hears.live i hi
    have hna : p.announced = false := by
      by_contra han
      exact hd ((h.inv.directory i).mpr ⟨p, hp, by simpa using han⟩)
    have hname : s.nameOf i = [] := by simp [Sys.nameOf, hp, h.inv.unnamed i p hp hna]
    have hmem : .instanceRemoved [] ∈ told k listener o' := by
      rw [htold, List.mem_append]
      exact .inr (mem_changes.mpr (.inr ⟨i, hi, hd, by rw [hname]⟩))
    obtain ⟨pre, post, hsplit⟩ := List.append_of_mem hmem
    exact hnames _ (hsplit ▸ List.mem_append_left _ (hrem pre [] post hsplit)) rfl
  have honly : ∀ e ∈ told k listener o', ∃ n, e = .instanceAdded n := by
    intro e he
    rw [htold, List.mem_append] at he
    rcases he with he | he
    · exact (hears.added e he).imp fun _ hn => hn.1
    · obtain ⟨i, -, -, rfl⟩ := changes_added hseen e he
      exact ⟨_, rfl⟩
  have hiff : ∀ n, .instanceAdded n ∈ told k listener o' ↔
      ∃ i, i ∈ s.directory ∧ s.nameOf i = n := by
    intro n
    rw [← hb.mem_instanceMap h.inv, ← (toList_eq_keys_iff _ _).mp hrep, mem_replay_of_added honly]
    simp
  refine ⟨fun p hp i hi => ?_, fun p hp e he => ?_, fun p hp i hi => ?_⟩ <;>
    obtain rfl : o = p := by simpa [ho] using hp
  · exact hseen i (Std.ExtTreeSet.mem_toList.mp hi)
  · obtain ⟨n, rfl, -⟩ := hears.added e he
    obtain ⟨i, hi, rfl⟩ := (hiff n).mp (by rw [htold]; exact List.mem_append_left _ he)
    exact ⟨i, Std.ExtTreeSet.mem_toList.mpr hi, rfl⟩
  · have hmem := (hiff _).mpr ⟨i, hseen i (Std.ExtTreeSet.mem_toList.mp hi), rfl⟩
    rw [htold, List.mem_append] at hmem
    refine hmem.imp_right fun hmem => ?_
    obtain ⟨j, hj, hjs, hn⟩ := changes_added hseen _ hmem
    exact ⟨j, Std.ExtTreeSet.mem_toList.mpr hj, hjs, (Event.instanceAdded.inj hn).symm⟩

/-- Other calls keep the session. -/
theorem SessionInv.step {hostname : Str} {k a listener : Nat} {s s' : Sys} {op : Op}
    (h : SessionInv hostname k a listener s) (hop : op.inSession a = true) (hne : op ≠ .browse a)
    (hs : step hostname s op = some s') : SessionInv hostname k a listener s' := by
  obtain ⟨o, ho, hears⟩ := h.session
  obtain ⟨o', ho', hl, hbr, hcalls, hinst⟩ := session_frame h.inv hop hne ho hears.browsing hs
  refine ⟨inv_step h.inv hs, named_step h.inv h.named hs, o', ho', hl ▸ hears.registered, hbr, ?_,
    fun i hi => ?_, ?_⟩
  · rw [hcalls]; exact hears.length
  · obtain ⟨p, hp⟩ := hears.live i (hinst ▸ hi)
    exact live_step h.inv hop hs hp
  · rw [told, hcalls]; exact hears.added

/-- In a session whose browses all meet `BrowseOk`, every browse returns with the listener's events
giving `getInstances()`, each removal naming an instance that was added; with a host name, these
are the only sessions where that is so. -/
theorem coherent_of_browseOk {hostname : Str} {k a listener : Nat} {s1 : Sys} {ops : List Op}
    (hsession : Session hostname k a listener s1) (hops : ∀ op ∈ ops, op.inSession a = true) :
    (EveryStep (step hostname) (fun s op => op = .browse a → BrowseOk k a listener s) s1 ops →
      EveryStep (step hostname) (BrowseCoherent hostname k a listener) s1 ops) ∧
    (hostname ≠ [] →
      EveryStep (step hostname) (BrowseCoherent hostname k a listener) s1 ops →
      EveryStep (step hostname) (fun s op => op = .browse a → BrowseOk k a listener s) s1 ops) := by
  have hkeep : ∀ u op v, op ∈ ops → SessionInv hostname k a listener u →
      (op = .browse a → BrowseOk k a listener u) → step hostname u op = some v →
      SessionInv hostname k a listener v := by
    intro u op v hop hu hok hv
    by_cases hb : op = .browse a
    · subst hb
      obtain ⟨v', hv', -, hinv⟩ := (hok rfl).coherent hu
      obtain rfl : v' = v := by simpa [hv'] using hv
      exact hinv
    · exact hu.step (hops op hop) hb hv
  have hback : ∀ u op, SessionInv hostname k a listener u → hostname ≠ [] →
      BrowseCoherent hostname k a listener u op → op = .browse a → BrowseOk k a listener u := by
    rintro u op hu hh hc rfl
    obtain ⟨v, hv, hcoh⟩ := hc rfl
    exact browseOk_of_coherent hu hh hv hcoh
  constructor
  · intro hC
    refine hC.imp hkeep (fun u op hop hu hok hb => ?_) hsession.inv
    obtain ⟨v, hv, hcoh, -⟩ := (hok hb).coherent hu
    exact ⟨v, hb ▸ hv, hcoh⟩
  · intro hh hD
    exact hD.imp (fun u op v hop hu hc => hkeep u op v hop hu (hback u op hu hh hc))
      (fun u op _ hu hc => hback u op hu hh hc) hsession.inv

/-- Object 1 is announced as `x`, and object 2 has begun to browse, with listener 7. -/
def browser : Sys :=
  (run (step "h".toList) {} [.construct 1, .construct 2, .announce 1 80 "x".toList,
    .addListener 2 7, .beginBrowsing 2]).getD {}

theorem session_browser : Session "h".toList 0 2 7 browser :=
  ⟨[.construct 1, .construct 2, .announce 1 80 "x".toList, .addListener 2 7],
    (run (step "h".toList) {} [.construct 1, .construct 2, .announce 1 80 "x".toList,
      .addListener 2 7]).get (by decide),
    { name := "_servus._test".toList, listeners := {7} }, by decide, by decide, by decide,
    by decide, by decide⟩

/-- Announcing again under the same name and a new announcement keep the two views together. -/
theorem coherent_of_browseOk_announce :
    EveryStep (step "h".toList) (BrowseCoherent "h".toList 0 2 7) browser
      [.browse 2, .withdraw 1, .announce 1 81 "x".toList, .announce 2 80 "y".toList, .browse 2] :=
  (coherent_of_browseOk session_browser (by decide)).1 (by decide)

/-- Object 1 is withdrawn between two browses: the listener is told that the empty name was
removed, and still believes in `x`. -/
theorem not_coherent_withdraw : ¬ ∀ (hostname : Str) (k a listener : Nat) (s1 : Sys)
    (ops : List Op), Session hostname k a listener s1 → (∀ op ∈ ops, op.inSession a = true) →
    EveryStep (step hostname) (BrowseCoherent hostname k a listener) s1 ops := by
  intro h
  have hsteps := h "h".toList 0 2 7 browser ([.browse 2, .withdraw 1] ++ [.browse 2])
    session_browser (by decide)
  obtain ⟨s, hs⟩ : ∃ s, run (step "h".toList) browser [.browse 2, .withdraw 1] = some s :=
    Option.isSome_iff_exists.mp (by decide)
  obtain ⟨s', hs', o, ho, hrep, -⟩ := hsteps.last hs rfl
  have hbad : ∀ o ∈ (run (step "h".toList) browser
      [.browse 2, .withdraw 1, .browse 2]).bind (·.objects[2]?),
      (replay ∅ (told 0 7 o)).toList ≠ o.getInstances := by decide
  refine hbad o ?_ hrep
  have hrun : run (step "h".toList) browser ([.browse 2, .withdraw 1] ++ [.browse 2]) = some s' :=
    run_append_eq_some.mpr ⟨s, hs, run_cons_eq_some.mpr ⟨s', hs', rfl⟩⟩
  exact Option.mem_def.mpr (by rw [← ho]; exact congrArg (Option.bind · (·.objects[2]?)) hrun)

end Servus.Test
