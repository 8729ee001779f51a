import Servus.Avahi.Trace

/-!
# Browsing with avahi: the instance map and what is on the network

The library announces and withdraws an instance for each interface and protocol and resolves each
announcement in its own time, while `_instanceMap` is keyed by the name alone: a `REMOVE` on one
interface drops a name that another one still has, and a `FOUND` that comes behind the `REMOVE` of
its announcement lists the name again.

`Session` keeps the announcements beside the object. `Faithful` is that exactly the names with a
resolved announcement that stands are listed. `faithful_iff_stepOk`: it holds after every event of
a session if and only if every event meets `StepOk`.
-/

namespace Servus.Avahi

open Cpp

/-- A resolved instance in scope is listed, whatever its record holds. -/
theorem resolveCB_found {s : Service} (hs : s.scope = .IF_ALL) (name host : Str) (txt : List Str)
    (isLocal : Bool) (errno : Int) :
    ∃ s', s.resolveCB .FOUND name host txt isLocal errno = .ok s' ∧ s'.scope = .IF_ALL ∧
      ∀ n, n ∈ s'.instanceMap ↔ n = name ∨ n ∈ s.instanceMap := by
  refine ⟨_, resolveCB_found_eq (by simp [hs]) name host txt errno, hs, fun n => ?_⟩
  simp only [Impl.change, Impl.notify_instanceMap, Std.ExtTreeMap.mem_insert,
    Std.compare_eq_iff_eq]
  exact or_congr_left eq_comm

/-! ## Sessions -/

/-- A `NEW` of the browser, with what became of it. -/
structure Announcement where
  ifIndex : Int
  protocol : Int
  name : Str
  /-- Its resolver has reported `FOUND`. -/
  resolved : Bool := false
  /-- There was a `REMOVE` for its interface, protocol and name since. -/
  removed : Bool := false
  deriving DecidableEq

structure Session where
  service : Service
  announcements : List Announcement := []
  deriving DecidableEq

inductive SessionEvent where
  | new (ifIndex protocol : Int) (name : Str)
  | remove (ifIndex protocol : Int) (name : Str)
  /-- The `FOUND` of the resolver of announcement number `i`. -/
  | found (i : Nat) (host : Str) (txt : List Str) (isLocal : Bool)
  deriving DecidableEq

def Announcement.isOn (a : Announcement) (ifIndex protocol : Int) (name : Str) : Prop :=
  a.ifIndex = ifIndex ∧ a.protocol = protocol ∧ a.name = name

instance (a : Announcement) (ifIndex protocol : Int) (name : Str) :
    Decidable (a.isOn ifIndex protocol name) :=
  inferInstanceAs (Decidable (_ ∧ _ ∧ _))

/-- A `REMOVE` marks the announcements that it ends. -/
def Announcement.remove (ifIndex protocol : Int) (name : Str) (a : Announcement) : Announcement :=
  if a.isOn ifIndex protocol name then { a with removed := true } else a

namespace Session

/-- The library can deliver the event: a `REMOVE` follows its `NEW`, and each resolver reports
once. -/
def Possible (s : Session) : SessionEvent → Prop
  | .new .. => True
  | .remove ifIndex protocol name =>
    ∃ a ∈ s.announcements, a.isOn ifIndex protocol name ∧ a.removed = false
  | .found i _ _ _ => ∃ a ∈ s.announcements[i]?, a.resolved = false

instance (s : Session) (e : SessionEvent) : Decidable (s.Possible e) := by
  cases e <;> unfold Possible <;> infer_instance

/-- The callback that delivers the event. -/
def callbackOf (s : Session) : SessionEvent → Callback
  | .new ifIndex protocol name => .browse ifIndex protocol .NEW name true 0
  | .remove ifIndex protocol name => .browse ifIndex protocol .REMOVE name true 0
  | .found i host txt isLocal =>
    .resolve .FOUND ((s.announcements[i]?.map (·.name)).getD []) host txt isLocal 0

/-- The announcements after the event. -/
def record (s : Session) : SessionEvent → List Announcement
  | .new ifIndex protocol name =>
    s.announcements ++ [{ ifIndex := ifIndex, protocol := protocol, name := name }]
  | .remove ifIndex protocol name =>
    s.announcements.map (Announcement.remove ifIndex protocol name)
  | .found i _ _ _ => s.announcements.modify i fun a => { a with resolved := true }

def step (env : Env) (s : Session) (e : SessionEvent) : Option Session :=
  if s.Possible e then
    (s.service.callback env (s.callbackOf e)).toOption.map fun v => ⟨v, s.record e⟩
  else none

/-- Some announcement of the name is resolved and stands. -/
def Present (s : Session) (n : Str) : Prop :=
  ∃ a ∈ s.announcements, a.name = n ∧ a.resolved = true ∧ a.removed = false

instance (s : Session) (n : Str) : Decidable (s.Present n) :=
  inferInstanceAs (Decidable (∃ a ∈ s.announcements, _))

/-- Exactly the names that are present are listed. -/
def Faithful (s : Session) : Prop := ∀ n, n ∈ s.service.getInstances ↔ s.Present n

/-- The condition on an event: a `REMOVE` ends the last resolved announcement of its name, and a
`FOUND` belongs to an announcement that stands, or its name is present anyway. -/
def StepOk (s : Session) : SessionEvent → Prop
  | .new .. => True
  | .remove ifIndex protocol name =>
    ∀ a ∈ s.announcements, a.name = name → a.resolved = true → a.removed = false →
      a.ifIndex = ifIndex ∧ a.protocol = protocol
  | .found i _ _ _ => ∀ a ∈ s.announcements[i]?, a.removed = true → s.Present a.name

instance (s : Session) (e : SessionEvent) : Decidable (s.StepOk e) := by
  cases e <;> unfold StepOk <;> infer_instance

/-! ## One event -/

theorem present_new {s : Session} {v : Service} {ifIndex protocol : Int} {name n : Str} :
    Present ⟨v, s.record (.new ifIndex protocol name)⟩ n ↔ s.Present n := by
  simp only [Present, record, List.mem_append, List.mem_singleton]
  constructor
  · rintro ⟨a, ha | rfl, hn, hr, hl⟩
    · exact ⟨a, ha, hn, hr, hl⟩
    · cases hr
  · rintro ⟨a, ha, h⟩
    exact ⟨a, .inl ha, h⟩

theorem present_remove {s : Session} {v : Service} {ifIndex protocol : Int} {name n : Str} :
    Present ⟨v, s.record (.remove ifIndex protocol name)⟩ n ↔
      ∃ a ∈ s.announcements, a.name = n ∧ a.resolved = true ∧ a.removed = false ∧
        ¬ a.isOn ifIndex protocol name := by
  simp only [Present, record, List.mem_map]
  constructor
  · rintro ⟨_, ⟨a, ha, rfl⟩, hn, hr, hl⟩
    by_cases hon : a.isOn ifIndex protocol name
    · simp [Announcement.remove, hon] at hl
    · rw [Announcement.remove, if_neg hon] at hn hr hl
      exact ⟨a, ha, hn, hr, hl, hon⟩
  · rintro ⟨a, ha, hn, hr, hl, hon⟩
    exact ⟨a, ⟨a, ha, by rw [Announcement.remove, if_neg hon]⟩, hn, hr, hl⟩

theorem present_found {s : Session} {v : Service} {i : Nat} {host : Str} {txt : List Str}
    {isLocal : Bool} {a : Announcement} (ha : s.announcements[i]? = some a) {n : Str} :
    Present ⟨v, s.record (.found i host txt isLocal)⟩ n ↔
      s.Present n ∨ (a.name = n ∧ a.removed = false) := by
  have hmem : ∀ b, b ∈ s.announcements.modify i (fun a => { a with resolved := true }) ↔
      b = { a with resolved := true } ∨ ∃ j, j ≠ i ∧ s.announcements[j]? = some b := by
    intro b
    simp only [List.mem_iff_getElem?, List.getElem?_modify]
    constructor
    · rintro ⟨j, hj⟩
      by_cases hji : i = j
      · subst hji
        simp only [↓reduceIte, ha] at hj
        exact .inl (by simpa using hj.symm)
      · exact .inr ⟨j, Ne.symm hji, by simpa [hji] using hj⟩
    · rintro (rfl | ⟨j, hji, hj⟩)
      · exact ⟨i, by simp [ha]⟩
      · exact ⟨j, by simp [Ne.symm hji, hj]⟩
  simp only [Present, record, hmem]
  constructor
  · rintro ⟨b, rfl | ⟨j, -, hj⟩, hn, hr, hl⟩
    · exact .inr ⟨hn, hl⟩
    · exact .inl ⟨b, List.mem_of_getElem? hj, hn, hr, hl⟩
  · rintro (⟨b, hb, hn, hr, hl⟩ | ⟨hn, hl⟩)
    · obtain ⟨j, hj⟩ := List.mem_iff_getElem?.mp hb
      by_cases hji : j = i
      · -- the announcement itself, resolved before
        subst hji
        obtain rfl : a = b := by simpa [ha] using hj
        exact ⟨_, .inl rfl, hn, rfl, hl⟩
      · exact ⟨b, .inr ⟨j, hji, hj⟩, hn, hr, hl⟩
    · exact ⟨_, .inl rfl, hn, rfl, hl⟩

/-- Every possible event has its step, and it keeps the map faithful exactly when it meets
`StepOk`. -/
theorem step_faithful (env : Env) {s : Session} {e : SessionEvent}
    (hscope : s.service.scope = .IF_ALL) (hf : s.Faithful) (hp : s.Possible e) :
    ∃ s', step env s e = some s' ∧ s'.service.scope = .IF_ALL ∧ (s'.Faithful ↔ s.StepOk e) := by
  simp only [Faithful, Impl.mem_getInstances] at hf
  cases e with
  | new ifIndex protocol name =>
    refine ⟨⟨s.service, s.record (.new ifIndex protocol name)⟩, ?_, hscope, ?_⟩
    · rw [step, if_pos hp]; rfl
    · simp only [Faithful, StepOk, iff_true, Impl.mem_getInstances, present_new]
      exact hf
  | remove ifIndex protocol name =>
    refine ⟨⟨s.service.browseCB .REMOVE name true 0, s.record (.remove ifIndex protocol name)⟩,
      by rw [step, if_pos hp]; rfl, hscope, ?_⟩
    have hlist : ∀ n, n ∈ (s.service.browseCB .REMOVE name true 0).instanceMap ↔
        n ≠ name ∧ s.Present n := by
      intro n
      simp only [Service.browseCB, Impl.notify_instanceMap, Std.ExtTreeMap.mem_erase, hf,
        ne_eq, Std.compare_eq_iff_eq]
      exact and_congr_left' (not_congr eq_comm)
    simp only [Faithful, StepOk, Impl.mem_getInstances, hlist, present_remove]
    constructor
    · intro h a ha hn hr hl
      by_contra hon
      have hpres := (h name).mpr ⟨a, ha, hn, hr, hl, fun hon' => hon ⟨hon'.1, hon'.2.1⟩⟩
      exact hpres.1 rfl
    · intro h n
      constructor
      · rintro ⟨hne, a, ha, hn, hr, hl⟩
        exact ⟨a, ha, hn, hr, hl, fun hon => hne (hn ▸ hon.2.2)⟩
      · rintro ⟨a, ha, hn, hr, hl, hon⟩
        refine ⟨?_, a, ha, hn, hr, hl⟩
        rintro rfl
        obtain ⟨h1, h2⟩ := h a ha hn hr hl
        exact hon ⟨h1, h2, hn⟩
  | found i host txt isLocal =>
    obtain ⟨a, ha, hr⟩ := hp
    obtain ⟨v, hv, hscope', hlist⟩ := resolveCB_found hscope a.name host txt isLocal 0
    have hpos : s.Possible (.found i host txt isLocal) := ⟨a, ha, hr⟩
    rw [Option.mem_def] at ha
    refine ⟨⟨v, s.record (.found i host txt isLocal)⟩, ?_, hscope', ?_⟩
    · simp [step, hpos, callbackOf, ha, Service.callback, hv, Except.toOption]
    · simp only [Faithful, StepOk, Impl.mem_getInstances, hlist, hf, present_found ha, ha,
        Option.mem_def, Option.some.injEq, forall_eq']
      constructor
      · intro h hremoved
        rcases (h a.name).mp (.inl rfl) with hpres | ⟨-, hl⟩
        · exact hpres
        · rw [hremoved] at hl; cases hl
      · intro h n
        constructor
        · rintro (rfl | hpres)
          · cases hl : a.removed with
            | true => exact .inl (h hl)
            | false => exact .inr ⟨rfl, rfl⟩
          · exact .inl hpres
        · rintro (hpres | ⟨rfl, -⟩)
          · exact .inr hpres
          · exact .inl rfl

/-- The session that `beginBrowsing(IF_ALL)` starts. -/
def start (v : Service) : Session := ⟨(v.beginBrowsing .IF_ALL true 0).1, []⟩

/-- An event that the library can deliver is handled, and then the map is faithful. -/
def FaithfulAfter (env : Env) (s : Session) (e : SessionEvent) : Prop :=
  s.Possible e → ∃ s', step env s e = some s' ∧ s'.Faithful

/-- From any object that begins to browse with `IF_ALL`, and along any sequence of events: after
each event exactly the names that are present are listed, if and only if each event meets
`StepOk`. -/
theorem faithful_iff_stepOk (env : Env) {v : Service} (hv : v.browser = false)
    (events : List SessionEvent) :
    EveryStep (step env) (FaithfulAfter env) (start v) events ↔
      EveryStep (step env) (fun s e => s.Possible e → s.StepOk e) (start v) events := by
  have hstart : (start v).service.scope = .IF_ALL ∧ (start v).Faithful := by
    simp [start, Service.beginBrowsing, hv, Faithful, Present, Impl.mem_getInstances]
  have hiff : ∀ s e, (s.service.scope = .IF_ALL ∧ s.Faithful) →
      (FaithfulAfter env s e ↔ (s.Possible e → s.StepOk e)) := by
    rintro s e ⟨hscope, hf⟩
    refine forall_congr' fun hp => ?_
    obtain ⟨s', hs', -, hok⟩ := step_faithful env hscope hf hp
    simp [hs', hok]
  have hkeep : ∀ s e s', (s.service.scope = .IF_ALL ∧ s.Faithful) → FaithfulAfter env s e →
      step env s e = some s' → s'.service.scope = .IF_ALL ∧ s'.Faithful := by
    rintro s e s' ⟨hscope, hf⟩ hafter hs
    have hp : s.Possible e := by
      by_contra hp
      rw [step, if_neg hp] at hs
      cases hs
    obtain ⟨t, ht, hscope', -⟩ := step_faithful env hscope hf hp
    obtain ⟨t', ht', hf'⟩ := hafter hp
    obtain rfl : t = s' := by simpa [ht] using hs
    obtain rfl : t = t' := by simpa [ht] using ht'
    exact ⟨hscope', hf'⟩
  exact everyStep_congr hiff hkeep hstart

/-- On two interfaces, and removed on one before it is resolved on the other. -/
theorem faithful_iff_stepOk_two_interfaces :
    EveryStep (step (.documented [])) (FaithfulAfter (.documented []))
      (start { name := "_t._tcp".toList })
      [.new 1 0 "x".toList, .new 2 0 "x".toList, .found 0 "h".toList ["k=v".toList] false,
        .remove 1 0 "x".toList, .found 1 "h".toList [] false, .remove 2 0 "x".toList] :=
  (faithful_iff_stepOk (.documented []) rfl _).mpr (by decide)

/-- Announced and resolved on two interfaces. -/
def twoFound : List SessionEvent :=
  [.new 1 0 "x".toList, .new 2 0 "x".toList, .found 0 "h".toList [] false,
    .found 1 "h".toList [] false]

/-- Removed on one of two interfaces, the name is not listed any more. -/
theorem not_faithful_remove : ¬ ∀ (env : Env) (v : Service) (events : List SessionEvent),
    v.browser = false → EveryStep (step env) (FaithfulAfter env) (start v) events := by
  intro h
  have hsteps := h (.documented []) { name := "_t._tcp".toList }
    (twoFound ++ [.remove 1 0 "x".toList]) rfl
  obtain ⟨s, hs⟩ : ∃ s, run (step (.documented [])) (start { name := "_t._tcp".toList }) twoFound =
      some s := Option.isSome_iff_exists.mp (by decide)
  have hbad : ∀ s ∈ run (step (.documented [])) (start { name := "_t._tcp".toList }) twoFound,
      s.Possible (.remove 1 0 "x".toList) ∧
      ∀ s' ∈ step (.documented []) s (.remove 1 0 "x".toList),
        "x".toList ∉ s'.service.getInstances ∧ s'.Present "x".toList := by decide
  obtain ⟨hp, hafter⟩ := hbad s hs
  obtain ⟨s', hs', hf⟩ := hsteps.last hs hp
  exact (hafter s' hs').1 ((hf _).mpr (hafter s' hs').2)

end Session

end Servus.Avahi
