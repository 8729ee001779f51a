import Servus.Avahi.Trace

/-!
# Announcing with avahi

A service reaches its entry group from three places, each behind its own guard: `announce`, `set`
and the client's `RUNNING` callback, which may run inside any poll. What they have in common is
`createServices_spec`: the group holds at most the entry that was just handed over, built from the
present name, port and data.

`Announcing` is the part of the object that this is about; the other callbacks and the browsing
calls leave it alone, so that an invariant over it need only survive `RUNNING`
(`browsing_invariant`). `Withdrawn` and `Current` are the two invariants.
-/

namespace Servus.Avahi

open Cpp

variable {env : Env}

/-- The part of the object that announcing is about. -/
structure Announcing where
  name : Str
  data : ValueMap
  group : Option (List Entry)
  announceName : Str
  port : UInt16
  announcable : Bool
  handed : Option Entry

namespace Service

def announcing (s : Service) : Announcing where
  name := s.name
  data := s.data
  group := s.group
  announceName := s.announceName
  port := s.port
  announcable := s.announcable
  handed := s.handed

/-- The entry for the present name, port and data. -/
def entry (env : Env) (s : Service) : Entry :=
  ⟨cStr s.announceName, cStr s.name, s.port, env.encode s.data⟩

/-- `_createServices` hands over the present entry, and nothing else is in the group after it. -/
theorem createServices_spec (env : Env) (s : Service) (c : Create) :
    (s.createServices env c).announceName = s.announceName ∧
    (s.createServices env c).port = s.port ∧
    (s.createServices env c).announcable = s.announcable ∧
    (s.createServices env c).entry env = s.entry env ∧
    ((s.createServices env c).isAnnounced = true →
      (s.createServices env c).handed = some (s.entry env)) := by
  unfold createServices
  cases hg : s.group with
  | none =>
    cases c.newGroup with
    | false => simp [isAnnounced, entry]
    | true =>
      by_cases ha : c.add = Result.SUCCESS
      · simp [isAnnounced, entry, ha]
      · simp [isAnnounced, entry, ha]
  | some entries =>
    by_cases ha : c.add = Result.SUCCESS
    · simp [isAnnounced, entry, reset, hg, ha]
    · simp [isAnnounced, entry, reset, hg, ha]

theorem isAnnounced_reset (s : Service) : s.reset.isAnnounced = false := by
  unfold isAnnounced reset
  cases s.group <;> rfl

end Service

/-! ## What leaves announcing alone -/

def Op.isAnnounce : Op → Bool
  | .announce .. => true
  | _ => false

/-- A browsing call or a callback. -/
def Op.isBrowsing : Op → Bool
  | .beginBrowsing .. | .browse .. | .endBrowsing | .callback _ => true
  | _ => false

def Callback.isRunning : Callback → Bool
  | .client .S_RUNNING _ _ => true
  | _ => false

section Invariant

variable {I : Service → Prop}

/-- Only `RUNNING` concerns announcing. -/
theorem callback_announcing {s s' : Service} {cb : Callback} (h : s.callback env cb = .ok s') :
    (cb.isRunning = false ∧ s'.announcing = s.announcing) ∨
      ∃ errno c, cb = .client .S_RUNNING errno c ∧ s.clientCB env .S_RUNNING errno c = .ok s' := by
  cases cb with
  | client state errno c =>
    cases state with
    | S_RUNNING => exact .inr ⟨errno, c, rfl, h⟩
    | S_REGISTERING => cases h
    | S_COLLISION | FAILURE | CONNECTING =>
      cases h
      exact .inl ⟨rfl, rfl⟩
  | group state =>
    cases h
    cases state <;> exact .inl ⟨rfl, rfl⟩
  | browse ifIndex protocol event name newResolver errno =>
    cases h
    cases event with
    | NEW => cases newResolver <;> exact .inl ⟨rfl, rfl⟩
    | _ => exact .inl ⟨rfl, rfl⟩
  | resolve event name host txt isLocal errno =>
    rcases resolveCB_cases h with ⟨rfl, -⟩ | ⟨-, rfl⟩ | ⟨-, -, rfl⟩ <;> exact .inl ⟨rfl, rfl⟩

variable (hsame : ∀ s s' : Service, s'.announcing = s.announcing → I s → I s')
  (hrunning : ∀ (s s' : Service) (errno : Int) (c : Create), I s →
    s.clientCB env .S_RUNNING errno c = .ok s' → I s')

include hsame hrunning

theorem callback_invariant {s s' : Service} {cb : Callback} (h : s.callback env cb = .ok s')
    (hs : I s) : I s' := by
  rcases callback_announcing h with ⟨-, heq⟩ | ⟨errno, c, -, hr⟩
  · exact hsame s s' heq hs
  · exact hrunning s s' errno c hs hr

theorem callbacks_invariant (cbs : List Callback) {s : Service} (hs : I s) :
    I (s.callbacks env cbs).1 :=
  callbacks_delivered (R := fun s s' _ => I s → I s') (fun _ => id) (fun h h' hs => h' (h hs))
    (callback_invariant hsame hrunning) cbs s hs

theorem announceLoop_invariant (polls : List Poll) {s s' : Service} {r : Res Unit} (hs : I s)
    (h : Service.announceLoop env polls s = some (s', r)) : I s' := by
  induction polls generalizing s with
  | nil => cases h
  | cons p ps ih =>
    rw [Service.announceLoop] at h
    split at h
    · have hcb := callbacks_invariant hsame hrunning p.callbacks hs
      split at h
      · rename_i t heq
        rw [heq] at hcb
        exact ih hcb h
      · rename_i t e heq
        rw [heq] at hcb
        cases h
        exact hcb
    · cases h
      exact hs

/-- Callbacks and the browsing calls keep an invariant over announcing that survives `RUNNING`. -/
theorem browsing_invariant {s s' : Service} {op : Op} (hs : I s) (hop : op.isBrowsing = true)
    (h : step env s op = some s') : I s' := by
  cases op with
  | announce | withdraw | set => cases hop
  | beginBrowsing addr newBrowser errno =>
    cases h
    unfold Service.beginBrowsing
    split
    · exact hs
    · cases newBrowser <;> exact hsame s _ rfl hs
  | browse timeout polls =>
    obtain ⟨⟨t, r⟩, ht, rfl⟩ := Option.map_eq_some_iff.mp h
    exact browse_delivered (R := fun s s' _ => I s → I s') (fun _ => id)
      (fun h h' hs => h' (h hs)) (callback_invariant hsame hrunning) (fun s _ => hsame s _ rfl)
      ht hs
  | endBrowsing =>
    cases h
    exact hsame s _ rfl hs
  | callback cb =>
    cases h
    exact callbacks_invariant hsame hrunning [cb] hs

end Invariant

/-! ## Withdrawn -/

/-- No name is to be announced, and none is. -/
structure Withdrawn (s : Service) : Prop where
  announceName : s.announceName = []
  isAnnounced : s.isAnnounced = false

theorem withdrawn_withdraw (s : Service) : Withdrawn s.withdraw :=
  ⟨rfl, Service.isAnnounced_reset _⟩

theorem isAnnounced_same {s s' : Service} (h : s'.announcing = s.announcing) :
    s'.isAnnounced = s.isAnnounced := by
  have hgroup : s'.group = s.group := congrArg Announcing.group h
  rw [Service.isAnnounced, Service.isAnnounced, hgroup]

theorem withdrawn_same (s s' : Service) (h : s'.announcing = s.announcing) (hs : Withdrawn s) :
    Withdrawn s' :=
  ⟨(congrArg Announcing.announceName h).trans hs.announceName,
    (isAnnounced_same h).trans hs.isAnnounced⟩

theorem withdrawn_running (s s' : Service) (errno : Int) (c : Create) (hs : Withdrawn s)
    (h : s.clientCB env .S_RUNNING errno c = .ok s') : Withdrawn s' := by
  simp only [Service.clientCB, hs.announceName, ne_eq, not_true_eq_false, ↓reduceIte,
    Except.ok.injEq] at h
  subst h
  exact ⟨rfl, hs.isAnnounced⟩

/-- Nothing but `announce` ends it. -/
theorem withdrawn_step {s s' : Service} {op : Op} (hs : Withdrawn s)
    (hop : op.isAnnounce = false) (h : step env s op = some s') : Withdrawn s' := by
  cases op with
  | announce => cases hop
  | withdraw =>
    cases h
    exact withdrawn_withdraw s
  | set key value c =>
    have hset : s.set env key value c = { s with toImpl := s.toImpl.setData key value } :=
      if_pos (.inl hs.announceName)
    rw [step, hset] at h
    cases h
    exact ⟨hs.announceName, hs.isAnnounced⟩
  | beginBrowsing | browse | endBrowsing | callback =>
    exact browsing_invariant withdrawn_same withdrawn_running hs rfl h

/-! ## Announced -/

/-- What is announced is the present name, port and data, and there is no group before the client
runs. -/
structure Current (env : Env) (s : Service) : Prop where
  handed : s.isAnnounced = true → s.announceName ≠ [] ∧ s.handed = some (s.entry env)
  group : s.announcable = false → s.group = none

theorem Current.isAnnounced_eq_false {s : Service} (h : Current env s)
    (hs : s.announceName = [] ∨ s.announcable = false) : s.isAnnounced = false := by
  rcases hs with hs | hs
  · by_contra ha
    exact (h.handed (by simpa using ha)).1 hs
  · rw [Service.isAnnounced, h.group hs]

theorem current_same (s s' : Service) (h : s'.announcing = s.announcing) (hs : Current env s) :
    Current env s' := by
  have hname : s'.announceName = s.announceName := congrArg Announcing.announceName h
  have hentry : s'.entry env = s.entry env :=
    congrArg (fun a : Announcing => (⟨cStr a.announceName, cStr a.name, a.port,
      env.encode a.data⟩ : Entry)) h
  refine ⟨fun ha => ?_, fun ha => ?_⟩
  · rw [isAnnounced_same h] at ha
    rw [hname, hentry, show s'.handed = s.handed from congrArg Announcing.handed h]
    exact hs.handed ha
  · rw [show s'.announcable = s.announcable from congrArg Announcing.announcable h] at ha
    rw [show s'.group = s.group from congrArg Announcing.group h]
    exact hs.group ha

/-- Creating the services makes them current. -/
theorem current_createServices {s : Service} (hname : s.announceName ≠ [])
    (ha : s.announcable = true) (c : Create) : Current env (s.createServices env c) := by
  obtain ⟨h1, -, h3, h4, h5⟩ := Service.createServices_spec env s c
  refine ⟨fun hann => ⟨h1 ▸ hname, ?_⟩, fun hfalse => ?_⟩
  · rw [h4]
    exact h5 hann
  · rw [h3, ha] at hfalse
    cases hfalse

theorem current_running (s s' : Service) (errno : Int) (c : Create) (hs : Current env s)
    (h : s.clientCB env .S_RUNNING errno c = .ok s') : Current env s' := by
  simp only [Service.clientCB, Except.ok.injEq] at h
  subst h
  split
  · rename_i hname
    apply current_createServices
    · exact hname
    · rfl
  · rename_i hname
    have hnone := hs.isAnnounced_eq_false (.inl (not_not.mp hname))
    refine ⟨fun ha => ?_, nofun⟩
    rw [show Service.isAnnounced { s with announcable := true } = s.isAnnounced from rfl,
      hnone] at ha
    cases ha

/-- The name that `announce` takes. -/
def Env.effectiveName (env : Env) (instanceName : Str) : Str :=
  if instanceName = [] then env.hostname else instanceName

def Op.Named (env : Env) : Op → Prop
  | .announce _ instanceName _ _ => env.effectiveName instanceName ≠ []
  | _ => True

theorem current_announce {s s' : Service} {port : UInt16} {instanceName : Str} {c : Create}
    {polls : List Poll} {r : Res Result} (hs : Current env s)
    (hname : env.effectiveName instanceName ≠ [])
    (h : s.announce env port instanceName c polls = some (s', r)) : Current env s' := by
  unfold Service.announce at h
  dsimp only at h
  split at h
  · rename_i ha
    cases h
    apply current_createServices
    · exact hname
    · exact ha
  · rename_i ha
    have ha : s.announcable = false := by simpa using ha
    obtain ⟨⟨t, r'⟩, ht, h⟩ := Option.map_eq_some_iff.mp h
    cases h
    -- there is no group yet, so nothing is announced under the name before
    have hstart : Current env { s with
        result := Result.PENDING
        port := port
        announceName := env.effectiveName instanceName } := by
      refine ⟨fun hann => ?_, fun _ => hs.group ha⟩
      simp [Service.isAnnounced, hs.group ha] at hann
    exact announceLoop_invariant current_same current_running polls hstart ht

theorem current_step {s s' : Service} {op : Op} (hs : Current env s) (hop : op.Named env)
    (h : step env s op = some s') : Current env s' := by
  cases op with
  | announce port instanceName c polls =>
    obtain ⟨⟨t, r⟩, ht, rfl⟩ := Option.map_eq_some_iff.mp h
    exact current_announce hs hop ht
  | withdraw =>
    cases h
    refine ⟨fun ha => ?_, fun ha => ?_⟩
    · rw [(withdrawn_withdraw s).isAnnounced] at ha
      cases ha
    · simp [Service.withdraw, Service.reset, hs.group ha]
  | set key value c =>
    cases h
    unfold Service.set Service.updateRecord
    split
    · -- nothing is announced, so the data may change
      rename_i hguard
      have hnone := hs.isAnnounced_eq_false hguard
      refine ⟨fun ha => ?_, hs.group⟩
      rw [show Service.isAnnounced { s with toImpl := s.toImpl.setData key value } =
        s.isAnnounced from rfl, hnone] at ha
      cases ha
    · rename_i hguard
      obtain ⟨hname, ha⟩ := not_or.mp hguard
      apply current_createServices
      · exact hname
      · exact Bool.eq_true_of_not_eq_false ha
  | beginBrowsing | browse | endBrowsing | callback =>
    exact browsing_invariant current_same current_running hs rfl h

/-! ## The latest announcement -/

/-- The name and port are those of the latest `announce`, unless it was withdrawn. -/
def Latest (announceName : Str) (port : UInt16) (s : Service) : Prop :=
  s.announceName = announceName ∧ s.port = port ∨ Withdrawn s

theorem latest_same {n : Str} {port : UInt16} (s s' : Service)
    (h : s'.announcing = s.announcing) (hs : Latest n port s) : Latest n port s' :=
  hs.imp (fun hs => ⟨(congrArg Announcing.announceName h).trans hs.1,
    (congrArg Announcing.port h).trans hs.2⟩) (withdrawn_same s s' h)

theorem latest_createServices {n : Str} {port : UInt16} {s : Service} (hn : s.announceName = n)
    (hp : s.port = port) (c : Create) : Latest n port (s.createServices env c) := by
  obtain ⟨h1, h2, -⟩ := Service.createServices_spec env s c
  exact .inl ⟨h1.trans hn, h2.trans hp⟩

theorem latest_running {n : Str} {port : UInt16} (s s' : Service) (errno : Int) (c : Create)
    (hs : Latest n port s) (h : s.clientCB env .S_RUNNING errno c = .ok s') :
    Latest n port s' := by
  rcases hs with ⟨hn, hp⟩ | hw
  · simp only [Service.clientCB, Except.ok.injEq] at h
    subst h
    split
    · apply latest_createServices
      · exact hn
      · exact hp
    · exact .inl ⟨hn, hp⟩
  · exact .inr (withdrawn_running s s' errno c hw h)

theorem latest_announce {s s' : Service} {port : UInt16} {instanceName : Str} {c : Create}
    {polls : List Poll} {r : Res Result}
    (h : s.announce env port instanceName c polls = some (s', r)) :
    Latest (env.effectiveName instanceName) port s' := by
  unfold Service.announce at h
  dsimp only at h
  split at h
  · cases h
    apply latest_createServices <;> rfl
  · obtain ⟨⟨t, r'⟩, ht, h⟩ := Option.map_eq_some_iff.mp h
    cases h
    exact announceLoop_invariant latest_same latest_running polls (.inl ⟨rfl, rfl⟩) ht

theorem latest_step {n : Str} {port : UInt16} {s s' : Service} {op : Op} (hs : Latest n port s)
    (hop : op.isAnnounce = false) (h : step env s op = some s') : Latest n port s' := by
  rcases hs with ⟨hn, hp⟩ | hw
  · cases op with
    | announce => cases hop
    | withdraw =>
      cases h
      exact .inr (withdrawn_withdraw s)
    | set key value c =>
      cases h
      unfold Service.set Service.updateRecord
      split
      · exact .inl ⟨hn, hp⟩
      · apply latest_createServices
        · exact hn
        · exact hp
    | beginBrowsing | browse | endBrowsing | callback =>
      exact browsing_invariant latest_same latest_running (.inl ⟨hn, hp⟩) rfl h
  · exact .inr (withdrawn_step hw hop h)

end Servus.Avahi
