import Servus.Avahi.Attempts
import Servus.Service.Effects

/-!
# The history of an object, with avahi

`Call` is every public call with an effect, and every callback. The callbacks that a call delivers
from inside its loop, `announce` included, are in the history of the call (`Service.effects`), and
`call_effects` says that the shared data depends on nothing else.
-/

namespace Servus.Avahi

open Cpp

variable {env : Env}

/-- A public call, also about listeners, or a callback. -/
inductive Call where
  | op (op : Op)
  | discover (addr : Interface) (newBrowser : Bool) (errno : Int) (browseTime : UInt32)
      (polls : List Poll)
  | addListener (listener : Nat)
  | removeListener (listener : Nat)

/-- The object after a call, also when it throws. -/
def call (env : Env) (s : Service) : Call → Option Service
  | .op op => step env s op
  | .discover addr newBrowser errno browseTime polls =>
    (s.discover env addr newBrowser errno browseTime polls).map (·.1)
  | .addListener listener => some { s with toImpl := s.toImpl.addListener listener }
  | .removeListener listener => some { s with toImpl := s.toImpl.removeListener listener }

/-! ## The changes of `announce` -/

/-- `s'` is `s` with the changes of `cbs` made. -/
def CallbacksChanged (s s' : Service) (cbs : List Callback) : Prop :=
  Changed s s' (cbs.flatMap (Callback.changes s.scope))

theorem CallbacksChanged.trans {s t u : Service} {cbs cbs' : List Callback}
    (h : CallbacksChanged s t cbs) (h' : CallbacksChanged t u cbs') :
    CallbacksChanged s u (cbs ++ cbs') := by
  rw [CallbacksChanged, h.scope] at h'
  rw [CallbacksChanged, List.flatMap_append]
  exact Changed.trans h h'

theorem callbacksChanged_of_callback {s s' : Service} {cb : Callback}
    (h : s.callback env cb = .ok s') : CallbacksChanged s s' [cb] := by
  simpa [CallbacksChanged] using callback_changed h

theorem callbacks_changed (env : Env) (cbs : List Callback) (s : Service) :
    CallbacksChanged s (s.callbacks env cbs).1 (untilThrow cbs) :=
  callbacks_delivered (fun _ => ⟨rfl, rfl⟩) CallbacksChanged.trans callbacksChanged_of_callback
    cbs s

/-- What an `announce` changes: until the client runs it polls, and any callback may come. -/
def Service.announceChanges (env : Env) (s : Service) (instanceName : Str) (polls : List Poll) :
    List Change :=
  if s.announcable then []
  else (announceDelivered (env.effectiveName instanceName ≠ []) s.scope polls s.announcable
    ⟨s.group.isSome, Result.PENDING⟩).flatMap (Callback.changes s.scope)

theorem announce_changed {s s' : Service} {port : UInt16} {instanceName : Str} {c : Create}
    {polls : List Poll} {r : Res Result}
    (h : s.announce env port instanceName c polls = some (s', r)) :
    s'.toImpl = (s.announceChanges env instanceName polls).foldl Impl.change s.toImpl := by
  unfold Service.announce at h
  dsimp only at h
  rw [Service.announceChanges]
  split at h
  · rename_i ha
    obtain ⟨rfl, -⟩ := Prod.mk.inj (Option.some.inj h)
    rw [if_pos ha]
    exact (createServices_changed env _ c).toImpl
  · rename_i ha
    obtain ⟨⟨t, r'⟩, ht, h⟩ := Option.map_eq_some_iff.mp h
    obtain ⟨rfl, -⟩ := Prod.mk.inj h
    have hchanged := announceLoop_delivered (R := CallbacksChanged) (fun _ => ⟨rfl, rfl⟩)
      CallbacksChanged.trans callbacksChanged_of_callback ht
    rw [if_neg ha]
    exact hchanged.toImpl

/-! ## The effects of a call -/

/-- `beginBrowsing` clears the map, unless the object browses already. -/
def Service.beginEffects (s : Service) : List Effect := if s.browser then [] else [.clear]

/-- What a call does to the shared data. -/
def Service.effects (env : Env) (s : Service) : Call → List Effect
  | .op (.announce _ instanceName _ polls) =>
    (s.announceChanges env instanceName polls).map .change
  | .op (.set key value _) => [.set key value]
  | .op (.beginBrowsing ..) => s.beginEffects
  | .op (.browse timeout polls) => (s.browseChanges timeout polls).map .change
  | .op (.callback cb) => ((untilThrow [cb]).flatMap (Callback.changes s.scope)).map .change
  | .op .withdraw | .op .endBrowsing => []
  | .discover addr newBrowser errno browseTime polls =>
    let begun := s.beginBrowsing addr newBrowser errno
    s.beginEffects ++
      if begun.2 = Result.SUCCESS ∨ begun.2 = Result.PENDING then
        (begun.1.browseChanges browseTime.toInt32.toInt polls).map .change
      else []
  | .addListener listener => [.addListener listener]
  | .removeListener listener => [.removeListener listener]

theorem beginBrowsing_effects (s : Service) (addr : Interface) (newBrowser : Bool) (errno : Int) :
    (s.beginBrowsing addr newBrowser errno).1.toImpl =
      s.beginEffects.foldl Impl.apply s.toImpl := by
  unfold Service.beginBrowsing Service.beginEffects
  by_cases hb : s.browser = true
  · rw [if_pos hb, if_pos hb]
    rfl
  · rw [if_neg hb, if_neg hb]
    cases newBrowser <;> rfl

theorem set_toImpl (env : Env) (s : Service) (key value : Str) (c : Create) :
    (s.set env key value c).toImpl = s.toImpl.setData key value := by
  unfold Service.set Service.updateRecord
  split
  · rfl
  · exact (createServices_changed env _ c).toImpl

theorem discoverFrom_toImpl {s s' : Service} {res : Result} {browseTime : UInt32}
    {polls : List Poll} {r : Res Unit}
    (h : s.discoverFrom env res browseTime polls = some (s', r)) :
    s'.toImpl = (if res = Result.SUCCESS ∨ res = Result.PENDING then
      s.browseChanges browseTime.toInt32.toInt polls else []).foldl Impl.change s.toImpl := by
  unfold Service.discoverFrom at h
  split at h
  · rename_i hres
    rw [if_pos hres]
    obtain ⟨⟨t, r'⟩, ht, h⟩ := Option.map_eq_some_iff.mp h
    rw [← (browse_changed ht).toImpl]
    cases r' with
    | error e =>
      obtain ⟨rfl, -⟩ := Prod.mk.inj h
      rfl
    | ok u =>
      obtain ⟨rfl, -⟩ := Prod.mk.inj h
      split <;> rfl
  · rename_i hres
    rw [if_neg hres]
    obtain ⟨rfl, -⟩ := Prod.mk.inj (Option.some.inj h)
    rfl

/-- The shared data behind a call is the data in front of it, with the effects of the call. -/
theorem call_effects (env : Env) (s : Service) (c : Call) (s' : Service)
    (h : call env s c = some s') :
    s'.toImpl = (s.effects env c).foldl Impl.apply s.toImpl := by
  cases c with
  | op op =>
    cases op with
    | announce port instanceName c polls =>
      obtain ⟨⟨t, r⟩, ht, rfl⟩ := Option.map_eq_some_iff.mp h
      rw [Service.effects, Impl.foldl_apply_change]
      exact announce_changed ht
    | withdraw | endBrowsing =>
      cases h
      rfl
    | set key value c =>
      cases h
      exact set_toImpl env s key value c
    | beginBrowsing addr newBrowser errno =>
      cases h
      exact beginBrowsing_effects s addr newBrowser errno
    | browse timeout polls =>
      obtain ⟨⟨t, r⟩, ht, rfl⟩ := Option.map_eq_some_iff.mp h
      rw [Service.effects, Impl.foldl_apply_change]
      exact (browse_changed ht).toImpl
    | callback cb =>
      cases h
      rw [Service.effects, Impl.foldl_apply_change]
      exact (callbacks_changed env [cb] s).toImpl
  | discover addr newBrowser errno browseTime polls =>
    obtain ⟨⟨t, r⟩, ht, rfl⟩ := Option.map_eq_some_iff.mp h
    obtain ⟨⟨u, r'⟩, hu, h⟩ := Option.map_eq_some_iff.mp ht
    obtain ⟨rfl, -⟩ := Prod.mk.inj h
    rw [Service.effects, List.foldl_append, ← beginBrowsing_effects s addr newBrowser errno,
      discoverFrom_toImpl hu]
    split
    · rw [Impl.foldl_apply_change]
    · rfl
  | addListener listener | removeListener listener =>
    cases h
    rfl

/-! ## `discover` -/

/-- `discover` is a run of the browsing calls. -/
theorem discover_run {s s' : Service} {addr : Interface} {newBrowser : Bool} {errno : Int}
    {browseTime : UInt32} {polls : List Poll} {r : Res (List Str)}
    (h : s.discover env addr newBrowser errno browseTime polls = some (s', r)) :
    ∃ ops, (∀ op ∈ ops, op.isBrowsing = true) ∧ run (step env) s ops = some s' := by
  obtain ⟨⟨t, r'⟩, ht, h⟩ := Option.map_eq_some_iff.mp h
  obtain ⟨rfl, -⟩ := Prod.mk.inj h
  have hbegin : step env s (.beginBrowsing addr newBrowser errno) =
      some (s.beginBrowsing addr newBrowser errno).1 := rfl
  unfold Service.discoverFrom at ht
  split at ht
  · obtain ⟨⟨u, r''⟩, hu, ht⟩ := Option.map_eq_some_iff.mp ht
    have hbrowse : step env (s.beginBrowsing addr newBrowser errno).1
        (.browse browseTime.toInt32.toInt polls) = some u :=
      Option.map_eq_some_iff.mpr ⟨_, hu, rfl⟩
    have hrun : run (step env) s [.beginBrowsing addr newBrowser errno,
        .browse browseTime.toInt32.toInt polls] = some u :=
      run_cons_eq_some.mpr ⟨_, hbegin, run_cons_eq_some.mpr ⟨u, hbrowse, rfl⟩⟩
    cases r'' with
    | error e =>
      obtain ⟨rfl, -⟩ := Prod.mk.inj ht
      exact ⟨_, by simp [Op.isBrowsing], hrun⟩
    | ok result =>
      obtain ⟨rfl, -⟩ := Prod.mk.inj ht
      split
      · exact ⟨_ ++ [.endBrowsing], by simp [Op.isBrowsing],
          run_append_eq_some.mpr ⟨u, hrun, rfl⟩⟩
      · exact ⟨_, by simp [Op.isBrowsing], hrun⟩
  · obtain ⟨rfl, -⟩ := Prod.mk.inj (Option.some.inj ht)
    exact ⟨[.beginBrowsing addr newBrowser errno], by simp [Op.isBrowsing], rfl⟩

def Call.Named (env : Env) : Call → Prop
  | .op o => o.Named env
  | _ => True

theorem current_call {s s' : Service} {c : Call} (hs : Current env s) (hc : c.Named env)
    (h : call env s c = some s') : Current env s' := by
  cases c with
  | op op => exact current_step hs hc h
  | discover addr newBrowser errno browseTime polls =>
    obtain ⟨⟨t, r⟩, ht, rfl⟩ := Option.map_eq_some_iff.mp h
    obtain ⟨ops, hops, hrun⟩ := discover_run ht
    exact run_invariant hrun (fun u op v hop hu hv =>
      browsing_invariant current_same current_running hu (hops op hop) hv) hs
  | addListener listener | removeListener listener =>
    cases h
    exact current_same s _ rfl hs

/-! ## What is handed over -/

/-- What was last handed to the library is as in `s`, or the present data. -/
def HandedOver (env : Env) (s t : Service) : Prop :=
  t.handed = s.handed ∨ ∃ e, t.handed = some e ∧ e.txt = env.encode t.data

theorem handedOver_same {s : Service} (t t' : Service) (h : t'.announcing = t.announcing)
    (ht : HandedOver env s t) : HandedOver env s t' := by
  have hhanded : t'.handed = t.handed := congrArg Announcing.handed h
  have hdata : t'.data = t.data := congrArg Announcing.data h
  rw [HandedOver, hhanded, hdata]
  exact ht

theorem createServices_handed (env : Env) (s : Service) (c : Create) :
    (s.createServices env c).handed = s.handed ∨
      (s.createServices env c).handed = some (s.entry env) := by
  unfold Service.createServices
  cases hg : s.group with
  | none =>
    cases c.newGroup with
    | false => exact .inl rfl
    | true =>
      right
      by_cases ha : c.add = Result.SUCCESS
      · simp [Service.entry, ha]
      · simp [Service.entry, ha]
  | some entries =>
    right
    by_cases ha : c.add = Result.SUCCESS
    · simp [Service.entry, Service.reset, hg, ha]
    · simp [Service.entry, Service.reset, hg, ha]

theorem handedOver_createServices {s t : Service} (ht : HandedOver env s t ∨ t.handed = s.handed)
    (c : Create) : HandedOver env s (t.createServices env c) := by
  have hdata : (t.createServices env c).data = t.data :=
    congrArg Impl.data (createServices_changed env t c).toImpl
  rw [HandedOver, hdata]
  rcases createServices_handed env t c with hsame | hentry
  · rw [hsame]
    exact ht.elim id .inl
  · exact .inr ⟨_, hentry, rfl⟩

theorem handedOver_running {s : Service} (t t' : Service) (errno : Int) (c : Create)
    (ht : HandedOver env s t) (h : t.clientCB env .S_RUNNING errno c = .ok t') :
    HandedOver env s t' := by
  obtain rfl := Except.ok.inj h
  split
  · apply handedOver_createServices
    exact .inl ht
  · exact ht

theorem handedOver_step {s s' : Service} {op : Op} (h : step env s op = some s') :
    HandedOver env s s' := by
  have hself : HandedOver env s s := .inl rfl
  cases op with
  | announce port instanceName c polls =>
    obtain ⟨⟨t, r⟩, ht, rfl⟩ := Option.map_eq_some_iff.mp h
    unfold Service.announce at ht
    dsimp only at ht
    split at ht
    · obtain ⟨rfl, -⟩ := Prod.mk.inj (Option.some.inj ht)
      apply handedOver_createServices
      exact .inr rfl
    · obtain ⟨⟨u, r'⟩, hu, ht⟩ := Option.map_eq_some_iff.mp ht
      obtain ⟨rfl, -⟩ := Prod.mk.inj ht
      refine announceLoop_invariant handedOver_same handedOver_running polls ?_ hu
      exact .inl rfl
  | withdraw =>
    cases h
    exact .inl rfl
  | set key value c =>
    cases h
    unfold Service.set Service.updateRecord
    split
    · exact .inl rfl
    · apply handedOver_createServices
      exact .inr rfl
  | beginBrowsing | browse | endBrowsing | callback =>
    exact browsing_invariant handedOver_same handedOver_running hself rfl h

theorem handedOver_call {s s' : Service} {c : Call} (h : call env s c = some s') :
    HandedOver env s s' := by
  have hself : HandedOver env s s := .inl rfl
  cases c with
  | op op => exact handedOver_step h
  | discover addr newBrowser errno browseTime polls =>
    obtain ⟨⟨t, r⟩, ht, rfl⟩ := Option.map_eq_some_iff.mp h
    obtain ⟨ops, hops, hrun⟩ := discover_run ht
    exact run_invariant hrun (fun u op v hop hu hv =>
      browsing_invariant handedOver_same handedOver_running hu (hops op hop) hv) hself
  | addListener listener | removeListener listener =>
    cases h
    exact .inl rfl

/-! ## Sessions -/

def Call.mayBegin : Call → Bool
  | .op (.beginBrowsing ..) | .discover .. => true
  | _ => false

/-- The listener that a call removes. -/
def Call.removed : Call → Option Nat
  | .removeListener l => some l
  | _ => none

/-- The call starts a browsing session: the object does not browse. -/
def Call.Begins (s : Service) (c : Call) : Prop :=
  Servus.Begins Service.isBrowsing Call.mayBegin s c

instance (s : Service) (c : Call) : Decidable (c.Begins s) :=
  inferInstanceAs (Decidable (Servus.Begins _ _ s c))

/-- The call starts no session, and `listener` stays registered. -/
def Call.Keeps (listener : Nat) (s : Service) (c : Call) : Prop :=
  Servus.Keeps Service.isBrowsing Call.mayBegin Call.removed listener s c

instance (listener : Nat) (s : Service) (c : Call) : Decidable (c.Keeps listener s) :=
  inferInstanceAs (Decidable (Servus.Keeps _ _ _ listener s c))

theorem sessions (env : Env) :
    Sessions Service.isBrowsing Call.mayBegin Call.removed (Service.effects env) where
  begin s c hmay := by
    cases c with
    | op op =>
      cases op with
      | beginBrowsing addr newBrowser errno => exact ⟨[], (List.append_nil _).symm⟩
      | _ => cases hmay
    | discover addr newBrowser errno browseTime polls =>
      rw [Service.effects]
      split
      · exact ⟨_, rfl⟩
      · exact ⟨[], rfl⟩
    | addListener l | removeListener l => cases hmay
  other s c listener hmay hl := by
    cases c with
    | op op =>
      cases op with
      | announce | browse | callback => exact keeps_change listener _
      | withdraw | endBrowsing => exact fun e he => absurd he List.not_mem_nil
      | set key value c =>
        intro e he
        obtain rfl := List.mem_singleton.mp he
        rfl
      | beginBrowsing => cases hmay
    | discover => cases hmay
    | addListener l =>
      intro e he
      obtain rfl := List.mem_singleton.mp he
      rfl
    | removeListener l =>
      intro e he
      obtain rfl := List.mem_singleton.mp he
      simpa [Effect.keeps, Call.removed] using hl

/-! ## Whether the object browses -/

/-- Neither the callbacks nor the loops that deliver them start or end a session. -/
def SameBrowser (s s' : Service) (_ : List Callback) : Prop := s'.browser = s.browser

theorem SameBrowser.trans {s t u : Service} {cbs cbs' : List Callback} (h : SameBrowser s t cbs)
    (h' : SameBrowser t u cbs') : SameBrowser s u (cbs ++ cbs') :=
  Eq.trans h' h

theorem createServices_browser (env : Env) (s : Service) (c : Create) :
    (s.createServices env c).browser = s.browser := by
  unfold Service.createServices
  cases s.group <;> cases c.newGroup <;> dsimp only [Service.reset] <;> split <;>
    first | rfl | (split <;> rfl)

theorem sameBrowser_of_callback {s s' : Service} {cb : Callback}
    (h : s.callback env cb = .ok s') : SameBrowser s s' [cb] := by
  cases cb with
  | client state errno c =>
    cases state with
    | S_RUNNING =>
      cases h
      split
      · exact createServices_browser env _ c
      · rfl
    | S_REGISTERING => cases h
    | S_COLLISION | FAILURE | CONNECTING =>
      cases h
      rfl
  | group state =>
    cases h
    cases state <;> rfl
  | browse ifIndex protocol event name newResolver errno =>
    cases h
    cases event with
    | NEW => cases newResolver <;> rfl
    | REMOVE | CACHE_EXHAUSTED | ALL_FOR_NOW | FAILURE => rfl
  | resolve event name host txt isLocal errno =>
    rcases resolveCB_cases h with ⟨rfl, -⟩ | ⟨-, rfl⟩ | ⟨-, -, rfl⟩ <;> rfl

theorem browse_browser {timeout : Int} {polls : List Poll} {s s' : Service} {r : Res Result}
    (h : s.browse env timeout polls = some (s', r)) : s'.browser = s.browser :=
  browse_delivered (R := SameBrowser) (fun _ => rfl) SameBrowser.trans sameBrowser_of_callback
    (fun _ _ => rfl) h

theorem announce_browser {s s' : Service} {port : UInt16} {instanceName : Str} {c : Create}
    {polls : List Poll} {r : Res Result}
    (h : s.announce env port instanceName c polls = some (s', r)) : s'.browser = s.browser := by
  unfold Service.announce at h
  dsimp only at h
  split at h
  · obtain ⟨rfl, -⟩ := Prod.mk.inj (Option.some.inj h)
    exact createServices_browser env _ c
  · obtain ⟨⟨t, r'⟩, ht, h⟩ := Option.map_eq_some_iff.mp h
    obtain ⟨rfl, -⟩ := Prod.mk.inj h
    have hsame := announceLoop_delivered (R := SameBrowser) (fun _ => rfl) SameBrowser.trans
      sameBrowser_of_callback ht
    exact hsame

theorem beginBrowsing_browser (s : Service) (addr : Interface) (newBrowser : Bool) (errno : Int) :
    (s.beginBrowsing addr newBrowser errno).1.browser = (s.browser || newBrowser) := by
  unfold Service.beginBrowsing
  cases hb : s.browser with
  | true => exact hb
  | false => cases newBrowser <;> rfl

/-- A `browse` throws when a callback of its polls does. -/
theorem browse_throws_iff {timeout : Int} {polls : List Poll} {s s' : Service} {r : Res Result}
    (h : s.browse env timeout polls = some (s', r)) :
    (∃ e, r = .error e) ↔ loopEnd timeout polls 0 = .threw := by
  have hend := browse_end env s timeout polls
  rw [h] at hend
  cases hle : loopEnd timeout polls 0 with
  | running =>
    rw [hle] at hend
    cases hend
  | threw =>
    rw [hle] at hend
    obtain ⟨t, e, heq⟩ := hend
    cases heq
    exact ⟨fun _ => rfl, fun _ => ⟨e, rfl⟩⟩
  | gaveUp | timeUp =>
    rw [hle] at hend
    obtain ⟨t, heq⟩ := hend
    cases heq
    exact ⟨nofun, nofun⟩

/-- Whether the object browses behind a call, when it did or not in front of it. -/
def Call.browsing (b : Bool) : Call → Bool
  | .op (.beginBrowsing _ newBrowser _) => b || newBrowser
  | .op .endBrowsing => false
  | .discover _ newBrowser _ browseTime polls =>
    b || newBrowser && loopEnd browseTime.toInt32.toInt polls 0 = .threw
  | _ => b

/-- `discover` ends the session that it started, unless a callback throws. -/
theorem discover_browser {s s' : Service} {addr : Interface} {newBrowser : Bool} {errno : Int}
    {browseTime : UInt32} {polls : List Poll} {r : Res (List Str)}
    (h : s.discover env addr newBrowser errno browseTime polls = some (s', r)) :
    s'.browser = (s.browser ||
      newBrowser && loopEnd browseTime.toInt32.toInt polls 0 = .threw) := by
  obtain ⟨⟨t, r'⟩, ht, h⟩ := Option.map_eq_some_iff.mp h
  obtain ⟨rfl, -⟩ := Prod.mk.inj h
  have hbegun := beginBrowsing_browser s addr newBrowser errno
  have hres : (s.beginBrowsing addr newBrowser errno).2 =
      if s.browser then Result.PENDING else if newBrowser then Result.SUCCESS else errno := by
    unfold Service.beginBrowsing
    cases s.browser <;> cases newBrowser <;> rfl
  unfold Service.discoverFrom at ht
  split at ht
  · obtain ⟨⟨u, r''⟩, hu, ht⟩ := Option.map_eq_some_iff.mp ht
    have hsame := (browse_browser hu).trans hbegun
    have hthrows := browse_throws_iff hu
    rw [hres] at ht
    cases r'' with
    | error e =>
      obtain ⟨rfl, -⟩ := Prod.mk.inj ht
      rw [hsame, hthrows.mp ⟨e, rfl⟩]
      simp
    | ok result =>
      have hno : loopEnd browseTime.toInt32.toInt polls 0 ≠ .threw := fun hthrew => by
        obtain ⟨e, he⟩ := hthrows.mpr hthrew
        cases he
      obtain ⟨rfl, -⟩ := Prod.mk.inj ht
      cases hb : s.browser with
      | true => simpa [hb, Result.PENDING, Result.SUCCESS] using hsame
      | false =>
        -- the session that began is ended, and without a browser there is none
        cases newBrowser with
        | true => simp [hno, Service.endBrowsing]
        | false =>
          have hnone : u.browser = false := by rw [hsame, hb]; rfl
          have hended : ∀ p [Decidable p], (if p then u.endBrowsing else u).browser = false := by
            intro p _
            split
            · rfl
            · exact hnone
          simpa using hended _
  · rename_i hno
    obtain ⟨rfl, -⟩ := Prod.mk.inj (Option.some.inj ht)
    rw [hres] at hno
    rw [hbegun]
    cases hb : s.browser with
    | true => simp [hb] at hno
    | false => cases newBrowser <;> simp_all

theorem call_browsing (env : Env) (s : Service) (c : Call) (s' : Service)
    (h : call env s c = some s') : s'.isBrowsing = c.browsing s.isBrowsing := by
  cases c with
  | op op =>
    cases op with
    | announce port instanceName c polls =>
      obtain ⟨⟨t, r⟩, ht, rfl⟩ := Option.map_eq_some_iff.mp h
      exact announce_browser ht
    | withdraw | endBrowsing =>
      cases h
      rfl
    | set key value c =>
      cases h
      unfold Service.set Service.updateRecord
      split
      · rfl
      · exact createServices_browser env _ c
    | beginBrowsing addr newBrowser errno =>
      cases h
      exact beginBrowsing_browser s addr newBrowser errno
    | browse timeout polls =>
      obtain ⟨⟨t, r⟩, ht, rfl⟩ := Option.map_eq_some_iff.mp h
      exact browse_browser ht
    | callback cb =>
      cases h
      exact callbacks_delivered (R := SameBrowser) (fun _ => rfl) SameBrowser.trans
        sameBrowser_of_callback [cb] s
  | discover addr newBrowser errno browseTime polls =>
    obtain ⟨⟨t, r⟩, ht, rfl⟩ := Option.map_eq_some_iff.mp h
    exact discover_browser ht
  | addListener listener | removeListener listener =>
    cases h
    rfl

end Servus.Avahi
