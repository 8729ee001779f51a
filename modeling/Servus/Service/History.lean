import Servus.Avahi.History
import Servus.Dnssd.History

/-!
# What the getters and the listeners of a service tell, in both ZeroConf backends

A service is used through its getters and its listeners. `follows_history`: whatever is called on
it and whatever the library delivers, its getters give what its history says, each instance by
itself. `replay_history`: and a listener that is registered can rebuild the instances of a session
from its events, also those that come while an `announce` polls.
-/

namespace Servus

open Cpp

/-- **The getters follow the history.** After every sequence of calls on a new object: an instance
is listed when it was resolved since it was last removed and since the session began, its keys
and values are those of the records since then, later ones over earlier ones and each behind its
host, and the self data is what was last set. -/
theorem follows_history (env : Avahi.Env) (name : Str) :
    (∀ calls s, run (Avahi.call env) { name := name } calls = some s →
      s.Follows (outputs (Avahi.call env) (Avahi.Service.effects env) { name := name } calls)) ∧
    ∀ calls s, run Dnssd.call { name := name } calls = some s →
      s.Follows (outputs Dnssd.call Dnssd.Service.effects { name := name } calls) :=
  ⟨fun _ _ h => follows_run (Avahi.call_effects env) rfl rfl h,
    fun _ _ h => follows_run Dnssd.call_effects rfl rfl h⟩

/-- A record is resolved over another one. -/
def resolvedTwice : List Avahi.Call :=
  [.op (.set "a".toList "b".toList ⟨true, 0, 0⟩), .addListener 7,
    .discover .IF_ALL true 0 5 [⟨[.resolve .FOUND "x".toList "h".toList ["k=v".toList] false 0,
      .resolve .FOUND "x".toList "g".toList ["l=w".toList] false 0], 0, 10⟩]]

/-- A record is resolved, removed with its instance, and another one is resolved. -/
def resolvedAgain : List Dnssd.Call :=
  [.addListener 7, .op (.beginBrowsing 0 true), .op (.browse 3 [.ready true
    [⟨0, true, "x".toList, 0, true, 4, [.ready true [⟨0, "h".toList, [("k".toList, [])]⟩] 0]⟩,
      ⟨0, false, "x".toList, 0, true, 4, []⟩,
      ⟨0, true, "x".toList, 0, true, 4, [.ready true [⟨0, "g".toList, []⟩] 0]⟩] 0, .timeout])]

theorem follows_history_resolved :
    (∃ s, run (Avahi.call (.documented [])) { name := "_t._tcp".toList } resolvedTwice = some s ∧
      s.getHost "x".toList = "g".toList ∧ s.get "x".toList "k".toList = "v".toList ∧
      s.getSelf "a".toList = "b".toList) ∧
    ∃ s, run Dnssd.call { name := "_t._tcp".toList } resolvedAgain = some s ∧
      "x".toList ∈ s.getInstances ∧ "k".toList ∉ s.getKeys "x".toList := by
  have hfollows := follows_history (.documented []) "_t._tcp".toList
  constructor
  · obtain ⟨s, hs⟩ : ∃ s, run (Avahi.call (.documented [])) { name := "_t._tcp".toList }
        resolvedTwice = some s := Option.isSome_iff_exists.mp (by decide)
    have hs' := hfollows.1 resolvedTwice s hs
    refine ⟨s, hs, ((hs'.gives _).get _).trans ?_, ((hs'.gives _).get _).trans ?_,
      (hs'.getSelf _).trans ?_⟩ <;> decide
  · obtain ⟨s, hs⟩ : ∃ s, run Dnssd.call { name := "_t._tcp".toList } resolvedAgain = some s :=
      Option.isSome_iff_exists.mp (by decide)
    have hs' := hfollows.2 resolvedAgain s hs
    refine ⟨s, hs, (hs'.gives _).getInstances.mpr ?_, mt ((hs'.gives _).getKeys _).mp ?_⟩ <;> decide

/-- **A listener can rebuild the session.** Through every sequence of calls that starts no session
and leaves the listener registered, its events lead from the names listed in front of the calls to
those listed behind them; and when a call starts a session, its events from that call on lead from
no names to the names listed. -/
theorem replay_history (env : Avahi.Env) (listener : Nat) :
    (∀ (s : Avahi.Service) calls t, listener ∈ s.listeners →
      EveryStep (Avahi.call env) (fun s c => c.Keeps listener s) s calls →
      run (Avahi.call env) s calls = some t →
      ∃ es, heard listener t.calls = heard listener s.calls ++ es ∧
        ∀ n, n ∈ replay (.ofList s.getInstances) es ↔ n ∈ t.getInstances) ∧
    (∀ (s : Avahi.Service) c u calls t, listener ∈ s.listeners → c.Begins s →
      Avahi.call env s c = some u →
      EveryStep (Avahi.call env) (fun s c => c.Keeps listener s) u calls →
      run (Avahi.call env) u calls = some t →
      ∃ es, heard listener t.calls = heard listener s.calls ++ es ∧
        ∀ n, n ∈ replay ∅ es ↔ n ∈ t.getInstances) ∧
    (∀ (s : Dnssd.Service) calls t, listener ∈ s.listeners →
      EveryStep Dnssd.call (fun s c => c.Keeps listener s) s calls →
      run Dnssd.call s calls = some t →
      ∃ es, heard listener t.calls = heard listener s.calls ++ es ∧
        ∀ n, n ∈ replay (.ofList s.getInstances) es ↔ n ∈ t.getInstances) ∧
    ∀ (s : Dnssd.Service) c u calls t, listener ∈ s.listeners → c.Begins s →
      Dnssd.call s c = some u →
      EveryStep Dnssd.call (fun s c => c.Keeps listener s) u calls →
      run Dnssd.call u calls = some t →
      ∃ es, heard listener t.calls = heard listener s.calls ++ es ∧
        ∀ n, n ∈ replay ∅ es ↔ n ∈ t.getInstances := by
  refine ⟨fun s calls t hs hcalls h => ?_, fun s c u calls t hs hc hu hcalls h => ?_,
    fun s calls t hs hcalls h => ?_, fun s c u calls t hs hc hu hcalls h => ?_⟩
  · exact replay_run (Avahi.call_effects env) (Avahi.sessions env) hs hcalls h
  · exact replay_session (Avahi.call_effects env) (Avahi.sessions env) hs hc hu hcalls h
  · exact replay_run Dnssd.call_effects Dnssd.sessions hs hcalls h
  · exact replay_session Dnssd.call_effects Dnssd.sessions hs hc hu hcalls h

/-- A `discover` that resolves an instance, and behind it an `announce` that polls another one in,
and the first one's removal. -/
def discovering : Avahi.Call × List Avahi.Call :=
  (.discover .IF_ALL true 0 5 [⟨[.resolve .FOUND "x".toList "h".toList [] false 0], 0, 10⟩],
    [.op (.announce 80 "i".toList ⟨true, 0, 0⟩
        [⟨[.resolve .FOUND "y".toList "h".toList [] false 0], 0, 0⟩, ⟨[], 0, 1000⟩]),
      .op (.callback (.browse 0 0 .REMOVE "x".toList true 0))])

/-- With one listener. -/
def observed : Impl := { name := "_t._tcp".toList, listeners := .ofList [7] }

theorem replay_history_resolved :
    (∃ u t, Avahi.call (.documented []) { toImpl := observed } discovering.1 = some u ∧
      run (Avahi.call (.documented [])) u discovering.2 = some t ∧
      (∃ es, heard 7 t.calls = es ∧ ∀ n, n ∈ replay ∅ es ↔ n ∈ t.getInstances) ∧
      ∃ es, heard 7 t.calls = heard 7 u.calls ++ es ∧
        ∀ n, n ∈ replay (.ofList u.getInstances) es ↔ n ∈ t.getInstances) ∧
    ∃ u t, Dnssd.call { toImpl := observed } (.op (.beginBrowsing 0 true)) = some u ∧
      run Dnssd.call u (resolvedAgain.drop 2) = some t ∧
      (∃ es, heard 7 t.calls = es ∧ ∀ n, n ∈ replay ∅ es ↔ n ∈ t.getInstances) ∧
      ∃ es, heard 7 t.calls = heard 7 u.calls ++ es ∧
        ∀ n, n ∈ replay (.ofList u.getInstances) es ↔ n ∈ t.getInstances := by
  obtain ⟨havahi, havahiBegin, hdnssd, hdnssdBegin⟩ := replay_history (.documented []) 7
  constructor
  · obtain ⟨u, hu⟩ : ∃ u, Avahi.call (.documented []) { toImpl := observed } discovering.1 =
        some u := Option.isSome_iff_exists.mp (by decide)
    have hgood : ∀ u ∈ Avahi.call (.documented []) { toImpl := observed } discovering.1,
        7 ∈ u.listeners ∧ (run (Avahi.call (.documented [])) u discovering.2).isSome = true ∧
          EveryStep (Avahi.call (.documented [])) (fun s c => c.Keeps 7 s) u discovering.2 := by
      decide
    obtain ⟨hmem, hsome, hkeeps⟩ := hgood u hu
    obtain ⟨t, ht⟩ := Option.isSome_iff_exists.mp hsome
    exact ⟨u, t, hu, ht, havahiBegin _ _ u _ t (by decide) (by decide) hu hkeeps ht,
      havahi u _ t hmem hkeeps ht⟩
  · obtain ⟨u, hu⟩ : ∃ u, Dnssd.call { toImpl := observed } (.op (.beginBrowsing 0 true)) =
        some u := Option.isSome_iff_exists.mp (by decide)
    have hgood : ∀ u ∈ Dnssd.call { toImpl := observed } (.op (.beginBrowsing 0 true)),
        7 ∈ u.listeners ∧ (run Dnssd.call u (resolvedAgain.drop 2)).isSome = true ∧
          EveryStep Dnssd.call (fun s c => c.Keeps 7 s) u (resolvedAgain.drop 2) := by decide
    obtain ⟨hmem, hsome, hkeeps⟩ := hgood u hu
    obtain ⟨t, ht⟩ := Option.isSome_iff_exists.mp hsome
    exact ⟨u, t, hu, ht, hdnssdBegin _ _ u _ t (by decide) (by decide) hu hkeeps ht,
      hdnssd u _ t hmem hkeeps ht⟩

/-! ## Browsing -/

/-- **Whether an object browses follows from its calls.** After every sequence of calls, from any
state: `beginBrowsing` that gets its browser starts a session, `endBrowsing` ends it, and nothing
else does, whatever polls and fails. `discover` leaves no session that it did not find, with one
exception: with avahi, when a callback throws. And with dnssd, an object that does not browse
keeps its instances and is silent until it begins. -/
theorem browsing_history (env : Avahi.Env) :
    (∀ (s : Avahi.Service) calls t, run (Avahi.call env) s calls = some t →
      t.isBrowsing = calls.foldl Avahi.Call.browsing s.isBrowsing) ∧
    (∀ (s : Dnssd.Service) calls t, run Dnssd.call s calls = some t →
      t.isBrowsing = calls.foldl Dnssd.Call.browsing s.isBrowsing) ∧
    ∀ (s : Dnssd.Service) calls t, s.isBrowsing = false →
      (∀ c ∈ calls, c.mayBegin = false) → run Dnssd.call s calls = some t →
      t.instanceMap = s.instanceMap ∧ t.calls = s.calls := by
  refine ⟨fun s calls t h => ?_, fun s calls t h => ?_, fun s calls t hs hcalls h => ?_⟩
  · exact foldl_run (Avahi.call_browsing env) h
  · exact foldl_run Dnssd.call_browsing h
  · have hinv : t.isBrowsing = false ∧ t.instanceMap = s.instanceMap ∧ t.calls = s.calls := by
      refine run_invariant (I := fun u => u.isBrowsing = false ∧ u.instanceMap = s.instanceMap ∧
        u.calls = s.calls) h (fun u c v hc hu hv => ?_) ⟨hs, rfl, rfl⟩
      obtain ⟨hub, hum, huc⟩ := hu
      have hmay : c.mayBegin = false := hcalls c hc
      have hno : ¬ c.Begins u := fun ⟨hbegins, _⟩ => by simp [hmay] at hbegins
      have hquiet := foldl_apply_quiet (Dnssd.quiet_effects hub hno) u.toImpl
      rw [← Dnssd.call_effects u c v hv] at hquiet
      refine ⟨?_, hquiet.1.trans hum, hquiet.2.trans huc⟩
      rw [Dnssd.call_browsing u c v hv, hub, Dnssd.Call.browsing_false hmay]
    exact hinv.2

/-- An object that is silent until it begins: it polls a reply that is not for it. -/
theorem browsing_history_polls :
    (∃ t, run (Avahi.call (.documented [])) { name := "_t._tcp".toList } [discovering.1] = some t ∧
      t.isBrowsing = false) ∧
    ∃ t, run Dnssd.call { name := "_t._tcp".toList } (resolvedAgain.drop 2) = some t ∧
      t.isBrowsing = false ∧ t.instanceMap = ∅ ∧ t.calls = [] := by
  obtain ⟨havahi, hdnssd, hidle⟩ := browsing_history (.documented [])
  constructor
  · obtain ⟨t, ht⟩ : ∃ t, run (Avahi.call (.documented [])) { name := "_t._tcp".toList }
        [discovering.1] = some t := Option.isSome_iff_exists.mp (by decide)
    exact ⟨t, ht, (havahi _ _ t ht).trans (by decide)⟩
  · obtain ⟨t, ht⟩ : ∃ t, run Dnssd.call { name := "_t._tcp".toList } (resolvedAgain.drop 2) =
        some t := Option.isSome_iff_exists.mp (by decide)
    obtain ⟨hmap, hcalls⟩ := hidle _ _ t rfl (by decide) ht
    exact ⟨t, ht, (hdnssd _ _ t ht).trans (by decide), hmap, hcalls⟩

end Servus
