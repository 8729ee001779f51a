import Servus.Avahi.Announce
import Servus.Dnssd.Announce

/-!
# The life cycle of an announcement, in both ZeroConf backends

`announcement_life_cycle`: before the first `announce` and behind a `withdraw` a service is not
announced, whatever else is called and whatever the library returns or calls back; and while it is
announced, what the library was last handed is the present data, for avahi under the name and
port of the latest `announce`, also when that was deferred until the client runs.
-/

namespace Servus

open Cpp

theorem Avahi.withdrawn_run {env : Avahi.Env} {s t : Avahi.Service} {ops : List Avahi.Op}
    (hs : Avahi.Withdrawn s) (hops : ∀ op ∈ ops, op.isAnnounce = false)
    (h : run (Avahi.step env) s ops = some t) : t.isAnnounced = false :=
  (run_invariant h (fun _ op _ hop hu => Avahi.withdrawn_step hu (hops op hop)) hs).isAnnounced

theorem Avahi.latest_run {env : Avahi.Env} {n : Str} {port : UInt16} {s t : Avahi.Service}
    {ops : List Avahi.Op} (hs : Avahi.Latest n port s) (hops : ∀ op ∈ ops, op.isAnnounce = false)
    (h : run (Avahi.step env) s ops = some t) : Avahi.Latest n port t :=
  run_invariant h (fun _ op _ hop hu => Avahi.latest_step hu (hops op hop)) hs

theorem Dnssd.out_run {s t : Dnssd.Service} {ops : List Dnssd.Op} (hs : s.out = false)
    (hops : ∀ op ∈ ops, op.isAnnounce = false) (h : run Dnssd.step s ops = some t) :
    t.isAnnounced = false :=
  run_invariant (I := fun s : Dnssd.Service => s.out = false) h
    (fun _ op _ hop hu => Dnssd.out_step hu (hops op hop)) hs

theorem announcement_life_cycle (env : Avahi.Env) (name : Str) :
    ((∀ ops s, run (Avahi.step env) { name := name } ops = some s →
        (∀ op ∈ ops, op.isAnnounce = false) → s.isAnnounced = false) ∧
      (∀ before after s, run (Avahi.step env) { name := name } (before ++ .withdraw :: after) =
          some s → (∀ op ∈ after, op.isAnnounce = false) → s.isAnnounced = false) ∧
      ∀ before port instanceName c polls after s, run (Avahi.step env) { name := name }
          (before ++ .announce port instanceName c polls :: after) = some s →
        (∀ op ∈ before ++ .announce port instanceName c polls :: after, op.Named env) →
        (∀ op ∈ after, op.isAnnounce = false) → s.isAnnounced = true →
        ∃ e, s.handed = some e ∧ e.name = cStr (env.effectiveName instanceName) ∧ e.port = port ∧
          e.txt = env.encode s.data) ∧
    (∀ ops s, run Dnssd.step { name := name } ops = some s →
        (∀ op ∈ ops, op.isAnnounce = false) → s.isAnnounced = false) ∧
    (∀ before after s, run Dnssd.step { name := name } (before ++ .withdraw :: after) = some s →
        (∀ op ∈ after, op.isAnnounce = false) → s.isAnnounced = false) ∧
    ∀ ops s, run Dnssd.step { name := name } ops = some s → s.isAnnounced = true →
      s.handed = some (Dnssd.createTXTRecord s.data) := by
  refine ⟨⟨fun ops s h hops => ?_, fun before after s h hafter => ?_, ?_⟩, fun ops s h hops => ?_,
    fun before after s h hafter => ?_, fun ops s h => ?_⟩
  · exact Avahi.withdrawn_run ⟨rfl, rfl⟩ hops h
  · obtain ⟨t, -, h⟩ := run_append_eq_some.mp h
    obtain ⟨u, hu, h⟩ := run_cons_eq_some.mp h
    cases hu
    exact Avahi.withdrawn_run (Avahi.withdrawn_withdraw t) hafter h
  · intro before port instanceName c polls after s h hnamed hafter hann
    have hcurrent : Avahi.Current env s := run_invariant h
      (fun _ op _ hop hu => Avahi.current_step hu (hnamed op hop)) ⟨nofun, fun _ => rfl⟩
    obtain ⟨t, -, h⟩ := run_append_eq_some.mp h
    obtain ⟨u, hu, h⟩ := run_cons_eq_some.mp h
    obtain ⟨⟨u, r⟩, hr, rfl⟩ := Option.map_eq_some_iff.mp hu
    rcases Avahi.latest_run (Avahi.latest_announce hr) hafter h with ⟨hn, hp⟩ | hw
    · exact ⟨s.entry env, (hcurrent.handed hann).2, by rw [← hn]; rfl, hp, rfl⟩
    · rw [hw.isAnnounced] at hann
      cases hann
  · exact Dnssd.out_run rfl hops h
  · obtain ⟨t, -, h⟩ := run_append_eq_some.mp h
    obtain ⟨u, hu, h⟩ := run_cons_eq_some.mp h
    cases hu
    exact Dnssd.out_run (Dnssd.withdraw_out t) hafter h
  · exact run_invariant (I := Dnssd.Current) h (fun _ _ _ _ => Dnssd.current_step) nofun

/-- The client runs at the second poll of `announce`, and again in a later `browse`. -/
def deferredRun : List Avahi.Op :=
  [.set "k".toList "u".toList ⟨true, 0, 0⟩] ++
    .announce 80 "x".toList ⟨true, 0, 0⟩ [⟨[], 0, 0⟩,
      ⟨[.client .S_RUNNING 0 ⟨true, 0, 0⟩], 0, 10⟩, ⟨[], 0, 20⟩] ::
    [.set "k".toList "v".toList ⟨true, 0, 0⟩,
      .browse 1 [⟨[.client .S_RUNNING 0 ⟨true, 0, 0⟩], 0, 5⟩]]

theorem announcement_life_cycle_deferred :
    ∃ s, run (Avahi.step (.documented [])) { name := "_t._tcp".toList } deferredRun = some s ∧
      s.isAnnounced = true ∧ ∃ e, s.handed = some e ∧ e.name = cStr "x".toList ∧ e.port = 80 ∧
        e.txt = (Avahi.Env.documented []).encode s.data := by
  obtain ⟨s, hs⟩ : ∃ s, run (Avahi.step (.documented [])) { name := "_t._tcp".toList }
      deferredRun = some s := Option.isSome_iff_exists.mp (by decide)
  have hann : ∀ s ∈ run (Avahi.step (.documented [])) { name := "_t._tcp".toList } deferredRun,
      s.isAnnounced = true := by decide
  have hnamed : ∀ op ∈ deferredRun, op.Named (.documented []) := by
    simp [deferredRun, Avahi.Op.Named, Avahi.Env.effectiveName]
  exact ⟨s, hs, hann s hs, (announcement_life_cycle (.documented []) _).1.2.2 [.set _ _ _] 80
    "x".toList _ _ _ s hs hnamed (by decide) (hann s hs)⟩

end Servus
