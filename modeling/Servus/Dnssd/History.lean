import Servus.Dnssd.Announce
import Servus.Dnssd.Trace
import Servus.Service.Effects

/-!
# The history of an object, with dnssd

`Call` is every public call with an effect. What the replies of a `browse` change, those of the
resolves that run inside of it included, is in the history of the call (`Service.effects`), and
`call_effects` says that the shared data depends on nothing else: also the passes of `announce`,
whatever they are, leave it alone.
-/

namespace Servus.Dnssd

open Cpp

/-- A public call, also about listeners. -/
inductive Call where
  | op (op : Op)
  | discover (error : Int) (ref : Bool) (fd : Int) (iters : List (Iter BrowseReply))
  | addListener (listener : Nat)
  | removeListener (listener : Nat)

def call (s : Service) : Call → Option Service
  | .op op => step s op
  | .discover error ref fd iters => (s.discover error ref fd iters).map (·.2)
  | .addListener listener => some { s with toImpl := s.toImpl.addListener listener }
  | .removeListener listener => some { s with toImpl := s.toImpl.removeListener listener }

@[simp] theorem endBrowsing_toImpl (s : Service) : s.endBrowsing.toImpl = s.toImpl := by
  unfold Service.endBrowsing
  split <;> rfl

/-! ## Announcing -/

/-- What announcing leaves alone: the shared data, and whether the object browses. -/
structure Apart (s s' : Service) : Prop where
  toImpl : s'.toImpl = s.toImpl
  in_ : s'.in_ = s.in_

theorem Apart.trans {s t u : Service} (h : Apart s t) (h' : Apart t u) : Apart s u :=
  ⟨h'.toImpl.trans h.toImpl, h'.in_.trans h.in_⟩

theorem apart_withdraw (s : Service) : Apart s s.withdraw := by
  unfold Service.withdraw
  split <;> exact ⟨rfl, rfl⟩

theorem apart_registerCB {s s' : Service} {error : Int} (h : s.registerCB error = some s') :
    Apart s s' := by
  have hw := apart_withdraw s
  cases h
  split
  · exact ⟨hw.toImpl, hw.in_⟩
  · exact ⟨rfl, rfl⟩

theorem apart_handleIter {s s' : Service} {it : Iter Int}
    (h : s.handleIter Service.registerCB it = some s') : Apart s s' := by
  cases it with
  | timeout =>
    cases h
    exact ⟨rfl, rfl⟩
  | error errno =>
    have hw := apart_withdraw s
    cases h
    split
    · exact ⟨hw.toImpl, hw.in_⟩
    · exact ⟨rfl, rfl⟩
  | ready isSet replies error =>
    cases isSet with
    | false =>
      cases h
      exact ⟨rfl, rfl⟩
    | true =>
      obtain ⟨t, ht, h⟩ := Option.bind_eq_some_iff.mp h
      rw [foldlM_eq_run] at ht
      have hsame : Apart s t := run_invariant (I := Apart s) ht
        (fun _ _ _ _ hu hv => hu.trans (apart_registerCB hv)) ⟨rfl, rfl⟩
      have hw := hsame.trans (apart_withdraw t)
      cases h
      split
      · exact ⟨hw.toImpl, hw.in_⟩
      · exact hsame

theorem apart_handleLoop {iters : List (Iter Int)} {s s' : Service}
    (h : Service.handleLoop Service.registerCB iters s = some s') : Apart s s' := by
  induction iters generalizing s with
  | nil =>
    unfold Service.handleLoop at h
    split at h
    · cases h
    · cases h
      exact ⟨rfl, rfl⟩
  | cons it iters ih =>
    unfold Service.handleLoop at h
    split at h
    · obtain ⟨t, ht, h⟩ := Option.bind_eq_some_iff.mp h
      exact (apart_handleIter ht).trans (ih h)
    · cases h
      exact ⟨rfl, rfl⟩

theorem apart_announce {s s' : Service} {port : UInt16} {instanceName : Str} {reg : Register}
    {iters : List (Iter Int)} {r : Result}
    (h : s.announce port instanceName reg iters = some (r, s')) : Apart s s' := by
  unfold Service.announce at h
  split at h
  · cases h
    exact ⟨rfl, rfl⟩
  · dsimp only at h
    split at h
    · rcases handleEvents_cases h with ⟨-, -, rfl⟩ | ⟨-, -, -, rfl⟩ | ⟨-, -, t, ht, -, rfl⟩
      · exact ⟨rfl, rfl⟩
      · exact ⟨rfl, rfl⟩
      · obtain ⟨himpl, hin⟩ := apart_handleLoop ht
        exact ⟨himpl, hin⟩
    · cases h
      exact ⟨rfl, rfl⟩

/-! ## The effects of a call -/

/-- `beginBrowsing` clears the map, unless the object browses already. -/
def Service.beginEffects (s : Service) : List Effect := if s.in_ then [] else [.clear]

/-- What a call does to the shared data. -/
def Service.effects (s : Service) : Call → List Effect
  | .op (.set key value) => [.set key value]
  | .op (.beginBrowsing ..) => s.beginEffects
  | .op (.browse fd iters) => (s.browseChanges fd iters).map .change
  | .op (.announce ..) | .op .withdraw | .op .endBrowsing => []
  | .discover error ref fd iters =>
    let begun := s.beginBrowsing error ref
    s.beginEffects ++
      if begun.1 = Result.SUCCESS ∨ begun.1 = Result.PENDING then
        (begun.2.browseChanges fd iters).map .change
      else []
  | .addListener listener => [.addListener listener]
  | .removeListener listener => [.removeListener listener]

theorem beginBrowsing_effects (s : Service) (error : Int) (ref : Bool) :
    (s.beginBrowsing error ref).2.toImpl = s.beginEffects.foldl Impl.apply s.toImpl := by
  unfold Service.beginBrowsing Service.beginEffects
  by_cases hin : s.in_ = true
  · rw [if_pos hin, if_pos hin]
    rfl
  · rw [if_neg hin, if_neg hin]
    dsimp only
    split
    · exact endBrowsing_toImpl _
    · rfl

theorem discoverFrom_toImpl {s s' : Service} {res : Result} {fd : Int}
    {iters : List (Iter BrowseReply)} (h : s.discoverFrom res fd iters = some s') :
    s'.toImpl = (if res = Result.SUCCESS ∨ res = Result.PENDING then
      s.browseChanges fd iters else []).foldl Impl.change s.toImpl := by
  unfold Service.discoverFrom at h
  split at h
  · rename_i hres
    rw [if_pos hres]
    obtain ⟨⟨r, t⟩, ht, rfl⟩ := Option.map_eq_some_iff.mp h
    rw [← browse_toImpl ht]
    dsimp only
    split
    · exact endBrowsing_toImpl t
    · rfl
  · rename_i hres
    cases h
    rw [if_neg hres]
    rfl

/-- The shared data behind a call is the data in front of it, with the effects of the call. -/
theorem call_effects (s : Service) (c : Call) (s' : Service) (h : call s c = some s') :
    s'.toImpl = (s.effects c).foldl Impl.apply s.toImpl := by
  cases c with
  | op op =>
    cases op with
    | announce port instanceName reg iters =>
      obtain ⟨⟨r, t⟩, ht, rfl⟩ := Option.map_eq_some_iff.mp h
      exact (apart_announce ht).toImpl
    | withdraw =>
      cases h
      exact (apart_withdraw s).toImpl
    | endBrowsing =>
      cases h
      exact endBrowsing_toImpl s
    | set key value =>
      cases h
      unfold Service.set Service.updateRecord
      split <;> rfl
    | beginBrowsing error ref =>
      cases h
      exact beginBrowsing_effects s error ref
    | browse fd iters =>
      obtain ⟨⟨r, t⟩, ht, rfl⟩ := Option.map_eq_some_iff.mp h
      rw [Service.effects, Impl.foldl_apply_change]
      exact browse_toImpl ht
  | discover error ref fd iters =>
    obtain ⟨⟨names, t⟩, ht, rfl⟩ := Option.map_eq_some_iff.mp h
    obtain ⟨u, hu, h⟩ := Option.map_eq_some_iff.mp ht
    cases h
    rw [Service.effects, List.foldl_append, ← beginBrowsing_effects s error ref,
      discoverFrom_toImpl hu]
    split
    · rw [Impl.foldl_apply_change]
    · rfl
  | addListener listener | removeListener listener =>
    cases h
    rfl

/-! ## `discover` -/

/-- `discover` is a run of the browsing calls. -/
theorem discover_run {s s' : Service} {error : Int} {ref : Bool} {fd : Int}
    {iters : List (Iter BrowseReply)} {names : List Str}
    (h : s.discover error ref fd iters = some (names, s')) :
    ∃ ops, (∀ op ∈ ops, op.isBrowsing = true) ∧ run step s ops = some s' := by
  obtain ⟨t, ht, h⟩ := Option.map_eq_some_iff.mp h
  cases h
  have hbegin : step s (.beginBrowsing error ref) = some (s.beginBrowsing error ref).2 := rfl
  unfold Service.discoverFrom at ht
  split at ht
  · obtain ⟨⟨r, u⟩, hu, rfl⟩ := Option.map_eq_some_iff.mp ht
    have hbrowse : step (s.beginBrowsing error ref).2 (.browse fd iters) = some u :=
      Option.map_eq_some_iff.mpr ⟨_, hu, rfl⟩
    have hrun : run step s [.beginBrowsing error ref, .browse fd iters] = some u :=
      run_cons_eq_some.mpr ⟨_, hbegin, run_cons_eq_some.mpr ⟨u, hbrowse, rfl⟩⟩
    dsimp only
    split
    · exact ⟨_ ++ [.endBrowsing], by simp [Op.isBrowsing],
        run_append_eq_some.mpr ⟨u, hrun, rfl⟩⟩
    · exact ⟨_, by simp [Op.isBrowsing], hrun⟩
  · cases ht
    exact ⟨[.beginBrowsing error ref], by simp [Op.isBrowsing], rfl⟩

theorem current_call {s s' : Service} {c : Call} (hs : Current s) (h : call s c = some s') :
    Current s' := by
  cases c with
  | op op => exact current_step hs h
  | discover error ref fd iters =>
    obtain ⟨⟨names, t⟩, ht, rfl⟩ := Option.map_eq_some_iff.mp h
    obtain ⟨ops, -, hrun⟩ := discover_run ht
    exact run_invariant hrun (fun u op v _ hu hv => current_step hu hv) hs
  | addListener listener | removeListener listener =>
    cases h
    exact hs

/-! ## What is handed over -/

/-- What was last handed to the library is as in `s`, or the present data. -/
def HandedOver (s t : Service) : Prop :=
  t.handed = s.handed ∨ t.handed = some (createTXTRecord t.data)

theorem overOut_handedOver (s : Service) : OverOut (HandedOver s) := by
  refine ⟨fun t ht => ?_, fun t t' _ hd hh ht => ?_⟩
  · unfold Service.withdraw
    split <;> exact ht
  · rw [HandedOver, hh, hd]
    exact ht

theorem handedOver_step {s s' : Service} {op : Op} (h : step s op = some s') :
    HandedOver s s' := by
  have hI := overOut_handedOver s
  have hself : HandedOver s s := .inl rfl
  cases op with
  | announce port instanceName reg iters =>
    obtain ⟨⟨r, t⟩, ht, rfl⟩ := Option.map_eq_some_iff.mp h
    have hreg : HandedOver s (s.register port instanceName reg) := .inr rfl
    unfold Service.announce at ht
    split at ht
    · cases ht
      exact hself
    · dsimp only at ht
      split at ht
      · exact handleEvents_invariant hI (registerCB_invariant hI) hreg ht
      · cases ht
        exact hreg
  | withdraw =>
    cases h
    exact hI.withdraw s hself
  | set key value =>
    cases h
    unfold Service.set Service.updateRecord
    split
    · exact .inr rfl
    · exact .inl rfl
  | beginBrowsing | browse | endBrowsing => exact browsing_invariant hI hself rfl h

theorem handedOver_call {s s' : Service} {c : Call} (h : call s c = some s') :
    HandedOver s s' := by
  cases c with
  | op op => exact handedOver_step h
  | discover error ref fd iters =>
    obtain ⟨⟨names, t⟩, ht, rfl⟩ := Option.map_eq_some_iff.mp h
    obtain ⟨ops, hops, hrun⟩ := discover_run ht
    exact run_invariant hrun (fun u op v hop hu hv =>
      browsing_invariant (overOut_handedOver s) hu (hops op hop) hv) (.inl rfl)
  | addListener listener | removeListener listener =>
    cases h
    exact .inl rfl

/-! ## Sessions -/

def Call.mayBegin : Call → Bool
  | .op (.beginBrowsing ..) | .discover .. => true
  | _ => false

/-- The listener that a call removes. -/
def Call.removed : Call → Option Nat
  | .removeListener l => some l
  | _ => none

/-- The call starts a browsing session: the object does not browse. -/
def Call.Begins (s : Service) (c : Call) : Prop :=
  Servus.Begins Service.isBrowsing Call.mayBegin s c

instance (s : Service) (c : Call) : Decidable (c.Begins s) :=
  inferInstanceAs (Decidable (Servus.Begins _ _ s c))

/-- The call starts no session, and `listener` stays registered. -/
def Call.Keeps (listener : Nat) (s : Service) (c : Call) : Prop :=
  Servus.Keeps Service.isBrowsing Call.mayBegin Call.removed listener s c

instance (listener : Nat) (s : Service) (c : Call) : Decidable (c.Keeps listener s) :=
  inferInstanceAs (Decidable (Servus.Keeps _ _ _ listener s c))

theorem sessions :
    Sessions Service.isBrowsing Call.mayBegin Call.removed Service.effects where
  begin s c hmay := by
    cases c with
    | op op =>
      cases op with
      | beginBrowsing error ref => exact ⟨[], (List.append_nil _).symm⟩
      | _ => cases hmay
    | discover error ref fd iters =>
      rw [Service.effects]
      split
      · exact ⟨_, rfl⟩
      · exact ⟨[], rfl⟩
    | addListener l | removeListener l => cases hmay
  other s c listener hmay hl := by
    cases c with
    | op op =>
      cases op with
      | browse => exact keeps_change listener _
      | announce | withdraw | endBrowsing => exact fun e he => absurd he List.not_mem_nil
      | set key value =>
        intro e he
        obtain rfl := List.mem_singleton.mp he
        rfl
      | beginBrowsing => cases hmay
    | discover => cases hmay
    | addListener l =>
      intro e he
      obtain rfl := List.mem_singleton.mp he
      rfl
    | removeListener l =>
      intro e he
      obtain rfl := List.mem_singleton.mp he
      simpa [Effect.keeps, Call.removed] using hl

/-! ## Whether the object browses -/

theorem foldl_apply_in (acts : List Act) (s : Service) :
    (acts.foldl Act.apply s).in_ = s.in_ := by
  induction acts generalizing s with
  | nil => rfl
  | cons act acts ih =>
    rw [List.foldl_cons, ih]
    cases act with
    | withdraw => exact (apart_withdraw s).in_
    | browsed name | change c => rfl

theorem browse_in {s s' : Service} {fd : Int} {iters : List (Iter BrowseReply)} {r : Result}
    (h : s.browse fd iters = some (r, s')) : s'.in_ = s.in_ :=
  (congrArg Service.in_ (browse_acts h)).trans (foldl_apply_in _ s.settled)

theorem beginBrowsing_in (s : Service) (error : Int) (ref : Bool) :
    (s.beginBrowsing error ref).2.in_ =
      (s.in_ || decide (error = kDNSServiceErr_NoError) && ref) := by
  unfold Service.beginBrowsing
  cases hin : s.in_ with
  | true => exact hin
  | false =>
    by_cases he : error = kDNSServiceErr_NoError
    · simp [he]
    · simp [he, endBrowsing_in]

/-- Whether the object browses behind a call, when it did or not in front of it. -/
def Call.browsing (b : Bool) : Call → Bool
  | .op (.beginBrowsing error ref) => b || decide (error = kDNSServiceErr_NoError) && ref
  | .op .endBrowsing => false
  | _ => b

/-- `discover` ends the session that it started. -/
theorem discover_in {s s' : Service} {error : Int} {ref : Bool} {fd : Int}
    {iters : List (Iter BrowseReply)} {names : List Str}
    (h : s.discover error ref fd iters = some (names, s')) : s'.in_ = s.in_ := by
  obtain ⟨t, ht, h⟩ := Option.map_eq_some_iff.mp h
  cases h
  have hbegun := beginBrowsing_in s error ref
  have hres : (s.beginBrowsing error ref).1 = if s.in_ then Result.PENDING else error := by
    unfold Service.beginBrowsing
    split <;> rfl
  unfold Service.discoverFrom at ht
  rw [hres] at ht
  cases hin : s.in_ with
  | true =>
    simp only [hin, ↓reduceIte, or_true] at ht
    obtain ⟨⟨r, u⟩, hu, rfl⟩ := Option.map_eq_some_iff.mp ht
    rw [if_neg (by decide), browse_in hu, hbegun, hin, Bool.true_or]
  | false =>
    simp only [hin, Bool.false_eq_true, ↓reduceIte] at ht
    by_cases he : error = Result.SUCCESS
    · simp only [he, true_or, ↓reduceIte] at ht
      obtain ⟨⟨r, u⟩, hu, rfl⟩ := Option.map_eq_some_iff.mp ht
      exact endBrowsing_in u
    · -- there is no ref, with `PENDING` as a code of the library too
      have hnone : (s.beginBrowsing error ref).2.in_ = false := by
        rw [hbegun, hin, decide_eq_false (by exact he)]
        rfl
      split at ht
      · obtain ⟨⟨r, u⟩, hu, rfl⟩ := Option.map_eq_some_iff.mp ht
        exact (browse_in hu).trans hnone
      · cases ht
        exact hnone

theorem call_browsing (s : Service) (c : Call) (s' : Service) (h : call s c = some s') :
    s'.isBrowsing = c.browsing s.isBrowsing := by
  cases c with
  | op op =>
    cases op with
    | announce port instanceName reg iters =>
      obtain ⟨⟨r, t⟩, ht, rfl⟩ := Option.map_eq_some_iff.mp h
      exact (apart_announce ht).in_
    | withdraw =>
      cases h
      exact (apart_withdraw s).in_
    | set key value =>
      cases h
      unfold Service.set Service.updateRecord
      split <;> rfl
    | beginBrowsing error ref =>
      cases h
      exact beginBrowsing_in s error ref
    | browse fd iters =>
      obtain ⟨⟨r, t⟩, ht, rfl⟩ := Option.map_eq_some_iff.mp h
      exact browse_in ht
    | endBrowsing =>
      cases h
      exact endBrowsing_in s
  | discover error ref fd iters =>
    obtain ⟨⟨names, t⟩, ht, rfl⟩ := Option.map_eq_some_iff.mp h
    exact discover_in ht
  | addListener listener | removeListener listener =>
    cases h
    rfl

theorem Call.browsing_false {c : Call} (hc : c.mayBegin = false) : c.browsing false = false := by
  cases c with
  | op op =>
    cases op with
    | beginBrowsing error ref => cases hc
    | _ => rfl
  | discover | addListener | removeListener => rfl

/-- An object that does not browse and starts no session discovers nothing, also when it polls. -/
theorem quiet_effects {s : Service} {c : Call} (hs : s.isBrowsing = false)
    (hc : ¬ c.Begins s) : ∀ e ∈ s.effects c, e.quiet = true := by
  cases c with
  | op op =>
    cases op with
    | browse fd iters =>
      have hno : s.browses fd = false := by
        rw [Service.browses, show s.in_ = false from hs]
        rfl
      simp [Service.effects, Service.browseChanges, hno]
    | beginBrowsing error ref => exact absurd ⟨rfl, hs⟩ hc
    | announce | withdraw | endBrowsing => simp [Service.effects]
    | set key value => simp [Service.effects, Effect.quiet]
  | discover error ref fd iters => exact absurd ⟨rfl, hs⟩ hc
  | addListener l | removeListener l => simp [Service.effects, Effect.quiet]

end Servus.Dnssd
