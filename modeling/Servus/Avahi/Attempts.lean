import Servus.Avahi.Announce
import Servus.Avahi.Result

/-!
# The attempts to register, with avahi

`_createServices` attempts to register when it has a group to add its entry to. The attempt may
fail at the entry or at the commit, and nothing takes the name of a failed `announce` back, so that
`set` and `RUNNING` attempt it again. `attempts` lists what a call attempts; whether an entry is
in the group after it depends on the last attempt, and there only on whether the entry was added
(`isAnnounced_step`).

`failed_announce_iff`: after an `announce` that failed nothing is announced, then and later, exactly
when no call ends with an attempt that added its entry.
-/

namespace Servus.Avahi

open Cpp

variable {env : Env}

/-- `_createServices` attempts to register, when there is a group or it gets a new one. -/
def Create.attempts (c : Create) (hasGroup : Bool) : List Create :=
  if hasGroup || c.newGroup then [c] else []

/-- What a callback attempts, in an object that has a name to announce or not (`named`). -/
def Callback.attempts (named hasGroup : Bool) : Callback → List Create
  | .client .S_RUNNING _ c => if named then c.attempts hasGroup else []
  | _ => []

/-- What callbacks attempt: after the first attempt there is a group. -/
def callbackAttempts (named : Bool) : Bool → List Callback → List Create
  | _, [] => []
  | hasGroup, cb :: cbs =>
    cb.attempts named hasGroup ++
      callbackAttempts named (hasGroup || !(cb.attempts named hasGroup).isEmpty) cbs

theorem not_isEmpty_append {α : Type*} (l l' : List α) :
    (!(l ++ l').isEmpty) = (!l.isEmpty || !l'.isEmpty) := by
  cases l <;> simp

theorem callbackAttempts_append (named hasGroup : Bool) (cbs cbs' : List Callback) :
    callbackAttempts named hasGroup (cbs ++ cbs') = callbackAttempts named hasGroup cbs ++
      callbackAttempts named (hasGroup || !(callbackAttempts named hasGroup cbs).isEmpty) cbs' := by
  induction cbs generalizing hasGroup with
  | nil => simp [callbackAttempts]
  | cons cb cbs ih =>
    simp only [List.cons_append, callbackAttempts, ih, List.append_assoc, not_isEmpty_append,
      Bool.or_assoc]

/-! ## What attempts do -/

/-- `s'` is `s` after the attempts `cs`. -/
structure Attempted (s s' : Service) (cs : List Create) : Prop where
  announceName : s'.announceName = s.announceName
  hasGroup : s'.group.isSome = (s.group.isSome || !cs.isEmpty)
  isAnnounced : s'.isAnnounced = match cs.getLast? with
    | none => s.isAnnounced
    | some c => decide (c.add = Result.SUCCESS)

theorem Attempted.trans {s t u : Service} {cs ds : List Create} (h : Attempted s t cs)
    (h' : Attempted t u ds) : Attempted s u (cs ++ ds) := by
  refine ⟨h'.announceName.trans h.announceName, ?_, ?_⟩
  · rw [h'.hasGroup, h.hasGroup, not_isEmpty_append, Bool.or_assoc]
  · rw [h'.isAnnounced, List.getLast?_append]
    cases ds.getLast? with
    | none => rw [Option.none_or, h.isAnnounced]
    | some c => rfl

theorem isAnnounced_of_group {s : Service} (h : s.group.isSome = false) :
    s.isAnnounced = false := by
  have hnone : s.group = none := by simpa using h
  rw [Service.isAnnounced, hnone]

/-- What leaves announcing alone attempts nothing. -/
theorem attempted_same {s s' : Service} (h : s'.announcing = s.announcing) :
    Attempted s s' [] := by
  have hgroup : s'.group = s.group := congrArg Announcing.group h
  exact ⟨congrArg Announcing.announceName h, by simp [hgroup], isAnnounced_same h⟩

theorem createServices_attempted (env : Env) (s : Service) (c : Create) :
    Attempted s (s.createServices env c) (c.attempts s.group.isSome) := by
  cases hg : s.group with
  | none =>
    cases hn : c.newGroup with
    | false =>
      constructor <;>
        simp [Service.createServices, Service.isAnnounced, Create.attempts, hg, hn]
    | true =>
      by_cases ha : c.add = Result.SUCCESS
      · constructor <;>
          simp [Service.createServices, Service.isAnnounced, Create.attempts, hg, hn, ha]
      · constructor <;>
          simp [Service.createServices, Service.isAnnounced, Create.attempts, hg, hn, ha]
  | some entries =>
    by_cases ha : c.add = Result.SUCCESS
    · constructor <;> simp [Service.createServices, Service.reset, Service.isAnnounced,
        Create.attempts, hg, ha]
    · constructor <;> simp [Service.createServices, Service.reset, Service.isAnnounced,
        Create.attempts, hg, ha]

theorem attempts_of_not_running {cb : Callback} (h : cb.isRunning = false)
    (named hasGroup : Bool) : cb.attempts named hasGroup = [] := by
  unfold Callback.attempts
  split
  · cases h
  · rfl

theorem callback_attempted {s s' : Service} {cb : Callback} (h : s.callback env cb = .ok s') :
    Attempted s s' (cb.attempts (s.announceName ≠ []) s.group.isSome) := by
  rcases callback_announcing h with ⟨hno, hsame⟩ | ⟨errno, c, rfl, hr⟩
  · rw [attempts_of_not_running hno]
    exact attempted_same hsame
  · obtain rfl := Except.ok.inj hr
    rw [Callback.attempts]
    split
    · rename_i hname
      rw [if_pos (decide_eq_true hname)]
      obtain ⟨hn, hg, ha⟩ := createServices_attempted env { s with announcable := true } c
      exact ⟨hn, hg, ha⟩
    · rename_i hname
      rw [if_neg (by simpa using hname)]
      exact ⟨rfl, by simp, rfl⟩

/-- `s'` is `s` after what the callbacks `cbs` attempt. -/
def CallbacksAttempted (s s' : Service) (cbs : List Callback) : Prop :=
  Attempted s s' (callbackAttempts (s.announceName ≠ []) s.group.isSome cbs)

theorem CallbacksAttempted.trans {s t u : Service} {cbs cbs' : List Callback}
    (h : CallbacksAttempted s t cbs) (h' : CallbacksAttempted t u cbs') :
    CallbacksAttempted s u (cbs ++ cbs') := by
  unfold CallbacksAttempted at *
  rw [h.announceName, h.hasGroup] at h'
  rw [callbackAttempts_append]
  exact h.trans h'

theorem callbacksAttempted_of_callback {s s' : Service} {cb : Callback}
    (h : s.callback env cb = .ok s') : CallbacksAttempted s s' [cb] := by
  have hcb := callback_attempted h
  simpa only [CallbacksAttempted, callbackAttempts, List.append_nil] using hcb

theorem browse_attempted {timeout : Int} {polls : List Poll} {s s' : Service} {r : Res Result}
    (h : s.browse env timeout polls = some (s', r)) :
    CallbacksAttempted s s' (delivered timeout polls 0) :=
  browse_delivered (fun _ => attempted_same rfl) CallbacksAttempted.trans
    callbacksAttempted_of_callback (fun _ _ => attempted_same rfl) h

theorem callbacks_attempted (env : Env) (cbs : List Callback) (s : Service) :
    CallbacksAttempted s (s.callbacks env cbs).1 (untilThrow cbs) :=
  callbacks_delivered (fun _ => attempted_same rfl) CallbacksAttempted.trans
    callbacksAttempted_of_callback cbs s

/-! ## The loop of `announce` -/

/-- The callbacks that take effect in the loop of `announce`, in an object that browses in `scope`.
The loop goes on while no callback has made the client run and none has stored a result. -/
def announceDelivered (named : Bool) (scope : Interface) : List Poll → Bool → Code → List Callback
  | [], _, _ => []
  | p :: ps, announcable, m =>
    if announcable = false ∧ m.code = Result.PENDING ∧ p.elapsed < ANNOUNCE_TIMEOUT then
      untilThrow p.callbacks ++ if p.callbacks.any (·.throws) then []
        else announceDelivered named scope ps (announcable || p.callbacks.any (·.isRunning))
          (p.callbacks.foldl (Callback.store named scope) m)
    else []

theorem createServices_announcable (env : Env) (s : Service) (c : Create) :
    (s.createServices env c).announcable = s.announcable :=
  (Service.createServices_spec env s c).2.2.1

theorem callback_announcable {s s' : Service} {cb : Callback} (h : s.callback env cb = .ok s') :
    s'.announcable = (s.announcable || cb.isRunning) := by
  rcases callback_announcing h with ⟨hno, hsame⟩ | ⟨errno, c, rfl, hr⟩
  · rw [hno, Bool.or_false]
    exact congrArg Announcing.announcable hsame
  · obtain rfl := Except.ok.inj hr
    rw [Callback.isRunning, Bool.or_true]
    split
    · exact createServices_announcable env _ c
    · rfl

theorem callbacks_announcable {cbs : List Callback} {s t : Service}
    (h : s.callbacks env cbs = (t, .ok ())) :
    t.announcable = (s.announcable || cbs.any (·.isRunning)) := by
  induction cbs generalizing s with
  | nil =>
    obtain ⟨rfl, -⟩ := Prod.mk.inj h
    simp
  | cons cb cbs ih =>
    rw [Service.callbacks] at h
    cases hcb : s.callback env cb with
    | error e =>
      rw [hcb] at h
      cases h
    | ok u =>
      rw [hcb] at h
      rw [ih h, callback_announcable hcb, List.any_cons, Bool.or_assoc]

section Delivered

/-! As for `browse`: a relation that one callback meets and that composes is met by what the loop of
`announce` delivers. -/

variable {R : Service → Service → List Callback → Prop}
  (hrefl : ∀ s, R s s [])
  (htrans : ∀ {s t u cbs cbs'}, R s t cbs → R t u cbs' → R s u (cbs ++ cbs'))
  (hcallback : ∀ {s s' cb}, s.callback env cb = .ok s' → R s s' [cb])

include hrefl htrans hcallback

theorem announceLoop_delivered {polls : List Poll} {s s' : Service} {r : Res Unit}
    (h : Service.announceLoop env polls s = some (s', r)) :
    R s s' (announceDelivered (s.announceName ≠ []) s.scope polls s.announcable s.toCode) := by
  induction polls generalizing s with
  | nil => cases h
  | cons p polls ih =>
    have hcbs := callbacks_delivered hrefl htrans hcallback p.callbacks s
    have hall := callbacks_ok_iff env p.callbacks s
    rw [Service.announceLoop] at h
    rw [announceDelivered]
    by_cases hgo : s.announcable = false ∧ s.result = Result.PENDING ∧ p.elapsed < ANNOUNCE_TIMEOUT
    · have hgo' : s.announcable = false ∧ s.toCode.code = Result.PENDING ∧
          p.elapsed < ANNOUNCE_TIMEOUT := hgo
      rw [if_pos hgo] at h
      rw [if_pos hgo']
      rcases hcb : s.callbacks env p.callbacks with ⟨t, e | u⟩
      · rw [hcb] at h hcbs hall
        have hthrow : p.callbacks.any (·.throws) = true := by simpa using hall
        obtain ⟨rfl, -⟩ := Prod.mk.inj (Option.some.inj h)
        rw [if_pos hthrow, List.append_nil]
        exact hcbs
      · rw [hcb] at h hcbs hall
        have hthrow : ¬ p.callbacks.any (·.throws) = true := by simp [hall.mp rfl]
        have hstored := callbacks_stored hcb
        have hrest := ih h
        rw [hstored.announceName, hstored.scope, hstored.code, callbacks_announcable hcb] at hrest
        rw [if_neg hthrow]
        exact htrans hcbs hrest
    · have hgo' : ¬ (s.announcable = false ∧ s.toCode.code = Result.PENDING ∧
          p.elapsed < ANNOUNCE_TIMEOUT) := hgo
      rw [if_neg hgo] at h
      rw [if_neg hgo']
      obtain ⟨rfl, -⟩ := Prod.mk.inj (Option.some.inj h)
      exact hrefl s

end Delivered

theorem announceLoop_attempted {polls : List Poll} {s s' : Service} {r : Res Unit}
    (h : Service.announceLoop env polls s = some (s', r)) :
    CallbacksAttempted s s'
      (announceDelivered (s.announceName ≠ []) s.scope polls s.announcable s.toCode) :=
  announceLoop_delivered (fun _ => attempted_same rfl) CallbacksAttempted.trans
    callbacksAttempted_of_callback h

/-! ## The attempts of a call -/

/-- A call that may follow an `announce` without ending it. -/
def Op.continues : Op → Bool
  | .announce .. | .withdraw => false
  | _ => true

/-- What a call attempts. -/
def Service.attempts (env : Env) (s : Service) : Op → List Create
  | .announce _ instanceName c polls =>
    if s.announcable then c.attempts s.group.isSome
    else
      let named := decide (env.effectiveName instanceName ≠ [])
      callbackAttempts named s.group.isSome
        (announceDelivered named s.scope polls s.announcable ⟨s.group.isSome, Result.PENDING⟩)
  | .set _ _ c =>
    if s.announceName = [] ∨ s.announcable = false then [] else c.attempts s.group.isSome
  | .browse timeout polls =>
    callbackAttempts (s.announceName ≠ []) s.group.isSome (delivered timeout polls 0)
  | .callback cb => callbackAttempts (s.announceName ≠ []) s.group.isSome (untilThrow [cb])
  | .withdraw | .beginBrowsing .. | .endBrowsing => []

theorem announce_attempted {s s' : Service} {port : UInt16} {instanceName : Str} {c : Create}
    {polls : List Poll} {r : Res Result}
    (h : s.announce env port instanceName c polls = some (s', r)) :
    ∃ s₀ : Service, s₀.isAnnounced = s.isAnnounced ∧
      Attempted s₀ s' (s.attempts env (.announce port instanceName c polls)) := by
  -- `announce` stores its arguments first
  refine ⟨{ s with
      result := Result.PENDING
      port := port
      announceName := env.effectiveName instanceName }, rfl, ?_⟩
  unfold Service.announce at h
  dsimp only at h
  rw [Service.attempts]
  split at h
  · rename_i ha
    obtain ⟨rfl, -⟩ := Prod.mk.inj (Option.some.inj h)
    rw [if_pos ha]
    exact createServices_attempted env _ c
  · rename_i ha
    obtain ⟨⟨t, r'⟩, ht, h⟩ := Option.map_eq_some_iff.mp h
    obtain ⟨rfl, -⟩ := Prod.mk.inj h
    rw [if_neg ha]
    exact announceLoop_attempted ht

theorem set_attempted (env : Env) (s : Service) (key value : Str) (c : Create) :
    Attempted s (s.set env key value c) (s.attempts env (.set key value c)) := by
  rw [Service.set, Service.updateRecord, Service.attempts]
  by_cases hguard : s.announceName = [] ∨ s.announcable = false
  · rw [if_pos hguard, if_pos hguard]
    exact ⟨rfl, by simp, rfl⟩
  · rw [if_neg hguard, if_neg hguard]
    obtain ⟨hn, hg, ha⟩ := createServices_attempted env
      (Service.reset { s with toImpl := s.toImpl.setData key value }) c
    have hgroup : (Service.reset { s with toImpl := s.toImpl.setData key value }).group.isSome =
        s.group.isSome := by simp [Service.reset]
    rw [hgroup] at hg ha
    refine ⟨hn, hg, ha.trans ?_⟩
    by_cases hatt : (s.group.isSome || c.newGroup) = true
    · rw [Create.attempts, if_pos hatt]
      rfl
    · -- without a group there is nothing to reset
      have hnone : s.group.isSome = false := by simp_all
      rw [Create.attempts, if_neg hatt]
      exact (Service.isAnnounced_reset _).trans (isAnnounced_of_group hnone).symm

/-- A call ends with the entry of its last attempt, if that was added. -/
theorem isAnnounced_step {s s' : Service} {op : Op} (hop : op ≠ .withdraw)
    (h : step env s op = some s') :
    s'.isAnnounced = match (s.attempts env op).getLast? with
      | none => s.isAnnounced
      | some c => decide (c.add = Result.SUCCESS) := by
  cases op with
  | announce port instanceName c polls =>
    obtain ⟨⟨t, r⟩, ht, rfl⟩ := Option.map_eq_some_iff.mp h
    obtain ⟨s₀, hs₀, hatt⟩ := announce_attempted ht
    rw [hatt.isAnnounced, hs₀]
  | withdraw => exact absurd rfl hop
  | set key value c =>
    cases h
    exact (set_attempted env s key value c).isAnnounced
  | beginBrowsing addr newBrowser errno =>
    cases h
    have hsame : (s.beginBrowsing addr newBrowser errno).1.announcing = s.announcing := by
      unfold Service.beginBrowsing
      split
      · rfl
      · cases newBrowser <;> rfl
    exact isAnnounced_same hsame
  | browse timeout polls =>
    obtain ⟨⟨t, r⟩, ht, rfl⟩ := Option.map_eq_some_iff.mp h
    exact (browse_attempted ht).isAnnounced
  | endBrowsing =>
    cases h
    rfl
  | callback cb =>
    cases h
    exact (callbacks_attempted env [cb] s).isAnnounced

/-- The last attempt of the call, if it makes one, does not get its entry added. -/
def AddsNothing (env : Env) (s : Service) (op : Op) : Prop :=
  ∀ c ∈ (s.attempts env op).getLast?, c.add ≠ Result.SUCCESS

instance (env : Env) (s : Service) (op : Op) : Decidable (AddsNothing env s op) :=
  inferInstanceAs (Decidable (∀ c ∈ (s.attempts env op).getLast?, _))

/-- Without an attempt a call leaves nothing announced when nothing was before. -/
theorem not_isAnnounced_step_iff {s s' : Service} {op : Op} (hop : op ≠ .withdraw)
    (h : step env s op = some s') :
    s'.isAnnounced = false ↔
      (s.attempts env op = [] → s.isAnnounced = false) ∧ AddsNothing env s op := by
  rw [isAnnounced_step hop h, AddsNothing]
  cases hlast : (s.attempts env op).getLast? with
  | none => simp [List.getLast?_eq_none_iff.mp hlast]
  | some c =>
    have hne : s.attempts env op ≠ [] := by
      intro hnil
      rw [hnil] at hlast
      cases hlast
    simp [hne]

/-- A run of calls from a state where nothing is announced leaves nothing announced after each of
them exactly when none adds an entry. -/
theorem not_isAnnounced_run_iff {s t : Service} {ops : List Op} (hs : s.isAnnounced = false)
    (hops : ∀ op ∈ ops, op.continues = true) (h : run (step env) s ops = some t) :
    (∀ ops' u, ops' <+: ops → run (step env) s ops' = some u → u.isAnnounced = false) ↔
      EveryStep (step env) (AddsNothing env) s ops := by
  induction ops generalizing s with
  | nil =>
    refine ⟨fun _ => trivial, fun _ ops' u hpre hu => ?_⟩
    rw [List.prefix_nil] at hpre
    subst hpre
    cases hu
    exact hs
  | cons op ops ih =>
    obtain ⟨s', hstep, hrun⟩ := run_cons_eq_some.mp h
    have hop : op ≠ .withdraw := by
      rintro rfl
      cases hops .withdraw List.mem_cons_self
    have hops' : ∀ op ∈ ops, op.continues = true :=
      fun op' hmem => hops op' (List.mem_cons_of_mem op hmem)
    have hiff := not_isAnnounced_step_iff hop hstep
    constructor
    · intro hall
      have hs' : s'.isAnnounced = false :=
        hall [op] s' (by simp) (by rw [run_cons, hstep]; rfl)
      refine ⟨(hiff.mp hs').2, fun u hu => ?_⟩
      obtain rfl : s' = u := Option.some.inj (hstep.symm.trans hu)
      refine (ih hs' hops' hrun).mp fun ops' u hpre hu => ?_
      exact hall (op :: ops') u (List.cons_prefix_cons.mpr ⟨rfl, hpre⟩)
        (run_cons_eq_some.mpr ⟨s', hstep, hu⟩)
    · rintro ⟨hadds, hrest⟩ ops' u hpre hu
      have hs' := hiff.mpr ⟨fun _ => hs, hadds⟩
      cases ops' with
      | nil =>
        cases hu
        exact hs
      | cons op' ops' =>
        obtain ⟨rfl, htail⟩ := List.cons_prefix_cons.mp hpre
        obtain ⟨s'', hstep', hu⟩ := run_cons_eq_some.mp hu
        obtain rfl : s' = s'' := Option.some.inj (hstep.symm.trans hstep')
        exact (ih hs' hops' hrun).mpr (hrest s' hstep) ops' u htail hu

/-- **When a failed announce leaves the service un-announced.** Nothing is announced after it, and
after each later call up to the next `announce` or `withdraw`, exactly when no call, the failed one
included, ends with an attempt whose entry was added; if the failed one made no attempt at all,
nothing may have been announced before. -/
theorem failed_announce_iff (env : Env) {s s₁ t : Service} {port : UInt16} {instanceName : Str}
    {c : Create} {polls : List Poll} {r : Result} {ops : List Op}
    (h : s.announce env port instanceName c polls = some (s₁, .ok r))
    (hops : ∀ op ∈ ops, op.continues = true) (hrun : run (step env) s₁ ops = some t) :
    (r ≠ Result.SUCCESS → r ≠ Result.PENDING →
        ∀ ops' u, ops' <+: ops → run (step env) s₁ ops' = some u → u.isAnnounced = false) ↔
      (r ≠ Result.SUCCESS → r ≠ Result.PENDING →
        (s.attempts env (.announce port instanceName c polls) = [] → s.isAnnounced = false) ∧
        EveryStep (step env) (AddsNothing env) s (.announce port instanceName c polls :: ops)) := by
  have hstep : step env s (.announce port instanceName c polls) = some s₁ := by
    rw [step, h]
    rfl
  have hiff := not_isAnnounced_step_iff (by simp) hstep
  refine imp_congr_right fun _ => imp_congr_right fun _ => ?_
  constructor
  · intro hall
    have hs₁ : s₁.isAnnounced = false := hall [] s₁ List.nil_prefix rfl
    obtain ⟨hnone, hadds⟩ := hiff.mp hs₁
    refine ⟨hnone, hadds, fun u hu => ?_⟩
    obtain rfl : s₁ = u := Option.some.inj (hstep.symm.trans hu)
    exact (not_isAnnounced_run_iff hs₁ hops hrun).mp hall
  · rintro ⟨hnone, hadds, hrest⟩
    exact (not_isAnnounced_run_iff (hiff.mpr ⟨hnone, hadds⟩) hops hrun).mpr (hrest s₁ hstep)

/-- A service whose client runs. -/
def runningService : Service := { name := "_t._tcp".toList, announcable := true }

/-- The entry is refused, then and when the data changes. -/
theorem failed_announce_refused : ∃ s₁,
    runningService.announce (.documented []) 1 "n".toList ⟨true, -8, 0⟩ [] = some (s₁, .ok (-8)) ∧
    ∀ ops' u, ops' <+: [.set "k".toList "v".toList ⟨true, -8, 0⟩, .browse 0 [⟨[], 0, 1⟩]] →
      run (step (.documented [])) s₁ ops' = some u → u.isAnnounced = false := by
  refine ⟨_, rfl, ?_⟩
  have h : runningService.announce (.documented []) 1 "n".toList ⟨true, -8, 0⟩ [] =
      some (_, .ok (-8)) := rfl
  exact (failed_announce_iff (.documented []) h (by decide) rfl).mpr (fun _ _ => by decide)
    (by decide) (by decide)

/-- The commit fails, and the entry stays in the group; or the entry is refused, and the next `set`
adds it. -/
theorem not_failed_announce :
    (∃ s₁, runningService.announce (.documented []) 1 "n".toList ⟨true, 0, -8⟩ [] =
        some (s₁, .ok (-8)) ∧ s₁.isAnnounced = true) ∧
      ∃ s₁ s₂, runningService.announce (.documented []) 1 "n".toList ⟨true, -8, 0⟩ [] =
          some (s₁, .ok (-8)) ∧ s₁.isAnnounced = false ∧
        step (.documented []) s₁ (.set "k".toList "v".toList ⟨true, 0, 0⟩) = some s₂ ∧
        s₂.isAnnounced = true :=
  ⟨⟨_, rfl, by decide⟩, _, _, rfl, by decide, rfl, by decide⟩

end Servus.Avahi
