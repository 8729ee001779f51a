import Servus.Avahi.Trace

/-!
# What a browse returns, with avahi

`_result` is the return value of `browse`, the place where the callbacks leave the error of the
client, and the sign that the loop gave up. `Code` is the part of the object that this takes, and
`Callback.store` what a callback stores. A `browse` that gives up returns `POLL_ERROR`; one that is
ended by its clock returns `SUCCESS` over whatever the callbacks stored, unless it is the code of
`POLL_ERROR` (`browse_end`).

`browse_reports_iff`: a failure of the browser or the client, and polls that all fail, are
reported only by a `browse` that gives up.
-/

namespace Servus.Avahi

open Cpp

variable {env : Env}

/-! ## What the callbacks store -/

/-- `_result`, and whether `_group` is set: without a group the client's `RUNNING` may store
nothing. -/
structure Code where
  hasGroup : Bool
  code : Result
  deriving DecidableEq

def Service.toCode (s : Service) : Code := ⟨s.group.isSome, s.result⟩

/-- What `_createServices` stores. -/
def Create.store (c : Create) (m : Code) : Code :=
  if m.hasGroup || c.newGroup then ⟨true, if c.add ≠ Result.SUCCESS then c.add else c.commit⟩
  else m

/-- What a callback stores, in an object that has a name to announce or not (`named`) and browses
in `scope`. -/
def Callback.store (named : Bool) (scope : Interface) (m : Code) : Callback → Code
  | .client .S_RUNNING _ c => if named then c.store m else m
  | .client .FAILURE errno _ => { m with code := errno }
  | .client .S_COLLISION _ _ => { m with code := EEXIST }
  | .client .S_REGISTERING _ _ | .client .CONNECTING _ _ => m
  | .group .COLLISION | .group .FAILURE => { m with code := EEXIST }
  | .group _ => m
  | .browse _ _ .FAILURE _ _ errno => { m with code := errno }
  | .browse _ _ .NEW _ newResolver errno => if newResolver then m else { m with code := errno }
  | .browse _ _ .REMOVE _ _ _ => m
  | .browse _ _ .ALL_FOR_NOW _ _ _ | .browse _ _ .CACHE_EXHAUSTED _ _ _ =>
    { m with code := Result.SUCCESS }
  | .resolve .FAILURE _ _ _ isLocal errno =>
    if scope = .IF_LOCAL ∧ isLocal = false then m else { m with code := errno }
  | .resolve .FOUND _ _ _ _ _ => m

/-- `s'` is `s` with `store` done to its code, under the same name and scope. -/
structure Stored (s s' : Service) (store : Code → Code) : Prop where
  code : s'.toCode = store s.toCode
  announceName : s'.announceName = s.announceName
  scope : s'.scope = s.scope

theorem Stored.trans {s t u : Service} {f g : Code → Code} (h : Stored s t f)
    (h' : Stored t u g) : Stored s u (g ∘ f) :=
  ⟨by rw [h'.code, h.code, Function.comp_apply], h'.announceName.trans h.announceName,
    h'.scope.trans h.scope⟩

theorem createServices_stored (env : Env) (s : Service) (c : Create) :
    Stored s (s.createServices env c) c.store := by
  cases hg : s.group with
  | none =>
    cases hn : c.newGroup with
    | false =>
      constructor <;> simp [Service.createServices, Service.toCode, Create.store, hg, hn]
    | true =>
      by_cases ha : c.add = Result.SUCCESS
      · constructor <;> simp [Service.createServices, Service.toCode, Create.store, hg, hn, ha]
      · constructor <;> simp [Service.createServices, Service.toCode, Create.store, hg, hn, ha]
  | some entries =>
    by_cases ha : c.add = Result.SUCCESS
    · constructor <;>
        simp [Service.createServices, Service.reset, Service.toCode, Create.store, hg, ha]
    · constructor <;>
        simp [Service.createServices, Service.reset, Service.toCode, Create.store, hg, ha]

/-- A callback stores its code. -/
theorem callback_stored {s s' : Service} {cb : Callback} (h : s.callback env cb = .ok s') :
    Stored s s' (cb.store (s.announceName ≠ []) s.scope) := by
  cases cb with
  | client state errno c =>
    cases state with
    | S_RUNNING =>
      obtain rfl := Except.ok.inj h
      split
      · rename_i hname
        obtain ⟨hc, hn, hs⟩ := createServices_stored env { s with announcable := true } c
        refine ⟨hc.trans ?_, hn, hs⟩
        rw [Callback.store, if_pos (decide_eq_true hname)]
        rfl
      · rename_i hname
        refine ⟨?_, rfl, rfl⟩
        rw [Callback.store, if_neg (by simpa using hname)]
        rfl
    | S_REGISTERING => cases h
    | S_COLLISION | FAILURE | CONNECTING =>
      obtain rfl := Except.ok.inj h
      exact ⟨rfl, rfl, rfl⟩
  | group state =>
    obtain rfl := Except.ok.inj h
    cases state <;> exact ⟨rfl, rfl, rfl⟩
  | browse ifIndex protocol event name newResolver errno =>
    obtain rfl := Except.ok.inj h
    cases event with
    | NEW => cases newResolver <;> exact ⟨rfl, rfl, rfl⟩
    | REMOVE | CACHE_EXHAUSTED | ALL_FOR_NOW | FAILURE => exact ⟨rfl, rfl, rfl⟩
  | resolve event name host txt isLocal errno =>
    by_cases hlocal : s.scope = .IF_LOCAL ∧ isLocal = false
    · rw [Service.callback, Service.resolveCB.eq_def, if_pos hlocal] at h
      obtain rfl := Except.ok.inj h
      cases event with
      | FAILURE => exact ⟨by simp [Callback.store, hlocal], rfl, rfl⟩
      | FOUND => exact ⟨rfl, rfl, rfl⟩
    · cases event with
      | FAILURE =>
        rw [Service.callback, Service.resolveCB.eq_def, if_neg hlocal] at h
        obtain rfl := Except.ok.inj h
        refine ⟨?_, rfl, rfl⟩
        simp only [Callback.store, if_neg hlocal]
        rfl
      | FOUND =>
        rw [Service.callback, resolveCB_found_eq hlocal] at h
        obtain rfl := Except.ok.inj h
        exact ⟨rfl, rfl, rfl⟩

/-- The code after callbacks none of which throws. -/
theorem callbacks_stored {cbs : List Callback} {s t : Service}
    (h : s.callbacks env cbs = (t, .ok ())) :
    Stored s t fun m => cbs.foldl (Callback.store (s.announceName ≠ []) s.scope) m := by
  induction cbs generalizing s with
  | nil =>
    obtain ⟨rfl, -⟩ := Prod.mk.inj h
    exact ⟨rfl, rfl, rfl⟩
  | cons cb cbs ih =>
    rw [Service.callbacks] at h
    cases hcb : s.callback env cb with
    | error e =>
      rw [hcb] at h
      cases h
    | ok u =>
      rw [hcb] at h
      have hfirst := callback_stored hcb
      have hrest := ih h
      rw [hfirst.announceName, hfirst.scope] at hrest
      exact hfirst.trans hrest

/-! ## How the loop ends -/

inductive LoopEnd where
  /-- A callback throws. -/
  | threw
  /-- The tenth poll fails. -/
  | gaveUp
  /-- The time is up. -/
  | timeUp
  /-- The loop is still running. -/
  | running
  deriving DecidableEq

/-- How the loop of `browse` ends, with `nErrors` failed polls so far. -/
def loopEnd (timeout : Int) : List Poll → Nat → LoopEnd
  | [], _ => .running
  | p :: ps, nErrors =>
    let nErrors := if p.ret ≠ 0 then nErrors + 1 else nErrors
    if p.callbacks.any (·.throws) then .threw
    else if p.ret ≠ 0 ∧ ¬ nErrors < 10 then .gaveUp
    else if p.elapsed < timeout then loopEnd timeout ps nErrors
    else .timeUp

/-- The polls that the loop of `browse` makes, with `nErrors` failed polls so far. -/
def performed (timeout : Int) : List Poll → Nat → List Poll
  | [], _ => []
  | p :: ps, nErrors =>
    let nErrors := if p.ret ≠ 0 then nErrors + 1 else nErrors
    p ::
      if p.callbacks.any (·.throws) ∨ (p.ret ≠ 0 ∧ ¬ nErrors < 10) ∨ ¬ p.elapsed < timeout then []
      else performed timeout ps nErrors

theorem untilThrow_eq_self {cbs : List Callback} (h : cbs.any (·.throws) = false) :
    untilThrow cbs = cbs := by
  refine List.takeWhile_eq_self_iff.mpr fun cb hcb => ?_
  rw [List.any_eq_false] at h
  simpa using h cb hcb

/-- What the loop leaves, by how it ends. -/
theorem browseLoop_end (env : Env) (timeout : Int) (polls : List Poll) (nErrors : Nat)
    (s : Service) :
    match loopEnd timeout polls nErrors with
    | .running => s.browseLoop env timeout polls nErrors = none
    | .threw => ∃ t e, s.browseLoop env timeout polls nErrors = some (t, .error e)
    | .gaveUp => ∃ t, s.browseLoop env timeout polls nErrors = some (t, .ok ()) ∧
        t.result = Result.POLL_ERROR
    | .timeUp => ∃ t, s.browseLoop env timeout polls nErrors = some (t, .ok ()) ∧
        t.toCode = (delivered timeout polls nErrors).foldl
          (Callback.store (s.announceName ≠ []) s.scope) s.toCode := by
  induction polls generalizing nErrors s with
  | nil => rfl
  | cons p polls ih =>
    have hall := callbacks_ok_iff env p.callbacks s
    rw [loopEnd, Service.browseLoop, delivered]
    dsimp only
    generalize (if p.ret ≠ 0 then nErrors + 1 else nErrors) = n
    rcases hcb : s.callbacks env p.callbacks with ⟨t, e | u⟩
    · rw [hcb] at hall
      have hthrow : p.callbacks.any (·.throws) = true := by simpa using hall
      rw [if_pos hthrow]
      exact ⟨t, e, rfl⟩
    · rw [hcb] at hall
      have hno : p.callbacks.any (·.throws) = false := hall.mp rfl
      have hthrow : ¬ p.callbacks.any (·.throws) = true := by simp [hno]
      have hstored := callbacks_stored hcb
      rw [if_neg hthrow, untilThrow_eq_self hno]
      dsimp only
      by_cases herr : p.ret ≠ 0 ∧ ¬ n < 10
      · rw [if_pos herr, if_pos herr]
        exact ⟨_, rfl, rfl⟩
      · rw [if_neg herr, if_neg herr]
        by_cases htime : p.elapsed < timeout
        · have hrest : ¬ (p.callbacks.any (·.throws) = true ∨ (p.ret ≠ 0 ∧ ¬ n < 10) ∨
              ¬ p.elapsed < timeout) := by
            rintro (h | h | h)
            · exact hthrow h
            · exact herr h
            · exact h htime
          rw [if_pos htime, if_pos htime, if_neg hrest, List.foldl_append, ← hstored.code,
            ← hstored.announceName, ← hstored.scope]
          exact ih n t
        · rw [if_neg htime, if_neg htime, if_pos (.inr (.inr htime)), List.append_nil]
          exact ⟨t, rfl, hstored.code⟩

/-! ## The result of a browse -/

/-- The code that the callbacks of a `browse` leave. -/
def Service.lastCode (s : Service) (timeout : Int) (polls : List Poll) : Result :=
  ((delivered timeout polls 0).foldl (Callback.store (s.announceName ≠ []) s.scope)
    ⟨s.group.isSome, Result.PENDING⟩).code

/-- What `browse` returns, by how its loop ends. -/
theorem browse_end (env : Env) (s : Service) (timeout : Int) (polls : List Poll) :
    match loopEnd timeout polls 0 with
    | .running => s.browse env timeout polls = none
    | .threw => ∃ t e, s.browse env timeout polls = some (t, .error e)
    | .gaveUp => ∃ t, s.browse env timeout polls = some (t, .ok Result.POLL_ERROR)
    | .timeUp => ∃ t, s.browse env timeout polls = some (t, .ok
        (if s.lastCode timeout polls = Result.POLL_ERROR then Result.POLL_ERROR
          else Result.SUCCESS)) := by
  have hloop := browseLoop_end env timeout polls 0 { s with result := Result.PENDING }
  unfold Service.browse
  cases hend : loopEnd timeout polls 0 with
  | running =>
    rw [hend] at hloop
    dsimp only at hloop ⊢
    rw [hloop]
    rfl
  | threw =>
    rw [hend] at hloop
    obtain ⟨t, e, ht⟩ := hloop
    exact ⟨t, e, by rw [ht]; rfl⟩
  | gaveUp =>
    rw [hend] at hloop
    obtain ⟨t, ht, hres⟩ := hloop
    refine ⟨t.browsed, ?_⟩
    rw [ht]
    simp [Service.browsed, hres]
  | timeUp =>
    rw [hend] at hloop
    obtain ⟨t, ht, hcode⟩ := hloop
    have hres : t.result = s.lastCode timeout polls := congrArg Code.code hcode
    refine ⟨t.browsed, ?_⟩
    rw [ht, ← hres]
    by_cases hpoll : t.result = Result.POLL_ERROR
    · simp [Service.browsed, hpoll]
    · simp [Service.browsed, hpoll]

/-- A failure of the browser or of the client, with the client's error. -/
def Callback.isFailure : Callback → Bool
  | .browse _ _ .FAILURE _ _ errno | .client .FAILURE errno _ => errno ≠ 0
  | _ => false

/-- Something fails in a `browse`: the browser or the client, or every poll. -/
def Failed (timeout : Int) (polls : List Poll) : Prop :=
  (∃ cb ∈ delivered timeout polls 0, cb.isFailure = true) ∨
    ∀ p ∈ performed timeout polls 0, p.ret ≠ 0

/-- **When a browse reports its failures.** The result of a `browse` in which something fails is
other than `SUCCESS` exactly when its loop is not ended by the clock, or when the last code that
its callbacks store happens to be the one of `POLL_ERROR`. -/
theorem browse_reports_iff (env : Env) (s : Service) (timeout : Int) (polls : List Poll) :
    (∀ s' r, s.browse env timeout polls = some (s', .ok r) → Failed timeout polls →
        r ≠ Result.SUCCESS) ↔
      ¬ Failed timeout polls ∨ loopEnd timeout polls 0 ≠ .timeUp ∨
        s.lastCode timeout polls = Result.POLL_ERROR := by
  have hend := browse_end env s timeout polls
  cases hloop : loopEnd timeout polls 0 with
  | running =>
    rw [hloop] at hend
    dsimp only at hend
    simp [hend]
  | threw =>
    rw [hloop] at hend
    obtain ⟨t, e, ht⟩ := hend
    simp [ht]
  | gaveUp =>
    rw [hloop] at hend
    obtain ⟨t, ht⟩ := hend
    simp [ht, Result.POLL_ERROR, Result.SUCCESS]
  | timeUp =>
    rw [hloop] at hend
    obtain ⟨t, ht⟩ := hend
    rw [ht]
    constructor
    · intro h
      by_cases hfailed : Failed timeout polls
      · right; right
        by_contra hcode
        rw [if_neg hcode] at h
        exact h t _ rfl hfailed rfl
      · exact .inl hfailed
    · rintro h s' r hret hfailed
      obtain ⟨-, hr⟩ := Prod.mk.inj (Option.some.inj hret)
      rcases h with h | h | h
      · exact absurd hfailed h
      · exact absurd rfl h
      · rw [if_pos h] at hr
        obtain rfl := Except.ok.inj hr
        decide

/-- The browser fails, and the time is up before the next poll; two polls fail, and the time is up
before the tenth. -/
theorem browse_masks_failure :
    (∃ s', Service.browse (.documented []) { name := "_t._tcp".toList, browser := true } 100
        [⟨[.browse 0 0 .FAILURE [] false (-26)], 0, 100⟩] = some (s', .ok Result.SUCCESS)) ∧
      Failed 100 [⟨[.browse 0 0 .FAILURE [] false (-26)], 0, 100⟩] ∧
      (∃ s', Service.browse (.documented []) { name := "_t._tcp".toList, browser := true } 100
        [⟨[], -1, 50⟩, ⟨[], -1, 100⟩] = some (s', .ok Result.SUCCESS)) ∧
      Failed 100 [⟨[], -1, 50⟩, ⟨[], -1, 100⟩] := by
  refine ⟨⟨_, rfl⟩, .inl ⟨_, List.mem_cons_self, rfl⟩, ⟨_, rfl⟩, .inr ?_⟩
  decide

end Servus.Avahi
