import Servus.Dnssd.Model

/-!
# The re-entrant event loop of the dnssd backend

`_handleEvents` runs inside its own callbacks, and one member `_result` is the loop condition and
the return value at both levels.

* `handleEvents_cases`: a call returns something other than `PENDING` and leaves `_result` as it
  found it when that was `PENDING`. So each nested loop is invisible to the loop around it
  (`browseCB_pending`).
* `Iter.outcome`: what one pass over the browse ref itself ends the loop with, if it does.
  `handleLoop_browse` says that the first such pass decides what `browse` returns.
* `handleEvents_reentrant`: over every run, `_result` is `PENDING` between the public calls, and
  `browse` returns because of its own ref only.
-/

namespace Servus.Dnssd

open Cpp

section HandleEvents

variable {κ : Type} {reply : Service → κ → Option Service} {s s' : Service} {r : Result}

/-- The loop ends only when `_result` is set. -/
theorem handleLoop_result_ne {iters : List (Iter κ)}
    (h : Service.handleLoop reply iters s = some s') : s'.result ≠ Result.PENDING := by
  induction iters generalizing s with
  | nil =>
    unfold Service.handleLoop at h
    split at h
    · cases h
    · rename_i hr
      cases h
      exact hr
  | cons it iters ih =>
    unfold Service.handleLoop at h
    split at h
    · obtain ⟨t, -, h⟩ := Option.bind_eq_some_iff.mp h
      exact ih h
    · rename_i hr
      cases h
      exact hr

/-- A call of `_handleEvents` returns because its ref is not valid, or with what its loop ended
with, and then `_result` is reset. -/
theorem handleEvents_cases {service : Bool} {fd : Int} {iters : List (Iter κ)}
    (h : s.handleEvents reply service fd iters = some (r, s')) :
    (service = false ∧ r = kDNSServiceErr_Unknown ∧ s' = s) ∨
    (service = true ∧ fd < 0 ∧ r = kDNSServiceErr_BadParam ∧ s' = s) ∨
    (service = true ∧ 0 ≤ fd ∧ ∃ t, Service.handleLoop reply iters s = some t ∧ r = t.result ∧
      s' = { t with result := Result.PENDING }) := by
  unfold Service.handleEvents at h
  split at h
  · rename_i hs
    cases h
    exact .inl ⟨hs, rfl, rfl⟩
  · rename_i hs
    have hs : service = true := by simpa using hs
    split at h
    · rename_i hfd
      cases h
      exact .inr (.inl ⟨hs, hfd, rfl, rfl⟩)
    · rename_i hfd
      obtain ⟨t, ht, h⟩ := Option.map_eq_some_iff.mp h
      cases h
      exact .inr (.inr ⟨hs, by omega, t, ht, rfl, rfl⟩)

/-- A call that is entered with `PENDING` leaves `PENDING` and returns something else. -/
theorem handleEvents_pending {service : Bool} {fd : Int} {iters : List (Iter κ)}
    (hs : s.result = Result.PENDING) (h : s.handleEvents reply service fd iters = some (r, s')) :
    s'.result = Result.PENDING ∧ r ≠ Result.PENDING := by
  rcases handleEvents_cases h with ⟨-, rfl, rfl⟩ | ⟨-, -, rfl, rfl⟩ | ⟨-, -, t, ht, rfl, rfl⟩
  · exact ⟨hs, by decide⟩
  · exact ⟨hs, by decide⟩
  · exact ⟨rfl, handleLoop_result_ne ht⟩

end HandleEvents

/-! ## Browsing -/

@[simp] theorem withdraw_result (s : Service) : s.withdraw.result = s.result := by
  unfold Service.withdraw
  split <;> rfl

theorem withdraw_browsedName (s : Service) : s.withdraw.browsedName = s.browsedName := by
  unfold Service.withdraw
  split <;> rfl

theorem withdraw_out (s : Service) : s.withdraw.out = false := by
  unfold Service.withdraw
  split
  · rfl
  · rename_i h
    simpa using h

/-- What `browseCB_` can do: nothing at an error; else drop the instance, or enter its name and, if
there is a ref, run the nested loop. -/
theorem browseCB_cases {s s' : Service} {b : BrowseReply} (h : s.browseCB b = some s') :
    (b.error ≠ kDNSServiceErr_NoError ∧ s' = s) ∨
    (b.error = kDNSServiceErr_NoError ∧ b.add = false ∧
      s' = { s with toImpl := s.toImpl.change (.removed b.name) }) ∨
    (b.error = kDNSServiceErr_NoError ∧ b.add = true ∧ b.service = false ∧
      s' = { s with browsedName := b.name }) ∨
    (b.error = kDNSServiceErr_NoError ∧ b.add = true ∧ b.service = true ∧
      ∃ r, Service.handleEvents Service.resolveCBS { s with browsedName := b.name } true b.fd
        b.iters = some (r, s')) := by
  unfold Service.browseCB at h
  by_cases he : b.error = kDNSServiceErr_NoError
  · rw [if_neg (not_not.mpr he)] at h
    cases hadd : b.add with
    | false =>
      simp only [hadd, Bool.false_eq_true, ↓reduceIte] at h
      exact .inr (.inl ⟨he, rfl, (Option.some.inj h).symm⟩)
    | true =>
      cases hservice : b.service with
      | false =>
        simp only [hadd, hservice, Bool.false_eq_true, ↓reduceIte] at h
        exact .inr (.inr (.inl ⟨he, rfl, rfl, (Option.some.inj h).symm⟩))
      | true =>
        simp only [hadd, hservice, ↓reduceIte] at h
        obtain ⟨⟨r, t⟩, ht, rfl⟩ := Option.map_eq_some_iff.mp h
        exact .inr (.inr (.inr ⟨he, rfl, rfl, r, ht⟩))
  · rw [if_pos he] at h
    exact .inl ⟨he, (Option.some.inj h).symm⟩

/-- A browse callback hides its nested loop from the loop around it. -/
theorem browseCB_pending {s s' : Service} {b : BrowseReply} (hs : s.result = Result.PENDING)
    (h : s.browseCB b = some s') : s'.result = Result.PENDING := by
  rcases browseCB_cases h with ⟨-, rfl⟩ | ⟨-, -, rfl⟩ | ⟨-, -, -, rfl⟩ | ⟨-, -, -, r, h⟩
  · exact hs
  · exact hs
  · exact hs
  · exact (handleEvents_pending (s := { s with browsedName := b.name }) hs h).1

theorem foldlM_browseCB_pending {s s' : Service} {replies : List BrowseReply}
    (hs : s.result = Result.PENDING) (h : replies.foldlM Service.browseCB s = some s') :
    s'.result = Result.PENDING := by
  rw [foldlM_eq_run] at h
  exact run_invariant (I := fun s : Service => s.result = Result.PENDING) h
    (fun _ _ _ _ => browseCB_pending) hs

/-- The result that one pass of the loop sets by itself, replies apart. -/
def Iter.outcome {κ : Type} : Iter κ → Option Result
  | .timeout => some Result.SUCCESS
  | .error errno => if errno ≠ EINTR then some errno else none
  | .ready false _ _ => none
  | .ready true _ err => if err ≠ kDNSServiceErr_NoError then some err else none

theorem Iter.outcome_eq_some {κ : Type} {it : Iter κ} {r : Result} (h : it.outcome = some r) :
    (it = .timeout ∧ r = Result.SUCCESS) ∨ (it = .error r ∧ r ≠ EINTR) ∨
      ∃ replies, it = .ready true replies r ∧ r ≠ kDNSServiceErr_NoError := by
  cases it with
  | timeout =>
    cases h
    exact .inl ⟨rfl, rfl⟩
  | error errno =>
    simp only [outcome, Option.ite_none_right_eq_some, Option.some.injEq] at h
    obtain ⟨hne, rfl⟩ := h
    exact .inr (.inl ⟨rfl, hne⟩)
  | ready isSet replies error =>
    cases isSet with
    | false => cases h
    | true =>
      simp only [outcome, Option.ite_none_right_eq_some, Option.some.injEq] at h
      obtain ⟨hne, rfl⟩ := h
      exact .inr (.inr ⟨replies, rfl, hne⟩)

/-- A pass of the browse loop sets what the browse ref gives, or leaves `PENDING`. -/
theorem handleIter_browse {s s' : Service} {it : Iter BrowseReply}
    (hs : s.result = Result.PENDING) (h : s.handleIter Service.browseCB it = some s') :
    s'.result = it.outcome.getD Result.PENDING := by
  cases it with
  | timeout =>
    cases h
    rfl
  | error errno =>
    cases h
    by_cases he : errno = EINTR
    · simp [Iter.outcome, he, hs]
    · simp [Iter.outcome, he]
  | ready isSet replies error =>
    cases isSet with
    | false =>
      cases h
      exact hs
    | true =>
      obtain ⟨t, ht, h⟩ := Option.bind_eq_some_iff.mp h
      cases h
      by_cases he : error = kDNSServiceErr_NoError
      · simp [Iter.outcome, he, foldlM_browseCB_pending hs ht]
      · simp [Iter.outcome, he]

/-- The browse loop ends with the first outcome of its own ref. -/
theorem handleLoop_browse {s s' : Service} {iters : List (Iter BrowseReply)}
    (hs : s.result = Result.PENDING) (hne : ∀ it ∈ iters, it.outcome ≠ some Result.PENDING)
    (h : Service.handleLoop Service.browseCB iters s = some s') :
    iters.findSome? Iter.outcome = some s'.result := by
  induction iters generalizing s with
  | nil =>
    simp [Service.handleLoop, hs] at h
  | cons it iters ih =>
    rw [Service.handleLoop, if_pos hs] at h
    obtain ⟨t, ht, h⟩ := Option.bind_eq_some_iff.mp h
    have hres := handleIter_browse hs ht
    rw [List.findSome?_cons]
    cases ho : it.outcome with
    | none =>
      rw [ho, Option.getD_none] at hres
      exact ih hres (fun it hit => hne it (List.mem_cons_of_mem _ hit)) h
    | some r =>
      rw [ho, Option.getD_some] at hres
      have hend : t.result ≠ Result.PENDING := by
        rw [hres]
        rintro rfl
        exact hne it List.mem_cons_self ho
      -- `_result` is set, so the loop stops in front of the next pass
      obtain rfl : t = s' := by
        cases iters with
        | nil => simpa [Service.handleLoop, hend] using h
        | cons _ _ => simpa [Service.handleLoop, hend] using h
      rw [hres]

/-! ## Runs -/

theorem step_pending {s s' : Service} {op : Op} (hs : s.result = Result.PENDING)
    (h : step s op = some s') : s'.result = Result.PENDING := by
  cases op with
  | announce port instanceName reg iters =>
    obtain ⟨⟨r, t⟩, ht, rfl⟩ := Option.map_eq_some_iff.mp h
    unfold Service.announce at ht
    split at ht
    · cases ht
      exact hs
    · dsimp only at ht
      split at ht
      · exact (handleEvents_pending (s := s.register port instanceName reg) hs ht).1
      · cases ht
        exact hs
  | withdraw =>
    cases h
    rw [withdraw_result, hs]
  | set key value =>
    cases h
    unfold Service.set Service.updateRecord
    split <;> exact hs
  | beginBrowsing error ref =>
    cases h
    unfold Service.beginBrowsing Service.endBrowsing
    split
    · exact hs
    · dsimp only
      split
      · split <;> exact hs
      · exact hs
  | browse fd iters =>
    obtain ⟨⟨r, t⟩, ht, rfl⟩ := Option.map_eq_some_iff.mp h
    exact (handleEvents_pending hs ht).1
  | endBrowsing =>
    cases h
    unfold Service.endBrowsing
    split <;> exact hs

/-- Every call of `_handleEvents` that is entered with `PENDING` and returns leaves `PENDING` and
returns something else, whatever its callbacks do. So `_result` is `PENDING` between the public
calls of every run, and a `browse` that returns does so at the first pass over the browse ref
where `select` times out, or fails other than by a signal, or `DNSServiceProcessResult` fails. -/
theorem handleEvents_reentrant :
    (∀ (κ : Type) (reply : Service → κ → Option Service) (s s' : Service) (service : Bool)
      (fd : Int) (iters : List (Iter κ)) (r : Result), s.result = Result.PENDING →
      s.handleEvents reply service fd iters = some (r, s') →
      s'.result = Result.PENDING ∧ r ≠ Result.PENDING) ∧
    ∀ (name : Str) (ops : List Op) (s : Service), run step { name := name } ops = some s →
      s.result = Result.PENDING ∧
      ∀ (fd : Int) (iters : List (Iter BrowseReply)) (r : Result) (s' : Service),
        s.in_ = true → 0 ≤ fd → (∀ it ∈ iters, it.outcome ≠ some Result.PENDING) →
        s.browse fd iters = some (r, s') →
        ∃ before it after, iters = before ++ it :: after ∧ (∀ p ∈ before, p.outcome = none) ∧
          ((it = .timeout ∧ r = Result.SUCCESS) ∨ (it = .error r ∧ r ≠ EINTR) ∨
            ∃ replies, it = .ready true replies r ∧ r ≠ kDNSServiceErr_NoError) := by
  refine ⟨fun κ reply s s' service fd iters r hs h => handleEvents_pending hs h, ?_⟩
  intro name ops s hrun
  have hpending : s.result = Result.PENDING :=
    run_invariant (I := fun s : Service => s.result = Result.PENDING) hrun
      (fun _ _ _ _ => step_pending) rfl
  refine ⟨hpending, fun fd iters r s' hin hfd hne h => ?_⟩
  rcases handleEvents_cases h with ⟨hnull, -⟩ | ⟨-, hneg, -⟩ | ⟨-, -, t, ht, rfl, -⟩
  · rw [hin] at hnull
    cases hnull
  · omega
  · obtain ⟨before, it, after, heq, hit, hbefore⟩ :=
      List.findSome?_eq_some_iff.mp (handleLoop_browse hpending hne ht)
    exact ⟨before, it, after, heq, hbefore, it.outcome_eq_some hit⟩

/-- Two instances are added in one pass: one resolve fails and the other times out. Then a signal
interrupts `select`, and it times out. -/
def nestedPasses : List (Iter BrowseReply) :=
  [.ready true [⟨0, true, "x".toList, 0, true, 4, [.ready true [⟨-65538, [], []⟩] 0]⟩,
    ⟨0, true, "y".toList, 0, true, 4, [.timeout]⟩] 0, .error EINTR, .timeout]

theorem handleEvents_reentrant_nested :
    ∃ s r s', run step { name := "_t._tcp".toList } [.beginBrowsing 0 true] = some s ∧
      s.browse 3 nestedPasses = some (r, s') ∧ s'.result = Result.PENDING ∧ r ≠ Result.PENDING ∧
      ∃ before it after, nestedPasses = before ++ it :: after ∧ (∀ p ∈ before, p.outcome = none) ∧
        ((it = .timeout ∧ r = Result.SUCCESS) ∨ (it = .error r ∧ r ≠ EINTR) ∨
          ∃ replies, it = .ready true replies r ∧ r ≠ kDNSServiceErr_NoError) := by
  obtain ⟨s, hs⟩ : ∃ s, run step { name := "_t._tcp".toList } [.beginBrowsing 0 true] = some s :=
    Option.isSome_iff_exists.mp (by decide)
  obtain ⟨hpending, hbrowse⟩ := handleEvents_reentrant.2 _ _ s hs
  have hs' : ∀ s ∈ run step { name := "_t._tcp".toList } [.beginBrowsing 0 true],
      s.in_ = true ∧ (s.browse 3 nestedPasses).isSome := by decide
  obtain ⟨hin, hret⟩ := hs' s hs
  obtain ⟨⟨r, s'⟩, h⟩ := Option.isSome_iff_exists.mp hret
  obtain ⟨h1, h2⟩ := handleEvents_reentrant.1 _ _ s s' _ _ _ r hpending h
  exact ⟨s, r, s', hs, h, h1, h2, hbrowse 3 nestedPasses r s' hin (by decide) (by decide) h⟩

end Servus.Dnssd
