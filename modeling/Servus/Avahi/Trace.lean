import Servus.Avahi.Model

/-!
# What a browse does, with avahi

`_resolveCB` splits each entry of a TXT record at its first `=` (`entryItem`), and never throws
(`resolveCB_found_eq`). A `browse` delivers the callbacks of its polls up to the first that throws
(`delivered`), and what these do to the discovered data is a list of changes: `browse_changed`.
-/

namespace Servus.Avahi

open Cpp

/-! ## Resolving -/

/-- The key and the value that `_resolveCB` makes of an entry. Without a `=` both are the entry:
`npos + 1` is `0`. -/
def entryItem (entry : Str) : Str × Str :=
  (entry.takeWhile (· != '='), if '=' ∈ entry then (entry.dropWhile (· != '=')).tail else entry)

theorem entryItem_append {key : Str} (value : Str) (h : '=' ∉ key) :
    entryItem (key ++ '=' :: value) = (key, value) := by
  have hall := all_ne_of_notMem h
  rw [entryItem, takeWhile_split hall (by simp), dropWhile_split hall (by simp)]
  simp

theorem entryItem_of_notMem {entry : Str} (h : '=' ∉ entry) : entryItem entry = (entry, entry) := by
  rw [entryItem, List.takeWhile_eq_self_iff.mpr (all_ne_of_notMem h), if_neg h]

theorem assignEntry_eq (values : ValueMap) (entry : Str) :
    Service.assignEntry values entry =
      .ok (values.insert (entryItem entry).1 (entryItem entry).2) := by
  unfold Service.assignEntry
  rcases findFirstOf_cases "=".toList entry with ⟨hn, hmem⟩ | ⟨a, c, b, rfl, hc, ha, hf⟩
  · have hno : '=' ∉ entry := fun h => hmem '=' h (by simp)
    rw [hn, entryItem_of_notMem hno]
    simp [Pos.add]
  · obtain rfl : c = '=' := by simpa using hc
    have hkey := substr_prefix a ('=' :: b)
    have hvalue := substr_suffix_cons a b '='
    rw [hf, entryItem_append b fun h => ha '=' h (by simp)]
    simp only [Pos.add, hkey, hvalue, ok_bind]

theorem foldlM_assignEntry_eq (values : ValueMap) (txt : List Str) :
    txt.foldlM Service.assignEntry values = .ok (assignAll values (txt.map entryItem)) := by
  induction txt generalizing values with
  | nil => rfl
  | cons entry txt ih =>
    rw [List.foldlM_cons, assignEntry_eq, ok_bind, ih]
    rfl

/-- A resolved instance in scope is entered with the items of its record. -/
theorem resolveCB_found_eq {s : Service} {isLocal : Bool}
    (h : ¬ (s.scope = .IF_LOCAL ∧ isLocal = false)) (name host : Str) (txt : List Str)
    (errno : Int) :
    s.resolveCB .FOUND name host txt isLocal errno =
      .ok { s with toImpl := s.toImpl.change (.resolved name host (txt.map entryItem)) } := by
  rw [Service.resolveCB, if_neg h]
  simp only [foldlM_assignEntry_eq, ok_bind]
  rfl

/-- What `_resolveCB` can do: nothing out of scope, else set the result or enter the instance. -/
theorem resolveCB_cases {s s' : Service} {event : ResolverEvent} {name host : Str}
    {txt : List Str} {isLocal : Bool} {errno : Int}
    (h : s.resolveCB event name host txt isLocal errno = .ok s') :
    (s' = s ∧ s.scope = .IF_LOCAL ∧ isLocal = false) ∨
      (event = .FAILURE ∧ s' = { s with result := errno }) ∨
      ¬ (s.scope = .IF_LOCAL ∧ isLocal = false) ∧ event = .FOUND ∧ s' =
        { s with toImpl := s.toImpl.change (.resolved name host (txt.map entryItem)) } := by
  by_cases hlocal : s.scope = .IF_LOCAL ∧ isLocal = false
  · rw [Service.resolveCB.eq_def, if_pos hlocal] at h
    exact .inl ⟨(Except.ok.inj h).symm, hlocal⟩
  · cases event with
    | FAILURE =>
      rw [Service.resolveCB.eq_def, if_neg hlocal] at h
      exact .inr (.inl ⟨rfl, (Except.ok.inj h).symm⟩)
    | FOUND =>
      rw [resolveCB_found_eq hlocal] at h
      exact .inr (.inr ⟨hlocal, rfl, (Except.ok.inj h).symm⟩)

/-! ## Callbacks and changes -/

/-- `_clientCB` does not implement `S_REGISTERING`. -/
def Callback.throws : Callback → Bool
  | .client .S_REGISTERING _ _ => true
  | _ => false

/-- What a callback does to the discovered data of an object that browses in `scope`. -/
def Callback.changes (scope : Interface) : Callback → List Change
  | .browse _ _ .REMOVE name _ _ => [.removed name]
  | .resolve .FOUND name host txt isLocal _ =>
    if scope = .IF_LOCAL ∧ isLocal = false then [] else [.resolved name host (txt.map entryItem)]
  | _ => []

/-- `s'` is `s` with the changes made, browsing as before. -/
structure Changed (s s' : Service) (cs : List Change) : Prop where
  toImpl : s'.toImpl = cs.foldl Impl.change s.toImpl
  scope : s'.scope = s.scope

theorem Changed.trans {s t u : Service} {cs ds : List Change} (h : Changed s t cs)
    (h' : Changed t u ds) : Changed s u (cs ++ ds) :=
  ⟨by rw [h'.toImpl, h.toImpl, List.foldl_append], h'.scope.trans h.scope⟩

theorem createServices_changed (env : Env) (s : Service) (c : Create) :
    Changed s (s.createServices env c) [] := by
  unfold Service.createServices
  cases s.group <;> cases c.newGroup <;> dsimp only [Service.reset] <;> split <;>
    first | exact ⟨rfl, rfl⟩ | (split <;> exact ⟨rfl, rfl⟩)

theorem callback_changed {env : Env} {s s' : Service} {cb : Callback}
    (h : s.callback env cb = .ok s') : Changed s s' (cb.changes s.scope) := by
  cases cb with
  | client state errno c =>
    cases state with
    | S_RUNNING =>
      obtain rfl := Except.ok.inj h
      by_cases ha : s.announceName = []
      · simp only [ha, ne_eq, not_true_eq_false, ↓reduceIte]
        exact ⟨rfl, rfl⟩
      · simp only [ha, ne_eq, not_false_eq_true, ↓reduceIte]
        obtain ⟨hi, hs⟩ := createServices_changed env { s with announcable := true } c
        exact ⟨hi, hs⟩
    | S_REGISTERING => cases h
    | S_COLLISION | FAILURE | CONNECTING =>
      obtain rfl := Except.ok.inj h
      exact ⟨rfl, rfl⟩
  | group state =>
    obtain rfl := Except.ok.inj h
    cases state <;> exact ⟨rfl, rfl⟩
  | browse ifIndex protocol event name newResolver errno =>
    obtain rfl := Except.ok.inj h
    cases event with
    | NEW => cases newResolver <;> exact ⟨rfl, rfl⟩
    | REMOVE | CACHE_EXHAUSTED | ALL_FOR_NOW | FAILURE => exact ⟨rfl, rfl⟩
  | resolve event name host txt isLocal errno =>
    rcases resolveCB_cases h with ⟨rfl, hlocal⟩ | ⟨rfl, rfl⟩ | ⟨hlocal, rfl, rfl⟩
    · cases event with
      | FAILURE => exact ⟨rfl, rfl⟩
      | FOUND => exact ⟨by simp [Callback.changes, hlocal], rfl⟩
    · exact ⟨rfl, rfl⟩
    · exact ⟨by simp [Callback.changes, hlocal], rfl⟩

theorem callback_of_throws (env : Env) (s : Service) {cb : Callback} (h : cb.throws = true) :
    ∃ e, s.callback env cb = .error e := by
  unfold Callback.throws at h
  split at h
  · exact ⟨_, rfl⟩
  · cases h

theorem callback_of_not_throws (env : Env) (s : Service) {cb : Callback}
    (h : cb.throws = false) : ∃ s', s.callback env cb = .ok s' := by
  cases cb with
  | client state errno c =>
    cases state with
    | S_REGISTERING => cases h
    | S_RUNNING | S_COLLISION | FAILURE | CONNECTING => exact ⟨_, rfl⟩
  | group state => exact ⟨_, rfl⟩
  | browse ifIndex protocol event name newResolver errno => exact ⟨_, rfl⟩
  | resolve event name host txt isLocal errno =>
    by_cases hlocal : s.scope = .IF_LOCAL ∧ isLocal = false
    · exact ⟨s, by rw [Service.callback, Service.resolveCB.eq_def, if_pos hlocal]⟩
    · cases event with
      | FAILURE => exact ⟨_, by rw [Service.callback, Service.resolveCB.eq_def, if_neg hlocal]⟩
      | FOUND => exact ⟨_, resolveCB_found_eq hlocal name host txt errno⟩

/-! ## Browsing -/

/-- The callbacks that take effect when a loop is handed `cbs`. -/
def untilThrow (cbs : List Callback) : List Callback := cbs.takeWhile (!·.throws)

/-- The callbacks that take effect in the loop of `browse`, with `nErrors` failed polls so far. -/
def delivered (timeout : Int) : List Poll → Nat → List Callback
  | [], _ => []
  | p :: ps, nErrors =>
    let nErrors := if p.ret ≠ 0 then nErrors + 1 else nErrors
    untilThrow p.callbacks ++
      if p.callbacks.any (·.throws) ∨ (p.ret ≠ 0 ∧ ¬ nErrors < 10) ∨ ¬ p.elapsed < timeout then []
      else delivered timeout ps nErrors

theorem callbacks_ok_iff (env : Env) (cbs : List Callback) (s : Service) :
    (s.callbacks env cbs).2 = .ok () ↔ cbs.any (·.throws) = false := by
  induction cbs generalizing s with
  | nil => simp [Service.callbacks]
  | cons cb cbs ih =>
    rw [Service.callbacks, List.any_cons]
    cases ht : cb.throws with
    | true =>
      obtain ⟨e, he⟩ := callback_of_throws env s ht
      simp [he]
    | false =>
      obtain ⟨t, hok⟩ := callback_of_not_throws env s ht
      rw [hok, Bool.false_or]
      exact ih t

section Delivered

/-! A relation between the object before and after callbacks, that one callback meets and that
composes, is met by what the loop of `browse` delivers. -/

variable {env : Env} {R : Service → Service → List Callback → Prop}
  (hrefl : ∀ s, R s s [])
  (htrans : ∀ {s t u cbs cbs'}, R s t cbs → R t u cbs' → R s u (cbs ++ cbs'))
  (hcallback : ∀ {s s' cb}, s.callback env cb = .ok s' → R s s' [cb])

include hrefl htrans hcallback

theorem callbacks_delivered (cbs : List Callback) (s : Service) :
    R s (s.callbacks env cbs).1 (untilThrow cbs) := by
  induction cbs generalizing s with
  | nil => exact hrefl s
  | cons cb cbs ih =>
    rw [Service.callbacks]
    cases ht : cb.throws with
    | true =>
      obtain ⟨e, he⟩ := callback_of_throws env s ht
      have hcut : untilThrow (cb :: cbs) = [] := List.takeWhile_cons_of_neg (by simp [ht])
      rw [hcut, he]
      exact hrefl s
    | false =>
      obtain ⟨t, hok⟩ := callback_of_not_throws env s ht
      have hcut : untilThrow (cb :: cbs) = cb :: untilThrow cbs :=
        List.takeWhile_cons_of_pos (by simp [ht])
      rw [hcut, hok]
      exact htrans (hcallback hok) (ih t)

variable (hresult : ∀ (s : Service) (r : Result), R s { s with result := r } [])

include hresult

theorem browseLoop_delivered {timeout : Int} {polls : List Poll} {nErrors : Nat}
    {s s' : Service} {r : Res Unit}
    (h : Service.browseLoop env timeout polls nErrors s = some (s', r)) :
    R s s' (delivered timeout polls nErrors) := by
  induction polls generalizing nErrors s with
  | nil => cases h
  | cons p polls ih =>
    have hcbs := callbacks_delivered hrefl htrans hcallback p.callbacks s
    have hall := callbacks_ok_iff env p.callbacks s
    rw [Service.browseLoop] at h
    rw [delivered]
    dsimp only at h ⊢
    generalize (if p.ret ≠ 0 then nErrors + 1 else nErrors) = n at h ⊢
    rcases hcb : s.callbacks env p.callbacks with ⟨t, e | u⟩
    · -- a callback throws, and so does `browse`
      rw [hcb] at h hcbs hall
      have hthrow : p.callbacks.any (·.throws) = true := by simpa using hall
      obtain ⟨rfl, -⟩ : t = s' ∧ _ := by simpa using h
      rw [if_pos (.inl hthrow), List.append_nil]
      exact hcbs
    · rw [hcb] at h hcbs hall
      have hno : p.callbacks.any (·.throws) = false := hall.mp rfl
      dsimp only at h
      by_cases herr : p.ret ≠ 0 ∧ ¬ n < 10
      · rw [if_pos herr] at h
        obtain ⟨rfl, -⟩ := Prod.mk.inj (Option.some.inj h)
        rw [if_pos (.inr (.inl herr))]
        exact htrans hcbs (hresult t _)
      · rw [if_neg herr] at h
        by_cases htime : p.elapsed < timeout
        · rw [if_pos htime] at h
          rw [if_neg (by rintro (h | h | h) <;> simp_all)]
          exact htrans hcbs (ih h)
        · rw [if_neg htime] at h
          obtain ⟨rfl, -⟩ := Prod.mk.inj (Option.some.inj h)
          rw [if_pos (.inr (.inr htime)), List.append_nil]
          exact hcbs

theorem browse_delivered {timeout : Int} {polls : List Poll} {s s' : Service} {r : Res Result}
    (h : s.browse env timeout polls = some (s', r)) : R s s' (delivered timeout polls 0) := by
  obtain ⟨⟨t, r'⟩, ht, h⟩ := Option.map_eq_some_iff.mp h
  have hloop := htrans (hresult s Result.PENDING)
    (browseLoop_delivered hrefl htrans hcallback hresult ht)
  cases r' with
  | error e =>
    obtain ⟨rfl, -⟩ := Prod.mk.inj h
    exact hloop
  | ok u =>
    obtain ⟨rfl, -⟩ := Prod.mk.inj h
    unfold Service.browsed
    split
    · exact List.append_nil (delivered timeout polls 0) ▸ htrans hloop (hresult t _)
    · exact hloop

end Delivered

/-- What a `browse` changes. -/
def Service.browseChanges (s : Service) (timeout : Int) (polls : List Poll) : List Change :=
  (delivered timeout polls 0).flatMap (Callback.changes s.scope)

/-- A `browse` that returns has made the changes of the callbacks that take effect in it. -/
theorem browse_changed {env : Env} {timeout : Int} {polls : List Poll} {s s' : Service}
    {r : Res Result} (h : s.browse env timeout polls = some (s', r)) :
    Changed s s' (s.browseChanges timeout polls) := by
  refine browse_delivered
    (R := fun s s' cbs => Changed s s' (cbs.flatMap (Callback.changes s.scope)))
    (fun s => ⟨rfl, rfl⟩) (fun hst htu => ?_) (fun hcb => ?_) (fun s r => ⟨rfl, rfl⟩) h
  · rw [hst.scope] at htu
    rw [List.flatMap_append]
    exact hst.trans htu
  · simpa using callback_changed hcb

end Servus.Avahi
