import Servus.Dnssd.Loop

/-!
# What a browse does

`browse` runs a loop, and the replies that add an instance run a loop of their own in it. What all
of this does to the object is a list of acts, and which acts these are can be read off the
passes: a loop makes its passes up to the first that sets `_result` (`executed`), and each of them
gives the acts of its replies and withdraws at an error. `browse_acts`: a `browse` that returns has
done `browseActs`, and nothing else.

`isAnnounced_browse_iff`: the shared loop withdraws the object's own announcement when the browse
ref or a resolve ref fails, so browsing leaves it intact exactly when none does.
-/

namespace Servus.Dnssd

open Cpp

inductive Act where
  /-- `_browsedName = name`. -/
  | browsed (name : Str)
  | change (c : Change)
  | withdraw
  deriving DecidableEq

def Act.apply (s : Service) : Act → Service
  | .browsed name => { s with browsedName := name }
  | .change c => { s with toImpl := s.toImpl.change c }
  | .withdraw => s.withdraw

/-- The passes of a loop that are made, up to the first that leaves a result. -/
def executed {κ : Type} (result : Iter κ → Result) : List (Iter κ) → List (Iter κ)
  | [] => []
  | it :: iters => it :: if result it = Result.PENDING then executed result iters else []

/-- `select` fails other than by a signal, or `DNSServiceProcessResult` fails. -/
def Iter.fails {κ : Type} : Iter κ → Bool
  | .error errno => errno ≠ EINTR
  | .ready true _ err => err ≠ kDNSServiceErr_NoError
  | _ => false

/-- The replies that a pass delivers. -/
def Iter.replies {κ : Type} : Iter κ → List κ
  | .ready true replies _ => replies
  | _ => []

/-- What a pass does, when `replyActs` is what its replies do. -/
def Iter.acts {κ : Type} (replyActs : κ → List Act) (it : Iter κ) : List Act :=
  it.replies.flatMap replyActs ++ if it.fails then [.withdraw] else []

/-- What a pass over the browse ref leaves in `_result`. -/
def browseResult (it : Iter BrowseReply) : Result := it.outcome.getD Result.PENDING

/-- What a pass over a resolve ref leaves in `_result`: its replies set it too. -/
def resolveResult (it : Iter ResolveReply) : Result :=
  it.outcome.getD ((it.replies.getLast?.map (·.error)).getD Result.PENDING)

def resolveActs (name : Str) (r : ResolveReply) : List Act :=
  if r.error = kDNSServiceErr_NoError then [.change (.resolved name r.host r.items)] else []

/-- The resolve ref of a reply is valid, so that the loop runs on it. -/
def BrowseReply.resolves (b : BrowseReply) : Bool :=
  b.error = kDNSServiceErr_NoError && b.add && b.service && decide (0 ≤ b.fd)

def replyActs (b : BrowseReply) : List Act :=
  if b.error ≠ kDNSServiceErr_NoError then []
  else if b.add then
    .browsed b.name :: if b.resolves then
      (executed resolveResult b.iters).flatMap (Iter.acts (resolveActs b.name)) else []
  else [.change (.removed b.name)]

/-- What a `browse` does. -/
def browseActs (iters : List (Iter BrowseReply)) : List Act :=
  (executed browseResult iters).flatMap (Iter.acts replyActs)

/-! ## The loop and its acts -/

/-- `s` apart from `_result`. -/
def Service.settled (s : Service) : Service := { s with result := Result.PENDING }

theorem settled_of_pending {s : Service} (h : s.result = Result.PENDING) : s.settled = s := by
  rw [Service.settled, ← h]

theorem settled_withdraw (s : Service) (r : Result) :
    Service.settled { s.withdraw with result := r } = s.settled.withdraw := by
  cases h : s.out <;> simp [Service.settled, Service.withdraw, h]

section HandleEvents

variable {κ : Type} {reply : Service → κ → Option Service} {result : Iter κ → Result}
  {acts : κ → List Act} {I : Service → Prop}

variable
  (hreply : ∀ (s : Service) (k : κ) (s' : Service), I s → reply s k = some s' →
    I s' ∧ s'.settled = (acts k).foldl Act.apply s.settled)
  (hnext : ∀ s s' : Service, s'.browsedName = s.browsedName → s'.result = Result.PENDING →
    I s → I s')
  (hresult : ∀ (s : Service) (it : Iter κ) (s' : Service), s.result = Result.PENDING →
    s.handleIter reply it = some s' → s'.result = result it)

include hreply

theorem foldlM_reply_acts {replies : List κ} {s s' : Service} (hs : I s)
    (h : replies.foldlM reply s = some s') :
    I s' ∧ s'.settled = (replies.flatMap acts).foldl Act.apply s.settled := by
  induction replies generalizing s with
  | nil =>
    cases h
    exact ⟨hs, rfl⟩
  | cons k replies ih =>
    obtain ⟨t, ht, h⟩ := Option.bind_eq_some_iff.mp h
    obtain ⟨hI, hacts⟩ := hreply s k t hs ht
    obtain ⟨hI', hacts'⟩ := ih hI h
    rw [List.flatMap_cons, List.foldl_append, ← hacts]
    exact ⟨hI', hacts'⟩

include hnext

/-- A pass does the acts of its replies, and withdraws when it fails. -/
theorem handleIter_acts {it : Iter κ} {s s' : Service} (hs : I s)
    (h : s.handleIter reply it = some s') :
    s'.settled = (it.acts acts).foldl Act.apply s.settled ∧
      (s'.result = Result.PENDING → I s') := by
  cases it with
  | timeout =>
    cases h
    exact ⟨rfl, fun hp => hnext s _ rfl hp hs⟩
  | error errno =>
    cases h
    by_cases he : errno = EINTR
    · simp [Iter.acts, Iter.replies, Iter.fails, he, hs]
    · simp only [ne_eq, he, not_false_eq_true, ↓reduceIte, settled_withdraw]
      refine ⟨by simp [Iter.acts, Iter.replies, Iter.fails, he, Act.apply], fun hp => ?_⟩
      exact hnext s _ (withdraw_browsedName s) hp hs
  | ready isSet replies error =>
    cases isSet with
    | false =>
      cases h
      exact ⟨rfl, fun _ => hs⟩
    | true =>
      obtain ⟨t, ht, h⟩ := Option.bind_eq_some_iff.mp h
      obtain ⟨hI, hacts⟩ := foldlM_reply_acts hreply hs ht
      cases h
      by_cases he : error = kDNSServiceErr_NoError
      · simp [Iter.acts, Iter.replies, Iter.fails, he, hI, hacts]
      · simp only [ne_eq, he, not_false_eq_true, ↓reduceIte, settled_withdraw]
        refine ⟨by simp [Iter.acts, Iter.replies, Iter.fails, he, Act.apply, hacts], fun hp => ?_⟩
        exact hnext t _ (withdraw_browsedName t) hp hI

include hresult

/-- A loop does the acts of the passes that it makes. -/
theorem handleLoop_acts {iters : List (Iter κ)} {s s' : Service} (hp : s.result = Result.PENDING)
    (hs : I s) (h : Service.handleLoop reply iters s = some s') :
    s'.settled = ((executed result iters).flatMap (Iter.acts acts)).foldl Act.apply s.settled := by
  induction iters generalizing s with
  | nil => simp [Service.handleLoop, hp] at h
  | cons it iters ih =>
    rw [Service.handleLoop, if_pos hp] at h
    obtain ⟨t, ht, h⟩ := Option.bind_eq_some_iff.mp h
    obtain ⟨hacts, hI⟩ := handleIter_acts hreply hnext hs ht
    have hr := hresult s it t hp ht
    rw [executed, List.flatMap_cons, List.foldl_append, ← hacts, ← hr]
    by_cases hpt : t.result = Result.PENDING
    · rw [if_pos hpt]
      exact ih hpt (hI hpt) h
    · -- the loop stops in front of the next pass
      obtain rfl : t = s' := by
        cases iters <;> simpa [Service.handleLoop, hpt] using h
      rw [if_neg hpt]
      rfl

theorem handleEvents_acts {fd : Int} {iters : List (Iter κ)} {s s' : Service} {r : Result}
    (hfd : 0 ≤ fd) (hp : s.result = Result.PENDING) (hs : I s)
    (h : s.handleEvents reply true fd iters = some (r, s')) :
    s' = ((executed result iters).flatMap (Iter.acts acts)).foldl Act.apply s := by
  rcases handleEvents_cases h with ⟨hnull, -⟩ | ⟨-, hneg, -⟩ | ⟨-, -, t, ht, -, rfl⟩
  · cases hnull
  · omega
  · have hacts := handleLoop_acts hreply hnext hresult hp hs ht
    rw [settled_of_pending hp] at hacts
    exact hacts

end HandleEvents

/-! ## Resolving and browsing -/

theorem foldlM_resolveCBS_result {replies : List ResolveReply} {s s' : Service}
    (h : replies.foldlM Service.resolveCBS s = some s') :
    s'.result = (replies.getLast?.map (·.error)).getD s.result := by
  induction replies generalizing s with
  | nil =>
    cases h
    rfl
  | cons r replies ih =>
    rw [List.foldlM_cons] at h
    obtain ⟨t, ht, h⟩ := Option.bind_eq_some_iff.mp h
    cases ht
    rw [ih h, List.getLast?_cons]
    cases replies.getLast? <;> rfl

theorem handleIter_resolve (s : Service) (it : Iter ResolveReply) (s' : Service)
    (hs : s.result = Result.PENDING) (h : s.handleIter Service.resolveCBS it = some s') :
    s'.result = resolveResult it := by
  cases it with
  | timeout =>
    cases h
    rfl
  | error errno =>
    cases h
    by_cases he : errno = EINTR
    · simp [resolveResult, Iter.outcome, Iter.replies, he, hs]
    · simp [resolveResult, Iter.outcome, he]
  | ready isSet replies error =>
    cases isSet with
    | false =>
      cases h
      exact hs
    | true =>
      obtain ⟨t, ht, h⟩ := Option.bind_eq_some_iff.mp h
      cases h
      by_cases he : error = kDNSServiceErr_NoError
      · simp [resolveResult, Iter.outcome, Iter.replies, he, foldlM_resolveCBS_result ht, hs]
      · simp [resolveResult, Iter.outcome, he]

theorem resolveCBS_acts {name : Str} (s : Service) (r : ResolveReply) (s' : Service)
    (hs : s.browsedName = name) (h : s.resolveCBS r = some s') :
    s'.browsedName = name ∧ s'.settled = (resolveActs name r).foldl Act.apply s.settled := by
  subst hs
  cases h
  unfold resolveActs
  split <;> exact ⟨rfl, rfl⟩

/-- A browse reply does its acts, those of its nested loop included. -/
theorem browseCB_acts (s : Service) (b : BrowseReply) (s' : Service)
    (hs : s.result = Result.PENDING) (h : s.browseCB b = some s') :
    s'.result = Result.PENDING ∧ s'.settled = (replyActs b).foldl Act.apply s.settled := by
  have hp := browseCB_pending hs h
  refine ⟨hp, ?_⟩
  rw [settled_of_pending hp, settled_of_pending hs]
  unfold replyActs
  rcases browseCB_cases h with ⟨he, rfl⟩ | ⟨he, hadd, rfl⟩ | ⟨he, hadd, hservice, rfl⟩ |
    ⟨he, hadd, hservice, r, h⟩
  · rw [if_pos he]
    rfl
  · simp only [he, hadd, ne_eq, not_true_eq_false, Bool.false_eq_true, ↓reduceIte]
    rfl
  · have hres : b.resolves = false := by simp [BrowseReply.resolves, hservice]
    simp only [he, hadd, hres, ne_eq, not_true_eq_false, Bool.false_eq_true, ↓reduceIte]
    rfl
  · simp only [he, hadd, ne_eq, not_true_eq_false, ↓reduceIte, List.foldl_cons]
    by_cases hfd : 0 ≤ b.fd
    · have hres : b.resolves = true := by simp [BrowseReply.resolves, he, hadd, hservice, hfd]
      have hnext : ∀ s s' : Service, s'.browsedName = s.browsedName →
          s'.result = Result.PENDING → s.browsedName = b.name → s'.browsedName = b.name :=
        fun s s' heq _ hname => heq.trans hname
      rw [if_pos hres]
      exact handleEvents_acts resolveCBS_acts hnext handleIter_resolve hfd hs rfl h
    · have hres : b.resolves = false := by simp [BrowseReply.resolves, hfd]
      rcases handleEvents_cases h with ⟨hnull, -⟩ | ⟨-, -, -, rfl⟩ | ⟨-, hpos, -⟩
      · cases hnull
      · rw [hres]
        rfl
      · exact absurd hpos hfd

/-- The loop of `browse` is entered: there is a browse ref with a socket, and no result. -/
def Service.browses (s : Service) (fd : Int) : Bool :=
  s.in_ && decide (0 ≤ fd) && s.result == Result.PENDING

/-- A `browse` that returns has done its acts. -/
theorem browse_acts {s s' : Service} {fd : Int} {iters : List (Iter BrowseReply)} {r : Result}
    (h : s.browse fd iters = some (r, s')) :
    s'.settled = (if s.browses fd then browseActs iters else []).foldl Act.apply s.settled := by
  by_cases hb : s.browses fd = true
  · obtain ⟨⟨hin, hfd⟩, hp⟩ : (s.in_ = true ∧ 0 ≤ fd) ∧ s.result = Result.PENDING := by
      simpa [Service.browses] using hb
    rw [Service.browse, hin] at h
    have hnext : ∀ s s' : Service, s'.browsedName = s.browsedName → s'.result = Result.PENDING →
        s.result = Result.PENDING → s'.result = Result.PENDING := fun _ _ _ hp _ => hp
    have hacts := handleEvents_acts browseCB_acts hnext (fun s it s' => handleIter_browse) hfd hp
      hp h
    rw [if_pos hb, settled_of_pending hp, settled_of_pending (handleEvents_pending hp h).1]
    exact hacts
  · rw [if_neg hb]
    rcases handleEvents_cases h with ⟨-, -, rfl⟩ | ⟨-, -, -, rfl⟩ | ⟨hin, hfd, t, ht, -, rfl⟩
    · rfl
    · rfl
    · -- the loop ends at once, since there is a result
      have hp : s.result ≠ Result.PENDING := fun hp => hb (by simp [Service.browses, hin, hfd, hp])
      obtain rfl : s = t := by
        cases iters <;> simpa [Service.handleLoop, hp] using ht
      rfl

def Act.changes : Act → List Change
  | .change c => [c]
  | _ => []

/-- What a `browse` changes. -/
def Service.browseChanges (s : Service) (fd : Int) (iters : List (Iter BrowseReply)) :
    List Change :=
  (if s.browses fd then browseActs iters else []).flatMap Act.changes

theorem foldl_apply_toImpl (acts : List Act) (s : Service) :
    (acts.foldl Act.apply s).toImpl = (acts.flatMap Act.changes).foldl Impl.change s.toImpl := by
  induction acts generalizing s with
  | nil => rfl
  | cons act acts ih =>
    rw [List.foldl_cons, ih, List.flatMap_cons, List.foldl_append]
    cases act with
    | browsed name => rfl
    | change c => rfl
    | withdraw =>
      have hw : s.withdraw.toImpl = s.toImpl := by
        unfold Service.withdraw
        split <;> rfl
      rw [Act.apply, hw]
      rfl

theorem browse_toImpl {s s' : Service} {fd : Int} {iters : List (Iter BrowseReply)} {r : Result}
    (h : s.browse fd iters = some (r, s')) :
    s'.toImpl = (s.browseChanges fd iters).foldl Impl.change s.toImpl :=
  (congrArg Service.toImpl (browse_acts h)).trans (foldl_apply_toImpl _ _)

/-! ## Browsing and the announcement -/

/-- A pass that a `browse` makes fails, over the browse ref or over a resolve ref that one of its
replies brings. -/
def RefFails (iters : List (Iter BrowseReply)) : Prop :=
  ∃ it ∈ executed browseResult iters, it.fails = true ∨
    ∃ b ∈ it.replies, b.resolves = true ∧ ∃ jt ∈ executed resolveResult b.iters, jt.fails = true

instance (iters : List (Iter BrowseReply)) : Decidable (RefFails iters) :=
  inferInstanceAs (Decidable (∃ it ∈ executed browseResult iters, _))

theorem withdraw_mem_acts {κ : Type} {replyActs : κ → List Act} {it : Iter κ} :
    .withdraw ∈ it.acts replyActs ↔
      it.fails = true ∨ ∃ k ∈ it.replies, .withdraw ∈ replyActs k := by
  unfold Iter.acts
  cases it.fails <;> simp

theorem withdraw_mem_browseActs {iters : List (Iter BrowseReply)} :
    .withdraw ∈ browseActs iters ↔ RefFails iters := by
  have hresolve : ∀ name r, .withdraw ∉ resolveActs name r := by
    intro name r
    unfold resolveActs
    split <;> simp
  have hreply : ∀ b, .withdraw ∈ replyActs b ↔ b.resolves = true ∧
      ∃ jt ∈ executed resolveResult b.iters, jt.fails = true := by
    intro b
    unfold replyActs
    by_cases hres : b.resolves = true
    · have hb : b.error = kDNSServiceErr_NoError ∧ b.add = true := by
        simp only [BrowseReply.resolves, Bool.and_eq_true, decide_eq_true_eq] at hres
        exact hres.1.1
      simp [hb, hres, withdraw_mem_acts, hresolve]
    · simp only [hres, Bool.false_eq_true, ↓reduceIte, false_and, iff_false]
      split
      · simp
      · split <;> simp
  simp [browseActs, RefFails, withdraw_mem_acts, hreply]

/-- The object is announced after the acts if it was and none of them withdraws. -/
theorem foldl_apply_out (acts : List Act) (s : Service) :
    (acts.foldl Act.apply s).out = true ↔ s.out = true ∧ .withdraw ∉ acts := by
  induction acts generalizing s with
  | nil => simp
  | cons act acts ih =>
    rw [List.foldl_cons, ih]
    cases act with
    | browsed name => simp [Act.apply]
    | change c => simp [Act.apply]
    | withdraw => simp [Act.apply, withdraw_out]

theorem browse_isAnnounced {s s' : Service} {fd : Int} {iters : List (Iter BrowseReply)}
    {r : Result} (h : s.browse fd iters = some (r, s')) :
    s'.isAnnounced = true ↔ s.isAnnounced = true ∧ (s.browses fd = true → ¬ RefFails iters) := by
  have hout : s'.out = true ↔ s.out = true ∧
      .withdraw ∉ if s.browses fd then browseActs iters else [] := by
    have hacts := foldl_apply_out (if s.browses fd then browseActs iters else []) s.settled
    rw [← browse_acts h] at hacts
    exact hacts
  rw [Service.isAnnounced, Service.isAnnounced, hout, ← withdraw_mem_browseActs]
  by_cases hb : s.browses fd = true <;> simp [hb]

/-- `discover` enters the loop of `browse`: the object browses already, or gets a ref. -/
def Service.discovers (s : Service) (error : Int) (ref : Bool) (fd : Int) : Bool :=
  (s.in_ || error == kDNSServiceErr_NoError && ref) && decide (0 ≤ fd) &&
    s.result == Result.PENDING

@[simp] theorem endBrowsing_isAnnounced (s : Service) :
    s.endBrowsing.isAnnounced = s.isAnnounced := by
  unfold Service.endBrowsing
  split <;> rfl

theorem endBrowsing_in (s : Service) : s.endBrowsing.in_ = false := by
  unfold Service.endBrowsing
  split
  · rfl
  · rename_i h
    simpa using h

/-- Behind `beginBrowsing`, `discover` disturbs the announcement as `browse` does. -/
theorem discoverFrom_isAnnounced {s s' : Service} {res : Result} {fd : Int}
    {iters : List (Iter BrowseReply)} (hres : s.in_ = true → res = Result.SUCCESS ∨
      res = Result.PENDING) (h : s.discoverFrom res fd iters = some s') :
    s'.isAnnounced = true ↔ s.isAnnounced = true ∧ (s.browses fd = true → ¬ RefFails iters) := by
  unfold Service.discoverFrom at h
  split at h
  · obtain ⟨⟨r, t⟩, ht, rfl⟩ := Option.map_eq_some_iff.mp h
    rw [← browse_isAnnounced ht]
    dsimp only
    split
    · rw [endBrowsing_isAnnounced]
    · rfl
  · rename_i hno
    cases h
    have hin : s.in_ = false := by simpa using mt hres hno
    simp [Service.browses, hin]

theorem discover_isAnnounced {s s' : Service} {error : Int} {ref : Bool} {fd : Int}
    {iters : List (Iter BrowseReply)} {names : List Str}
    (h : s.discover error ref fd iters = some (names, s')) :
    s'.isAnnounced = true ↔
      s.isAnnounced = true ∧ (s.discovers error ref fd = true → ¬ RefFails iters) := by
  obtain ⟨t, ht, h⟩ := Option.map_eq_some_iff.mp h
  cases h
  by_cases hin : s.in_ = true
  · have hdis : s.discovers error ref fd = s.browses fd := by
      simp [Service.discovers, Service.browses, hin]
    rw [show s.beginBrowsing error ref = (Result.PENDING, s) from if_pos hin] at ht
    rw [hdis]
    exact discoverFrom_isAnnounced (fun _ => .inr rfl) ht
  · have hbegin : s.beginBrowsing error ref = (error, if error ≠ kDNSServiceErr_NoError then
        Service.endBrowsing { s with instanceMap := ∅, in_ := ref }
      else { s with instanceMap := ∅, in_ := ref }) := if_neg hin
    rw [hbegin] at ht
    by_cases he : error = kDNSServiceErr_NoError
    · have hdis : s.discovers error ref fd =
          Service.browses { s with instanceMap := ∅, in_ := ref } fd := by
        simp [Service.discovers, Service.browses, hin, he]
      rw [if_neg (not_not.mpr he)] at ht
      rw [hdis]
      exact discoverFrom_isAnnounced (fun _ => .inl he) ht
    · -- there is no ref, so nothing is browsed
      rw [if_pos he] at ht
      have hnone := endBrowsing_in { s with instanceMap := ∅, in_ := ref }
      have hann := discoverFrom_isAnnounced (fun hin => by rw [hnone] at hin; cases hin) ht
      rw [endBrowsing_isAnnounced] at hann
      simp only [Service.browses, hnone, Bool.false_and, Bool.false_eq_true, false_imp_iff,
        and_true] at hann
      have hdis : s.discovers error ref fd = false := by simp [Service.discovers, hin, he]
      simp only [hdis, Bool.false_eq_true, false_imp_iff, and_true]
      exact hann

/-- **Browsing disturbs announcing exactly when a ref fails.** A `browse` or `discover` that returns
leaves `isAnnounced()` as it was if and only if the object was not announced, or the loop was not
entered, or no pass over the browse ref and over the resolve refs of its replies fails. -/
theorem isAnnounced_browse_iff (s : Service) (fd : Int) (iters : List (Iter BrowseReply)) :
    (∀ (s' : Service) (r : Result), s.browse fd iters = some (r, s') →
      (s'.isAnnounced = s.isAnnounced ↔
        s.isAnnounced = false ∨ s.browses fd = false ∨ ¬ RefFails iters)) ∧
    ∀ (s' : Service) (error : Int) (ref : Bool) (names : List Str),
      s.discover error ref fd iters = some (names, s') →
      (s'.isAnnounced = s.isAnnounced ↔
        s.isAnnounced = false ∨ s.discovers error ref fd = false ∨ ¬ RefFails iters) := by
  have hiff : ∀ (a a' e : Bool) (F : Prop), (a' = true ↔ a = true ∧ (e = true → ¬ F)) →
      (a' = a ↔ a = false ∨ e = false ∨ ¬ F) := by
    intro a a' e F h
    cases a <;> cases a' <;> cases e <;> simp_all
  exact ⟨fun s' r h => hiff _ _ _ _ (browse_isAnnounced h),
    fun s' error ref names h => hiff _ _ _ _ (discover_isAnnounced h)⟩

/-- An instance is added, its resolve times out, and nothing fails. -/
theorem isAnnounced_browse_iff_timeout :
    ∃ r s', Service.browse { name := "_t._tcp".toList, out := true, in_ := true } 3
        [.ready true [⟨0, true, "x".toList, 0, true, 4, [.timeout]⟩] 0, .timeout] = some (r, s') ∧
      s'.isAnnounced = true := by
  obtain ⟨⟨r, s'⟩, h⟩ : ∃ p, Service.browse { name := "_t._tcp".toList, out := true, in_ := true } 3
      [.ready true [⟨0, true, "x".toList, 0, true, 4, [.timeout]⟩] 0, .timeout] = some p :=
    Option.isSome_iff_exists.mp (by decide)
  exact ⟨r, s', h, ((isAnnounced_browse_iff _ 3 _).1 s' r h).mpr (.inr (.inr (by decide)))⟩

/-- `select` fails while an announced object browses, and the announcement is withdrawn. -/
theorem not_isAnnounced_browse :
    ¬ ∀ (s s' : Service) (fd : Int) (iters : List (Iter BrowseReply)) (r : Result),
      s.browse fd iters = some (r, s') → s'.isAnnounced = s.isAnnounced := by
  intro h
  exact absurd (h { name := "_t._tcp".toList, out := true, in_ := true }
    { name := "_t._tcp".toList, in_ := true } 3 [.error 9] 9 (by decide)) (by decide)

end Servus.Dnssd
