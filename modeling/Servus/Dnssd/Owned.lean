import Servus.Dnssd.Refs

/-!
# Who has the refs of dns_sd

`_handleEvents` is run on a copy of a ref, and its own callbacks may deallocate `_out`.

* `handleLoop_keeps`: an invariant of the loop, which may use the ref as long as `_result` is
  `PENDING`.
* `Browses`: the loops of `browse`, the nested ones included, leave `_in` alone, and a resolve has
  its ref for itself.
* `Announces`: whatever withdraws in the loop of `announce` ends the loop.
* `refs_owned`: in every run no ref is used behind its deallocation or deallocated twice, and at any
  time none is out but `_out` and `_in`; behind the destructor none is.
-/

namespace Servus.Dnssd

open Cpp

/-- Errors and replies of which the predicates hold. -/
def Iter.Codes {κ : Type} (code : Int → Prop) (reply : κ → Prop) : Iter κ → Prop
  | .timeout => True
  | .error errno => code errno
  | .ready _ replies err => code err ∧ ∀ k ∈ replies, reply k

namespace Owner

/-! ## What is held -/

/-- `_out` and `_in`, where they are set. -/
def held (s : Owner) : List Nat :=
  (if s.out then [s.outRef] else []) ++ if s.in_ then [s.inRef] else []

/-- The refs that are out are those of the object and `more`. -/
def Holds (more : List Nat) (s : Owner) : Prop := s.handles.Owned (more ++ s.held)

variable {more : List Nat} {s s' : Owner}

theorem holds_use (hs : s.Holds more) {ref : Nat} (href : ref ∈ more ++ s.held) :
    (s.use ref).Holds more := Handles.Owned.use hs href

theorem holds_withdraw (hs : s.Holds more) : s.withdraw.Holds more := by
  unfold withdraw
  split
  · rename_i hout
    rw [Holds, held, if_pos hout] at hs
    exact (hs.perm List.perm_middle).release
  · exact hs

theorem holds_endBrowsing (hs : s.Holds more) : s.endBrowsing.Holds more := by
  unfold endBrowsing
  split
  · rename_i hin
    rw [Holds, held, if_pos hin, ← List.append_assoc] at hs
    have hreleased := (hs.perm List.perm_middle).release
    rw [List.append_assoc] at hreleased
    exact hreleased
  · exact hs

/-! ## The loop -/

theorem handleEvents_cases {κ : Type} {reply : Owner → κ → Option Owner} {service : Nat}
    {isSet : Bool} {fd : Int} {iters : List (Iter κ)} {r : Result}
    (h : s.handleEvents reply service isSet fd iters = some (r, s')) :
    (isSet = false ∧ s' = s) ∨ (isSet = true ∧ s' = s.use service) ∨
      (isSet = true ∧ ∃ t, handleLoop reply service iters (s.use service) = some t ∧
        s' = { t with result := Result.PENDING }) := by
  unfold handleEvents at h
  split at h
  · rename_i hset
    cases h
    exact .inl ⟨hset, rfl⟩
  · rename_i hset
    have hset : isSet = true := by simpa using hset
    dsimp only at h
    split at h
    · cases h
      exact .inr (.inl ⟨hset, rfl⟩)
    · obtain ⟨t, ht, h⟩ := Option.map_eq_some_iff.mp h
      cases h
      exact .inr (.inr ⟨hset, t, ht, rfl⟩)

section Loop

variable {κ : Type} {reply : Owner → κ → Option Owner} {service : Nat} {I : Owner → Prop}
  {code : Int → Prop} {replyOk : κ → Prop}
  (huse : ∀ s, I s → s.result = Result.PENDING → I (s.use service))
  (htimeout : ∀ s, I s → I { s with result := kDNSServiceErr_NoError })
  (hfail : ∀ s r, I s → code r → I { s.withdraw with result := r })
  (hreply : ∀ s k s', I s → replyOk k → reply s k = some s' → I s')

include huse htimeout hfail hreply

theorem handleIter_keeps {it : Iter κ} (hs : I s) (hpending : s.result = Result.PENDING)
    (hit : it.Codes code replyOk) (h : s.handleIter reply service it = some s') : I s' := by
  cases it with
  | timeout =>
    cases h
    exact htimeout s hs
  | error errno =>
    cases h
    split
    · exact hfail s errno hs hit
    · exact hs
  | ready isSet replies error =>
    cases isSet with
    | false =>
      cases h
      exact hs
    | true =>
      obtain ⟨hcode, hreplies⟩ := hit
      obtain ⟨t, ht, h⟩ := Option.bind_eq_some_iff.mp h
      rw [foldlM_eq_run] at ht
      have htI : I t := run_invariant ht
        (fun u k v hk hu hv => hreply u k v hu (hreplies k hk) hv) (huse s hs hpending)
      cases h
      split
      · exact hfail t error htI hcode
      · exact htI

theorem handleLoop_keeps {iters : List (Iter κ)} (hs : I s)
    (hiters : ∀ it ∈ iters, it.Codes code replyOk)
    (h : handleLoop reply service iters s = some s') : I s' := by
  induction iters generalizing s with
  | nil =>
    unfold handleLoop at h
    split at h
    · cases h
    · cases h
      exact hs
  | cons it iters ih =>
    unfold handleLoop at h
    split at h
    · rename_i hpending
      obtain ⟨t, ht, h⟩ := Option.bind_eq_some_iff.mp h
      obtain ⟨hit, hiters⟩ := List.forall_mem_cons.mp hiters
      exact ih (handleIter_keeps huse htimeout hfail hreply (huse s hs hpending) hpending hit ht)
        hiters h
    · cases h
      exact hs

end Loop

/-! ## Browsing -/

/-- The object browses with the ref `i`. The loops may withdraw, but they leave `_in` alone. -/
structure Browses (more : List Nat) (i : Nat) (s : Owner) : Prop where
  holds : s.Holds more
  in_ : s.in_ = true
  inRef : s.inRef = i

variable {i : Nat}

theorem Browses.mem_held (hs : Browses more i s) : i ∈ more ++ s.held := by
  rw [held, hs.in_, hs.inRef]
  simp

theorem browses_withdraw (hs : Browses more i s) : Browses more i s.withdraw := by
  have hsame : s.withdraw.in_ = s.in_ ∧ s.withdraw.inRef = s.inRef := by
    unfold withdraw
    split <;> exact ⟨rfl, rfl⟩
  exact ⟨holds_withdraw hs.holds, hsame.1.trans hs.in_, hsame.2.trans hs.inRef⟩

theorem browses_loop {κ : Type} {reply : Owner → κ → Option Owner} {service : Nat}
    {iters : List (Iter κ)} (hservice : service = i ∨ service ∈ more)
    (hreply : ∀ s k s', Browses more i s → reply s k = some s' → Browses more i s')
    (hs : Browses more i s) (h : handleLoop reply service iters s = some s') :
    Browses more i s' := by
  have hiters : ∀ it ∈ iters, it.Codes (fun _ => True) (fun _ => True) := by
    intro it _
    cases it with
    | timeout | error => trivial
    | ready => exact ⟨trivial, fun _ _ => trivial⟩
  refine handleLoop_keeps (fun s hs _ => ?_) (fun s hs => ⟨hs.holds, hs.in_, hs.inRef⟩)
    (fun s r hs _ => ?_) (fun s k s' hs _ => hreply s k s' hs) hs hiters h
  · refine ⟨holds_use hs.holds ?_, hs.in_, hs.inRef⟩
    rcases hservice with rfl | hmem
    · exact hs.mem_held
    · exact List.mem_append_left _ hmem
  · have hw := browses_withdraw hs
    exact ⟨hw.holds, hw.in_, hw.inRef⟩

theorem resolveCBS_keeps (hs : Browses more i s) {r : ResolveReply}
    (h : s.resolveCBS r = some s') : Browses more i s' := by
  obtain ⟨t, ht, rfl⟩ := Option.map_eq_some_iff.mp h
  have hsame : t.out = s.out ∧ t.in_ = s.in_ := by
    cases ht
    split <;> exact ⟨rfl, rfl⟩
  refine ⟨?_, hsame.2.trans hs.in_, hs.inRef⟩
  have hheld : ({ s with toService := t } : Owner).held = s.held := by
    rw [held, held, hsame.1, hsame.2]
  rw [Holds, hheld]
  exact hs.holds

/-- The ref of a resolve is out while its loop runs, and deallocated behind it. -/
theorem browseCB_keeps (hs : Browses [] i s) {b : BrowseReply} (h : s.browseCB b = some s') :
    Browses [] i s' := by
  unfold browseCB at h
  split at h
  · cases h
    exact hs
  · split at h
    · dsimp only at h
      split at h
      · obtain ⟨⟨r, t⟩, ht, rfl⟩ := Option.map_eq_some_iff.mp h
        have hnested : Browses [s.handles.next] i
            { s with browsedName := b.name, handles := s.handles.acquire } :=
          ⟨hs.holds.acquire, hs.in_, hs.inRef⟩
        have hnext : s.handles.next ∈ [s.handles.next] ++ s.held := List.mem_cons_self
        have hused := holds_use hnested.holds hnext
        have hend : Browses [s.handles.next] i t := by
          rcases handleEvents_cases ht with ⟨hset, -⟩ | ⟨-, rfl⟩ | ⟨-, u, hu, rfl⟩
          · cases hset
          · exact ⟨hused, hs.in_, hs.inRef⟩
          · have hkept := browses_loop (.inr List.mem_cons_self)
              (fun s k s' hs h => resolveCBS_keeps hs h) ⟨hused, hs.in_, hs.inRef⟩ hu
            exact ⟨hkept.holds, hkept.in_, hkept.inRef⟩
        exact ⟨hend.holds.release, hend.in_, hend.inRef⟩
      · cases h
        exact ⟨hs.holds, hs.in_, hs.inRef⟩
    · cases h
      exact ⟨hs.holds, hs.in_, hs.inRef⟩

theorem browse_holds (hs : s.Holds []) {fd : Int} {iters : List (Iter BrowseReply)} {r : Result}
    (h : s.browse fd iters = some (r, s')) : s'.Holds [] := by
  have hbrowses : s.in_ = true → Browses [] s.inRef (s.use s.inRef) := fun hin =>
    have hb : Browses [] s.inRef s := ⟨hs, hin, rfl⟩
    ⟨holds_use hs hb.mem_held, hin, rfl⟩
  rcases handleEvents_cases h with ⟨-, rfl⟩ | ⟨hin, rfl⟩ | ⟨hin, t, ht, rfl⟩
  · exact hs
  · exact (hbrowses hin).holds
  · exact (browses_loop (.inl rfl) (fun s k s' hs h => browseCB_keeps hs h) (hbrowses hin) ht).holds

theorem beginBrowsing_holds (hs : s.Holds []) (error : Int) (ref : Bool) :
    (s.beginBrowsing error ref).2.Holds [] := by
  unfold beginBrowsing
  split
  · exact hs
  · rename_i hin
    have hbegun : Holds [] { s with
        instanceMap := ∅
        in_ := ref
        inRef := if ref then s.handles.next else s.inRef
        handles := if ref then s.handles.acquire else s.handles } := by
      rw [Holds, held, if_neg hin] at hs
      cases ref with
      | true =>
        rw [List.append_nil] at hs
        exact hs.acquire.perm (List.perm_append_singleton _ _).symm
      | false => exact hs
    dsimp only
    split
    · exact holds_endBrowsing hbegun
    · exact hbegun

/-! ## Announcing -/

/-- While the loop of `announce` goes on, its ref is that of the object. -/
structure Announces (service : Nat) (s : Owner) : Prop where
  holds : s.Holds []
  out : s.result = Result.PENDING → s.out = true ∧ s.outRef = service

/-- A code other than `PENDING` ends the loop, in which there may be no ref any more. -/
theorem announces_of_ne {service : Nat} (hs : s.Holds []) {r : Result} (hr : r ≠ Result.PENDING) :
    Announces service { s with result := r } := ⟨hs, fun h => absurd h hr⟩

theorem announces_loop {service : Nat} {iters : List (Iter Int)} (hs : Announces service s)
    (hiters : ∀ it ∈ iters, it.Codes (· ≠ Result.PENDING) (· ≠ Result.PENDING))
    (h : handleLoop registerCB service iters s = some s') : s'.Holds [] := by
  refine (handleLoop_keeps (fun s hs hpending => ?_) (fun s hs => ?_) (fun s r hs hr => ?_)
    (fun s k s' hs hk h => ?_) hs hiters h).holds
  · obtain ⟨hout, rfl⟩ := hs.out hpending
    exact ⟨holds_use hs.holds (by simp [held, hout]), hs.out⟩
  · exact announces_of_ne hs.holds (by decide)
  · exact announces_of_ne (holds_withdraw hs.holds) hr
  · cases h
    split
    · exact announces_of_ne (holds_withdraw hs.holds) hk
    · exact announces_of_ne hs.holds hk

theorem register_holds (hs : s.Holds []) (hout : ¬ s.out = true) (port : UInt16)
    (instanceName : Str) (reg : Register) : (s.register port instanceName reg).Holds [] := by
  rw [Holds, held, if_neg hout] at hs
  unfold Holds held register
  cases href : reg.ref with
  | true =>
    have hset : (s.toService.register port instanceName reg).out = true := href
    rw [if_pos hset]
    exact hs.acquire
  | false =>
    have hset : ¬ (s.toService.register port instanceName reg).out = true := by
      rw [show (s.toService.register port instanceName reg).out = reg.ref from rfl, href]
      decide
    rw [if_neg hset]
    exact hs

theorem announce_holds (hs : s.Holds []) {port : UInt16} {instanceName : Str} {reg : Register}
    {iters : List (Iter Int)} {r : Result}
    (hiters : ∀ it ∈ iters, it.Codes (· ≠ Result.PENDING) (· ≠ Result.PENDING))
    (h : s.announce port instanceName reg iters = some (r, s')) : s'.Holds [] := by
  unfold announce at h
  split at h
  · cases h
    exact hs
  · rename_i hout
    have hreg := register_holds hs hout port instanceName reg
    dsimp only at h
    split at h
    · generalize s.register port instanceName reg = u at hreg h
      have hused : u.out = true → Announces u.outRef (u.use u.outRef) := fun hset =>
        ⟨holds_use hreg (by simp [held, hset]), fun _ => ⟨hset, rfl⟩⟩
      rcases handleEvents_cases h with ⟨-, rfl⟩ | ⟨hset, rfl⟩ | ⟨hset, t, ht, rfl⟩
      · exact hreg
      · exact (hused hset).holds
      · have hkept := announces_loop (hused hset) hiters ht
        exact hkept
    · cases h
      exact hreg

/-! ## Runs -/

/-- The codes of the library and of the system in an `announce` are not `PENDING`. -/
def CodesOk : Call → Prop
  | .op (.announce _ _ _ iters) =>
    ∀ it ∈ iters, it.Codes (· ≠ Result.PENDING) (· ≠ Result.PENDING)
  | _ => True

theorem holds_call (hs : s.Holds []) {c : Call} (hc : CodesOk c) (h : s.call c = some s') :
    s'.Holds [] := by
  cases c with
  | op op =>
    cases op with
    | announce port instanceName reg iters =>
      obtain ⟨⟨r, t⟩, ht, rfl⟩ := Option.map_eq_some_iff.mp h
      exact announce_holds hs hc ht
    | withdraw =>
      cases h
      exact holds_withdraw hs
    | set key value =>
      cases h
      unfold set updateRecord
      split
      · rename_i hout
        exact holds_use hs (by simp [held, show s.out = true from hout])
      · exact hs
    | beginBrowsing error ref =>
      cases h
      exact beginBrowsing_holds hs error ref
    | browse fd iters =>
      obtain ⟨⟨r, t⟩, ht, rfl⟩ := Option.map_eq_some_iff.mp h
      exact browse_holds hs ht
    | endBrowsing =>
      cases h
      exact holds_endBrowsing hs
  | discover error ref fd iters =>
    have hbegun := beginBrowsing_holds hs error ref
    have h : (s.beginBrowsing error ref).2.discoverFrom (s.beginBrowsing error ref).1 fd iters =
      some s' := h
    unfold discoverFrom at h
    split at h
    · obtain ⟨⟨r, t⟩, ht, rfl⟩ := Option.map_eq_some_iff.mp h
      dsimp only
      split
      · exact holds_endBrowsing (browse_holds hbegun ht)
      · exact browse_holds hbegun ht
    · cases h
      exact hbegun
  | addListener listener | removeListener listener =>
    cases h
    exact hs

theorem held_destroy (s : Owner) : s.destroy.held = [] := by
  have hout : s.destroy.out = false := by
    rw [show s.destroy.out = s.destroy.toService.out from rfl, destroy, endBrowsing_toService,
      withdraw_toService, Service.endBrowsing]
    split <;> exact withdraw_out _
  have hin : s.destroy.in_ = false := by
    rw [show s.destroy.in_ = s.destroy.toService.in_ from rfl, destroy, endBrowsing_toService]
    exact endBrowsing_in _
  rw [held, hout, hin]
  rfl

/-- **Refs are used well.** In every run, whatever the loops, nested ones included, poll and
whatever fails: no ref of dns_sd is used behind its deallocation, and none is deallocated twice; the
refs that are out are `_out` and `_in`, where they are set; and behind the destructor none is. The
codes that the library and the system give in an `announce` must not be `PENDING`: with it the loop
would go on with the ref that a callback deallocated. -/
theorem refs_owned (name : Str) {calls : List Call} (hcodes : ∀ c ∈ calls, CodesOk c) {t : Service}
    (h : run Dnssd.call { name := name } calls = some t) :
    ∃ s : Owner, run call { name := name } calls = some s ∧ s.toService = t ∧
      s.handles.misused = false ∧ s.handles.live.Perm s.held ∧
      s.destroy.handles.misused = false ∧ s.destroy.handles.live = [] := by
  have hrun := run_toService calls { name := name }
  rw [h] at hrun
  obtain ⟨s, hs, rfl⟩ := Option.map_eq_some_iff.mp hrun
  have hholds : s.Holds [] := run_invariant (I := fun s => s.Holds []) hs
    (fun u c v hc hu hv => holds_call hu (hcodes c hc) hv) Handles.owned_empty
  have hdestroyed : s.destroy.Holds [] := holds_endBrowsing (holds_withdraw hholds)
  rw [Holds, held_destroy] at hdestroyed
  exact ⟨s, hs, rfl, hholds.misused, hholds.live, hdestroyed.misused, hdestroyed.live.eq_nil⟩

/-- A name conflict withdraws inside the loop of `announce`, and the second announcement is
withdrawn by a `select` that fails inside a resolve. -/
def withdrawnInside : List Call :=
  [.op (.announce 80 "x".toList ⟨0, true, 4⟩ [.ready true [-65548] 0]),
    .op (.announce 80 "y".toList ⟨0, true, 4⟩ [.ready true [0] 0]), .op (.beginBrowsing 0 true),
    .op (.browse 3 [.ready true [⟨0, true, "x".toList, 0, true, 5, [.error 9]⟩] 0, .timeout]),
    .op (.set "k".toList "v".toList)]

theorem refs_owned_withdrawnInside :
    ∃ s : Owner, run call { name := "_t._tcp".toList } withdrawnInside = some s ∧
      s.handles.next = 4 ∧ s.handles.misused = false ∧ s.handles.live.Perm [2] ∧
      s.destroy.handles.live = [] := by
  obtain ⟨t, ht⟩ : ∃ t, run Dnssd.call { name := "_t._tcp".toList } withdrawnInside = some t :=
    Option.isSome_iff_exists.mp (by decide)
  have hcodes : ∀ c ∈ withdrawnInside, CodesOk c := by
    simp [withdrawnInside, CodesOk, Iter.Codes, Result.PENDING]
  obtain ⟨s, hs, -, hused, hlive, -, hnone⟩ := refs_owned _ hcodes ht
  have hheld : ∀ s ∈ run call { name := "_t._tcp".toList } withdrawnInside,
      s.held = [2] ∧ s.handles.next = 4 := by decide
  obtain ⟨hheld, hnext⟩ := hheld s hs
  exact ⟨s, hs, hnext, hused, hheld ▸ hlive, hnone⟩

/-- The code `PENDING` in a register reply. -/
example : (run call { name := "_t._tcp".toList } [.op (.announce 80 "x".toList ⟨0, true, 4⟩
    [.ready true [Result.PENDING] 0, .timeout])]).map (·.handles.misused) = some true := by decide

end Owner

end Servus.Dnssd
