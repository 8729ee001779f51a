import Servus.Cpp.Handle
import Servus.Dnssd.History

/-!
# The refs of dns_sd

`_out`, `_in` and the `service` of each resolve are refs that the library gives out and that are to
be deallocated once. An `Owner` is an object with its refs: the functions of `Dnssd/Model.lean`
again, with what they call on the library about a ref (`Handles.use` for what reads one,
`DNSServiceRefSockFD`, `select` on its socket, `DNSServiceProcessResult` and
`DNSServiceUpdateRecord`). `call_toService` and `run_toService` say that without the refs they are
the same.
-/

namespace Servus.Dnssd

open Cpp

/-- An object and its refs. -/
structure Owner extends Service where
  /-- `_out`, when it is set. -/
  outRef : Nat := 0
  /-- `_in`, when it is set. -/
  inRef : Nat := 0
  handles : Handles := {}

namespace Owner

/-- The library reads `ref`. -/
def use (s : Owner) (ref : Nat) : Owner := { s with handles := s.handles.use ref }

/-- `withdraw`. -/
def withdraw (s : Owner) : Owner :=
  if s.out then { s with out := false, handles := s.handles.release s.outRef } else s

/-- `endBrowsing`. -/
def endBrowsing (s : Owner) : Owner :=
  if s.in_ then { s with in_ := false, handles := s.handles.release s.inRef } else s

section HandleEvents

variable {κ : Type} (reply : Owner → κ → Option Owner) (service : Nat)

/-- The body of the loop of `_handleEvents`, behind `select`. -/
def handleIter (s : Owner) : Iter κ → Option Owner
  | .timeout => some { s with result := kDNSServiceErr_NoError }
  | .error errno => some (if errno ≠ EINTR then { s.withdraw with result := errno } else s)
  | .ready false _ _ => some s
  | .ready true replies error => do
    let s ← replies.foldlM reply (s.use service)
    some (if error ≠ kDNSServiceErr_NoError then { s.withdraw with result := error } else s)

/-- `while (_result == PENDING)`, with the `select` of each pass. -/
def handleLoop : List (Iter κ) → Owner → Option Owner
  | [], s => if s.result = Result.PENDING then none else some s
  | it :: iters, s =>
    if s.result = Result.PENDING then
      ((s.use service).handleIter reply service it).bind (handleLoop iters)
    else some s

/-- `_handleEvents`. -/
def handleEvents (s : Owner) (isSet : Bool) (fd : Int) (iters : List (Iter κ)) :
    Option (Result × Owner) :=
  if isSet = false then some (kDNSServiceErr_Unknown, s)
  else
    let s := s.use service
    if fd < 0 then some (kDNSServiceErr_BadParam, s)
    else (handleLoop reply service iters s).map fun s =>
      (s.result, { s with result := Result.PENDING })

end HandleEvents

/-- `registerCB_`. -/
def registerCB (s : Owner) (error : Int) : Option Owner :=
  some { (if error ≠ kDNSServiceErr_NoError then s.withdraw else s) with result := error }

/-- `resolveCBS_`. -/
def resolveCBS (s : Owner) (r : ResolveReply) : Option Owner :=
  (s.toService.resolveCBS r).map fun t => { s with toService := t }

/-- `browseCB_`. -/
def browseCB (s : Owner) (r : BrowseReply) : Option Owner :=
  if r.error ≠ kDNSServiceErr_NoError then some s
  else if r.add then
    let s := { s with browsedName := r.name }
    if r.service then
      let service := s.handles.next
      let s := { s with handles := s.handles.acquire }
      (s.handleEvents resolveCBS service true r.fd r.iters).map fun (_, s) =>
        { s with handles := s.handles.release service }
    else some s
  else
    let s := { s with instanceMap := s.instanceMap.erase r.name }
    some { s with toImpl := s.toImpl.notify (.instanceRemoved r.name) }

/-- The call of `DNSServiceRegister` in `announce`. -/
def register (s : Owner) (port : UInt16) (instanceName : Str) (reg : Register) : Owner where
  toService := s.toService.register port instanceName reg
  outRef := if reg.ref then s.handles.next else s.outRef
  inRef := s.inRef
  handles := if reg.ref then s.handles.acquire else s.handles

/-- `announce`. -/
def announce (s : Owner) (port : UInt16) (instanceName : Str) (reg : Register)
    (iters : List (Iter Int)) : Option (Result × Owner) :=
  if s.out then some (Result.PENDING, s)
  else
    let s := s.register port instanceName reg
    if reg.error = Result.SUCCESS then s.handleEvents registerCB s.outRef s.out reg.fd iters
    else some (reg.error, s)

/-- `beginBrowsing` and `_browse`. -/
def beginBrowsing (s : Owner) (error : Int) (ref : Bool) : Result × Owner :=
  if s.in_ then (Result.PENDING, s)
  else
    let s := { s with
      instanceMap := ∅
      in_ := ref
      inRef := if ref then s.handles.next else s.inRef
      handles := if ref then s.handles.acquire else s.handles }
    (error, if error ≠ kDNSServiceErr_NoError then s.endBrowsing else s)

/-- `browse`. -/
def browse (s : Owner) (fd : Int) (iters : List (Iter BrowseReply)) : Option (Result × Owner) :=
  s.handleEvents browseCB s.inRef s.in_ fd iters

/-- The part of `Impl::discover` behind `beginBrowsing`, whose result is `res`. -/
def discoverFrom (s : Owner) (res : Result) (fd : Int) (iters : List (Iter BrowseReply)) :
    Option Owner :=
  if res = Result.SUCCESS ∨ res = Result.PENDING then
    (s.browse fd iters).map fun (_, s) => if res = Result.SUCCESS then s.endBrowsing else s
  else some s

/-- `_updateRecord`. -/
def updateRecord (s : Owner) : Owner :=
  if s.out then { s.use s.outRef with handed := some (createTXTRecord s.data) } else s

/-- `Impl::set`. -/
def set (s : Owner) (key value : Str) : Owner :=
  { s with toImpl := s.toImpl.setData key value }.updateRecord

/-- `~Servus`. -/
def destroy (s : Owner) : Owner := s.withdraw.endBrowsing

/-- The object after a call. -/
def call (s : Owner) : Call → Option Owner
  | .op (.announce port instanceName reg iters) =>
    (s.announce port instanceName reg iters).map (·.2)
  | .op .withdraw => some s.withdraw
  | .op (.set key value) => some (s.set key value)
  | .op (.beginBrowsing error ref) => some (s.beginBrowsing error ref).2
  | .op (.browse fd iters) => (s.browse fd iters).map (·.2)
  | .op .endBrowsing => some s.endBrowsing
  | .discover error ref fd iters =>
    let begun := s.beginBrowsing error ref
    begun.2.discoverFrom begun.1 fd iters
  | .addListener listener => some { s with toImpl := s.toImpl.addListener listener }
  | .removeListener listener => some { s with toImpl := s.toImpl.removeListener listener }

/-! ## Without the refs -/

@[simp] theorem use_toService (s : Owner) (ref : Nat) : (s.use ref).toService = s.toService := rfl

theorem withdraw_toService (s : Owner) : s.withdraw.toService = s.toService.withdraw := by
  unfold withdraw Service.withdraw
  split <;> rfl

theorem endBrowsing_toService (s : Owner) : s.endBrowsing.toService = s.toService.endBrowsing := by
  unfold endBrowsing Service.endBrowsing
  split <;> rfl

section HandleEvents

variable {κ : Type} {reply : Owner → κ → Option Owner} {reply' : Service → κ → Option Service}
  (hreply : ∀ s k, (reply s k).map toService = reply' s.toService k) (service : Nat)

include hreply

theorem foldlM_toService (replies : List κ) (s : Owner) :
    (replies.foldlM reply s).map toService = replies.foldlM reply' s.toService := by
  induction replies generalizing s with
  | nil => rfl
  | cons k replies ih =>
    rw [List.foldlM_cons, List.foldlM_cons, ← hreply]
    cases h : reply s k with
    | none => rfl
    | some t => exact ih t

theorem handleIter_toService (s : Owner) (it : Iter κ) :
    (s.handleIter reply service it).map toService = s.toService.handleIter reply' it := by
  cases it with
  | timeout => rfl
  | error errno =>
    by_cases he : errno = EINTR
    · simp [handleIter, Service.handleIter, he]
    · simp [handleIter, Service.handleIter, he, ← withdraw_toService]
  | ready isSet replies error =>
    cases isSet with
    | false => rfl
    | true =>
      have hfold := foldlM_toService hreply replies (s.use service)
      rw [use_toService] at hfold
      rw [handleIter, Service.handleIter, ← hfold]
      cases h : replies.foldlM reply (s.use service) with
      | none => rfl
      | some t =>
        by_cases he : error = kDNSServiceErr_NoError
        · simp [he]
        · simp [he, ← withdraw_toService]

theorem handleLoop_toService (iters : List (Iter κ)) (s : Owner) :
    (handleLoop reply service iters s).map toService =
      Service.handleLoop reply' iters s.toService := by
  induction iters generalizing s with
  | nil =>
    unfold handleLoop Service.handleLoop
    split <;> rfl
  | cons it iters ih =>
    unfold handleLoop Service.handleLoop
    split
    · have hiter := handleIter_toService hreply service (s.use service) it
      rw [use_toService] at hiter
      rw [← hiter]
      cases h : (s.use service).handleIter reply service it with
      | none => rfl
      | some t => exact ih t
    · rfl

theorem handleEvents_toService (isSet : Bool) (fd : Int) (iters : List (Iter κ)) (s : Owner) :
    (s.handleEvents reply service isSet fd iters).map (fun r => (r.1, r.2.toService)) =
      s.toService.handleEvents reply' isSet fd iters := by
  unfold handleEvents Service.handleEvents
  split
  · rfl
  · dsimp only
    split
    · rfl
    · rw [← use_toService s service, ← handleLoop_toService hreply service iters, Option.map_map,
        Option.map_map]
      rfl

end HandleEvents

theorem registerCB_toService (s : Owner) (error : Int) :
    (s.registerCB error).map toService = s.toService.registerCB error := by
  unfold registerCB Service.registerCB
  rw [← withdraw_toService]
  split <;> rfl

theorem resolveCBS_toService (s : Owner) (r : ResolveReply) :
    (s.resolveCBS r).map toService = s.toService.resolveCBS r := by
  unfold resolveCBS
  cases s.toService.resolveCBS r <;> rfl

theorem browseCB_toService (s : Owner) (r : BrowseReply) :
    (s.browseCB r).map toService = s.toService.browseCB r := by
  unfold browseCB Service.browseCB
  split
  · rfl
  · split
    · dsimp only
      split
      · rename_i hservice
        have hnested := handleEvents_toService resolveCBS_toService s.handles.next true r.fd r.iters
          { s with browsedName := r.name, handles := s.handles.acquire }
        rw [hservice]
        refine Eq.trans ?_ (congrArg (Option.map (·.2)) hnested)
        rw [Option.map_map, Option.map_map]
        rfl
      · rfl
    · rfl

theorem announce_toService (s : Owner) (port : UInt16) (instanceName : Str) (reg : Register)
    (iters : List (Iter Int)) :
    (s.announce port instanceName reg iters).map (fun r => (r.1, r.2.toService)) =
      s.toService.announce port instanceName reg iters := by
  unfold announce Service.announce
  split
  · rfl
  · dsimp only
    split
    · exact handleEvents_toService registerCB_toService _ _ _ _ _
    · rfl

theorem beginBrowsing_toService (s : Owner) (error : Int) (ref : Bool) :
    (s.beginBrowsing error ref).1 = (s.toService.beginBrowsing error ref).1 ∧
      (s.beginBrowsing error ref).2.toService = (s.toService.beginBrowsing error ref).2 := by
  unfold beginBrowsing Service.beginBrowsing
  split
  · exact ⟨rfl, rfl⟩
  · refine ⟨rfl, ?_⟩
    dsimp only
    split
    · exact endBrowsing_toService _
    · rfl

theorem browse_toService (s : Owner) (fd : Int) (iters : List (Iter BrowseReply)) :
    (s.browse fd iters).map (fun r => (r.1, r.2.toService)) = s.toService.browse fd iters :=
  handleEvents_toService browseCB_toService s.inRef s.in_ fd iters s

theorem discoverFrom_toService (s : Owner) (res : Result) (fd : Int)
    (iters : List (Iter BrowseReply)) :
    (s.discoverFrom res fd iters).map toService = s.toService.discoverFrom res fd iters := by
  unfold discoverFrom Service.discoverFrom
  split
  · rw [← browse_toService, Option.map_map, Option.map_map]
    refine congrArg (Option.map · _) (funext fun r => ?_)
    dsimp only [Function.comp]
    split
    · exact endBrowsing_toService r.2
    · rfl
  · rfl

/-- Without its refs, an owner does what the object does. -/
theorem call_toService (s : Owner) (c : Call) :
    (s.call c).map toService = Dnssd.call s.toService c := by
  cases c with
  | op op =>
    cases op with
    | announce port instanceName reg iters =>
      rw [call, Dnssd.call, step, ← announce_toService, Option.map_map, Option.map_map]
      rfl
    | withdraw => exact congrArg some (withdraw_toService s)
    | set key value =>
      unfold call set updateRecord Dnssd.call step Service.set Service.updateRecord
      dsimp only
      split <;> rfl
    | beginBrowsing error ref => exact congrArg some (beginBrowsing_toService s error ref).2
    | browse fd iters =>
      rw [call, Dnssd.call, step, ← browse_toService, Option.map_map, Option.map_map]
      rfl
    | endBrowsing => exact congrArg some (endBrowsing_toService s)
  | discover error ref fd iters =>
    obtain ⟨hres, hbegun⟩ := beginBrowsing_toService s error ref
    rw [call, Dnssd.call, Service.discover, Option.map_map, ← hres, ← hbegun,
      ← discoverFrom_toService, Option.map_map]
    rfl
  | addListener listener | removeListener listener => rfl

/-- Every run of the object is the run of an owner. -/
theorem run_toService (calls : List Call) (s : Owner) :
    (run call s calls).map toService = run Dnssd.call s.toService calls := by
  induction calls generalizing s with
  | nil => rfl
  | cons c calls ih =>
    rw [run_cons, run_cons, ← call_toService]
    cases h : s.call c with
    | none => rfl
    | some t => exact ih t

end Owner

end Servus.Dnssd
