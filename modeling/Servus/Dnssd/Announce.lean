import Servus.Dnssd.Loop

/-!
# Announcing with dnssd

Only `announce` sets `_out`. The loop may clear it, in a register callback or at an error of the
ref that it is run on, so the invariants here are those that survive `withdraw` and do not look
at `_result` or at what was discovered (`handleEvents_invariant`).
-/

namespace Servus.Dnssd

open Cpp

def Op.isAnnounce : Op → Bool
  | .announce .. => true
  | _ => false

def Op.isBrowsing : Op → Bool
  | .beginBrowsing .. | .browse .. | .endBrowsing => true
  | _ => false

/-! ## What the event loop keeps -/

section Invariant

variable {κ : Type} {I : Service → Prop} {reply : Service → κ → Option Service}

/-- An invariant over `_out`, the data and what was handed over. -/
structure OverOut (I : Service → Prop) : Prop where
  withdraw : ∀ s, I s → I s.withdraw
  same : ∀ s s' : Service, s'.out = s.out → s'.data = s.data → s'.handed = s.handed → I s → I s'

variable (hI : OverOut I) (hreply : ∀ s k s', I s → reply s k = some s' → I s')

include hI hreply

theorem handleIter_invariant {it : Iter κ} {s s' : Service} (hs : I s)
    (h : s.handleIter reply it = some s') : I s' := by
  cases it with
  | timeout =>
    cases h
    exact hI.same s _ rfl rfl rfl hs
  | error errno =>
    cases h
    split
    · exact hI.same s.withdraw _ rfl rfl rfl (hI.withdraw s hs)
    · exact hs
  | ready isSet replies error =>
    cases isSet with
    | false =>
      cases h
      exact hs
    | true =>
      obtain ⟨t, ht, h⟩ := Option.bind_eq_some_iff.mp h
      rw [foldlM_eq_run] at ht
      have htI : I t := run_invariant ht (fun u k v _ => hreply u k v) hs
      cases h
      split
      · exact hI.same t.withdraw _ rfl rfl rfl (hI.withdraw t htI)
      · exact htI

theorem handleLoop_invariant {iters : List (Iter κ)} {s s' : Service} (hs : I s)
    (h : Service.handleLoop reply iters s = some s') : I s' := by
  induction iters generalizing s with
  | nil =>
    unfold Service.handleLoop at h
    split at h
    · cases h
    · cases h
      exact hs
  | cons it iters ih =>
    unfold Service.handleLoop at h
    split at h
    · obtain ⟨t, ht, h⟩ := Option.bind_eq_some_iff.mp h
      exact ih (handleIter_invariant hI hreply hs ht) h
    · cases h
      exact hs

theorem handleEvents_invariant {service : Bool} {fd : Int} {iters : List (Iter κ)}
    {s s' : Service} {r : Result} (hs : I s)
    (h : s.handleEvents reply service fd iters = some (r, s')) : I s' := by
  rcases handleEvents_cases h with ⟨-, -, rfl⟩ | ⟨-, -, -, rfl⟩ | ⟨-, -, t, ht, -, rfl⟩
  · exact hs
  · exact hs
  · exact hI.same t _ rfl rfl rfl (handleLoop_invariant hI hreply hs ht)

end Invariant

section Callbacks

variable {I : Service → Prop} (hI : OverOut I)

include hI

theorem registerCB_invariant (s : Service) (error : Int) (s' : Service) (hs : I s)
    (h : s.registerCB error = some s') : I s' := by
  cases h
  split
  · exact hI.same s.withdraw _ rfl rfl rfl (hI.withdraw s hs)
  · exact hI.same s _ rfl rfl rfl hs

theorem resolveCBS_invariant (s : Service) (r : ResolveReply) (s' : Service) (hs : I s)
    (h : s.resolveCBS r = some s') : I s' := by
  cases h
  split <;> exact hI.same s _ rfl rfl rfl hs

theorem browseCB_invariant (s : Service) (b : BrowseReply) (s' : Service) (hs : I s)
    (h : s.browseCB b = some s') : I s' := by
  have hname : I { s with browsedName := b.name } := hI.same s _ rfl rfl rfl hs
  rcases browseCB_cases h with ⟨-, rfl⟩ | ⟨-, -, rfl⟩ | ⟨-, -, -, rfl⟩ | ⟨-, -, -, r, h⟩
  · exact hs
  · exact hI.same s _ rfl rfl rfl hs
  · exact hname
  · exact handleEvents_invariant hI (resolveCBS_invariant hI) hname h

/-- The browsing calls keep such an invariant. -/
theorem browsing_invariant {s s' : Service} {op : Op} (hs : I s) (hop : op.isBrowsing = true)
    (h : step s op = some s') : I s' := by
  have hend : ∀ s : Service, I s → I s.endBrowsing := by
    intro s hs
    unfold Service.endBrowsing
    split
    · exact hI.same s _ rfl rfl rfl hs
    · exact hs
  cases op with
  | announce | withdraw | set => cases hop
  | beginBrowsing error ref =>
    cases h
    have hbegin : I { s with instanceMap := ∅, in_ := ref } := hI.same s _ rfl rfl rfl hs
    unfold Service.beginBrowsing
    split
    · exact hs
    · dsimp only
      split
      · exact hend _ hbegin
      · exact hbegin
  | browse fd iters =>
    obtain ⟨⟨r, t⟩, ht, rfl⟩ := Option.map_eq_some_iff.mp h
    exact handleEvents_invariant hI (browseCB_invariant hI) hs ht
  | endBrowsing =>
    cases h
    exact hend s hs

end Callbacks

/-! ## Withdrawn -/

theorem overOut_withdrawn : OverOut fun s => s.out = false :=
  ⟨fun s _ => withdraw_out s, fun _ _ ho _ _ hs => ho.trans hs⟩

/-- Nothing but `announce` sets `_out`. -/
theorem out_step {s s' : Service} {op : Op} (hs : s.out = false) (hop : op.isAnnounce = false)
    (h : step s op = some s') : s'.out = false := by
  cases op with
  | announce => cases hop
  | withdraw =>
    cases h
    exact withdraw_out s
  | set key value =>
    cases h
    simp [Service.set, Service.updateRecord, hs]
  | beginBrowsing | browse | endBrowsing => exact browsing_invariant overOut_withdrawn hs rfl h

/-! ## Announced -/

/-- What is announced is the present data. -/
def Current (s : Service) : Prop := s.out = true → s.handed = some (createTXTRecord s.data)

theorem overOut_current : OverOut Current := by
  refine ⟨fun s hs ho => ?_, fun s s' ho hd hh hs ho' => ?_⟩
  · rw [withdraw_out] at ho
    cases ho
  · rw [hh, hd]
    exact hs (ho ▸ ho')

theorem current_step {s s' : Service} {op : Op} (hs : Current s) (h : step s op = some s') :
    Current s' := by
  cases op with
  | announce port instanceName reg iters =>
    obtain ⟨⟨r, t⟩, ht, rfl⟩ := Option.map_eq_some_iff.mp h
    have hreg : Current (s.register port instanceName reg) := fun _ => rfl
    unfold Service.announce at ht
    split at ht
    · cases ht
      exact hs
    · dsimp only at ht
      split at ht
      · exact handleEvents_invariant overOut_current (registerCB_invariant overOut_current) hreg ht
      · cases ht
        exact hreg
  | withdraw =>
    cases h
    exact overOut_current.withdraw s hs
  | set key value =>
    cases h
    unfold Service.set Service.updateRecord
    split
    · exact fun _ => rfl
    · rename_i hout
      exact fun ho => absurd ho hout
  | beginBrowsing | browse | endBrowsing => exact browsing_invariant overOut_current hs rfl h

end Servus.Dnssd
