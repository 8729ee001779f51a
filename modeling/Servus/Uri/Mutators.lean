import Servus.Uri.Sync

/-!
# Equality and the setters of a URI

`URIData::operator==` compares seven of the eight members. `eq_congruent_iff`: two URIs that
compare equal look the same exactly when their schemes agree too.

Each call that changes a URI belongs to one component, and `addQuery` also clears the fragment.
`applyAll_independent`: two adjacent calls on different components can be swapped, and a component
depends on its own calls only, exactly when no `addQuery` clears a fragment that would have stayed.
The calls cannot throw (`applyAll_eq`), so the proofs are about the pure `applied`, and the
fragment is taken apart from the rest of a run (`foldl_applied_fragment`).
-/

namespace Servus.Uri

open Cpp

/-! ## Equality -/

/-- Nothing that can be observed tells `u` and `v` apart. -/
structure SameObservables (u v : URIData) : Prop where
  getScheme : u.getScheme = v.getScheme
  getUserinfo : u.getUserinfo = v.getUserinfo
  getHost : u.getHost = v.getHost
  getPort : u.getPort = v.getPort
  getPath : u.getPath = v.getPath
  getQuery : u.getQuery = v.getQuery
  getFragment : u.getFragment = v.getFragment
  getAuthority : u.getAuthority = v.getAuthority
  findQuery : ∀ key, u.findQuery key = v.findQuery key
  toString : toString u = toString v

/-- The members that `operator==` compares. -/
theorem eq_iff_members {u v : URIData} :
    u.eq v = true ↔ u.userinfo = v.userinfo ∧ u.host = v.host ∧ u.port = v.port ∧
      u.path = v.path ∧ u.query = v.query ∧ u.fragment = v.fragment ∧ u.queryMap = v.queryMap := by
  simp only [URIData.eq, Bool.and_eq_true, beq_iff_eq, decide_eq_true_eq, and_assoc]

/-- URIs that compare equal and have the same scheme are the same. -/
theorem eq_of_eq_of_scheme {u v : URIData} (h : u.eq v = true) (hs : u.scheme = v.scheme) :
    u = v := by
  obtain ⟨h1, h2, h3, h4, h5, h6, h7⟩ := eq_iff_members.mp h
  cases u
  cases v
  simp_all

/-- **Equality is a congruence, up to the scheme.** That `u == v` implies that all getters,
`findQuery` and `std::to_string` agree holds exactly when the schemes agree or a member that
`operator==` compares differs. -/
theorem eq_congruent_iff (u v : URIData) :
    (u.eq v = true → SameObservables u v) ↔
      u.scheme = v.scheme ∨ u.userinfo ≠ v.userinfo ∨ u.host ≠ v.host ∨ u.port ≠ v.port ∨
        u.path ≠ v.path ∨ u.query ≠ v.query ∨ u.fragment ≠ v.fragment ∨
        u.queryMap ≠ v.queryMap := by
  constructor
  · intro h
    by_cases heq : u.eq v = true
    · exact .inl (h heq).getScheme
    · rw [eq_iff_members] at heq
      tauto
  · rintro hcond heq
    have hs : u.scheme = v.scheme := by
      have hmembers := eq_iff_members.mp heq
      tauto
    obtain rfl := eq_of_eq_of_scheme heq hs
    exact ⟨rfl, rfl, rfl, rfl, rfl, rfl, rfl, rfl, fun _ => rfl, rfl⟩

/-- A URI that a constructor and any calls of the setters and `addQuery` can give. -/
def Built (u : URIData) : Prop := ∃ s u₀ ms, URI s = .ok u₀ ∧ u₀.applyAll ms = .ok u

/-- `http://a` and `ftp://a` compare equal. -/
theorem not_eq_congruent :
    ¬ ∀ u v, Built u → Built v → u.eq v = true → SameObservables u v := by
  intro h
  have hobs := h { scheme := "http".toList, host := "a".toList }
    { scheme := "ftp".toList, host := "a".toList }
    ⟨"http://a".toList, _, [], by decide, rfl⟩ ⟨"ftp://a".toList, _, [], by decide, rfl⟩ (by decide)
  exact absurd hobs.getScheme (by decide)

/-! ## The calls -/

inductive Component where
  | scheme
  | userinfo
  | host
  | port
  | path
  | query
  | fragment
  deriving DecidableEq

/-- The component that a call belongs to. -/
def Mutator.component : Mutator → Component
  | .setScheme _ => .scheme
  | .setUserInfo _ => .userinfo
  | .setHost _ => .host
  | .setPort _ => .port
  | .setPath _ => .path
  | .setQuery _ | .addQuery .. => .query
  | .setFragment _ => .fragment

def Mutator.isAddQuery : Mutator → Bool
  | .addQuery .. => true
  | _ => false

/-- `u` after the call, which cannot throw. -/
def URIData.applied (u : URIData) : Mutator → URIData
  | .setScheme scheme => u.setScheme scheme
  | .setUserInfo userinfo => u.setUserInfo userinfo
  | .setHost host => u.setHost host
  | .setPort port => u.setPort port
  | .setPath path => u.setPath path
  | .setQuery query => { u with query, queryMap := queryMapOf query }
  | .setFragment fragment => u.setFragment fragment
  | .addQuery key value => u.addQuery key value

theorem apply_eq (u : URIData) (m : Mutator) : u.apply m = .ok (u.applied m) := by
  cases m with
  | setQuery query => exact setQuery_eq u query
  | _ => rfl

theorem applyAll_eq (u : URIData) (ms : List Mutator) :
    u.applyAll ms = .ok (ms.foldl URIData.applied u) := by
  unfold URIData.applyAll
  induction ms generalizing u with
  | nil => rfl
  | cons m ms ih => rw [List.foldlM_cons, apply_eq, ok_bind, ih, List.foldl_cons]

/-! ## The fragment -/

/-- The fragment after the call. -/
def fragmentAfter (fragment : Str) : Mutator → Str
  | .setFragment f => f
  | .addQuery .. => []
  | _ => fragment

/-- The fragment after the calls, if only `setFragment` changed it. -/
def lastFragment (fragment : Str) (ms : List Mutator) : Str :=
  ms.foldl (fun f m => match m with
    | .setFragment f => f
    | _ => f) fragment

theorem foldl_applied_fragment (u : URIData) (f : Str) (ms : List Mutator) :
    ms.foldl URIData.applied { u with fragment := f } =
      { ms.foldl URIData.applied u with fragment := ms.foldl fragmentAfter f } := by
  induction ms generalizing u f with
  | nil => rfl
  | cons m ms ih =>
    have hstep : URIData.applied { u with fragment := f } m =
        { u.applied m with fragment := fragmentAfter f m } := by
      cases m <;> rfl
    rw [List.foldl_cons, List.foldl_cons, List.foldl_cons, hstep, ih]

theorem fragment_foldl_applied (u : URIData) (ms : List Mutator) :
    (ms.foldl URIData.applied u).fragment = ms.foldl fragmentAfter u.fragment :=
  congrArg URIData.fragment (foldl_applied_fragment u u.fragment ms)

/-- Calls that set or clear the fragment hide what it was. -/
theorem foldl_fragmentAfter_iff (f g : Str) (ms : List Mutator) :
    ms.foldl fragmentAfter f = ms.foldl fragmentAfter g ↔
      f = g ∨ ∃ m ∈ ms, m.component = .fragment ∨ m.isAddQuery = true := by
  induction ms generalizing f g with
  | nil => simp
  | cons m ms ih =>
    rw [List.foldl_cons, List.foldl_cons, ih]
    cases m <;> simp [fragmentAfter, Mutator.component, Mutator.isAddQuery]

/-! ## Swapping -/

/-- One of the calls sets a fragment that the other clears. -/
def Clears : Mutator → Mutator → Prop
  | .setFragment f, .addQuery .. => f ≠ []
  | .addQuery .., .setFragment f => f ≠ []
  | _, _ => False

/-- Swapped calls on different components agree up to the fragment. -/
theorem applied_swap (u : URIData) {a b : Mutator} (h : a.component ≠ b.component) :
    (u.applied a).applied b = { (u.applied b).applied a with
      fragment := fragmentAfter (fragmentAfter u.fragment a) b } := by
  cases a <;> cases b <;> first | rfl | exact absurd rfl h

theorem fragmentAfter_swap {f : Str} {a b : Mutator} (h : a.component ≠ b.component) :
    fragmentAfter (fragmentAfter f a) b = fragmentAfter (fragmentAfter f b) a ↔ ¬ Clears a b := by
  -- only a set fragment and an `addQuery` behind or in front of it do not commute
  cases a <;> cases b <;>
    first
      | exact absurd rfl h
      | exact ⟨fun _ hclears => hclears, fun _ => rfl⟩
      | simp [fragmentAfter, Clears, eq_comm]

theorem foldl_applied_swap_iff (u : URIData) {a b : Mutator} (h : a.component ≠ b.component)
    (after : List Mutator) :
    after.foldl URIData.applied ((u.applied a).applied b) =
        after.foldl URIData.applied ((u.applied b).applied a) ↔
      (Clears a b → ∃ m ∈ after, m.component = .fragment ∨ m.isAddQuery = true) := by
  have hfrag : ((u.applied b).applied a).fragment =
      fragmentAfter (fragmentAfter u.fragment b) a := fragment_foldl_applied u [b, a]
  have hiff := foldl_fragmentAfter_iff (fragmentAfter (fragmentAfter u.fragment a) b)
    (fragmentAfter (fragmentAfter u.fragment b) a) after
  rw [fragmentAfter_swap h, ← imp_iff_not_or] at hiff
  rw [applied_swap u h, foldl_applied_fragment, ← hiff]
  constructor
  · intro heq
    have := congrArg URIData.fragment heq
    rwa [fragment_foldl_applied, hfrag] at this
  · intro heq
    rw [heq, ← hfrag, ← fragment_foldl_applied]

/-! ## One component -/

/-- The component of `u` and of `v` is the same. -/
def AgreeOn (u v : URIData) : Component → Prop
  | .scheme => u.scheme = v.scheme
  | .userinfo => u.userinfo = v.userinfo
  | .host => u.host = v.host
  | .port => u.port = v.port
  | .path => u.path = v.path
  | .query => u.query = v.query ∧ u.queryMap = v.queryMap
  | .fragment => u.fragment = v.fragment

theorem AgreeOn.applied {u v : URIData} {m : Mutator} (h : AgreeOn u v m.component) :
    AgreeOn (u.applied m) (v.applied m) m.component := by
  cases m with
  | addQuery key value =>
    have hmap : u.queryMap.insert key value = v.queryMap.insert key value := by rw [h.2]
    exact ⟨congrArg URIData.rebuildQuery hmap, hmap⟩
  | setQuery query => exact ⟨rfl, rfl⟩
  | _ => rfl

/-- A call on another component keeps all but the fragment. -/
theorem AgreeOn.applied_other {u v : URIData} {c : Component} {m : Mutator} (h : AgreeOn u v c)
    (hm : m.component ≠ c) (hc : c ≠ .fragment) : AgreeOn (u.applied m) v c := by
  cases c <;> cases m <;> first | exact h | exact absurd rfl hm | exact absurd rfl hc

theorem agreeOn_own_calls {u v : URIData} {c : Component} (h : AgreeOn u v c) (hc : c ≠ .fragment)
    (ms : List Mutator) : AgreeOn (ms.foldl URIData.applied u)
      ((ms.filter (·.component = c)).foldl URIData.applied v) c := by
  induction ms generalizing u v with
  | nil => exact h
  | cons m ms ih =>
    by_cases hm : m.component = c
    · subst hm
      simp only [List.foldl_cons, decide_true, List.filter_cons_of_pos]
      exact ih h.applied
    · rw [List.foldl_cons, List.filter_cons_of_neg (by simpa using hm)]
      exact ih (h.applied_other hm hc)

/-- The calls behind the last `setFragment`, the latest first. -/
def behindFragment (ms : List Mutator) : List Mutator :=
  ms.reverse.takeWhile (·.component ≠ .fragment)

theorem foldl_fragmentAfter_filter (f : Str) (ms : List Mutator) :
    (ms.filter (·.component = .fragment)).foldl fragmentAfter f = lastFragment f ms := by
  induction ms generalizing f with
  | nil => rfl
  | cons m ms ih =>
    cases m with
    | setFragment g => exact ih g
    | _ => exact ih f

/-- The fragment is the last that was set, unless an `addQuery` behind it cleared it. -/
theorem foldl_fragmentAfter_eq_last_iff (f : Str) (ms : List Mutator) :
    ms.foldl fragmentAfter f = lastFragment f ms ↔
      ((∃ m ∈ behindFragment ms, m.isAddQuery = true) → lastFragment f ms = []) := by
  induction ms using List.reverseRecOn with
  | nil => simp [lastFragment, behindFragment]
  | append_singleton ms m ih =>
    simp only [behindFragment, lastFragment, List.foldl_append, List.foldl_cons, List.foldl_nil,
      List.reverse_append, List.reverse_cons, List.reverse_nil, List.nil_append,
      List.singleton_append, List.takeWhile_cons] at ih ⊢
    cases m with
    | addQuery key value =>
      simp [fragmentAfter, Mutator.component, Mutator.isAddQuery]
    | setFragment g => simp [fragmentAfter, Mutator.component]
    | _ =>
      -- the call is behind the last `setFragment`, but no `addQuery`
      simp only [fragmentAfter, Mutator.component, Mutator.isAddQuery, ne_eq, reduceCtorEq,
        not_false_eq_true, decide_true, if_true, List.mem_cons, exists_eq_or_imp, false_or,
        Bool.false_eq_true] at ih ⊢
      exact ih

/-- **The mutators are independent, up to the fragment that `addQuery` clears.** Two adjacent calls
on different components can be swapped if and only if they are not a `setFragment` of a nonempty
fragment and an `addQuery`, or a later call sets or clears the fragment anyway. And the final value
of a component comes from the calls on it alone if and only if it is not the fragment, or no
`addQuery` behind the last `setFragment` clears a fragment that is not empty. -/
theorem applyAll_independent (u : URIData) :
    (∀ (before after : List Mutator) (a b : Mutator), a.component ≠ b.component →
      (u.applyAll (before ++ a :: b :: after) = u.applyAll (before ++ b :: a :: after) ↔
        (Clears a b → ∃ m ∈ after, m.component = .fragment ∨ m.isAddQuery = true))) ∧
    ∀ (ms : List Mutator) (c : Component),
      ∃ v w, u.applyAll ms = .ok v ∧ u.applyAll (ms.filter (·.component = c)) = .ok w ∧
        (AgreeOn v w c ↔ (c = .fragment → (∃ m ∈ behindFragment ms, m.isAddQuery = true) →
          lastFragment u.fragment ms = [])) := by
  refine ⟨fun before after a b h => ?_, fun ms c => ⟨_, _, applyAll_eq u ms, applyAll_eq u _, ?_⟩⟩
  · simp only [applyAll_eq, Except.ok.injEq, List.foldl_append, List.foldl_cons]
    exact foldl_applied_swap_iff _ h after
  · by_cases hc : c = .fragment
    · subst hc
      simp only [AgreeOn, fragment_foldl_applied, foldl_fragmentAfter_filter, true_imp_iff]
      exact foldl_fragmentAfter_eq_last_iff u.fragment ms
    · have hrefl : AgreeOn u u c := by cases c <;> simp [AgreeOn]
      exact ⟨fun _ h => absurd h hc, fun _ => agreeOn_own_calls hrefl hc ms⟩

/-- A fragment that is set later hides the difference. -/
theorem applyAll_independent_set_again :
    ({} : URIData).applyAll [.setFragment "f".toList, .addQuery "k".toList "v".toList,
        .setFragment "g".toList] =
      ({} : URIData).applyAll [.addQuery "k".toList "v".toList, .setFragment "f".toList,
        .setFragment "g".toList] :=
  ((applyAll_independent {}).1 [] [.setFragment "g".toList] _ _ (by decide)).mpr
    fun _ => ⟨_, List.mem_singleton_self _, .inl rfl⟩

/-- A fragment is lost when `addQuery` comes behind it. -/
theorem not_applyAll_independent :
    ¬ ∀ (u : URIData) (before after : List Mutator) (a b : Mutator), a.component ≠ b.component →
      u.applyAll (before ++ a :: b :: after) = u.applyAll (before ++ b :: a :: after) := by
  intro h
  have heq := h {} [] [] (.setFragment "f".toList) (.addQuery "k".toList "v".toList) (by decide)
  simp only [applyAll_eq, Except.ok.injEq] at heq
  exact absurd (congrArg URIData.fragment heq) (by decide)

end Servus.Uri
