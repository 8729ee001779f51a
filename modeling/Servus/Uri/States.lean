import Servus.Uri.Grammar

/-!
# The states of the URI parser

`_parseURIPart` asserts that a query starts with `?` and a fragment with `#`, and that the input
is as long as what it skips. None of this is checked before a call: it follows from where the
part before has left the input. `StateInv` is that invariant of the loop in `_parseURI`, with the
number of iterations that can have passed in each state.

`parseURI_safe`: no assertion of `_parseURIPart` fails, none of its substrings starts past the
end, and the loop ends after at most five iterations, at the end of the input or by an exception.
-/

namespace Servus.Uri

open Cpp Grammar

/-- Where `_parseURIPart` finds the separator of a part. -/
def separatorPos (input : Str) (part : URIPart) : Pos :=
  if part.fullSeparator then find part.separators input else findFirstOf part.separators input

/-- `_parseURIPart` returns before its assertions. -/
def returnsEarly (input : Str) (part : URIPart) : Bool :=
  let pos := separatorPos input part
  if pos = none then part.needsSeparator
  else pos == some 0 || part.disallowed.any fun set => Pos.lt (findFirstOf set input) pos

/-- What the end of `_parseURIPart` asserts, and what its substrings need. -/
structure CutSafe (input : Str) (part : URIPart) : Prop where
  /-- The first assertion. -/
  first : part.requireFirst = none ∨ separatorPos input part = some 0 ∨
    input.head? = part.requireFirst
  /-- The second assertion, and the start of the substring that is the output. -/
  skipped : part.skip ≤ input.length
  /-- The start of the substring that is the rest of the input. -/
  rest : ∀ p, separatorPos input part = some p → p + part.postSkip ≤ input.length

theorem parseURIPart_eq (input : Str) (part : URIPart) :
    parseURIPart input part = if returnsEarly input part then .ok (true, input, [])
      else cutURIPart input part (separatorPos input part) := by
  unfold parseURIPart returnsEarly separatorPos
  by_cases hnone : (if part.fullSeparator then find part.separators input
      else findFirstOf part.separators input) = none
  · simp only [hnone, ↓reduceIte]
  · simp only [hnone, ↓reduceIte, Bool.or_eq_true, beq_iff_eq]

/-- The end of `_parseURIPart` gives a result only where its assertions hold and its substrings
exist. -/
theorem cutSafe_of_ok {input : Str} {part : URIPart} {r : Bool × Str × Str}
    (h : cutURIPart input part (separatorPos input part) = .ok r) : CutSafe input part := by
  unfold cutURIPart assert at h
  split at h
  · rename_i hfirst
    split at h
    · rename_i hskip
      refine ⟨by simpa [or_assoc] using hfirst, of_decide_eq_true hskip, fun p hp => ?_⟩
      by_contra hlt
      have hskip := of_decide_eq_true hskip
      simp only [hp, substr, hskip, hlt, ↓reduceIte, ok_bind, error_bind] at h
      cases h
    · cases h
  · cases h

/-- A part that is parsed without an error is parsed safely. -/
theorem cutSafe_of_parseURIPart {input : Str} {part : URIPart} {r : Bool × Str × Str}
    (h : parseURIPart input part = .ok r) (hcut : returnsEarly input part = false) :
    CutSafe input part := by
  rw [parseURIPart_eq, hcut] at h
  exact cutSafe_of_ok h

/-- The condition of the loop in `_parseURI`. -/
def running (s : ParseState) : Bool := !s.input.isEmpty

/-- The loop of `_parseURI` is at its condition in the state `s`, after `n` iterations. -/
abbrev Visits (input : Str) : Nat → ParseState → Prop :=
  AtHead running parseStep ⟨.scheme, input, {}⟩

/-- How many iterations can have passed in each state, and at which character its input starts. -/
def StateInv (n : Nat) (s : ParseState) : Prop :=
  match s.part with
  | .scheme => n = 0
  | .authority => n = 1
  | .path => n ≤ 2
  | .query => n ≤ 3 ∧ ∀ c ∈ s.input.head?, c = '?' ∨ c = '#'
  | .fragment => n ≤ 4 ∧ (∀ c ∈ s.input.head?, c = '#') ∨ n ≤ 5 ∧ s.input = []

/-! ## One iteration in each state -/

theorem parseURIPart_scheme_ok (input : Str) :
    ∃ rest out, parseURIPart input .scheme = .ok (true, rest, out) := by
  rw [parseURIPart_scheme]
  cases splitScheme input with
  | none => exact ⟨_, _, rfl⟩
  | some tr => exact ⟨_, _, rfl⟩

/-- The scheme is parsed first. -/
theorem step_scheme {input : Str} {data : URIData} {s' : ParseState}
    (h : parseStep ⟨.scheme, input, data⟩ = .ok s') : s'.part = .path ∨ s'.part = .authority := by
  obtain ⟨rest, out, hcall⟩ := parseURIPart_scheme_ok input
  simp only [parseStep, hcall, ok_bind, pure_eq] at h
  split at h
  · cases h
  · obtain rfl := Except.ok.inj h
    dsimp only
    split
    · exact .inl rfl
    · exact .inr rfl

theorem step_authority {input : Str} {data : URIData} {s' : ParseState}
    (h : parseStep ⟨.authority, input, data⟩ = .ok s') : s'.part = .path := by
  simp only [parseStep, parseURIPart_authority, ok_bind, pure_eq] at h
  split at h
  · exact Except.ok.inj h ▸ rfl
  · cases hauth : parseAuthority data (input.takeWhile (free "/?#".toList)) with
    | error e => rw [hauth, error_bind] at h; cases h
    | ok data' =>
      rw [hauth, ok_bind] at h
      exact Except.ok.inj h ▸ rfl

/-- A path leaves the input at `?` or `#`, or leaves nothing. -/
theorem step_path {input : Str} {data : URIData} {s' : ParseState}
    (h : parseStep ⟨.path, input, data⟩ = .ok s') :
    s'.part = .query ∧ ∀ c ∈ s'.input.head?, c = '?' ∨ c = '#' := by
  simp only [parseStep, parseURIPart_path, ok_bind, pure_eq] at h
  obtain rfl := Except.ok.inj h
  refine ⟨rfl, fun c hc => ?_⟩
  have hstop := List.head?_dropWhile_not (free "?#".toList) input
  rw [show (input.dropWhile _).head? = some c from hc] at hstop
  simpa [free, or_iff_not_imp_left] using hstop

/-- A query leaves the input at `#`, or leaves nothing. -/
theorem step_query {c : Char} {t : Str} {data : URIData} {s' : ParseState}
    (hc : c = '?' ∨ c = '#') (h : parseStep ⟨.query, c :: t, data⟩ = .ok s') :
    s'.part = .fragment ∧ ∀ d ∈ s'.input.head?, d = '#' := by
  rcases hc with rfl | rfl
  · simp only [parseStep, parseURIPart_query, parseQueryMap_eq, ok_bind, pure_eq] at h
    obtain rfl := Except.ok.inj h
    refine ⟨rfl, fun d hd => ?_⟩
    have hstop := List.head?_dropWhile_not (· != '#') t
    rw [show (t.dropWhile _).head? = some d from hd] at hstop
    simpa using hstop
  · simp only [parseStep, parseURIPart_query_hash, parseQueryMap_eq, ok_bind, pure_eq] at h
    obtain rfl := Except.ok.inj h
    exact ⟨rfl, fun d hd => by simpa using hd.symm⟩

/-- A fragment leaves nothing. -/
theorem step_fragment {t : Str} {data : URIData} {s' : ParseState}
    (h : parseStep ⟨.fragment, '#' :: t, data⟩ = .ok s') :
    s'.part = .fragment ∧ s'.input = [] := by
  simp only [parseStep, parseURIPart_fragment, ok_bind, pure_eq] at h
  exact Except.ok.inj h ▸ ⟨rfl, rfl⟩

/-- Every iteration keeps the invariant. -/
theorem stateInv_step {n : Nat} {s s' : ParseState} (hinv : StateInv n s)
    (hrun : running s = true) (h : parseStep s = .ok s') : StateInv (n + 1) s' := by
  obtain ⟨part, input, data⟩ := s
  have hne : input ≠ [] := by simpa [running] using hrun
  obtain ⟨c, t, rfl⟩ := List.exists_cons_of_ne_nil hne
  cases part with
  | scheme =>
    obtain rfl : n = 0 := hinv
    unfold StateInv
    rcases step_scheme h with hp | hp
    · rw [hp]; dsimp only; omega
    · rw [hp]
  | authority =>
    obtain rfl : n = 1 := hinv
    unfold StateInv
    rw [step_authority h]
  | path =>
    have hn : n ≤ 2 := hinv
    obtain ⟨hp, hhead⟩ := step_path h
    unfold StateInv
    rw [hp]
    exact ⟨by omega, hhead⟩
  | query =>
    obtain ⟨hn, hhead⟩ := hinv
    obtain ⟨hp, hhead'⟩ := step_query (hhead c rfl) h
    unfold StateInv
    rw [hp]
    exact .inl ⟨by omega, hhead'⟩
  | fragment =>
    obtain ⟨hn, hhead⟩ | ⟨-, hnil⟩ := hinv
    · obtain rfl : c = '#' := hhead c rfl
      obtain ⟨hp, hnil⟩ := step_fragment h
      unfold StateInv
      rw [hp]
      exact .inr ⟨by omega, hnil⟩
    · cases hnil

theorem stateInv_of_visits {input : Str} {n : Nat} {s : ParseState} (h : Visits input n s) :
    StateInv n s := by
  have h0 : StateInv 0 ⟨.scheme, input, {}⟩ := rfl
  exact h.invariant StateInv h0 fun _ _ _ hinv hrun hstep => stateInv_step hinv hrun hstep

/-- A state in which an iteration starts comes before the fifth one. -/
theorem lt_five_of_stateInv {n : Nat} {s : ParseState} (hinv : StateInv n s)
    (hne : s.input ≠ []) : n < 5 := by
  unfold StateInv at hinv
  split at hinv
  · omega
  · omega
  · omega
  · omega
  · obtain ⟨hn, -⟩ | ⟨-, hnil⟩ := hinv
    · omega
    · exact absurd hnil hne

/-- In every state with the invariant, `_parseURIPart` returns. -/
theorem parseURIPart_ok {n : Nat} {s : ParseState} (hinv : StateInv n s) (hne : s.input ≠ []) :
    ∃ rest out, parseURIPart s.input s.part = .ok (true, rest, out) := by
  obtain ⟨part, input, data⟩ := s
  obtain ⟨c, t, rfl⟩ := List.exists_cons_of_ne_nil hne
  cases part with
  | scheme => exact parseURIPart_scheme_ok _
  | authority => exact ⟨_, _, parseURIPart_authority _⟩
  | path => exact ⟨_, _, parseURIPart_path _⟩
  | query =>
    rcases hinv.2 c rfl with rfl | rfl
    · exact ⟨_, _, parseURIPart_query t⟩
    · exact ⟨_, _, parseURIPart_query_hash t⟩
  | fragment =>
    obtain ⟨-, hhead⟩ | ⟨-, hnil⟩ := hinv
    · obtain rfl : c = '#' := hhead c rfl
      exact ⟨_, _, parseURIPart_fragment t⟩
    · cases hnil

/-- **The parser is safe.** Wherever the loop of `_parseURI` starts an iteration, it is one of the
first five, and `_parseURIPart` returns; when it gets past its early returns, both assertions hold
and no substring starts past the end. The loop ends, at the end of the input or by an exception
of its last iteration. -/
theorem parseURI_safe (input : Str) :
    (∀ n s, Visits input n s → s.input ≠ [] →
      n < 5 ∧ (∃ rest out, parseURIPart s.input s.part = .ok (true, rest, out)) ∧
        (returnsEarly s.input s.part = false → CutSafe s.input s.part)) ∧
    ∃ n s, n ≤ 5 ∧ Visits input n s ∧
      ((s.input = [] ∧ parseURI input = .ok s.data) ∨
        (s.input ≠ [] ∧ ∃ e, e.isException = true ∧ parseStep s = .error e ∧
          parseURI input = .error e)) := by
  constructor
  · intro n s hvisit hne
    have hinv := stateInv_of_visits hvisit
    obtain ⟨rest, out, hcall⟩ := parseURIPart_ok hinv hne
    exact ⟨lt_five_of_stateInv hinv hne, ⟨rest, out, hcall⟩, cutSafe_of_parseURIPart hcall⟩
  · have hfive : ∀ n s, Visits input n s → running s = true → n < 5 := fun n s hvisit hrun =>
      lt_five_of_stateInv (stateInv_of_visits hvisit) (by simpa [running] using hrun)
    have hparse : parseURI input =
        (whileLoop .fuel running parseStep 5 ⟨.scheme, input, {}⟩ >>= fun s => pure s.data) := rfl
    obtain ⟨n, s, hn, hvisit, ⟨hdone, hloop⟩ | ⟨hrun, e, hstep, hloop⟩⟩ :=
      whileLoop_ends Exn.fuel hfive
    · rw [hloop, ok_bind] at hparse
      exact ⟨n, s, hn, hvisit, .inl ⟨by simpa [running] using hdone, hparse⟩⟩
    · rw [hloop, error_bind] at hparse
      have hne : input ≠ [] := by
        rintro rfl
        cases hparse
      have hexc : e.isException = true := by
        have hmeets := parseURI_meets hne
        cases hp : parts input with
        | some data =>
          rw [hp] at hmeets
          cases hparse.symm.trans hmeets
        | none =>
          rw [hp] at hmeets
          obtain ⟨e', he', hexc⟩ := hmeets
          cases hparse.symm.trans he'
          exact hexc
      exact ⟨n, s, hn, hvisit, .inr ⟨by simpa [running] using hrun, e, hexc, hstep, hparse⟩⟩

end Servus.Uri
