import Servus.Uri.Query

/-!
# The grammar that the URI parser accepts

`Grammar.parts` says what the parser is for, without a loop and without positions: where the
scheme ends, which text is the authority and how it splits, and which texts are the path, the
query and the fragment. `none` is a rejected string.

`URI_eq_parts` connects it to the code: `URI(s)` returns exactly these parts, and throws
`uri_parse` exactly where there are none. The proof follows the states of `_parseURI` backwards.
Each state has one lemma for its `_parseURIPart` (`parseURIPart_path` and so on) and one for the
loop from that state on (`finish_path` and so on). The invariant that links them is the first
character of the input: a query is entered at `?` or `#`, a fragment at `#`.
-/

namespace Servus.Uri

open Cpp

namespace Grammar

/-- `c` is none of the characters of `set`. -/
def free (set : Str) (c : Char) : Bool := !set.contains c

/-- The scheme text and the text behind `://`: the first `://` must stand behind a nonempty
text without `/`, `?` and `#`. -/
def splitScheme (s : Str) : Option (Str × Str) :=
  match find "://".toList s with
  | some p =>
    if 0 < p ∧ ∀ c ∈ s.take p, c ∉ "/?#".toList then some (s.take p, s.drop (p + 3)) else none
  | none => none

/-- A letter, a digit, `+`, `-` or `.`. -/
def isSchemeChar (c : Char) : Bool := c.isAlphanum || c == '+' || c == '-' || c == '.'

/-- A letter, followed by letters, digits, `+`, `-` and `.`. -/
def isScheme : Str → Bool
  | [] => false
  | c :: cs => c.isAlpha && cs.all isSchemeChar

/-- The lower-cased scheme and the rest of the string. -/
def scheme (s : Str) : Option (Str × Str) :=
  match splitScheme s with
  | some (t, r) => if isScheme t then some (toLower t, r) else none
  | none => some ([], s)

/-- Only a scheme other than `file` has an authority. -/
def hasAuthority (scheme : Str) : Bool := scheme != [] && scheme != "file".toList

theorem hasAuthority_iff {scheme : Str} :
    hasAuthority scheme = true ↔ scheme ≠ [] ∧ scheme ≠ "file".toList := by
  simp only [hasAuthority, Bool.and_eq_true, bne_iff_ne]

def authority (scheme r : Str) : Str :=
  if hasAuthority scheme then r.takeWhile (free "/?#".toList) else []

def afterAuthority (scheme r : Str) : Str :=
  if hasAuthority scheme then r.dropWhile (free "/?#".toList) else r

/-- The text before the first `@`; empty if there is none. -/
def userinfo (auth : Str) : Str := if '@' ∈ auth then auth.takeWhile (· != '@') else []

/-- The authority without its userinfo. -/
def hostPort (auth : Str) : Str :=
  if '@' ∈ auth then (auth.dropWhile (· != '@')).tail else auth

def host (auth : Str) : Str := (hostPort auth).takeWhile (· != ':')

/-- The text behind the first `:` of the host and port. -/
def portText (auth : Str) : Option Str :=
  if ':' ∈ hostPort auth then some ((hostPort auth).dropWhile (· != ':')).tail else none

/-- The port: `strtol` must read the whole text, which may not be empty; 16 bits of its value
count. -/
def port : Option Str → Option UInt16
  | none => some 0
  | some t =>
    if t ≠ [] ∧ (strtol t).2 = t.length then some (UInt16.ofNat ((strtol t).1 % 2 ^ 16).toNat)
    else none

def path (r : Str) : Str := r.takeWhile (free "?#".toList)

def afterPath (r : Str) : Str := r.dropWhile (free "?#".toList)

/-- The text between a `?` at the end of the path and the next `#`. -/
def query (r : Str) : Str :=
  match afterPath r with
  | '?' :: q => q.takeWhile (· != '#')
  | _ => []

/-- The text behind the first `#`. -/
def fragment (r : Str) : Str := ((afterPath r).dropWhile (· != '#')).tail

/-- Add the parts of `r`, the text behind the authority, to the others. -/
def withPath (data : URIData) (r : Str) : URIData :=
  { data with
    path := path r
    query := query r
    queryMap := queryMapOf (query r)
    fragment := fragment r }

/-- Add the parts of a nonempty authority to the scheme. -/
def withAuthority (data : URIData) (auth : Str) : Option URIData :=
  if host auth = [] then none
  else (port (portText auth)).map fun port =>
    { data with userinfo := userinfo auth, host := host auth, port }

/-- The parts of a string; `none` when it is no URI. -/
def parts (s : Str) : Option URIData := do
  let (scheme, r) ← scheme s
  let auth := authority scheme r
  let data ← if auth = [] then some { scheme } else withAuthority { scheme } auth
  some (withPath data (afterAuthority scheme r))

end Grammar

open Grammar

/-- What an accepted string consists of. -/
theorem parts_eq_some_iff {s : Str} {u : URIData} :
    parts s = some u ↔ ∃ scheme r, Grammar.scheme s = some (scheme, r) ∧
      ((authority scheme r = [] ∧ u = withPath { scheme } (afterAuthority scheme r)) ∨
        (authority scheme r ≠ [] ∧ host (authority scheme r) ≠ [] ∧
          ∃ p, port (portText (authority scheme r)) = some p ∧
            u = withPath { scheme, userinfo := userinfo (authority scheme r)
                           host := host (authority scheme r), port := p }
              (afterAuthority scheme r))) := by
  unfold parts
  cases hs : Grammar.scheme s with
  | none => simp
  | some tr =>
    obtain ⟨scheme, r⟩ := tr
    simp only [Option.bind_eq_bind, Option.bind_some, Option.some.injEq, Prod.mk.injEq]
    constructor
    · intro h
      refine ⟨scheme, r, ⟨rfl, rfl⟩, ?_⟩
      by_cases ha : authority scheme r = []
      · rw [if_pos ha] at h
        exact .inl ⟨ha, (Option.some.inj h).symm⟩
      · rw [if_neg ha] at h
        obtain ⟨data, hd, hu⟩ := Option.bind_eq_some_iff.mp h
        unfold withAuthority at hd
        split at hd
        · cases hd
        · rename_i hhost
          obtain ⟨p, hp, rfl⟩ := Option.map_eq_some_iff.mp hd
          exact .inr ⟨ha, hhost, p, hp, (Option.some.inj hu).symm⟩
    · rintro ⟨_, _, ⟨rfl, rfl⟩, ⟨ha, rfl⟩ | ⟨ha, hhost, p, hp, rfl⟩⟩
      · rw [if_pos ha]
      · rw [if_neg ha, withAuthority, if_neg hhost, hp]
        rfl

/-- The scheme text ends at a `://` and has no `/`, `?` and `#`: then this `://` is the first. -/
theorem splitScheme_eq_some_iff {s t r : Str} :
    splitScheme s = some (t, r) ↔
      s = t ++ "://".toList ++ r ∧ t ≠ [] ∧ ∀ c ∈ t, c ∉ "/?#".toList := by
  unfold splitScheme
  constructor
  · intro h
    cases hp : find "://".toList s with
    | none => rw [hp] at h; cases h
    | some p =>
      rw [hp] at h
      dsimp only at h
      split at h
      · rename_i hpos
        simp only [Option.some.injEq, Prod.mk.injEq] at h
        obtain ⟨rfl, rfl⟩ := h
        obtain ⟨⟨y, hy⟩, hle, -⟩ := find_eq_some_iff.mp hp
        refine ⟨?_, ?_, hpos.2⟩
        · have hdrop : s.drop (p + 3) = y := by
            rw [← List.drop_drop, ← hy]; rfl
          rw [hdrop, List.append_assoc, hy, List.take_append_drop]
        · intro hnil
          have hlen := congrArg List.length hnil
          simp only [List.length_take, List.length_nil] at hlen
          omega
      · cases h
  · rintro ⟨rfl, hne, hfree⟩
    have hp : find "://".toList (t ++ "://".toList ++ r) = some t.length := by
      refine find_eq_some_iff.mpr ⟨by simp, by simp, fun q hq hpre => ?_⟩
      -- An earlier `://` would put its first `/` into `t` or at the `:` behind it.
      obtain ⟨y, hy⟩ := hpre
      have h1 : (t ++ "://".toList ++ r)[q + 1]? = some '/' := by
        rw [← List.getElem?_drop, ← hy]; rfl
      rw [List.append_assoc] at h1
      rcases Nat.lt_or_ge (q + 1) t.length with hlt | hge
      · rw [List.getElem?_append_left hlt] at h1
        exact hfree '/' (List.mem_of_getElem? h1) (by decide)
      · rw [List.getElem?_append_right hge, show q + 1 - t.length = 0 by omega] at h1
        exact absurd h1 (by simp)
    rw [hp]
    dsimp only
    rw [if_pos]
    · simp
    · refine ⟨List.length_pos_of_ne_nil hne, fun c hc => ?_⟩
      rw [List.append_assoc, List.take_left] at hc
      exact hfree c hc

/-! ## The parts of `_parseURIPart` -/

theorem not_mem_of_free {set a : Str} (h : ∀ x ∈ a, x ∉ set) : ∀ x ∈ a, free set x = true :=
  fun x hx => by simpa [free] using h x hx

/-- A part without a required first character is cut at its first separator. -/
theorem parseURIPart_cut {part : URIPart} (input : Str) (hf : part.fullSeparator = false)
    (hr : part.requireFirst = none) (hd : part.disallowed = none)
    (hs : part.skip = 0) (hp : part.postSkip = 0) (hn : part.needsSeparator = false) :
    parseURIPart input part = .ok (true, input.dropWhile (free part.separators),
      input.takeWhile (free part.separators)) := by
  unfold parseURIPart
  simp only [hf, Bool.false_eq_true, ↓reduceIte]
  rcases findFirstOf_cases part.separators input with ⟨hnone, hall⟩ | ⟨a, c, b, rfl, hc, ha, hpos⟩
  · have hall := not_mem_of_free hall
    rw [hnone, List.takeWhile_eq_self_iff.mpr hall, List.dropWhile_eq_nil_iff.mpr hall]
    simp [cutURIPart, assert, hr, hs, hn]
  · have hc' : free part.separators c = false := by simpa [free] using hc
    have ha := not_mem_of_free ha
    rw [hpos, takeWhile_split ha hc', dropWhile_split ha hc']
    cases a with
    | nil => simp
    | cons d a => simp [cutURIPart, assert, hr, hs, hd, hp, substr]

theorem parseURIPart_authority (input : Str) :
    parseURIPart input .authority = .ok (true, input.dropWhile (free "/?#".toList),
      input.takeWhile (free "/?#".toList)) :=
  parseURIPart_cut input rfl rfl rfl rfl rfl rfl

theorem parseURIPart_path (input : Str) :
    parseURIPart input .path = .ok (true, afterPath input, path input) :=
  parseURIPart_cut input rfl rfl rfl rfl rfl rfl

/-- A query that starts with its `?` ends at the next `#`. -/
theorem parseURIPart_query (q : Str) :
    parseURIPart ('?' :: q) .query =
      .ok (true, q.dropWhile (· != '#'), q.takeWhile (· != '#')) := by
  unfold parseURIPart
  have hset : ∀ a : Str, (∀ x ∈ '?' :: a, x ∉ ['#']) → ∀ x ∈ a, (x != '#') = true :=
    fun a h x hx => by simpa using h x (List.mem_cons_of_mem _ hx)
  rcases findFirstOf_cases ['#'] ('?' :: q) with ⟨hn, hall⟩ | ⟨a, c, b, heq, hc, ha, hpos⟩
  · rw [List.takeWhile_eq_self_iff.mpr (hset q hall), List.dropWhile_eq_nil_iff.mpr (hset q hall)]
    simp [URIPart.fullSeparator, URIPart.separators, hn, URIPart.needsSeparator, cutURIPart,
      assert, URIPart.requireFirst, URIPart.skip, substr]
  · obtain rfl : c = '#' := by simpa using hc
    cases a with
    | nil => simp at heq
    | cons d a =>
      simp only [List.cons_append, List.cons.injEq] at heq
      obtain ⟨rfl, rfl⟩ := heq
      rw [takeWhile_split (hset a ha) (by simp), dropWhile_split (hset a ha) (by simp)]
      simp [URIPart.fullSeparator, URIPart.separators, hpos, URIPart.disallowed, cutURIPart,
        assert, URIPart.requireFirst, URIPart.skip, URIPart.postSkip, Pos.sub, substr]

/-- Without a query the input stands at its `#` and stays there. -/
theorem parseURIPart_query_hash (f : Str) :
    parseURIPart ('#' :: f) .query = .ok (true, '#' :: f, []) := by
  have hpos : findFirstOf ['#'] ('#' :: f) = some 0 := by
    simp [findFirstOf, List.findIdx?_cons]
  simp [parseURIPart, URIPart.fullSeparator, URIPart.separators, hpos]

/-- A fragment takes all of the input. -/
theorem parseURIPart_fragment (f : Str) :
    parseURIPart ('#' :: f) .fragment = .ok (true, [], f) := by
  have hpos : findFirstOf [] ('#' :: f) = none := by
    simp [findFirstOf]
  simp [parseURIPart, URIPart.fullSeparator, URIPart.separators, hpos, URIPart.needsSeparator,
    cutURIPart, assert, URIPart.requireFirst, URIPart.skip, substr]

/-- The scheme part: the text before `://`, or nothing. -/
theorem parseURIPart_scheme (input : Str) :
    parseURIPart input .scheme = match splitScheme input with
      | some (t, r) => .ok (true, r, t)
      | none => .ok (true, input, []) := by
  simp only [parseURIPart, URIPart.fullSeparator, URIPart.separators, ↓reduceIte, splitScheme]
  cases hpos : find "://".toList input with
  | none => simp [URIPart.needsSeparator]
  | some p =>
    obtain ⟨hpre, -, -⟩ := find_eq_some_iff.mp hpos
    have hlen : p + 3 ≤ input.length := by
      have hle := hpre.length_le
      have h3 : "://".toList.length = 3 := rfl
      rw [List.length_drop] at hle
      omega
    have hdis : URIPart.scheme.disallowed.any
        (fun set => Pos.lt (findFirstOf set input) (some p)) = true ↔
        ∃ c ∈ input.take p, c ∈ "/?#".toList := lt_findFirstOf_iff
    dsimp only
    by_cases h : 0 < p ∧ ∀ c ∈ input.take p, c ∉ "/?#".toList
    · rw [if_pos h, if_neg (by simp), if_neg]
      · simp [cutURIPart, assert, URIPart.requireFirst, URIPart.skip, URIPart.postSkip, substr,
          hlen]
      · rintro (h0 | hc)
        · simp only [Option.some.injEq] at h0; omega
        · obtain ⟨c, hc, hset⟩ := hdis.mp hc
          exact h.2 c hc hset
    · rw [if_neg h, if_neg (by simp), if_pos]
      rcases Nat.eq_zero_or_pos p with rfl | hp
      · exact .inl rfl
      · right
        rw [hdis]
        by_contra hno
        exact h ⟨hp, fun c hc hset => hno ⟨c, hc, hset⟩⟩

/-! ## The scheme and the authority -/

theorem mem_schemeChars_toLower (c : Char) :
    c.toLower ∈ schemeChars ↔ isSchemeChar c = true := by
  cases h : c.isUpper with
  | true =>
    refine isUpper_cases (P := fun c => c.toLower ∈ schemeChars ↔ isSchemeChar c = true) h
      fun n h1 h2 => ?_
    interval_cases n <;> decide
  | false =>
    rw [Char.toLower_eq_of_not_isUpper (by simp [h])]
    constructor
    · intro hc
      have hall : schemeChars.all isSchemeChar = true := by decide
      exact List.all_eq_true.mp hall c hc
    · intro hc
      simp only [isSchemeChar, Char.isAlphanum, Char.isAlpha, h, Bool.or_eq_true, beq_iff_eq,
        Bool.false_or] at hc
      rcases hc with (((hc | hc) | rfl) | rfl) | rfl
      · refine isLower_cases (P := fun c => c ∈ schemeChars) hc fun n h1 h2 => ?_
        interval_cases n <;> decide
      · refine isDigit_cases (P := fun c => c ∈ schemeChars) hc fun n h1 h2 => ?_
        interval_cases n <;> decide
      all_goals decide

theorem isSchemeChar_toLower (c : Char) : isSchemeChar c.toLower = isSchemeChar c := by
  rw [Bool.eq_iff_iff, ← mem_schemeChars_toLower, ← mem_schemeChars_toLower,
    Char.toLower_toLower_eq_toLower]

theorem isScheme_toLower (t : Str) : isScheme (toLower t) = isScheme t := by
  cases t with
  | nil => rfl
  | cons c cs =>
    have hcs : (cs.map Char.toLower).all isSchemeChar = cs.all isSchemeChar := by
      simp [List.all_map, Function.comp_def, isSchemeChar_toLower]
    rw [toLower, List.map_cons, isScheme, isScheme, hcs, Char.isAlpha_toLower_eq_isAlpha]

theorem toLower_toLower (t : Str) : toLower (toLower t) = toLower t := by
  simp [toLower]

/-- The check of the lower-cased scheme is the grammar's check of the scheme text. -/
theorem badScheme_toLower {t : Str} (hne : t ≠ []) : badScheme (toLower t) = !isScheme t := by
  cases t with
  | nil => exact absurd rfl hne
  | cons c cs =>
    have hrest : findFirstNotOf schemeChars (toLower (c :: cs)) 1 = none ↔
        cs.all isSchemeChar = true := by
      simp only [findFirstNotOf, toLower, List.map_cons, List.drop_succ_cons, List.drop_zero,
        Option.map_eq_none_iff, List.findIdx?_eq_none_iff, List.mem_map, forall_exists_index,
        and_imp, forall_apply_eq_imp_iff₂, Bool.not_eq_false', List.contains_iff_mem,
        mem_schemeChars_toLower, List.all_eq_true]
    have hhead : (toLower (c :: cs)).head?.any Char.isAlpha = c.isAlpha := by simp [toLower]
    have hnil : (toLower (c :: cs)).isEmpty = false := rfl
    unfold badScheme
    rw [hhead, hnil, isScheme]
    by_cases h : findFirstNotOf schemeChars (toLower (c :: cs)) 1 = none
    · rw [h, hrest.mp h]; simp
    · have hall := Bool.eq_false_iff.mpr fun hc => h (hrest.mpr hc)
      rw [hall]; simp [h]

theorem parsePort_meets (t : Str) : Meets (parsePort t) (port (some t)) := by
  by_cases h : t = [] ∨ (strtol t).2 ≠ t.length
  · have hno : ¬ (t ≠ [] ∧ (strtol t).2 = t.length) := fun hc => h.elim hc.1 fun hn => hn hc.2
    simp only [parsePort, port, if_pos h, if_neg hno]
    exact ⟨_, rfl, rfl⟩
  · have hyes : t ≠ [] ∧ (strtol t).2 = t.length := by simpa using h
    simp only [parsePort, port, if_neg h, if_pos hyes]
    rfl

/-- The host and the port of the text `hp` behind `pre`. -/
theorem parseHostPort_meets (data : URIData) (pre hp : Str) (h0 : data.port = 0) :
    Meets (parseHostPort data (pre ++ hp) pre.length)
      (if hp.takeWhile (· != ':') = [] then none
        else (port (if ':' ∈ hp then some (hp.dropWhile (· != ':')).tail else none)).map
          fun port => { data with host := hp.takeWhile (· != ':'), port }) := by
  unfold parseHostPort
  rw [findChar_append]
  have hsub : ∀ count, substr (pre ++ hp) pre.length count = substr hp 0 count :=
    fun count => substr_append_add pre hp 0 count
  rcases findChar_cases ':' hp with ⟨hn, hmem⟩ | ⟨h, t, rfl, hh, hf⟩
  · rw [hn, List.takeWhile_eq_self_iff.mpr (all_ne_of_notMem hmem)]
    simp only [Option.map_none, pure_eq, ok_bind, Pos.sub_none, hsub, substr_zero_none, hmem,
      ↓reduceIte, port, Option.map_some]
    split
    · exact ⟨_, rfl, rfl⟩
    · rw [← h0]; rfl
  · have hall := all_ne_of_notMem hh
    have hport : substr (pre ++ (h ++ ':' :: t)) (h.length + pre.length + 1) none = .ok t := by
      rw [show h.length + pre.length + 1 = pre.length + (h.length + 1) by omega,
        substr_append_add, substr_suffix_cons]
    have hhost : substr (pre ++ (h ++ ':' :: t)) pre.length
        (Pos.sub (some (h.length + pre.length)) pre.length) = .ok h := by
      rw [hsub, Pos.sub, if_pos (by omega), Nat.add_sub_cancel, substr_prefix]
    rw [hf, takeWhile_split hall (by simp), dropWhile_split hall (by simp)]
    simp only [Option.map_some, hport, ok_bind, hhost, List.mem_append, List.mem_cons, true_or,
      or_true, ↓reduceIte, List.tail_cons]
    have hmeets := parsePort_meets t
    cases hp : port (some t) with
    | none =>
      -- The port is read before the host, so its exception comes first.
      rw [hp] at hmeets
      obtain ⟨e, he, hex⟩ := hmeets
      rw [he]
      simp only [error_bind, Option.map_none, ite_self]
      exact ⟨e, rfl, hex⟩
    | some v =>
      rw [hp] at hmeets
      rw [show parsePort t = .ok v from hmeets]
      simp only [ok_bind, pure_eq, Option.map_some]
      split
      · exact ⟨_, rfl, rfl⟩
      · rfl

/-- `_parseAuthority` gives the parts of the authority. -/
theorem parseAuthority_meets {data : URIData} (auth : Str) (hu : data.userinfo = [])
    (h0 : data.port = 0) : Meets (parseAuthority data auth) (withAuthority data auth) := by
  unfold parseAuthority withAuthority
  rcases findChar_cases '@' auth with ⟨hn, hmem⟩ | ⟨u, hp, rfl, hu', hf⟩
  · have hmeets := parseHostPort_meets data [] auth h0
    rw [hu] at hmeets
    simp only [hn, host, portText, hostPort, userinfo, hmem, ↓reduceIte]
    exact hmeets
  · have hall := all_ne_of_notMem hu'
    have hmeets := parseHostPort_meets { data with userinfo := u } (u ++ ['@']) hp h0
    simp only [List.append_assoc, List.cons_append, List.nil_append, List.length_append,
      List.length_cons, List.length_nil, Nat.zero_add] at hmeets
    simp only [hf, substr_prefix, ok_bind, host, portText, hostPort, userinfo, List.mem_append,
      List.mem_cons, true_or, or_true, ↓reduceIte, takeWhile_split hall,
      dropWhile_split hall, bne_self_eq_false, List.tail_cons]
    exact hmeets

/-- An authority adds its userinfo, host and port, and nothing else. -/
theorem withAuthority_eq {scheme auth : Str} {data : URIData}
    (h : withAuthority { scheme } auth = some data) :
    ∃ userinfo host port, data = { scheme, userinfo, host, port } := by
  unfold withAuthority at h
  split at h
  · cases h
  · obtain ⟨p, -, rfl⟩ := Option.map_eq_some_iff.mp h
    exact ⟨_, _, p, rfl⟩

/-! ## The loop from each state on -/

/-- `_parseURI` from the state `s` of its loop on. -/
def finish (fuel : Nat) (s : ParseState) : Res URIData := do
  let s ← whileLoop .fuel (fun s : ParseState => !s.input.isEmpty) parseStep fuel s
  pure s.data

theorem finish_nil (fuel : Nat) (part : URIPart) (data : URIData) :
    finish fuel ⟨part, [], data⟩ = .ok data := by
  rw [finish, whileLoop_done _ rfl]; rfl

theorem finish_next {s s' : ParseState} (fuel : Nat) (hne : s.input ≠ [])
    (hs : parseStep s = .ok s') : finish (fuel + 1) s = finish fuel s' := by
  rw [finish, whileLoop_next _ (by simpa using hne) hs]; rfl

theorem finish_throw {s : ParseState} {e : Exn} (fuel : Nat) (hne : s.input ≠ [])
    (hs : parseStep s = .error e) : finish (fuel + 1) s = .error e := by
  rw [finish, whileLoop_throw _ (by simpa using hne) hs]; rfl

theorem finish_fragment (fuel : Nat) (data : URIData) (f : Str) :
    finish (fuel + 1) ⟨.fragment, '#' :: f, data⟩ = .ok { data with fragment := f } := by
  have hs : parseStep ⟨.fragment, '#' :: f, data⟩ =
      .ok ⟨.fragment, [], { data with fragment := f }⟩ := by
    simp [parseStep, parseURIPart_fragment]
  rw [finish_next fuel (by simp) hs, finish_nil]

/-- From the query on, at a `?`. -/
theorem finish_query (fuel : Nat) {data : URIData} (q : Str) (hf : data.fragment = []) :
    finish (fuel + 2) ⟨.query, '?' :: q, data⟩ =
      .ok { data with
        query := q.takeWhile (· != '#')
        queryMap := queryMapOf (q.takeWhile (· != '#'))
        fragment := (q.dropWhile (· != '#')).tail } := by
  have hs : parseStep ⟨.query, '?' :: q, data⟩ = .ok ⟨.fragment, q.dropWhile (· != '#'),
      { data with
        query := q.takeWhile (· != '#')
        queryMap := queryMapOf (q.takeWhile (· != '#')) }⟩ := by
    simp [parseStep, parseURIPart_query, parseQueryMap_eq]
  rw [finish_next (fuel + 1) (by simp) hs]
  cases hd : q.dropWhile (· != '#') with
  | nil => rw [finish_nil, List.tail_nil, ← hf]
  | cons c f =>
    have hstop := List.head?_dropWhile_not (· != '#') q
    rw [hd] at hstop
    obtain rfl : c = '#' := by simpa using hstop
    rw [finish_fragment, List.tail_cons]

/-- From the query on, at a `#`. -/
theorem finish_query_hash (fuel : Nat) {data : URIData} (f : Str) (hq : data.query = [])
    (hm : data.queryMap = ∅) :
    finish (fuel + 2) ⟨.query, '#' :: f, data⟩ = .ok { data with fragment := f } := by
  have hs : parseStep ⟨.query, '#' :: f, data⟩ = .ok ⟨.fragment, '#' :: f, data⟩ := by
    have hdata : { data with query := [], queryMap := ∅ } = data := by rw [← hq, ← hm]
    simp [parseStep, parseURIPart_query_hash, parseQueryMap_eq, hdata]
  rw [finish_next (fuel + 1) (by simp) hs, finish_fragment]

/-- From the path on: the path, the query and the fragment. -/
theorem finish_path (fuel : Nat) (scheme userinfo host : Str) (port : UInt16) (r : Str) :
    finish (fuel + 3) ⟨.path, r, { scheme, userinfo, host, port }⟩ =
      .ok (withPath { scheme, userinfo, host, port } r) := by
  by_cases hr : r = []
  · subst hr
    rw [finish_nil]
    simp [withPath, path, query, fragment, afterPath]
  have hs : parseStep ⟨.path, r, { scheme, userinfo, host, port }⟩ =
      .ok ⟨.query, afterPath r, { scheme, userinfo, host, port, path := path r }⟩ := by
    simp [parseStep, parseURIPart_path]
  rw [finish_next (fuel + 2) hr hs]
  cases hd : afterPath r with
  | nil => rw [finish_nil]; simp [withPath, query, fragment, hd]
  | cons c t =>
    have hstop := List.head?_dropWhile_not (free "?#".toList) r
    rw [show r.dropWhile _ = c :: t from hd] at hstop
    have hc : c = '?' ∨ c = '#' := by
      simpa [free, or_iff_not_imp_left] using hstop
    rcases hc with rfl | rfl
    · rw [finish_query fuel t rfl]; simp [withPath, query, fragment, hd]
    · rw [finish_query_hash fuel t rfl rfl]; simp [withPath, query, fragment, hd]

/-- From the authority on. -/
theorem finish_authority (scheme r : Str) :
    Meets (finish 4 ⟨.authority, r, { scheme }⟩) (do
      let auth := r.takeWhile (free "/?#".toList)
      let data ← if auth = [] then some { scheme } else withAuthority { scheme } auth
      some (withPath data (r.dropWhile (free "/?#".toList)))) := by
  by_cases hr : r = []
  · subst hr; rw [finish_nil]; rfl
  by_cases ha : r.takeWhile (free "/?#".toList) = []
  · have hs : parseStep ⟨.authority, r, { scheme }⟩ =
        .ok ⟨.path, r.dropWhile (free "/?#".toList), { scheme }⟩ := by
      simp only [parseStep, parseURIPart_authority, ok_bind, ha, ↓reduceIte, pure_eq]
    rw [finish_next 3 hr hs, finish_path]
    simp only [ha, ↓reduceIte]
    rfl
  · have hmeets := parseAuthority_meets (r.takeWhile (free "/?#".toList))
      (rfl : ({ scheme } : URIData).userinfo = []) rfl
    have hs : parseStep ⟨.authority, r, { scheme }⟩ = (do
        let data ← parseAuthority { scheme } (r.takeWhile (free "/?#".toList))
        pure ⟨.path, r.dropWhile (free "/?#".toList), data⟩) := by
      simp only [parseStep, parseURIPart_authority, ok_bind, ha, ↓reduceIte]
    simp only [ha, ↓reduceIte]
    cases hw : withAuthority { scheme } (r.takeWhile (free "/?#".toList)) with
    | none =>
      rw [hw] at hmeets
      obtain ⟨e, he, hex⟩ := hmeets
      rw [he, error_bind] at hs
      exact ⟨e, finish_throw 3 hr hs, hex⟩
    | some data =>
      rw [hw] at hmeets
      rw [show parseAuthority _ _ = .ok data from hmeets, ok_bind] at hs
      obtain ⟨u, h, p, rfl⟩ := withAuthority_eq hw
      rw [finish_next 3 hr hs, finish_path]
      rfl

/-- `_parseURI` gives the parts of a nonempty string. -/
theorem parseURI_meets {s : Str} (hs : s ≠ []) : Meets (parseURI s) (parts s) := by
  show Meets (finish 5 ⟨.scheme, s, {}⟩) (parts s)
  have hstep : parseStep ⟨.scheme, s, {}⟩ = (parseURIPart s .scheme >>= fun p =>
      if badScheme (toLower p.2.2) then .error (.invalidArgument [])
      else pure ⟨if toLower p.2.2 = "file".toList ∨ toLower p.2.2 = [] then .path else .authority,
        p.2.1, { scheme := toLower p.2.2 }⟩) := rfl
  rw [parseURIPart_scheme] at hstep
  unfold parts Grammar.scheme
  cases hsplit : splitScheme s with
  | none =>
    rw [hsplit] at hstep
    rw [finish_next 4 hs hstep]
    exact finish_path 1 [] [] [] 0 s
  | some tr =>
    obtain ⟨t, r⟩ := tr
    have hne := (splitScheme_eq_some_iff.mp hsplit).2.1
    rw [hsplit] at hstep
    simp only [ok_bind, badScheme_toLower hne] at hstep
    dsimp only
    cases hscheme : isScheme t with
    | false =>
      rw [hscheme] at hstep
      exact ⟨_, finish_throw 4 hs hstep, rfl⟩
    | true =>
      rw [hscheme] at hstep
      rw [finish_next 4 hs hstep]
      have hnil : toLower t ≠ [] := by simpa [toLower] using hne
      by_cases hfile : toLower t = "file".toList
      · have hno : hasAuthority (toLower t) = false := by simp [hasAuthority, hfile]
        simp only [hfile, true_or, ↓reduceIte]
        rw [hfile] at hno
        simp only [authority, afterAuthority, hno, Bool.false_eq_true, ↓reduceIte,
          Option.bind_eq_bind, Option.bind_some]
        exact finish_path 1 _ [] [] 0 r
      · have hyes := hasAuthority_iff.mpr ⟨hnil, hfile⟩
        rw [if_neg (by rintro (h | h); exacts [hfile h, hnil h])]
        simp only [authority, afterAuthority, hyes, ↓reduceIte, Option.bind_eq_bind,
          Option.bind_some]
        exact finish_authority (toLower t) r

/-- A string is accepted with the parts that the grammar gives it. -/
theorem URI_eq_ok_iff {s : Str} {u : URIData} : URI s = .ok u ↔ parts s = some u := by
  unfold URI
  by_cases hs : s = []
  · subst hs
    rw [if_pos rfl, show parts [] = some {} from rfl]
    simp
  rw [if_neg hs]
  have hmeets := parseURI_meets hs
  cases hp : parts s with
  | some data =>
    rw [hp] at hmeets
    rw [show parseURI s = .ok data from hmeets]
    simp
  | none =>
    rw [hp] at hmeets
    obtain ⟨e, he, hex⟩ := hmeets
    rw [he]
    simp

/-- **The parser is its grammar.** `URI(s)` gives the parts of `s`; it throws `uri_parse(s)`
exactly when `s` has none. -/
theorem URI_eq_parts (s : Str) :
    URI s = match parts s with
      | some data => .ok data
      | none => .error (uriParse s) := by
  cases hp : parts s with
  | some data => exact URI_eq_ok_iff.mpr hp
  | none =>
    have hs : s ≠ [] := by rintro rfl; cases hp
    have hmeets := parseURI_meets hs
    rw [hp] at hmeets
    obtain ⟨e, he, hex⟩ := hmeets
    unfold URI
    rw [if_neg hs, he]
    simp [hex]

end Servus.Uri
