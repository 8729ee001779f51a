import Servus.Uri.Grammar

/-!
# Printing a URI and parsing it back

`parts_toString`: the printed form of a `Printable` URI has exactly that URI's parts. No
character of a component can be taken for a delimiter of another: the `://` behind the scheme is
the first, the authority has no `/`, `?` and `#`, its userinfo no `@` and its host no `:`, the
path no `?` and `#`, and the query no `#`.

* A URI built by the setters from the components of a well-formed `Shape` is printable, so it
  survives printing (`build_toString`).
* A parsed URI is printable, with one exception: an empty userinfo is printed without its `@`,
  so a host with an `@` then loses the text before it (`HiddenUserinfo`). `roundTrip_iff` says
  that this is the only one.
-/

namespace Servus.Uri

open Cpp Grammar

/-- `t` has none of the characters of `set`. -/
def FreeOf (set t : Str) : Prop := ∀ c ∈ t, c ∉ set

theorem FreeOf.mono {big small t : Str} (h : FreeOf big t) (hsub : ∀ c ∈ small, c ∈ big) :
    FreeOf small t := fun c hc hs => h c hc (hsub c hs)

/-- What `operator<<` prints behind the authority. -/
def printPath (u : URIData) : Str :=
  u.path ++ (if u.query = [] then [] else '?' :: u.query) ++
    (if u.fragment = [] then [] else '#' :: u.fragment)

theorem toString_eq (u : URIData) :
    toString u = (if u.scheme = [] then [] else u.scheme ++ "://".toList) ++
      ((if u.host = [] then [] else printAuthority u) ++ printPath u) := by
  simp [toString, printPath, List.append_assoc]

/-! ## The path, the query and the fragment -/

/-- The text behind the path: nothing, or a `?` or `#` with what follows it. -/
def printQuery (u : URIData) : Str :=
  (if u.query = [] then [] else '?' :: u.query) ++
    (if u.fragment = [] then [] else '#' :: u.fragment)

theorem printPath_eq (u : URIData) : printPath u = u.path ++ printQuery u := by
  simp [printPath, printQuery]

theorem printQuery_head (u : URIData) :
    printQuery u = [] ∨ (∃ t, printQuery u = '?' :: t) ∨ ∃ t, printQuery u = '#' :: t := by
  unfold printQuery
  by_cases hq : u.query = []
  · by_cases hf : u.fragment = []
    · simp [hq, hf]
    · simp [hq, hf]
  · simp [hq]

theorem path_printPath {u : URIData} (hp : FreeOf "?#".toList u.path) :
    path (printPath u) = u.path ∧ afterPath (printPath u) = printQuery u := by
  have hfree := not_mem_of_free hp
  rw [printPath_eq, path, afterPath]
  rcases printQuery_head u with hn | ⟨t, ht⟩ | ⟨t, ht⟩
  · rw [hn, List.append_nil]
    exact ⟨List.takeWhile_eq_self_iff.mpr hfree, List.dropWhile_eq_nil_iff.mpr hfree⟩
  · rw [ht]; exact ⟨takeWhile_split hfree rfl, dropWhile_split hfree rfl⟩
  · rw [ht]; exact ⟨takeWhile_split hfree rfl, dropWhile_split hfree rfl⟩

/-- The printed path, query and fragment are read back. -/
theorem withPath_printPath {u : URIData} (data : URIData) (hp : FreeOf "?#".toList u.path)
    (hq : FreeOf "#".toList u.query) :
    withPath data (printPath u) =
      { data with
        path := u.path
        query := u.query
        queryMap := queryMapOf u.query
        fragment := u.fragment } := by
  obtain ⟨hpath, hafter⟩ := path_printPath hp
  have hall : ∀ x ∈ u.query, (x != '#') = true := fun x hx => by simpa using hq x hx
  have hquery : query (printPath u) = u.query ∧ fragment (printPath u) = u.fragment := by
    rw [query, fragment, hafter, printQuery]
    by_cases hq0 : u.query = []
    · by_cases hf : u.fragment = [] <;> simp [hq0, hf]
    · by_cases hf : u.fragment = []
      · simp [hq0, hf, List.takeWhile_eq_self_iff.mpr hall, List.dropWhile_eq_nil_iff.mpr hall]
      · simp [hq0, hf, takeWhile_split hall, dropWhile_split hall]
  rw [withPath, hpath, hquery.1, hquery.2]

/-! ## The authority -/

theorem port_printPort {port : UInt16} : Grammar.port (some (printPort port)) = some port := by
  have h := strtol_toDigits (show port.toNat < 2 ^ 63 by have := port.toNat_lt; omega)
  simp only [Grammar.port, printPort, h, Nat.toDigits_ne_nil, ne_eq, not_false_eq_true,
    and_self, ↓reduceIte, Option.some.injEq]
  have hmod : ((port.toNat : Int) % 2 ^ 16).toNat = port.toNat := by
    have := port.toNat_lt; omega
  rw [hmod]
  exact UInt16.ofNat_toNat

/-- The text behind the userinfo: the host, and a port other than `0`. -/
def printHostPort (u : URIData) : Str :=
  u.host ++ (if u.port = 0 then [] else ':' :: printPort u.port)

theorem printAuthority_eq (u : URIData) :
    printAuthority u =
      (if u.userinfo = [] then [] else u.userinfo ++ ['@']) ++ printHostPort u := by
  simp [printAuthority, printHostPort, List.append_assoc]

/-- A digit is none of the delimiters. -/
theorem printPort_freeOf (port : UInt16) : FreeOf "@:/?#".toList (printPort port) := by
  intro c hc hmem
  have hd := isDigitOf_toDigits 10 (by decide) (by decide) port.toNat c hc
  have hno : "@:/?#".toList.all (!Char.isAlphanum ·) = true := by decide
  exact ne_of_isDigitOf hd (by simpa using List.all_eq_true.mp hno c hmem) rfl

theorem mem_printHostPort {u : URIData} {c : Char} (h : c ∈ printHostPort u) :
    c ∈ u.host ∨ c = ':' ∨ c ∈ printPort u.port := by
  unfold printHostPort at h
  rcases List.mem_append.mp h with h | h
  · exact .inl h
  · split at h
    · cases h
    · rcases List.mem_cons.mp h with h | h
      · exact .inr (.inl h)
      · exact .inr (.inr h)

theorem printHostPort_split {u : URIData} (hh : FreeOf ":/?#".toList u.host) :
    (printHostPort u).takeWhile (· != ':') = u.host ∧
      Grammar.port (if ':' ∈ printHostPort u then
        some ((printHostPort u).dropWhile (· != ':')).tail else none) = some u.port := by
  have hall : ∀ x ∈ u.host, (x != ':') = true := fun x hx => by
    have := hh x hx
    simp only [bne_iff_ne, ne_eq]
    rintro rfl
    exact this (by decide)
  unfold printHostPort
  by_cases h0 : u.port = 0
  · have hno : ':' ∉ u.host := fun hc => by simpa using hall ':' hc
    simp [h0, hno, List.takeWhile_eq_self_iff.mpr hall, Grammar.port]
  · simp only [h0, ↓reduceIte, List.mem_append, List.mem_cons, true_or, or_true]
    rw [takeWhile_split hall (by simp), dropWhile_split hall (by simp), List.tail_cons]
    exact ⟨rfl, port_printPort⟩

/-- The printed authority is read back. Without a userinfo its first `@` would be taken for the
end of one, so the host may have none. -/
theorem withAuthority_printAuthority {u : URIData} (scheme : Str) (hne : u.host ≠ [])
    (hh : FreeOf ":/?#".toList u.host) (hu : '@' ∉ u.userinfo)
    (hat : u.userinfo = [] → '@' ∉ u.host) :
    withAuthority { scheme } (printAuthority u) =
      some { scheme, userinfo := u.userinfo, host := u.host, port := u.port } := by
  obtain ⟨hhost, hport⟩ := printHostPort_split hh
  have hsplit : userinfo (printAuthority u) = u.userinfo ∧
      hostPort (printAuthority u) = printHostPort u := by
    rw [printAuthority_eq, userinfo, hostPort]
    by_cases h0 : u.userinfo = []
    · have hno : '@' ∉ printHostPort u := fun hc => by
        rcases mem_printHostPort hc with hc | hc | hc
        · exact hat h0 hc
        · cases hc
        · exact printPort_freeOf _ _ hc (by decide)
      simp [h0, hno]
    · have hall := all_ne_of_notMem hu
      simp [h0, takeWhile_split hall, dropWhile_split hall]
  simp only [withAuthority, host, portText, hsplit.1, hsplit.2, hhost, hport, hne, ↓reduceIte,
    Option.map_some]

theorem printAuthority_freeOf {u : URIData} (hh : FreeOf ":/?#".toList u.host)
    (hu : FreeOf "@/?#".toList u.userinfo) : FreeOf "/?#".toList (printAuthority u) := by
  intro c hc
  rw [printAuthority_eq] at hc
  rcases List.mem_append.mp hc with hc | hc
  · split at hc
    · cases hc
    · rcases List.mem_append.mp hc with hc | hc
      · exact hu.mono (by simp) c hc
      · rw [List.mem_singleton.mp hc]; decide
  · rcases mem_printHostPort hc with hc | rfl | hc
    · exact hh.mono (by simp) c hc
    · decide
    · exact (printPort_freeOf _).mono (by simp) c hc

theorem printAuthority_ne_nil {u : URIData} (hne : u.host ≠ []) : printAuthority u ≠ [] := by
  simp [printAuthority, hne]

/-! ## Printable URIs -/

/-- A path that can follow an authority. -/
def IsAbsolute (path : Str) : Prop := path = [] ∨ path.head? = some '/'

/-- The scheme and the authority of a URI that printing keeps. -/
inductive PrintableFront (u : URIData) : Prop
  /-- A host, under a scheme other than `file`. -/
  | host (hs : isScheme u.scheme = true) (hl : toLower u.scheme = u.scheme)
      (hf : u.scheme ≠ "file".toList) (hne : u.host ≠ []) (hh : FreeOf ":/?#".toList u.host)
      (hu : FreeOf "@/?#".toList u.userinfo) (hat : u.userinfo = [] → '@' ∉ u.host)
      (hp : IsAbsolute u.path)
  /-- A scheme and no host. -/
  | noHost (hs : isScheme u.scheme = true) (hl : toLower u.scheme = u.scheme)
      (h0 : u.host = []) (hu : u.userinfo = []) (hport : u.port = 0)
      (hp : u.scheme ≠ "file".toList → IsAbsolute u.path)
  /-- Only a path, which may not look as if it started with a scheme. -/
  | relative (hs : u.scheme = []) (h0 : u.host = []) (hu : u.userinfo = []) (hport : u.port = 0)
      (hp : ∀ x y, u.path = x ++ "://".toList ++ y → x = [] ∨ '/' ∈ x)

/-- A URI whose printed form has exactly its parts (`parts_toString`). -/
structure Printable (u : URIData) : Prop where
  front : PrintableFront u
  path : FreeOf "?#".toList u.path
  query : FreeOf "#".toList u.query
  queryMap : u.queryMap = queryMapOf u.query

theorem isScheme_freeOf {t : Str} (h : isScheme t = true) : t ≠ [] ∧ FreeOf "/?#".toList t := by
  cases t with
  | nil => cases h
  | cons c cs =>
    simp only [isScheme, Bool.and_eq_true, List.all_eq_true] at h
    have hno : "/?#".toList.all (!isSchemeChar ·) = true := by decide
    refine ⟨by simp, fun d hd hmem => ?_⟩
    have hd' : isSchemeChar d = false := by simpa using List.all_eq_true.mp hno d hmem
    rcases List.mem_cons.mp hd with rfl | hd
    · simp [isSchemeChar, Char.isAlphanum, h.1] at hd'
    · rw [h.2 d hd] at hd'; cases hd'

/-- A printed scheme is read back. -/
theorem scheme_append {t : Str} (h : isScheme t = true) (hl : toLower t = t) (r : Str) :
    Grammar.scheme (t ++ "://".toList ++ r) = some (t, r) := by
  have hsplit := splitScheme_eq_some_iff.mpr
    ⟨(rfl : t ++ "://".toList ++ r = _), (isScheme_freeOf h).1, (isScheme_freeOf h).2⟩
  rw [Grammar.scheme, hsplit]
  simp only [h, ↓reduceIte, hl]

/-- What follows the authority starts with one of its delimiters. -/
theorem printPath_head {u : URIData} (hp : IsAbsolute u.path) :
    printPath u = [] ∨ ∃ c t, printPath u = c :: t ∧ c ∈ "/?#".toList := by
  rw [printPath_eq]
  rcases hp with hp | hp
  · rw [hp, List.nil_append]
    rcases printQuery_head u with hn | ⟨t, ht⟩ | ⟨t, ht⟩
    · exact .inl hn
    · exact .inr ⟨_, t, ht, by simp⟩
    · exact .inr ⟨_, t, ht, by simp⟩
  · cases hpath : u.path with
    | nil => rw [hpath] at hp; cases hp
    | cons c t =>
      rw [hpath] at hp
      obtain rfl : c = '/' := by simpa using hp
      exact .inr ⟨_, _, rfl, by simp⟩

/-- An authority is cut off in front of the path. -/
theorem authority_append {u : URIData} {auth scheme : Str} (hs : hasAuthority scheme = true)
    (ha : FreeOf "/?#".toList auth) (hp : IsAbsolute u.path) :
    authority scheme (auth ++ printPath u) = auth ∧
      afterAuthority scheme (auth ++ printPath u) = printPath u := by
  have hfree := not_mem_of_free ha
  simp only [authority, afterAuthority, hs, ↓reduceIte]
  rcases printPath_head hp with hn | ⟨c, t, ht, hc⟩
  · rw [hn, List.append_nil]
    exact ⟨List.takeWhile_eq_self_iff.mpr hfree, List.dropWhile_eq_nil_iff.mpr hfree⟩
  · have hc' : free "/?#".toList c = false := by
      simp only [free, Bool.not_eq_false', List.contains_iff_mem]; exact hc
    rw [ht]
    exact ⟨takeWhile_split hfree hc', dropWhile_split hfree hc'⟩

/-- A path that does not look like one is not taken for a scheme. -/
theorem scheme_printPath {u : URIData} (hpath : FreeOf "?#".toList u.path)
    (hp : ∀ x y, u.path = x ++ "://".toList ++ y → x = [] ∨ '/' ∈ x) :
    Grammar.scheme (printPath u) = some ([], printPath u) := by
  rw [Grammar.scheme]
  cases hsplit : splitScheme (printPath u) with
  | none => rfl
  | some tr =>
    -- The scheme text and its `://` have no `?` and `#`, so they stand inside the path.
    obtain ⟨t, r⟩ := tr
    obtain ⟨heq, hne, hfree⟩ := splitScheme_eq_some_iff.mp hsplit
    have hin : ∀ c ∈ t ++ "://".toList, free "?#".toList c = true := by
      intro c hc
      rcases List.mem_append.mp hc with hc | hc
      · exact not_mem_of_free (FreeOf.mono hfree (by simp)) c hc
      · have hall : "://".toList.all (free "?#".toList ·) = true := by decide
        exact List.all_eq_true.mp hall c hc
    have hfront := (path_printPath hpath).1
    rw [heq, Grammar.path, List.takeWhile_append_of_pos hin] at hfront
    rcases hp t _ hfront.symm with h | h
    · exact absurd h hne
    · exact absurd (by decide) (hfree '/' h)

/-- **Printing is undone by parsing**, for every printable URI. -/
theorem parts_toString {u : URIData} (h : Printable u) : parts (toString u) = some u := by
  obtain ⟨hfront, hpath, hquery, hmap⟩ := h
  have htail : ∀ data : URIData, data.scheme = u.scheme → data.userinfo = u.userinfo →
      data.host = u.host → data.port = u.port → withPath data (printPath u) = u := by
    intro data h1 h2 h3 h4
    rw [withPath_printPath data hpath hquery, h1, h2, h3, h4, ← hmap]
  have hauth : ∀ {t : Str}, isScheme t = true → t ≠ "file".toList → hasAuthority t = true := by
    intro t hs hf
    exact hasAuthority_iff.mpr ⟨(isScheme_freeOf hs).1, hf⟩
  rw [toString_eq]
  unfold parts
  cases hfront with
  | host hs hl hf hne hh hu hat hp =>
    obtain ⟨ha, hafter⟩ := authority_append (hauth hs hf) (printAuthority_freeOf hh hu) hp
    rw [if_neg (isScheme_freeOf hs).1, if_neg hne, scheme_append hs hl]
    simp only [Option.bind_eq_bind, Option.bind_some, ha, hafter]
    rw [if_neg (printAuthority_ne_nil hne),
      withAuthority_printAuthority _ hne hh (fun hc => hu '@' hc (by decide)) hat,
      Option.bind_some]
    exact congrArg some (htail _ rfl rfl rfl rfl)
  | noHost hs hl h0 hu hport hp =>
    rw [if_neg (isScheme_freeOf hs).1, if_pos h0, scheme_append hs hl]
    simp only [Option.bind_eq_bind, Option.bind_some]
    by_cases hf : u.scheme = "file".toList
    · have hno : hasAuthority u.scheme = false := by simp [hasAuthority, hf]
      simp only [authority, afterAuthority, hno, Bool.false_eq_true, ↓reduceIte,
        List.nil_append]
      exact congrArg some (htail _ rfl hu.symm h0.symm hport.symm)
    · obtain ⟨ha, hafter⟩ :=
        authority_append (hauth hs hf) (show FreeOf _ [] by simp [FreeOf]) (hp hf)
      simp only [ha, hafter, ↓reduceIte]
      exact congrArg some (htail _ rfl hu.symm h0.symm hport.symm)
  | relative hs h0 hu hport hp =>
    rw [if_pos hs, if_pos h0, List.nil_append, List.nil_append, scheme_printPath hpath hp]
    have hno : hasAuthority [] = false := rfl
    simp only [Option.bind_eq_bind, Option.bind_some, authority, afterAuthority, hno,
      Bool.false_eq_true, ↓reduceIte]
    exact congrArg some (htail _ hs.symm hu.symm h0.symm hport.symm)

/-! ## URIs built by the setters -/

/-- The arguments of the setters. -/
structure Components where
  scheme : Str
  userinfo : Str
  host : Str
  port : UInt16
  path : Str
  query : Str
  fragment : Str
  deriving DecidableEq

def URIData.components (u : URIData) : Components :=
  ⟨u.scheme, u.userinfo, u.host, u.port, u.path, u.query, u.fragment⟩

/-- A default URI with every component set. -/
def build (c : Components) : Res URIData := do
  let u ← ((((({} : URIData).setScheme c.scheme).setUserInfo c.userinfo).setHost c.host).setPort
    c.port).setPath c.path |>.setQuery c.query
  pure (u.setFragment c.fragment)

/-- `[a-z][a-z0-9+.-]*`. -/
def isLowerScheme : Str → Bool
  | [] => false
  | c :: cs =>
    c.isLower && cs.all fun x => x.isLower || x.isDigit || x == '+' || x == '-' || x == '.'

/-- The component tuples that are well formed. -/
inductive Shape (c : Components) : Prop
  | host (hs : isLowerScheme c.scheme = true) (hf : c.scheme ≠ "file".toList)
      (hne : c.host ≠ []) (hh : FreeOf "@:/?#".toList c.host)
      (hu : FreeOf "@/?#".toList c.userinfo) (ha : IsAbsolute c.path)
      (hp : FreeOf "?#".toList c.path)
  | noHost (hs : isLowerScheme c.scheme = true) (hf : c.scheme ≠ "file".toList)
      (h0 : c.host = []) (hu : c.userinfo = []) (hport : c.port = 0) (ha : IsAbsolute c.path)
      (hp : FreeOf "?#".toList c.path)
  | file (hs : c.scheme = "file".toList) (h0 : c.host = []) (hu : c.userinfo = [])
      (hport : c.port = 0) (hp : FreeOf "?#".toList c.path)
  | relative (hs : c.scheme = []) (h0 : c.host = []) (hu : c.userinfo = []) (hport : c.port = 0)
      (hp : FreeOf "?#".toList c.path)
      (hno : ∀ x y, c.path = x ++ "://".toList ++ y → x = [] ∨ '/' ∈ x)

theorem isLowerScheme_isScheme {t : Str} (h : isLowerScheme t = true) :
    isScheme t = true ∧ toLower t = t := by
  cases t with
  | nil => cases h
  | cons c cs =>
    simp only [isLowerScheme, Bool.and_eq_true, List.all_eq_true, Bool.or_eq_true,
      beq_iff_eq] at h
    have hchar : ∀ d : Char, (((d.isLower = true ∨ d.isDigit = true) ∨ d = '+') ∨ d = '-') ∨
        d = '.' → isSchemeChar d = true ∧ d.toLower = d := by
      rintro d ((((hd | hd) | rfl) | rfl) | rfl)
      · exact ⟨by simp [isSchemeChar, Char.isAlphanum, Char.isAlpha, hd],
          Char.toLower_eq_of_not_isUpper (Char.not_isUpper_of_isLower hd)⟩
      · refine ⟨by simp [isSchemeChar, Char.isAlphanum, hd], ?_⟩
        refine isDigit_cases (P := fun d => d.toLower = d) hd fun n h1 h2 => ?_
        interval_cases n <;> decide
      all_goals decide
    constructor
    · simp only [isScheme, Bool.and_eq_true, List.all_eq_true]
      exact ⟨by simp [Char.isAlpha, h.1], fun d hd => (hchar d (h.2 d hd)).1⟩
    · rw [toLower, List.map_cons, (hchar c (by simp [h.1])).2]
      have hcs : cs.map Char.toLower = cs.map id :=
        List.map_congr_left fun d hd => (hchar d (h.2 d hd)).2
      rw [hcs, List.map_id]

/-- What the setters build. -/
theorem build_eq (c : Components) :
    build c = .ok
      { scheme := c.scheme, userinfo := c.userinfo, host := c.host, port := c.port
        path := c.path, query := c.query, fragment := c.fragment
        queryMap := queryMapOf c.query } := by
  simp [build, setQuery_eq, URIData.setScheme, URIData.setUserInfo, URIData.setHost,
    URIData.setPort, URIData.setPath, URIData.setFragment]

/-- **Parsing undoes printing for URIs built by the setters.** The components of a well-formed
shape, with a query without `#`, are set, printed and parsed back without an exception, query map
included. -/
theorem build_toString {c : Components} (hc : Shape c) (hq : FreeOf "#".toList c.query) :
    ∃ u, build c = .ok u ∧ URI (toString u) = .ok u ∧ u.components = c := by
  refine ⟨_, build_eq c, URI_eq_ok_iff.mpr (parts_toString ?_), rfl⟩
  cases hc with
  | host hs hf hne hh hu ha hp =>
    obtain ⟨hsch, hlow⟩ := isLowerScheme_isScheme hs
    refine ⟨.host hsch hlow hf hne (hh.mono (by simp)) hu (fun _ hat => ?_) ha, hp, hq, rfl⟩
    exact hh '@' hat (by simp)
  | noHost hs hf h0 hu hport ha hp =>
    obtain ⟨hsch, hlow⟩ := isLowerScheme_isScheme hs
    exact ⟨.noHost hsch hlow h0 hu hport fun _ => ha, hp, hq, rfl⟩
  | file hs h0 hu hport hp =>
    refine ⟨.noHost (by simp only [hs]; decide) (by simp only [hs]; decide) h0 hu hport ?_, hp, hq,
      rfl⟩
    exact fun hno => absurd hs hno
  | relative hs h0 hu hport hp hno => exact ⟨.relative hs h0 hu hport hno, hp, hq, rfl⟩

theorem build_toString_http :
    ∃ u, build ⟨"http".toList, "bob".toList, "h".toList, 80, "/p".toList, "k=v".toList,
        "f#g".toList⟩ = .ok u ∧ URI (toString u) = .ok u ∧
      u.components = ⟨"http".toList, "bob".toList, "h".toList, 80, "/p".toList, "k=v".toList,
        "f#g".toList⟩ :=
  build_toString
    (.host (by decide) (by decide) (by decide) (by simp [FreeOf]) (by simp [FreeOf]) (.inr rfl)
      (by simp [FreeOf]))
    (by simp [FreeOf])

/-! ## Parsed URIs -/

/-- The authority of `s` starts with an `@`, behind an empty userinfo, and its host has another
one. -/
def HiddenUserinfo (s : Str) : Prop :=
  ∃ x t, s = x ++ "://@".toList ++ t ∧ x ≠ [] ∧ FreeOf "/?#".toList x ∧
    toLower x ≠ "file".toList ∧ '@' ∈ t.takeWhile (free ":/?#".toList)

/-- The scheme of an accepted string: none, or the lower-cased text before `://`. -/
theorem scheme_eq_some {s t r : Str} (h : Grammar.scheme s = some (t, r)) :
    (t = [] ∧ r = s ∧ splitScheme s = none) ∨
      ∃ x, splitScheme s = some (x, r) ∧ t = toLower x ∧ isScheme t = true ∧ toLower t = t := by
  unfold Grammar.scheme at h
  cases hx : splitScheme s with
  | none =>
    rw [hx] at h
    simp only [Option.some.injEq, Prod.mk.injEq] at h
    exact .inl ⟨h.1.symm, h.2.symm, rfl⟩
  | some xr =>
    obtain ⟨x, r'⟩ := xr
    rw [hx] at h
    dsimp only at h
    split at h
    · rename_i hs
      simp only [Option.some.injEq, Prod.mk.injEq] at h
      obtain ⟨rfl, rfl⟩ := h
      exact .inr ⟨x, rfl, rfl, by rw [isScheme_toLower]; exact hs, toLower_toLower x⟩
    · cases h

theorem takeWhile_freeOf (set r : Str) : FreeOf set (r.takeWhile (free set)) := fun c hc hs => by
  have := List.mem_takeWhile_imp hc
  simp [free] at this
  exact this hs

/-- The path behind an authority starts with `/` or is empty. -/
theorem path_isAbsolute (r : Str) : IsAbsolute (path (r.dropWhile (free "/?#".toList))) := by
  cases hd : r.dropWhile (free "/?#".toList) with
  | nil => exact .inl rfl
  | cons c t =>
    have hstop := List.head?_dropWhile_not (free "/?#".toList) r
    rw [hd] at hstop
    have hc : c = '/' ∨ c = '?' ∨ c = '#' := by
      simpa [free, or_iff_not_imp_left] using hstop
    rcases hc with rfl | rfl | rfl
    · exact .inr rfl
    · exact .inl rfl
    · exact .inl rfl

/-- The path, the query and the fragment of an accepted string. -/
theorem withPath_freeOf (data : URIData) (r : Str) :
    FreeOf "?#".toList (withPath data r).path ∧ FreeOf "#".toList (withPath data r).query := by
  refine ⟨takeWhile_freeOf _ r, fun c hc hs => ?_⟩
  obtain rfl : c = '#' := by simpa using hs
  unfold withPath query at hc
  dsimp only at hc
  split at hc
  · simpa using List.mem_takeWhile_imp hc
  · cases hc

/-- The path of a string without a scheme does not look as if it had one. -/
theorem path_relative {s : Str} (h : splitScheme s = none) :
    ∀ x y, path s = x ++ "://".toList ++ y → x = [] ∨ '/' ∈ x := by
  intro x y hxy
  by_contra hno
  rw [not_or] at hno
  have hfree : FreeOf "/?#".toList x := fun c hc hs => by
    have hq := takeWhile_freeOf "?#".toList s c
      (show c ∈ path s by rw [hxy]; simp [hc])
    rcases (by simpa using hs : c = '/' ∨ c = '?' ∨ c = '#') with rfl | rfl | rfl
    · exact hno.2 hc
    · exact hq (by simp)
    · exact hq (by simp)
  have hs : s = x ++ "://".toList ++ (y ++ afterPath s) := by
    rw [← List.append_assoc, ← hxy]
    exact (List.takeWhile_append_dropWhile).symm
  rw [splitScheme_eq_some_iff.mpr ⟨hs, hno.1, hfree⟩] at h
  cases h

theorem mem_userinfo {auth : Str} {c : Char} (h : c ∈ userinfo auth) : c ∈ auth ∧ c ≠ '@' := by
  unfold userinfo at h
  split at h
  · exact ⟨(List.takeWhile_prefix _).subset h, by simpa using List.mem_takeWhile_imp h⟩
  · cases h

theorem mem_host {auth : Str} {c : Char} (h : c ∈ host auth) : c ∈ auth ∧ c ≠ ':' := by
  refine ⟨?_, by simpa using List.mem_takeWhile_imp h⟩
  have hmem : c ∈ hostPort auth := (List.takeWhile_prefix _).subset h
  unfold hostPort at hmem
  split at hmem
  · exact (List.dropWhile_suffix _).subset (List.mem_of_mem_tail hmem)
  · exact hmem

/-- An `@` in the host of an authority without userinfo stands behind a leading `@`. -/
theorem eq_cons_of_mem_host {auth : Str} (hu : userinfo auth = []) (hh : '@' ∈ host auth) :
    ∃ hp, auth = '@' :: hp ∧ '@' ∈ hp.takeWhile (· != ':') := by
  have hat : '@' ∈ auth := (mem_host hh).1
  rw [host, hostPort, if_pos hat] at hh
  rw [userinfo, if_pos hat] at hu
  cases auth with
  | nil => cases hat
  | cons c hp =>
    by_cases hc : c = '@'
    · subst hc
      exact ⟨hp, rfl, by simpa using hh⟩
    · simp [hc] at hu

/-- The host behind a leading `@`, read from the rest of the string. -/
theorem takeWhile_host (t : Str) :
    (t.takeWhile (free "/?#".toList)).takeWhile (· != ':') = t.takeWhile (free ":/?#".toList) := by
  rw [List.takeWhile_takeWhile]
  congr 1
  funext c
  simp [free, Bool.and_comm]

/-- A parsed URI is printable, unless an empty userinfo hides an `@` of the host. -/
theorem printable_of_parts {s : Str} {u : URIData} (h : parts s = some u)
    (hn : ¬ HiddenUserinfo s) : Printable u := by
  obtain ⟨scheme, r, hs, hcase⟩ := parts_eq_some_iff.mp h
  rcases hcase with ⟨ha, rfl⟩ | ⟨ha, hhost, port, -, rfl⟩
  · refine ⟨?_, (withPath_freeOf _ _).1, (withPath_freeOf _ _).2, rfl⟩
    rcases scheme_eq_some hs with ⟨rfl, rfl, hnone⟩ | ⟨x, -, rfl, hsch, hlow⟩
    · exact .relative rfl rfl rfl rfl (path_relative hnone)
    · refine .noHost hsch hlow rfl rfl rfl fun hf => ?_
      have hyes := hasAuthority_iff.mpr ⟨(isScheme_freeOf hsch).1, hf⟩
      rw [afterAuthority, if_pos hyes]
      exact path_isAbsolute r
  · have hyes : hasAuthority scheme = true := by
      by_contra hno
      exact ha (by rw [authority, if_neg hno])
    rcases scheme_eq_some hs with ⟨rfl, -, -⟩ | ⟨x, hx, rfl, hsch, hlow⟩
    · cases hyes
    have hfile := (hasAuthority_iff.mp hyes).2
    have hauth : authority (toLower x) r = r.takeWhile (free "/?#".toList) := by
      rw [authority, if_pos hyes]
    rw [hauth] at hhost ⊢
    have hfree := takeWhile_freeOf "/?#".toList r
    refine ⟨?_, (withPath_freeOf _ _).1, (withPath_freeOf _ _).2, rfl⟩
    refine .host hsch hlow hfile hhost ?_ ?_ ?_ ?_
    · intro c hc hset
      obtain ⟨hmem, hne⟩ := mem_host hc
      rcases (by simpa using hset : c = ':' ∨ c = '/' ∨ c = '?' ∨ c = '#') with h | h | h | h
      · exact hne h
      all_goals exact hfree c hmem (by simp [h])
    · intro c hc hset
      obtain ⟨hmem, hne⟩ := mem_userinfo hc
      rcases (by simpa using hset : c = '@' ∨ c = '/' ∨ c = '?' ∨ c = '#') with h | h | h | h
      · exact hne h
      all_goals exact hfree c hmem (by simp [h])
    · intro hu hat
      obtain ⟨hp, hcons, hmem⟩ := eq_cons_of_mem_host hu hat
      cases r with
      | nil => cases hcons
      | cons c t =>
        by_cases hc : free "/?#".toList c = true
        · rw [List.takeWhile_cons, if_pos hc, List.cons.injEq] at hcons
          obtain ⟨rfl, rfl⟩ := hcons
          obtain ⟨heq, hne, hx'⟩ := splitScheme_eq_some_iff.mp hx
          refine hn ⟨x, t, ?_, hne, hx', hfile, ?_⟩
          · rw [heq]; simp
          · rw [← takeWhile_host]; exact hmem
        · rw [List.takeWhile_cons, if_neg hc] at hcons
          cases hcons
    · rw [afterAuthority, if_pos hyes]
      exact path_isAbsolute r

/-- Printed without its empty userinfo, a host with an `@` is read back without the text before
it. -/
theorem host_printAuthority_ne {u : URIData} (hu : u.userinfo = [])
    (hh : FreeOf ":/?#".toList u.host) (hat : '@' ∈ u.host) : host (printAuthority u) ≠ u.host := by
  rcases findChar_cases '@' u.host with ⟨-, hno⟩ | ⟨a, b, heq, ha, -⟩
  · exact absurd hat hno
  have hall := all_ne_of_notMem ha
  have hb : ∀ x ∈ b, (x != ':') = true := fun x hx => by
    simpa using fun e : x = ':' => hh x (by rw [heq]; simp [hx]) (by simp [e])
  have hport : hostPort (printAuthority u) =
      b ++ (if u.port = 0 then [] else ':' :: printPort u.port) := by
    have hp : printAuthority u =
        a ++ '@' :: (b ++ (if u.port = 0 then [] else ':' :: printPort u.port)) := by
      simp [printAuthority, hu, heq]
    rw [hostPort, hp, if_pos (by simp), dropWhile_split hall (by simp), List.tail_cons]
  have hhost : host (printAuthority u) = b := by
    rw [host, hport]
    split
    · rw [List.append_nil]; exact List.takeWhile_eq_self_iff.mpr hb
    · exact takeWhile_split hb (by simp)
  rw [hhost, heq]
  intro hlen
  have := congrArg List.length hlen
  simp at this
  omega

/-- A URI with a hidden `@` is not read back. -/
theorem parts_toString_ne {s : Str} {u : URIData} (h : parts s = some u)
    (hn : HiddenUserinfo s) : parts (toString u) ≠ some u := by
  obtain ⟨x, t, rfl, hne, hfree, hfile, hat⟩ := hn
  have hsplit : splitScheme (x ++ "://@".toList ++ t) = some (x, '@' :: t) :=
    splitScheme_eq_some_iff.mpr ⟨by simp, hne, hfree⟩
  obtain ⟨scheme, r, hs, hcase⟩ := parts_eq_some_iff.mp h
  rcases scheme_eq_some hs with ⟨-, -, hnone⟩ | ⟨x', hx', rfl, hsch, hlow⟩
  · rw [hsplit] at hnone; cases hnone
  rw [hsplit] at hx'
  cases hx'
  have hyes := hasAuthority_iff.mpr ⟨(isScheme_freeOf hsch).1, hfile⟩
  have hauth : authority (toLower x) ('@' :: t) = '@' :: t.takeWhile (free "/?#".toList) := by
    rw [authority, if_pos hyes, List.takeWhile_cons, if_pos (by decide)]
  have hhost : host ('@' :: t.takeWhile (free "/?#".toList)) =
      t.takeWhile (free ":/?#".toList) := by
    rw [← takeWhile_host, host, hostPort, if_pos (by simp)]
    simp
  rcases hcase with ⟨h0, -⟩ | ⟨-, hne', port, -, hu⟩
  · rw [hauth] at h0; cases h0
  rw [hauth, hhost] at hu
  rw [hauth, hhost] at hne'
  have huser : u.userinfo = [] := by rw [hu]; simp [withPath, userinfo]
  have huhost : u.host = t.takeWhile (free ":/?#".toList) := by rw [hu]; rfl
  have huscheme : u.scheme = toLower x := by rw [hu]; rfl
  have hupath : IsAbsolute u.path := by
    rw [hu, afterAuthority, if_pos hyes]
    exact path_isAbsolute _
  have hfreeHost : FreeOf ":/?#".toList u.host := by rw [huhost]; exact takeWhile_freeOf _ _
  -- The printed form has the authority `printAuthority u`, whose host is another one.
  intro hback
  rw [toString_eq, if_neg (by rw [huscheme]; exact (isScheme_freeOf hsch).1),
    if_neg (by rw [huhost]; exact hne'), huscheme] at hback
  obtain ⟨scheme', r', hs', hcase'⟩ := parts_eq_some_iff.mp hback
  rw [scheme_append hsch hlow] at hs'
  simp only [Option.some.injEq, Prod.mk.injEq] at hs'
  obtain ⟨rfl, rfl⟩ := hs'
  obtain ⟨ha, -⟩ := authority_append hyes
    (printAuthority_freeOf hfreeHost (by rw [huser]; simp [FreeOf])) hupath
  rw [ha] at hcase'
  rcases hcase' with ⟨h0, -⟩ | ⟨-, -, port', -, hu'⟩
  · exact printAuthority_ne_nil (by rw [huhost]; exact hne') h0
  · refine host_printAuthority_ne huser hfreeHost (by rw [huhost]; exact hat) ?_
    exact (congrArg URIData.host hu').symm

/-- **Parse, print, parse.** A parsed URI survives printing exactly when no empty userinfo hides
an `@` of its host. -/
theorem roundTrip_iff {s : Str} {u : URIData} (h : URI s = .ok u) :
    URI (toString u) = .ok u ↔ ¬ HiddenUserinfo s := by
  rw [URI_eq_ok_iff] at h ⊢
  exact ⟨fun hrt hn => parts_toString_ne h hn hrt,
    fun hn => parts_toString (printable_of_parts h hn)⟩

theorem roundTrip_iff_userinfo :
    ∃ u, URI "foo://a@b@c:0".toList = .ok u ∧
      (URI (toString u) = .ok u ↔ ¬ HiddenUserinfo "foo://a@b@c:0".toList) :=
  ⟨_, rfl, roundTrip_iff rfl⟩

/-- `foo://@a@b` has the host `a@b`, and is printed as `foo://a@b`. -/
theorem not_roundTrip : ¬ ∀ s u, URI s = .ok u → URI (toString u) = .ok u := by
  intro h
  have hback := h "foo://@a@b".toList
    { scheme := "foo".toList, host := "a@b".toList } (by decide)
  revert hback
  decide

end Servus.Uri
