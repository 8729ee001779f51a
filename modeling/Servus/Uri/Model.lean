import Servus.Cpp.Loop
import Servus.Cpp.Numeric

/-!
# `servus::URI` (`servus/uri.cpp`, `servus/uri.h`)

The URI class as the source computes it: the component record, the five-state parser with its
tables, the authority splitter, the query map, the constructor that turns every exception of the
parser into `uri_parse`, the getters, the setters and the printer.

A function that may throw returns in `Res`. The two loops (`_parseURI` and `_parseQueryMap`) run
with fuel; `Servus.Uri.Query` and `Servus.Uri.Grammar` show that it always suffices.
-/

namespace Servus.Uri

open Cpp

/-- `std::map<std::string, std::string>`. -/
abbrev KVMap := Std.ExtTreeMap Str Str

structure URIData where
  scheme : Str := []
  userinfo : Str := []
  host : Str := []
  port : UInt16 := 0
  path : Str := []
  query : Str := []
  fragment : Str := []
  queryMap : KVMap := ∅
  deriving DecidableEq

/-- `URIData::operator==`: the scheme is not compared. -/
def URIData.eq (lhs rhs : URIData) : Bool :=
  lhs.userinfo == rhs.userinfo && lhs.host == rhs.host && lhs.port == rhs.port &&
    lhs.path == rhs.path && lhs.query == rhs.query && lhs.fragment == rhs.fragment &&
    decide (lhs.queryMap = rhs.queryMap)

inductive URIPart where
  | scheme
  | authority
  | path
  | query
  | fragment
  deriving DecidableEq, Repr

/-! ## The tables of `_parseURIPart` -/

namespace URIPart

def requireFirst : URIPart → Option Char
  | query => some '?'
  | fragment => some '#'
  | _ => none

def separators : URIPart → Str
  | scheme => "://".toList
  | authority => "/?#".toList
  | path => "?#".toList
  | query => "#".toList
  | fragment => "".toList

def disallowed : URIPart → Option Str
  | scheme => some "/?#".toList
  | _ => none

def fullSeparator : URIPart → Bool
  | scheme => true
  | _ => false

def needsSeparator : URIPart → Bool
  | scheme => true
  | _ => false

def skip : URIPart → Nat
  | query | fragment => 1
  | _ => 0

def postSkip : URIPart → Nat
  | scheme => 3
  | _ => 0

end URIPart

/-- The end of `_parseURIPart`, behind its early returns: the assertions and the cut at `pos`. -/
def cutURIPart (input : Str) (part : URIPart) (pos : Pos) : Res (Bool × Str × Str) := do
  assert (part.requireFirst == none || pos == some 0 || input.head? == part.requireFirst)
  assert (decide (part.skip ≤ input.length))
  let output ← substr input part.skip (pos.sub part.skip)
  let input ← match pos with
    | none => pure []
    | some p => substr input (p + part.postSkip) none
  pure (true, input, output)

/-- `_parseURIPart`: its result, the remaining input and the output. -/
def parseURIPart (input : Str) (part : URIPart) : Res (Bool × Str × Str) :=
  let pos := if part.fullSeparator then find part.separators input
    else findFirstOf part.separators input
  if pos = none then
    if part.needsSeparator then .ok (true, input, []) else cutURIPart input part pos
  else if pos = some 0 ∨
      part.disallowed.any (fun set => Pos.lt (findFirstOf set input) pos) = true then
    .ok (true, input, [])
  else cutURIPart input part pos

/-- The port of `_parseAuthority`: `strtol` must read the text to its end; its value is stored
in 16 bits. -/
def parsePort (port : Str) : Res UInt16 :=
  let (value, last) := strtol port
  if port = [] ∨ last ≠ port.length then
    .error (.runtimeError (port ++ " is not a valid port number".toList))
  else .ok (UInt16.ofInt value)

/-- The end of `_parseAuthority`, behind the userinfo: the port and the host from `hostPos`. -/
def parseHostPort (data : URIData) (auth : Str) (hostPos : Nat) : Res URIData := do
  let colonPos := findChar ':' auth hostPos
  let data ← match colonPos with
    | some p => do
      let port ← substr auth (p + 1) none
      pure { data with port := ← parsePort port }
    | none => pure data
  let data := { data with host := ← substr auth hostPos (colonPos.sub hostPos) }
  if data.host = [] then .error (.invalidArgument []) else pure data

/-- `_parseAuthority`. -/
def parseAuthority (data : URIData) (auth : Str) : Res URIData := do
  let atPos := findChar '@' auth 0
  match atPos with
  | some p => parseHostPort { data with userinfo := ← substr auth 0 atPos } auth (p + 1)
  | none => parseHostPort data auth 0

/-- The end of an iteration of `_parseQueryMap`: enter `pair` into the map. -/
def bindPair (queryMap : KVMap) (pair : Str) : Res KVMap :=
  match findChar '=' pair 0 with
  | some 0 => pure queryMap
  | none => pure (queryMap.insert pair [])
  | some eq => do pure (queryMap.insert (← substr pair 0 (some eq)) (← substr pair (eq + 1) none))

/-- One iteration of `_parseQueryMap`, on the rest of the query and the map. -/
def queryStep : Str × KVMap → Res (Str × KVMap)
  | (query, queryMap) => do
    let nextPair := findChar '&' query 0
    if nextPair = some 0 then
      pure (← substr query 1 none, queryMap)
    else
      let pair ← substr query 0 nextPair
      let query ← match nextPair with
        | none => pure []
        | some p => substr query (p + 1) none
      pure (query, ← bindPair queryMap pair)

/-- `_parseQueryMap`. Every iteration shortens the query, which is the fuel. -/
def parseQueryMap (data : URIData) : Res URIData := do
  let (_, queryMap) ← whileLoop .fuel (fun s => !s.1.isEmpty) queryStep data.query.length
    (data.query, ∅)
  pure { data with queryMap }

/-- `_toLower`, with the C locale's `tolower`. -/
def toLower (str : Str) : Str := str.map Char.toLower

/-- The characters of a scheme behind its first, in the order of the source. -/
def schemeChars : Str := "abcdefghijlkmnopqrstuvwxyz0123456789+-.".toList

/-- The scheme check of `_parseURI`, on a lower-cased scheme. -/
def badScheme (scheme : Str) : Bool :=
  !scheme.isEmpty &&
    (!scheme.head?.any Char.isAlpha || findFirstNotOf schemeChars scheme 1 != none)

/-- The variables of the loop in `_parseURI`. -/
structure ParseState where
  part : URIPart
  input : Str
  data : URIData
  deriving DecidableEq

/-- One iteration of the loop in `_parseURI`. -/
def parseStep (s : ParseState) : Res ParseState :=
  match s.part with
  | .scheme => do
    let (_, input, scheme) ← parseURIPart s.input .scheme
    let scheme := toLower scheme
    if badScheme scheme then .error (.invalidArgument [])
    else
      let part := if scheme = "file".toList ∨ scheme = [] then .path else .authority
      pure ⟨part, input, { s.data with scheme }⟩
  | .authority => do
    let (_, input, authority) ← parseURIPart s.input .authority
    let data ← if authority = [] then pure s.data else parseAuthority s.data authority
    pure ⟨.path, input, data⟩
  | .path => do
    let (_, input, path) ← parseURIPart s.input .path
    pure ⟨.query, input, { s.data with path }⟩
  | .query => do
    let (_, input, query) ← parseURIPart s.input .query
    let data ← parseQueryMap { s.data with query }
    pure ⟨.fragment, input, data⟩
  | .fragment => do
    let (_, input, fragment) ← parseURIPart s.input .fragment
    pure ⟨.fragment, input, { s.data with fragment }⟩

/-- The iterations that `_parseURI` needs: one for each part. -/
def parseFuel : Nat := 5

/-- `detail::URI::_parseURI`, on a default-constructed `URIData`. -/
def parseURI (input : Str) : Res URIData := do
  let s ← whileLoop .fuel (fun s : ParseState => !s.input.isEmpty) parseStep parseFuel
    ⟨.scheme, input, {}⟩
  pure s.data

/-- What leaves the constructor of a URI: `uri_parse` with its text, or an abort. -/
inductive URIError where
  | uriParse (error : Str)
  | fault (e : Exn)
  deriving DecidableEq, Repr

/-- `uri_parse(uri)`. -/
def uriParse (uri : Str) : URIError := .uriParse ("Error parsing URI string: ".toList ++ uri)

/-- `URI(const std::string&)`: the `catch (...)` turns every exception into `uri_parse`; a
failed assertion is none. -/
def URI (uri : Str) : Except URIError URIData :=
  if uri = [] then .ok {}
  else match parseURI uri with
    | .ok data => .ok data
    | .error e => .error (if e.isException then uriParse uri else .fault e)

/-! ## Getters -/

namespace URIData

def getScheme (u : URIData) : Str := u.scheme
def getUserinfo (u : URIData) : Str := u.userinfo
def getHost (u : URIData) : Str := u.host
def getPort (u : URIData) : UInt16 := u.port
def getPath (u : URIData) : Str := u.path
def getQuery (u : URIData) : Str := u.query
def getFragment (u : URIData) : Str := u.fragment

/-- `findQuery`: the value at the iterator, `none` for `queryEnd()`. -/
def findQuery (u : URIData) (key : Str) : Option Str := u.queryMap[key]?

end URIData

/-! ## Setters -/

namespace URIData

def setScheme (u : URIData) (scheme : Str) : URIData := { u with scheme }
def setUserInfo (u : URIData) (userinfo : Str) : URIData := { u with userinfo }
def setHost (u : URIData) (host : Str) : URIData := { u with host }
def setPort (u : URIData) (port : UInt16) : URIData := { u with port }
def setPath (u : URIData) (path : Str) : URIData := { u with path }
def setQuery (u : URIData) (query : Str) : Res URIData := parseQueryMap { u with query }
def setFragment (u : URIData) (fragment : Str) : URIData := { u with fragment }

/-- The loop of `addQuery` that rebuilds the query from the map. -/
def rebuildQuery (queryMap : KVMap) : Str :=
  queryMap.toList.foldl (fun query kv =>
    if query = [] then kv.1 ++ '=' :: kv.2
    else query ++ ('&' :: kv.1 ++ '=' :: kv.2)) []

/-- `addQuery`: the fragment is cleared. -/
def addQuery (u : URIData) (key value : Str) : URIData :=
  let queryMap := u.queryMap.insert key value
  { u with queryMap, fragment := [], query := rebuildQuery queryMap }

end URIData

/-- A call that changes a URI. -/
inductive Mutator where
  | setScheme (scheme : Str)
  | setUserInfo (userinfo : Str)
  | setHost (host : Str)
  | setPort (port : UInt16)
  | setPath (path : Str)
  | setQuery (query : Str)
  | setFragment (fragment : Str)
  | addQuery (key value : Str)
  deriving DecidableEq

def URIData.apply (u : URIData) : Mutator → Res URIData
  | .setScheme scheme => .ok (u.setScheme scheme)
  | .setUserInfo userinfo => .ok (u.setUserInfo userinfo)
  | .setHost host => .ok (u.setHost host)
  | .setPort port => .ok (u.setPort port)
  | .setPath path => .ok (u.setPath path)
  | .setQuery query => u.setQuery query
  | .setFragment fragment => .ok (u.setFragment fragment)
  | .addQuery key value => .ok (u.addQuery key value)

/-- A URI after the calls `ms`. -/
def URIData.applyAll (u : URIData) (ms : List Mutator) : Res URIData := ms.foldlM URIData.apply u

/-! ## Printing -/

/-- `os << port`. -/
def printPort (port : UInt16) : Str := Nat.toDigits 10 port.toNat

/-- The authority as `operator<<` prints it, when there is a host. -/
def printAuthority (u : URIData) : Str :=
  (if u.userinfo = [] then [] else u.userinfo ++ ['@']) ++ u.host ++
    (if u.port = 0 then [] else ':' :: printPort u.port)

/-- `getAuthority`: the same text, also when there is no host. -/
def URIData.getAuthority (u : URIData) : Str := printAuthority u

/-- `operator<<(std::ostream&, const URI&)` and `std::to_string`. -/
def toString (u : URIData) : Str :=
  (if u.scheme = [] then [] else u.scheme ++ "://".toList) ++
    (if u.host = [] then [] else printAuthority u) ++
    u.path ++
    (if u.query = [] then [] else '?' :: u.query) ++
    (if u.fragment = [] then [] else '#' :: u.fragment)

end Servus.Uri
