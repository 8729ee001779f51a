import Servus.Cpp.Numeric
import Servus.Cpp.Run
import Servus.Service.Impl

/-!
# The avahi backend (`servus/avahi/servus.h`)

One `avahi::Servus` as the source computes it: the public calls, the four callbacks and the two
loops that poll. What the library does is data: a call of the library comes with what it returns,
and a `Poll` is one `avahi_simple_poll_iterate` with the callbacks that it delivers, its return
value and the time of the loop's next check. A loop whose polls run out has not returned (`none`).

An entry group is the list of its entries: `avahi_entry_group_reset` empties it, and
`avahi_entry_group_add_service_strlst` adds its entry when it succeeds. `handed` records the last
entry that was handed over.
-/

namespace Servus.Avahi

open Cpp

/-- What the backend takes from outside: `getHostname()` and `avahi_string_list_add_pair`. -/
structure Env where
  hostname : Str
  addPair : List Str → Str → Str → List Str

/-- The environment whose `avahi_string_list_add_pair` puts `key=value` in front of the list. -/
def Env.documented (hostname : Str) : Env :=
  ⟨hostname, fun l key value => (key ++ '=' :: value) :: l⟩

/-- The arguments of `avahi_entry_group_add_service_strlst`. -/
structure Entry where
  name : Str
  type : Str
  port : UInt16
  txt : List Str
  deriving DecidableEq

inductive ClientState where
  | S_REGISTERING
  | S_RUNNING
  | S_COLLISION
  | FAILURE
  | CONNECTING
  deriving DecidableEq

inductive GroupState where
  | UNCOMMITED
  | REGISTERING
  | ESTABLISHED
  | COLLISION
  | FAILURE
  deriving DecidableEq

inductive BrowserEvent where
  | NEW
  | REMOVE
  | CACHE_EXHAUSTED
  | ALL_FOR_NOW
  | FAILURE
  deriving DecidableEq

inductive ResolverEvent where
  | FOUND
  | FAILURE
  deriving DecidableEq

/-- One `avahi::Servus` whose client was set up. -/
structure Service extends Impl where
  /-- `_browser` is set. -/
  browser : Bool := false
  group : Option (List Entry) := none
  result : Result := Result.PENDING
  /-- The name to announce, `_announce`. -/
  announceName : Str := []
  port : UInt16 := 0
  announcable : Bool := false
  scope : Interface := .IF_ALL
  /-- The entry that was last handed to the library. -/
  handed : Option Entry := none
  deriving DecidableEq

/-- What the library returns in `_createServices`. -/
structure Create where
  /-- `avahi_entry_group_new` gives a group. -/
  newGroup : Bool
  add : Int
  commit : Int
  deriving DecidableEq

inductive Callback where
  | client (state : ClientState) (errno : Int) (create : Create)
  | group (state : GroupState)
  | browse (ifIndex protocol : Int) (event : BrowserEvent) (name : Str) (newResolver : Bool)
      (errno : Int)
  | resolve (event : ResolverEvent) (name host : Str) (txt : List Str) (isLocal : Bool)
      (errno : Int)

/-- One `avahi_simple_poll_iterate`, and `_elapsedMilliseconds` at the loop's check: in front of
it in `announce`, behind it in `browse`. -/
structure Poll where
  callbacks : List Callback
  ret : Int
  elapsed : Int

def EEXIST : Result := 17

def ANNOUNCE_TIMEOUT : Int := 1000

variable (env : Env)

/-- The string list that `_createServices` builds from `_data`. -/
def Env.encode (data : ValueMap) : List Str :=
  data.toList.foldl (fun l kv => env.addPair l (cStr kv.1) (cStr kv.2)) []

namespace Service

/-- `isAnnounced`. -/
def isAnnounced (s : Service) : Bool :=
  match s.group with
  | none => false
  | some entries => !entries.isEmpty

/-- `avahi_entry_group_reset` on a group. -/
def reset (s : Service) : Service := { s with group := s.group.map fun _ => [] }

/-- `_createServices`. -/
def createServices (s : Service) (c : Create) : Service :=
  let s := match s.group with
    | none => { s with group := if c.newGroup then some [] else none }
    | some _ => s.reset
  match s.group with
  | none => s
  | some entries =>
    let entry : Entry := ⟨cStr s.announceName, cStr s.name, s.port, env.encode s.data⟩
    let s := { s with
      handed := some entry
      group := some (if c.add = Result.SUCCESS then entries ++ [entry] else entries)
      result := c.add }
    if s.result ≠ Result.SUCCESS then s else { s with result := c.commit }

/-- `_updateRecord`. -/
def updateRecord (s : Service) (c : Create) : Service :=
  if s.announceName = [] ∨ s.announcable = false then s
  else s.reset.createServices env c

/-- `_clientCB`. -/
def clientCB (s : Service) (state : ClientState) (errno : Int) (c : Create) : Res Service :=
  match state with
  | .S_RUNNING =>
    let s := { s with announcable := true }
    .ok (if s.announceName ≠ [] then s.createServices env c else s)
  | .FAILURE => .ok { s with result := errno }
  | .S_COLLISION => .ok { s with result := EEXIST }
  | .S_REGISTERING =>
    .error (.runtimeError "Unimplemented AVAHI_CLIENT_S_REGISTERING event".toList)
  | .CONNECTING => .ok s

/-- `_groupCB`. -/
def groupCB (s : Service) : GroupState → Service
  | .ESTABLISHED => s
  | .COLLISION | .FAILURE => { s with result := EEXIST }
  | .UNCOMMITED | .REGISTERING => s

/-- `_browseCB`. -/
def browseCB (s : Service) (event : BrowserEvent) (name : Str) (newResolver : Bool)
    (errno : Int) : Service :=
  match event with
  | .FAILURE => { s with result := errno }
  | .NEW => if newResolver then s else { s with result := errno }
  | .REMOVE =>
    let s := { s with instanceMap := s.instanceMap.erase name }
    { s with toImpl := s.toImpl.notify (.instanceRemoved name) }
  | .ALL_FOR_NOW | .CACHE_EXHAUSTED => { s with result := Result.SUCCESS }

/-- One entry of a TXT record in `_resolveCB`: `npos + 1` is `0`. -/
def assignEntry (values : ValueMap) (entry : Str) : Res ValueMap := do
  let pos := findFirstOf "=".toList entry
  let key ← substr entry 0 pos
  let value ← substr entry (pos.add 1) none
  .ok (values.insert key value)

/-- `_resolveCB`. -/
def resolveCB (s : Service) (event : ResolverEvent) (name host : Str) (txt : List Str)
    (isLocal : Bool) (errno : Int) : Res Service :=
  if s.scope = .IF_LOCAL ∧ isLocal = false then .ok s
  else match event with
    | .FAILURE => .ok { s with result := errno }
    | .FOUND => do
      let values := (s.instanceMap[name]?.getD ∅).insert "servus_host".toList host
      let values ← txt.foldlM assignEntry values
      let s := { s with instanceMap := s.instanceMap.insert name values }
      .ok { s with toImpl := s.toImpl.notify (.instanceAdded name) }

def callback (s : Service) : Callback → Res Service
  | .client state errno c => s.clientCB env state errno c
  | .group state => .ok (s.groupCB state)
  | .browse _ _ event name newResolver errno => .ok (s.browseCB event name newResolver errno)
  | .resolve event name host txt isLocal errno => s.resolveCB event name host txt isLocal errno

/-- The callbacks of one poll, up to the first that throws. -/
def callbacks (s : Service) : List Callback → Service × Res Unit
  | [] => (s, .ok ())
  | cb :: cbs =>
    match s.callback env cb with
    | .ok s' => callbacks s' cbs
    | .error e => (s, .error e)

/-- The loop of `announce`. -/
def announceLoop : List Poll → Service → Option (Service × Res Unit)
  | [], _ => none
  | p :: ps, s =>
    if s.announcable = false ∧ s.result = Result.PENDING ∧ p.elapsed < ANNOUNCE_TIMEOUT then
      match s.callbacks env p.callbacks with
      | (s', .ok ()) => announceLoop ps s'
      | (s', .error e) => some (s', .error e)
    else some (s, .ok ())

/-- `announce`. -/
def announce (s : Service) (port : UInt16) (instanceName : Str) (c : Create)
    (polls : List Poll) : Option (Service × Res Result) :=
  let s := { s with
    result := Result.PENDING
    port := port
    announceName := if instanceName = [] then env.hostname else instanceName }
  if s.announcable then
    let s := s.createServices env c
    some (s, .ok s.result)
  else (announceLoop env polls s).map fun (s, r) => (s, r.map fun _ => s.result)

/-- `withdraw`. -/
def withdraw (s : Service) : Service := { s with announceName := [], port := 0 }.reset

/-- `Impl::set`. -/
def set (s : Service) (key value : Str) (c : Create) : Service :=
  { s with toImpl := s.toImpl.setData key value }.updateRecord env c

/-- `beginBrowsing`; `newBrowser` is whether `avahi_service_browser_new` gives a browser. -/
def beginBrowsing (s : Service) (addr : Interface) (newBrowser : Bool) (errno : Int) :
    Service × Result :=
  if s.browser then (s, Result.PENDING)
  else
    let s := { s with
      scope := addr
      instanceMap := ∅
      result := Result.SUCCESS
      browser := newBrowser }
    if s.browser then (s, s.result)
    else
      let s := { s with result := errno }
      (s, s.result)

/-- The loop of `browse`, with `nErrors` failed polls so far. -/
def browseLoop (timeout : Int) : List Poll → Nat → Service → Option (Service × Res Unit)
  | [], _, _ => none
  | p :: ps, nErrors, s =>
    match s.callbacks env p.callbacks with
    | (s', .error e) => some (s', .error e)
    | (s', .ok ()) =>
      let nErrors := if p.ret ≠ 0 then nErrors + 1 else nErrors
      if p.ret ≠ 0 ∧ ¬ nErrors < 10 then some ({ s' with result := Result.POLL_ERROR }, .ok ())
      else if p.elapsed < timeout then browseLoop timeout ps nErrors s'
      else some (s', .ok ())

/-- The end of `browse`. -/
def browsed (s : Service) : Service :=
  if s.result ≠ Result.POLL_ERROR then { s with result := Result.SUCCESS } else s

/-- `browse`. -/
def browse (s : Service) (timeout : Int) (polls : List Poll) : Option (Service × Res Result) :=
  (browseLoop env timeout polls 0 { s with result := Result.PENDING }).map fun
    | (s, .ok ()) => (s.browsed, .ok s.browsed.result)
    | (s, .error e) => (s, .error e)

/-- `endBrowsing`. -/
def endBrowsing (s : Service) : Service := { s with browser := false }

/-- `isBrowsing`. -/
def isBrowsing (s : Service) : Bool := s.browser

/-- The part of `Impl::discover` behind `beginBrowsing`, whose result is `res`. An exception of
`browse` leaves it in front of `endBrowsing`. -/
def discoverFrom (s : Service) (res : Result) (browseTime : UInt32) (polls : List Poll) :
    Option (Service × Res Unit) :=
  if res = Result.SUCCESS ∨ res = Result.PENDING then
    (s.browse env browseTime.toInt32.toInt polls).map fun
      | (s, .ok _) => (if res = Result.SUCCESS then s.endBrowsing else s, .ok ())
      | (s, .error e) => (s, .error e)
  else some (s, .ok ())

/-- `Impl::discover`. -/
def discover (s : Service) (addr : Interface) (newBrowser : Bool) (errno : Int)
    (browseTime : UInt32) (polls : List Poll) : Option (Service × Res (List Str)) :=
  let begun := s.beginBrowsing addr newBrowser errno
  (begun.1.discoverFrom env begun.2 browseTime polls).map fun (s, r) =>
    (s, r.map fun _ => s.getInstances)

end Service

/-- A public call with what the library does in it, or a callback. -/
inductive Op where
  | announce (port : UInt16) (instanceName : Str) (c : Create) (polls : List Poll)
  | withdraw
  | set (key value : Str) (c : Create)
  | beginBrowsing (addr : Interface) (newBrowser : Bool) (errno : Int)
  | browse (timeout : Int) (polls : List Poll)
  | endBrowsing
  | callback (cb : Callback)

/-- The object after a call, also when it throws. -/
def step (s : Service) : Op → Option Service
  | .announce port instanceName c polls => (s.announce env port instanceName c polls).map (·.1)
  | .withdraw => some s.withdraw
  | .set key value c => some (s.set env key value c)
  | .beginBrowsing addr newBrowser errno => some (s.beginBrowsing addr newBrowser errno).1
  | .browse timeout polls => (s.browse env timeout polls).map (·.1)
  | .endBrowsing => some s.endBrowsing
  | .callback cb => some (s.callbacks env [cb]).1

end Servus.Avahi
