import Servus.Cpp.Numeric
import Servus.Cpp.Run
import Servus.Service.Impl

/-!
# The dnssd backend (`servus/dnssd/servus.h`)

One `dnssd::Servus` as the source computes it. `announce`, `browse` and the resolves that a
browse starts from inside its callback all run `_handleEvents`, with the member `_result` as the
loop condition and the return value of each. The loop is generic in the replies of its service
ref; a browse reply that adds an instance carries the passes of its own, nested loop.

What the library does is data: an `Iter` is one pass of the loop with the outcome of `select` and
the replies that `DNSServiceProcessResult` delivers. A loop whose passes run out has not returned
(`none`). The timeouts only reach `select`. A TXT record is the list of the `TXTRecordSetValue`
calls that built it, and `handed` is the one last handed over.
-/

namespace Servus.Dnssd

open Cpp

def kDNSServiceErr_NoError : Int := 0
def kDNSServiceErr_Unknown : Int := -65537
def kDNSServiceErr_BadParam : Int := -65540
def EINTR : Int := 4

/-- The key, the size and the bytes of each `TXTRecordSetValue`. -/
abbrev TXTRecord := List (Str × UInt8 × Str)

/-- The arguments of `DNSServiceRegister`; without a name the library uses its default. -/
structure Registration where
  instanceName : Option Str
  regtype : Str
  port : UInt16
  deriving DecidableEq

/-- One `dnssd::Servus`. -/
structure Service extends Impl where
  /-- `_out` is set: used for `announce()`. -/
  out : Bool := false
  /-- `_in` is set: used to `browse()`. -/
  in_ : Bool := false
  result : Result := Result.PENDING
  browsedName : Str := []
  registration : Option Registration := none
  /-- The TXT record last handed to the library. -/
  handed : Option TXTRecord := none
  deriving DecidableEq

/-- One pass of the loop: the outcome of `select` and, if the socket is set, the replies and the
return value of `DNSServiceProcessResult`. -/
inductive Iter (κ : Type) where
  | timeout
  | error (errno : Int)
  | ready (isSet : Bool) (replies : List κ) (error : Int)

/-- A reply of `DNSServiceResolve`, with the items that `TXTRecordGetItemAtIndex` gives. -/
structure ResolveReply where
  error : Int
  host : Str
  items : List (Str × Str)

/-- A reply of `DNSServiceBrowse`. For an added instance, `resolve` is what `DNSServiceResolve`
returns, `service` whether it sets the ref, `fd` the socket of the ref, and `iters` are the
passes of the loop on it. -/
structure BrowseReply where
  error : Int
  add : Bool
  name : Str
  resolve : Int
  service : Bool
  fd : Int
  iters : List (Iter ResolveReply)

/-- What `DNSServiceRegister` returns, whether `_out` is set after it, and the socket of `_out`. -/
structure Register where
  error : Int
  ref : Bool
  fd : Int

/-- `_createTXTRecord`. -/
def createTXTRecord (data : ValueMap) : TXTRecord :=
  data.toList.map fun (key, value) =>
    let valueSize : UInt8 := if value.length > 255 then 255 else UInt8.ofNat value.length
    (cStr key, valueSize, value.take valueSize.toNat)

namespace Service

/-- `isAnnounced`. -/
def isAnnounced (s : Service) : Bool := s.out

/-- `withdraw`. -/
def withdraw (s : Service) : Service := if s.out then { s with out := false } else s

/-- `endBrowsing`. -/
def endBrowsing (s : Service) : Service := if s.in_ then { s with in_ := false } else s

/-- `isBrowsing`. -/
def isBrowsing (s : Service) : Bool := s.in_

section HandleEvents

variable {κ : Type} (reply : Service → κ → Option Service)

/-- The body of the loop of `_handleEvents`. -/
def handleIter (s : Service) : Iter κ → Option Service
  | .timeout => some { s with result := kDNSServiceErr_NoError }
  | .error errno => some (if errno ≠ EINTR then { s.withdraw with result := errno } else s)
  | .ready false _ _ => some s
  | .ready true replies error => do
    let s ← replies.foldlM reply s
    some (if error ≠ kDNSServiceErr_NoError then { s.withdraw with result := error } else s)

/-- `while (_result == PENDING)`. -/
def handleLoop : List (Iter κ) → Service → Option Service
  | [], s => if s.result = Result.PENDING then none else some s
  | it :: iters, s =>
    if s.result = Result.PENDING then (s.handleIter reply it).bind (handleLoop iters) else some s

/-- `_handleEvents`, on a ref that is null unless `service`; the early returns are those of a build
without assertions. -/
def handleEvents (s : Service) (service : Bool) (fd : Int) (iters : List (Iter κ)) :
    Option (Result × Service) :=
  if service = false then some (kDNSServiceErr_Unknown, s)
  else if fd < 0 then some (kDNSServiceErr_BadParam, s)
  else (handleLoop reply iters s).map fun s => (s.result, { s with result := Result.PENDING })

end HandleEvents

/-- `registerCB_`. -/
def registerCB (s : Service) (error : Int) : Option Service :=
  some { (if error ≠ kDNSServiceErr_NoError then s.withdraw else s) with result := error }

/-- `resolveCB_`. -/
def resolveCB (s : Service) (host : Str) (items : List (Str × Str)) : Service :=
  let values := (s.instanceMap[s.browsedName]?.getD ∅).insert "servus_host".toList host
  let s := { s with
    instanceMap := s.instanceMap.insert s.browsedName (assignAll values items) }
  { s with toImpl := s.toImpl.notify (.instanceAdded s.browsedName) }

/-- `resolveCBS_`. -/
def resolveCBS (s : Service) (r : ResolveReply) : Option Service :=
  some { (if r.error = kDNSServiceErr_NoError then s.resolveCB r.host r.items else s) with
    result := r.error }

/-- `browseCB_`: the nested `_handleEvents` runs inside the callback, and its result is dropped. -/
def browseCB (s : Service) (r : BrowseReply) : Option Service :=
  if r.error ≠ kDNSServiceErr_NoError then some s
  else if r.add then
    let s := { s with browsedName := r.name }
    if r.service then (s.handleEvents resolveCBS r.service r.fd r.iters).map (·.2)
    else some s
  else
    let s := { s with instanceMap := s.instanceMap.erase r.name }
    some { s with toImpl := s.toImpl.notify (.instanceRemoved r.name) }

/-- The call of `DNSServiceRegister` in `announce`. -/
def register (s : Service) (port : UInt16) (instanceName : Str) (reg : Register) : Service :=
  { s with
    out := reg.ref
    handed := some (createTXTRecord s.data)
    registration := some ⟨if instanceName = [] then none else some (cStr instanceName),
      cStr s.name, port⟩ }

/-- `announce`. -/
def announce (s : Service) (port : UInt16) (instanceName : Str) (reg : Register)
    (iters : List (Iter Int)) : Option (Result × Service) :=
  if s.out then some (Result.PENDING, s)
  else
    let s := s.register port instanceName reg
    if reg.error = Result.SUCCESS then s.handleEvents registerCB s.out reg.fd iters
    else some (reg.error, s)

/-- `beginBrowsing` and `_browse`; `error` and `ref` are what `DNSServiceBrowse` gives. -/
def beginBrowsing (s : Service) (error : Int) (ref : Bool) : Result × Service :=
  if s.in_ then (Result.PENDING, s)
  else
    let s := { s with instanceMap := ∅, in_ := ref }
    (error, if error ≠ kDNSServiceErr_NoError then s.endBrowsing else s)

/-- `browse`. -/
def browse (s : Service) (fd : Int) (iters : List (Iter BrowseReply)) :
    Option (Result × Service) :=
  s.handleEvents browseCB s.in_ fd iters

/-- The part of `Impl::discover` behind `beginBrowsing`, whose result is `res`. -/
def discoverFrom (s : Service) (res : Result) (fd : Int) (iters : List (Iter BrowseReply)) :
    Option Service :=
  if res = Result.SUCCESS ∨ res = Result.PENDING then
    (s.browse fd iters).map fun (_, s) => if res = Result.SUCCESS then s.endBrowsing else s
  else some s

/-- `Impl::discover`. -/
def discover (s : Service) (error : Int) (ref : Bool) (fd : Int)
    (iters : List (Iter BrowseReply)) : Option (List Str × Service) :=
  let begun := s.beginBrowsing error ref
  (begun.2.discoverFrom begun.1 fd iters).map fun s => (s.getInstances, s)

/-- `_updateRecord`. -/
def updateRecord (s : Service) : Service :=
  if s.out then { s with handed := some (createTXTRecord s.data) } else s

/-- `Impl::set`. -/
def set (s : Service) (key value : Str) : Service :=
  { s with toImpl := s.toImpl.setData key value }.updateRecord

end Service

/-- A public call with what the library does in it. -/
inductive Op where
  | announce (port : UInt16) (instanceName : Str) (reg : Register) (iters : List (Iter Int))
  | withdraw
  | set (key value : Str)
  | beginBrowsing (error : Int) (ref : Bool)
  | browse (fd : Int) (iters : List (Iter BrowseReply))
  | endBrowsing

def step (s : Service) : Op → Option Service
  | .announce port instanceName reg iters =>
    (s.announce port instanceName reg iters).map (·.2)
  | .withdraw => some s.withdraw
  | .set key value => some (s.set key value)
  | .beginBrowsing error ref => some (s.beginBrowsing error ref).2
  | .browse fd iters => (s.browse fd iters).map (·.2)
  | .endBrowsing => some s.endBrowsing

end Servus.Dnssd
