import PanoptiDns.Rrl
import PanoptiDns.Upstream
import PanoptiDns.Zone.Basic

set_option relaxedAutoImplicit false
set_option autoImplicit false

/-!
# The request handler

`src/server/handler.rs`. What to answer is a pure function, `decide`, of the configuration, the
query and what an upstream would say. Handling a request is a program over four effects (read
the current configuration, wait for the upstream, ask the rate limiter, hand a response to the
socket), so that the steps of concurrent requests, and reloads, can be interleaved in any order.

## Main definitions

* `Zones`, `Reply`, `decide`.
* `Request`, `Metadata`, `Response`.
* `Handling` — programs over the effects.
* `send`, `handleInner`, `servfail`, `handleRequest`.
-/

namespace PanoptiDns

open Bytes

/-- The hot-swappable half of the server's state: the configuration, and the addresses a client
was built for. -/
structure Zones where
  config : Config
  upstreams : List IpAddr
  deriving DecidableEq

/-- Build the upstream clients a config calls for, one per distinct address. -/
def Zones.new (newUpstream : IpAddr → (timeout : ℕ) → Except Bytes Unit) (config : Config) :
    Except Bytes Zones := do
  let upstreams ← (config.zones.filterMap Zone.upstream).foldlM (fun upstreams addr =>
    if addr ∈ upstreams then pure upstreams
    else do
      newUpstream addr config.params.upstreamTimeout
      pure (upstreams ++ [addr])) []
  return ⟨config, upstreams⟩

/-- The response codes the program uses. -/
inductive ResponseCode
  | noError | nxDomain | refused | notImp | badVers | servFail
  deriving DecidableEq

/-- What we decided to answer, before it is serialised. -/
structure Reply where
  code : ResponseCode
  authoritative : Bool
  answers : List Record
  authority : List Record
  kind : Kind
  deriving DecidableEq

/-- A reply without records. -/
def Reply.error (code : ResponseCode) : Reply := ⟨code, false, [], [], .negative⟩

/-- We decline. -/
def Reply.refused : Reply := .error .refused

/-- The SOA record for a zone apex; the interval fields are signed on the wire. -/
def soaRecord (apex : Name) (soa : SoaParams) (ttl : ℕ) : Record :=
  let i32 := fun n => min n (2 ^ 31 - 1)
  .fromRData apex (min ttl soa.minimum)
    (.soa ⟨soa.primary, soa.hostmaster, soa.serial, i32 soa.refresh, i32 soa.retry, i32 soa.expire,
      soa.minimum⟩)

/-- The NS records for a zone apex. -/
def nsRecords (apex : Name) (config : Config) (ttl : ℕ) : List Record :=
  config.nameservers.map fun ns => .fromRData apex ttl (.ns ns)

/-- The budget of a reply with these answers. -/
def kindOf (answers : List Record) : Kind := if answers.isEmpty then .negative else .answer

/-- SOA for the authority section of a NODATA answer. -/
def negativeAuthority (config : Config) (qname : Name) (kind : Kind) : List Record :=
  if kind ≠ .negative then []
  else match config.soa with
    | none => []
    | some soa =>
      (config.zones.findSome? fun zone =>
        ([zone.ptrZone, zone.fwdParent].find? (·.zoneOf qname)).map fun apex =>
          [soaRecord apex soa zone.ttl]).getD []

/-- The types answered at an apex. -/
def apexHasType (qtype : RecordType) : Bool := qtype = .SOA || qtype = .NS || qtype = .ANY

/-- The reply for a zone origin we serve. -/
def apexReply (config : Config) (apex : Name) (qtype : RecordType) : Reply :=
  let ttl := (config.zones.head?.map Zone.ttl).getD 3600
  let soa := if qtype = .SOA || qtype = .ANY then
    (config.soa.map fun soa => soaRecord apex soa ttl).toList else []
  let ns := if qtype = .NS || qtype = .ANY then nsRecords apex config ttl else []
  let answers := soa ++ ns
  ⟨.noError, true, answers, [], kindOf answers⟩

/-- The reply for a name a zone answers, perhaps overridden by the zone's upstream. -/
def answerReply (zones : Zones) (lookup : IpAddr → LookupOutcome) (qname : Name)
    (qtype : RecordType) (zone : Zone) (records : List Record) : Reply :=
  let relayed :=
    if !records.isEmpty && qtype = .PTR then
      match zone.upstream with
      | some addr => if addr ∈ zones.upstreams then lookupPtr qname (lookup addr) else []
      | none => []
    else []
  let records := if relayed.isEmpty then records else relayed
  let kind := kindOf records
  ⟨.noError, true, records, negativeAuthority zones.config qname kind, kind⟩

/-- The reply for a name inside our namespace with nothing there. -/
def noNameReply (config : Config) (qname : Name) (zone : Zone) : Reply :=
  let apex := if zone.ptrZone.zoneOf qname then zone.ptrZone else zone.fwdParent
  let authority := (config.soa.map fun soa => soaRecord apex soa zone.ttl).toList
  ⟨.nxDomain, true, [], authority, .negative⟩

/-- The reply for a name, past the checks of class and type: the apexes, then the zones. -/
def decideName (zones : Zones) (lookup : IpAddr → LookupOutcome) (qname : Name)
    (qtype : RecordType) : Reply :=
  let config := zones.config
  match if apexHasType qtype then config.apexes.find? (·.sameName qname) else none with
  | some apex => apexReply config apex qtype
  | none =>
    match resolve config qname qtype with
    | .answer zone records => answerReply zones lookup qname qtype zone records
    | .noName zone => noNameReply config qname zone
    | .noZone =>
      match config.params.outOfZone with
      | .refused => .refused
      | .nxDomain => .error .nxDomain

/-- Decide what to answer. `lookup` is what a lookup at an upstream would come to. -/
def decide (zones : Zones) (lookup : IpAddr → LookupOutcome) (qname : Name) (qtype : RecordType)
    (qclass : DNSClass) : Reply :=
  -- authoritative-only, and nothing to transfer
  if qclass ≠ .IN ∧ qclass ≠ .ANY then .refused
  else if qtype = .AXFR ∨ qtype = .IXFR then .refused
  else decideName zones lookup qname qtype

/-! ## Messages -/

/-- The operation codes the program tells apart. -/
inductive OpCode
  | query | notify | update
  | other (code : ℕ)
  deriving DecidableEq

/-- The header of a message, without its counts. -/
structure Metadata where
  id : ℕ
  isResponse : Bool
  opCode : OpCode
  authoritative : Bool := false
  truncation : Bool := false
  recursionDesired : Bool := false
  recursionAvailable : Bool := false
  authenticData : Bool := false
  checkingDisabled : Bool := false
  code : ResponseCode := .noError
  deriving DecidableEq

/-- `Metadata::response_from_request`. -/
def Metadata.responseFromRequest (m : Metadata) : Metadata where
  id := m.id
  isResponse := true
  opCode := m.opCode
  recursionDesired := m.recursionDesired
  checkingDisabled := m.checkingDisabled

/-- The question of a request. -/
structure Query where
  name : Name
  queryType : RecordType
  queryClass : DNSClass
  deriving DecidableEq

/-- What the program reads of an OPT record: version and payload size. -/
structure Edns where
  version : ℕ
  maxPayload : ℕ
  deriving DecidableEq

/-- A request as it comes from hickory: `info` is the result of `request_info`, which fails unless
the message has a question to speak of. -/
structure Request where
  src : IpAddr
  isTcp : Bool
  metadata : Metadata
  info : Except Bytes Query
  edns : Option Edns
  deriving DecidableEq

/-- `Request::version`. -/
def Request.version (r : Request) : ℕ := (r.edns.map Edns.version).getD 0

/-- `Request::max_payload`. -/
def Request.maxPayload (r : Request) : ℕ := (r.edns.map Edns.maxPayload).getD 512

/-- A response: its header, its answer and authority sections, and the payload size it
advertises if it carries an OPT record. -/
structure Response where
  metadata : Metadata
  answers : List Record := []
  authority : List Record := []
  edns : Option ℕ := none
  deriving DecidableEq

/-! ## Handling a request -/

/-- A program over the effects of the handler. -/
inductive Handling (α : Type) : Type
  | done (result : α)
  /-- `zones.load()`: the configuration that is current at this moment. -/
  | load (k : Zones → Handling α)
  /-- The wait for an upstream, if one is asked. -/
  | await (k : (IpAddr → LookupOutcome) → Handling α)
  /-- `rrl.decide(src, kind, is_tcp)`. -/
  | charge (src : IpAddr) (kind : Kind) (isTcp : Bool) (k : Decision → Handling α)
  /-- `send_response(response).await`, which may fail with a reason. -/
  | transmit (response : Response) (k : Except Bytes Unit → Handling α)

/-- One program after another. -/
def Handling.bind {α β : Type} : Handling α → (α → Handling β) → Handling β
  | .done a, f => f a
  | .load k, f => .load fun zones => (k zones).bind f
  | .await k, f => .await fun lookup => (k lookup).bind f
  | .charge src kind isTcp k, f => .charge src kind isTcp fun d => (k d).bind f
  | .transmit response k, f => .transmit response fun sent => (k sent).bind f

/-- How the guarded part of the handler ends. -/
inductive Inner
  | ok (info : Metadata)
  | err (reason : Bytes)
  | panicked
  deriving DecidableEq

/-- Hand a response to the socket. -/
def emit (response : Response) : Handling Inner :=
  .transmit response fun sent =>
    match sent with
    | .ok () => .done (.ok response.metadata)
    | .error e => .done (.err (ofString "send failed: " ++ e))

/-- `u16::clamp`, which panics if the bounds are the wrong way round. -/
def clamp (x low high : ℕ) : Option ℕ := if low ≤ high then some (max low (min x high)) else none

/-- Serialise a reply and send it, echoing an OPT if the client sent one. -/
def send (request : Request) (reply : Reply) : Handling Inner :=
  let metadata := { request.metadata.responseFromRequest with
    code := reply.code, authoritative := reply.authoritative }
  let response : Response := { metadata, answers := reply.answers, authority := reply.authority }
  match request.edns with
  | none => emit response
  | some _ =>
    .load fun zones =>
      let max := zones.config.params.maxUdpPayload
      match if request.isTcp then some max else clamp request.maxPayload 512 max with
      | some advertised => emit { response with edns := some advertised }
      | none => .done .panicked

/-- Handle a request, up to the panic guard. -/
def handleInner (request : Request) : Handling Inner :=
  match request.info with
  | .error e => .done (.err (ofString "malformed request: " ++ e))
  | .ok query =>
    if request.metadata.opCode ≠ .query then send request (.error .notImp)
    else if request.version > 0 then send request (.error .badVers)
    else
      .load fun zones =>
        .await fun lookup =>
          -- the name of a query comes from hickory in lowercase
          let reply := decide zones lookup query.name.toLower query.queryType query.queryClass
          .charge request.src reply.kind request.isTcp fun decision =>
            match decision with
            | .allow => send request reply
            | .drop => .done (.ok request.metadata.responseFromRequest)
            | .truncate =>
              emit { metadata := { request.metadata.responseFromRequest with truncation := true } }

/-- Last-resort SERVFAIL. -/
def servfail (request : Request) : Handling Metadata :=
  let metadata : Metadata :=
    { id := request.metadata.id, isResponse := true, opCode := .query, code := .servFail }
  .transmit { metadata } fun _ => .done metadata

/-- Handle a request: an error or a panic becomes SERVFAIL. -/
def handleRequest (request : Request) : Handling Metadata :=
  (handleInner request).bind fun inner =>
    match inner with
    | .ok info => .done info
    | .err _ => servfail request
    | .panicked => servfail request

end PanoptiDns
