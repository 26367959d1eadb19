import PanoptiDns.Config.Basic

set_option relaxedAutoImplicit false
set_option autoImplicit false

/-!
# Zone resolution

Query name in, records out: the functions of `src/zone/synth.rs`, `src/zone/lookup.rs` and
`src/zone/mod.rs`.

## Main definitions

* `forwardName`, `ptrRecord`, `aaaaRecord` — building the records we answer with.
* `zoneForAddr`, `matchPtr`, `matchZoneForward`, `matchForward`, `zoneContaining` — matching a
  query name against the configured zones.
* `resolve` — what the configuration says about a query.
-/

namespace PanoptiDns

open Bytes

/-! ## Building records -/

/-- The forward name that `addr` reverse-resolves to. -/
def forwardName (zone : Zone) (addr : U128) : Option Name := do
  let digits ← hostDigits addr zone.hostNibbles
  (zone.fwd.render digits).toOption

/-- The PTR record answering a reverse query for `addr`. -/
def ptrRecord (zone : Zone) (qname : Name) (addr : U128) : Option Record := do
  let target ← forwardName zone addr
  return .fromRData qname zone.ttl (.ptr target)

/-- The AAAA record for a synthesized forward name. -/
def aaaaRecord (zone : Zone) (qname : Name) (addr : U128) : Record :=
  .fromRData qname zone.ttl (.aaaa addr)

/-- The types a zone holds for a forward name. -/
def forwardHasType (qtype : RecordType) : Bool := qtype = .AAAA || qtype = .ANY

/-- The types a zone holds for a reverse name. -/
def reverseHasType (qtype : RecordType) : Bool := qtype = .PTR || qtype = .ANY

/-! ## Matching names -/

/-- Strip `pfx`, already lowercase, without regard to case. -/
def stripPrefixCi (label pfx : Bytes) : Option Bytes := do
  let (head, tail) ← splitAtChecked label pfx.length
  if eqIgnoreCase head pfx then some tail else none

/-- Strip `suffix`, already lowercase, without regard to case. -/
def stripSuffixCi (label suffix : Bytes) : Option Bytes := do
  if label.length < suffix.length then none
  else
    let (head, tail) ← splitAtChecked label (label.length - suffix.length)
    if eqIgnoreCase tail suffix then some head else none

/-- The test of `zone_for_addr`: the address is in the zone's network. -/
def Zone.contains (zone : Zone) (addr : U128) : Bool := addr &&& maskBits zone.mask == zone.pfx

/-- Find the zone containing `addr`, longest prefix first. -/
def zoneForAddr (config : Config) (addr : U128) : Option Zone :=
  config.zones.find? (·.contains addr)

/-- Match a reverse-DNS query name. -/
def matchPtr (config : Config) (qname : Name) : Option (Zone × U128) := do
  let addr ← ptrNameToAddr qname
  (zoneForAddr config addr).map fun zone => (zone, addr)

/-- The host part a label gives, if it is the placeholder's. -/
def matchDigits (hostNibbles : ℕ) (preLower postLower : Bytes) (dashed : Bool) (label : Bytes) :
    Option U128 := do
  let rest ← stripPrefixCi label preLower
  let middle ← stripSuffixCi rest postLower
  if dashed then digitsToHost (← undashGroup middle hostNibbles) hostNibbles
  else digitsToHost middle hostNibbles

/-- The loop of `match_zone_forward` over the labels of the query zipped with those of the
template: the host part found so far. -/
def forwardLoop (hostNibbles : ℕ) : List (Bytes × FwdLabel) → Option U128 → Option (Option U128)
  | [], host => some host
  | (label, .literal _ lower) :: rest, host =>
    if !eqIgnoreCase label lower then none else forwardLoop hostNibbles rest host
  | (label, .digits _ preLower _ postLower dashed) :: rest, _ => do
    let host ← matchDigits hostNibbles preLower postLower dashed label
    forwardLoop hostNibbles rest (some host)

/-- Match `qname` against one zone's forward template. -/
def matchZoneForward (zone : Zone) (qname : Name) : Option U128 :=
  if qname.numLabels ≠ zone.fwd.labelCount then none
  else do
    let host ← forwardLoop zone.hostNibbles (qname.iter.zip zone.fwd.labels) none
    host.map fun host => zone.pfx ||| host

/-- Match a forward query name against every zone. -/
def matchForward (config : Config) (qname : Name) : Option (Zone × U128) :=
  config.zones.findSome? fun zone => (matchZoneForward zone qname).map fun addr => (zone, addr)

/-- The zone whose namespace contains `qname`, if any. -/
def zoneContaining (config : Config) (qname : Name) : Option Zone :=
  config.zones.find? fun zone => zone.ptrZone.zoneOf qname || zone.fwdParent.zoneOf qname

/-! ## Resolution -/

/-- What the configuration says about a query. -/
inductive Outcome
  /-- Records to return, authoritatively; none means NODATA. -/
  | answer (zone : Zone) (records : List Record)
  /-- The name lies inside a zone we serve but denotes nothing at all. -/
  | noName (zone : Zone)
  /-- Not our namespace. -/
  | noZone
  deriving DecidableEq

/-- What the forward templates and the apexes say about a query. -/
def resolveForward (config : Config) (qname : Name) (qtype : RecordType) : Outcome :=
  match matchForward config qname with
  | some (zone, addr) =>
    .answer zone (if forwardHasType qtype then [aaaaRecord zone qname addr] else [])
  | none =>
    match zoneContaining config qname with
    | some zone => .noName zone
    | none => .noZone

/-- Resolve a query against the configuration: the reverse zones for a reverse type, then the
forward templates whatever the type. -/
def resolve (config : Config) (qname : Name) (qtype : RecordType) : Outcome :=
  match if reverseHasType qtype then matchPtr config qname else none with
  | some (zone, addr) => .answer zone (ptrRecord zone qname addr).toList
  | none => resolveForward config qname qtype

end PanoptiDns
