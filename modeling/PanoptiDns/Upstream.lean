import PanoptiDns.Hickory

set_option relaxedAutoImplicit false
set_option autoImplicit false

/-!
# Upstream lookups

The part of `src/upstream.rs` that decides what is served of an upstream's answer. Whether the
upstream is asked at all, and what it says, is the world's: a `LookupOutcome`.

## Main definitions

* `filterUpstream`, `upstreamQname`.
* `LookupOutcome`, `lookupPtr`.
-/

namespace PanoptiDns

open Bytes

/-- Cap on relayed records. -/
def maxRelayedRecords : ℕ := 8

/-- TTL clamp for relayed records. -/
def minRelayTtl : ℕ := 30

/-- TTL clamp for relayed records. -/
def maxRelayTtl : ℕ := 3600

/-- The label appended to a query before asking the upstream. -/
def upstreamLabel : Bytes := ofString "upstream"

/-- Keep only records we are willing to serve as our own. -/
def filterUpstream (qname upQname : Name) (answers : List Record) : List Record :=
  ((answers.filter fun record =>
    record.dnsClass = .IN && record.data.recordType = .PTR && record.name.sameName upQname &&
      match record.data with
      | .ptr _ => true
      | _ => false).take maxRelayedRecords).map fun record =>
    .fromRData qname (max minRelayTtl (min record.ttl maxRelayTtl)) record.data

/-- Append the `upstream` label. -/
def upstreamQname (qname : Name) : Option Name :=
  (Name.fromLabels (qname.labels ++ [upstreamLabel])).toOption

/-- What becomes of a lookup: it is not made, it fails, it times out, or it gives records. -/
inductive LookupOutcome
  | breakerOpen
  | saturated
  | found (answers : List Record)
  | failed
  | timedOut
  deriving DecidableEq

/-- The records that override a PTR; none for every failure. -/
def lookupPtr (qname : Name) : LookupOutcome → List Record
  | .found answers =>
    match upstreamQname qname with
    | some upQname => filterUpstream qname upQname answers
    | none => []
  | _ => []

end PanoptiDns
