import Mathlib.Data.List.Sort
import PanoptiDns.Config.Parse

set_option relaxedAutoImplicit false
set_option autoImplicit false

/-!
# Validation

`src/config/compile.rs`: raw directives to a checked configuration. A validator that pushes one
error and gives up returns that error here; the passes over the file collect them.

## Main definitions

* `compileNetwork`, `compileTemplate`, `compileZone`, `compileListen`, `compileGlobals`.
* `compile`, `Config.parse`.
-/

namespace PanoptiDns

open Bytes

/-- The `%DIGITS%` placeholder, matched without regard to case. -/
def placeholder : Bytes := ofString "%digits%"

/-- Like `%DIGITS%`, but hex digits are grouped in fours and dash-separated. -/
def placeholderDashed : Bytes := ofString "%digits-dashed%"

/-- Parse `<ipv6>/<prefixlen>` with every failure mode reported distinctly. -/
def compileNetwork (v : RawValue) : Except ConfigError (U128 × ℕ) :=
  match splitOnce '/'.toUInt8 v.value with
  | none => .error (v.error .networkMissingPrefixLen)
  | some (addrPart, maskPart) =>
    match Ipv6Addr.fromStr addrPart with
    | none => .error (v.errorAt 0 addrPart.length .networkInvalidAddress)
    | some rawAddr =>
      let maskOffset := addrPart.length + 1
      match parseU32Text maskPart with
      | none => .error (v.errorAt maskOffset maskPart.length .networkPrefixLenNotANumber)
      | some mask =>
        if mask > 128 then
          .error (v.errorAt maskOffset maskPart.length (.networkPrefixLenOutOfRange mask))
        else if mask % 4 ≠ 0 then
          .error (v.errorAt maskOffset maskPart.length (.networkPrefixNotNibbleAligned mask))
        else if mask = 0 then
          .error (v.errorAt maskOffset maskPart.length (.networkPrefixTooShort mask))
        else if mask = 128 then .error (v.error .networkIsSingleAddress)
        else
          let pfx := rawAddr &&& maskBits mask
          if rawAddr ≠ pfx then
            let suggestion := Ipv6Addr.display pfx ++ ofString "/" ++ displayNat 10 mask
            .error (v.error (.networkHostBitsSet suggestion))
          else .ok (pfx, mask)

/-- One segment of a template: literal text, or the label around the first placeholder in it. -/
def compileSegment (v : RawValue) (segment : Bytes) : Except ConfigError FwdLabel :=
  let segLower := lower segment
  let hit :=
    ((find placeholderDashed segLower).map fun at' => (at', placeholderDashed, true)).orElse
      fun _ => (find placeholder segLower).map fun at' => (at', placeholder, false)
  match hit with
  | none => .ok (.literal segment segLower)
  | some (at', ph, dashed) =>
    let malformed := v.error (.resolvesToInvalidName (ofString "malformed placeholder"))
    match strSplitAtChecked segment at' with
    | none => .error malformed
    | some (pre, rest) =>
      match strSplitAtChecked rest ph.length with
      | none => .error malformed
      | some (_, post) => .ok (.digits pre (lower pre) post (lower post) dashed)

/-- The loop of `compile_template` over the segments from index `idx` on: the labels so far, the
index of the last digits label, and whether it was dashed. -/
def templateLoop (v : RawValue) : List Bytes → (idx : ℕ) → List FwdLabel → Option ℕ → Bool →
    Except ConfigError (List FwdLabel × Option ℕ × Bool)
  | [], _, labels, digitsAt, dashedUsed => .ok (labels, digitsAt, dashedUsed)
  | segment :: segments, idx, labels, digitsAt, dashedUsed =>
    if segment.isEmpty then .error (v.error (.resolvesToInvalidName (ofString "empty label")))
    else
      match compileSegment v segment with
      | .error e => .error e
      | .ok (.digits pre preLower post postLower dashed) =>
        templateLoop v segments (idx + 1) (labels ++ [.digits pre preLower post postLower dashed])
          (some idx) dashed
      | .ok (.literal verbatim lower) =>
        templateLoop v segments (idx + 1) (labels ++ [.literal verbatim lower]) digitsAt dashedUsed

/-- Split a `resolves to` template at label boundaries around `%DIGITS%`. -/
def compileTemplate (hk : Hickory) (v : RawValue) (hostNibbles : ℕ) :
    Except ConfigError FwdTemplate :=
  let lowered := lower v.value
  let hits := matchCount placeholder 0 lowered + matchCount placeholderDashed 0 lowered
  if hits = 0 then .error (v.error .placeholderMissing)
  else if hits ≠ 1 then .error (v.error (.placeholderRepeated hits))
  else
    -- a single trailing dot just marks the name as absolute
    let template := stripOne '.'.toUInt8 v.value
    match templateLoop v (template.splitOn '.'.toUInt8) 0 [] none false with
    | .error e => .error e
    | .ok (_, none, _) =>
      .error (v.error (.resolvesToInvalidName
        (ofString "placeholder does not lie within a single label")))
    | .ok (labels, some digitsAt, dashedUsed) =>
      if dashedUsed && hostNibbles % 4 ≠ 0 then
        .error (v.error (.dashedDigitsNotNibbleMultipleOfFour hostNibbles))
      else
        let template : FwdTemplate := ⟨labels, digitsAt⟩
        -- the worst case must be representable, so the request path cannot fail
        let widest := List.replicate (min hostNibbles addrNibbles) 'f'.toUInt8
        match template.render widest with
        | .error e => .error (v.error (.forwardNameTooLong (hk.protoErrorText e)))
        | .ok _ => .ok template

/-- The maps of duplicate detection: where each network and each pattern was first seen. -/
structure Seen where
  networks : List ((U128 × ℕ) × ℕ) := []
  patterns : List (Bytes × ℕ) := []
  deriving DecidableEq

/-- The `with upstream` address of a block. -/
def compileUpstream (upstream : Option RawValue) : Except ConfigError (Option IpAddr) :=
  match upstream with
  | none => .ok none
  | some v =>
    match IpAddr.fromStr v.value with
    | some addr => .ok (some addr)
    | none => .error (v.error .invalidUpstreamAddress)

/-- Validate one `network` block. -/
def compileZone (hk : Hickory) (raw : RawZone) (seen : Seen) : Except ConfigError (Zone × Seen) :=
  match compileNetwork raw.network with
  | .error e => .error e
  | .ok (pfx, mask) =>
    match seen.networks.lookup (pfx, mask) with
    | some firstLine => .error (raw.network.error (.duplicateNetwork firstLine))
    | none =>
      match raw.resolvesTo with
      | none => .error (raw.network.error .missingResolvesTo)
      | some resolvesTo =>
        let hostNibbles := (128 - mask) / 4
        match compileTemplate hk resolvesTo hostNibbles with
        | .error e => .error e
        | .ok fwd =>
          let patternKey := lower resolvesTo.value
          match seen.patterns.lookup patternKey with
          | some firstLine => .error (resolvesTo.error (.duplicateForwardPattern firstLine))
          | none =>
            match compileUpstream raw.upstream with
            | .error e => .error e
            | .ok upstream =>
              match netmaskToPtrName pfx mask with
              | none => .error (raw.network.error (.networkPrefixNotNibbleAligned mask))
              | some ptrZone =>
                match fwd.parent with
                | .error e =>
                  .error (resolvesTo.error (.resolvesToInvalidName (hk.protoErrorText e)))
                | .ok fwdParent =>
                  .ok ({ srcLine := raw.network.line, pfx, mask, hostNibbles, ptrZone
                         resolvesTo := resolvesTo.value, fwd, fwdParent
                         ttl := defaultTtl, upstream },
                    { networks := ((pfx, mask), raw.network.line) :: seen.networks
                      patterns := (patternKey, resolvesTo.line) :: seen.patterns })

/-- `compiled.ttl = globals.ttl`. -/
def Zone.withTtl (ttl : ℕ) (z : Zone) : Zone := { z with ttl }

/-- The loop of `compile` over the blocks: the zones and the errors. -/
def compileZones (hk : Hickory) (ttl : ℕ) : List RawZone → Seen → List Zone × List ConfigError
  | [], _ => ([], [])
  | raw :: raws, seen =>
    match compileZone hk raw seen with
    | .ok (zone, seen) =>
      let rest := compileZones hk ttl raws seen
      (zone.withTtl ttl :: rest.1, rest.2)
    | .error e =>
      let rest := compileZones hk ttl raws seen
      (rest.1, e :: rest.2)

/-- A `listen` address: with a port, or bare on the default port. -/
def compileListen (v : RawValue) : Except ConfigError ListenAddr :=
  match SocketAddr.fromStr v.value with
  | some sock => .ok ⟨sock.ip, sock.port⟩
  | none =>
    match IpAddr.fromStr v.value with
    | some addr => .ok ⟨addr, defaultPort⟩
    | none => .error (v.error .invalidListenAddress)

/-- The loop of `compile` over the `listen` lines. -/
def compileListens : List RawValue → List ListenAddr × List ConfigError
  | [] => ([], [])
  | v :: vs =>
    let rest := compileListens vs
    match compileListen v with
    | .ok addr => (addr :: rest.1, rest.2)
    | .error e => (rest.1, e :: rest.2)

/-! ## Globals -/

/-- A DNS name. -/
def parseName (hk : Hickory) (v : RawValue) (what : String) : Except ConfigError Name :=
  match hk.fromStrRelaxed v.value with
  | some name => .ok name
  | none => .error (v.error (.invalidDnsName what))

/-- A number. -/
def parseU32 (v : RawValue) (what allowed : String) : Except ConfigError ℕ :=
  match parseU32Text v.value with
  | some n => .ok n
  | none => .error (v.error (.invalidNumber what allowed))

/-- A number that must pass a further check. -/
def parseChecked (v : RawValue) (what allowed : String) (ok : ℕ → Bool) : Except ConfigError ℕ := do
  let n ← parseU32 v what allowed
  if ok n then .ok n else .error (v.error (.invalidNumber what allowed))

/-- What the global directives have set so far. -/
structure GlobalState where
  ttl : ℕ := defaultTtl
  params : ServerParams := {}
  primary : Option Name := none
  hostmaster : Option Name := none
  nameservers : List Name := []
  errors : List ConfigError := []
  deriving DecidableEq

/-- Set something to a checked value, or report the error. -/
def GlobalState.set {α : Type} (s : GlobalState) (value : Except ConfigError α)
    (assign : α → GlobalState) : GlobalState :=
  match value with
  | .ok a => assign a
  | .error e => { s with errors := s.errors ++ [e] }

/-- One global directive. -/
def compileGlobal (hk : Hickory) (s : GlobalState) (g : RawGlobal) : GlobalState :=
  let v := g.value
  match g.key with
  | .primary =>
    -- a name that does not parse also unsets the field
    { s with primary := none }.set (parseName hk v "primary") fun n => { s with primary := some n }
  | .hostmaster =>
    { s with hostmaster := none }.set (parseName hk v "hostmaster") fun n =>
      { s with hostmaster := some n }
  | .ns => s.set (parseName hk v "ns") fun n => { s with nameservers := s.nameservers ++ [n] }
  | .ttl =>
    s.set (parseChecked v "ttl" "a TTL in seconds (0-2147483647)" (· ≤ 0x7FFFFFFF)) fun n =>
      { s with ttl := n }
  | .outOfZone =>
    if v.value = ofString "refused" then { s with params.outOfZone := .refused }
    else if v.value = ofString "nxdomain" then { s with params.outOfZone := .nxDomain }
    else
      { s with errors :=
          s.errors ++ [v.error (.invalidChoice "out-of-zone" "`refused` or `nxdomain`")] }
  | .maxUdpPayload =>
    s.set (parseChecked v "max-udp-payload" "512-65535 bytes" fun n => 512 ≤ n && n ≤ 65535)
      fun n => { s with params.maxUdpPayload := n }
  | .upstreamTimeout =>
    s.set (parseChecked v "upstream-timeout" "1-10000 milliseconds" fun n => 1 ≤ n && n ≤ 10000)
      fun n => { s with params.upstreamTimeout := n }
  | .rrlOff => { s with params.rrl.enabled := false }
  | .rrlRps =>
    s.set (parseChecked v "rrl responses-per-second" "at least 1" (1 ≤ ·)) fun n =>
      { s with params.rrl.responsesPerSecond := n }
  | .rrlBurst =>
    s.set (parseChecked v "rrl burst" "at least 1" (1 ≤ ·)) fun n =>
      { s with params.rrl.burst := n }
  | .rrlSlip =>
    s.set (parseU32 v "rrl slip" "0 (always drop) or more") fun n => { s with params.rrl.slip := n }

/-- Anchor a "you set X but not Y" error at whichever of the two was present. -/
def missingPairError (raw : RawConfig) (missing present : String) : ConfigError :=
  let kind := .missingCompanionDirective missing present
  match raw.globals.find? fun g => g.key = .primary || g.key = .hostmaster with
  | some g => g.value.error kind
  | none => ⟨1, [], none, kind⟩

/-- Everything the global directives produce, and the errors in them. -/
structure Globals where
  ttl : ℕ
  soa : Option SoaParams
  nameservers : List Name
  params : ServerParams
  errors : List ConfigError
  deriving DecidableEq

/-- The SOA parameters: both names, or neither. -/
def compileSoa (raw : RawConfig) : Option Name → Option Name → Except ConfigError (Option SoaParams)
  | some primary, some hostmaster =>
    .ok (some ⟨primary, hostmaster, 1, 604800, 86400, 2419200, 60⟩)
  | some _, none => .error (missingPairError raw "hostmaster" "primary")
  | none, some _ => .error (missingPairError raw "primary" "hostmaster")
  | none, none => .ok none

/-- Validate the global directives. -/
def compileGlobals (hk : Hickory) (raw : RawConfig) : Globals :=
  let s := raw.globals.foldl (compileGlobal hk) {}
  match compileSoa raw s.primary s.hostmaster with
  | .ok soa => ⟨s.ttl, soa, s.nameservers, s.params, s.errors⟩
  | .error e => ⟨s.ttl, none, s.nameservers, s.params, s.errors ++ [e]⟩

/-! ## The whole file -/

/-- Sort by mask, longest first; ties keep configuration order. -/
def sortByMask (zones : List Zone) : List Zone := zones.insertionSort fun z w => w.mask ≤ z.mask

/-- Raw directives to a configuration and the errors found. -/
def compile (hk : Hickory) (raw : RawConfig) : Config × List ConfigError :=
  let listen := compileListens raw.listen
  let globals := compileGlobals hk raw
  let zones := compileZones hk globals.ttl raw.zones {}
  (⟨listen.1, sortByMask zones.1, globals.soa, globals.nameservers, globals.params⟩,
    listen.2 ++ globals.errors ++ zones.2)

/-- Parse and validate a configuration file body. -/
def Config.parse (hk : Hickory) (input : Bytes) : Except (List ConfigError) Config :=
  let s := PanoptiDns.parse input
  let compiled := compile hk s.cfg
  let errors := s.errors ++ compiled.2
  if errors.isEmpty then .ok compiled.1 else .error errors

end PanoptiDns
