import PanoptiDns.Config.Basic

set_option relaxedAutoImplicit false
set_option autoImplicit false

/-!
# The line-oriented parser

`src/config/parse.rs`. The loop of `parse` does two things to a line: it recognises the line,
without looking at what came before, and it files what it found. They are `scanLine` and
`place`; a pass over the file is the fold of their composition.

## Main definitions

* `RawValue`, `RawZone`, `RawGlobal`, `RawConfig` — the file before validation.
* `directives`, `flags` — the keywords.
* `scanLine`, `place`, `parse`.
-/

namespace PanoptiDns

open Bytes

/-- A directive value with enough provenance to point a caret at it. -/
structure RawValue where
  line : ℕ
  rawLine : Bytes
  span : ℕ × ℕ
  value : Bytes
  deriving DecidableEq

/-- Build an error anchored at this value. -/
def RawValue.error (v : RawValue) (kind : ConfigErrorKind) : ConfigError :=
  ⟨v.line, v.rawLine, some v.span, kind⟩

/-- Build an error anchored at a sub-range of this value. -/
def RawValue.errorAt (v : RawValue) (offset len : ℕ) (kind : ConfigErrorKind) : ConfigError :=
  let start := min (v.span.1 + offset) v.span.2
  let stop := min (start + len) (max v.span.2 start)
  ⟨v.line, v.rawLine, some (start, stop), kind⟩

/-- One `network` block, before validation. -/
structure RawZone where
  network : RawValue
  resolvesTo : Option RawValue
  upstream : Option RawValue
  deriving DecidableEq

/-- The global settings. -/
inductive GlobalKey
  | primary | hostmaster | ns | ttl | outOfZone | maxUdpPayload | upstreamTimeout
  | rrlOff | rrlRps | rrlBurst | rrlSlip
  deriving DecidableEq

/-- A global setting, before validation. -/
structure RawGlobal where
  key : GlobalKey
  value : RawValue
  deriving DecidableEq

/-- The whole file, before validation. -/
structure RawConfig where
  listen : List RawValue := []
  zones : List RawZone := []
  globals : List RawGlobal := []
  deriving DecidableEq

/-- Where a directive may appear. -/
inductive Scope
  | global | zone | anywhere
  deriving DecidableEq

/-- What to do with the parsed value. -/
inductive Target
  | listen | network | resolvesTo | upstream
  | global (key : GlobalKey)
  deriving DecidableEq

/-- A keyword with a value: its words, how diagnostics show it, and what becomes of the value. -/
structure Directive where
  words : List Bytes
  display : String
  scope : Scope
  target : Target
  lowercase : Bool
  deriving DecidableEq

/-- The keywords with a value, longest first. -/
def directives : List Directive := [
  ⟨[ofString "resolves", ofString "to"], "resolves to", .zone, .resolvesTo, false⟩,
  ⟨[ofString "with", ofString "upstream"], "with upstream", .zone, .upstream, true⟩,
  ⟨[ofString "rrl", ofString "responses-per-second"], "rrl responses-per-second", .global,
    .global .rrlRps, true⟩,
  ⟨[ofString "rrl", ofString "burst"], "rrl burst", .global, .global .rrlBurst, true⟩,
  ⟨[ofString "rrl", ofString "slip"], "rrl slip", .global, .global .rrlSlip, true⟩,
  ⟨[ofString "upstream-timeout"], "upstream-timeout", .global, .global .upstreamTimeout, true⟩,
  ⟨[ofString "max-udp-payload"], "max-udp-payload", .global, .global .maxUdpPayload, true⟩,
  ⟨[ofString "out-of-zone"], "out-of-zone", .global, .global .outOfZone, true⟩,
  ⟨[ofString "hostmaster"], "hostmaster", .global, .global .hostmaster, true⟩,
  ⟨[ofString "primary"], "primary", .global, .global .primary, true⟩,
  ⟨[ofString "network"], "network", .anywhere, .network, true⟩,
  ⟨[ofString "listen"], "listen", .anywhere, .listen, true⟩,
  ⟨[ofString "ttl"], "ttl", .global, .global .ttl, true⟩,
  ⟨[ofString "ns"], "ns", .global, .global .ns, true⟩]

/-- A keyword whose entire line is the directive. -/
structure Flag where
  words : List Bytes
  display : String
  key : GlobalKey
  deriving DecidableEq

/-- The keywords without a value. -/
def flags : List Flag := [⟨[ofString "rrl", ofString "off"], "rrl off", .rrlOff⟩]

/-- The loop of `match_words` over the words after the first `i`: bytes consumed so far, and the
rest of the line. -/
def matchWordsFrom : (i : ℕ) → List Bytes → (consumed : ℕ) → Bytes → Option (ℕ × Bytes)
  | _, [], consumed, rest => some (consumed, rest)
  | i, word :: words, consumed, rest => do
    let (consumed, rest) ←
      if i > 0 then
        let trimmed := trimStart rest
        -- words must be whitespace-separated
        if trimmed.length = rest.length then none
        else some (consumed + (rest.length - trimmed.length), trimmed)
      else some (consumed, rest)
    let (head, tail) ← splitAtChecked rest word.length
    if !eqIgnoreCase head word then none
    else matchWordsFrom (i + 1) words (consumed + word.length) tail

/-- Match the keyword words, returning bytes consumed and the remainder. -/
def matchWords (line : Bytes) (words : List Bytes) : Option (ℕ × Bytes) :=
  matchWordsFrom 0 words 0 line

/-- Match a keyword followed by whitespace and a nonempty value, returning the offset of the
value and the value. -/
def stripKeyword (line : Bytes) (words : List Bytes) : Option (ℕ × Bytes) := do
  let (consumed, rest) ← matchWords line words
  let trimmed := trimStart rest
  if trimmed.length = rest.length then none
  else
    let consumed := consumed + (rest.length - trimmed.length)
    let value := trimEnd trimmed
    if value.isEmpty then none else some (consumed, value)

/-- True if the whole line is exactly these keyword words. -/
def matchesFlag (line : Bytes) (words : List Bytes) : Bool :=
  (matchWords line words).any fun p => (trimEnd (trimStart p.2)).isEmpty

/-- True if the line's first word is `word`. -/
def startsWithWord (line word : Bytes) : Bool :=
  match splitAtChecked line word.length with
  | some (head, tail) => eqIgnoreCase head word && tail.head?.all isWhitespace
  | none => false

/-- Distinguish a known keyword missing its value from an unknown directive. -/
def unmatchedLineError (lineNo : ℕ) (raw : Bytes) (indent : ℕ) (body : Bytes) : ConfigError :=
  let known := (directives.map (fun d => (d.display, d.words)) ++
    flags.map (fun f => (f.display, f.words))).find? fun p => p.2.head?.any (startsWithWord body)
  let firstWord := body.takeWhile (!isWhitespace ·)
  let wordLen := max firstWord.length 1
  ⟨lineNo, raw, some (indent, indent + wordLen),
    match known with
    | some (display, _) => .missingValue display
    | none => .unknownDirective firstWord⟩

/-- What a line is, whatever came before it. -/
inductive Scanned
  | blank
  | flag (f : Flag) (value : RawValue)
  | directive (d : Directive) (value : RawValue)
  | bad (error : ConfigError)
  deriving DecidableEq

/-- The first directive whose keyword the line starts with, with the offset of its value and the
value. -/
def matchDirective (body : Bytes) : Option (Directive × ℕ × Bytes) :=
  directives.findSome? fun d => (stripKeyword body d.words).map fun p => (d, p.1, p.2)

/-- Recognise a line, already stripped of its line ending. -/
def scanLine (lineNo : ℕ) (raw : Bytes) : Scanned :=
  let body := trimStart raw
  let indent := raw.length - body.length
  if body.isEmpty || body.head? == some '#'.toUInt8 then .blank
  else
    -- value-less flags first, so `rrl off` is not read as `rrl` + value
    match flags.find? (fun f => matchesFlag body f.words) with
    | some f => .flag f ⟨lineNo, raw, (indent, raw.length), []⟩
    | none =>
      match matchDirective body with
      | none => .bad (unmatchedLineError lineNo raw indent body)
      | some (d, offset, value) =>
        let start := indent + offset
        if !isUtf8 value then .bad ⟨lineNo, raw, some (start, raw.length), .notUtf8⟩
        else
          let text := if d.lowercase then lower value else value
          .directive d ⟨lineNo, raw, (start, start + text.length), text⟩

/-- The raw configuration and the errors found so far. -/
structure ParseState where
  cfg : RawConfig := {}
  errors : List ConfigError := []
  deriving DecidableEq

/-- Report an error. -/
def ParseState.push (s : ParseState) (e : ConfigError) : ParseState :=
  { s with errors := s.errors ++ [e] }

/-- Fill a slot of a `network` block, or report that it is filled already. -/
def fillSlot (display : String) (value : RawValue) (slot : Option RawValue) :
    Except ConfigError RawValue :=
  match slot with
  | some first => .error (value.error (.duplicateDirective display first.line))
  | none => .ok value

/-- File a value at its target, the scope having been checked. -/
def file (d : Directive) (value : RawValue) (s : ParseState) : ParseState :=
  match d.target with
  | .listen => { s with cfg.listen := s.cfg.listen ++ [value] }
  | .network => { s with cfg.zones := s.cfg.zones ++ [⟨value, none, none⟩] }
  | .resolvesTo =>
    match s.cfg.zones.getLast? with
    | none => s
    | some zone =>
      match fillSlot d.display value zone.resolvesTo with
      | .error e => s.push e
      | .ok v =>
        { s with cfg.zones := s.cfg.zones.dropLast ++ [{ zone with resolvesTo := some v }] }
  | .upstream =>
    match s.cfg.zones.getLast? with
    | none => s
    | some zone =>
      match fillSlot d.display value zone.upstream with
      | .error e => s.push e
      | .ok v => { s with cfg.zones := s.cfg.zones.dropLast ++ [{ zone with upstream := some v }] }
  | .global key =>
    -- `ns` is repeatable; everything else is single-valued
    match if key = .ns then none else s.cfg.globals.find? (·.key = key) with
    | some first => s.push (value.error (.duplicateDirective d.display first.value.line))
    | none => { s with cfg.globals := s.cfg.globals ++ [⟨key, value⟩] }

/-- File a recognised line: the scope check, then the target. -/
def place (s : ParseState) : Scanned → ParseState
  | .blank => s
  | .bad e => s.push e
  | .flag f value =>
    if !s.cfg.zones.isEmpty then s.push (value.error (.globalAfterNetwork f.display))
    else { s with cfg.globals := s.cfg.globals ++ [⟨f.key, value⟩] }
  | .directive d value =>
    match d.scope, s.cfg.zones.isEmpty with
    | .global, false => s.push (value.error (.globalAfterNetwork d.display))
    | .zone, true => s.push (value.error (.directiveBeforeNetwork d.display))
    | _, _ => file d value s

/-- The lines of a file as the parser sees them, without their endings. -/
def fileLines (input : Bytes) : List Bytes := (lines input).map (stripOne '\r'.toUInt8)

/-- The number of the line at an index, saturating at `u32::MAX`. -/
def lineNo (idx : ℕ) : ℕ := min (idx + 1) (2 ^ 32 - 1)

/-- Parse a configuration file body. -/
def parse (input : Bytes) : ParseState :=
  (fileLines input).zipIdx.foldl (fun s p => place s (scanLine (lineNo p.2) p.1)) {}

end PanoptiDns
