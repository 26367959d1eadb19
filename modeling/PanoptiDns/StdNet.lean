import Mathlib.Data.Nat.Digits.Defs
import PanoptiDns.Hickory

set_option relaxedAutoImplicit false
set_option autoImplicit false

/-!
# Numbers and addresses in text, as the standard library reads them

`u32::from_str` and the address parsers of `core::net`. The standard library runs every one of
its address parsers under `read_atomically`, which gives the input back when the parser fails;
here a parser returns what is left of the input only when it succeeds, so going back is using
the old input.

## Main definitions

* `IpAddr`, `SocketAddr`.
* `parseU32Text`, `Ipv6Addr.fromStr`, `IpAddr.fromStr`, `SocketAddr.fromStr` — the `FromStr`
  implementations.
* `Ipv6Addr.display` — the text of an IPv6 address.
-/

namespace PanoptiDns

open Bytes

/-- `std::net::IpAddr`. -/
inductive IpAddr
  | v4 (addr : BitVec 32)
  | v6 (addr : U128)
  deriving DecidableEq

/-- `std::net::SocketAddr`. -/
structure SocketAddr where
  ip : IpAddr
  port : ℕ
  deriving DecidableEq

/-- `char::to_digit`, for a radix of at most 16. -/
def toDigit (radix : ℕ) (b : UInt8) : Option ℕ :=
  let value :=
    if 48 ≤ b ∧ b ≤ 57 then b.toNat - 48
    else if 97 ≤ b ∧ b ≤ 102 then b.toNat - 87
    else if 65 ≤ b ∧ b ≤ 70 then b.toNat - 55
    else 16
  if value < radix then some value else none

/-- The value of a list of digits, `none` once it exceeds `max`. -/
def checkedDigits (radix max : ℕ) : List ℕ → ℕ → Option ℕ
  | [], acc => some acc
  | d :: ds, acc =>
    if acc * radix + d ≤ max then checkedDigits radix max ds (acc * radix + d) else none

/-- `u32::from_str`: an optional `+`, then decimal digits, at least one and no overflow. -/
def parseU32Text (s : Bytes) : Option ℕ :=
  let digits := match s with
    | b :: rest => if b = '+'.toUInt8 then rest else s
    | [] => s
  if digits.isEmpty then none
  else (digits.mapM (toDigit 10)).bind fun ds => checkedDigits 10 (2 ^ 32 - 1) ds 0

/-- A parser of a prefix of the input. -/
abbrev AddrParser := StateT Bytes Option

namespace AddrParser

/-- The longest run of digits at the front of the input. -/
def digitRun (radix : ℕ) : Bytes → List ℕ × Bytes
  | [] => ([], [])
  | b :: s =>
    match toDigit radix b with
    | some d => (d :: (digitRun radix s).1, (digitRun radix s).2)
    | none => ([], b :: s)

/-- `Parser::parse_with`: the parser must consume the whole input. -/
def parseWith {α : Type} (p : AddrParser α) (s : Bytes) : Option α :=
  match p s with
  | some (a, []) => some a
  | _ => none

/-- `Parser::read_given_char`. -/
def readGivenChar (target : Char) : AddrParser Unit
  | b :: s => if b = target.toUInt8 then some ((), s) else none
  | [] => none

/-- `Parser::read_separator`: the separator stands before every item but the first. -/
def readSeparator {α : Type} (sep : Char) (index : ℕ) (inner : AddrParser α) : AddrParser α := do
  if index > 0 then readGivenChar sep
  inner

/-- `Parser::read_number` at a type whose largest value is `max`. -/
def readNumber (radix max : ℕ) (maxDigits : Option ℕ) (allowZeroPrefix : Bool) :
    AddrParser ℕ := fun s =>
  let (digits, rest) := digitRun radix s
  let hasLeadingZero := digits.head? == some 0
  if maxDigits.any (· < digits.length) then none
  else if digits.length = 0 then none
  else if !allowZeroPrefix && hasLeadingZero && digits.length > 1 then none
  else (checkedDigits radix max digits 0).map fun n => (n, rest)

/-- `Parser::read_ipv4_addr`: four octets, most significant first. -/
def readIpv4Addr : AddrParser (List ℕ) :=
  (List.range 4).mapM fun i => readSeparator '.' i (readNumber 10 255 (some 3) false)

/-- The loop of `read_groups` at group `i` of `limit`: the groups read, and whether they end in
an embedded IPv4 address. -/
def readGroups : (todo i limit : ℕ) → Bytes → List ℕ × Bool × Bytes
  | 0, _, _, s => ([], false, s)
  | todo + 1, i, limit, s =>
    let ipv4 := if i < limit - 1 then readSeparator ':' i readIpv4Addr s else none
    match ipv4 with
    | some ([one, two, three, four], s) => ([one * 256 + two, three * 256 + four], true, s)
    | _ =>
      match readSeparator ':' i (readNumber 16 0xFFFF (some 4) true) s with
      | some (g, s) =>
        let (gs, v4, s) := readGroups todo (i + 1) limit s
        (g :: gs, v4, s)
      | none => ([], false, s)

/-- `Parser::read_ipv6_addr`: eight groups, most significant first. -/
def readIpv6Addr : AddrParser (List ℕ) := fun s =>
  let (head, headIpv4, s) := readGroups 8 0 8 s
  if head.length = 8 then some (head, s)
  -- an IPv4 part is not allowed before `::`
  else if headIpv4 then none
  else do
    let ((), s) ← readGivenChar ':' s
    let ((), s) ← readGivenChar ':' s
    -- the `::` stands for at least one group
    let limit := 8 - (head.length + 1)
    let (tail, _, s) := readGroups limit 0 limit s
    some (head ++ List.replicate (8 - head.length - tail.length) 0 ++ tail, s)

/-- `Parser::read_port`. -/
def readPort : AddrParser ℕ := do
  readGivenChar ':'
  readNumber 10 (2 ^ 16 - 1) none true

/-- `Parser::read_scope_id`. -/
def readScopeId : AddrParser ℕ := do
  readGivenChar '%'
  readNumber 10 (2 ^ 32 - 1) none true

end AddrParser

/-- The integer of a list of groups of `bits` bits, most significant first. -/
def ofGroups (bits : ℕ) (groups : List ℕ) : ℕ := groups.foldl (fun acc g => acc * 2 ^ bits + g) 0

open AddrParser

/-- `Ipv6Addr::from_str`. -/
def Ipv6Addr.fromStr (s : Bytes) : Option U128 :=
  (parseWith readIpv6Addr s).map fun groups => BitVec.ofNat 128 (ofGroups 16 groups)

/-- `IpAddr::from_str`. -/
def IpAddr.fromStr (s : Bytes) : Option IpAddr :=
  let v4 : AddrParser IpAddr := do return .v4 (BitVec.ofNat 32 (ofGroups 8 (← readIpv4Addr)))
  let v6 : AddrParser IpAddr := do return .v6 (BitVec.ofNat 128 (ofGroups 16 (← readIpv6Addr)))
  parseWith (fun s => (v4 s).orElse fun _ => v6 s) s

/-- `SocketAddr::from_str`; a scope is read and, like `sock.ip()` and `sock.port()`, not kept. -/
def SocketAddr.fromStr (s : Bytes) : Option SocketAddr :=
  let v4 : AddrParser SocketAddr := do
    let groups ← readIpv4Addr
    return ⟨.v4 (BitVec.ofNat 32 (ofGroups 8 groups)), ← readPort⟩
  let v6 : AddrParser SocketAddr := do
    readGivenChar '['
    let groups ← readIpv6Addr
    fun s => some ((), ((readScopeId s).map Prod.snd).getD s)
    readGivenChar ']'
    return ⟨.v6 (BitVec.ofNat 128 (ofGroups 16 groups)), ← readPort⟩
  parseWith (fun s => (v4 s).orElse fun _ => v6 s) s

/-- The text of a number. -/
def displayNat (radix n : ℕ) : Bytes :=
  let digits := if n = 0 then [0] else (Nat.digits radix n).reverse
  digits.map fun d => (ofString "0123456789abcdef").getD d 0

namespace Ipv6Addr

/-- `Ipv6Addr::segments`. -/
def segments (a : U128) : List ℕ :=
  (List.range 8).map fun i => a.toNat / 2 ^ (16 * (7 - i)) % 2 ^ 16

/-- One step of the search for the longest run of zero segments: the longest run so far and the
current one, each as start and length. -/
def zeroSpanStep (spans : (ℕ × ℕ) × (ℕ × ℕ)) (seg : ℕ × ℕ) : (ℕ × ℕ) × (ℕ × ℕ) :=
  let (longest, current) := spans
  if seg.1 = 0 then
    let current := (if current.2 = 0 then seg.2 else current.1, current.2 + 1)
    (if current.2 > longest.2 then current else longest, current)
  else (longest, (0, 0))

/-- A colon-separated part of an address. -/
def fmtSubslice (segs : List ℕ) : Bytes := [':'.toUInt8].intercalate (segs.map (displayNat 16))

/-- The text of an IPv6 address. -/
def display (a : U128) : Bytes :=
  let segs := segments a
  if segs.take 6 = [0, 0, 0, 0, 0, 0xFFFF] then
    let octets := (List.range 4).map fun i => a.toNat / 2 ^ (8 * (3 - i)) % 2 ^ 8
    ofString "::ffff:" ++ ['.'.toUInt8].intercalate (octets.map (displayNat 10))
  else
    let zeroes := (segs.zipIdx.foldl zeroSpanStep ((0, 0), (0, 0))).1
    if zeroes.2 > 1 then
      fmtSubslice (segs.take zeroes.1) ++ ofString "::" ++
        fmtSubslice (segs.drop (zeroes.1 + zeroes.2))
    else fmtSubslice segs

end Ipv6Addr

end PanoptiDns
