import PanoptiDns.Lib.Digits
import PanoptiDns.Lib.PrefixMask
import PanoptiDns.Hickory

set_option relaxedAutoImplicit false
set_option autoImplicit false

/-!
# Addresses and `ip6.arpa` names, at nibble granularity

The functions of `src/nibble.rs`. A shift of a `u128` by 128 or more panics in a debug build, so
the shifts here take the proof that their amount is in range; that the definitions are accepted
is already the statement that no shift of this module can overflow.

## Main definitions

* `maskBits` — the network part of a prefix length.
* `ptrNameToAddr`, `netmaskToPtrName` — full reverse names to addresses, networks to reverse
  zones.
* `hostDigits`, `digitsToHost` — the host part as hex digits, and back.
* `dashGroup`, `undashGroup` — hex digits in groups of four.
-/

namespace PanoptiDns

open Bytes PrefixMask

/-- Nibbles in a full IPv6 address. -/
def addrNibbles : ℕ := 32

/-- Labels in a fully-qualified `<32 nibbles>.ip6.arpa` name. -/
def ptrQueryLabels : ℕ := addrNibbles + 2

/-- The lowercase hex alphabet. -/
def hexLower : Bytes := ofString "0123456789abcdef"

/-- `x << s`, for a shift in range. -/
def U128.shl (x : U128) (s : ℕ) (_ : s < 128) : U128 := x <<< s

/-- `x >> s`, for a shift in range. -/
def U128.shr (x : U128) (s : ℕ) (_ : s < 128) : U128 := x >>> s

/-- `u128::MAX`. -/
def U128.max : U128 := BitVec.allOnes 128

/-- Decode one ASCII hex digit, in either case. -/
def hexVal (b : UInt8) : Option UInt8 :=
  if '0'.toUInt8 ≤ b ∧ b ≤ '9'.toUInt8 then some (b - '0'.toUInt8)
  else if 'a'.toUInt8 ≤ b ∧ b ≤ 'f'.toUInt8 then some (b - 'a'.toUInt8 + 10)
  else if 'A'.toUInt8 ≤ b ∧ b ≤ 'F'.toUInt8 then some (b - 'A'.toUInt8 + 10)
  else none

/-- Bitmask selecting the network part of a `mask`-bit prefix; wider values saturate. -/
def maskBits (mask : ℕ) : U128 :=
  if mask = 0 then 0
  else if h : 128 ≤ mask then U128.max
  else ~~~(U128.max.shr mask (by omega))

/-- The loop of `ptr_name_to_addr`: read the nibbles at `position`, `position + 1`, … up to 31,
one label each, and return the address with the labels left over. -/
def ptrNibbles : (todo position : ℕ) → position + todo ≤ addrNibbles → List Bytes → U128 →
    Option (U128 × List Bytes)
  | 0, _, _, labels, addr => some (addr, labels)
  | todo + 1, position, h, labels, addr =>
    match labels with
    | [digit] :: rest =>
      match hexVal digit with
      | some value =>
        ptrNibbles todo (position + 1) (by omega) rest
          (addr ||| U128.shl (value.toBitVec.zeroExtend 128) (position * 4)
            (by unfold addrNibbles at h; omega))
      | none => none
    -- no label left, or a label that is not exactly one byte long
    | _ => none

/-- Strictly parse a `<32 nibbles>.ip6.arpa` query name into the address it denotes. -/
def ptrNameToAddr (name : Name) : Option U128 :=
  if name.numLabels ≠ ptrQueryLabels then none
  else
    match ptrNibbles addrNibbles 0 (by simp) name.iter 0 with
    | some (addr, ip6 :: arpa :: _) =>
      if !eqIgnoreCase ip6 (ofString "ip6") then none
      else if !eqIgnoreCase arpa (ofString "arpa") then none
      else some addr
    | _ => none

/-- The `ip6.arpa` zone name that a network prefix delegates to. -/
def netmaskToPtrName (pfx : U128) (mask : ℕ) : Option Name :=
  if mask > 128 ∨ mask % 4 ≠ 0 then none
  else do
    let ptrNibbles := mask / 4
    -- the top `ptrNibbles` nibbles, ascending by significance from just above the host part
    let digits ← ((List.finRange addrNibbles).drop (addrNibbles - ptrNibbles)).mapM
      fun position : Fin addrNibbles =>
        hexLower[(pfx.shr (position * 4) (by have := position.isLt; unfold addrNibbles at this; omega)
          &&& 0xF).toNat]?
    let labels := digits.map fun digit => [digit]
    (Name.fromLabels (labels ++ [ofString "ip6", ofString "arpa"])).toOption

/-- `format!("{x:0width$x}")`: lowercase hex, padded with zeros to at least `width` digits. -/
def formatHex (width : ℕ) (x : U128) : Bytes :=
  let digits := if x.toNat = 0 then [0] else (Nat.digits 16 x.toNat).reverse
  (digits.leftpad width 0).map fun d => hexLower.getD d 0

/-- Render the low `hostNibbles` nibbles of `addr` as lowercase hex, zero-padded. -/
def hostDigits (addr : U128) (hostNibbles : ℕ) : Option Bytes :=
  if hostNibbles > addrNibbles then none
  else if hostNibbles = 0 then some []
  else
    let host := addr &&& ~~~maskBits (128 - hostNibbles * 4)
    some (formatHex hostNibbles host)

/-- The loop of `digits_to_host`. -/
def hostLoop : Bytes → U128 → Option U128
  | [], host => some host
  | byte :: digits, host =>
    match hexVal byte with
    | some value => hostLoop digits (host.shl 4 (by omega) ||| value.toBitVec.zeroExtend 128)
    | none => none

/-- Decode exactly `hostNibbles` hex digits into the host part of an address. -/
def digitsToHost (digits : Bytes) (hostNibbles : ℕ) : Option U128 :=
  if digits.length ≠ hostNibbles then none else hostLoop digits 0

/-- `slice::chunks(n)` of a list of at most `fuel` elements. -/
def chunks (n : ℕ) : ℕ → Bytes → List Bytes
  | 0, _ => []
  | fuel + 1, s => if s.isEmpty then [] else s.take n :: chunks n fuel (s.drop n)

/-- `str::from_utf8(chunk).unwrap_or_default()`. -/
def utf8OrDefault (s : Bytes) : Bytes := if isUtf8 s then s else []

/-- The byte between two groups of digits. -/
def dash : UInt8 := '-'.toUInt8

/-- Insert `-` every 4 hex digits. -/
def dashGroup (digits : Bytes) : Bytes :=
  (chunks 4 digits.length digits).zipIdx.foldl (fun out p =>
    (if p.2 > 0 then out ++ [dash] else out) ++ utf8OrDefault p.1) []

/-- The loop of `undash_group`, with the number of groups still to read. -/
def undashLoop : (groups : ℕ) → (input out : Bytes) → Option Bytes
  | 0, input, out => if input.isEmpty then some out else none
  | groups + 1, input, out => do
    let (chunk, rest) ← splitAtChecked input 4
    let out := out ++ chunk
    if 0 < groups then
      let (d, rest) ← splitAtChecked rest 1
      if d ≠ [dash] then none else undashLoop groups rest out
    else undashLoop groups rest out

/-- Inverse of `dashGroup`: strip a `-` that must appear after every 4th digit and nowhere
else. -/
def undashGroup (input : Bytes) (hostNibbles : ℕ) : Option Bytes :=
  let groups := hostNibbles / 4
  if groups = 0 then none else undashLoop groups input []

end PanoptiDns
