import PanoptiDns.Lib.Digits
import PanoptiDns.StdNet

set_option relaxedAutoImplicit false
set_option autoImplicit false

/-!
# Addresses as text, and back

The address parsers read what the address printers write. Each parser takes its part off the
front of the input and leaves the rest, so each lemma is stated with a rest, together with what
the rest must not begin with.

## Main definitions

* `Stops`, `Boundary` — what may follow a number, and what may follow an IPv6 address.
* `Ipv4Addr.display`, `IpAddr.display`, `SocketAddr.display` — the texts the standard library
  gives the other addresses.

## Main results

* `parseU32Text_displayNat` — decimal numbers.
* `readIpv6Addr_display` — IPv6 addresses in all three spellings: in full, with the longest run of
  zero groups left out, and with an IPv4 address at the end.
* `Ipv6Addr.fromStr_display`, `IpAddr.fromStr_display`, `SocketAddr.fromStr_display`.
-/

namespace PanoptiDns

open Bytes AddrParser

/-! ## Digits -/

/-- The character of a digit. -/
def digitChar (d : ℕ) : UInt8 := (ofString "0123456789abcdef").getD d 0

/-- The character of a digit is read as the digit. -/
lemma toDigit_digitChar {radix d : ℕ} (hr : radix ≤ 16) (hd : d < radix) :
    toDigit radix (digitChar d) = some d := by
  have hvalue : ∀ e : Fin 16, toDigit 16 (digitChar e) = some e.val := by decide
  have h := hvalue ⟨d, by omega⟩
  simp only [toDigit, Option.ite_none_right_eq_some, Option.some.injEq] at h ⊢
  rw [h.2]
  exact ⟨hd, rfl⟩

/-- A digit is none of the separators. -/
lemma digitChar_ne {d : ℕ} (hd : d < 16) : digitChar d ≠ '.'.toUInt8 ∧ digitChar d ≠ '+'.toUInt8 ∧
    digitChar d ≠ '/'.toUInt8 := by
  have hne : ∀ e : Fin 16, digitChar e ≠ '.'.toUInt8 ∧ digitChar e ≠ '+'.toUInt8 ∧
      digitChar e ≠ '/'.toUInt8 := by decide
  exact hne ⟨d, hd⟩

/-- A decimal digit is a hexadecimal one. -/
lemma toDigit_ten_of_sixteen {b : UInt8} (h : toDigit 16 b = none) : toDigit 10 b = none := by
  simp only [toDigit, ite_eq_right_iff, reduceCtorEq, imp_false] at h ⊢
  omega

/-- The input does not begin with a digit. -/
def Stops (radix : ℕ) (s : Bytes) : Prop := ∀ b ∈ s.head?, toDigit radix b = none

/-- The end of the text stops a number. -/
lemma stops_nil (radix : ℕ) : Stops radix [] := by simp [Stops]

/-- So does a byte that is no digit. -/
lemma stops_cons {radix : ℕ} {b : UInt8} (h : toDigit radix b = none) (s : Bytes) :
    Stops radix (b :: s) := by simpa [Stops] using h

/-- Where a number stops there are no digits to take. -/
lemma digitRun_of_stops {radix : ℕ} {s : Bytes} (h : Stops radix s) :
    digitRun radix s = ([], s) := by
  cases s with
  | nil => rfl
  | cons b s => rw [digitRun, h b rfl]

/-- A run of digits ends where the digits do. -/
lemma digitRun_map_digitChar {radix : ℕ} (hr : radix ≤ 16) {ds : List ℕ} (hds : ∀ d ∈ ds, d < radix)
    {rest : Bytes} (hrest : Stops radix rest) :
    digitRun radix (ds.map digitChar ++ rest) = (ds, rest) := by
  induction ds with
  | nil => exact digitRun_of_stops hrest
  | cons d ds ih =>
    have hd := toDigit_digitChar hr (hds d (by simp))
    simp only [List.map_cons, List.cons_append, digitRun, hd,
      ih fun e he => hds e (by simp [he])]

/-- Nothing overflows on the way to a value that does not. -/
lemma checkedDigits_eq (radix max : ℕ) (hr : 0 < radix) (ds : List ℕ) (acc : ℕ)
    (h : ds.foldl (fun a d => a * radix + d) acc ≤ max) :
    checkedDigits radix max ds acc = some (ds.foldl (fun a d => a * radix + d) acc) := by
  have hgrow : ∀ (ds : List ℕ) (acc : ℕ), acc ≤ ds.foldl (fun a d => a * radix + d) acc := by
    intro ds
    induction ds with
    | nil => simp
    | cons d ds ih =>
      intro acc
      exact (Nat.le_mul_of_pos_right acc hr).trans ((Nat.le_add_right _ d).trans (ih _))
  induction ds generalizing acc with
  | nil => rfl
  | cons d ds ih =>
    rw [List.foldl_cons] at h ⊢
    rw [checkedDigits, if_pos ((hgrow ds _).trans h), ih _ h]

/-- What is read does not exceed the bound. -/
lemma le_of_checkedDigits {radix max n : ℕ} {ds : List ℕ} {acc : ℕ} (hacc : acc ≤ max)
    (h : checkedDigits radix max ds acc = some n) : n ≤ max := by
  induction ds generalizing acc with
  | nil =>
    obtain rfl := Option.some.inj h
    exact hacc
  | cons d ds ih =>
    rw [checkedDigits, Option.ite_none_right_eq_some] at h
    exact ih h.1 h.2

/-- What `u32::from_str` accepts has thirty-two bits. -/
lemma parseU32Text_lt {s : Bytes} {n : ℕ} (h : parseU32Text s = some n) : n < 2 ^ 32 := by
  unfold parseU32Text at h
  simp only [Option.ite_none_left_eq_some, Option.bind_eq_some_iff] at h
  obtain ⟨-, ds, -, hvalue⟩ := h
  have := le_of_checkedDigits (Nat.zero_le _) hvalue
  omega

/-- The digits of a number as it is written, most significant first. -/
def digitsBE (radix n : ℕ) : List ℕ := if n = 0 then [0] else (Nat.digits radix n).reverse

/-- A number is displayed digit by digit, the highest first. -/
lemma displayNat_eq (radix n : ℕ) : displayNat radix n = (digitsBE radix n).map digitChar := rfl

section DigitsBE

variable {radix n : ℕ}

/-- A digit is less than the radix. -/
lemma lt_of_mem_digitsBE (hr : 1 < radix) {d : ℕ} (h : d ∈ digitsBE radix n) : d < radix := by
  unfold digitsBE at h
  split at h
  · obtain rfl := List.mem_singleton.mp h
    omega
  · exact Nat.digits_lt_base hr (List.mem_reverse.mp h)

/-- The digits make the number again. -/
lemma foldl_digitsBE : (digitsBE radix n).foldl (fun a d => a * radix + d) 0 = n := by
  unfold digitsBE
  split
  · simp_all
  · rw [List.foldl_reverse]
    have h := Nat.ofDigits_digits radix n
    rw [Nat.ofDigits_eq_foldr] at h
    simpa [Nat.mul_comm, Nat.add_comm] using h

/-- Every number has a digit, also zero. -/
lemma digitsBE_ne_nil : digitsBE radix n ≠ [] := by
  unfold digitsBE
  split
  · simp
  · simpa using Nat.digits_ne_nil_iff_ne_zero.mpr ‹_›

/-- The first digit is zero only for zero. -/
lemma head_digitsBE (h : (digitsBE radix n).head? = some 0) : digitsBE radix n = [0] := by
  unfold digitsBE at h ⊢
  split at h
  · rw [if_pos ‹_›]
  · have hn : n ≠ 0 := ‹_›
    rw [List.head?_reverse, List.getLast?_eq_some_getLast (Nat.digits_ne_nil_iff_ne_zero.mpr hn),
      Option.some.injEq] at h
    exact absurd h (Nat.getLast_digit_ne_zero radix hn)

/-- A number below a power of the radix has that few digits. -/
lemma length_digitsBE_le (hr : 1 < radix) {k : ℕ} (hk : 0 < k) (h : n < radix ^ k) :
    (digitsBE radix n).length ≤ k := by
  unfold digitsBE
  split
  · exact hk
  · rw [List.length_reverse]
    exact (Nat.digits_length_le_iff hr n).mpr h

end DigitsBE

/-- A number is read off the front of the input, whatever stops it. -/
lemma readNumber_displayNat {radix max n : ℕ} (maxDigits : Option ℕ) (leadingZero : Bool)
    (hr : 1 < radix) (hr' : radix ≤ 16) (hn : n ≤ max)
    (hlen : ∀ k ∈ maxDigits, (digitsBE radix n).length ≤ k) {rest : Bytes}
    (hrest : Stops radix rest) :
    AddrParser.readNumber radix max maxDigits leadingZero (displayNat radix n ++ rest) =
      some (n, rest) := by
  have hrun : digitRun radix (displayNat radix n ++ rest) = (digitsBE radix n, rest) := by
    rw [displayNat_eq]
    exact digitRun_map_digitChar hr' (fun d => lt_of_mem_digitsBE hr) hrest
  have hfits : maxDigits.any (· < (digitsBE radix n).length) = false := by
    cases maxDigits with
    | none => rfl
    | some k => simpa using hlen k rfl
  have hzero : ¬((!leadingZero && (digitsBE radix n).head? == some 0 &&
      decide ((digitsBE radix n).length > 1)) = true) := by
    intro h
    simp only [Bool.and_eq_true, beq_iff_eq, decide_eq_true_eq] at h
    have hone := head_digitsBE h.1.2
    rw [hone] at h
    simp at h
  have hvalue := checkedDigits_eq radix max (by omega) (digitsBE radix n) 0
    (by rw [foldl_digitsBE]; exact hn)
  rw [foldl_digitsBE] at hvalue
  simp only [AddrParser.readNumber, hrun, hfits, hvalue, if_neg hzero,
    if_neg (List.length_eq_zero_iff.not.mpr digitsBE_ne_nil), Bool.false_eq_true, if_false,
    Option.map_some]

/-- A number that was read is within the bound. -/
lemma le_of_readNumber {radix max n : ℕ} {maxDigits : Option ℕ} {leadingZero : Bool}
    {s rest : Bytes}
    (h : AddrParser.readNumber radix max maxDigits leadingZero s = some (n, rest)) :
    n ≤ max := by
  simp only [AddrParser.readNumber] at h
  split_ifs at h
  all_goals
    obtain ⟨v, hv, heq⟩ := Option.map_eq_some_iff.mp h
    rw [← (Prod.mk.inj heq).1]
    exact le_of_checkedDigits (Nat.zero_le _) hv

/-- Without a digit there is no number. -/
lemma readNumber_of_stops {radix max : ℕ} {maxDigits : Option ℕ} {leadingZero : Bool} {s : Bytes}
    (h : Stops radix s) : AddrParser.readNumber radix max maxDigits leadingZero s = none := by
  simp [AddrParser.readNumber, digitRun_of_stops h]

/-- What is left after a number is what its digits leave. -/
lemma rest_of_readNumber {radix max n : ℕ} {maxDigits : Option ℕ} {leadingZero : Bool}
    {s rest : Bytes}
    (h : AddrParser.readNumber radix max maxDigits leadingZero s = some (n, rest)) :
    rest = (digitRun radix s).2 := by
  simp only [AddrParser.readNumber] at h
  split_ifs at h
  all_goals
    obtain ⟨v, hv, heq⟩ := Option.map_eq_some_iff.mp h
    exact (Prod.mk.inj heq).2.symm

/-- Without a sign, the whole text is the digits. -/
lemma parseU32Text_of_head_ne {s : Bytes} (hne : s ≠ []) (hplus : s.head? ≠ some '+'.toUInt8) :
    parseU32Text s = (s.mapM (toDigit 10)).bind fun ds => checkedDigits 10 (2 ^ 32 - 1) ds 0 := by
  cases s with
  | nil => exact absurd rfl hne
  | cons b s =>
    have hb : b ≠ '+'.toUInt8 := fun h => hplus (by simp [h])
    simp only [parseU32Text, if_neg hb, List.isEmpty_cons, Bool.false_eq_true, if_false]

/-- The text of a number is not empty. -/
lemma displayNat_ne_nil (radix n : ℕ) : displayNat radix n ≠ [] := by
  rw [displayNat_eq, Ne, List.map_eq_nil_iff]
  exact digitsBE_ne_nil

/-- The text of a number holds digits only. -/
lemma exists_of_mem_displayNat {radix n : ℕ} (hr : 1 < radix) {b : UInt8}
    (h : b ∈ displayNat radix n) : ∃ d < radix, b = digitChar d := by
  rw [displayNat_eq] at h
  obtain ⟨d, hd, rfl⟩ := List.mem_map.mp h
  exact ⟨d, lt_of_mem_digitsBE hr hd, rfl⟩

/-- The characters of digits are read as the digits. -/
lemma mapM_toDigit_map_digitChar {radix : ℕ} (hr : radix ≤ 16) {ds : List ℕ}
    (hds : ∀ d ∈ ds, d < radix) : (ds.map digitChar).mapM (toDigit radix) = some ds := by
  induction ds with
  | nil => rfl
  | cons d ds ih =>
    simp [List.mapM_cons, toDigit_digitChar hr (hds d (by simp)),
      ih fun e he => hds e (by simp [he])]

/-- **Decimal numbers.** `u32::from_str` reads back the text of every number it can hold. -/
theorem parseU32Text_displayNat {n : ℕ} (hn : n < 2 ^ 32) :
    parseU32Text (displayNat 10 n) = some n := by
  have hplus : (displayNat 10 n).head? ≠ some '+'.toUInt8 := by
    intro h
    obtain ⟨d, hd, heq⟩ := exists_of_mem_displayNat (by omega) (List.mem_of_head? h)
    exact (digitChar_ne (d := d) (by omega)).2.1 heq.symm
  rw [parseU32Text_of_head_ne (displayNat_ne_nil 10 n) hplus, displayNat_eq,
    mapM_toDigit_map_digitChar (by omega) fun d => lt_of_mem_digitsBE (by omega), Option.bind_some]
  have hvalue := checkedDigits_eq 10 (2 ^ 32 - 1) (by omega) (digitsBE 10 n) 0
    (by rw [foldl_digitsBE]; omega)
  rwa [foldl_digitsBE] at hvalue

/-! ## IPv4 addresses -/

/-- The text of an IPv4 address, given its octets. -/
def fmtOctets (octets : List ℕ) : Bytes := ['.'.toUInt8].intercalate (octets.map (displayNat 10))

/-- The character that is asked for is taken. -/
lemma readGivenChar_cons (c : Char) (s : Bytes) :
    readGivenChar c (c.toUInt8 :: s) = some ((), s) := if_pos rfl

/-- No other is. -/
lemma readGivenChar_eq_none {c : Char} {s : Bytes} (h : s.head? ≠ some c.toUInt8) :
    readGivenChar c s = none := by
  cases s with
  | nil => rfl
  | cons b s =>
    refine if_neg fun hb => h ?_
    simp [hb]

/-- One parser after another. -/
lemma addrParser_bind {α β : Type} (p : AddrParser α) (f : α → AddrParser β) (s : Bytes) :
    (p >>= f) s = (p s).bind fun r => f r.1 r.2 := rfl

/-- A parser that takes nothing. -/
lemma addrParser_pure {α : Type} (a : α) (s : Bytes) :
    (pure a : AddrParser α) s = some (a, s) := rfl

/-- There is no separator before the first part. -/
lemma readSeparator_zero {α : Type} (sep : Char) (p : AddrParser α) (s : Bytes) :
    readSeparator sep 0 p s = p s := rfl

/-- There is one before every other. -/
lemma readSeparator_succ {α : Type} (sep : Char) (i : ℕ) (p : AddrParser α) (s : Bytes) :
    readSeparator sep (i + 1) p s = (readGivenChar sep s).bind fun r => p r.2 := rfl

/-- The separator is taken, and the part is read after it. -/
lemma readSeparator_succ_cons {α : Type} (sep : Char) (i : ℕ) (p : AddrParser α) (s : Bytes) :
    readSeparator sep (i + 1) p (sep.toUInt8 :: s) = p s := by
  rw [readSeparator_succ, readGivenChar_cons, Option.bind_some]

/-- One octet, whatever stops it. -/
lemma readOctet {o : ℕ} (ho : o ≤ 255) {rest : Bytes} (hrest : Stops 10 rest) :
    AddrParser.readNumber 10 255 (some 3) false (displayNat 10 o ++ rest) = some (o, rest) := by
  refine readNumber_displayNat (some 3) false (by omega) (by omega) ho (fun k hk => ?_) hrest
  obtain rfl : 3 = k := by simpa using hk
  exact length_digitsBE_le (by omega) (by omega) (by omega)

/-- The four steps of `read_ipv4_addr`. -/
lemma readIpv4Addr_eq (s : Bytes) : readIpv4Addr s =
    (AddrParser.readNumber 10 255 (some 3) false s).bind fun a =>
    (readSeparator '.' 1 (AddrParser.readNumber 10 255 (some 3) false) a.2).bind fun b =>
    (readSeparator '.' 2 (AddrParser.readNumber 10 255 (some 3) false) b.2).bind fun c =>
    (readSeparator '.' 3 (AddrParser.readNumber 10 255 (some 3) false) c.2).bind fun d =>
    some ([a.1, b.1, c.1, d.1], d.2) := by
  simp only [readIpv4Addr, show List.range 4 = [0, 1, 2, 3] from rfl, List.mapM_cons,
    List.mapM_nil, addrParser_bind, addrParser_pure, readSeparator_zero, Option.bind_assoc,
    Option.bind_some]

/-- Four octets are read back. -/
lemma readIpv4Addr_fmtOctets {a b c d : ℕ} (ha : a ≤ 255) (hb : b ≤ 255) (hc : c ≤ 255)
    (hd : d ≤ 255) {rest : Bytes} (hrest : Stops 10 rest) :
    readIpv4Addr (fmtOctets [a, b, c, d] ++ rest) = some ([a, b, c, d], rest) := by
  have hdot : ∀ s, Stops 10 ('.'.toUInt8 :: s) := fun s => stops_cons (by decide) s
  have htext : fmtOctets [a, b, c, d] ++ rest = displayNat 10 a ++ '.'.toUInt8 ::
      (displayNat 10 b ++ '.'.toUInt8 :: (displayNat 10 c ++ '.'.toUInt8 ::
        (displayNat 10 d ++ rest))) := by
    simp [fmtOctets, List.intercalate]
  rw [htext, readIpv4Addr_eq, readOctet ha (hdot _), Option.bind_some, readSeparator_succ_cons,
    readOctet hb (hdot _), Option.bind_some, readSeparator_succ_cons, readOctet hc (hdot _),
    Option.bind_some, readSeparator_succ_cons, readOctet hd hrest, Option.bind_some]

/-- There is no IPv4 address where no dot follows the first run of digits. -/
lemma readIpv4Addr_eq_none {s : Bytes} (h : (digitRun 10 s).2.head? ≠ some '.'.toUInt8) :
    readIpv4Addr s = none := by
  rw [readIpv4Addr_eq]
  cases hfirst : AddrParser.readNumber 10 255 (some 3) false s with
  | none => rfl
  | some r =>
    obtain ⟨n, rest⟩ := r
    rw [rest_of_readNumber hfirst, Option.bind_some, readSeparator_succ, readGivenChar_eq_none h]
    rfl

/-- No dot follows digits in a text without dots, unless one follows the text. -/
lemma digitRun_head_ne {s rest : Bytes} (hs : ∀ b ∈ s, b ≠ '.'.toUInt8)
    (hstops : Stops 10 rest) (hdot : rest.head? ≠ some '.'.toUInt8) :
    (digitRun 10 (s ++ rest)).2.head? ≠ some '.'.toUInt8 := by
  induction s with
  | nil => rwa [List.nil_append, digitRun_of_stops hstops]
  | cons b s ih =>
    rw [List.cons_append, digitRun]
    split
    · exact ih fun c hc => hs c (by simp [hc])
    · simpa using hs b (by simp)

/-! ## IPv6 addresses -/

/-- What ends the groups of an address: no digit, no dot, no separator with a group after it. -/
structure Boundary (rest : Bytes) : Prop where
  digit : Stops 16 rest
  dot : rest.head? ≠ some '.'.toUInt8
  colon : ∀ s, rest = ':'.toUInt8 :: s → Stops 16 s

/-- The separator before group `i`. -/
def groupSep (i : ℕ) : Bytes := if i > 0 then [':'.toUInt8] else []

/-- Groups and the separators before them, from group `i` on. -/
def groupsFrom : ℕ → List ℕ → Bytes
  | _, [] => []
  | i, g :: gs => groupSep i ++ (displayNat 16 g ++ groupsFrom (i + 1) gs)

/-- The groups of a subslice are written with colons between them. -/
lemma fmtSubslice_eq (gs : List ℕ) : Ipv6Addr.fmtSubslice gs = groupsFrom 0 gs := by
  have hsucc : ∀ (gs : List ℕ) (g i : ℕ),
      [':'.toUInt8].intercalate ((g :: gs).map (displayNat 16)) =
        displayNat 16 g ++ groupsFrom (i + 1) gs := by
    intro gs
    induction gs with
    | nil => simp [groupsFrom, List.intercalate]
    | cons h gs ih =>
      intro g i
      rw [List.map_cons, List.map_cons, intercalate_cons_cons, ← List.map_cons, ih h (i + 1),
        groupsFrom, groupSep, if_pos (by omega)]
      simp
  cases gs with
  | nil => rfl
  | cons g gs =>
    rw [Ipv6Addr.fmtSubslice, hsucc gs g 0, groupsFrom]
    simp [groupSep]

/-- The separator written before a group is the one that is read. -/
lemma readSeparator_groupSep {α : Type} (i : ℕ) (p : AddrParser α) (s : Bytes) :
    readSeparator ':' i p (groupSep i ++ s) = p s := by
  cases i with
  | zero => rfl
  | succ i => exact readSeparator_succ_cons ':' i p s

/-- Nothing more is read at a boundary. -/
lemma readSeparator_of_boundary {α : Type} {rest : Bytes} (h : Boundary rest) (i : ℕ)
    {p : AddrParser α} (hp : ∀ s, Stops 16 s → p s = none) : readSeparator ':' i p rest = none := by
  cases i with
  | zero => exact hp rest h.digit
  | succ i =>
    rw [readSeparator_succ]
    by_cases hcolon : rest.head? = some ':'.toUInt8
    · obtain ⟨s, rfl⟩ := List.head?_eq_some_iff.mp hcolon
      rw [readGivenChar_cons, Option.bind_some, hp s (h.colon s rfl)]
    · rw [readGivenChar_eq_none hcolon, Option.bind_none]

/-- What stops a hexadecimal number stops a decimal one. -/
lemma stops_ten {s : Bytes} (h : Stops 16 s) : Stops 10 s :=
  fun b hb => toDigit_ten_of_sixteen (h b hb)

/-- Where a number stops there is no IPv4 address. -/
lemma readIpv4Addr_of_stops {s : Bytes} (h : Stops 16 s) : readIpv4Addr s = none := by
  rw [readIpv4Addr_eq, readNumber_of_stops (stops_ten h), Option.bind_none]

/-- At a boundary no groups are read. -/
lemma readGroups_of_boundary {rest : Bytes} (h : Boundary rest) (todo i limit : ℕ) :
    readGroups todo i limit rest = ([], false, rest) := by
  cases todo with
  | zero => rfl
  | succ todo =>
    have hv4 := readSeparator_of_boundary h i fun s => readIpv4Addr_of_stops
    have hgroup : readSeparator ':' i (AddrParser.readNumber 16 0xFFFF (some 4) true) rest = none :=
      readSeparator_of_boundary h i fun s => readNumber_of_stops
    simp only [readGroups, hv4, hgroup, ite_self]

/-- A group that no dot follows is not taken for the first octet of an IPv4 address. -/
lemma readGroups_group {g : ℕ} (hg : g ≤ 0xFFFF) (todo i limit : ℕ) {rest : Bytes}
    (hstops : Stops 16 rest) (hdot : rest.head? ≠ some '.'.toUInt8) :
    readGroups (todo + 1) i limit (groupSep i ++ (displayNat 16 g ++ rest)) =
      (g :: (readGroups todo (i + 1) limit rest).1, (readGroups todo (i + 1) limit rest).2) := by
  have hnodot : ∀ b ∈ displayNat 16 g, b ≠ '.'.toUInt8 := by
    intro b hb
    obtain ⟨d, hd, rfl⟩ := exists_of_mem_displayNat (by omega) hb
    exact (digitChar_ne hd).1
  have hv4 : readSeparator ':' i readIpv4Addr (groupSep i ++ (displayNat 16 g ++ rest)) = none := by
    rw [readSeparator_groupSep]
    exact readIpv4Addr_eq_none (digitRun_head_ne hnodot (stops_ten hstops) hdot)
  have hgroup : readSeparator ':' i (AddrParser.readNumber 16 0xFFFF (some 4) true)
      (groupSep i ++ (displayNat 16 g ++ rest)) = some (g, rest) := by
    rw [readSeparator_groupSep]
    refine readNumber_displayNat (some 4) true (by omega) (by omega) hg (fun k hk => ?_) hstops
    obtain rfl : 4 = k := by simpa using hk
    exact length_digitsBE_le (by omega) (by omega) (by omega)
  simp only [readGroups, hv4, hgroup, ite_self]

/-- What follows a group: the next separator, or what follows the groups. -/
lemma boundary_groupsFrom_succ {rest : Bytes} (h : Boundary rest) (i : ℕ) (gs : List ℕ) :
    Stops 16 (groupsFrom (i + 1) gs ++ rest) ∧
      (groupsFrom (i + 1) gs ++ rest).head? ≠ some '.'.toUInt8 := by
  cases gs with
  | nil => exact ⟨h.digit, h.dot⟩
  | cons g gs =>
    rw [groupsFrom, groupSep, if_pos (by omega)]
    exact ⟨stops_cons (by decide) _, by simp; decide⟩

/-- Groups are read back up to the boundary after them. -/
lemma readGroups_groupsFrom {gs : List ℕ} (hgs : ∀ g ∈ gs, g ≤ 0xFFFF) (todo i limit : ℕ)
    (htodo : gs.length ≤ todo) {rest : Bytes} (hrest : Boundary rest) :
    readGroups todo i limit (groupsFrom i gs ++ rest) = (gs, false, rest) := by
  induction gs generalizing i todo with
  | nil => exact readGroups_of_boundary hrest todo i limit
  | cons g gs ih =>
    obtain ⟨todo, rfl⟩ : ∃ m, todo = m + 1 := ⟨todo - 1, by simp at htodo; omega⟩
    have hnext := boundary_groupsFrom_succ hrest i gs
    rw [groupsFrom, List.append_assoc, List.append_assoc,
      readGroups_group (hgs g (by simp)) todo i limit hnext.1 hnext.2,
      ih (fun e he => hgs e (by simp [he])) todo (i + 1) (by simpa using htodo)]

/-- An address in full. -/
lemma readIpv6Addr_full {gs : List ℕ} (hgs : ∀ g ∈ gs, g ≤ 0xFFFF) (hlen : gs.length = 8)
    {rest : Bytes} (hrest : Boundary rest) :
    readIpv6Addr (groupsFrom 0 gs ++ rest) = some (gs, rest) := by
  simp only [readIpv6Addr, readGroups_groupsFrom hgs 8 0 8 hlen.le hrest, if_pos hlen]

/-- The two colons that stand for zero groups are a boundary of the groups before them. -/
lemma boundary_colons (s : Bytes) : Boundary (':'.toUInt8 :: ':'.toUInt8 :: s) where
  digit := stops_cons (by decide) _
  dot := by simp; decide
  colon := by
    rintro t ht
    rw [← (List.cons.inj ht).2]
    exact stops_cons (by decide) _

/-- The address whose text leaves zero groups out, once the groups after them are read. -/
lemma readIpv6Addr_colons {head : List ℕ} (hhead : ∀ g ∈ head, g ≤ 0xFFFF) (hlen : head.length < 8)
    {s : Bytes} {tail : List ℕ} {v4 : Bool} {rest : Bytes}
    (htail : readGroups (7 - head.length) 0 (7 - head.length) s = (tail, v4, rest)) :
    readIpv6Addr (groupsFrom 0 head ++ ':'.toUInt8 :: ':'.toUInt8 :: s) =
      some (head ++ List.replicate (8 - head.length - tail.length) 0 ++ tail, rest) := by
  have hlimit : 8 - (head.length + 1) = 7 - head.length := by omega
  simp only [readIpv6Addr, readGroups_groupsFrom hhead 8 0 8 hlen.le (boundary_colons s),
    if_neg hlen.ne, Bool.false_eq_true, if_false, readGivenChar_cons, hlimit, Option.bind_eq_bind,
    Option.bind_some, htail]

/-- An address with `k` zero groups left out. -/
lemma readIpv6Addr_elided {head tail : List ℕ} {k : ℕ} (hhead : ∀ g ∈ head, g ≤ 0xFFFF)
    (htail : ∀ g ∈ tail, g ≤ 0xFFFF) (hk : 0 < k) (hlen : head.length + k + tail.length = 8)
    {rest : Bytes} (hrest : Boundary rest) :
    readIpv6Addr (groupsFrom 0 head ++ ':'.toUInt8 :: ':'.toUInt8 :: (groupsFrom 0 tail ++ rest)) =
      some (head ++ List.replicate k 0 ++ tail, rest) := by
  have hgroups := readGroups_groupsFrom htail (7 - head.length) 0 (7 - head.length) (by omega)
    hrest
  rw [readIpv6Addr_colons hhead (by omega) hgroups,
    show 8 - head.length - tail.length = k by omega]

/-- An address that ends in an IPv4 address. -/
lemma readIpv6Addr_mapped {a b c d : ℕ} (ha : a ≤ 255) (hb : b ≤ 255) (hc : c ≤ 255) (hd : d ≤ 255)
    {rest : Bytes} (hrest : Stops 10 rest) :
    readIpv6Addr (ofString "::ffff:" ++ (fmtOctets [a, b, c, d] ++ rest)) =
      some ([0, 0, 0, 0, 0, 0xFFFF, a * 256 + b, c * 256 + d], rest) := by
  have htext : ofString "::ffff:" ++ (fmtOctets [a, b, c, d] ++ rest) =
      groupsFrom 0 [] ++ ':'.toUInt8 :: ':'.toUInt8 :: (groupSep 0 ++ (displayNat 16 0xFFFF ++
        ':'.toUInt8 :: (fmtOctets [a, b, c, d] ++ rest))) := by
    rw [show ofString "::ffff:" = groupsFrom 0 [] ++ ':'.toUInt8 :: ':'.toUInt8 :: (groupSep 0 ++
      (displayNat 16 0xFFFF ++ [':'.toUInt8])) by decide]
    simp
  have hquad : readGroups 6 1 7 (':'.toUInt8 :: (fmtOctets [a, b, c, d] ++ rest)) =
      ([a * 256 + b, c * 256 + d], true, rest) := by
    simp only [readGroups, Nat.reduceSub, Nat.reduceLT, if_true, readSeparator_succ_cons ':' 0,
      readIpv4Addr_fmtOctets ha hb hc hd hrest]
  have hgroups : readGroups 7 0 7 (groupSep 0 ++ (displayNat 16 0xFFFF ++
      ':'.toUInt8 :: (fmtOctets [a, b, c, d] ++ rest))) =
      ([0xFFFF, a * 256 + b, c * 256 + d], true, rest) := by
    rw [readGroups_group (by omega) 6 0 7 (stops_cons (by decide) _) (by simp; decide), hquad]
  have hnil : ∀ g ∈ ([] : List ℕ), g ≤ 0xFFFF := by simp
  rw [htext, readIpv6Addr_colons hnil (by simp) hgroups]
  rfl

/-! ### The zero groups left out -/

/-- `span`, as start and length, is a run of zeros within the first `k` segments. -/
structure ZeroSpan (segs : List ℕ) (k : ℕ) (span : ℕ × ℕ) : Prop where
  le : span.1 + span.2 ≤ k
  zero : ∀ j, span.1 ≤ j → j < span.1 + span.2 → segs[j]? = some 0

/-- The empty span has zeros only. -/
lemma ZeroSpan.empty {segs : List ℕ} {k : ℕ} : ZeroSpan segs k (0, 0) :=
  ⟨Nat.zero_le k, fun j _ hj => absurd hj (by simp)⟩

/-- A span within some groups is within one more. -/
lemma ZeroSpan.succ {segs : List ℕ} {k : ℕ} {span : ℕ × ℕ} (h : ZeroSpan segs k span) :
    ZeroSpan segs (k + 1) span := ⟨h.le.trans k.le_succ, h.zero⟩

/-- The spans after the first `k` segments; a current one ends where the search stands. -/
structure SpanSearch (segs : List ℕ) (k : ℕ) (spans : (ℕ × ℕ) × (ℕ × ℕ)) : Prop where
  longest : ZeroSpan segs k spans.1
  current : ZeroSpan segs k spans.2
  ends : 0 < spans.2.2 → spans.2.1 + spans.2.2 = k

/-- One group more keeps what is known of the search. -/
lemma spanSearch_step {segs : List ℕ} {k g : ℕ} {spans : (ℕ × ℕ) × (ℕ × ℕ)}
    (h : SpanSearch segs k spans) (hg : segs[k]? = some g) :
    SpanSearch segs (k + 1) (Ipv6Addr.zeroSpanStep spans (g, k)) := by
  obtain ⟨⟨s, l⟩, c, m⟩ := spans
  simp only [Ipv6Addr.zeroSpanStep]
  split
  case isTrue hzero =>
    subst hzero
    have hends := h.ends
    have hstart : (if m = 0 then k else c) + m = k := by
      split
      · omega
      · exact hends (by simp; omega)
    have hcurrent : ZeroSpan segs (k + 1) (if m = 0 then k else c, m + 1) := by
      refine ⟨by simp only; omega, fun j hj hj' => ?_⟩
      simp only at hj hj'
      by_cases hjk : j = k
      · rwa [hjk]
      · have hm : m ≠ 0 := by
          rintro rfl
          simp at hj hj'
          omega
        rw [if_neg hm] at hj hj' hstart
        exact h.current.zero j hj (by simp only; omega)
    refine ⟨?_, hcurrent, fun _ => by simp only; omega⟩
    simp only
    split
    · exact hcurrent
    · exact h.longest.succ
  case isFalse => exact ⟨h.longest.succ, ZeroSpan.empty, fun hpos => absurd hpos (by simp)⟩

/-- So do all of them. -/
lemma spanSearch_foldl {segs : List ℕ} (ys xs : List ℕ) {spans : (ℕ × ℕ) × (ℕ × ℕ)}
    (hsegs : segs = xs ++ ys) (h : SpanSearch segs xs.length spans) :
    SpanSearch segs segs.length ((ys.zipIdx xs.length).foldl Ipv6Addr.zeroSpanStep spans) := by
  induction ys generalizing xs spans with
  | nil => simpa [hsegs] using h
  | cons y ys ih =>
    have hget : segs[xs.length]? = some y := by simp [hsegs]
    have hstep := spanSearch_step h hget
    rw [List.zipIdx_cons, List.foldl_cons]
    have hrun := ih (xs ++ [y]) (by simp [hsegs]) (by simpa using hstep)
    simpa using hrun

/-- The run that is found cuts the segments in three. -/
lemma eq_of_zeroSpan {segs : List ℕ} {s l : ℕ} (h : ZeroSpan segs segs.length (s, l)) :
    segs = segs.take s ++ List.replicate l 0 ++ segs.drop (s + l) := by
  have hle := h.le
  simp only at hle
  have hmid : (segs.drop s).take l = List.replicate l 0 := by
    refine List.eq_replicate_iff.mpr ⟨by simp; omega, fun g hg => ?_⟩
    obtain ⟨j, hj, rfl⟩ := List.mem_iff_getElem.mp hg
    have hj' : j < l := by simp at hj; omega
    have hzero := h.zero (s + j) (by simp) (by simp only; omega)
    rw [List.getElem?_eq_getElem (by omega), Option.some.injEq] at hzero
    simpa using hzero
  rw [← hmid, List.append_assoc, ← List.drop_drop, List.take_append_drop, List.take_append_drop]

/-! ### The three spellings -/

namespace Ipv6Addr

/-- The groups of an address are its digits to the radix of a group. -/
lemma segments_eq_digitsLE (a : U128) :
    segments a = (Digits.digitsLE (2 ^ 16) 8 a.toNat).reverse := by
  simp [segments, Digits.digitsLE_eq_map_range, List.range_succ]

/-- There are eight. -/
lemma length_segments (a : U128) : (segments a).length = 8 := by simp [segments]

/-- Each has sixteen bits. -/
lemma le_of_mem_segments {a : U128} {g : ℕ} (h : g ∈ segments a) : g ≤ 0xFFFF := by
  rw [segments_eq_digitsLE, List.mem_reverse] at h
  exact Nat.le_of_lt_succ (Digits.lt_of_mem_digitsLE (by omega) h)

/-- Groups of `bits` bits, most significant first, are digits. -/
lemma ofGroups_reverse (bits : ℕ) (ds : List ℕ) :
    ofGroups bits ds.reverse = Nat.ofDigits (2 ^ bits) ds := by
  rw [ofGroups, List.foldl_reverse, Nat.ofDigits_eq_foldr]
  congr 1
  funext d acc
  simp [Nat.mul_comm, Nat.add_comm]

/-- The groups make the address again. -/
lemma ofGroups_segments (a : U128) : ofGroups 16 (segments a) = a.toNat := by
  rw [segments_eq_digitsLE, ofGroups_reverse, Digits.ofDigits_digitsLE,
    Nat.mod_eq_of_lt (by simpa using a.isLt)]

/-- The low 32 bits as an IPv4 address. -/
def lowOctets (a : U128) : List ℕ := (List.range 4).map fun i => a.toNat / 2 ^ (8 * (3 - i)) % 2 ^ 8

/-- How the text of an address spells its segments. -/
inductive Spelling (a : U128) : Bytes → Prop
  | full : Spelling a (groupsFrom 0 (segments a))
  | elided (head tail : List ℕ) (k : ℕ) (hk : 0 < k)
      (hsegs : segments a = head ++ List.replicate k 0 ++ tail) :
      Spelling a (groupsFrom 0 head ++ ':'.toUInt8 :: ':'.toUInt8 :: groupsFrom 0 tail)
  | mapped (hsegs : (segments a).take 6 = [0, 0, 0, 0, 0, 0xFFFF]) :
      Spelling a (ofString "::ffff:" ++ fmtOctets (lowOctets a))

/-- What is displayed is a spelling of the address. -/
lemma spelling_display (a : U128) : Spelling a (display a) := by
  simp only [display]
  split
  case isTrue hmapped => exact .mapped hmapped
  case isFalse =>
    have hinit : SpanSearch (segments a) 0 ((0, 0), (0, 0)) :=
      ⟨ZeroSpan.empty, ZeroSpan.empty, fun h => absurd h (by simp)⟩
    have hspan := (spanSearch_foldl (segments a) [] rfl hinit).longest
    generalize ((segments a).zipIdx.foldl zeroSpanStep ((0, 0), (0, 0))).1 = span at hspan
    obtain ⟨s, l⟩ := span
    split
    case isTrue hl =>
      have hcut := eq_of_zeroSpan hspan
      rw [fmtSubslice_eq, fmtSubslice_eq, show ofString "::" = [':'.toUInt8, ':'.toUInt8] from rfl,
        List.append_assoc]
      exact .elided _ _ l (by simp only at hl; omega) hcut
    case isFalse => exact fmtSubslice_eq _ ▸ .full

/-- The four octets at the end are the last two groups. -/
lemma lowOctets_eq (a : U128) : ∃ p q r t, lowOctets a = [p, q, r, t] ∧ p ≤ 255 ∧ q ≤ 255 ∧
    r ≤ 255 ∧ t ≤ 255 ∧ (segments a).drop 6 = [p * 256 + q, r * 256 + t] := by
  refine ⟨_, _, _, _, rfl, ?_, ?_, ?_, ?_, ?_⟩
  case refine_5 =>
    simp only [segments, List.range_succ, List.range_zero, List.nil_append, List.map_cons,
      List.map_nil, List.cons_append, List.drop_succ_cons, List.drop_zero]
    norm_num
    omega
  all_goals exact Nat.le_of_lt_succ (Nat.mod_lt _ (by omega))

/-- An address is read off the front of the input, whatever bounds it. -/
lemma readIpv6Addr_display (a : U128) {rest : Bytes} (hrest : Boundary rest) :
    readIpv6Addr (display a ++ rest) = some (segments a, rest) := by
  have hlen := length_segments a
  generalize htext : display a = text
  obtain - | ⟨head, tail, k, hk, hsegs⟩ | hsegs := htext ▸ spelling_display a
  · exact readIpv6Addr_full (fun g => le_of_mem_segments) hlen hrest
  · have hle : ∀ g ∈ segments a, g ≤ 0xFFFF := fun g => le_of_mem_segments
    rw [hsegs] at hle hlen ⊢
    rw [List.append_assoc, List.cons_append, List.cons_append]
    exact readIpv6Addr_elided (fun g hg => hle g (by simp [hg])) (fun g hg => hle g (by simp [hg]))
      hk (by simpa [Nat.add_assoc] using hlen) hrest
  · obtain ⟨p, q, r, t, hoctets, hp, hq, hr, ht, hlow⟩ := lowOctets_eq a
    rw [hoctets, List.append_assoc, readIpv6Addr_mapped hp hq hr ht (stops_ten hrest.digit),
      ← List.take_append_drop 6 (segments a), hsegs, hlow]
    rfl

/-- The text of an IPv6 address is not taken for an IPv4 address. -/
lemma readIpv4Addr_display (a : U128) {rest : Bytes} (hrest : Boundary rest) :
    readIpv4Addr (display a ++ rest) = none := by
  have hgroups : ∀ (gs : List ℕ) {s : Bytes}, Boundary s →
      readIpv4Addr (groupsFrom 0 gs ++ s) = none := by
    intro gs s hs
    cases gs with
    | nil => exact readIpv4Addr_of_stops hs.digit
    | cons g gs =>
      have hnext := boundary_groupsFrom_succ hs 0 gs
      rw [groupsFrom, show groupSep 0 = [] from rfl, List.nil_append, List.append_assoc]
      refine readIpv4Addr_eq_none (digitRun_head_ne (fun b hb => ?_) (stops_ten hnext.1) hnext.2)
      obtain ⟨d, hd, rfl⟩ := exists_of_mem_displayNat (by omega) hb
      exact (digitChar_ne hd).1
  generalize htext : display a = text
  obtain - | ⟨head, tail, k, hk, hsegs⟩ | hsegs := htext ▸ spelling_display a
  · exact hgroups _ hrest
  · rw [List.append_assoc]
    exact hgroups _ (boundary_colons _)
  · exact readIpv4Addr_of_stops (stops_cons (b := ':'.toUInt8) (by decide) _)

/-- **IPv6 addresses.** Every address is read back from its text. -/
theorem fromStr_display (a : U128) : fromStr (display a) = some a := by
  have hnil : Boundary [] := ⟨stops_nil 16, by simp, by simp⟩
  have hread := readIpv6Addr_display a hnil
  rw [List.append_nil] at hread
  simp only [fromStr, parseWith, hread, Option.map_some, ofGroups_segments, BitVec.ofNat_toNat,
    BitVec.setWidth_eq]

end Ipv6Addr

/-! ## Addresses of either family, and ports -/

namespace Ipv4Addr

/-- `Ipv4Addr::octets`. -/
def octets (a : BitVec 32) : List ℕ :=
  (List.range 4).map fun i => a.toNat / 2 ^ (8 * (3 - i)) % 2 ^ 8

/-- The text of an IPv4 address. -/
def display (a : BitVec 32) : Bytes := fmtOctets (octets a)

/-- The octets make the address again. -/
lemma ofGroups_octets (a : BitVec 32) : ofGroups 8 (octets a) = a.toNat := by
  have hdigits : octets a = (Digits.digitsLE (2 ^ 8) 4 a.toNat).reverse := by
    simp [octets, Digits.digitsLE_eq_map_range, List.range_succ]
  rw [hdigits, Ipv6Addr.ofGroups_reverse, Digits.ofDigits_digitsLE,
    Nat.mod_eq_of_lt (by simpa using a.isLt)]

/-- An IPv4 address is read back from its text. -/
lemma readIpv4Addr_display (a : BitVec 32) {rest : Bytes} (hrest : Stops 10 rest) :
    readIpv4Addr (display a ++ rest) = some (octets a, rest) := by
  have hle : ∀ i, a.toNat / 2 ^ (8 * (3 - i)) % 2 ^ 8 ≤ 255 :=
    fun i => Nat.le_of_lt_succ (Nat.mod_lt _ (by omega))
  exact readIpv4Addr_fmtOctets (hle 0) (hle 1) (hle 2) (hle 3) hrest

end Ipv4Addr

/-- The text of an address. -/
def IpAddr.display : IpAddr → Bytes
  | .v4 a => Ipv4Addr.display a
  | .v6 a => Ipv6Addr.display a

/-- The text of an address and port. -/
def SocketAddr.display : SocketAddr → Bytes
  | ⟨.v4 a, port⟩ => Ipv4Addr.display a ++ ':'.toUInt8 :: displayNat 10 port
  | ⟨.v6 a, port⟩ =>
    '['.toUInt8 :: (Ipv6Addr.display a ++ ']'.toUInt8 :: ':'.toUInt8 :: displayNat 10 port)

/-- **Addresses.** Every address is read back from its text, as one of its own family. -/
theorem IpAddr.fromStr_display (a : IpAddr) : IpAddr.fromStr a.display = some a := by
  have hnil : Boundary [] := ⟨stops_nil 16, by simp, by simp⟩
  cases a with
  | v4 a =>
    have hread := Ipv4Addr.readIpv4Addr_display a (stops_nil 10)
    rw [List.append_nil] at hread
    simp only [fromStr, parseWith, display, addrParser_bind, addrParser_pure, hread,
      Option.bind_some, Option.orElse_some, Ipv4Addr.ofGroups_octets, BitVec.ofNat_toNat,
      BitVec.setWidth_eq]
  | v6 a =>
    have hv4 := Ipv6Addr.readIpv4Addr_display a hnil
    have hv6 := Ipv6Addr.readIpv6Addr_display a hnil
    rw [List.append_nil] at hv4 hv6
    simp only [fromStr, parseWith, display, addrParser_bind, addrParser_pure, hv4, hv6,
      Option.bind_none, Option.bind_some, Option.orElse_none, Ipv6Addr.ofGroups_segments,
      BitVec.ofNat_toNat, BitVec.setWidth_eq]

/-- A port is read back from its text. -/
lemma readPort_display {port : ℕ} (hport : port < 2 ^ 16) :
    readPort (':'.toUInt8 :: displayNat 10 port) = some (port, []) := by
  have hread : AddrParser.readNumber 10 (2 ^ 16 - 1) none true (displayNat 10 port ++ []) =
      some (port, []) :=
    readNumber_displayNat none true (by omega) (by omega) (by omega) (by simp) (stops_nil 10)
  rw [List.append_nil] at hread
  rw [readPort, addrParser_bind, readGivenChar_cons, Option.bind_some, hread]

/-- A port is one. -/
lemma SocketAddr.port_lt {s : Bytes} {a : SocketAddr} (h : SocketAddr.fromStr s = some a) :
    a.port < 2 ^ 16 := by
  have hport : ∀ {s rest : Bytes} {n : ℕ}, readPort s = some (n, rest) → n < 2 ^ 16 := by
    intro s rest n hread
    rw [readPort, addrParser_bind, Option.bind_eq_some_iff] at hread
    obtain ⟨_, -, hread⟩ := hread
    have := le_of_readNumber hread
    omega
  unfold SocketAddr.fromStr parseWith at h
  simp only at h
  split at h
  case h_2 => simp at h
  case h_1 b hread =>
    obtain rfl := Option.some.inj h
    rw [Option.orElse_eq_or, Option.or_eq_some_iff] at hread
    simp only [addrParser_bind, addrParser_pure, Option.bind_eq_some_iff,
      Option.some.injEq] at hread
    obtain ⟨_, -, p, hp, heq⟩ | ⟨-, _, -, _, -, _, -, _, -, p, hp, heq⟩ := hread
    · rw [← (Prod.mk.inj heq).1]
      exact hport hp
    · rw [← (Prod.mk.inj heq).1]
      exact hport hp

/-- **Addresses with a port.** An address and port are read back from their text. -/
theorem SocketAddr.fromStr_display (a : SocketAddr) (hport : a.port < 2 ^ 16) :
    SocketAddr.fromStr a.display = some a := by
  obtain ⟨ip, port⟩ := a
  have hread := readPort_display hport
  cases ip with
  | v4 a =>
    have hstops : Stops 10 (':'.toUInt8 :: displayNat 10 port) := stops_cons (by decide) _
    simp only [fromStr, parseWith, display, addrParser_bind, addrParser_pure,
      Ipv4Addr.readIpv4Addr_display a hstops, hread, Option.bind_some, Option.orElse_some,
      Ipv4Addr.ofGroups_octets, BitVec.ofNat_toNat, BitVec.setWidth_eq]
  | v6 a =>
    have hbracket : Boundary (']'.toUInt8 :: ':'.toUInt8 :: displayNat 10 port) := by
      refine ⟨stops_cons (by decide) _, by simp; decide, fun s hs => ?_⟩
      exact absurd (List.cons.inj hs).1 (by decide)
    have hv4 : readIpv4Addr ('['.toUInt8 :: (Ipv6Addr.display a ++
        ']'.toUInt8 :: ':'.toUInt8 :: displayNat 10 port)) = none :=
      readIpv4Addr_of_stops (stops_cons (by decide) _)
    have hscope : readScopeId (']'.toUInt8 :: ':'.toUInt8 :: displayNat 10 port) = none := by
      rw [readScopeId, addrParser_bind, readGivenChar_eq_none (by simp; decide), Option.bind_none]
    simp only [fromStr, parseWith, display, addrParser_bind, addrParser_pure, hv4, Option.bind_none,
      Option.orElse_none, readGivenChar_cons, Option.bind_some,
      Ipv6Addr.readIpv6Addr_display a hbracket, hscope, Option.map_none, Option.getD_none, hread,
      Ipv6Addr.ofGroups_segments, BitVec.ofNat_toNat, BitVec.setWidth_eq]

end PanoptiDns
