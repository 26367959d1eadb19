import PanoptiDns.StdNetCodec
import PanoptiDns.Config.Print

set_option relaxedAutoImplicit false
set_option autoImplicit false

/-!
# The canonical text of a configuration

Everything in an accepted configuration is said by some text, whatever file it came from: addresses
and numbers are written the standard way, names as texts that hickory reads as them, templates as
they were. The text is accepted and gives the configuration back.

## Main definitions

* `networkText`, `Zone.block`, `Config.settings` — what the text says.
* `Config.render` — the text.
* `NameText` — a text that a name can be written as.

## Main results

* `compileNetwork_networkText` — a network is compiled back from its text.
* `compileNetwork_suggestion` — the suggestion of a diagnostic is accepted.
* `parse_render` — a configuration is parsed back from its text.
-/

namespace PanoptiDns

open Bytes

/-! ## Texts of addresses and numbers -/

/-- A byte that is ASCII, in lowercase, and no whitespace. -/
def isPlainByte (b : UInt8) : Bool := !isWhitespace b && lowerByte b == b && b < 0x80 && b != 10

/-- A line can hold a text of such bytes, and lowercasing keeps it. -/
lemma isText_of_plain {s : Bytes} (h : ∀ b ∈ s, isPlainByte b = true) (hne : s ≠ []) :
    IsText s ∧ lower s = s := by
  have hbyte : ∀ b ∈ s, isWhitespace b = false ∧ lowerByte b = b ∧ b < 0x80 ∧ b ≠ 10 := by
    intro b hb
    simpa [isPlainByte, and_assoc] using h b hb
  refine ⟨⟨⟨hne, fun b hb => ?_, fun b hb => ?_⟩, ?_, fun hmem => (hbyte 10 hmem).2.2.2 rfl⟩, ?_⟩
  · exact (hbyte b (List.mem_of_mem_head? hb)).1
  · exact (hbyte b (List.mem_of_getLast? hb)).1
  · have hascii := isUtf8_ascii_append (fun b hb => (hbyte b hb).2.2.1) []
    rw [List.append_nil] at hascii
    rw [hascii]
    rfl
  · exact (List.map_congr_left fun b hb => (hbyte b hb).2.1).trans (List.map_id _)

/-- A byte of the text of an address or a number. -/
def isTokenByte (b : UInt8) : Bool := (ofString "0123456789abcdef.:[]").contains b

/-- A text of such bytes. -/
def IsToken (s : Bytes) : Prop := ∀ b ∈ s, isTokenByte b = true

/-- A token has no byte the parser would take for something else. -/
lemma IsToken.plain {s : Bytes} (h : IsToken s) : ∀ b ∈ s, isPlainByte b = true := by
  have hall : (ofString "0123456789abcdef.:[]").all isPlainByte = true := by decide
  exact fun b hb => List.all_eq_true.mp hall b (List.contains_iff_mem.mp (h b hb))

/-- Two tokens side by side are one. -/
lemma IsToken.append {s t : Bytes} (hs : IsToken s) (ht : IsToken t) : IsToken (s ++ t) :=
  List.forall_mem_append.mpr ⟨hs, ht⟩

/-- A byte in front of a token. -/
lemma IsToken.cons {b : UInt8} (hb : isTokenByte b = true) {s : Bytes} (hs : IsToken s) :
    IsToken (b :: s) := List.forall_mem_cons.mpr ⟨hb, hs⟩

/-- The empty text is a token. -/
lemma isToken_nil : IsToken [] := by simp [IsToken]

/-- A number is written as a token, in every radix up to sixteen. -/
lemma isToken_displayNat {radix : ℕ} (hr : 1 < radix) (hr' : radix ≤ 16) (n : ℕ) :
    IsToken (displayNat radix n) := by
  have hdigit : ∀ d : Fin 16, isTokenByte (digitChar d) = true := by decide
  intro b hb
  obtain ⟨d, hd, rfl⟩ := exists_of_mem_displayNat hr hb
  exact hdigit ⟨d, by omega⟩

/-- So are the groups of an IPv6 address. -/
lemma isToken_groupsFrom (i : ℕ) (gs : List ℕ) : IsToken (groupsFrom i gs) := by
  induction gs generalizing i with
  | nil => exact isToken_nil
  | cons g gs ih =>
    refine .append ?_ (.append (isToken_displayNat (by omega) (by omega) g) (ih _))
    unfold groupSep
    split
    · exact .cons (by decide) isToken_nil
    · exact isToken_nil

/-- So are four octets. -/
lemma isToken_fmtOctets (a b c d : ℕ) : IsToken (fmtOctets [a, b, c, d]) := by
  have hn : ∀ n, IsToken (displayNat 10 n) := isToken_displayNat (by omega) (by omega)
  have htext : fmtOctets [a, b, c, d] = displayNat 10 a ++ '.'.toUInt8 :: (displayNat 10 b ++
      '.'.toUInt8 :: (displayNat 10 c ++ '.'.toUInt8 :: displayNat 10 d)) := by
    simp [fmtOctets, List.intercalate]
  rw [htext]
  exact (hn a).append (.cons (by decide) ((hn b).append (.cons (by decide) ((hn c).append
    (.cons (by decide) (hn d))))))

/-- So is an IPv6 address, in each of the ways it is shortened. -/
lemma isToken_ipv6 (a : U128) : IsToken (Ipv6Addr.display a) := by
  generalize htext : Ipv6Addr.display a = text
  obtain - | ⟨head, tail, k, hk, hsegs⟩ | hsegs := htext ▸ Ipv6Addr.spelling_display a
  · exact isToken_groupsFrom 0 _
  · exact (isToken_groupsFrom 0 _).append
      (.cons (by decide) (.cons (by decide) (isToken_groupsFrom 0 _)))
  · refine .append (fun b hb => ?_) (isToken_fmtOctets _ _ _ _)
    exact List.all_eq_true.mp (by decide : (ofString "::ffff:").all isTokenByte = true) b hb

/-- So is any address. -/
lemma isToken_ipAddr (a : IpAddr) : IsToken a.display := by
  cases a with
  | v4 a => exact isToken_fmtOctets _ _ _ _
  | v6 a => exact isToken_ipv6 a

/-- So is an address with a port. -/
lemma isToken_socketAddr (a : SocketAddr) : IsToken a.display := by
  obtain ⟨ip, port⟩ := a
  have hport : IsToken (displayNat 10 port) := isToken_displayNat (by omega) (by omega) port
  cases ip with
  | v4 a => exact (isToken_fmtOctets _ _ _ _).append (.cons (by decide) hport)
  | v6 a =>
    exact .cons (by decide) ((isToken_ipv6 a).append (.cons (by decide) (.cons (by decide) hport)))

/-! ## Networks -/

/-- The text of a network. -/
def networkText (pfx : U128) (mask : ℕ) : Bytes :=
  Ipv6Addr.display pfx ++ ofString "/" ++ displayNat 10 mask

/-- The text of a network can stand as a value, in lowercase. -/
lemma isText_networkText (pfx : U128) (mask : ℕ) :
    IsText (networkText pfx mask) ∧ lower (networkText pfx mask) = networkText pfx mask := by
  refine isText_of_plain ?_ (by simp [networkText, displayNat_ne_nil])
  refine List.forall_mem_append.mpr ⟨List.forall_mem_append.mpr ⟨(isToken_ipv6 pfx).plain, ?_⟩, ?_⟩
  · exact List.forall_mem_singleton.mpr (by decide)
  · exact (isToken_displayNat (by omega) (by omega) mask).plain

/-- The first separator splits a text. -/
lemma splitOnce_append_cons {sep : UInt8} {s : Bytes} (hs : sep ∉ s) (t : Bytes) :
    splitOnce sep (s ++ sep :: t) = some (s, t) := by
  induction s with
  | nil => simp [splitOnce]
  | cons b s ih =>
    obtain ⟨hb, hs⟩ : sep ≠ b ∧ sep ∉ s := by simpa using hs
    simp [splitOnce, Ne.symm hb, ih hs]

/-- **A network is compiled back from its text.** -/
theorem compileNetwork_networkText {v : RawValue} {pfx : U128} {mask : ℕ}
    (hv : v.value = networkText pfx mask) (haligned : mask % 4 = 0) (hge : 4 ≤ mask)
    (hle : mask ≤ 124) (hmasked : pfx &&& maskBits mask = pfx) :
    compileNetwork v = .ok (pfx, mask) := by
  have hslash : '/'.toUInt8 ∉ Ipv6Addr.display pfx :=
    fun hmem => absurd (isToken_ipv6 pfx _ hmem) (by decide)
  have hsplit : splitOnce '/'.toUInt8 v.value =
      some (Ipv6Addr.display pfx, displayNat 10 mask) := by
    rw [hv, networkText, show ofString "/" = ['/'.toUInt8] from rfl, List.append_assoc]
    exact splitOnce_append_cons hslash _
  simp only [compileNetwork, hsplit, Ipv6Addr.fromStr_display,
    parseU32Text_displayNat (show mask < 2 ^ 32 by omega), hmasked]
  rw [if_neg (by omega), if_neg (by omega), if_neg (by omega), if_neg (by omega), if_neg (by simp)]

/-- **The suggestion of a diagnostic is accepted.** A network with bits below its prefix length is
rejected with a suggestion; the suggestion is accepted, as the network of that length that the
address lies in. -/
theorem compileNetwork_suggestion {v : RawValue} {e : ConfigError} {suggestion : Bytes}
    (h : compileNetwork v = .error e) (hkind : e.kind = .networkHostBitsSet suggestion) :
    ∃ addrPart maskPart addr mask, v.value = addrPart ++ '/'.toUInt8 :: maskPart ∧
      Ipv6Addr.fromStr addrPart = some addr ∧ parseU32Text maskPart = some mask ∧
      ∀ w : RawValue, w.value = suggestion →
        compileNetwork w = .ok (addr &&& maskBits mask, mask) := by
  unfold compileNetwork at h
  split at h
  · obtain rfl := Except.error.inj h
    simp [RawValue.error] at hkind
  rename_i addrPart maskPart hsplit
  split at h
  · obtain rfl := Except.error.inj h
    simp [RawValue.errorAt] at hkind
  rename_i addr haddr
  simp only at h
  split at h
  · obtain rfl := Except.error.inj h
    simp [RawValue.errorAt] at hkind
  rename_i mask hmask
  refine ⟨addrPart, maskPart, addr, mask, (eq_of_splitOnce hsplit).1, haddr, hmask, fun w hw => ?_⟩
  split_ifs at h with hrange haligned hzero hsingle hbits
  all_goals
    obtain rfl := Except.error.inj h
    simp only [RawValue.error, RawValue.errorAt, reduceCtorEq,
      ConfigErrorKind.networkHostBitsSet.injEq]
      at hkind
  refine compileNetwork_networkText (hw.trans hkind.symm) (by omega) (by omega) (by omega) ?_
  rw [BitVec.and_assoc, BitVec.and_self]

/-- A network with an address below its prefix. -/
def hostBitsValue : RawValue :=
  ⟨1, ofString "network 2001:DB8::1/64", (8, 22), ofString "2001:db8::1/64"⟩

/-- The network suggested for a value with host bits is accepted. -/
theorem compileNetwork_suggestion_hostBitsValue : ∃ addr mask,
    compileNetwork hostBitsValue = .error (hostBitsValue.error
      (.networkHostBitsSet (ofString "2001:db8::/64"))) ∧
    compileNetwork ⟨1, ofString "network 2001:db8::/64", (8, 21), ofString "2001:db8::/64"⟩ =
      .ok (addr &&& maskBits mask, mask) := by
  have herror : compileNetwork hostBitsValue = .error (hostBitsValue.error
      (.networkHostBitsSet (ofString "2001:db8::/64"))) := by decide +kernel
  obtain ⟨-, -, addr, mask, -, -, -, haccepted⟩ := compileNetwork_suggestion herror rfl
  exact ⟨addr, mask, herror, haccepted _ rfl⟩

/-! ## Configurations -/

/-- The block of a zone. -/
def Zone.block (z : Zone) : Block :=
  ⟨networkText z.pfx z.mask, some z.resolvesTo, z.upstream.map IpAddr.display⟩

/-- The text of an out-of-zone policy. -/
def policyText : OutOfZonePolicy → Bytes
  | .refused => ofString "refused"
  | .nxDomain => ofString "nxdomain"

/-- The names that a configuration is read from. -/
def Config.names (c : Config) : List Name :=
  (c.soa.elim [] fun soa => [soa.primary, soa.hostmaster]) ++ c.nameservers

section Render

variable (nameText : Name → Bytes)

/-- The settings of a configuration. The time to live is kept with the zones only. -/
def Config.settings (c : Config) : List (GlobalKey × Bytes) :=
  (c.zones.head?.elim [] fun z => [(.ttl, displayNat 10 z.ttl)]) ++
  (c.soa.elim [] fun soa =>
    [(.primary, nameText soa.primary), (.hostmaster, nameText soa.hostmaster)]) ++
  (c.nameservers.map fun n => (.ns, nameText n)) ++
  [(.outOfZone, policyText c.params.outOfZone),
    (.maxUdpPayload, displayNat 10 c.params.maxUdpPayload),
    (.upstreamTimeout, displayNat 10 c.params.upstreamTimeout),
    (.rrlRps, displayNat 10 c.params.rrl.responsesPerSecond),
    (.rrlBurst, displayNat 10 c.params.rrl.burst), (.rrlSlip, displayNat 10 c.params.rrl.slip)] ++
  (if c.params.rrl.enabled then [] else [(.rrlOff, [])])

/-- The outline of a configuration. -/
def Config.outline (c : Config) : Outline where
  listen := c.listen.map fun a => SocketAddr.display ⟨a.addr, a.port⟩
  blocks := c.zones.map Zone.block
  globals := c.settings nameText

/-- **The canonical text of a configuration**, with the names as the texts they are given as. -/
def Config.render (c : Config) : Bytes := (c.outline nameText).print

/-- A text in lowercase that a name is read from. -/
structure NameText (hk : Hickory) (n : Name) : Prop where
  text : IsText (nameText n)
  lower : lower (nameText n) = nameText n
  reads : hk.fromStrRelaxed (nameText n) = some n

end Render

/-! ### What an accepted configuration holds -/

/-- What the text of a configuration relies on. -/
structure Config.Sayable (hk : Hickory) (c : Config) : Prop where
  wf : c.Wf
  ports : ∀ a ∈ c.listen, a.port < 2 ^ 16
  zones : ∀ z ∈ c.zones, IsText z.resolvesTo ∧
    ∃ v : RawValue, v.value = z.resolvesTo ∧ compileTemplate hk v z.hostNibbles = .ok z.fwd
  ttl : ∃ ttl, ∀ z ∈ c.zones, z.ttl = ttl
  names : ∃ nameText, ∀ n ∈ c.names, NameText nameText hk n
  soa : ∀ soa ∈ c.soa, soa = ⟨soa.primary, soa.hostmaster, 1, 604800, 86400, 2419200, 60⟩
  numbers : c.params.rrl.responsesPerSecond < 2 ^ 32 ∧ c.params.rrl.burst < 2 ^ 32 ∧
    c.params.rrl.slip < 2 ^ 32

/-- An accepted port has sixteen bits. -/
lemma port_lt_of_compileListen {v : RawValue} {a : ListenAddr} (h : compileListen v = .ok a) :
    a.port < 2 ^ 16 := by
  unfold compileListen at h
  split at h
  · rename_i sock hsock
    obtain rfl := Except.ok.inj h
    exact SocketAddr.port_lt hsock
  split at h
  · obtain rfl := Except.ok.inj h
    change defaultPort < 2 ^ 16
    decide
  · simp at h

/-- A value that a setting has is a number of 32 bits, if the default is one. -/
lemma SetTo.lt {texts : List Bytes} {default n : ℕ} (h : SetTo parseU32Text texts default n)
    (hdefault : default < 2 ^ 32) : n < 2 ^ 32 := by
  rcases h with ⟨-, rfl⟩ | ⟨t, -, ht⟩
  · exact hdefault
  · exact parseU32Text_lt ht

/-- A text of a key is the value of a setting with that key. -/
lemma mem_of_mem_textsOf {key : GlobalKey} {gs : List (GlobalKey × Bytes)} {t : Bytes}
    (h : t ∈ textsOf key gs) : (key, t) ∈ gs := by
  obtain ⟨p, hp, hmem⟩ := List.mem_flatMap.mp h
  split at hmem
  · rename_i hkey
    rwa [List.mem_singleton.mp hmem, ← hkey]
  · simp at hmem

/-- A name that is set is read from the text of its line. -/
lemma SetTo.exists_text {hk : Hickory} {texts : List Bytes} {name : Option Name} {n : Name}
    (h : SetTo (fun t => (hk.fromStrRelaxed t).map some) texts none name) (hn : name = some n) :
    ∃ t ∈ texts, hk.fromStrRelaxed t = some n := by
  subst hn
  obtain ⟨-, hnone⟩ | ⟨t, rfl, ht⟩ := h
  · simp at hnone
  · obtain ⟨m, hm, heq⟩ := Option.map_eq_some_iff.mp ht
    obtain rfl := Option.some.inj heq
    exact ⟨t, List.mem_singleton_self t, hm⟩

/-- Every name of a configuration is read from the text of a line. -/
lemma exists_text_of_mem_names {hk : Hickory} {gs : List (GlobalKey × Bytes)} {ttl : ℕ} {c : Config}
    (h : SettingsKept hk gs ttl c.soa c.nameservers c.params) {n : Name} (hn : n ∈ c.names) :
    ∃ key t, (key, t) ∈ gs ∧ key ≠ .rrlOff ∧ hk.fromStrRelaxed t = some n := by
  have hkey : ∀ key : GlobalKey, key ≠ .rrlOff →
      (∃ t ∈ textsOf key gs, hk.fromStrRelaxed t = some n) →
      ∃ key t, (key, t) ∈ gs ∧ key ≠ .rrlOff ∧ hk.fromStrRelaxed t = some n := by
    rintro key hne ⟨t, ht, hread⟩
    exact ⟨key, t, mem_of_mem_textsOf ht, hne, hread⟩
  rcases List.mem_append.mp hn with hn | hn
  · cases hsoa : c.soa with
    | none => simp [hsoa] at hn
    | some soa =>
      rw [hsoa, Option.elim_some, List.mem_pair] at hn
      obtain rfl | rfl := hn
      · exact hkey .primary (by simp) (h.primary.exists_text (by rw [hsoa]; rfl))
      · exact hkey .hostmaster (by simp) (h.hostmaster.exists_text (by rw [hsoa]; rfl))
  · have hmem : some n ∈ (textsOf .ns gs).map hk.fromStrRelaxed := by
      rw [← h.nameservers]
      exact List.mem_map_of_mem hn
    exact hkey .ns (by simp) (List.mem_map.mp hmem)

/-- The SOA parameters other than the two names are fixed. -/
lemma soa_of_compileGlobals {hk : Hickory} {raw : RawConfig} {soa : SoaParams}
    (h : (compileGlobals hk raw).soa = some soa) :
    soa = ⟨soa.primary, soa.hostmaster, 1, 604800, 86400, 2419200, 60⟩ := by
  unfold compileGlobals compileSoa at h
  simp only at h
  split at h
  · rename_i s hs
    split at hs
    · rw [← Except.ok.inj hs, Option.some.injEq] at h
      rw [← h]
    · simp at hs
    · simp at hs
    · simp [← Except.ok.inj hs] at h
  · simp at h

/-- **What an accepted configuration holds can be written.** -/
theorem sayable_of_parse {hk : Hickory} {input : Bytes} {c : Config}
    (h : Config.parse hk input = .ok c) : c.Sayable hk := by
  have hwf := parse_wf h
  obtain ⟨herr, hlisten, hglobals, zs, hzs, -, rfl⟩ := parse_eq_ok_iff.mp h
  have hsay := sayable_of_outline (parse_outline.mp ⟨herr, rfl⟩)
  have hkept := compileGlobals_kept (parse_keeps input).2 hglobals
  have hmem : ∀ z ∈ sortByMask (zs.map (Zone.withTtl (compileGlobals hk (parse input).cfg).ttl)),
      ∃ z₀ ∈ zs, z = z₀.withTtl (compileGlobals hk (parse input).cfg).ttl := by
    intro z hz
    obtain ⟨z₀, hz₀, rfl⟩ := List.mem_map.mp ((sortByMask_perm _).mem_iff.mp hz)
    exact ⟨z₀, hz₀, rfl⟩
  refine ⟨hwf, fun a ha => ?_, fun z hz => ?_,
    ⟨(compileGlobals hk (parse input).cfg).ttl, fun z hz => ?_⟩, ?_, fun soa hsoa => ?_, ?_⟩
  · obtain ⟨v, -, hv⟩ := exists_of_forall₂_right
      (compileListens_eq_iff.mp (Prod.ext rfl hlisten)) ha
    exact port_lt_of_compileListen hv
  · obtain ⟨z₀, hz₀, rfl⟩ := hmem z hz
    obtain ⟨raw, hraw, hcompiles⟩ := exists_of_forall₂_right hzs hz₀
    obtain ⟨v, hv, hvalue, htemplate⟩ := hcompiles.template
    refine ⟨?_, v, hvalue, htemplate⟩
    have hentry : Entry.resolvesTo v.value ∈ raw.block.entries :=
      mem_entries.mpr (.inr (.inl ⟨v.value, by simp [RawZone.block, hv], rfl⟩))
    have htext : IsText v.value := hsay.entries _ (List.mem_append_right _ (List.mem_append_right _
      (List.mem_flatMap.mpr ⟨raw.block, List.mem_map_of_mem hraw, hentry⟩)))
    rwa [hvalue] at htext
  · obtain ⟨z₀, -, rfl⟩ := hmem z hz
    rfl
  · -- every name is read from the text of its line
    classical
    refine ⟨fun n => if hn : ∃ t, (IsText t ∧ lower t = t) ∧ hk.fromStrRelaxed t = some n
      then hn.choose else [], fun n hn => ?_⟩
    obtain ⟨key, t, ht, hkey, hread⟩ := exists_text_of_mem_names hkept hn
    have hentry : (settingEntry (key, t)).Sayable := hsay.entries _ (List.mem_append_right _
      (List.mem_append_left _ (List.mem_map_of_mem ht)))
    rw [settingEntry, if_neg hkey] at hentry
    have hex : ∃ t, (IsText t ∧ lower t = t) ∧ hk.fromStrRelaxed t = some n :=
      ⟨t, hentry.2, hread⟩
    have hspec := hex.choose_spec
    constructor
    · simpa only [dif_pos hex] using hspec.1.1
    · simpa only [dif_pos hex] using hspec.1.2
    · simpa only [dif_pos hex] using hspec.2
  · exact soa_of_compileGlobals hsoa
  · exact ⟨hkept.rrlRps.lt (by omega), hkept.rrlBurst.lt (by omega), hkept.rrlSlip.lt (by omega)⟩

/-! ### The text is read back -/

section Render

variable {hk : Hickory} {c : Config} (h : c.Sayable hk) {nameText : Name → Bytes}
  (hnames : ∀ n ∈ c.names, NameText nameText hk n)

/-- The text of a number can stand as a value. -/
lemma isText_displayNat (n : ℕ) :
    IsText (displayNat 10 n) ∧ lower (displayNat 10 n) = displayNat 10 n :=
  isText_of_plain (isToken_displayNat (by omega) (by omega) n).plain (displayNat_ne_nil 10 n)

/-- The text of a policy can stand as a value. -/
lemma isText_policyText (policy : OutOfZonePolicy) :
    IsText (policyText policy) ∧ lower (policyText policy) = policyText policy := by
  have hplain : ∀ p : OutOfZonePolicy,
      (policyText p).all isPlainByte = true ∧ policyText p ≠ [] := by
    intro p
    cases p with
    | refused => decide
    | nxDomain => decide
  exact isText_of_plain (List.all_eq_true.mp (hplain policy).1) (hplain policy).2

/-- The text of an address can stand as a value. -/
lemma isText_ipAddr (a : IpAddr) : IsText a.display ∧ lower a.display = a.display := by
  refine isText_of_plain (isToken_ipAddr a).plain fun hnil => ?_
  have hread := IpAddr.fromStr_display a
  rw [hnil, show IpAddr.fromStr [] = none by decide] at hread
  simp at hread

/-- The text of an address with a port can stand as a value. -/
lemma isText_socketAddr {a : SocketAddr} (hport : a.port < 2 ^ 16) :
    IsText a.display ∧ lower a.display = a.display := by
  refine isText_of_plain (isToken_socketAddr a).plain fun hnil => ?_
  have hread := SocketAddr.fromStr_display a hport
  rw [hnil, show SocketAddr.fromStr [] = none by decide] at hread
  simp at hread

include hnames

/-- A setting of a configuration is the flag, or has a text in lowercase. -/
lemma sayable_of_mem_settings' {p : GlobalKey × Bytes} (hp : p ∈ c.settings nameText) :
    p = (.rrlOff, []) ∨ (p.1 ≠ .rrlOff ∧ IsText p.2 ∧ lower p.2 = p.2) := by
  have hname : ∀ n ∈ c.names, IsText (nameText n) ∧ lower (nameText n) = nameText n :=
    fun n hn => ⟨(hnames n hn).text, (hnames n hn).lower⟩
  simp only [Config.settings, List.mem_append] at hp
  obtain (((hp | hp) | hp) | hp) | hp := hp
  · cases hz : c.zones.head? with
    | none => simp [hz] at hp
    | some z =>
      rw [hz, Option.elim_some, List.mem_singleton] at hp
      rw [hp]
      exact .inr ⟨by simp, isText_displayNat _⟩
  · cases hsoa : c.soa with
    | none => simp [hsoa] at hp
    | some soa =>
      rw [hsoa, Option.elim_some, List.mem_pair] at hp
      obtain rfl | rfl := hp
      · exact .inr ⟨by simp, hname _ (by simp [Config.names, hsoa])⟩
      · exact .inr ⟨by simp, hname _ (by simp [Config.names, hsoa])⟩
  · obtain ⟨n, hn, rfl⟩ := List.mem_map.mp hp
    exact .inr ⟨by simp, hname n (List.mem_append_right _ hn)⟩
  · right
    simp only [List.mem_cons, List.not_mem_nil, or_false] at hp
    obtain rfl | rfl | rfl | rfl | rfl | rfl := hp
    · exact ⟨by simp, isText_policyText _⟩
    all_goals exact ⟨by simp, isText_displayNat _⟩
  · split at hp
    · simp at hp
    · exact .inl (List.mem_singleton.mp hp)

omit hnames in
/-- No setting is written twice. -/
lemma setOnce_settings : SetOnce (c.settings nameText) := by
  intro key hkey
  have hns : textsOf key (c.nameservers.map fun n => (GlobalKey.ns, nameText n)) = [] := by
    refine List.flatMap_eq_nil_iff.mpr fun p hp => ?_
    obtain ⟨n, -, rfl⟩ := List.mem_map.mp hp
    refine if_neg ?_
    rintro rfl
    simp [GlobalKey.repeatable] at hkey
  cases key with
  | ns => simp [GlobalKey.repeatable] at hkey
  | rrlOff => simp [GlobalKey.repeatable] at hkey
  | _ =>
    simp only [Config.settings, textsOf_append, List.length_append, hns]
    cases c.zones.head? <;> cases c.soa <;> cases c.params.rrl.enabled <;>
      simp [textsOf]

include h

/-- **The outline of a configuration can be written.** -/
lemma sayable_outline : (c.outline nameText).Sayable := by
  have hsetting := fun p => sayable_of_mem_settings' hnames (p := p)
  refine ⟨fun e he => ?_, fun value hv => ?_, setOnce_settings⟩
  · rw [Outline.entries, List.mem_append, List.mem_append, List.mem_map, List.mem_map,
      List.mem_flatMap] at he
    obtain ⟨v, hv, rfl⟩ | ⟨p, hp, rfl⟩ | ⟨b, hb, he⟩ := he
    · obtain ⟨a, ha, rfl⟩ := List.mem_map.mp hv
      exact isText_socketAddr (h.ports a ha)
    · obtain rfl | ⟨hkey, htext⟩ := hsetting p hp
      · rfl
      · rw [settingEntry, if_neg hkey]
        exact ⟨hkey, htext⟩
    · obtain ⟨z, hz, rfl⟩ := List.mem_map.mp hb
      obtain rfl | ⟨v, hv, rfl⟩ | ⟨v, hv, rfl⟩ := mem_entries.mp he
      · exact isText_networkText z.pfx z.mask
      · obtain rfl := Option.some.inj hv
        exact (h.zones z hz).1
      · obtain ⟨a, -, rfl⟩ := Option.map_eq_some_iff.mp hv
        exact isText_ipAddr a
  · obtain heq | ⟨hkey, -⟩ := hsetting _ hv
    · exact (Prod.mk.inj heq).2
    · exact absurd rfl hkey

end Render

/-! ### The settings are read back -/

section Settings

variable {hk : Hickory} {nameText : Name → Bytes}

/-- A number within its bounds is read back from its text. -/
lemma readNumber_of_lt {ok : ℕ → Bool} {n : ℕ} (hn : n < 2 ^ 32) (hok : ok n = true) :
    readNumber ok (displayNat 10 n) = some n := by
  rw [readNumber, parseU32Text_displayNat hn, Option.filter_some, if_pos hok]

/-- The TTL is read back, the default one if there is no zone to have another. -/
lemma exec_ttl {zs : List Zone} (hzs : ∀ z ∈ zs, z.Wf) :
    Run.exec (GlobalState.apply hk) {} (zs.head?.elim [] fun z => [(.ttl, displayNat 10 z.ttl)]) =
      some { ttl := zs.head?.elim defaultTtl Zone.ttl } := by
  cases zs with
  | nil => rfl
  | cons z zs =>
    have hle := (hzs z (by simp)).ttl_le
    have hread : readNumber (· ≤ 0x7FFFFFFF) (displayNat 10 z.ttl) = some z.ttl :=
      readNumber_of_lt (by omega) (by simp; omega)
    simp [GlobalState.apply, hread]

/-- The names of the SOA are read back. -/
lemma exec_soa {soa : Option SoaParams}
    (hnames : ∀ p ∈ soa, NameText nameText hk p.primary ∧ NameText nameText hk p.hostmaster)
    {s : GlobalState} (hs : s.primary = none ∧ s.hostmaster = none) :
    Run.exec (GlobalState.apply hk) s (soa.elim [] fun p =>
      [(.primary, nameText p.primary), (.hostmaster, nameText p.hostmaster)]) =
      some { s with primary := soa.map SoaParams.primary
                    hostmaster := soa.map SoaParams.hostmaster } := by
  obtain ⟨ttl, params, primary, hostmaster, nameservers, errors⟩ := s
  obtain ⟨rfl, rfl⟩ := hs
  cases soa with
  | none => rfl
  | some p =>
    obtain ⟨hprimary, hhostmaster⟩ := hnames p rfl
    simp [GlobalState.apply, hprimary.reads, hhostmaster.reads]

/-- The name servers are read back, in their order. -/
lemma exec_ns {ns : List Name} (hns : ∀ n ∈ ns, NameText nameText hk n) (s : GlobalState) :
    Run.exec (GlobalState.apply hk) s (ns.map fun n => (.ns, nameText n)) =
      some { s with nameservers := s.nameservers ++ ns } := by
  induction ns generalizing s with
  | nil => simp
  | cons n ns ih =>
    have happly : s.apply hk (.ns, nameText n) =
        some { s with nameservers := s.nameservers ++ [n] } := by
      simp [GlobalState.apply, (hns n (by simp)).reads]
    rw [List.map_cons, Run.exec_cons, happly, Option.bind_some,
      ih fun m hm => hns m (by simp [hm])]
    simp

/-- The parameters of the server are read back. -/
lemma exec_params {p : ServerParams} (hp : p.Wf) (hnumbers : p.rrl.responsesPerSecond < 2 ^ 32 ∧
    p.rrl.burst < 2 ^ 32 ∧ p.rrl.slip < 2 ^ 32) {s : GlobalState} (hs : s.params = {}) :
    Run.exec (GlobalState.apply hk) s
      ([(.outOfZone, policyText p.outOfZone), (.maxUdpPayload, displayNat 10 p.maxUdpPayload),
        (.upstreamTimeout, displayNat 10 p.upstreamTimeout),
        (.rrlRps, displayNat 10 p.rrl.responsesPerSecond),
        (.rrlBurst, displayNat 10 p.rrl.burst), (.rrlSlip, displayNat 10 p.rrl.slip)] ++
        (if p.rrl.enabled then [] else [(.rrlOff, [])])) = some { s with params := p } := by
  obtain ⟨outOfZone, maxUdp, timeout, enabled, rps, burst, slip, v4, v6⟩ := p
  obtain ⟨hmaxge, hmaxle, htimege, htimele, hrps, hburst, rfl, rfl⟩ := hp
  obtain ⟨hrpslt, hburstlt, hsliplt⟩ := hnumbers
  simp only at hmaxge hmaxle htimege htimele hrps hburst hrpslt hburstlt hsliplt
  have hpolicy : readPolicy (policyText outOfZone) = some outOfZone := by
    cases outOfZone with
    | refused => rfl
    | nxDomain => rfl
  have hmax : readNumber (fun n => 512 ≤ n && n ≤ 65535) (displayNat 10 maxUdp) = some maxUdp :=
    readNumber_of_lt (by omega) (by simp [hmaxge, hmaxle])
  have htime : readNumber (fun n => 1 ≤ n && n ≤ 10000) (displayNat 10 timeout) = some timeout :=
    readNumber_of_lt (by omega) (by simp [htimege, htimele])
  have hrate : readNumber (1 ≤ ·) (displayNat 10 rps) = some rps :=
    readNumber_of_lt hrpslt (by simp [hrps])
  have hbursts : readNumber (1 ≤ ·) (displayNat 10 burst) = some burst :=
    readNumber_of_lt hburstlt (by simp [hburst])
  have hslip := parseU32Text_displayNat hsliplt
  cases enabled with
  | true => simp [GlobalState.apply, hpolicy, hmax, htime, hrate, hbursts, hslip, hs]
  | false => simp [GlobalState.apply, hpolicy, hmax, htime, hrate, hbursts, hslip, hs]

/-- **The settings of a configuration** set what it holds. -/
lemma exec_settings_eq {c : Config} (h : c.Sayable hk)
    (hnames : ∀ n ∈ c.names, NameText nameText hk n) :
    Run.exec (GlobalState.apply hk) {} (c.settings nameText) =
      some { ttl := c.zones.head?.elim defaultTtl Zone.ttl, params := c.params,
             primary := c.soa.map SoaParams.primary, hostmaster := c.soa.map SoaParams.hostmaster,
             nameservers := c.nameservers } := by
  have hsoa : ∀ p ∈ c.soa, NameText nameText hk p.primary ∧ NameText nameText hk p.hostmaster := by
    intro p hp
    rw [Option.mem_def] at hp
    exact ⟨hnames _ (by simp [Config.names, hp]), hnames _ (by simp [Config.names, hp])⟩
  rw [Config.settings, List.append_assoc, Run.exec_append, Run.exec_append, Run.exec_append,
    exec_ttl h.wf.zones, Option.bind_some, exec_soa hsoa ⟨rfl, rfl⟩, Option.bind_some,
    exec_ns fun n hn => hnames n (List.mem_append_right _ hn), Option.bind_some,
    exec_params h.wf.params h.numbers rfl]
  simp

/-- Settings that can all be applied compile without an error. -/
lemma foldl_compileGlobal_of_exec {gs : List RawGlobal} {s s' : GlobalState}
    (h : Run.exec (GlobalState.apply hk) s (gs.map RawGlobal.setting) = some s') :
    gs.foldl (compileGlobal hk) s = s' := by
  induction gs generalizing s with
  | nil => exact Option.some.inj h
  | cons g gs ih =>
    obtain ⟨s₁, hstep, hrest⟩ := Option.bind_eq_some_iff.mp h
    have happlies := compileGlobal_applies hk s g
    rw [hstep] at happlies
    rw [List.foldl_cons, happlies.1]
    exact ih hrest

/-- **The settings are compiled back.** -/
lemma compileGlobals_settings {c : Config} (h : c.Sayable hk)
    (hnames : ∀ n ∈ c.names, NameText nameText hk n) {raw : RawConfig}
    (hraw : raw.globals.map RawGlobal.setting = c.settings nameText) :
    compileGlobals hk raw =
      ⟨c.zones.head?.elim defaultTtl Zone.ttl, c.soa, c.nameservers, c.params, []⟩ := by
  have hfold := foldl_compileGlobal_of_exec (hraw ▸ exec_settings_eq h hnames)
  unfold compileGlobals
  rw [hfold]
  cases hsoa : c.soa with
  | none => rfl
  | some soa =>
    simp only [Option.map_some, compileSoa]
    rw [← h.soa soa hsoa]

end Settings

/-! ### The blocks are read back -/

/-- A block that says what a zone is, at the line the zone was read from. -/
def Zone.raw (z : Zone) : RawZone where
  network := ⟨z.srcLine, [], (0, 0), networkText z.pfx z.mask⟩
  resolvesTo := some ⟨z.srcLine, [], (0, 0), z.resolvesTo⟩
  upstream := z.upstream.map fun a => ⟨z.srcLine, [], (0, 0), a.display⟩

/-- The block of a zone is what is written of it. -/
lemma Zone.block_raw (z : Zone) : z.raw.block = z.block := by
  unfold RawZone.block Zone.raw Zone.block
  cases z.upstream with
  | none => rfl
  | some a => rfl

/-- **A zone is compiled back from its block.** -/
lemma compiles_raw {hk : Hickory} {z : Zone} (hz : z.Wf)
    (htemplate : ∃ v : RawValue, v.value = z.resolvesTo ∧
      compileTemplate hk v z.hostNibbles = .ok z.fwd) :
    Compiles hk z.raw (z.withTtl defaultTtl) := by
  obtain ⟨v, hv, hcompiled⟩ := htemplate
  refine ⟨compileNetwork_networkText rfl hz.aligned hz.mask_ge hz.mask_le hz.masked, hz.nibbles,
    ⟨_, rfl, rfl, ?_⟩, ?_, hz.ptrZone, hz.parent, rfl, rfl⟩
  · refine (eq_ok_iff_of_toOption (toOption_compileTemplate ?_ hk z.hostNibbles) z.fwd).mp hcompiled
    exact hv
  · unfold Zone.raw compileUpstream Zone.withTtl
    cases z.upstream with
    | none => rfl
    | some a => simp [IpAddr.fromStr_display]

/-- The addresses to listen on are read back. -/
lemma compileListens_display {vs : List RawValue} {addrs : List ListenAddr}
    (hports : ∀ a ∈ addrs, a.port < 2 ^ 16)
    (h : vs.map RawValue.value = addrs.map fun a => SocketAddr.display ⟨a.addr, a.port⟩) :
    compileListens vs = (addrs, []) := by
  refine compileListens_eq_iff.mpr ?_
  induction addrs generalizing vs with
  | nil =>
    rw [List.map_nil, List.map_eq_nil_iff] at h
    rw [h]
    exact .nil
  | cons a addrs ih =>
    obtain ⟨v, vs, rfl, hv, hvs⟩ := List.map_eq_cons_iff.mp h
    refine .cons ?_ (ih (fun b hb => hports b (by simp [hb])) hvs)
    rw [compileListen, hv, SocketAddr.fromStr_display _ (hports a (by simp))]

/-- Zones in order that were read back are the zones, but for their lines. -/
lemma map_sansLine_of_read {zs zs' : List Zone} {ttl : ℕ}
    (hsorted : zs.Pairwise fun z w => w.mask ≤ z.mask) (httl : ∀ z ∈ zs, z.ttl = ttl)
    (h : zs'.map Zone.sansLine = (zs.map (Zone.withTtl defaultTtl)).map Zone.sansLine) :
    (sortByMask (zs'.map (Zone.withTtl ttl))).map Zone.sansLine = zs.map Zone.sansLine := by
  have hcomm : zs'.map (Zone.sansLine ∘ Zone.withTtl ttl) =
      (zs'.map Zone.sansLine).map (Zone.withTtl ttl) := by
    rw [List.map_map]
    rfl
  have hkeep : (zs.map (Zone.withTtl defaultTtl)).map (Zone.withTtl ttl ∘ Zone.sansLine) =
      zs.map Zone.sansLine := by
    rw [List.map_map]
    refine List.map_congr_left fun z hz => ?_
    simp [Zone.withTtl, Zone.sansLine, httl z hz]
  rw [map_sansLine_sortByMask, List.map_map, hcomm, h, List.map_map, hkeep,
    ← map_sansLine_sortByMask, sortByMask, hsorted.insertionSort_eq]

/-- **A configuration is parsed back from its canonical text.** Every name of an accepted
configuration has a text; and with any texts for the names, the canonical text of the configuration
is accepted and means the same, but for the lines the zones are read from. -/
theorem parse_render {hk : Hickory} {input : Bytes} {c : Config}
    (h : Config.parse hk input = .ok c) :
    (∃ nameText, ∀ n ∈ c.names, NameText nameText hk n) ∧
    ∀ nameText, (∀ n ∈ c.names, NameText nameText hk n) →
      ∃ c', Config.parse hk (c.render nameText) = .ok c' ∧ c'.sansLines = c.sansLines := by
  have hsay := sayable_of_parse h
  refine ⟨hsay.names, fun nameText hnames => ?_⟩
  obtain ⟨herr, hcfg⟩ := parse_outline.mpr (outline_print (sayable_outline hsay hnames))
  obtain ⟨hlisten, hblocks, hglobals⟩ := Outline.mk.inj hcfg
  have hlistens := compileListens_display hsay.ports hlisten
  have hcompiled := compileGlobals_settings hsay hnames hglobals
  have hraw : List.Forall₂ (Compiles hk) (c.zones.map Zone.raw)
      (c.zones.map (Zone.withTtl defaultTtl)) := by
    rw [List.forall₂_map_left_iff, List.forall₂_map_right_iff, List.forall₂_same]
    exact fun z hz => compiles_raw (hsay.wf.zones z hz) (hsay.zones z hz).2
  have hsame : (parse (c.render nameText)).cfg.zones.map RawZone.block =
      (c.zones.map Zone.raw).map RawZone.block := by
    rw [List.map_map]
    exact hblocks.trans (List.map_congr_left fun z _ => z.block_raw.symm)
  obtain ⟨zs', hzs', hsans⟩ := forall₂_compiles_of_block_eq hsame hraw
  have hapart : zs'.Pairwise Zone.Apart := by
    have hmap : ((c.zones.map (Zone.withTtl defaultTtl)).map Zone.sansLine).Pairwise Zone.Apart :=
      List.pairwise_map.mpr (List.pairwise_map.mpr hsay.wf.apart)
    rw [← hsans, List.pairwise_map] at hmap
    exact hmap
  have hparsed := parse_eq_ok_iff.mpr ⟨herr, congrArg Prod.snd hlistens,
    congrArg Globals.errors hcompiled, zs', hzs', hapart, rfl⟩
  refine ⟨_, hparsed, ?_⟩
  obtain ⟨ttl, httl⟩ := hsay.ttl
  have hhead : ∀ z ∈ c.zones, z.ttl = c.zones.head?.elim defaultTtl Zone.ttl := by
    intro z hz
    cases hzones : c.zones with
    | nil => simp [hzones] at hz
    | cons w ws => rw [List.head?_cons, Option.elim_some, httl z hz, httl w (by simp [hzones])]
  have hzones := map_sansLine_of_read hsay.wf.sorted hhead hsans
  simp only [Config.sansLines, hlistens, hcompiled, hzones]

/-- A name as labels with dots between them. -/
def dottedText (n : Name) : Bytes := ['.'.toUInt8].intercalate n.labels

/-- A file with a name server. -/
def namedInput : Bytes := ofString "ns NS1.Example
network 2001:DB8::/32
resolves to %DIGITS%.Example"

/-- A configuration with names, numbers and two networks survives being written out. -/
theorem parse_render_namedInput :
    ∃ c', Config.parse plainHickory ((plainlyParsed namedInput).render dottedText) = .ok c' ∧
      c'.sansLines = (plainlyParsed namedInput).sansLines := by
  have hparse : Config.parse plainHickory namedInput = .ok (plainlyParsed namedInput) := by
    decide +kernel
  have hplain : ((plainlyParsed namedInput).names.all fun n =>
      (dottedText n).all isPlainByte && !(dottedText n).isEmpty &&
        plainHickory.fromStrRelaxed (dottedText n) == some n) = true := by decide +kernel
  refine (parse_render hparse).2 dottedText fun n hn => ?_
  have hname := List.all_eq_true.mp hplain n hn
  simp only [Bool.and_eq_true, Bool.not_eq_true', List.isEmpty_eq_false_iff, beq_iff_eq] at hname
  obtain ⟨htext, hlower⟩ := isText_of_plain (List.all_eq_true.mp hname.1.1) hname.1.2
  exact ⟨htext, hlower, hname.2⟩

end PanoptiDns
