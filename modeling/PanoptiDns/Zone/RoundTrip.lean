import PanoptiDns.Zone.Lookup

set_option relaxedAutoImplicit false
set_option autoImplicit false

/-!
# From an address to a name and back

A PTR query gives an address a name; an AAAA query on that name should give the address back.
The reverse half goes to the zone of the longest prefix. The forward half goes to the first zone
that spells the name, and nothing in the validator keeps two templates from spelling the same
name: that is the one way the round trip fails, next to a template that starts with `*`.

## Main definitions

* `ptrThenAaaa` — the two queries, one after the other.
* `Zone.Starred` — the template starts with the label `*`.
* `Config.NameReturns` — when the round trip is the identity.

## Main results

* `resolve_eq_noZone_iff`, `resolve_eq_noName_iff`, `resolve_eq_answer` — the outcomes of `resolve`.
* `ptrThenAaaa_eq_some_iff` — the round trip is the identity exactly when no zone scanned earlier
  spells the name.
-/

namespace PanoptiDns

open Bytes

/-! ## The outcomes of `resolve` -/

/-- A reverse type finds the reverse name, any other type does not look. -/
lemma reverseStep_eq_none_iff {c : Config} {q : Name} {t : RecordType} :
    (if reverseHasType t then matchPtr c q else none) = none ↔
      (reverseHasType t = true → ¬c.HasReverse q) := by
  rw [← matchPtr_isSome_iff]
  by_cases ht : reverseHasType t = true
  · simp [ht]
  · simp [ht]

/-- **Outside our namespace** is where nothing is found and no apex is above. -/
lemma resolve_eq_noZone_iff {c : Config} (hc : c.Wf) {q : Name} {t : RecordType} :
    resolve c q t = .noZone ↔
      (reverseHasType t = true → ¬c.HasReverse q) ∧ ¬c.HasForward q ∧ ¬c.Covers q := by
  rw [← reverseStep_eq_none_iff, ← matchForward_isSome_iff hc, ← zoneContaining_isSome_iff]
  unfold resolve resolveForward
  cases (if reverseHasType t then matchPtr c q else none) with
  | some m => simp
  | none =>
    cases matchForward c q with
    | some m => simp
    | none => cases zoneContaining c q <;> simp

/-- **A name that is not there** is one under an apex that nothing finds. -/
lemma resolve_eq_noName_iff {c : Config} (hc : c.Wf) {q : Name} {t : RecordType} :
    (∃ z, resolve c q t = .noName z) ↔
      (reverseHasType t = true → ¬c.HasReverse q) ∧ ¬c.HasForward q ∧ c.Covers q := by
  rw [← reverseStep_eq_none_iff, ← matchForward_isSome_iff hc, ← zoneContaining_isSome_iff]
  unfold resolve resolveForward
  cases (if reverseHasType t then matchPtr c q else none) with
  | some m => simp
  | none =>
    cases matchForward c q with
    | some m => simp
    | none => cases zoneContaining c q <;> simp

/-- A query that is not looked up as the name of an address, or is none, is answered from the zone
whose template spells it. -/
lemma resolve_of_matchForward {c : Config} {q : Name} {t : RecordType}
    (hrev : reverseHasType t = true → ¬c.HasReverse q) {z : Zone} {a : U128}
    (hm : matchForward c q = some (z, a)) :
    resolve c q t = .answer z (if forwardHasType t then [aaaaRecord z q a] else []) := by
  rw [resolve, reverseStep_eq_none_iff.mpr hrev]
  simp only [resolveForward, hm]

/-- **An answer** comes from the reverse zones or from the forward templates. -/
lemma resolve_eq_answer {c : Config} {q : Name} {t : RecordType} {z : Zone} {records : List Record}
    (h : resolve c q t = .answer z records) :
    (∃ a, reverseHasType t = true ∧ matchPtr c q = some (z, a) ∧
      records = (ptrRecord z q a).toList) ∨
    ∃ a, matchForward c q = some (z, a) ∧
      records = if forwardHasType t then [aaaaRecord z q a] else [] := by
  unfold resolve at h
  split at h
  · rename_i w a hm
    left
    obtain ⟨rfl, rfl⟩ := Outcome.answer.inj h
    by_cases ht : reverseHasType t = true
    · rw [if_pos ht] at hm
      exact ⟨a, ht, hm, rfl⟩
    · rw [if_neg ht] at hm
      simp at hm
  · right
    unfold resolveForward at h
    split at h
    · rename_i w a hm
      obtain ⟨rfl, rfl⟩ := Outcome.answer.inj h
      exact ⟨a, hm, rfl⟩
    · split at h <;> simp at h

/-! ## Two queries -/

/-- The target of an answer that is exactly one PTR record. -/
def Outcome.ptrTarget : Outcome → Option Name
  | .answer _ [⟨_, _, _, .ptr target⟩] => some target
  | _ => none

/-- The address of an answer that is exactly one AAAA record. -/
def Outcome.aaaaAddr : Outcome → Option U128
  | .answer _ [⟨_, _, _, .aaaa addr⟩] => some addr
  | _ => none

/-- A PTR query for an address, then an AAAA query for the name it gives. -/
def ptrThenAaaa (c : Config) (a : U128) : Option U128 := do
  let q ← netmaskToPtrName a 128
  let n ← (resolve c q .PTR).ptrTarget
  (resolve c n .AAAA).aaaaAddr

/-- The first query: the name of the address in the zone of the longest prefix. -/
lemma ptrTarget_resolve {c : Config} (hc : c.Wf) {a : U128} {r : Name}
    (hr : r.key = reverseLabels a 32) {z : Zone} (hz : zoneForAddr c a = some z) :
    (resolve c r .PTR).ptrTarget = forwardName z a := by
  obtain ⟨hmem, hin⟩ := of_zoneForAddr hz
  obtain ⟨n, hn, -⟩ := (hc.zones z hmem).exists_spells hin
  rw [resolve_of_matchPtr (by decide) (matchPtr_eq_some_iff.mpr ⟨hr, hz⟩)]
  simp [ptrRecord, hn, Outcome.ptrTarget, Record.fromRData]

/-- The second query: the address at which the forward templates find the name. -/
lemma aaaaAddr_resolve (c : Config) (n : Name) :
    (resolve c n .AAAA).aaaaAddr = (matchForward c n).map Prod.snd := by
  unfold resolve resolveForward
  rw [if_neg (by decide)]
  cases matchForward c n with
  | some m => rfl
  | none => cases zoneContaining c n <;> rfl

/-! ## When the round trip is the identity -/

/-- The template starts with the label `*`. -/
def Zone.Starred (z : Zone) : Prop := z.fwd.labels.head? = some (.lit Name.star)

instance (z : Zone) : Decidable z.Starred := inferInstanceAs (Decidable (_ = _))

/-- The digits of an address start the text the placeholder shows for it. -/
lemma Pattern.mem_grouped (p : Pattern) {d : UInt8} {ds : Bytes}
    (hgroups : p.dashed = true → (d :: ds).length % 4 = 0) : d ∈ p.grouped (d :: ds) := by
  unfold Pattern.grouped
  split
  · rename_i hdash
    obtain ⟨g, hg⟩ : ∃ g, (d :: ds).length / 4 = g + 1 := by
      have := hgroups hdash
      rw [List.length_cons] at this ⊢
      exact ⟨(ds.length + 1) / 4 - 1, by omega⟩
    rw [hg, dashJoin]
    simp
  · simp

/-- The label with the digits is never `*`: it has a digit in it. -/
lemma Zone.Renders.digits_ne_star {z : Zone} (hz : z.Wf) {p : Pattern} (hp : z.Renders p)
    (a : U128) : p.pre ++ p.grouped (hexDigits z.hostNibbles a) ++ p.post ≠ Name.star := by
  intro hstar
  have hpos := hz.hostNibbles_pos
  have hgroups := hp.groups_hexDigits a
  have hfirst := hexDigits_getElem? hpos a
  have hascii := hexDigit_ascii (Nat.mod_lt (a.toNat / 16 ^ (z.hostNibbles - 1 - 0)) (by norm_num))
  cases hds : hexDigits z.hostNibbles a with
  | nil =>
    rw [hds] at hfirst
    simp at hfirst
  | cons d ds =>
    rw [hds] at hgroups hfirst hstar
    have hmem : d ∈ p.pre ++ p.grouped (d :: ds) ++ p.post := by
      simp [p.mem_grouped hgroups]
    rw [hstar, show Name.star = [42] by decide, List.mem_singleton] at hmem
    rw [List.getElem?_cons_zero, Option.some.injEq] at hfirst
    exact hascii.1 (hfirst.symm.trans hmem)

/-- A zone's names start with the label `*` iff its template does: digits are never a `*`. -/
lemma Zone.Wf.head_forwardName {z : Zone} (hz : z.Wf) {a : U128} {n : Name}
    (hn : forwardName z a = some n) : n.labels.head? = some Name.star ↔ z.Starred := by
  obtain ⟨p, hp, -, -⟩ := hz.exists_pattern
  obtain ⟨m, hm, hlabels⟩ := forwardName_eq hz hp a
  obtain rfl : m = n := Option.some.inj (hm.symm.trans hn)
  rw [hlabels, Zone.Starred, hp.fwd]
  unfold Pattern.labels Pattern.template
  cases hb : p.before with
  | cons s ss =>
    simp only [List.cons_append, List.head?_cons, Option.some.injEq, List.map_cons]
    constructor
    · rintro rfl
      rfl
    · intro h
      exact (FwdLabel.literal.inj h).1
  | nil =>
    simp only [List.nil_append, List.map_nil, List.head?_cons, Option.some.injEq]
    constructor
    · intro hstar
      exact absurd hstar (hp.digits_ne_star hz a)
    · intro h
      cases h

/-- The first zone that spells a name at all spells it for the address. -/
def Config.FirstSpells (c : Config) (key : List Bytes) (a : U128) : Prop :=
  ∃ pre z post, c.zones = pre ++ z :: post ∧ z.Spells a key ∧ ∀ w ∈ pre, ∀ b, ¬w.Spells b key

/-- When the name of an address leads back to the address. The zone of the address is the first
in scanning order that has it; its template does not start with `*`, and no zone before it
spells the same name for an address of its own. Or the template does start with `*`, and the
name less its last label, which is what the query is compared by, happens to be spelled first
for the address. -/
def Config.NameReturns (c : Config) (a : U128) : Prop :=
  ∃ pre z post n, c.zones = pre ++ z :: post ∧ z.contains a = true ∧
    (∀ w ∈ pre, w.contains a = false) ∧ forwardName z a = some n ∧
    if z.Starred then c.FirstSpells n.key.dropLast a else ∀ w ∈ pre, ∀ b, ¬w.Spells b n.key

/-- The forward scan finds an address iff the first zone that spells the name has it there. -/
lemma matchForward_addr_iff {c : Config} (hc : c.Wf) {n : Name} {a : U128} :
    (matchForward c n).map Prod.snd = some a ↔ c.FirstSpells n.counted a := by
  unfold Config.FirstSpells
  rw [Option.map_eq_some_iff]
  constructor
  · rintro ⟨⟨z, b⟩, hm, rfl⟩
    obtain ⟨pre, post, hsplit, hz, hpre⟩ := (matchForward_eq_some_iff hc).mp hm
    exact ⟨pre, z, post, hsplit, hz, hpre⟩
  · rintro ⟨pre, z, post, hsplit, hz, hpre⟩
    exact ⟨(z, a), (matchForward_eq_some_iff hc).mpr ⟨pre, post, hsplit, hz, hpre⟩, rfl⟩

/-- Where the zone of an address is the first that has it, a name it spells for the address is
spelled for the address first iff no zone before it spells it. -/
lemma firstSpells_iff {c : Config} {pre post : List Zone} {z : Zone} {a : U128} {key : List Bytes}
    (hsplit : c.zones = pre ++ z :: post) (hz : z.Spells a key)
    (hpre : ∀ w ∈ pre, w.contains a = false) :
    c.FirstSpells key a ↔ ∀ w ∈ pre, ∀ b, ¬w.Spells b key := by
  constructor
  · rintro ⟨pre', z', post', hsplit', hz', hpre'⟩
    have hz'pre : z' ∉ pre := by
      intro hmem
      have := hpre z' hmem
      rw [hz'.1] at this
      cases this
    rw [hsplit] at hsplit'
    rcases List.append_eq_append_iff.mp hsplit' with ⟨mid, rfl, -⟩ | ⟨mid, rfl, hmid⟩
    · intro w hw
      exact hpre' w (by simp [hw])
    · cases mid with
      | nil =>
        intro w hw
        exact hpre' w (by simpa using hw)
      | cons m mid =>
        obtain ⟨rfl, -⟩ := List.cons.inj hmid
        exact absurd (by simp) hz'pre
  · intro h
    exact ⟨pre, z, post, hsplit, hz, h⟩

/-- **The round trip is the identity exactly when the name returns.** -/
theorem ptrThenAaaa_eq_some_iff {hk : Hickory} {input : Bytes} {c : Config}
    (h : Config.parse hk input = .ok c) {a : U128} (ha : ∃ z ∈ c.zones, z.contains a = true) :
    ptrThenAaaa c a = some a ↔ c.NameReturns a := by
  have hc := parse_wf h
  obtain ⟨r, hr, hrkey⟩ := netmaskToPtrName_full a
  have hsome : (zoneForAddr c a).isSome = true := List.find?_isSome.mpr ha
  obtain ⟨z, hz⟩ := Option.isSome_iff_exists.mp hsome
  obtain ⟨hmem, hin⟩ := of_zoneForAddr hz
  obtain ⟨-, pre, post, hsplit, hpre⟩ := List.find?_eq_some_iff_append.mp hz
  obtain ⟨n, hn, hspells⟩ := (hc.zones z hmem).exists_spells hin
  have hbefore : ∀ w ∈ pre, w.contains a = false := by
    intro w hw
    simpa using hpre w hw
  have htrip : ptrThenAaaa c a = some a ↔ c.FirstSpells n.counted a := by
    unfold ptrThenAaaa
    rw [hr]
    simp only [Option.bind_eq_bind, Option.bind_some]
    rw [ptrTarget_resolve hc hrkey hz, hn]
    simp only [Option.bind_some]
    rw [aaaaAddr_resolve, matchForward_addr_iff hc]
  have hcond : c.FirstSpells n.counted a ↔
      if z.Starred then c.FirstSpells n.key.dropLast a else ∀ w ∈ pre, ∀ b, ¬w.Spells b n.key := by
    have hhead := (hc.zones z hmem).head_forwardName hn
    split
    · rename_i hstar
      rw [Name.counted, if_pos (hhead.mpr hstar)]
    · rename_i hstar
      rw [Name.counted_of_not_star fun hs => hstar (hhead.mp hs)]
      exact firstSpells_iff hsplit hspells hbefore
  rw [htrip, hcond]
  constructor
  · intro hif
    exact ⟨pre, z, post, n, hsplit, hin, hbefore, hn, hif⟩
  · rintro ⟨pre', z', post', n', hsplit', hin', hbefore', hn', hif⟩
    -- the split at the first zone that has the address is unique
    have hz' : zoneForAddr c a = some z' := by
      unfold zoneForAddr
      rw [List.find?_eq_some_iff_append]
      exact ⟨hin', pre', post', hsplit', fun w hw => by simp [hbefore' w hw]⟩
    obtain rfl : z = z' := Option.some.inj (hz.symm.trans hz')
    obtain rfl : n = n' := Option.some.inj (hn.symm.trans hn')
    by_cases hstar : z.Starred
    · rw [if_pos hstar] at hif ⊢
      exact hif
    · rw [if_neg hstar] at hif ⊢
      exact (firstSpells_iff hsplit hspells hbefore).mp
        ((firstSpells_iff hsplit' hspells hbefore').mpr hif)

/-- The name of an address of the sample leads back to it. -/
theorem nameReturns_sampleInput :
    (parsed sampleInput).NameReturns 0x20010db80000004200000000deadbeef :=
  (ptrThenAaaa_eq_some_iff parse_sampleInput (by decide +kernel)).mp (by decide +kernel)

/-- Two networks whose templates meet: the digits of the shorter prefix can start with the `a`
that the longer one has as text. -/
def collidingInput : Bytes := ofString "network 2001:db8:1::/64
    resolves to a%DIGITS%.example.net
network 2001:db8:2::/60
    resolves to %DIGITS%.example.net
"

/-- With two templates that spell the same name, it leads elsewhere. -/
theorem ptrThenAaaa_collidingInput :
    Config.parse namelessHickory collidingInput = .ok (parsed collidingInput) ∧
      (∃ z ∈ (parsed collidingInput).zones, z.contains 0x20010db80002000a0000000000000001 = true) ∧
      ptrThenAaaa (parsed collidingInput) 0x20010db80002000a0000000000000001 ≠
        some 0x20010db80002000a0000000000000001 := by
  decide +kernel

end PanoptiDns
