import PanoptiDns.Config.Accept
import PanoptiDns.Zone.Basic

set_option relaxedAutoImplicit false
set_option autoImplicit false

/-!
# Forward names

Synthesis and its inverse. `forward_name` renders the digits of an address into a zone's
pattern; `match_zone_forward` takes a name apart again. For a well-formed zone the second is the
exact inverse of the first, up to case, but for one thing: hickory's label count leaves out a
leading `*`, so a query that starts with one is matched less its last label.

## Main definitions

* `Zone.Renders` — the zone's template is that of a pattern all of whose renderings fit.
* `Zone.Spells` — a zone has an address and gives it a name.
* `Name.counted` — the part of a query name that `match_zone_forward` compares.

## Main results

* `forwardName_eq` — synthesis never fails, and what it gives.
* `matchZoneForward_eq_some_iff` — what is matched.
-/

namespace PanoptiDns

open Bytes PrefixMask

/-! ## Well-formed zones -/

/-- The zone's template is that of a pattern all of whose renderings fit the limits of DNS. -/
structure Zone.Renders (z : Zone) (p : Pattern) : Prop where
  fwd : z.fwd = p.template
  groups : p.dashed = true → z.hostNibbles % 4 = 0
  fits : ∀ digits : Bytes, digits.length = z.hostNibbles → ValidLabels (p.labels digits)

/-- Containment is agreement of the network parts. -/
lemma Zone.contains_iff (z : Zone) (a : U128) :
    z.contains a = true ↔ a &&& maskBits z.mask = z.pfx := by
  simp [Zone.contains]

namespace Zone.Wf

variable {z : Zone} (hz : z.Wf)

include hz

/-- The mask counts whole nibbles. -/
lemma mask_eq : z.mask = 4 * (z.mask / 4) := by
  have := hz.aligned
  omega

/-- The nibbles of the host part, counted from the full address. -/
lemma hostNibbles_eq : z.hostNibbles = 32 - z.mask / 4 := by
  have h₁ := hz.nibbles
  have h₂ := hz.aligned
  have h₃ := hz.mask_le
  omega

/-- There is at least one. -/
lemma hostNibbles_pos : 0 < z.hostNibbles := by
  have h₁ := hz.hostNibbles_eq
  have h₂ := hz.mask_le
  omega

/-- There is at least one of the network. -/
lemma hostNibbles_le : z.hostNibbles ≤ 31 := by
  have h₁ := hz.hostNibbles_eq
  have h₂ := hz.mask_ge
  omega

/-- As many hosts by nibbles as by bits. -/
lemma sixteen_pow_hostNibbles : (16 : ℕ) ^ z.hostNibbles = 2 ^ (128 - z.mask) := by
  rw [show (16 : ℕ) = 2 ^ 4 by norm_num, ← pow_mul, hz.hostNibbles_eq]
  congr 1
  have h₁ := hz.aligned
  have h₂ := hz.mask_le
  omega

/-- **A zone has a pattern**, written as its `resolves to` value, and all renderings fit because
the widest did at startup. -/
lemma exists_pattern : ∃ p : Pattern, z.Renders p ∧ p.WrittenAs z.resolvesTo ∧
    ∀ s ∈ p.before ++ p.after, s ≠ [] := by
  obtain ⟨p, hfwd, hwritten, hne, hgroups, hok⟩ := hz.pattern
  refine ⟨p, ⟨hfwd, hgroups, ?_⟩, hwritten, hne⟩
  intro digits hlen
  have hwidth : min z.hostNibbles addrNibbles = z.hostNibbles := by
    have := hz.hostNibbles_le
    unfold addrNibbles
    omega
  have hf : ∀ b ∈ List.replicate z.hostNibbles 'f'.toUInt8, b < 0x80 := by
    intro b hb
    rw [List.eq_of_mem_replicate hb]
    decide
  rw [hwidth, p.render_template hf (by simpa using hgroups)] at hok
  have hwidest : ValidLabels (p.labels (List.replicate z.hostNibbles 'f'.toUInt8)) :=
    (Name.isOk_fromLabels_iff _).mp hok
  refine (p.validLabels_labels (by simp [hlen]) ?_).mpr hwidest
  intro hd
  rw [hlen]
  exact hgroups hd

/-- The apex of a zone is what follows the placeholder's label. -/
lemma labels_fwdParent {p : Pattern} (hp : z.Renders p) : z.fwdParent.labels = p.after := by
  have h := hz.parent
  rw [hp.fwd, p.parent_template] at h
  exact Name.fromLabels_eq_ok.mp h

/-- The reverse zone of a network is the name of its nibbles. -/
lemma key_ptrZone : z.ptrZone.key = reverseLabels z.pfx (z.mask / 4) := by
  have hk : z.mask / 4 ≤ 32 := by
    have := hz.mask_le
    omega
  have h := hz.ptrZone
  rw [hz.mask_eq, netmaskToPtrName_eq _ hk] at h
  rw [← Option.some.inj h, Name.key]
  exact map_lower_reverseLabels _ _

/-- An address in the network is the network with the address's host part. -/
lemma eq_or_of_contains {a h : U128} (ha : z.contains a = true)
    (hmod : a.toNat % 16 ^ z.hostNibbles = h.toNat) : a = z.pfx ||| h := by
  rw [z.contains_iff, maskBits_eq] at ha
  rw [hz.sixteen_pow_hostNibbles] at hmod
  exact eq_or_of_parts (by have := hz.mask_le; omega) ha hmod

/-- The network with a host part is in the network and keeps the host part. -/
lemma contains_or {h : U128} (hh : h.toNat < 16 ^ z.hostNibbles) :
    z.contains (z.pfx ||| h) = true ∧ (z.pfx ||| h).toNat % 16 ^ z.hostNibbles = h.toNat := by
  have hm : z.mask ≤ 128 := by
    have := hz.mask_le
    omega
  have hp := hz.masked
  rw [hz.sixteen_pow_hostNibbles] at hh ⊢
  rw [z.contains_iff]
  rw [maskBits_eq] at hp ⊢
  exact ⟨or_and_networkMask hm hp hh, or_mod_two_pow hm hp hh⟩

end Zone.Wf

/-! ## Synthesis -/

section Synthesis

variable {z : Zone} (hz : z.Wf) {p : Pattern} (hp : z.Renders p)

include hp in
/-- The digits of an address fill whole groups. -/
lemma Zone.Renders.groups_hexDigits (a : U128) :
    p.dashed = true → (hexDigits z.hostNibbles a).length % 4 = 0 := by
  intro hd
  rw [length_hexDigits]
  exact hp.groups hd

include hz hp

/-- **Synthesis never fails**: the forward name of an address has the labels of the zone's
pattern, with the address's low nibbles in place of the placeholder. -/
lemma forwardName_eq (a : U128) :
    ∃ n, forwardName z a = some n ∧ n.labels = p.labels (hexDigits z.hostNibbles a) := by
  have hfits := hp.fits (hexDigits z.hostNibbles a) (length_hexDigits _ _)
  have hdigits : hostDigits a z.hostNibbles = some (hexDigits z.hostNibbles a) :=
    hostDigits_eq a hz.hostNibbles_pos (by have := hz.hostNibbles_le; omega)
  refine ⟨⟨_, hfits⟩, ?_, rfl⟩
  unfold forwardName
  rw [hdigits, hp.fwd]
  simp only [Option.bind_eq_bind, Option.bind_some]
  rw [p.render_template (hexDigits_ascii _ _) (hp.groups_hexDigits a), Name.fromLabels,
    dif_pos hfits]
  rfl

/-- The case-folded labels of a forward name. -/
lemma key_forwardName {a : U128} {n : Name} (hn : forwardName z a = some n) :
    n.key = p.before.map lower ++
      (lower p.pre ++ p.grouped (hexDigits z.hostNibbles a) ++ lower p.post) ::
        p.after.map lower := by
  obtain ⟨m, hm, hlabels⟩ := forwardName_eq hz hp a
  obtain rfl : m = n := Option.some.inj (hm.symm.trans hn)
  rw [Name.key, hlabels, p.map_lower_labels, lower_hexDigits]

end Synthesis

/-- The address is in the zone's network, and its forward name there has the given case-folded
labels. -/
def Zone.Spells (z : Zone) (a : U128) (key : List Bytes) : Prop :=
  z.contains a = true ∧ ∃ n, forwardName z a = some n ∧ n.key = key

/-! ## Matching -/

/-- A prefix is stripped in any case. -/
lemma stripPrefixCi_eq_some {label pfx tail : Bytes} :
    stripPrefixCi label pfx = some tail ↔
      ∃ head, label = head ++ tail ∧ lower head = lower pfx := by
  unfold stripPrefixCi
  simp only [Option.bind_eq_bind, Option.bind_eq_some_iff, Prod.exists, splitAtChecked_eq_some,
    Option.ite_none_right_eq_some, eqIgnoreCase_iff, Option.some.injEq]
  constructor
  · rintro ⟨head, t, ⟨rfl, -⟩, hlow, rfl⟩
    exact ⟨head, rfl, hlow⟩
  · rintro ⟨head, rfl, hlow⟩
    exact ⟨head, tail, ⟨rfl, length_eq_of_lower_eq hlow⟩, hlow, rfl⟩

/-- So is a suffix. -/
lemma stripSuffixCi_eq_some {label suffix head : Bytes} :
    stripSuffixCi label suffix = some head ↔
      ∃ tail, label = head ++ tail ∧ lower tail = lower suffix := by
  unfold stripSuffixCi
  split
  · rename_i hlt
    simp only [reduceCtorEq, false_iff, not_exists, not_and]
    rintro tail rfl hlow
    have := length_eq_of_lower_eq hlow
    rw [List.length_append] at hlt
    omega
  · rename_i hge
    simp only [Option.bind_eq_bind, Option.bind_eq_some_iff, Prod.exists, splitAtChecked_eq_some,
      Option.ite_none_right_eq_some, eqIgnoreCase_iff, Option.some.injEq]
    constructor
    · rintro ⟨h, tail, ⟨rfl, -⟩, hlow, rfl⟩
      exact ⟨tail, rfl, hlow⟩
    · rintro ⟨tail, rfl, hlow⟩
      refine ⟨head, tail, ⟨rfl, ?_⟩, hlow, rfl⟩
      rw [List.length_append, length_eq_of_lower_eq hlow]
      omega

/-- **The placeholder's label** gives a host part iff it is, up to case, the host part's digits in
the text around the placeholder. -/
lemma matchDigits_eq_some_iff {p : Pattern} {n : ℕ} (hpos : 0 < n) (hle : n ≤ 32)
    (hgroups : p.dashed = true → n % 4 = 0) (label : Bytes) (h : U128) :
    matchDigits n (lower p.pre) (lower p.post) p.dashed label = some h ↔
      h.toNat < 16 ^ n ∧
        lower label = lower p.pre ++ p.grouped (hexDigits n h) ++ lower p.post := by
  -- the digits alone, grouped or not
  have hmiddle : ∀ middle : Bytes,
      (if p.dashed then (undashGroup middle n).bind fun d => digitsToHost d n
        else digitsToHost middle n) = some h ↔
      h.toNat < 16 ^ n ∧ lower middle = p.grouped (hexDigits n h) := by
    intro middle
    unfold Pattern.grouped
    rw [length_hexDigits]
    split
    · rename_i hd
      obtain ⟨g, rfl⟩ : ∃ g, n = 4 * g := ⟨n / 4, by have := hgroups hd; omega⟩
      have hg : 0 < g := by omega
      rw [Nat.mul_div_cancel_left g (by norm_num : 0 < 4)]
      simp only [Option.bind_eq_some_iff, undashGroup_eq_some_iff hg,
        digitsToHost_eq_some_iff _ hle]
      constructor
      · rintro ⟨d, ⟨hlen, rfl⟩, hlt, hlow⟩
        exact ⟨hlt, by rw [lower_dashJoin, hlow]⟩
      · rintro ⟨hlt, hlow⟩
        rw [← lower_hexDigits] at hlow
        obtain ⟨e, hlen, he, rfl⟩ := exists_of_lower_eq_dashJoin (by simp) hlow
        exact ⟨e, ⟨hlen, rfl⟩, hlt, he.trans (lower_hexDigits _ _)⟩
    · exact digitsToHost_eq_some_iff middle hle h
  have hunfold : matchDigits n (lower p.pre) (lower p.post) p.dashed label = some h ↔
      ∃ rest, stripPrefixCi label (lower p.pre) = some rest ∧
        ∃ middle, stripSuffixCi rest (lower p.post) = some middle ∧
          (if p.dashed then (undashGroup middle n).bind fun d => digitsToHost d n
            else digitsToHost middle n) = some h := by
    unfold matchDigits
    simp only [Option.bind_eq_bind, Option.bind_eq_some_iff]
  simp only [hunfold, hmiddle, stripPrefixCi_eq_some, stripSuffixCi_eq_some, lower_lower]
  constructor
  · rintro ⟨rest, ⟨head, rfl, hhead⟩, middle, ⟨tail, rfl, htail⟩, hlt, hmid⟩
    refine ⟨hlt, ?_⟩
    rw [lower_append, lower_append, hhead, htail, hmid, List.append_assoc]
  · rintro ⟨hlt, hlow⟩
    rw [List.append_assoc] at hlow
    obtain ⟨head, rest, rfl, hhead, hrest⟩ := List.map_eq_append_iff.mp hlow
    obtain ⟨middle, tail, rfl, hmid, htail⟩ := List.map_eq_append_iff.mp hrest
    exact ⟨_, ⟨head, rfl, hhead⟩, middle, ⟨tail, rfl, htail⟩, hlt, hmid⟩

/-- The loop over literal labels compares them, and leaves the host part alone. -/
lemma forwardLoop_literals {n : ℕ} {ls ts : List Bytes} (hlen : ls.length = ts.length)
    (rest : List (Bytes × FwdLabel)) (host : Option U128) (r : Option U128) :
    forwardLoop n (ls.zip (ts.map .lit) ++ rest) host = some r ↔
      ls.map lower = ts.map lower ∧ forwardLoop n rest host = some r := by
  induction ls generalizing ts with
  | nil =>
    obtain rfl : ts = [] := List.length_eq_zero_iff.mp hlen.symm
    simp
  | cons l ls ih =>
    cases ts with
    | nil => simp at hlen
    | cons t ts =>
      have hstep := @ih ts (by simpa using hlen)
      simp only [List.map_cons, List.zip_cons_cons, List.cons_append, FwdLabel.lit, forwardLoop,
        List.cons.injEq]
      by_cases hl : lower l = lower t
      · simpa [hl, eqIgnoreCase] using hstep
      · simp [hl, eqIgnoreCase]

/-- **The loop over a pattern's labels** finds a host part iff the labels are, up to case, the
rendering of its digits. -/
lemma forwardLoop_eq_some_iff {p : Pattern} {n : ℕ} (hpos : 0 < n) (hle : n ≤ 32)
    (hgroups : p.dashed = true → n % 4 = 0) {ls : List Bytes}
    (hlen : ls.length = p.before.length + 1 + p.after.length) (h : U128) :
    forwardLoop n (ls.zip p.template.labels) none = some (some h) ↔
      h.toNat < 16 ^ n ∧ ls.map lower = p.before.map lower ++
        (lower p.pre ++ p.grouped (hexDigits n h) ++ lower p.post) :: p.after.map lower := by
  obtain ⟨ls₁, ls', rfl, hlen₁⟩ : ∃ ls₁ ls', ls = ls₁ ++ ls' ∧ ls₁.length = p.before.length :=
    ⟨ls.take p.before.length, ls.drop p.before.length, by simp, by simp; omega⟩
  obtain ⟨l, ls₂, rfl⟩ : ∃ l ls₂, ls' = l :: ls₂ := by
    cases ls' with
    | nil =>
      rw [List.append_nil] at hlen
      omega
    | cons l ls₂ => exact ⟨l, ls₂, rfl⟩
  have hlen₂ : ls₂.length = p.after.length := by
    simp only [List.length_append, List.length_cons] at hlen
    omega
  have hnil := forwardLoop_literals (n := n) hlen₂ []
  simp only [List.append_nil, forwardLoop, Option.some.injEq] at hnil
  have hdigits : forwardLoop n ((l :: ls₂).zip
      (.around p.pre p.post p.dashed :: p.after.map .lit)) none = some (some h) ↔
      (h.toNat < 16 ^ n ∧ lower l = lower p.pre ++ p.grouped (hexDigits n h) ++ lower p.post) ∧
        ls₂.map lower = p.after.map lower := by
    rw [← matchDigits_eq_some_iff hpos hle hgroups]
    simp only [List.zip_cons_cons, FwdLabel.around, forwardLoop, Option.bind_eq_bind,
      Option.bind_eq_some_iff, hnil, Option.some.injEq]
    constructor
    · rintro ⟨h', hmatch, heq, rfl⟩
      exact ⟨hmatch, heq⟩
    · rintro ⟨hmatch, heq⟩
      exact ⟨h, hmatch, heq, rfl⟩
  rw [Pattern.template, List.zip_append (by simpa using hlen₁), forwardLoop_literals hlen₁, hdigits,
    List.map_append, List.map_cons]
  constructor
  · rintro ⟨h₁, ⟨hlt, hl⟩, h₂⟩
    exact ⟨hlt, by rw [h₁, hl, h₂]⟩
  · rintro ⟨hlt, heq⟩
    obtain ⟨h₁, htail⟩ := List.append_inj heq (by simpa using hlen₁)
    obtain ⟨hl, h₂⟩ := List.cons.inj htail
    exact ⟨h₁, ⟨hlt, hl⟩, h₂⟩

/-- The part of a query name that `match_zone_forward` compares with the template: all of it, but
less its last label when it starts with `*`, which the label count leaves out. -/
def Name.counted (q : Name) : List Bytes :=
  if q.labels.head? = some Name.star then q.key.dropLast else q.key

/-- All of a name that does not start with `*` is compared. -/
lemma Name.counted_of_not_star {q : Name} (h : q.labels.head? ≠ some Name.star) :
    q.counted = q.key := if_neg h

/-- The labels that are compared are the ones `num_labels` counts. -/
lemma Name.length_counted (q : Name) : q.counted.length = q.numLabels := by
  unfold Name.counted Name.numLabels
  split <;> simp

/-- What is counted of a query is its first labels, as many as `num_labels` says. -/
lemma Name.map_take_numLabels (q : Name) : (q.labels.take q.numLabels).map lower = q.counted := by
  rw [List.map_take]
  unfold Name.counted Name.numLabels
  split
  · rw [List.dropLast_eq_take, Name.length_key]
    rfl
  · rw [← Name.length_key]
    exact List.take_length

/-- The host part of an address, as an address. -/
lemma Zone.Wf.exists_host {z : Zone} (hz : z.Wf) (a : U128) :
    ∃ h : U128, h.toNat = a.toNat % 16 ^ z.hostNibbles ∧ h.toNat < 16 ^ z.hostNibbles := by
  have hpow : (16 : ℕ) ^ z.hostNibbles ≤ 2 ^ 128 := by
    rw [hz.sixteen_pow_hostNibbles]
    exact Nat.pow_le_pow_right (by norm_num) (by omega)
  have hlt : a.toNat % 16 ^ z.hostNibbles < 16 ^ z.hostNibbles := Nat.mod_lt _ (by positivity)
  have hh : (BitVec.ofNat 128 (a.toNat % 16 ^ z.hostNibbles)).toNat =
      a.toNat % 16 ^ z.hostNibbles := by
    rw [BitVec.toNat_ofNat]
    exact Nat.mod_eq_of_lt (lt_of_lt_of_le hlt hpow)
  exact ⟨_, hh, hh.trans_lt hlt⟩

/-- A zip keeps as much of its first list as the second is long. -/
lemma zip_eq_take_zip {α β : Type} (xs : List α) (ys : List β) :
    xs.zip ys = (xs.take ys.length).zip ys := by
  induction xs generalizing ys with
  | nil => simp
  | cons x xs ih =>
    cases ys with
    | nil => simp
    | cons y ys => simp [← ih]

/-- **What is matched**: a zone matches a query at an address of its network iff what is counted
of the query is, up to case, the forward name of the address. -/
lemma matchZoneForward_eq_some_iff {z : Zone} (hz : z.Wf) (q : Name) (a : U128) :
    matchZoneForward z q = some a ↔ z.Spells a q.counted := by
  unfold Zone.Spells
  obtain ⟨p, hp, -, -⟩ := hz.exists_pattern
  have hle : z.hostNibbles ≤ 32 := by
    have := hz.hostNibbles_le
    omega
  have hcount : z.fwd.labelCount = p.before.length + 1 + p.after.length := by
    rw [hp.fwd, p.labelCount_template]
  -- the labels the zip keeps
  have htake : q.labels.zip z.fwd.labels = (q.labels.take z.fwd.labelCount).zip z.fwd.labels :=
    zip_eq_take_zip _ _
  have hkept : q.numLabels = z.fwd.labelCount →
      (q.labels.take z.fwd.labelCount).map lower = q.counted := by
    intro hnum
    rw [← hnum]
    exact q.map_take_numLabels
  unfold matchZoneForward
  by_cases hnum : q.numLabels = z.fwd.labelCount
  · have hlen : (q.labels.take z.fwd.labelCount).length = p.before.length + 1 + p.after.length := by
      have h₁ := congrArg List.length (hkept hnum)
      rw [List.length_map, Name.length_counted] at h₁
      omega
    rw [if_neg (not_not.mpr hnum), Name.iter, htake]
    simp only [Option.bind_eq_bind, Option.bind_eq_some_iff, Option.map_eq_some_iff]
    constructor
    · rintro ⟨host, hloop, h, rfl, rfl⟩
      rw [hp.fwd] at hloop
      obtain ⟨hlt, hlabels⟩ :=
        (forwardLoop_eq_some_iff hz.hostNibbles_pos hle hp.groups (hp.fwd ▸ hlen) h).mp hloop
      obtain ⟨hin, hmod⟩ := hz.contains_or hlt
      obtain ⟨n, hn, -⟩ := forwardName_eq hz hp (z.pfx ||| h)
      refine ⟨hin, n, hn, ?_⟩
      have hdigits : hexDigits z.hostNibbles (z.pfx ||| h) = hexDigits z.hostNibbles h := by
        rw [hexDigits_inj, hmod, Nat.mod_eq_of_lt hlt]
      rw [key_forwardName hz hp hn, hdigits, ← hlabels, ← hkept hnum, hp.fwd]
    · rintro ⟨hin, n, hn, hkey⟩
      obtain ⟨h, hh, hlt⟩ := hz.exists_host a
      have hdigits : hexDigits z.hostNibbles h = hexDigits z.hostNibbles a := by
        rw [hexDigits_inj, hh, Nat.mod_mod]
      refine ⟨some h, ?_, h, rfl, (hz.eq_or_of_contains hin hh.symm).symm⟩
      rw [hp.fwd]
      refine (forwardLoop_eq_some_iff hz.hostNibbles_pos hle hp.groups (hp.fwd ▸ hlen) h).mpr ?_
      refine ⟨hlt, ?_⟩
      rw [hdigits, ← key_forwardName hz hp hn, hkey, ← hkept hnum, hp.fwd]
  · rw [if_pos hnum]
    simp only [reduceCtorEq, false_iff, not_and, not_exists]
    rintro - n hn hkey
    obtain ⟨m, hm, hlabels⟩ := forwardName_eq hz hp a
    obtain rfl : m = n := Option.some.inj (hm.symm.trans hn)
    apply hnum
    rw [← Name.length_counted, ← hkey, Name.length_key, hlabels, p.length_labels, hcount]

/-- **Forward matching is exact**: for a zone of an accepted configuration, a query that does not
start with `*` is matched at an address iff the address is in the network and the query is its
forward name, up to case. -/
theorem matchZoneForward_iff_forwardName {hk : Hickory} {input : Bytes} {c : Config}
    (h : Config.parse hk input = .ok c) {z : Zone} (hz : z ∈ c.zones) (q : Name)
    (hq : q.labels.head? ≠ some Name.star) (a : U128) :
    matchZoneForward z q = some a ↔
      a &&& maskBits z.mask = z.pfx ∧ (forwardName z a).map Name.key = some q.key := by
  rw [matchZoneForward_eq_some_iff ((parse_wf h).zones z hz), Name.counted_of_not_star hq,
    Zone.Spells, z.contains_iff, Option.map_eq_some_iff]

/-- A name in the inner network of the sample, in mixed case. -/
def sampleName : Name :=
  ⟨[ofString "0000-0000-DEAD-beef", ofString "LAN", ofString "example", ofString "NET"], by decide⟩

/-- The name of the sample, in mixed case, is matched to its address. -/
theorem matchZoneForward_sampleName :
    ∃ z ∈ (parsed sampleInput).zones,
      matchZoneForward z sampleName = some 0x20010db80000004200000000deadbeef := by
  have hz : (parsed sampleInput).zones.head (by decide +kernel) ∈ (parsed sampleInput).zones :=
    List.head_mem _
  refine ⟨_, hz, ?_⟩
  rw [matchZoneForward_iff_forwardName parse_sampleInput hz sampleName (by decide)]
  decide +kernel

/-! ## What synthesis gives -/

/-- The `i`-th hex digit of `n` low nibbles, most significant first. -/
def nibbleDigits (n : ℕ) (a : U128) : Bytes :=
  (List.range n).map fun i => hexLower.getD (a.toNat / 16 ^ (n - 1 - i) % 16) 0

/-- Digits with a dash between groups of four and nowhere else. -/
def inGroups (dashed : Bool) (digits : Bytes) : Bytes :=
  if dashed then
    [dash].intercalate ((List.range (digits.length / 4)).map fun i => (digits.drop (4 * i)).take 4)
  else digits

/-- The digits of a name are those of the address. -/
lemma nibbleDigits_eq (n : ℕ) (a : U128) : nibbleDigits n a = hexDigits n a := by
  apply List.ext_getElem?
  intro i
  by_cases hi : i < n
  · rw [hexDigits_getElem? hi, nibbleDigits, List.getElem?_map, List.getElem?_range hi]
    rfl
  · rw [List.getElem?_eq_none (by simpa [nibbleDigits] using hi),
      List.getElem?_eq_none (by simpa using hi)]

/-- The labels of a rendered pattern, one by one. -/
lemma Pattern.labels_getElem? (p : Pattern) (digits : Bytes) :
    (p.labels digits)[p.before.length]? = some (p.pre ++ inGroups p.dashed digits ++ p.post) ∧
      p.template.labels[p.before.length]? = some (.around p.pre p.post p.dashed) ∧
      ∀ i < p.template.labelCount, i ≠ p.before.length →
        ∃ s, p.template.labels[i]? = some (.lit s) ∧ (p.labels digits)[i]? = some s := by
  have hgroups : p.grouped digits = inGroups p.dashed digits := by
    unfold Pattern.grouped inGroups
    rw [dashJoin_eq_intercalate]
  refine ⟨by simp [Pattern.labels, hgroups], by simp [Pattern.template], ?_⟩
  intro i hi hne
  rw [p.labelCount_template] at hi
  rcases Nat.lt_or_gt_of_ne hne with hlt | hgt
  · refine ⟨p.before[i], ?_, ?_⟩
    · rw [Pattern.template, List.getElem?_append_left (by simpa using hlt)]
      simp [hlt]
    · rw [Pattern.labels, List.getElem?_append_left hlt]
      simp [hlt]
  · obtain ⟨j, rfl⟩ : ∃ j, i = p.before.length + (j + 1) := ⟨i - p.before.length - 1, by omega⟩
    have hj : j < p.after.length := by omega
    refine ⟨p.after[j], ?_, ?_⟩
    · rw [Pattern.template, List.getElem?_append_right (by simp)]
      simp [hj]
    · rw [Pattern.labels, List.getElem?_append_right (by simp)]
      simp [hj]

/-- A PTR query that matches an address of a zone is answered from the zone. -/
lemma resolve_of_matchPtr {c : Config} {q : Name} {t : RecordType} (ht : reverseHasType t = true)
    {z : Zone} {a : U128} (hm : matchPtr c q = some (z, a)) :
    resolve c q t = .answer z (ptrRecord z q a).toList := by
  unfold resolve
  rw [if_pos ht, hm]

/-- A full reverse name matches in the first zone that contains its address. -/
lemma matchPtr_of_reverse {c : Config} {q r : Name} {a : U128}
    (hr : netmaskToPtrName a 128 = some r) (hq : q.key = r.key) :
    matchPtr c q = (zoneForAddr c a).map fun z => (z, a) := by
  have hkey : r.key = reverseLabels a 32 := by
    rw [show (128 : ℕ) = 4 * 32 by norm_num, netmaskToPtrName_eq a (by norm_num)] at hr
    rw [← Option.some.inj hr, Name.key]
    exact map_lower_reverseLabels _ _
  unfold matchPtr
  rw [(ptrNameToAddr_eq_some_iff q a).mpr (hq.trans hkey)]
  rfl

/-- **Synthesis cannot fail at request time.** In an accepted configuration every address has a
forward name in every zone, with the template's labels and the address's digits; its encoded
length is the zone's; and a PTR query on a full reverse name in a network has a record. -/
theorem forwardName_total {hk : Hickory} {input : Bytes} {c : Config}
    (h : Config.parse hk input = .ok c) {z : Zone} (hz : z ∈ c.zones) :
    (∀ a : U128, ∃ n, forwardName z a = some n ∧ n.labels.length = z.fwd.labelCount ∧
      (∀ i < z.fwd.labelCount, i ≠ z.fwd.digitsAt → ∃ verbatim lower,
        z.fwd.labels[i]? = some (.literal verbatim lower) ∧ n.labels[i]? = some verbatim) ∧
      ∃ pre preLower post postLower dashed,
        z.fwd.labels[z.fwd.digitsAt]? = some (.digits pre preLower post postLower dashed) ∧
        n.labels[z.fwd.digitsAt]? =
          some (pre ++ inGroups dashed (nibbleDigits z.hostNibbles a) ++ post)) ∧
    (∀ a b n m, forwardName z a = some n → forwardName z b = some m →
      encodedLen n.labels = encodedLen m.labels) ∧
    (∀ a q r, z.contains a = true → netmaskToPtrName a 128 = some r → q.sameName r = true →
      ∀ z', resolve c q .PTR ≠ .answer z' []) := by
  have hwf := (parse_wf h).zones
  obtain ⟨p, hp, -, -⟩ := (hwf z hz).exists_pattern
  refine ⟨?_, ?_, ?_⟩
  · intro a
    obtain ⟨n, hn, hlabels⟩ := forwardName_eq (hwf z hz) hp a
    obtain ⟨hdigits, htmpl, hlits⟩ := p.labels_getElem? (hexDigits z.hostNibbles a)
    rw [hp.fwd]
    refine ⟨n, hn, ?_, ?_, p.pre, lower p.pre, p.post, lower p.post, p.dashed, htmpl, ?_⟩
    · rw [hlabels, p.length_labels, p.labelCount_template]
    · intro i hi hne
      obtain ⟨s, hs, hns⟩ := hlits i hi hne
      exact ⟨s, lower s, hs, hlabels ▸ hns⟩
    · rw [hlabels, nibbleDigits_eq]
      exact hdigits
  · intro a b n m hn hm
    obtain ⟨n', hn', hnl⟩ := forwardName_eq (hwf z hz) hp a
    obtain ⟨m', hm', hml⟩ := forwardName_eq (hwf z hz) hp b
    obtain rfl : n' = n := Option.some.inj (hn'.symm.trans hn)
    obtain rfl : m' = m := Option.some.inj (hm'.symm.trans hm)
    have hlens := p.lengths_labels (d := hexDigits z.hostNibbles a) (e := hexDigits z.hostNibbles b)
      (by simp) (hp.groups_hexDigits a)
    rw [hnl, hml]
    exact encodedLen_eq_of_lengths hlens
  · intro a q r hin hr hq z' hanswer
    have hsome : (zoneForAddr c a).isSome = true := by
      unfold zoneForAddr
      rw [List.find?_isSome]
      exact ⟨z, hz, hin⟩
    obtain ⟨w, hw⟩ := Option.isSome_iff_exists.mp hsome
    have hmatch : matchPtr c q = some (w, a) := by
      rw [matchPtr_of_reverse hr ((Name.sameName_iff q r).mp hq), hw]
      rfl
    rw [resolve_of_matchPtr (by decide) hmatch] at hanswer
    obtain ⟨pw, hpw, -, -⟩ := (hwf w (List.mem_of_find?_eq_some hw)).exists_pattern
    obtain ⟨n, hn, -⟩ := forwardName_eq (hwf w (List.mem_of_find?_eq_some hw)) hpw a
    obtain ⟨-, hnil⟩ := Outcome.answer.inj hanswer
    simp [ptrRecord, hn] at hnil

/-- Every address has a name of four labels in the sample. -/
theorem forwardName_total_sample :
    ∃ z ∈ (parsed sampleInput).zones, ∀ a, ∃ n, forwardName z a = some n ∧ n.labels.length = 4 := by
  have hz : (parsed sampleInput).zones.head (by decide +kernel) ∈ (parsed sampleInput).zones :=
    List.head_mem _
  refine ⟨_, hz, fun a => ?_⟩
  obtain ⟨n, hn, hlen, -⟩ := (forwardName_total parse_sampleInput hz).1 a
  refine ⟨n, hn, hlen.trans ?_⟩
  decide +kernel

end PanoptiDns
