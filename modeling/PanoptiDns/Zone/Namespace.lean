import PanoptiDns.Zone.RoundTrip

set_option relaxedAutoImplicit false
set_option autoImplicit false

/-!
# The namespace a configuration serves

Two things one expects of an authoritative server: that it does not speak for addresses of
nobody's network, and that what it serves lies in the zone it serves it from. Both hold of the
reverse zones. They fail of the forward ones in corner cases of the template: one whose apex is
above `ip6.arpa` names, and one that starts with `*`.

## Main definitions

* `AboveReverse` — the names at or above the full reverse name of an address.
* `Config.Strays` — the queries answered from a zone that does not contain them.
* `Config.AnswersOutside` — when a configuration has such queries.

## Main results

* `resolve_reverse_owned_iff` — when a reverse name outside every network is left alone.
* `resolve_inside_iff` — when an answer, and when every answer, is inside its zone's namespace.
-/

namespace PanoptiDns

open Bytes

/-! ## Reverse space -/

/-- The names at or above the full reverse name of an address: the root, `arpa`, and the
`ip6.arpa` names of the address's prefixes of `k` nibbles, from `ip6.arpa` itself on. -/
def AboveReverse (n : Name) (a : U128) : Prop :=
  n.key = [] ∨ n.key = [ofString "arpa"] ∨ ∃ k ≤ 32, n.key = reverseLabels a k

/-- A name is at or above a full reverse name by labels iff it is one of these. -/
lemma zoneOf_reverse_iff {n r : Name} {a : U128} (hr : r.key = reverseLabels a 32) :
    n.zoneOf r = true ↔ AboveReverse n a := by
  rw [Name.zoneOf_iff, hr, suffix_reverseLabels_iff]
  rfl

/-- No name at or above a full reverse name starts with `*`. -/
lemma head_ne_star_of_suffix {n : Name} {a : U128} (hn : n.key <:+ reverseLabels a 32) :
    n.labels.head? ≠ some Name.star := by
  intro hstar
  have hmem : lower Name.star ∈ reverseLabels a 32 :=
    hn.subset (List.mem_map_of_mem (List.mem_of_mem_head? hstar))
  rw [show lower Name.star = [42] by decide, reverseLabels] at hmem
  rcases List.mem_append.mp hmem with hdigit | harpa
  · obtain ⟨d, hd, heq⟩ := List.mem_map.mp hdigit
    have := (hexDigit_ascii (reverseDigits_lt a 32 d hd)).1
    exact this (by simpa using heq)
  · revert harpa
    decide

/-- **Reverse space is left to its owners** exactly when no zone's forward apex is at or above
the name, unless the address is in a network anyway. -/
theorem resolve_reverse_owned_iff {hk : Hickory} {input : Bytes} {c : Config}
    (h : Config.parse hk input = .ok c) {a : U128} {r : Name}
    (hr : netmaskToPtrName a 128 = some r) (t : RecordType) :
    (resolve c r t ≠ .noZone → ∃ z ∈ c.zones, a &&& maskBits z.mask = z.pfx) ↔
      ∀ w ∈ c.zones, AboveReverse w.fwdParent a → ∃ z ∈ c.zones, a &&& maskBits z.mask = z.pfx := by
  have hc := parse_wf h
  obtain ⟨r', hr', hkey⟩ := netmaskToPtrName_full a
  obtain rfl : r' = r := Option.some.inj (hr'.symm.trans hr)
  have howned : (∃ z ∈ c.zones, a &&& maskBits z.mask = z.pfx) ↔
      ∃ z ∈ c.zones, z.contains a = true := by
    simp only [Zone.contains_iff]
  rw [howned]
  by_cases hin : ∃ z ∈ c.zones, z.contains a = true
  · simp [hin]
  -- outside every network, the only thing that can claim the name is a forward apex
  have hrev : ¬c.HasReverse r' := by
    rintro ⟨z, hz, b, hb, hkey'⟩
    have hab := (reverseLabels_inj (a := a) (b := b) (k := 32) le_rfl).mp (hkey.symm.trans hkey')
    obtain rfl : a = b := BitVec.eq_of_toNat_eq (by simpa using hab)
    exact hin ⟨z, hz, hb⟩
  have hcovers : c.Covers r' ↔ ∃ w ∈ c.zones, AboveReverse w.fwdParent a := by
    constructor
    · rintro ⟨w, hw, hptr | hfwd⟩
      · exact absurd ⟨w, hw, ((hc.zones w hw).zoneOf_ptrZone_iff hkey).mp hptr⟩ hin
      · exact ⟨w, hw, (zoneOf_reverse_iff hkey).mp hfwd⟩
    · rintro ⟨w, hw, habove⟩
      exact ⟨w, hw, .inr ((zoneOf_reverse_iff hkey).mpr habove)⟩
  have hnone : resolve c r' t = .noZone ↔ ¬∃ w ∈ c.zones, AboveReverse w.fwdParent a := by
    rw [resolve_eq_noZone_iff hc, ← hcovers]
    constructor
    · exact fun h => h.2.2
    · intro hno
      have hstar : r'.labels.head? ≠ some Name.star :=
        head_ne_star_of_suffix (a := a) (by rw [hkey])
      exact ⟨fun _ => hrev, fun hfwd => hno (hfwd.covers hc hstar), hno⟩
  simp only [ne_eq, hnone, hin, not_not, imp_false]
  push Not
  rfl

/-- In the sample no apex is at or above a reverse name, and `::1` is left alone. -/
theorem resolve_reverse_owned_sample :
    (¬∃ z ∈ (parsed sampleInput).zones, 1 &&& maskBits z.mask = z.pfx) ∧
    (resolve (parsed sampleInput) ((netmaskToPtrName 1 128).getD Name.root) .PTR ≠ .noZone →
      ∃ z ∈ (parsed sampleInput).zones, 1 &&& maskBits z.mask = z.pfx) := by
  refine ⟨by decide +kernel, ?_⟩
  refine (resolve_reverse_owned_iff parse_sampleInput (by decide +kernel) .PTR).mpr ?_
  have hlabels : ∀ w ∈ (parsed sampleInput).zones,
      w.fwdParent.key.getLast? = some (ofString "net") := by
    decide +kernel
  intro w hw habove
  have hlast := hlabels w hw
  rcases habove with h | h | ⟨k, -, h⟩
  · simp [h] at hlast
  · rw [h] at hlast
    revert hlast
    decide
  · rw [h, reverseLabels, List.getLast?_append,
      show arpaSuffix.getLast? = some (ofString "arpa") by decide] at hlast
    revert hlast
    simp
    decide

/-- A template with nothing after the placeholder's label: its apex is the root. -/
def rootInput : Bytes := ofString "network 2001:db8::/64
    resolves to host-%DIGITS%
"

/-- The name of an address outside the network is claimed: the root is an apex. -/
theorem resolve_rootInput :
    Config.parse namelessHickory rootInput = .ok (parsed rootInput) ∧
      (netmaskToPtrName 1 128).any (fun r => resolve (parsed rootInput) r .PTR ≠ .noZone) = true ∧
      ¬∃ z ∈ (parsed rootInput).zones, 1 &&& maskBits z.mask = z.pfx := by
  decide +kernel

/-! ## Answers inside their zone -/

/-- Some query is answered from a zone that does not contain it: a zone whose template starts
with `*` and has an apex below the root spells a name that leaves room for one more label, and
no zone scanned earlier spells the same name. -/
def Config.AnswersOutside (c : Config) : Prop :=
  ∃ pre z post a n, c.zones = pre ++ z :: post ∧ z.Starred ∧ z.fwdParent.labels ≠ [] ∧
    z.contains a = true ∧ forwardName z a = some n ∧ encodedLen n.labels + 2 ≤ 255 ∧
    ∀ w ∈ pre, ∀ b, ¬w.Spells b n.key

/-- A query that starts with `*` and is compared less its last label: it strays if the first zone
that spells the rest has an apex with some other label than the one left out, and is not the
reverse zone of the query either. -/
def Config.Strays (c : Config) (q : Name) : Prop :=
  q.labels.head? = some Name.star ∧ ∃ pre z post a, c.zones = pre ++ z :: post ∧
    z.Spells a q.key.dropLast ∧ (∀ w ∈ pre, ∀ b, ¬w.Spells b q.key.dropLast) ∧
    (∃ l ∈ z.fwdParent.key, some l ≠ q.key.getLast?) ∧ z.ptrZone.zoneOf q = false

/-- A suffix of a list is a suffix of the list with an element appended iff it repeats that
element. -/
lemma suffix_concat_iff_forall {α : Type} {x : α} {s l : List α} (h : s <:+ l) :
    s <:+ l ++ [x] ↔ ∀ y ∈ s, y = x := by
  induction s using List.reverseRecOn generalizing l with
  | nil => simp
  | append_singleton s y ih =>
    obtain ⟨r, rfl⟩ := h
    have hinit : s <:+ r ++ s := List.suffix_append r s
    have hlast : s ++ [y] <:+ r ++ (s ++ [y]) ++ [x] ↔ y = x ∧ s <:+ r ++ s ++ [y] := by
      rw [List.suffix_concat_iff, ← List.append_assoc]
      constructor
      · rintro (hnil | ⟨t, ht, hsuf⟩)
        · simp at hnil
        · obtain ⟨rfl, rfl⟩ := List.append_singleton_inj.mp ht
          exact ⟨rfl, hsuf⟩
      · rintro ⟨rfl, hsuf⟩
        exact .inr ⟨s, rfl, hsuf⟩
    rw [hlast]
    constructor
    · rintro ⟨rfl, hsuf⟩ z hz
      rcases List.mem_append.mp hz with hz | hz
      · exact (ih hinit).mp hsuf z hz
      · exact List.mem_singleton.mp hz
    · intro hall
      obtain rfl := hall y (by simp)
      exact ⟨rfl, (ih hinit).mpr fun z hz => hall z (by simp [hz])⟩

/-- A name with a label appended. -/
lemma validLabels_append_singleton {ls : List Bytes} (hls : ValidLabels ls)
    (hroom : encodedLen ls + 2 ≤ 255) (b : UInt8) : ValidLabels (ls ++ [[b]]) := by
  refine ⟨?_, ?_⟩
  · intro l hl
    rcases List.mem_append.mp hl with hl | hl
    · exact hls.1 l hl
    · simp [List.mem_singleton.mp hl]
  · have happ := encodedLen_append ls [[b]]
    have hone : encodedLen [[b]] = 3 := by simp [encodedLen]
    omega

/-- **Outside answers exist where they can**: the name with one more label, one that is not the
last of the apex, is still answered from the zone. -/
lemma exists_outside_answer {c : Config} (hc : c.Wf) (h : c.AnswersOutside) :
    ∃ q z records, resolve c q .AAAA = .answer z records ∧
      z.ptrZone.zoneOf q = false ∧ z.fwdParent.zoneOf q = false := by
  obtain ⟨pre, z, post, a, n, hsplit, hstar, hroot, hin, hn, hroom, hpre⟩ := h
  have hz : z.Wf := hc.zones z (by simp [hsplit])
  obtain ⟨l, ls, hlast⟩ : ∃ l ls, z.fwdParent.key = ls ++ [l] := by
    have hne : z.fwdParent.key ≠ [] := fun h => hroot ((Name.key_eq_nil_iff _).mp h)
    exact ⟨_, _, (List.dropLast_append_getLast hne).symm⟩
  -- the appended label: one byte, not the last label of the apex
  obtain ⟨b, hb, hbl⟩ : ∃ b : UInt8, lower [b] = [b] ∧ [b] ≠ l := by
    by_cases hl : l = [97]
    · exact ⟨98, by decide, by simp [hl]⟩
    · exact ⟨97, by decide, fun h => hl h.symm⟩
  let q : Name := ⟨n.labels ++ [[b]], validLabels_append_singleton n.valid hroom b⟩
  have hqkey : q.key = n.key ++ [[b]] := by
    simp [q, Name.key, hb]
  have hhead : n.labels.head? = some Name.star := (hz.head_forwardName hn).mpr hstar
  have hcounted : q.counted = n.key := by
    have hqhead : q.labels.head? = some Name.star := by
      simp only [q, List.head?_append, hhead]
      rfl
    rw [Name.counted, if_pos hqhead, hqkey, List.dropLast_concat]
  have hmatch : matchForward c q = some (z, a) := by
    rw [matchForward_eq_some_iff hc, hcounted]
    exact ⟨pre, post, hsplit, ⟨hin, n, hn, rfl⟩, hpre⟩
  -- a suffix of the query ends in the appended label
  have hout : ∀ m : Name, ∀ ms x, m.key = ms ++ [x] → x ≠ [b] → m.zoneOf q = false := by
    intro m ms x hm hx
    rw [Bool.eq_false_iff]
    intro hzone
    rw [ne_eq, Name.zoneOf_iff, hm, hqkey] at *
    obtain ⟨rest, hrest⟩ := hzone
    rw [← List.append_assoc] at hrest
    exact hx (by simpa using (List.append_inj_right' hrest rfl))
  refine ⟨q, z, [aaaaRecord z q a], ?_, ?_, ?_⟩
  · exact resolve_of_matchForward (by simp [reverseHasType]) hmatch
  · obtain ⟨ms, hms⟩ : ∃ ms, reverseLabels z.pfx (z.mask / 4) = ms ++ [ofString "arpa"] :=
      ⟨_ ++ [ofString "ip6"], by rw [reverseLabels, List.append_assoc]; rfl⟩
    refine hout z.ptrZone ms (ofString "arpa") (hz.key_ptrZone.trans hms) fun h => ?_
    have := congrArg List.length h
    rw [show (ofString "arpa").length = 4 by decide] at this
    simp at this
  · exact hout z.fwdParent ls l hlast hbl.symm

/-- No other label folds to `*`. -/
lemma eq_star_of_lower {s : Bytes} (h : lower s = lower Name.star) : s = Name.star := by
  have hbyte : ∀ b, lowerByte b = 42 → b = 42 := fun b =>
    (lowerByte_eq_iff (by decide) (by decide) b).mp
  rw [show lower Name.star = [42] by decide] at h
  obtain ⟨b, bs, rfl, hb, hbs⟩ := List.map_eq_cons_iff.mp h
  obtain rfl : bs = [] := by simpa using hbs
  rw [hbyte b hb]
  decide

/-- A query that starts with `*` and is spelled less its last label is spelled by a starred
template, and the name leaves room for the label. -/
lemma starred_of_spells {z : Zone} (hz : z.Wf) {q : Name} (hstar : q.labels.head? = some Name.star)
    {a : U128} (h : z.Spells a q.key.dropLast) :
    ∃ n, forwardName z a = some n ∧ n.key = q.key.dropLast ∧ z.Starred ∧
      encodedLen n.labels + 2 ≤ 255 := by
  obtain ⟨hin, n, hn, hkey⟩ := h
  obtain ⟨l, ls, hlabels⟩ : ∃ l ls, q.labels = ls ++ [l] := by
    have hq : q.labels ≠ [] := fun h => by simp [h] at hstar
    exact ⟨_, _, (List.dropLast_append_getLast hq).symm⟩
  have hnkey : n.labels.map lower = ls.map lower := by
    rw [← Name.key, hkey, Name.key, hlabels, List.map_append, List.map_singleton,
      List.dropLast_concat]
  refine ⟨n, hn, hkey, ?_, ?_⟩
  · have hpos := hz.length_lt_of_spells ⟨hin, n, hn, rfl⟩
    rw [Name.length_key, Name.length_key] at hpos
    rw [← hz.head_forwardName hn]
    cases ls with
    | nil =>
      have : n.labels = [] := by simpa using hnkey
      simp [this] at hpos
    | cons s ls =>
      obtain rfl : s = Name.star := by simpa [hlabels] using hstar
      obtain ⟨m, ms, hms, hm, -⟩ := List.map_eq_cons_iff.mp hnkey
      rw [hms, List.head?_cons, eq_star_of_lower hm]
  · have hlens : n.labels.map List.length = ls.map List.length := by
      have := congrArg (List.map List.length) hnkey
      simpa [Function.comp_def] using this
    have hvalid := q.valid
    rw [hlabels] at hvalid
    have hl := hvalid.1 l (by simp)
    have hsum := encodedLen_append ls [l]
    have hle := hvalid.2
    have hone : encodedLen [l] = l.length + 2 := by simp [encodedLen]
    rw [encodedLen_eq_of_lengths hlens]
    omega

/-- The name less its last label is below the apex; the name itself is too iff the apex repeats that
label. -/
lemma zoneOf_fwdParent_iff {z : Zone} (hz : z.Wf) {q : Name} {a : U128} (hne : q.key ≠ [])
    (h : z.Spells a q.key.dropLast) :
    z.fwdParent.zoneOf q = true ↔ ∀ l ∈ z.fwdParent.key, some l = q.key.getLast? := by
  have hall := suffix_concat_iff_forall (x := q.key.getLast hne) (hz.suffix_of_spells h)
  rw [List.dropLast_append_getLast hne] at hall
  rw [Name.zoneOf_iff, hall, List.getLast?_eq_some_getLast hne]
  simp only [Option.some.injEq]

/-- **A query is answered inside its zone's namespace** exactly when it does not stray.

**Proof sketch.** A reverse answer is for an address of the network. A forward answer to a query
that does not start with `*` is for a name the zone spells, which is under its apex. To a query
that does, it is for a name the zone spells with one label appended; and no such query is a reverse
name. -/
lemma resolve_inside_iff_not_strays {c : Config} (hc : c.Wf) (q : Name) (t : RecordType) :
    (∀ z records, resolve c q t = .answer z records →
      z.ptrZone.zoneOf q = true ∨ z.fwdParent.zoneOf q = true) ↔ ¬c.Strays q := by
  constructor
  · rintro hinside ⟨hstar, pre, z, post, a, hsplit, hspells, hpre, ⟨l, hl, hlast⟩, hptr⟩
    have hz : z.Wf := hc.zones z (by simp [hsplit])
    have hne : q.key ≠ [] := fun h => by simp [(Name.key_eq_nil_iff q).mp h] at hstar
    have hcounted : q.counted = q.key.dropLast := if_pos hstar
    have hm : matchForward c q = some (z, a) := by
      rw [matchForward_eq_some_iff hc, hcounted]
      exact ⟨pre, post, hsplit, hspells, hpre⟩
    have hnorev : ¬c.HasReverse q := by
      rintro ⟨w, -, b, -, hkey⟩
      exact head_ne_star_of_suffix (a := b) (by rw [hkey]) hstar
    rcases hinside z _ (resolve_of_matchForward (fun _ => hnorev) hm) with hin | hin
    · rw [hptr] at hin
      cases hin
    · exact hlast ((zoneOf_fwdParent_iff hz hne hspells).mp hin l hl)
  · intro hno z records hanswer
    rcases resolve_eq_answer hanswer with ⟨a, -, hm, -⟩ | ⟨a, hm, -⟩
    · obtain ⟨hq, hz⟩ := matchPtr_eq_some_iff.mp hm
      obtain ⟨hmem, hin⟩ := of_zoneForAddr hz
      exact .inl (((hc.zones z hmem).zoneOf_ptrZone_iff hq).mpr hin)
    · obtain ⟨pre, post, hsplit, hspells, hpre⟩ := (matchForward_eq_some_iff hc).mp hm
      have hz : z.Wf := hc.zones z (by simp [hsplit])
      by_cases hstar : q.labels.head? = some Name.star
      · have hne : q.key ≠ [] := fun h => by simp [(Name.key_eq_nil_iff q).mp h] at hstar
        rw [Name.counted, if_pos hstar] at hspells hpre
        by_contra hout
        obtain ⟨hptr, hfwd⟩ := not_or.mp hout
        rw [zoneOf_fwdParent_iff hz hne hspells] at hfwd
        push Not at hfwd
        exact hno ⟨hstar, pre, z, post, a, hsplit, hspells, hpre, hfwd, by simpa using hptr⟩
      · rw [Name.counted_of_not_star hstar] at hspells
        exact .inr ((Name.zoneOf_iff _ _).mpr (hz.suffix_of_spells hspells))

/-- **Answers are inside their zone's namespace**: those to one query exactly when it does not
stray, and those to all queries exactly when no zone answers outside. -/
theorem resolve_inside_iff {hk : Hickory} {input : Bytes} {c : Config}
    (h : Config.parse hk input = .ok c) :
    (∀ q t, (∀ z records, resolve c q t = .answer z records →
      z.ptrZone.zoneOf q = true ∨ z.fwdParent.zoneOf q = true) ↔ ¬c.Strays q) ∧
    ((∀ q t z records, resolve c q t = .answer z records →
      z.ptrZone.zoneOf q = true ∨ z.fwdParent.zoneOf q = true) ↔ ¬c.AnswersOutside) := by
  have hc := parse_wf h
  refine ⟨resolve_inside_iff_not_strays hc, fun hinside hout => ?_, fun hno q t => ?_⟩
  · obtain ⟨q, z, records, hanswer, hptr, hfwd⟩ := exists_outside_answer hc hout
    have := hinside q .AAAA z records hanswer
    simp [hptr, hfwd] at this
  · rw [resolve_inside_iff_not_strays hc]
    rintro ⟨hstar, pre, z, post, a, hsplit, hspells, hpre, ⟨l, hl, -⟩, -⟩
    have hz : z.Wf := hc.zones z (by simp [hsplit])
    obtain ⟨n, hn, hkey, hstarred, hroom⟩ := starred_of_spells hz hstar hspells
    have hroot : z.fwdParent.labels ≠ [] := fun h => by
      rw [(Name.key_eq_nil_iff _).mpr h] at hl
      cases hl
    exact hno ⟨pre, z, post, a, n, hsplit, hstarred, hroot, hspells.1, hn, hroom, hkey ▸ hpre⟩

/-- In the sample no template starts with `*`, and every answer is inside its zone. -/
theorem resolve_inside_sampleInput : (parsed sampleInput).zones ≠ [] ∧
    ∀ q t z records, resolve (parsed sampleInput) q t = .answer z records →
      z.ptrZone.zoneOf q = true ∨ z.fwdParent.zoneOf q = true := by
  refine ⟨by decide +kernel, (resolve_inside_iff parse_sampleInput).2.mpr ?_⟩
  have hplain : ∀ z ∈ (parsed sampleInput).zones, ¬z.Starred := by decide +kernel
  rintro ⟨pre, z, post, a, n, hsplit, hstar, -⟩
  exact hplain z (by simp [hsplit]) hstar

/-- A template that starts with `*`. -/
def starInput : Bytes := ofString "network 2001:db8::/64
    resolves to *.%DIGITS%.example.net
"

/-- A name of the starred template, with a label appended. -/
def starName : Name :=
  ⟨[ofString "*", ofString "0000000000000001", ofString "example", ofString "net", ofString "evil"],
    by decide⟩

/-- A name that lies in no zone is answered from the starred template. -/
theorem resolve_starInput :
    Config.parse namelessHickory starInput = .ok (parsed starInput) ∧
      ∃ z ∈ (parsed starInput).zones,
        resolve (parsed starInput) starName .AAAA =
          .answer z [aaaaRecord z starName 0x20010db8000000000000000000000001] ∧
        z.ptrZone.zoneOf starName = false ∧ z.fwdParent.zoneOf starName = false := by
  decide +kernel

end PanoptiDns
