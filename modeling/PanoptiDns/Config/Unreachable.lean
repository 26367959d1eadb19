import PanoptiDns.Config.Accept
import PanoptiDns.Config.Provenance

set_option relaxedAutoImplicit false
set_option autoImplicit false

/-!
# Branches that are never taken

The validator guards against outcomes that its own checks exclude: a placeholder that cannot be cut
out of its label, one in no label, a checked network without a reverse zone, a checked template
without an apex, a pair of settings of which neither has a line. None of them occurs. What is left
is a short list of errors, each of which points at a value or at a part of a network.

## Main definitions

* `ConfigErrorKind.IsWhole` — an error about all of a value that does occur.
* `NetworkReports` — an error about a part of a network.
* `Reports` — an error of either kind about one of some values.

## Main results

* `compileTemplate_reports`, `compileNetwork_reports`, `compile_reports` — what errors there are.
* `defensive_unreachable` — the defensive branches are not taken.
-/

namespace PanoptiDns

open Bytes

/-- **An error about all of a value** that does occur: not about its encoding, not about a part of
a network, and of a name only that a label of it is empty. -/
def ConfigErrorKind.IsWhole : ConfigErrorKind → Prop
  | .notUtf8 | .networkInvalidAddress | .networkPrefixLenNotANumber | .networkPrefixLenOutOfRange _
  | .networkPrefixNotNibbleAligned _ | .networkPrefixTooShort _ => False
  | .resolvesToInvalidName reason => reason = ofString "empty label"
  | _ => True

/-- **An error about a part of a network**: the part before the first slash, or the part after. -/
inductive NetworkReports (v : RawValue) (addr mask : Bytes) : ConfigError → Prop
  | address : NetworkReports v addr mask (v.errorAt 0 addr.length .networkInvalidAddress)
  | prefixLen (k : ConfigErrorKind) (hk : k.IsPrefixLen) :
      NetworkReports v addr mask (v.errorAt (addr.length + 1) mask.length k)

/-- An error about one of the values, or about a part of one of the networks. -/
def Reports (values networks : List RawValue) (e : ConfigError) : Prop :=
  (∃ v ∈ values, ∃ k, k.IsWhole ∧ e = v.error k) ∨
    ∃ v ∈ networks, ∃ addr mask, v.value = addr ++ '/'.toUInt8 :: mask ∧ '/'.toUInt8 ∉ addr ∧
      NetworkReports v addr mask e

/-- More values may be reported on. -/
lemma Reports.mono {vs vs' ns ns' : List RawValue} {e : ConfigError} (h : Reports vs ns e)
    (hvs : vs ⊆ vs') (hns : ns ⊆ ns') : Reports vs' ns' e := by
  rcases h with ⟨v, hv, h⟩ | ⟨v, hv, h⟩
  · exact .inl ⟨v, hvs hv, h⟩
  · exact .inr ⟨v, hns hv, h⟩

/-- An error about a whole value reports on that value. -/
lemma Reports.whole {vs ns : List RawValue} {v : RawValue} (hv : v ∈ vs) {k : ConfigErrorKind}
    (hk : k.IsWhole) : Reports vs ns (v.error k) :=
  .inl ⟨v, hv, k, hk, rfl⟩

/-! ### Templates -/

section Template

variable {hk : Hickory} {v : RawValue}

/-- A placeholder found in the lowercase of a valid text can be cut out of the text. -/
lemma exists_of_find {s : Bytes} (hs : isUtf8 s = true) {n : ℕ} {dashed : Bool}
    (hfind : find (placeholderOf dashed) (lower s) = some n) :
    ∃ pre ph post, strSplitAtChecked s n = some (pre, ph ++ post) ∧
      strSplitAtChecked (ph ++ post) (placeholderOf dashed).length = some (ph, post) := by
  obtain ⟨t, u, htu, rfl⟩ := find_eq_some hfind
  rw [lower, List.map_eq_append_iff] at htu
  obtain ⟨front, post, rfl, hfront, -⟩ := htu
  obtain ⟨pre, ph, rfl, rfl, hph⟩ := List.map_eq_append_iff.mp hfront
  -- the placeholder is ASCII, in whatever case
  have hascii : ∀ b ∈ ph, b < 0x80 := by
    have hall : (placeholderOf dashed).all (· < 0x80) = true := by cases dashed <;> decide
    intro b hb
    rw [← lowerByte_ascii]
    simpa using List.all_eq_true.mp hall _ (hph ▸ List.mem_map_of_mem hb)
  have hstart : ∀ b ∈ (ph ++ post).head?, isContinuation b = false := by
    obtain ⟨a, ph', rfl⟩ := List.exists_cons_of_ne_nil (l := ph) fun hnil => by
      rw [hnil] at hph
      cases dashed <;> exact absurd hph (by decide)
    rintro b hb
    obtain rfl := Option.some.inj hb
    exact isContinuation_ascii (hascii a (by simp))
  rw [List.append_assoc] at hs
  obtain ⟨-, hrest⟩ := isUtf8_append hs hstart
  refine ⟨pre, ph, post, ?_, ?_⟩
  · rw [List.length_map, List.append_assoc, strSplitAtChecked_append pre hrest]
  · rw [isUtf8_ascii_append hascii] at hrest
    rw [← hph, List.length_map, strSplitAtChecked_append ph hrest]

/-- **A segment of a valid text** always compiles. -/
lemma exists_compileSegment {s : Bytes} (hs : isUtf8 s = true) :
    ∃ l, compileSegment v s = .ok l := by
  unfold compileSegment
  cases hd : find placeholderDashed (lower s) with
  | some n =>
    obtain ⟨pre, ph, post, h₁, h₂⟩ := @exists_of_find s hs n true hd
    rw [placeholderOf, if_pos rfl] at h₂
    simp only [hd, Option.map_some, Option.orElse_some, h₁, h₂]
    exact ⟨_, rfl⟩
  | none =>
    cases hp : find placeholder (lower s) with
    | some n =>
      obtain ⟨pre, ph, post, h₁, h₂⟩ := @exists_of_find s hs n false hp
      rw [placeholderOf, if_neg (by decide)] at h₂
      simp only [hd, hp, Option.map_some, Option.map_none, Option.orElse_none, h₁, h₂]
      exact ⟨_, rfl⟩
    | none =>
      simp only [hd, hp, Option.map_none, Option.orElse_none]
      exact ⟨_, rfl⟩

/-- The loop over valid segments only stops at an empty one. -/
lemma templateLoop_eq_error {segs : List Bytes} (hsegs : ∀ s ∈ segs, isUtf8 s = true) {idx : ℕ}
    {labels : List FwdLabel} {at' : Option ℕ} {dashed : Bool} {e : ConfigError}
    (h : templateLoop v segs idx labels at' dashed = .error e) :
    e = v.error (.resolvesToInvalidName (ofString "empty label")) := by
  induction segs generalizing idx labels at' dashed with
  | nil => cases h
  | cons s segs ih =>
    obtain ⟨hs, hsegs⟩ := List.forall_mem_cons.mp hsegs
    obtain ⟨l, hl⟩ := exists_compileSegment (v := v) hs
    rw [templateLoop] at h
    split at h
    · exact (Except.error.inj h).symm
    · rw [hl] at h
      cases l with
      | literal verbatim low => exact ih hsegs h
      | digits pre preLower post postLower d => exact ih hsegs h

/-- **The errors of a template**: never that a placeholder cannot be cut out of its label, nor that
it lies in none. -/
lemma compileTemplate_eq_error {n : ℕ} (hv : isUtf8 v.value = true) {e : ConfigError}
    (h : compileTemplate hk v n = .error e) : ∃ k, k.IsWhole ∧ e = v.error k := by
  have hdot : '.'.toUInt8 < 0x80 := by decide
  have hsegs := isUtf8_of_mem_splitOn hdot (isUtf8_stripOne hdot hv)
  unfold compileTemplate at h
  simp only at h
  split at h
  · exact ⟨.placeholderMissing, trivial, (Except.error.inj h).symm⟩
  split at h
  · exact ⟨.placeholderRepeated _, trivial, (Except.error.inj h).symm⟩
  rename_i hone
  have hsum : (((stripOne '.'.toUInt8 v.value).splitOn '.'.toUInt8).map hits).sum = 1 := by
    rw [← hits_eq_sum, hits_stripOne]
    simpa [hits] using hone
  split at h
  · rename_i e' hloop
    obtain rfl := Except.error.inj h
    exact ⟨.resolvesToInvalidName (ofString "empty label"), rfl, templateLoop_eq_error hsegs hloop⟩
  · -- one placeholder is counted, so one label has it
    rename_i labels dashed hloop
    obtain ⟨p, ph, -, -, -, hat, -, -⟩ := templateLoop_pattern hsum hloop
    cases hat
  · split at h
    · exact ⟨.dashedDigitsNotNibbleMultipleOfFour n, trivial, (Except.error.inj h).symm⟩
    · split at h
      · exact ⟨.forwardNameTooLong _, trivial, (Except.error.inj h).symm⟩
      · cases h

/-- **A checked template has an apex**: the labels after the placeholder's are part of a rendering
within the limits. -/
lemma exists_parent {n : ℕ} {t : FwdTemplate} (h : compileTemplate hk v n = .ok t) :
    ∃ apex, t.parent = .ok apex := by
  obtain ⟨p, rfl, -, -, hgroups, hok⟩ := compileTemplate_pattern h
  have hlen : p.dashed = true →
      (List.replicate (min n addrNibbles) 'f'.toUInt8).length % 4 = 0 := by
    intro hd
    have hmod := hgroups hd
    rw [List.length_replicate]
    unfold addrNibbles
    omega
  have hascii : ∀ b ∈ List.replicate (min n addrNibbles) 'f'.toUInt8, b < 0x80 := by
    intro b hb
    rw [List.eq_of_mem_replicate hb]
    decide
  rw [p.render_template hascii hlen] at hok
  have hvalid := (Name.isOk_fromLabels_iff _).mp hok
  have hafter : ValidLabels p.after :=
    validLabels_of_suffix ((List.suffix_cons _ _).trans (List.suffix_append _ _)) hvalid
  exact ⟨⟨p.after, hafter⟩, by rw [p.parent_template, Name.fromLabels, dif_pos hafter]⟩

end Template

/-! ### Networks -/

/-- **A checked network has a reverse zone.** -/
lemma exists_netmaskToPtrName {v : RawValue} {p : U128} {m : ℕ}
    (h : compileNetwork v = .ok (p, m)) : ∃ zone, netmaskToPtrName p m = some zone := by
  obtain ⟨hmod, -, hle, -⟩ := compileNetwork_eq_ok h
  obtain ⟨k, rfl⟩ := Nat.dvd_of_mod_eq_zero hmod
  exact ⟨_, netmaskToPtrName_eq p (by omega)⟩

/-- **The errors of a network** are about all of it, about the part before the first slash, or
about the part after. -/
lemma compileNetwork_reports {v : RawValue} {e : ConfigError} (h : compileNetwork v = .error e) :
    Reports [v] [v] e := by
  have hv : v ∈ [v] := List.mem_singleton_self v
  unfold compileNetwork at h
  split at h
  · obtain rfl := Except.error.inj h
    exact .whole (k := .networkMissingPrefixLen) hv trivial
  rename_i addr mask hsplit
  obtain ⟨hvalue, hfirst⟩ := eq_of_splitOnce hsplit
  have hmask : ∀ k : ConfigErrorKind, k.IsPrefixLen →
      Reports [v] [v] (v.errorAt (addr.length + 1) mask.length k) := fun k hk =>
    .inr ⟨v, hv, addr, mask, hvalue, hfirst, .prefixLen k hk⟩
  split at h
  · obtain rfl := Except.error.inj h
    exact .inr ⟨v, hv, addr, mask, hvalue, hfirst, .address⟩
  simp only at h
  split at h
  · obtain rfl := Except.error.inj h
    exact hmask .networkPrefixLenNotANumber trivial
  rename_i len _
  split at h
  · obtain rfl := Except.error.inj h
    exact hmask (.networkPrefixLenOutOfRange len) trivial
  split at h
  · obtain rfl := Except.error.inj h
    exact hmask (.networkPrefixNotNibbleAligned len) trivial
  split at h
  · obtain rfl := Except.error.inj h
    exact hmask (.networkPrefixTooShort len) trivial
  split at h
  · obtain rfl := Except.error.inj h
    exact .whole (k := .networkIsSingleAddress) hv trivial
  split at h
  · obtain rfl := Except.error.inj h
    exact .whole (k := .networkHostBitsSet _) hv trivial
  · cases h

/-! ### Blocks -/

/-- The upstream is denied as a whole. -/
lemma compileUpstream_eq_error {upstream : Option RawValue} {e : ConfigError}
    (h : compileUpstream upstream = .error e) :
    ∃ v, upstream = some v ∧ e = v.error .invalidUpstreamAddress := by
  unfold compileUpstream at h
  split at h
  · cases h
  · rename_i v
    split at h
    · cases h
    · exact ⟨v, rfl, (Except.error.inj h).symm⟩

/-- **The errors of a block**: those of its values, and no other. -/
lemma compileZone_reports {hk : Hickory} {raw : RawZone} {seen : Seen} {e : ConfigError}
    (hutf8 : ∀ v, raw.resolvesTo = some v → isUtf8 v.value = true)
    (h : compileZone hk raw seen = .error e) : Reports raw.values [raw.network] e := by
  have hnetwork : raw.network ∈ raw.values := List.mem_cons_self
  unfold compileZone at h
  split at h
  · rename_i e' hnet
    obtain rfl := Except.error.inj h
    exact (compileNetwork_reports hnet).mono (by simpa using hnetwork) (List.Subset.refl _)
  rename_i p m hnet
  split at h
  · obtain rfl := Except.error.inj h
    exact .whole (k := .duplicateNetwork _) hnetwork trivial
  split at h
  · obtain rfl := Except.error.inj h
    exact .whole (k := .missingResolvesTo) hnetwork trivial
  rename_i v hv
  have hmem : v ∈ raw.values := by simp [RawZone.values, hv]
  simp only at h
  split at h
  · rename_i e' htemplate
    obtain rfl := Except.error.inj h
    obtain ⟨k, hwhole, rfl⟩ := compileTemplate_eq_error (hutf8 v hv) htemplate
    exact .whole hmem hwhole
  rename_i fwd htemplate
  split at h
  · obtain rfl := Except.error.inj h
    exact .whole (k := .duplicateForwardPattern _) hmem trivial
  split at h
  · rename_i e' hupstream
    obtain rfl := Except.error.inj h
    obtain ⟨u, hu, rfl⟩ := compileUpstream_eq_error hupstream
    exact .whole (k := .invalidUpstreamAddress) (by simp [RawZone.values, hu]) trivial
  split at h
  · rename_i hnone
    obtain ⟨zone, hzone⟩ := exists_netmaskToPtrName hnet
    rw [hzone] at hnone
    cases hnone
  split at h
  · rename_i e' herror
    obtain ⟨apex, hapex⟩ := exists_parent htemplate
    rw [hapex] at herror
    cases herror
  · cases h

/-- The errors of the blocks report on the values of the blocks. -/
lemma compileZones_reports {hk : Hickory} {ttl : ℕ} {raws : List RawZone} {seen : Seen}
    (hutf8 : ∀ raw ∈ raws, ∀ v, raw.resolvesTo = some v → isUtf8 v.value = true) :
    ∀ e ∈ (compileZones hk ttl raws seen).2,
      Reports (raws.flatMap RawZone.values) (raws.map RawZone.network) e := by
  induction raws generalizing seen with
  | nil => simp [compileZones]
  | cons raw raws ih =>
    obtain ⟨hraw, hraws⟩ := List.forall_mem_cons.mp hutf8
    have hrest : ∀ seen, ∀ e ∈ (compileZones hk ttl raws seen).2,
        Reports ((raw :: raws).flatMap RawZone.values) ((raw :: raws).map RawZone.network) e :=
      fun seen e he => (ih hraws e he).mono (List.subset_append_right _ _)
        (List.subset_cons_self _ _)
    rw [compileZones]
    cases hzone : compileZone hk raw seen with
    | ok r => exact hrest r.2
    | error e =>
      refine List.forall_mem_cons.mpr ⟨?_, hrest seen⟩
      refine (compileZone_reports hraw hzone).mono (List.subset_append_left _ _) ?_
      simp

/-! ### Settings -/

/-- Errors about the settings read so far, and a line for `primary` and `hostmaster`. -/
structure GlobalState.Anchored (gs : List RawGlobal) (s : GlobalState) : Prop where
  errors : ∀ e ∈ s.errors, ∃ g ∈ gs, ∃ k, k.IsWhole ∧ e = g.value.error k
  anchor : s.primary.isSome ∨ s.hostmaster.isSome →
    ∃ g ∈ gs, g.key = .primary ∨ g.key = .hostmaster

section Settings

variable {gs : List RawGlobal} {s : GlobalState} {g : RawGlobal}

/-- More settings may be reported on. -/
lemma GlobalState.Anchored.mono (h : s.Anchored gs) : s.Anchored (gs ++ [g]) where
  errors e he := by
    obtain ⟨g', hg, hrest⟩ := h.errors e he
    exact ⟨g', List.mem_append_left _ hg, hrest⟩
  anchor hs := by
    obtain ⟨g', hg, hkey⟩ := h.anchor hs
    exact ⟨g', List.mem_append_left _ hg, hkey⟩

/-- A value that is all right, or an error about this setting. -/
lemma GlobalState.Anchored.set {α : Type} {value : Except ConfigError α} {assign : α → GlobalState}
    (h : s.Anchored (gs ++ [g]))
    (hvalue : ∀ e, value = .error e → ∃ k, k.IsWhole ∧ e = g.value.error k)
    (hassign : ∀ a, (assign a).Anchored (gs ++ [g])) :
    (s.set value assign).Anchored (gs ++ [g]) := by
  cases value with
  | ok a => exact hassign a
  | error e =>
    obtain ⟨k, hk, rfl⟩ := hvalue e rfl
    refine ⟨fun e he => ?_, h.anchor⟩
    rcases List.mem_append.mp he with he | he
    · exact h.errors e he
    · exact ⟨g, by simp, k, hk, List.mem_singleton.mp he⟩

variable {v : RawValue} {e : ConfigError}

/-- A name is denied as a whole. -/
lemma parseName_eq_error {hk : Hickory} {what : String} (h : parseName hk v what = .error e) :
    ∃ k, k.IsWhole ∧ e = v.error k := by
  unfold parseName at h
  split at h
  · cases h
  · exact ⟨.invalidDnsName what, trivial, (Except.error.inj h).symm⟩

/-- A number is denied as a whole. -/
lemma parseU32_eq_error {what allowed : String} (h : parseU32 v what allowed = .error e) :
    ∃ k, k.IsWhole ∧ e = v.error k := by
  unfold parseU32 at h
  split at h
  · cases h
  · exact ⟨.invalidNumber what allowed, trivial, (Except.error.inj h).symm⟩

/-- A number out of bounds is denied as a whole. -/
lemma parseChecked_eq_error {what allowed : String} {ok : ℕ → Bool}
    (h : parseChecked v what allowed ok = .error e) : ∃ k, k.IsWhole ∧ e = v.error k := by
  unfold parseChecked at h
  cases hn : parseU32 v what allowed with
  | error e' =>
    rw [hn] at h
    obtain rfl := Except.error.inj h
    exact parseU32_eq_error hn
  | ok n =>
    simp only [hn, bind, Except.bind] at h
    split at h
    · cases h
    · exact ⟨.invalidNumber what allowed, trivial, (Except.error.inj h).symm⟩

/-- **One setting**: its errors point at it, and a name of the authority has its line. -/
lemma compileGlobal_anchored (hk : Hickory) (h : s.Anchored gs) (g : RawGlobal) :
    (compileGlobal hk s g).Anchored (gs ++ [g]) := by
  have hold := h.mono (g := g)
  have hkeep : ∀ s' : GlobalState, s'.errors = s.errors → s'.primary = s.primary →
      s'.hostmaster = s.hostmaster → s'.Anchored (gs ++ [g]) := by
    intro s' herr hprimary hhostmaster
    refine ⟨?_, ?_⟩
    · rw [herr]
      exact hold.errors
    · rw [hprimary, hhostmaster]
      exact hold.anchor
  unfold compileGlobal
  cases hkey : g.key with
  | primary =>
    have hline : ∃ g' ∈ gs ++ [g], g'.key = .primary ∨ g'.key = .hostmaster :=
      ⟨g, by simp, .inl hkey⟩
    refine GlobalState.Anchored.set ⟨hold.errors, fun _ => hline⟩ (fun e => parseName_eq_error) ?_
    exact fun n => ⟨hold.errors, fun _ => hline⟩
  | hostmaster =>
    have hline : ∃ g' ∈ gs ++ [g], g'.key = .primary ∨ g'.key = .hostmaster :=
      ⟨g, by simp, .inr hkey⟩
    refine GlobalState.Anchored.set ⟨hold.errors, fun _ => hline⟩ (fun e => parseName_eq_error) ?_
    exact fun n => ⟨hold.errors, fun _ => hline⟩
  | ns => exact hold.set (fun e => parseName_eq_error) fun n => hkeep _ rfl rfl rfl
  | outOfZone =>
    simp only
    split
    · exact hkeep _ rfl rfl rfl
    · split
      · exact hkeep _ rfl rfl rfl
      · refine ⟨fun e he => ?_, hold.anchor⟩
        rcases List.mem_append.mp he with he | he
        · exact hold.errors e he
        · exact ⟨g, by simp, .invalidChoice _ _, trivial, List.mem_singleton.mp he⟩
  | rrlOff => exact hkeep _ rfl rfl rfl
  | rrlSlip => exact hold.set (fun e => parseU32_eq_error) fun n => hkeep _ rfl rfl rfl
  | ttl => exact hold.set (fun e => parseChecked_eq_error) fun n => hkeep _ rfl rfl rfl
  | maxUdpPayload => exact hold.set (fun e => parseChecked_eq_error) fun n => hkeep _ rfl rfl rfl
  | upstreamTimeout => exact hold.set (fun e => parseChecked_eq_error) fun n => hkeep _ rfl rfl rfl
  | rrlRps => exact hold.set (fun e => parseChecked_eq_error) fun n => hkeep _ rfl rfl rfl
  | rrlBurst => exact hold.set (fun e => parseChecked_eq_error) fun n => hkeep _ rfl rfl rfl

/-- The errors of the settings report on the settings read so far. -/
lemma foldl_compileGlobal_anchored (hk : Hickory) (gs : List RawGlobal) :
    (gs.foldl (compileGlobal hk) {}).Anchored gs := by
  induction gs using List.reverseRecOn with
  | nil => exact ⟨by simp, by simp⟩
  | append_singleton gs g ih =>
    rw [List.foldl_append]
    exact compileGlobal_anchored hk ih g

end Settings

/-- **An incomplete pair has a line**: the one that is set. -/
lemma compileSoa_eq_error {hk : Hickory} {raw : RawConfig} {s : GlobalState} {e : ConfigError}
    (hs : raw.globals.foldl (compileGlobal hk) {} = s)
    (h : compileSoa raw s.primary s.hostmaster = .error e) :
    ∃ g, raw.globals.find? (fun g => g.key = .primary || g.key = .hostmaster) = some g ∧
      ∃ missing present, e = g.value.error (.missingCompanionDirective missing present) := by
  have hanchored := foldl_compileGlobal_anchored hk raw.globals
  rw [hs] at hanchored
  have hfind : s.primary.isSome ∨ s.hostmaster.isSome →
      ∃ g, raw.globals.find? (fun g => g.key = .primary || g.key = .hostmaster) = some g := by
    intro hsome
    obtain ⟨g, hg, hkey⟩ := hanchored.anchor hsome
    exact Option.isSome_iff_exists.mp (List.find?_isSome.mpr ⟨g, hg, by simpa using hkey⟩)
  cases hprimary : s.primary with
  | none =>
    cases hhostmaster : s.hostmaster with
    | none =>
      rw [hprimary, hhostmaster] at h
      cases h
    | some m =>
      obtain ⟨g, hg⟩ := hfind (.inr (by rw [hhostmaster]; rfl))
      rw [hprimary, hhostmaster, compileSoa, missingPairError, hg] at h
      exact ⟨g, hg, "primary", "hostmaster", (Except.error.inj h).symm⟩
  | some n =>
    cases hhostmaster : s.hostmaster with
    | none =>
      obtain ⟨g, hg⟩ := hfind (.inl (by rw [hprimary]; rfl))
      rw [hprimary, hhostmaster, compileSoa, missingPairError, hg] at h
      exact ⟨g, hg, "hostmaster", "primary", (Except.error.inj h).symm⟩
    | some m =>
      rw [hprimary, hhostmaster] at h
      cases h

/-! ### The whole file -/

section File

variable (hk : Hickory)

/-- A `listen` value is denied as a whole. -/
lemma compileListens_reports (vs : List RawValue) :
    ∀ e ∈ (compileListens vs).2, ∃ v ∈ vs, e = v.error .invalidListenAddress := by
  induction vs with
  | nil => simp [compileListens]
  | cons v vs ih =>
    have hrest : ∀ e ∈ (compileListens vs).2, ∃ w ∈ v :: vs, e = w.error .invalidListenAddress := by
      intro e he
      obtain ⟨w, hw, h⟩ := ih e he
      exact ⟨w, List.mem_cons_of_mem _ hw, h⟩
    rw [compileListens]
    cases hv : compileListen v with
    | ok addr => exact hrest
    | error e =>
      refine List.forall_mem_cons.mpr ⟨⟨v, List.mem_cons_self, ?_⟩, hrest⟩
      unfold compileListen at hv
      split at hv
      · cases hv
      · split at hv
        · cases hv
        · exact (Except.error.inj hv).symm

/-- The errors of the settings are about whole values of theirs. -/
lemma compileGlobals_reports (raw : RawConfig) :
    ∀ e ∈ (compileGlobals hk raw).errors,
      ∃ g ∈ raw.globals, ∃ k, k.IsWhole ∧ e = g.value.error k := by
  have hanchored := foldl_compileGlobal_anchored hk raw.globals
  unfold compileGlobals
  simp only
  split
  · exact hanchored.errors
  · rename_i e hsoa
    intro e' he
    rcases List.mem_append.mp he with he | he
    · exact hanchored.errors e' he
    · obtain rfl := List.mem_singleton.mp he
      obtain ⟨g, hg, missing, present, rfl⟩ := compileSoa_eq_error rfl hsoa
      exact ⟨g, List.mem_of_find?_eq_some hg, .missingCompanionDirective missing present, trivial,
        rfl⟩

/-- **The validator's errors** are about the values of the file, or about a part of a network. -/
theorem compile_reports {raw : RawConfig}
    (hutf8 : ∀ v ∈ raw.zones.flatMap RawZone.values, isUtf8 v.value = true) :
    ∀ e ∈ (compile hk raw).2, Reports raw.values (raw.zones.map RawZone.network) e := by
  intro e he
  simp only [compile, List.mem_append] at he
  rcases he with (he | he) | he
  · obtain ⟨v, hv, rfl⟩ := compileListens_reports raw.listen e he
    exact .whole (k := .invalidListenAddress) (List.mem_append_left _ hv) trivial
  · obtain ⟨g, hg, k, hk, rfl⟩ := compileGlobals_reports hk raw e he
    refine .whole ?_ hk
    exact List.mem_append_right _ (List.mem_append_left _ (List.mem_map_of_mem hg))
  · have hblocks : ∀ z ∈ raw.zones, ∀ v, z.resolvesTo = some v → isUtf8 v.value = true := by
      intro z hz v hv
      exact hutf8 v (List.mem_flatMap.mpr ⟨z, hz, by simp [RawZone.values, hv]⟩)
    refine (compileZones_reports hblocks e he).mono ?_ (List.Subset.refl _)
    exact fun v hv => List.mem_append_right _ (List.mem_append_right _ hv)

/-- The values in the blocks of a file are UTF-8. -/
lemma isUtf8_of_mem_zones (input : Bytes) :
    ∀ v ∈ (parse input).cfg.zones.flatMap RawZone.values, isUtf8 v.value = true := by
  intro v hv
  obtain ⟨d, hd⟩ := (parse_sources input).zones v hv
  obtain ⟨p, -, hp⟩ := List.mem_map.mp hd
  exact (scanLine_directive hp).2.isUtf8_value

/-- The parser finds no line of a UTF-8 text not to be UTF-8. -/
lemma ne_notUtf8_of_parse {input : Bytes} (hutf8 : isUtf8 input = true) {e : ConfigError}
    (he : e ∈ (parse input).errors) : e.kind ≠ .notUtf8 := by
  rcases (parse_sources input).errors e he with hbad | ⟨x, -, v, k, -, hk, rfl⟩
  · obtain ⟨p, hp, hline⟩ := List.mem_map.mp hbad
    have hraw := isUtf8_of_mem_fileLines hutf8 (List.fst_mem_of_mem_zipIdx hp)
    exact (scanLine_bad hline).2.2.2.2 hraw
  · exact hk.ne_notUtf8

/-- The validator finds nothing not to be UTF-8. -/
lemma ne_notUtf8_of_compile {input : Bytes} {e : ConfigError}
    (he : e ∈ (compile hk (parse input).cfg).2) : e.kind ≠ .notUtf8 := by
  rcases compile_reports hk (isUtf8_of_mem_zones input) e he with
    ⟨v, -, k, hwhole, rfl⟩ | ⟨v, -, addr, mask, -, -, hreports⟩
  · rintro rfl
    exact hwhole
  · cases hreports with
    | address => exact ConfigErrorKind.noConfusion
    | prefixLen k hk =>
      rintro rfl
      exact hk

/-- **The defensive branches are not taken**: of a UTF-8 text nothing is found not to be UTF-8; no
placeholder fails to be cut out of its label, or lies in none; a checked network has a reverse zone
and a checked template an apex; and an incomplete pair of settings has a line. -/
theorem defensive_unreachable {input : Bytes} (hutf8 : isUtf8 input = true) :
    (∀ errors, Config.parse hk input = .error errors → ∀ e ∈ errors, e.kind ≠ .notUtf8) ∧
    (∀ raw ∈ (parse input).cfg.zones, ∀ v, raw.resolvesTo = some v → ∀ n e,
      compileTemplate hk v n = .error e →
        e.kind ≠ .resolvesToInvalidName (ofString "malformed placeholder") ∧
        e.kind ≠ .resolvesToInvalidName
          (ofString "placeholder does not lie within a single label")) ∧
    (∀ raw ∈ (parse input).cfg.zones, ∀ p m, compileNetwork raw.network = .ok (p, m) →
      netmaskToPtrName p m ≠ none ∧
      ∀ v, raw.resolvesTo = some v → ∀ t, compileTemplate hk v ((128 - m) / 4) = .ok t →
        ∀ e, t.parent ≠ .error e) ∧
    ∀ s, s = (parse input).cfg.globals.foldl (compileGlobal hk) {} →
      ∀ e, compileSoa (parse input).cfg s.primary s.hostmaster = .error e →
        ∃ g, (parse input).cfg.globals.find? (fun g => g.key = .primary || g.key = .hostmaster) =
            some g ∧
          ∃ missing present, e = g.value.error (.missingCompanionDirective missing present) := by
  refine ⟨?_, ?_, ?_, ?_⟩
  · intro errors h e he
    rw [errors_of_parse h, List.mem_append] at he
    rcases he with he | he
    · exact ne_notUtf8_of_parse hutf8 he
    · exact ne_notUtf8_of_compile hk he
  · intro raw hraw v hv n e h
    have hvalue := isUtf8_of_mem_zones input v
      (List.mem_flatMap.mpr ⟨raw, hraw, by simp [RawZone.values, hv]⟩)
    obtain ⟨k, hwhole, rfl⟩ := compileTemplate_eq_error hvalue h
    have hne : ∀ reason, reason ≠ ofString "empty label" → k ≠ .resolvesToInvalidName reason := by
      rintro reason hreason rfl
      exact hreason hwhole
    exact ⟨hne _ (by decide), hne _ (by decide)⟩
  · intro raw hraw p m hnet
    obtain ⟨zone, hzone⟩ := exists_netmaskToPtrName hnet
    refine ⟨by simp [hzone], ?_⟩
    intro v hv t ht e herror
    obtain ⟨apex, hapex⟩ := exists_parent ht
    rw [hapex] at herror
    cases herror
  · rintro s rfl e h
    exact compileSoa_eq_error rfl h

end File

/-- A name with characters outside ASCII around the placeholder, and `primary` by itself. -/
def umlautInput : Bytes := ofString "primary ns.example.net
network 2001:db8::/64
    resolves to gäste-%Digits%-ü.example.net
"

/-- The one error in it. -/
def umlautError : ConfigError :=
  ⟨1, ofString "primary ns.example.net", some (8, 22),
    .missingCompanionDirective "hostmaster" "primary"⟩

/-- A text with an umlaut is valid, and its one error is of another kind. -/
theorem defensive_unreachable_umlautInput :
    Config.parse plainHickory umlautInput = .error [umlautError] ∧ umlautError.kind ≠ .notUtf8 ∧
      ∃ g, (parse umlautInput).cfg.globals.find?
          (fun g => g.key = .primary || g.key = .hostmaster) = some g ∧
        ∃ missing present,
          umlautError = g.value.error (.missingCompanionDirective missing present) :=
  have hparse : Config.parse plainHickory umlautInput = .error [umlautError] := by decide +kernel
  have hutf8 : isUtf8 umlautInput = true := by decide +kernel
  have hspec := defensive_unreachable plainHickory hutf8
  ⟨hparse, hspec.1 _ hparse _ (by simp), hspec.2.2.2 _ rfl _ (by decide +kernel)⟩

end PanoptiDns
