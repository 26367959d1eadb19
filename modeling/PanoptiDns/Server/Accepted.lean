import PanoptiDns.Zone.Forward
import PanoptiDns.Server.Handler

set_option relaxedAutoImplicit false
set_option autoImplicit false

/-!
# What the request path relies on

The request path takes a configuration as it is: it shifts by what the masks say, indexes the
template at the digits label, and clamps a payload size between two bounds it does not compare.
`Config.Wf` says in terms of patterns what makes all of that safe; here it is put back in terms
of the fields of `src/config/mod.rs`, for any text that is accepted.

## Main definitions

* `FwdTemplate.Sound` — what the labels of a template have to do with the text it was split from.
* `Zone.Sound` — the fields of a zone, against each other.
* `Handling.Ends` — every way a program can end.

## Main results

* `accepted_sound` — every accepted configuration has sound zones and bounded parameters, and no
  request makes `send` panic.
-/

namespace PanoptiDns

open Bytes

/-! ## Templates, label by label -/

/-- The label carries the placeholder. -/
def FwdLabel.isDigits : FwdLabel → Bool
  | .literal .. => false
  | .digits .. => true

/-- The lowercase forms of a label are those of its verbatim forms. -/
def FwdLabel.Folded : FwdLabel → Prop
  | .literal verbatim low => low = lower verbatim
  | .digits pre preLower post postLower _ => preLower = lower pre ∧ postLower = lower post

/-- The label with a placeholder put back. -/
def FwdLabel.written (ph : Bytes) : FwdLabel → Bytes
  | .literal verbatim _ => verbatim
  | .digits pre _ post _ _ => pre ++ ph ++ post

/-- A template split from `text` for an address of `hostNibbles` digits. -/
structure FwdTemplate.Sound (t : FwdTemplate) (text : Bytes) (hostNibbles : ℕ) : Prop where
  /-- There is exactly one digits label. -/
  once : t.labels.countP FwdLabel.isDigits = 1
  /-- It is where `digitsAt` says; with the placeholder of its kind put back, in some case, the
  labels are the text less at most one trailing dot; and dashed digits come in whole groups. -/
  located : ∃ pre preLower post postLower dashed,
    t.labels[t.digitsAt]? = some (.digits pre preLower post postLower dashed) ∧
    (∃ ph, lower ph = placeholderOf dashed ∧
      (text = ['.'.toUInt8].intercalate (t.labels.map (FwdLabel.written ph)) ∨
        text = ['.'.toUInt8].intercalate (t.labels.map (FwdLabel.written ph)) ++ ['.'.toUInt8])) ∧
    (dashed = true → hostNibbles % 4 = 0)
  nonempty : ∀ low, .literal [] low ∉ t.labels
  folded : ∀ l ∈ t.labels, l.Folded

namespace Pattern

variable (p : Pattern)

/-- A template has one placeholder. -/
lemma countP_isDigits_template : p.template.labels.countP FwdLabel.isDigits = 1 := by
  have hlit : ∀ ls : List Bytes, (ls.map FwdLabel.lit).countP FwdLabel.isDigits = 0 := by
    intro ls
    apply List.countP_eq_zero.mpr
    intro l hl
    obtain ⟨s, -, rfl⟩ := List.mem_map.mp hl
    simp [FwdLabel.lit, FwdLabel.isDigits]
  rw [template, List.countP_append, List.countP_cons, hlit, hlit]
  rfl

/-- It is where the template says it is. -/
lemma getElem?_digitsAt_template : p.template.labels[p.template.digitsAt]? =
    some (.digits p.pre (lower p.pre) p.post (lower p.post) p.dashed) := by
  rw [template, List.getElem?_append_right (by simp)]
  simp [FwdLabel.around]

/-- A template with its placeholder replaced. -/
lemma map_written_template (ph : Bytes) :
    p.template.labels.map (FwdLabel.written ph) =
      p.before ++ (p.pre ++ ph ++ p.post) :: p.after := by
  have hlit : ∀ ls : List Bytes, (ls.map FwdLabel.lit).map (FwdLabel.written ph) = ls := by
    intro ls
    simp [Function.comp_def, FwdLabel.lit, FwdLabel.written]
  rw [template, List.map_append, List.map_cons, hlit, hlit]
  rfl

/-- A label of a template is a literal one of the pattern, or the one around the placeholder. -/
lemma mem_labels_template {l : FwdLabel} (hl : l ∈ p.template.labels) :
    (∃ s ∈ p.before ++ p.after, l = .lit s) ∨ l = .around p.pre p.post p.dashed := by
  simp only [template, List.mem_append, List.mem_cons, List.mem_map] at hl
  rcases hl with ⟨s, hs, rfl⟩ | rfl | ⟨s, hs, rfl⟩
  · exact .inl ⟨s, by simp [hs], rfl⟩
  · exact .inr rfl
  · exact .inl ⟨s, by simp [hs], rfl⟩

/-- **The template of a pattern** is sound for the text the pattern is written as. -/
lemma sound_template {text : Bytes} {hostNibbles : ℕ} (hwritten : p.WrittenAs text)
    (hne : ∀ s ∈ p.before ++ p.after, s ≠ []) (hgroups : p.dashed = true → hostNibbles % 4 = 0) :
    p.template.Sound text hostNibbles := by
  refine ⟨p.countP_isDigits_template, ⟨_, _, _, _, _, p.getElem?_digitsAt_template, ?_, hgroups⟩,
    ?_, ?_⟩
  · obtain ⟨ph, hph, htext⟩ := hwritten
    refine ⟨ph, hph, ?_⟩
    rw [map_written_template, ← htext]
    exact stripOne_cases '.'.toUInt8 text
  · intro low hmem
    rcases p.mem_labels_template hmem with ⟨s, hs, h⟩ | h
    · exact hne s hs (FwdLabel.literal.inj h).1.symm
    · cases h
  · intro l hl
    rcases p.mem_labels_template hl with ⟨s, -, rfl⟩ | rfl
    · rfl
    · exact ⟨rfl, rfl⟩

end Pattern

/-! ## Zones -/

/-- The fields of a zone, against each other. -/
structure Zone.Sound (z : Zone) : Prop where
  aligned : z.mask % 4 = 0
  mask_ge : 4 ≤ z.mask
  mask_le : z.mask ≤ 124
  masked : z.pfx = z.pfx &&& maskBits z.mask
  nibbles : z.hostNibbles = (128 - z.mask) / 4
  nibbles_ge : 1 ≤ z.hostNibbles
  nibbles_le : z.hostNibbles ≤ 31
  ttl_le : z.ttl ≤ 2 ^ 31 - 1
  ptrZone : some z.ptrZone = netmaskToPtrName z.pfx z.mask
  fwd : z.fwd.Sound z.resolvesTo z.hostNibbles
  parent : z.fwdParent.labels.map FwdLabel.lit = z.fwd.labels.drop (z.fwd.digitsAt + 1)

/-- A well-formed zone is sound. -/
lemma Zone.Wf.sound {z : Zone} (hz : z.Wf) : z.Sound := by
  obtain ⟨p, hp, hwritten, hne⟩ := hz.exists_pattern
  refine ⟨hz.aligned, hz.mask_ge, hz.mask_le, hz.masked.symm, hz.nibbles, hz.hostNibbles_pos,
    hz.hostNibbles_le, hz.ttl_le, hz.ptrZone.symm, ?_, ?_⟩
  · rw [hp.fwd]
    exact p.sound_template hwritten hne hp.groups
  · rw [hz.labels_fwdParent hp, hp.fwd, Pattern.template, List.drop_append]
    simp

/-! ## Programs -/

/-- However the program goes, with configurations that are all `ok`, it ends with `post`. -/
def Handling.Ends {α : Type} (ok : Zones → Prop) (post : α → Prop) : Handling α → Prop
  | .done a => post a
  | .load k => ∀ zones, ok zones → (k zones).Ends ok post
  | .await k => ∀ lookup, (k lookup).Ends ok post
  | .charge _ _ _ k => ∀ decision, (k decision).Ends ok post
  | .transmit _ k => ∀ sent, (k sent).Ends ok post

/-- `clamp` does not panic if its bounds are in order. -/
lemma clamp_isSome {low high : ℕ} (h : low ≤ high) (x : ℕ) : (clamp x low high).isSome = true := by
  simp [clamp, h]

/-- Handing a response to the socket does not panic. -/
lemma emit_ends (ok : Zones → Prop) (response : Response) :
    (emit response).Ends ok (· ≠ .panicked) := by
  intro sent
  cases sent with
  | ok u => exact Inner.noConfusion
  | error e => exact Inner.noConfusion

/-- **No reply makes `send` panic**, if what it loads has room for the least payload. -/
lemma send_ends {ok : Zones → Prop}
    (hok : ∀ zones, ok zones → 512 ≤ zones.config.params.maxUdpPayload) (request : Request)
    (reply : Reply) : (send request reply).Ends ok (· ≠ .panicked) := by
  unfold send
  split
  · exact emit_ends ok _
  · intro zones hzones
    obtain ⟨n, hn⟩ :=
      Option.isSome_iff_exists.mp (clamp_isSome (hok zones hzones) request.maxPayload)
    simp only [hn]
    split
    · exact emit_ends ok _
    · rename_i hnone
      split at hnone <;> simp at hnone

/-! ## Accepted configurations -/

/-- **Every accepted configuration is what the request path relies on.** Its zones are sound and
its parameters within bounds. Hence the shifts of `mask_bits`, `ptr_name_to_addr` and
`host_digits` are by less than 128, and `clamp` never has its bounds the wrong way round.

**Proof sketch.** `parse_wf` gives the invariant, whose pattern makes the template sound; the
ranges of the shifts are those of the masks. -/
theorem accepted_sound {hk : Hickory} {input : Bytes} {c : Config}
    (h : Config.parse hk input = .ok c) :
    (∀ z ∈ c.zones, z.Sound) ∧
    512 ≤ c.params.maxUdpPayload ∧
    1 ≤ c.params.upstreamTimeout ∧ c.params.upstreamTimeout ≤ 10000 ∧
    1 ≤ c.params.rrl.responsesPerSecond ∧ 1 ≤ c.params.rrl.burst ∧
    (∀ z ∈ c.zones,
      (∃ hs : z.mask < 128, maskBits z.mask = ~~~(U128.max.shr z.mask hs)) ∧
      (∀ position < addrNibbles, position * 4 < 128) ∧
      z.hostNibbles * 4 ≤ 128 ∧
      (∃ hs : 128 - z.hostNibbles * 4 < 128, maskBits (128 - z.hostNibbles * 4) =
        ~~~(U128.max.shr (128 - z.hostNibbles * 4) hs)) ∧
      ∀ a, (hostDigits a z.hostNibbles).isSome = true) ∧
    (∀ x, (clamp x 512 c.params.maxUdpPayload).isSome = true) ∧
    ∀ request reply, (send request reply).Ends (fun zones => zones.config = c) (· ≠ .panicked) := by
  have hc := parse_wf h
  have hpayload := hc.params.payload_ge
  have hmask : ∀ m, 0 < m → ∀ hm : m < 128, maskBits m = ~~~(U128.max.shr m hm) := by
    intro m hpos hm
    rw [maskBits, if_neg (by omega), dif_neg (by omega)]
  refine ⟨fun z hz => (hc.zones z hz).sound, hpayload, hc.params.timeout_ge, hc.params.timeout_le,
    hc.params.rate_pos, hc.params.burst_pos, ?_, clamp_isSome hpayload, ?_⟩
  · intro z hz
    have hwf := hc.zones z hz
    have hge := hwf.mask_ge
    have hle := hwf.mask_le
    have hpos := hwf.hostNibbles_pos
    have hnib := hwf.hostNibbles_le
    refine ⟨⟨by omega, hmask _ (by omega) _⟩, ?_, by omega, ⟨by omega, hmask _ (by omega) _⟩, ?_⟩
    · intro position hposition
      unfold addrNibbles at hposition
      omega
    · intro a
      unfold hostDigits addrNibbles
      rw [if_neg (by omega), if_neg (by omega)]
      rfl
  · exact send_ends fun zones hzones => hzones ▸ hpayload

/-- The sample has a zone, and it is sound. -/
theorem accepted_sound_sampleInput :
    (parsed sampleInput).zones.map Zone.mask = [64, 32] ∧
      ∀ z ∈ (parsed sampleInput).zones, z.Sound :=
  ⟨by decide +kernel, (accepted_sound parse_sampleInput).1⟩

end PanoptiDns
