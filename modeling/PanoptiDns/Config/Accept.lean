import PanoptiDns.Config.Template

set_option relaxedAutoImplicit false
set_option autoImplicit false

/-!
# What an accepted configuration satisfies

The validators of `src/config/compile.rs`, inverted: what each of them has established when it
returns. The request path relies on the sum of it, `Config.Wf`.

## Main definitions

* `Compiles` — a block of the file, taken by itself, means a zone.
* `Zone.Apart` — two zones that duplicate detection tells apart.
* `Zone.Wf`, `ServerParams.Wf`, `Config.Wf` — the invariant of a configuration.

## Main results

* `compileZones_eq_iff` — a file's blocks compile without an error iff each compiles by itself and
  they are pairwise apart.
* `parse_eq_ok_iff` — the accepted files and what they mean.
* `parse_wf` — every accepted configuration satisfies the invariant.
-/

namespace PanoptiDns

open Bytes

/-! ## Blocks -/

/-- An accepted network is nibble-aligned, neither everything nor a single address, and masked. -/
lemma compileNetwork_eq_ok {v : RawValue} {p : U128} {m : ℕ} (h : compileNetwork v = .ok (p, m)) :
    m % 4 = 0 ∧ 4 ≤ m ∧ m ≤ 124 ∧ p &&& maskBits m = p := by
  unfold compileNetwork at h
  split at h
  · simp at h
  split at h
  · simp at h
  rename_i rawAddr _
  simp only at h
  split at h
  · simp at h
  rename_i mask _
  split at h
  · simp at h
  split at h
  · simp at h
  split at h
  · simp at h
  split at h
  · simp at h
  split at h
  · simp at h
  obtain ⟨rfl, rfl⟩ := Prod.mk.inj (Except.ok.inj h)
  refine ⟨by omega, by omega, by omega, ?_⟩
  rw [BitVec.and_assoc, BitVec.and_self]

/-- A block of the file, taken by itself, means a zone. -/
structure Compiles (hk : Hickory) (raw : RawZone) (z : Zone) : Prop where
  network : compileNetwork raw.network = .ok (z.pfx, z.mask)
  nibbles : z.hostNibbles = (128 - z.mask) / 4
  template : ∃ v, raw.resolvesTo = some v ∧ v.value = z.resolvesTo ∧
    compileTemplate hk v z.hostNibbles = .ok z.fwd
  upstream : compileUpstream raw.upstream = .ok z.upstream
  ptrZone : netmaskToPtrName z.pfx z.mask = some z.ptrZone
  parent : z.fwd.parent = .ok z.fwdParent
  srcLine : z.srcLine = raw.network.line
  ttl : z.ttl = defaultTtl

/-- Neither the network nor the pattern of the zone was seen before. -/
def Seen.Fresh (seen : Seen) (z : Zone) : Prop :=
  (z.pfx, z.mask) ∉ seen.networks.map Prod.fst ∧ lower z.resolvesTo ∉ seen.patterns.map Prod.fst

/-- Two zones that duplicate detection tells apart. -/
def Zone.Apart (z w : Zone) : Prop :=
  (z.pfx, z.mask) ≠ (w.pfx, w.mask) ∧ lower z.resolvesTo ≠ lower w.resolvesTo

/-- It is a symmetric relation. -/
lemma Zone.Apart.symm {z w : Zone} (h : z.Apart w) : w.Apart z := ⟨h.1.symm, h.2.symm⟩

/-- The lookup of a key that was never inserted. -/
lemma lookup_eq_none_iff_notMem {α β : Type} [BEq α] [LawfulBEq α] (l : List (α × β)) (k : α) :
    l.lookup k = none ↔ k ∉ l.map Prod.fst := by
  rw [List.lookup_eq_none_iff]
  simp only [List.mem_map, not_exists, not_and, bne_iff_ne]
  constructor
  · intro h p hp hk
    exact h p hp hk.symm
  · intro h p hp hk
    exact h p hp hk.symm

/-- The maps of duplicate detection after a zone was accepted. -/
def Seen.Extends (seen' seen : Seen) (z : Zone) : Prop :=
  seen'.networks.map Prod.fst = (z.pfx, z.mask) :: seen.networks.map Prod.fst ∧
    seen'.patterns.map Prod.fst = lower z.resolvesTo :: seen.patterns.map Prod.fst

/-- What a block compiles to, it means, and it was fresh. -/
lemma compileZone_eq_ok {hk : Hickory} {raw : RawZone} {seen seen' : Seen} {z : Zone}
    (h : compileZone hk raw seen = .ok (z, seen')) :
    Compiles hk raw z ∧ seen.Fresh z ∧ seen'.Extends seen z := by
  unfold compileZone at h
  split at h
  · simp at h
  rename_i pfx mask hnet
  split at h
  · simp at h
  rename_i hnew
  split at h
  · simp at h
  rename_i rt hrt
  simp only at h
  split at h
  · simp at h
  rename_i fwd hfwd
  split at h
  · simp at h
  rename_i hpat
  split at h
  · simp at h
  rename_i up hup
  split at h
  · simp at h
  rename_i ptr hptr
  split at h
  · simp at h
  rename_i parent hparent
  obtain ⟨rfl, rfl⟩ := Prod.mk.inj (Except.ok.inj h)
  refine ⟨⟨hnet, rfl, ⟨rt, hrt, rfl, hfwd⟩, hup, hptr, hparent, rfl, rfl⟩, ⟨?_, ?_⟩, rfl, rfl⟩
  · exact (lookup_eq_none_iff_notMem _ _).mp hnew
  · exact (lookup_eq_none_iff_notMem _ _).mp hpat

/-- A fresh block compiles to what it means. -/
lemma compileZone_of_compiles {hk : Hickory} {raw : RawZone} {seen : Seen} {z : Zone}
    (hz : Compiles hk raw z) (hfresh : seen.Fresh z) :
    ∃ seen', compileZone hk raw seen = .ok (z, seen') ∧ seen'.Extends seen z := by
  obtain ⟨v, hv, hval, htmpl⟩ := hz.template
  have hnew : seen.networks.lookup (z.pfx, z.mask) = none :=
    (lookup_eq_none_iff_notMem _ _).mpr hfresh.1
  have hpat : seen.patterns.lookup (lower z.resolvesTo) = none :=
    (lookup_eq_none_iff_notMem _ _).mpr hfresh.2
  rw [hz.nibbles] at htmpl
  refine ⟨⟨((z.pfx, z.mask), raw.network.line) :: seen.networks,
    (lower z.resolvesTo, v.line) :: seen.patterns⟩, ?_, rfl, rfl⟩
  unfold compileZone
  simp only [hz.network, hnew, hv, htmpl, hval, hpat, hz.upstream, hz.ptrZone, hz.parent]
  rw [← hz.nibbles, ← hz.srcLine, ← hz.ttl]

/-- **The blocks of a file** compile without an error iff each means a zone by itself, the zones
are pairwise apart, and none was seen before.

**Proof sketch.** Induction on the blocks: the maps of duplicate detection hold the zones so far,
so that the next is fresh iff it is apart from each of them. -/
lemma compileZones_eq_iff {hk : Hickory} {ttl : ℕ} {raws : List RawZone} {seen : Seen}
    {out : List Zone} :
    compileZones hk ttl raws seen = (out, []) ↔
      ∃ zs, List.Forall₂ (Compiles hk) raws zs ∧ zs.Pairwise Zone.Apart ∧
        (∀ z ∈ zs, seen.Fresh z) ∧ out = zs.map (Zone.withTtl ttl) := by
  induction raws generalizing seen out with
  | nil =>
    simp only [compileZones, Prod.mk.injEq, and_true, List.forall₂_nil_left_iff]
    constructor
    · rintro rfl
      exact ⟨[], rfl, .nil, by simp, rfl⟩
    · rintro ⟨zs, rfl, -, -, rfl⟩
      rfl
  | cons raw raws ih =>
    have hfresh : ∀ {seen' : Seen} {z : Zone}, seen'.Extends seen z → ∀ w,
        seen'.Fresh w ↔ seen.Fresh w ∧ z.Apart w := by
      intro seen' z hext w
      simp only [Seen.Fresh, hext.1, hext.2, List.mem_cons, Zone.Apart, not_or, ne_eq]
      tauto
    rw [compileZones]
    constructor
    · intro h
      split at h
      · rename_i z seen' hz
        obtain ⟨hmeans, hnew, hext⟩ := compileZone_eq_ok hz
        obtain ⟨hout, herr⟩ := Prod.mk.inj h
        obtain ⟨zs, hall, hpair, hrest, hzs⟩ := ih.mp (Prod.ext rfl herr)
        refine ⟨z :: zs, .cons hmeans hall, List.pairwise_cons.mpr ⟨?_, hpair⟩, ?_, ?_⟩
        · intro w hw
          exact ((hfresh hext w).mp (hrest w hw)).2
        · intro w hw
          rcases List.mem_cons.mp hw with rfl | hw
          · exact hnew
          · exact ((hfresh hext w).mp (hrest w hw)).1
        · exact hout.symm.trans (congrArg (z.withTtl ttl :: ·) hzs)
      · simp at h
    · rintro ⟨zs, hall, hpair, hnew, rfl⟩
      cases hall with
      | cons hmeans hall =>
        rename_i z zs
        obtain ⟨hapart, hpair⟩ := List.pairwise_cons.mp hpair
        obtain ⟨seen', hz, hext⟩ := compileZone_of_compiles hmeans (hnew z (by simp))
        have hrest := ih.mpr ⟨zs, hall, hpair,
          fun w hw => (hfresh hext w).mpr ⟨hnew w (by simp [hw]), hapart w hw⟩, rfl⟩
        simp only [hz, hrest]
        rfl

/-- The `listen` lines compile without an error iff each of them does. -/
lemma compileListens_eq_iff {vs : List RawValue} {out : List ListenAddr} :
    compileListens vs = (out, []) ↔ List.Forall₂ (fun v a => compileListen v = .ok a) vs out := by
  induction vs generalizing out with
  | nil =>
    simp only [compileListens, Prod.mk.injEq, and_true, List.forall₂_nil_left_iff]
    exact eq_comm
  | cons v vs ih =>
    rw [compileListens]
    cases hv : compileListen v with
    | ok a =>
      simp only [Prod.mk.injEq, List.forall₂_cons_left_iff, hv, Except.ok.injEq]
      constructor
      · rintro ⟨rfl, herr⟩
        exact ⟨a, _, rfl, ih.mp (Prod.ext rfl herr), rfl⟩
      · rintro ⟨a', out', rfl, hall, rfl⟩
        rw [ih.mpr hall]
        exact ⟨rfl, rfl⟩
    | error e => simp [List.forall₂_cons_left_iff, hv]

/-! ## Globals -/

/-- The bounds on the server-wide knobs. -/
structure ServerParams.Wf (p : ServerParams) : Prop where
  payload_ge : 512 ≤ p.maxUdpPayload
  payload_le : p.maxUdpPayload ≤ 65535
  timeout_ge : 1 ≤ p.upstreamTimeout
  timeout_le : p.upstreamTimeout ≤ 10000
  rate_pos : 1 ≤ p.rrl.responsesPerSecond
  burst_pos : 1 ≤ p.rrl.burst
  ipv4Prefix_eq : p.rrl.ipv4Prefix = 24
  ipv6Prefix_eq : p.rrl.ipv6Prefix = 64

/-- What holds of the settings at every point of the loop over the globals. -/
structure GlobalState.Wf (s : GlobalState) : Prop where
  ttl_le : s.ttl ≤ 2 ^ 31 - 1
  params : s.params.Wf

/-- Setting to a checked value keeps what the check promises. -/
lemma GlobalState.Wf.set {α : Type} {s : GlobalState} {value : Except ConfigError α}
    {assign : α → GlobalState} (hs : s.Wf) (hassign : ∀ a, value = .ok a → (assign a).Wf) :
    (s.set value assign).Wf := by
  unfold GlobalState.set
  split
  · rename_i a
    exact hassign a rfl
  · exact ⟨hs.ttl_le, hs.params⟩

/-- An accepted number passed the check. -/
lemma parseChecked_eq_ok {v : RawValue} {what allowed : String} {ok : ℕ → Bool} {n : ℕ}
    (h : parseChecked v what allowed ok = .ok n) : ok n = true := by
  unfold parseChecked at h
  cases hp : parseU32 v what allowed with
  | error e => simp [hp, bind, Except.bind] at h
  | ok m =>
    simp only [hp, bind, Except.bind] at h
    split at h
    · rename_i hok
      rwa [← Except.ok.inj h]
    · simp at h

/-- **One global directive** keeps the bounds, whatever its value. -/
lemma compileGlobal_wf (hk : Hickory) {s : GlobalState} (g : RawGlobal) (hs : s.Wf) :
    (compileGlobal hk s g).Wf := by
  have httl := hs.ttl_le
  have hp := hs.params
  have hkeep : ∀ s' : GlobalState, s'.ttl = s.ttl → s'.params = s.params → s'.Wf := by
    intro s' h₁ h₂
    exact ⟨h₁ ▸ httl, h₂ ▸ hp⟩
  unfold compileGlobal
  cases g.key with
  | primary =>
    refine GlobalState.Wf.set (hkeep _ rfl rfl) ?_
    exact fun _ _ => hkeep _ rfl rfl
  | hostmaster =>
    refine GlobalState.Wf.set (hkeep _ rfl rfl) ?_
    exact fun _ _ => hkeep _ rfl rfl
  | ns =>
    refine GlobalState.Wf.set hs ?_
    exact fun _ _ => hkeep _ rfl rfl
  | ttl =>
    refine GlobalState.Wf.set hs fun n hn => ⟨?_, hp⟩
    have := parseChecked_eq_ok hn
    simp only [decide_eq_true_eq] at this
    exact this
  | outOfZone =>
    simp only
    split
    · exact ⟨httl, { hp with }⟩
    · split
      · exact ⟨httl, { hp with }⟩
      · exact ⟨httl, hp⟩
  | maxUdpPayload =>
    refine GlobalState.Wf.set hs fun n hn => ⟨httl, ?_⟩
    have := parseChecked_eq_ok hn
    simp only [Bool.and_eq_true, decide_eq_true_eq] at this
    exact { hp with payload_ge := this.1, payload_le := this.2 }
  | upstreamTimeout =>
    refine GlobalState.Wf.set hs fun n hn => ⟨httl, ?_⟩
    have := parseChecked_eq_ok hn
    simp only [Bool.and_eq_true, decide_eq_true_eq] at this
    exact { hp with timeout_ge := this.1, timeout_le := this.2 }
  | rrlOff => exact ⟨httl, { hp with }⟩
  | rrlRps =>
    refine GlobalState.Wf.set hs fun n hn => ⟨httl, ?_⟩
    have := parseChecked_eq_ok hn
    simp only [decide_eq_true_eq] at this
    exact { hp with rate_pos := this }
  | rrlBurst =>
    refine GlobalState.Wf.set hs fun n hn => ⟨httl, ?_⟩
    have := parseChecked_eq_ok hn
    simp only [decide_eq_true_eq] at this
    exact { hp with burst_pos := this }
  | rrlSlip =>
    refine GlobalState.Wf.set hs ?_
    exact fun _ _ => ⟨httl, { hp with }⟩

/-- **The globals** of any file are within bounds. -/
lemma compileGlobals_wf (hk : Hickory) (raw : RawConfig) :
    (compileGlobals hk raw).ttl ≤ 2 ^ 31 - 1 ∧ (compileGlobals hk raw).params.Wf := by
  have hloop : ∀ (gs : List RawGlobal) (s : GlobalState), s.Wf →
      (gs.foldl (compileGlobal hk) s).Wf := by
    intro gs
    induction gs with
    | nil => exact fun s hs => hs
    | cons g gs ih => exact fun s hs => ih _ (compileGlobal_wf hk g hs)
  have hinit : ({} : GlobalState).Wf := ⟨by decide, by constructor <;> decide⟩
  have hwf := hloop raw.globals {} hinit
  unfold compileGlobals
  simp only
  split
  · exact ⟨hwf.ttl_le, hwf.params⟩
  · exact ⟨hwf.ttl_le, hwf.params⟩

/-! ## The invariant -/

/-- What the request path relies on in a zone. -/
structure Zone.Wf (z : Zone) : Prop where
  aligned : z.mask % 4 = 0
  mask_ge : 4 ≤ z.mask
  mask_le : z.mask ≤ 124
  masked : z.pfx &&& maskBits z.mask = z.pfx
  nibbles : z.hostNibbles = (128 - z.mask) / 4
  ttl_le : z.ttl ≤ 2 ^ 31 - 1
  ptrZone : netmaskToPtrName z.pfx z.mask = some z.ptrZone
  parent : z.fwd.parent = .ok z.fwdParent
  pattern : ∃ p : Pattern, z.fwd = p.template ∧ p.WrittenAs z.resolvesTo ∧
    (∀ s ∈ p.before ++ p.after, s ≠ []) ∧ (p.dashed = true → z.hostNibbles % 4 = 0) ∧
    (p.template.render (List.replicate (min z.hostNibbles addrNibbles) 'f'.toUInt8)).isOk = true

/-- What the request path relies on in a configuration. -/
structure Config.Wf (c : Config) : Prop where
  zones : ∀ z ∈ c.zones, z.Wf
  sorted : c.zones.Pairwise fun z w => w.mask ≤ z.mask
  apart : c.zones.Pairwise Zone.Apart
  params : c.params.Wf

/-- A block that means a zone means a well-formed one. -/
lemma Compiles.wf {hk : Hickory} {raw : RawZone} {z : Zone} (h : Compiles hk raw z) {ttl : ℕ}
    (httl : ttl ≤ 2 ^ 31 - 1) : (z.withTtl ttl).Wf := by
  obtain ⟨hmod, hge, hle, hmasked⟩ := compileNetwork_eq_ok h.network
  obtain ⟨v, -, hval, htmpl⟩ := h.template
  exact ⟨hmod, hge, hle, hmasked, h.nibbles, httl, h.ptrZone, h.parent,
    hval ▸ compileTemplate_pattern htmpl⟩

/-- **The accepted files** and what they mean. -/
lemma parse_eq_ok_iff {hk : Hickory} {input : Bytes} {c : Config} :
    Config.parse hk input = .ok c ↔
      (parse input).errors = [] ∧ (compileListens (parse input).cfg.listen).2 = [] ∧
      (compileGlobals hk (parse input).cfg).errors = [] ∧
      ∃ zs, List.Forall₂ (Compiles hk) (parse input).cfg.zones zs ∧ zs.Pairwise Zone.Apart ∧
        c = ⟨(compileListens (parse input).cfg.listen).1,
          sortByMask (zs.map (Zone.withTtl (compileGlobals hk (parse input).cfg).ttl)),
          (compileGlobals hk (parse input).cfg).soa,
          (compileGlobals hk (parse input).cfg).nameservers,
          (compileGlobals hk (parse input).cfg).params⟩ := by
  unfold Config.parse compile
  simp only [List.isEmpty_iff, List.append_eq_nil_iff]
  constructor
  · intro h
    split at h
    · rename_i herr
      obtain ⟨hparse, ⟨hlisten, hglobals⟩, hzones⟩ := herr
      obtain ⟨zs, hall, hpair, -, hzs⟩ := compileZones_eq_iff.mp (Prod.ext rfl hzones)
      refine ⟨hparse, hlisten, hglobals, zs, hall, hpair, ?_⟩
      obtain rfl := Except.ok.inj h
      exact congrArg (fun zones => Config.mk _ (sortByMask zones) _ _ _) hzs
    · simp at h
  · rintro ⟨hparse, hlisten, hglobals, zs, hall, hpair, rfl⟩
    have hzs : compileZones hk (compileGlobals hk (parse input).cfg).ttl
          (parse input).cfg.zones {} =
        (zs.map (Zone.withTtl (compileGlobals hk (parse input).cfg).ttl), []) :=
      compileZones_eq_iff.mpr ⟨zs, hall, hpair, fun z _ => by simp [Seen.Fresh], rfl⟩
    rw [hzs, if_pos ⟨hparse, ⟨hlisten, hglobals⟩, rfl⟩]

/-- The errors of a rejected file are those of the parser and then those of the validator. -/
lemma errors_of_parse {hk : Hickory} {input : Bytes} {errors : List ConfigError}
    (h : Config.parse hk input = .error errors) :
    errors = (parse input).errors ++ (compile hk (parse input).cfg).2 := by
  unfold Config.parse at h
  simp only at h
  split at h
  · cases h
  · exact (Except.error.inj h).symm

/-- The sort keeps the zones. -/
lemma sortByMask_perm (zs : List Zone) : (sortByMask zs).Perm zs := List.perm_insertionSort _ _

/-- It puts the longest masks first. -/
lemma sortByMask_sorted (zs : List Zone) :
    (sortByMask zs).Pairwise fun z w => w.mask ≤ z.mask := by
  have htotal : Std.Total fun z w : Zone => w.mask ≤ z.mask :=
    ⟨fun z w => Nat.le_total w.mask z.mask⟩
  have htrans : IsTrans Zone fun z w => w.mask ≤ z.mask := ⟨fun _ _ _ h h' => h'.trans h⟩
  exact List.pairwise_insertionSort _ zs

/-- What is related to a list elementwise has its elements related to elements of the list. -/
lemma exists_of_forall₂_right {α β : Type} {R : α → β → Prop} {xs : List α} {ys : List β}
    (h : List.Forall₂ R xs ys) {y : β} (hy : y ∈ ys) : ∃ x ∈ xs, R x y := by
  induction h with
  | nil => simp at hy
  | cons hR _ ih =>
    rcases List.mem_cons.mp hy with rfl | hy
    · exact ⟨_, by simp, hR⟩
    · obtain ⟨x, hx, hxy⟩ := ih hy
      exact ⟨x, by simp [hx], hxy⟩

/-- **Every accepted configuration satisfies the invariant.** -/
lemma parse_wf {hk : Hickory} {input : Bytes} {c : Config} (h : Config.parse hk input = .ok c) :
    c.Wf := by
  obtain ⟨-, -, -, zs, hall, hpair, rfl⟩ := parse_eq_ok_iff.mp h
  obtain ⟨httl, hparams⟩ := compileGlobals_wf hk (parse input).cfg
  generalize (compileGlobals hk (parse input).cfg).ttl = ttl at httl
  have hperm := sortByMask_perm (zs.map (Zone.withTtl ttl))
  refine ⟨?_, sortByMask_sorted _, ?_, hparams⟩
  · intro z hz
    obtain ⟨w, hw, rfl⟩ := List.mem_map.mp (hperm.mem_iff.mp hz)
    obtain ⟨raw, -, hraw⟩ := exists_of_forall₂_right hall hw
    exact hraw.wf httl
  · refine (hperm.pairwise_iff fun h => h.symm).mpr ?_
    exact List.pairwise_map.mpr hpair

/-! ## A sample -/

/-- A hickory that reads no name: enough for a file without `primary`, `hostmaster` and `ns`. -/
def namelessHickory : Hickory := ⟨fun _ => none, fun _ => []⟩

/-- The configuration of a text, empty if it is not accepted. -/
def parsed (input : Bytes) : Config :=
  (Config.parse namelessHickory input).toOption.getD ⟨[], [], none, [], {}⟩

/-- A hickory that reads names written without escapes: labels with dots between them, and perhaps
one after them. -/
def plainHickory : Hickory where
  fromStrRelaxed text :=
    (Name.fromLabels ((stripOne '.'.toUInt8 text).splitOn '.'.toUInt8)).toOption
  protoErrorText _ := []

/-- The configuration of a text with plain names, empty if it is not accepted. -/
def plainlyParsed (input : Bytes) : Config :=
  (Config.parse plainHickory input).toOption.getD ⟨[], [], none, [], {}⟩

/-- Two networks, one inside the other, with a dashed and a plain template. -/
def sampleInput : Bytes := ofString "listen [::]:5353
network 2001:db8::/32
    resolves to v6-%DIGITS%.Example.net.
network 2001:db8:0:42::/64
    resolves to %DIGITS-DASHED%.lan.example.net
    with upstream 2001:db8::53
"

/-- The sample is accepted. -/
lemma parse_sampleInput : Config.parse namelessHickory sampleInput = .ok (parsed sampleInput) := by
  decide +kernel

end PanoptiDns
