import PanoptiDns.Config.Outline
import PanoptiDns.Config.Settings

set_option relaxedAutoImplicit false
set_option autoImplicit false

/-!
# Validation looks at values only

A value carries the line it was read from, and every validator may put that line in an error. What
a validator accepts, and what it makes of it, depends on the text alone: two files with the same
outline mean the same.

## Main definitions

* `Zone.sansLine` — a zone without the line it was configured on.

## Main results

* `Compiles.of_block_eq`, `forall₂_compiles_of_block_eq` — a block means the same zone, wherever it
  stands.
* `compileGlobals_agree` — so do the settings.
-/

namespace PanoptiDns

open Bytes

/-- Two results that agree but for the error. -/
lemma eq_ok_iff_of_toOption {ε α : Type} {x y : Except ε α} (h : x.toOption = y.toOption) (a : α) :
    x = .ok a ↔ y = .ok a := by
  cases x <;> cases y <;> simp_all [Except.toOption]

/-! ## Blocks -/

section Values

variable {v w : RawValue} (h : v.value = w.value)

include h

/-- The network depends on the text alone. -/
lemma toOption_compileNetwork : (compileNetwork v).toOption = (compileNetwork w).toOption := by
  unfold compileNetwork
  rw [h]
  cases splitOnce '/'.toUInt8 w.value with
  | none => rfl
  | some parts =>
    simp only
    cases Ipv6Addr.fromStr parts.1 with
    | none => rfl
    | some addr =>
      simp only
      cases parseU32Text parts.2 with
      | none => rfl
      | some mask =>
        simp only
        repeat' split
        all_goals rfl

omit h in
/-- So does a label of a template. -/
lemma toOption_compileSegment (s : Bytes) :
    (compileSegment v s).toOption = (compileSegment w s).toOption := by
  unfold compileSegment
  simp only
  repeat' split
  all_goals rfl

omit h in
/-- So does what the loop over the labels makes of them. -/
lemma toOption_templateLoop (segs : List Bytes) (idx : ℕ) (labels : List FwdLabel) (at' : Option ℕ)
    (dashed : Bool) : (templateLoop v segs idx labels at' dashed).toOption =
      (templateLoop w segs idx labels at' dashed).toOption := by
  induction segs generalizing idx labels at' dashed with
  | nil => rfl
  | cons s segs ih =>
    have hseg := toOption_compileSegment (v := v) (w := w) s
    rw [templateLoop, templateLoop]
    split
    · rfl
    · cases hv : compileSegment v s with
      | error e =>
        cases hw : compileSegment w s with
        | error e' => rfl
        | ok l => simp [hv, hw, Except.toOption] at hseg
      | ok l =>
        cases hw : compileSegment w s with
        | error e' => simp [hv, hw, Except.toOption] at hseg
        | ok l' =>
          obtain rfl : l = l' := by simpa [hv, hw, Except.toOption] using hseg
          cases l with
          | literal verbatim low => exact ih _ _ _ _
          | digits pre preLower post postLower d => exact ih _ _ _ _

/-- So does the template. -/
lemma toOption_compileTemplate (hk : Hickory) (n : ℕ) :
    (compileTemplate hk v n).toOption = (compileTemplate hk w n).toOption := by
  have hloop := toOption_templateLoop (v := v) (w := w)
    ((stripOne '.'.toUInt8 w.value).splitOn '.'.toUInt8) 0 [] none false
  unfold compileTemplate
  simp only [h]
  split
  · rfl
  split
  · rfl
  cases hv : templateLoop v ((stripOne '.'.toUInt8 w.value).splitOn '.'.toUInt8) 0 [] none
      false with
  | error e =>
    cases hw : templateLoop w ((stripOne '.'.toUInt8 w.value).splitOn '.'.toUInt8) 0 [] none
        false with
    | error e' => rfl
    | ok r => simp [hv, hw, Except.toOption] at hloop
  | ok r =>
    rw [(eq_ok_iff_of_toOption hloop r).mp hv]
    obtain ⟨labels, at', dashed⟩ := r
    cases at' with
    | none => rfl
    | some i =>
      simp only
      split
      · rfl
      · split
        · rfl
        · rfl

/-- So does an address to listen on. -/
lemma toOption_compileListen : (compileListen v).toOption = (compileListen w).toOption := by
  unfold compileListen
  rw [h]
  split
  · rfl
  · split
    · rfl
    · rfl

/-- So does a name. -/
lemma toOption_parseName (hk : Hickory) (what : String) :
    (parseName hk v what).toOption = (parseName hk w what).toOption := by
  rw [toOption_parseName_eq, toOption_parseName_eq, h]

/-- So does a number. -/
lemma toOption_parseU32 (what allowed : String) :
    (parseU32 v what allowed).toOption = (parseU32 w what allowed).toOption := by
  rw [toOption_parseU32_eq, toOption_parseU32_eq, h]

/-- So does a number within its bounds. -/
lemma toOption_parseChecked (what allowed : String) (ok : ℕ → Bool) :
    (parseChecked v what allowed ok).toOption = (parseChecked w what allowed ok).toOption := by
  rw [toOption_parseChecked_eq, toOption_parseChecked_eq, h]

end Values

/-- So does the upstream, if there is one. -/
lemma toOption_compileUpstream {u u' : Option RawValue}
    (h : u.map RawValue.value = u'.map RawValue.value) :
    (compileUpstream u).toOption = (compileUpstream u').toOption := by
  cases u with
  | none =>
    cases u' with
    | none => rfl
    | some w => simp at h
  | some v =>
    cases u' with
    | none => simp at h
    | some w =>
      have hvalue : v.value = w.value := by simpa using h
      unfold compileUpstream
      simp only [hvalue]
      split
      · rfl
      · rfl

/-- A zone without the line it was configured on. -/
def Zone.sansLine (z : Zone) : Zone := { z with srcLine := 0 }

/-- **A block means the same zone wherever it stands.** -/
lemma Compiles.of_block_eq {hk : Hickory} {raw raw' : RawZone} (h : raw.block = raw'.block)
    {z : Zone} (hz : Compiles hk raw z) :
    Compiles hk raw' { z with srcLine := raw'.network.line } := by
  obtain ⟨hnet, hto, hup⟩ := Block.mk.inj h
  obtain ⟨v, hv, hval, htmpl⟩ := hz.template
  rw [hv, Option.map_some, eq_comm, Option.map_eq_some_iff] at hto
  obtain ⟨w, hw, hvw⟩ := hto
  refine ⟨?_, hz.nibbles, ⟨w, hw, hvw.trans hval, ?_⟩, ?_, hz.ptrZone, hz.parent, rfl, hz.ttl⟩
  · exact (eq_ok_iff_of_toOption (toOption_compileNetwork hnet) _).mp hz.network
  · exact (eq_ok_iff_of_toOption (toOption_compileTemplate hvw.symm hk _) _).mp htmpl
  · exact (eq_ok_iff_of_toOption (toOption_compileUpstream hup) _).mp hz.upstream

/-- **Blocks mean the same zones wherever they stand**, but for their lines. -/
lemma forall₂_compiles_of_block_eq {hk : Hickory} {raws raws' : List RawZone}
    (h : raws'.map RawZone.block = raws.map RawZone.block) {zs : List Zone}
    (hzs : List.Forall₂ (Compiles hk) raws zs) :
    ∃ zs', List.Forall₂ (Compiles hk) raws' zs' ∧ zs'.map Zone.sansLine = zs.map Zone.sansLine := by
  induction hzs generalizing raws' with
  | nil =>
    obtain rfl := List.map_eq_nil_iff.mp h
    exact ⟨[], .nil, rfl⟩
  | cons hz _ ih =>
    obtain ⟨raw', raws', rfl, hraw, hraws⟩ := List.map_eq_cons_iff.mp h
    obtain ⟨zs', hzs', hsans⟩ := ih hraws
    refine ⟨_ :: zs', .cons (hz.of_block_eq hraw.symm) hzs', ?_⟩
    rw [List.map_cons, List.map_cons, hsans]
    rfl

/-- The `listen` lines mean the same addresses wherever they stand. -/
lemma compileListens_of_value_eq {vs ws : List RawValue}
    (h : ws.map RawValue.value = vs.map RawValue.value) {out : List ListenAddr}
    (hvs : compileListens vs = (out, [])) : compileListens ws = (out, []) := by
  have hall := compileListens_eq_iff.mp hvs
  refine compileListens_eq_iff.mpr ?_
  clear hvs
  induction hall generalizing ws with
  | nil =>
    obtain rfl := List.map_eq_nil_iff.mp h
    exact .nil
  | cons hv _ ih =>
    obtain ⟨w, ws, rfl, hw, hws⟩ := List.map_eq_cons_iff.mp h
    exact .cons ((eq_ok_iff_of_toOption (toOption_compileListen hw) _).mpr hv) (ih hws)

/-! ## Settings -/

/-- The settings so far are the same, and so is whether there was an error. -/
structure GlobalState.Agree (s s' : GlobalState) : Prop where
  ttl : s.ttl = s'.ttl
  params : s.params = s'.params
  primary : s.primary = s'.primary
  hostmaster : s.hostmaster = s'.hostmaster
  nameservers : s.nameservers = s'.nameservers
  errors : s.errors = [] ↔ s'.errors = []

/-- Setting to a value that was read from the same text. -/
lemma GlobalState.Agree.set {α : Type} {s s' : GlobalState} (hs : s.Agree s')
    {value value' : Except ConfigError α} (hvalue : value.toOption = value'.toOption)
    {assign assign' : α → GlobalState} (hassign : ∀ a, (assign a).Agree (assign' a)) :
    (s.set value assign).Agree (s'.set value' assign') := by
  cases value with
  | ok a =>
    obtain rfl := (eq_ok_iff_of_toOption hvalue a).mp rfl
    exact hassign a
  | error e =>
    cases value' with
    | ok a => simp [Except.toOption] at hvalue
    | error e' => exact { hs with errors := by simp [GlobalState.set] }

/-- **One setting** does the same, wherever it stands. -/
lemma compileGlobal_agree (hk : Hickory) {s s' : GlobalState} (hs : s.Agree s') {g g' : RawGlobal}
    (hkey : g.key = g'.key) (hvalue : g.value.value = g'.value.value) :
    (compileGlobal hk s g).Agree (compileGlobal hk s' g') := by
  have hparams := hs.params
  unfold compileGlobal
  rw [hkey]
  cases g'.key with
  | primary =>
    have hreset : GlobalState.Agree { s with primary := none } { s' with primary := none } :=
      { hs with primary := rfl }
    refine hreset.set (toOption_parseName hvalue hk _) ?_
    exact fun n => { hs with primary := rfl }
  | hostmaster =>
    have hreset : GlobalState.Agree { s with hostmaster := none } { s' with hostmaster := none } :=
      { hs with hostmaster := rfl }
    refine hreset.set (toOption_parseName hvalue hk _) ?_
    exact fun n => { hs with hostmaster := rfl }
  | ns =>
    refine hs.set (toOption_parseName hvalue hk _) ?_
    exact fun n => { hs with nameservers := congrArg (· ++ [n]) hs.nameservers }
  | ttl =>
    refine hs.set (toOption_parseChecked hvalue _ _ _) ?_
    exact fun n => { hs with ttl := rfl }
  | outOfZone =>
    simp only [hvalue]
    split
    · exact { hs with params := by simp [hparams] }
    · split
      · exact { hs with params := by simp [hparams] }
      · exact { hs with errors := by simp }
  | maxUdpPayload =>
    refine hs.set (toOption_parseChecked hvalue _ _ _) ?_
    exact fun n => { hs with params := by simp [hparams] }
  | upstreamTimeout =>
    refine hs.set (toOption_parseChecked hvalue _ _ _) ?_
    exact fun n => { hs with params := by simp [hparams] }
  | rrlOff => exact { hs with params := by simp [hparams] }
  | rrlRps =>
    refine hs.set (toOption_parseChecked hvalue _ _ _) ?_
    exact fun n => { hs with params := by simp [hparams] }
  | rrlBurst =>
    refine hs.set (toOption_parseChecked hvalue _ _ _) ?_
    exact fun n => { hs with params := by simp [hparams] }
  | rrlSlip =>
    refine hs.set (toOption_parseU32 hvalue _ _) ?_
    exact fun n => { hs with params := by simp [hparams] }

/-- What the settings of a file come to is the same, and so is whether there is an error. -/
structure Globals.Agree (g g' : Globals) : Prop where
  ttl : g.ttl = g'.ttl
  soa : g.soa = g'.soa
  nameservers : g.nameservers = g'.nameservers
  params : g.params = g'.params
  errors : g.errors = [] ↔ g'.errors = []

/-- **The settings mean the same** in files with the same outline of them. -/
lemma compileGlobals_agree (hk : Hickory) {raw raw' : RawConfig}
    (h : raw.outline.globals = raw'.outline.globals) :
    (compileGlobals hk raw).Agree (compileGlobals hk raw') := by
  have hloop : ∀ (gs gs' : List RawGlobal) (s s' : GlobalState), s.Agree s' →
      gs.map (fun g => (g.key, g.value.value)) = gs'.map (fun g => (g.key, g.value.value)) →
      (gs.foldl (compileGlobal hk) s).Agree (gs'.foldl (compileGlobal hk) s') := by
    intro gs
    induction gs with
    | nil =>
      intro gs' s s' hs hgs
      obtain rfl := List.map_eq_nil_iff.mp hgs.symm
      exact hs
    | cons g gs ih =>
      intro gs' s s' hs hgs
      cases gs' with
      | nil => simp at hgs
      | cons g' gs' =>
        obtain ⟨hg, hgs⟩ := List.cons.inj hgs
        obtain ⟨hkey, hvalue⟩ := Prod.mk.inj hg
        exact ih gs' _ _ (compileGlobal_agree hk hs hkey hvalue) hgs
  have hagree := hloop raw.globals raw'.globals {} {} ⟨rfl, rfl, rfl, rfl, rfl, Iff.rfl⟩ h
  unfold compileGlobals
  generalize raw.globals.foldl (compileGlobal hk) {} = s at hagree
  generalize raw'.globals.foldl (compileGlobal hk) {} = s' at hagree
  simp only [hagree.primary, hagree.hostmaster]
  cases s'.primary with
  | none =>
    cases s'.hostmaster with
    | none => exact ⟨hagree.ttl, rfl, hagree.nameservers, hagree.params, hagree.errors⟩
    | some m => exact ⟨hagree.ttl, rfl, hagree.nameservers, hagree.params, by simp [compileSoa]⟩
  | some n =>
    cases s'.hostmaster with
    | none => exact ⟨hagree.ttl, rfl, hagree.nameservers, hagree.params, by simp [compileSoa]⟩
    | some m => exact ⟨hagree.ttl, rfl, hagree.nameservers, hagree.params, hagree.errors⟩

end PanoptiDns
