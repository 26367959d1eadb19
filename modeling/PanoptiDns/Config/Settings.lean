import PanoptiDns.Lib.Run
import PanoptiDns.Config.Accept

set_option relaxedAutoImplicit false
set_option autoImplicit false

/-!
# The settings of a file

The loop over the global directives, as a run of a transition system on what they have set so far:
a setting whose value cannot be read has no transition. Each part of the state is a register that
one key sets, or the list that `ns` extends.

## Main definitions

* `GlobalState.apply` — one setting.
* `textsOf` — the values of a key.
* `SetTo` — a single-valued setting has the value of its line, or the default.
* `SettingsKept` — every setting is in the configuration.

## Main results

* `exec_apply` — the loop reports no error iff all settings can be applied, and has applied them.
* `setTo_of_exec` — a single-valued setting has its value.
* `compileGlobals_kept` — without an error, every setting is kept.
-/

namespace PanoptiDns

open Bytes

/-! ## One setting -/

/-- A number that passes a check. -/
def readNumber (ok : ℕ → Bool) (text : Bytes) : Option ℕ := (parseU32Text text).filter ok

/-- An out-of-zone policy. -/
def readPolicy (text : Bytes) : Option OutOfZonePolicy :=
  if text = ofString "refused" then some .refused
  else if text = ofString "nxdomain" then some .nxDomain
  else none

/-- One setting, if its value is one that it may have. -/
def GlobalState.apply (hk : Hickory) (s : GlobalState) (p : GlobalKey × Bytes) :
    Option GlobalState :=
  match p.1 with
  | .primary => (hk.fromStrRelaxed p.2).map fun n => { s with primary := some n }
  | .hostmaster => (hk.fromStrRelaxed p.2).map fun n => { s with hostmaster := some n }
  | .ns => (hk.fromStrRelaxed p.2).map fun n => { s with nameservers := s.nameservers ++ [n] }
  | .ttl => (readNumber (· ≤ 0x7FFFFFFF) p.2).map fun n => { s with ttl := n }
  | .outOfZone => (readPolicy p.2).map fun policy => { s with params.outOfZone := policy }
  | .maxUdpPayload =>
    (readNumber (fun n => 512 ≤ n && n ≤ 65535) p.2).map fun n =>
      { s with params.maxUdpPayload := n }
  | .upstreamTimeout =>
    (readNumber (fun n => 1 ≤ n && n ≤ 10000) p.2).map fun n =>
      { s with params.upstreamTimeout := n }
  | .rrlOff => some { s with params.rrl.enabled := false }
  | .rrlRps =>
    (readNumber (1 ≤ ·) p.2).map fun n => { s with params.rrl.responsesPerSecond := n }
  | .rrlBurst => (readNumber (1 ≤ ·) p.2).map fun n => { s with params.rrl.burst := n }
  | .rrlSlip => (parseU32Text p.2).map fun n => { s with params.rrl.slip := n }

/-- A number within its bounds is a number. -/
lemma parseU32Text_of_readNumber {ok : ℕ → Bool} {text : Bytes} {n : ℕ}
    (h : readNumber ok text = some n) : parseU32Text text = some n :=
  (Option.filter_eq_some_iff.mp h).1

/-- What one setting does to every part of the state. -/
structure GlobalState.Sets (hk : Hickory) (s s' : GlobalState) (p : GlobalKey × Bytes) : Prop where
  primary : if p.1 = .primary then (hk.fromStrRelaxed p.2).map some = some s'.primary
    else s'.primary = s.primary
  hostmaster : if p.1 = .hostmaster then (hk.fromStrRelaxed p.2).map some = some s'.hostmaster
    else s'.hostmaster = s.hostmaster
  nameservers : s'.nameservers.map some = s.nameservers.map some ++
    if p.1 = .ns then [hk.fromStrRelaxed p.2] else []
  ttl : if p.1 = .ttl then parseU32Text p.2 = some s'.ttl else s'.ttl = s.ttl
  outOfZone : if p.1 = .outOfZone then readPolicy p.2 = some s'.params.outOfZone
    else s'.params.outOfZone = s.params.outOfZone
  maxUdpPayload : if p.1 = .maxUdpPayload then parseU32Text p.2 = some s'.params.maxUdpPayload
    else s'.params.maxUdpPayload = s.params.maxUdpPayload
  upstreamTimeout : if p.1 = .upstreamTimeout then parseU32Text p.2 = some s'.params.upstreamTimeout
    else s'.params.upstreamTimeout = s.params.upstreamTimeout
  rrlRps : if p.1 = .rrlRps then parseU32Text p.2 = some s'.params.rrl.responsesPerSecond
    else s'.params.rrl.responsesPerSecond = s.params.rrl.responsesPerSecond
  rrlBurst : if p.1 = .rrlBurst then parseU32Text p.2 = some s'.params.rrl.burst
    else s'.params.rrl.burst = s.params.rrl.burst
  rrlSlip : if p.1 = .rrlSlip then parseU32Text p.2 = some s'.params.rrl.slip
    else s'.params.rrl.slip = s.params.rrl.slip
  rrlOff : if p.1 = .rrlOff then s'.params.rrl.enabled = false
    else s'.params.rrl.enabled = s.params.rrl.enabled

/-- **One setting** sets one part of the state to what its text spells, and leaves the others. -/
lemma GlobalState.sets_of_apply {hk : Hickory} {s s' : GlobalState} {p : GlobalKey × Bytes}
    (h : s.apply hk p = some s') : s.Sets hk s' p := by
  obtain ⟨key, text⟩ := p
  cases key with
  | rrlOff =>
    obtain rfl := Option.some.inj h
    constructor <;> simp
  | primary | hostmaster | ns | outOfZone | rrlSlip =>
    obtain ⟨a, ha, rfl⟩ := Option.map_eq_some_iff.mp h
    constructor <;> simp [ha]
  | ttl | maxUdpPayload | upstreamTimeout | rrlRps | rrlBurst =>
    obtain ⟨n, hn, rfl⟩ := Option.map_eq_some_iff.mp h
    constructor <;> simp [parseU32Text_of_readNumber hn]

/-- A global directive without its provenance. -/
def RawGlobal.setting (g : RawGlobal) : GlobalKey × Bytes := (g.key, g.value.value)

/-- The directive did what the setting does, or there is an error. -/
def Applies (s : GlobalState) : Option GlobalState → GlobalState → Prop
  | some s', out => out = s' ∧ out.errors = s.errors
  | none, out => out.errors ≠ []

/-- Setting to a value that is read from a text. -/
lemma applies_set {α : Type} {s s₀ : GlobalState}
    {value : Except ConfigError α} {read : Option α} (hread : value.toOption = read)
    {assign : α → GlobalState} (hassign : ∀ a, (assign a).errors = s.errors) :
    Applies s (read.map assign) (s₀.set value assign) := by
  subst hread
  cases value with
  | ok a => exact ⟨rfl, hassign a⟩
  | error e =>
    change (_ ++ [e] : List ConfigError) ≠ []
    simp

/-- What a checked number comes to, by its text. -/
lemma toOption_parseChecked_eq (v : RawValue) (what allowed : String) (ok : ℕ → Bool) :
    (parseChecked v what allowed ok).toOption = readNumber ok v.value := by
  unfold parseChecked parseU32 readNumber
  cases parseU32Text v.value with
  | none => rfl
  | some n =>
    simp only [bind, Except.bind, Option.filter]
    split
    · rfl
    · rfl

/-- What a name comes to. -/
lemma toOption_parseName_eq (hk : Hickory) (v : RawValue) (what : String) :
    (parseName hk v what).toOption = hk.fromStrRelaxed v.value := by
  unfold parseName
  split
  · rename_i h
    exact h.symm
  · rename_i h
    exact h.symm

/-- What a number comes to. -/
lemma toOption_parseU32_eq (v : RawValue) (what allowed : String) :
    (parseU32 v what allowed).toOption = parseU32Text v.value := by
  unfold parseU32
  split
  · rename_i h
    exact h.symm
  · rename_i h
    exact h.symm

/-- **One global directive** does what its setting does, or reports an error. -/
lemma compileGlobal_applies (hk : Hickory) (s : GlobalState) (g : RawGlobal) :
    Applies s (s.apply hk g.setting) (compileGlobal hk s g) := by
  obtain ⟨key, v⟩ := g
  unfold compileGlobal GlobalState.apply RawGlobal.setting
  cases key with
  | primary => exact applies_set (toOption_parseName_eq hk v _) fun _ => rfl
  | hostmaster => exact applies_set (toOption_parseName_eq hk v _) fun _ => rfl
  | ns => exact applies_set (toOption_parseName_eq hk v _) fun _ => rfl
  | ttl => exact applies_set (toOption_parseChecked_eq v _ _ _) fun _ => rfl
  | outOfZone =>
    simp only [readPolicy]
    split
    · exact ⟨rfl, rfl⟩
    · split
      · exact ⟨rfl, rfl⟩
      · simp [Applies]
  | maxUdpPayload => exact applies_set (toOption_parseChecked_eq v _ _ _) fun _ => rfl
  | upstreamTimeout => exact applies_set (toOption_parseChecked_eq v _ _ _) fun _ => rfl
  | rrlOff => exact ⟨rfl, rfl⟩
  | rrlRps => exact applies_set (toOption_parseChecked_eq v _ _ _) fun _ => rfl
  | rrlBurst => exact applies_set (toOption_parseChecked_eq v _ _ _) fun _ => rfl
  | rrlSlip => exact applies_set (toOption_parseU32_eq v _ _) fun _ => rfl

/-! ## All settings -/

/-- An error is not taken back. -/
lemma errors_foldl_compileGlobal (hk : Hickory) {gs : List RawGlobal} {s : GlobalState}
    (h : (gs.foldl (compileGlobal hk) s).errors = []) : s.errors = [] := by
  induction gs generalizing s with
  | nil => exact h
  | cons g gs ih =>
    have hstep := ih h
    have happlies := compileGlobal_applies hk s g
    cases hg : s.apply hk g.setting with
    | none => rw [hg] at happlies; exact absurd hstep happlies
    | some s' => rw [hg] at happlies; exact happlies.2.symm.trans hstep

/-- **The loop over the global directives** reports an error, or applies all settings. -/
lemma exec_apply (hk : Hickory) {gs : List RawGlobal} {s : GlobalState}
    (h : (gs.foldl (compileGlobal hk) s).errors = []) :
    Run.exec (GlobalState.apply hk) s (gs.map RawGlobal.setting) =
      some (gs.foldl (compileGlobal hk) s) := by
  induction gs generalizing s with
  | nil => rfl
  | cons g gs ih =>
    have happlies := compileGlobal_applies hk s g
    rw [List.map_cons, Run.exec_cons]
    cases hg : s.apply hk g.setting with
    | none =>
      rw [hg] at happlies
      exact absurd (errors_foldl_compileGlobal hk (s := compileGlobal hk s g) h) happlies
    | some s' =>
      rw [hg] at happlies
      rw [Option.bind_some, ← happlies.1]
      exact ih h

/-- The values of a key. -/
def textsOf (key : GlobalKey) (gs : List (GlobalKey × Bytes)) : List Bytes :=
  gs.flatMap fun p => if p.1 = key then [p.2] else []

/-- A setting holds a value of the key, or does not. -/
lemma textOf_cases {key : GlobalKey} {p : GlobalKey × Bytes} {P : Bytes → Prop} {Q : Prop}
    (h : if p.1 = key then P p.2 else Q) :
    ((if p.1 = key then [p.2] else []) = [] ∧ Q) ∨
      ∃ t, (if p.1 = key then [p.2] else []) = [t] ∧ P t := by
  split at h
  · rename_i heq
    exact .inr ⟨p.2, if_pos heq, h⟩
  · rename_i hne
    exact .inl ⟨if_neg hne, h⟩

/-- A single-valued setting has the value that its one line spells, or the default. -/
def SetTo {α : Type} (read : Bytes → Option α) (texts : List Bytes) (default actual : α) : Prop :=
  (texts = [] ∧ actual = default) ∨ ∃ t, texts = [t] ∧ read t = some actual

/-- **Single-valued settings** have the value of their line. -/
lemma setTo_of_exec {α : Type} {hk : Hickory} {key : GlobalKey} {get : GlobalState → α}
    {read : Bytes → Option α}
    (hstep : ∀ s p s', GlobalState.apply hk s p = some s' →
      if p.1 = key then read p.2 = some (get s') else get s' = get s)
    {gs : List (GlobalKey × Bytes)} {s : GlobalState}
    (hexec : Run.exec (GlobalState.apply hk) {} gs = some s) (honce : (textsOf key gs).length ≤ 1) :
    SetTo read (textsOf key gs) (get {}) (get s) := by
  have hreg := Run.exec_register hexec get (fun p => if p.1 = key then [p.2] else [])
    fun s p s' h => textOf_cases (hstep s p s' h)
  rcases hreg with h | ⟨ws, w, hlast, hmeans⟩
  · exact .inl h
  · change textsOf key gs = ws ++ [w] at hlast
    have hnil : ws = [] := by
      rw [hlast, List.length_append, List.length_singleton] at honce
      exact List.eq_nil_of_length_eq_zero (by omega)
    exact .inr ⟨w, by rw [hlast, hnil, List.nil_append], hmeans⟩

/-- **Every setting is kept**, as the value that its text spells. -/
structure SettingsKept (hk : Hickory) (gs : List (GlobalKey × Bytes)) (ttl : ℕ)
    (soa : Option SoaParams) (nameservers : List Name) (params : ServerParams) : Prop where
  ttl : SetTo parseU32Text (textsOf .ttl gs) defaultTtl ttl
  primary : SetTo (fun t => (hk.fromStrRelaxed t).map some) (textsOf .primary gs) none
    (soa.map SoaParams.primary)
  hostmaster : SetTo (fun t => (hk.fromStrRelaxed t).map some) (textsOf .hostmaster gs) none
    (soa.map SoaParams.hostmaster)
  soa : soa.isSome = true ↔ textsOf .primary gs ≠ [] ∧ textsOf .hostmaster gs ≠ []
  nameservers : nameservers.map some = (textsOf .ns gs).map hk.fromStrRelaxed
  outOfZone : SetTo readPolicy (textsOf .outOfZone gs) .refused params.outOfZone
  maxUdpPayload : SetTo parseU32Text (textsOf .maxUdpPayload gs) 1232 params.maxUdpPayload
  upstreamTimeout : SetTo parseU32Text (textsOf .upstreamTimeout gs) 300 params.upstreamTimeout
  rrlRps : SetTo parseU32Text (textsOf .rrlRps gs) 20 params.rrl.responsesPerSecond
  rrlBurst : SetTo parseU32Text (textsOf .rrlBurst gs) 50 params.rrl.burst
  rrlSlip : SetTo parseU32Text (textsOf .rrlSlip gs) 2 params.rrl.slip
  rrlOff : params.rrl.enabled = false ↔ textsOf .rrlOff gs ≠ []

/-- The keys that may be set more than once: `ns` is a list, and `rrl off` has no value. -/
def GlobalKey.repeatable : GlobalKey → Bool
  | .ns | .rrlOff => true
  | _ => false

/-- Every other key is set at most once. -/
def SetOnce (gs : List (GlobalKey × Bytes)) : Prop :=
  ∀ key : GlobalKey, key.repeatable = false → (textsOf key gs).length ≤ 1

section Exec

variable {hk : Hickory} {gs : List (GlobalKey × Bytes)} {s : GlobalState}
  (hexec : Run.exec (GlobalState.apply hk) {} gs = some s)

include hexec

/-- The name servers are those of the `ns` lines, in order. -/
lemma nameservers_of_exec : s.nameservers.map some = (textsOf .ns gs).map hk.fromStrRelaxed := by
  have hlog := Run.exec_log hexec (fun s : GlobalState => s.nameservers.map some)
    fun _ _ _ h => (GlobalState.sets_of_apply h).nameservers
  rw [hlog, textsOf, List.map_flatMap]
  apply congrArg (List.flatMap · gs)
  funext p
  split
  · rfl
  · rfl

/-- The limiter is off iff some line says so. -/
lemma enabled_of_exec : s.params.rrl.enabled = false ↔ textsOf .rrlOff gs ≠ [] := by
  have hreg := Run.exec_register hexec (fun s : GlobalState => s.params.rrl.enabled)
    (fun p => if p.1 = .rrlOff then [p.2] else []) fun _ _ _ h =>
    textOf_cases (P := fun _ => some false = some _)
      (by simpa using (GlobalState.sets_of_apply h).rrlOff)
  rcases hreg with ⟨hnil, hget⟩ | ⟨ws, w, hlast, hget⟩
  · change textsOf .rrlOff gs = [] at hnil
    simp [hget, hnil]
  · change textsOf .rrlOff gs = ws ++ [w] at hlast
    simp [hlast, ← Option.some.inj hget]

/-- The run keeps every setting, if the zone of authority is what the two names make. -/
lemma settingsKept_of_exec (honce : SetOnce gs) {soa : Option SoaParams}
    (hprimary : soa.map SoaParams.primary = s.primary)
    (hhostmaster : soa.map SoaParams.hostmaster = s.hostmaster) :
    SettingsKept hk gs s.ttl soa s.nameservers s.params := by
  have hsets : ∀ {s p s'}, GlobalState.apply hk s p = some s' → s.Sets hk s' p :=
    GlobalState.sets_of_apply
  have hp : SetTo (fun t => (hk.fromStrRelaxed t).map some) (textsOf .primary gs) none s.primary :=
    setTo_of_exec (fun _ _ _ h => (hsets h).primary) hexec (honce .primary rfl)
  have hh : SetTo (fun t => (hk.fromStrRelaxed t).map some) (textsOf .hostmaster gs) none
      s.hostmaster :=
    setTo_of_exec (fun _ _ _ h => (hsets h).hostmaster) hexec (honce .hostmaster rfl)
  -- a name is set iff it has a line
  have hsome : ∀ {texts : List Bytes} {n : Option Name},
      SetTo (fun t => (hk.fromStrRelaxed t).map some) texts none n →
        (n.isSome = true ↔ texts ≠ []) := by
    rintro texts n (⟨rfl, rfl⟩ | ⟨t, rfl, ht⟩)
    · simp
    · obtain ⟨m, -, rfl⟩ := Option.map_eq_some_iff.mp ht
      simp
  refine ⟨?_, hprimary ▸ hp, hhostmaster ▸ hh, ?_, nameservers_of_exec hexec, ?_, ?_, ?_, ?_, ?_,
    ?_, enabled_of_exec hexec⟩
  · exact setTo_of_exec (fun _ _ _ h => (hsets h).ttl) hexec (honce .ttl rfl)
  · rw [← hsome hp, ← hsome hh, ← hprimary, ← hhostmaster]
    simp
  · exact setTo_of_exec (fun _ _ _ h => (hsets h).outOfZone) hexec (honce .outOfZone rfl)
  · exact setTo_of_exec (fun _ _ _ h => (hsets h).maxUdpPayload) hexec (honce .maxUdpPayload rfl)
  · exact setTo_of_exec (fun _ _ _ h => (hsets h).upstreamTimeout) hexec
      (honce .upstreamTimeout rfl)
  · exact setTo_of_exec (fun _ _ _ h => (hsets h).rrlRps) hexec (honce .rrlRps rfl)
  · exact setTo_of_exec (fun _ _ _ h => (hsets h).rrlBurst) hexec (honce .rrlBurst rfl)
  · exact setTo_of_exec (fun _ _ _ h => (hsets h).rrlSlip) hexec (honce .rrlSlip rfl)

end Exec

/-- **Without an error, every setting is kept.** -/
lemma compileGlobals_kept {hk : Hickory} {raw : RawConfig}
    (honce : SetOnce (raw.globals.map RawGlobal.setting))
    (h : (compileGlobals hk raw).errors = []) :
    SettingsKept hk (raw.globals.map RawGlobal.setting) (compileGlobals hk raw).ttl
      (compileGlobals hk raw).soa (compileGlobals hk raw).nameservers
      (compileGlobals hk raw).params := by
  unfold compileGlobals at h ⊢
  simp only at h ⊢
  cases hsoa : compileSoa raw (raw.globals.foldl (compileGlobal hk) {}).primary
      (raw.globals.foldl (compileGlobal hk) {}).hostmaster with
  | error e => simp [hsoa] at h
  | ok soa =>
    simp only [hsoa] at h ⊢
    have hexec := exec_apply hk h
    generalize raw.globals.foldl (compileGlobal hk) {} = s at h hsoa hexec ⊢
    unfold compileSoa at hsoa
    split at hsoa
    · rename_i n m hn hm
      obtain rfl := Except.ok.inj hsoa
      exact settingsKept_of_exec hexec honce hn.symm hm.symm
    · simp at hsoa
    · simp at hsoa
    · rename_i hn hm
      obtain rfl := Except.ok.inj hsoa
      exact settingsKept_of_exec hexec honce hn.symm hm.symm

end PanoptiDns
