import PanoptiDns.Config.Keywords
import PanoptiDns.Config.Settings

set_option relaxedAutoImplicit false
set_option autoImplicit false

/-!
# What is in a file is in the configuration

Nothing in an accepted file is dropped, or read as part of the wrong block. The lines are all
recognised; the outline of the file collects their values, section by section; and compilation
makes something of each value or reports an error.

## Main definitions

* `valuesOf` — the values of the lines of one kind.
* `SectionSays`, `SectionMakes` — what the lines of a section say, and the zone that they make.
* `Kept` — compilation has dropped nothing of a file.
* `Contents` — the configuration is what the lines of the file say.

## Main results

* `compile_kept` — compilation drops something only with an error.
* `parse_contents` — an accepted file is all in its configuration.
-/

namespace PanoptiDns

open Bytes

/-! ## The values of the lines -/

namespace Entry

/-- The `network` values of an entry. -/
def networks : Entry → List Bytes
  | .network value => [value]
  | _ => []

/-- The `resolves to` values of an entry. -/
def resolvesTos : Entry → List Bytes
  | .resolvesTo value => [value]
  | _ => []

/-- The `with upstream` values of an entry. -/
def upstreams : Entry → List Bytes
  | .upstream value => [value]
  | _ => []

/-- The settings of an entry; a flag has no value. -/
def settings : Entry → List (GlobalKey × Bytes)
  | .flag key => [(key, [])]
  | .setting key value => [(key, value)]
  | _ => []

end Entry

/-- The values of the lines of one kind, in file order. -/
def valuesOf {α : Type} (kind : Entry → List α) (ls : List Bytes) : List α :=
  ls.flatMap fun raw => kind (readLine raw)

/-- The lines of a section say what is in a block. -/
structure SectionSays (ls : List Bytes) (b : Block) : Prop where
  network : valuesOf Entry.networks ls = [b.network]
  resolvesTo : valuesOf Entry.resolvesTos ls = b.resolvesTo.toList
  upstream : valuesOf Entry.upstreams ls = b.upstream.toList

/-- An entry that a block takes says nothing else. -/
lemma Block.add_eq_some {b b' : Block} {e : Entry} (h : b.add e = some b') :
    [b'.network] = [b.network] ++ e.networks ∧
      b'.resolvesTo.toList = b.resolvesTo.toList ++ e.resolvesTos ∧
      b'.upstream.toList = b.upstream.toList ++ e.upstreams ∧ e.settings = [] := by
  cases e with
  | blank | listen v =>
    obtain rfl := Option.some.inj h
    simp [Entry.networks, Entry.resolvesTos, Entry.upstreams, Entry.settings]
  | resolvesTo v =>
    obtain ⟨hnone, hb⟩ := Option.ite_none_right_eq_some.mp h
    obtain rfl := Option.some.inj hb
    simp [hnone, Entry.networks, Entry.resolvesTos, Entry.upstreams, Entry.settings]
  | upstream v =>
    obtain ⟨hnone, hb⟩ := Option.ite_none_right_eq_some.mp h
    obtain rfl := Option.some.inj hb
    simp [hnone, Entry.networks, Entry.resolvesTos, Entry.upstreams, Entry.settings]
  | bad | network v | flag key | setting key v => simp [Block.add] at h

/-- **A section is read** as its block, and has no settings. -/
lemma sectionSays_of_blockOf {ls : List Bytes} {b : Block}
    (h : blockOf (ls.map readLine) = some b) :
    SectionSays ls b ∧ valuesOf Entry.settings ls = [] := by
  have hvalues : ∀ {α : Type} (kind : Entry → List α),
      valuesOf kind ls = (ls.map readLine).flatMap kind := fun kind => by
    rw [valuesOf, List.flatMap_map]
  have hsays : ∀ es, blockOf es = some b → es.flatMap Entry.networks = [b.network] ∧
      es.flatMap Entry.resolvesTos = b.resolvesTo.toList ∧
      es.flatMap Entry.upstreams = b.upstream.toList ∧ es.flatMap Entry.settings = [] := by
    intro es hes
    unfold blockOf at hes
    split at hes
    · rename_i v es
      have hnetwork := Run.exec_log hes (fun b => [b.network])
        fun _ _ _ h => (Block.add_eq_some h).1
      have hto := Run.exec_log hes (fun b => b.resolvesTo.toList)
        fun _ _ _ h => (Block.add_eq_some h).2.1
      have hup := Run.exec_log hes (fun b => b.upstream.toList)
        fun _ _ _ h => (Block.add_eq_some h).2.2.1
      have hsettings := Run.exec_forall hes fun _ _ _ h => (Block.add_eq_some h).2.2.2
      refine ⟨hnetwork.symm, hto.symm, hup.symm, ?_⟩
      rw [List.flatMap_cons, List.flatMap_eq_nil_iff.mpr hsettings]
      rfl
    · simp at hes
  obtain ⟨hnetwork, hto, hup, hsettings⟩ := hsays _ h
  exact ⟨⟨(hvalues _).trans hnetwork, (hvalues _).trans hto, (hvalues _).trans hup⟩,
    (hvalues _).trans hsettings⟩

/-- An entry that an outline takes is not bad, and its `listen` value or setting is added. -/
lemma Outline.add_eq_some {o o' : Outline} {e : Entry} (h : o.add e = some o') :
    o'.listen = o.listen ++ e.listens ∧ o'.globals = o.globals ++ e.settings ∧ e ≠ .bad := by
  unfold Outline.add at h
  split at h
  · obtain rfl := Option.some.inj h
    simp [Entry.listens, Entry.settings]
  split at h
  · cases e with
    | blank | listen v | flag key =>
      obtain rfl := Option.some.inj h
      simp [Entry.listens, Entry.settings]
    | setting key v =>
      obtain ⟨-, ho⟩ := Option.ite_none_left_eq_some.mp h
      obtain rfl := Option.some.inj ho
      simp [Entry.listens, Entry.settings]
    | bad | network v | resolvesTo v | upstream v => simp [Outline.addGlobal] at h
  · obtain ⟨b', hb, rfl⟩ := Option.map_eq_some_iff.mp h
    refine ⟨rfl, by simp [(Block.add_eq_some hb).2.2.2], ?_⟩
    rintro rfl
    simp [Block.add] at hb

/-- Before the first `network`, an entry opens no block and is not part of one. -/
lemma Outline.add_of_nil {o o' : Outline} {e : Entry} (ho : o.blocks = [])
    (he : e.isNetwork = false) (h : o.add e = some o') : o'.blocks = [] ∧ e.isZone = false := by
  cases e with
  | network v => simp [Entry.isNetwork] at he
  | blank =>
    simp only [Outline.add, ho, List.getLast?_nil, Outline.addGlobal, Option.some.injEq] at h
    exact ⟨h ▸ ho, rfl⟩
  | listen v | flag key =>
    simp only [Outline.add, ho, List.getLast?_nil, Outline.addGlobal, Option.some.injEq] at h
    exact ⟨h ▸ rfl, rfl⟩
  | setting key v =>
    simp only [Outline.add, ho, List.getLast?_nil, Outline.addGlobal,
      Option.ite_none_left_eq_some, Option.some.injEq] at h
    exact ⟨h.2 ▸ rfl, rfl⟩
  | bad | resolvesTo v | upstream v =>
    simp [Outline.add, ho, Outline.addGlobal] at h

/-- Before the first `network`, no block is opened, and no entry is for one. -/
lemma exec_of_nil {es : List Entry} (hes : ∀ e ∈ es, e.isNetwork = false) {o o' : Outline}
    (ho : o.blocks = []) (h : Run.exec Outline.add o es = some o') :
    o'.blocks = [] ∧ ∀ e ∈ es, e.isZone = false := by
  induction es generalizing o with
  | nil =>
    obtain rfl := Option.some.inj h
    exact ⟨ho, by simp⟩
  | cons e es ih =>
    obtain ⟨o₁, h₁, hrest⟩ := Option.bind_eq_some_iff.mp h
    obtain ⟨hblocks, he⟩ := Outline.add_of_nil ho (hes e (by simp)) h₁
    obtain ⟨hout, hall⟩ := ih (fun e' he' => hes e' (by simp [he'])) hblocks hrest
    exact ⟨hout, List.forall_mem_cons.mpr ⟨he, hall⟩⟩

/-- The line is a global one. -/
def isGlobalLine (raw : Bytes) : Bool := !(readLine raw).settings.isEmpty

/-- **An outline collects the lines**: every line is recognised, the values are in file order, each
section is a block, and the lines of blocks and the global lines are where they belong. -/
structure Collects (input : Bytes) (o : Outline) : Prop where
  recognised : ∀ raw ∈ fileLines input, readLine raw ≠ .bad
  listen : o.listen = valuesOf Entry.listens (fileLines input)
  globals : o.globals = valuesOf Entry.settings (fileLines input)
  blocks : List.Forall₂ SectionSays (sectionLines input) o.blocks
  header : ∀ raw ∈ headerLines input, isZoneLine raw = false
  sections : ∀ ls ∈ sectionLines input, valuesOf Entry.settings ls = []

/-- The outline of a text collects its values. -/
lemma collects_of_outline {input : Bytes} {o : Outline} (h : outline (fileLines input) = some o) :
    Collects input o := by
  have hlisten := Run.exec_log h Outline.listen fun _ _ _ h => (Outline.add_eq_some h).1
  have hglobals := Run.exec_log h Outline.globals fun _ _ _ h => (Outline.add_eq_some h).2.1
  have hgood := Run.exec_forall h fun _ _ _ h => (Outline.add_eq_some h).2.2
  obtain ⟨o₀, h₀, bs, hall, rfl⟩ := exec_eq_some_iff.mp h
  obtain ⟨hnil, hheader⟩ := exec_of_nil
    (fun e he => Sections.opens_of_mem_preamble Entry.isNetwork he) rfl h₀
  have hsec : Sections.sections Entry.isNetwork ((fileLines input).map readLine) =
      (sectionLines input).map (List.map readLine) := Sections.sections_map _ _ _
  have hpre : Sections.preamble Entry.isNetwork ((fileLines input).map readLine) =
      (headerLines input).map readLine := Sections.preamble_map _ _ _
  rw [hsec, List.forall₂_map_left_iff] at hall
  rw [hpre, List.forall_mem_map] at hheader
  refine ⟨fun raw hraw => hgood _ (List.mem_map_of_mem hraw), ?_, ?_, ?_, hheader, ?_⟩
  · rw [hlisten, valuesOf, List.flatMap_map]
    rfl
  · rw [hglobals, valuesOf, List.flatMap_map]
    rfl
  · change List.Forall₂ SectionSays (sectionLines input) (o₀.blocks ++ bs)
    rw [hnil, List.nil_append]
    exact hall.imp fun ls b hb => (sectionSays_of_blockOf hb).1
  · intro ls hls
    obtain ⟨b, -, hb⟩ := exists_of_forall₂_right hall.flip hls
    exact (sectionSays_of_blockOf hb).2

/-! ## What one line does to the file -/

/-- The number of a `network` line. -/
def Scanned.networkLines : Scanned → List ℕ
  | .directive d v => if d.target = .network then [v.line] else []
  | _ => []

/-- A line adds nothing, a global directive, a `listen` value, a block, or a value to the last
block. -/
inductive Places (cfg : RawConfig) (x : Scanned) : RawConfig → Prop
  | nothing (h : x.networkLines = []) : Places cfg x cfg
  | setting (g : RawGlobal) (h : x.networkLines = [])
      (hnew : g.key.repeatable = true ∨ ∀ g' ∈ cfg.globals, g'.key ≠ g.key) :
      Places cfg x { cfg with globals := cfg.globals ++ [g] }
  | listen (v : RawValue) (h : x.networkLines = []) :
      Places cfg x { cfg with listen := cfg.listen ++ [v] }
  | block (v : RawValue) (h : x.networkLines = [v.line]) :
      Places cfg x { cfg with zones := cfg.zones ++ [⟨v, none, none⟩] }
  | value (zone zone' : RawZone) (h : x.networkLines = []) (hlast : cfg.zones.getLast? = some zone)
      (hnetwork : zone'.network = zone.network) :
      Places cfg x { cfg with zones := cfg.zones.dropLast ++ [zone'] }

/-- A value for the last block: the slot is filled, or nothing is added. -/
lemma places_fillSlot {s : ParseState} {x : Scanned} (hx : x.networkLines = []) (display : String)
    (v : RawValue) (slot : RawZone → Option RawValue) {fill : RawZone → RawValue → RawZone}
    (hfill : ∀ zone v, (fill zone v).network = zone.network) :
    Places s.cfg x (match s.cfg.zones.getLast? with
      | none => s
      | some zone =>
        match fillSlot display v (slot zone) with
        | .error e => s.push e
        | .ok v => { s with cfg.zones := s.cfg.zones.dropLast ++ [fill zone v] }).cfg := by
  split
  · exact .nothing hx
  · rename_i zone hlast
    split
    · exact .nothing hx
    · exact .value zone _ hx hlast (hfill zone _)

/-- **A value** that is in its scope. -/
lemma file_places (s : ParseState) (d : Directive) (v : RawValue) :
    Places s.cfg (.directive d v) (file d v s).cfg := by
  have hlines : (Scanned.directive d v).networkLines =
      if d.target = .network then [v.line] else [] := rfl
  unfold file
  cases htarget : d.target with
  | listen => exact .listen v (by simp [hlines, htarget])
  | network => exact .block v (by simp [hlines, htarget])
  | resolvesTo =>
    exact places_fillSlot (by simp [hlines, htarget]) d.display v RawZone.resolvesTo fun _ _ => rfl
  | upstream =>
    exact places_fillSlot (by simp [hlines, htarget]) d.display v RawZone.upstream fun _ _ => rfl
  | global key =>
    have hnone : (Scanned.directive d v).networkLines = [] := by simp [hlines, htarget]
    simp only
    split
    · exact .nothing hnone
    · rename_i hfirst
      refine .setting ⟨key, v⟩ hnone ?_
      split at hfirst
      · rename_i hns
        exact .inl (by rw [hns]; rfl)
      · right
        intro g hg
        simpa using List.find?_eq_none.mp hfirst g hg

/-- **One line**, whatever came before it. -/
lemma place_places {s : ParseState} {x : Scanned} (hx : x.Listed)
    (hflag : ∀ f v, x = .flag f v → f ∈ flags) : Places s.cfg x (place s x).cfg := by
  cases x with
  | blank => exact .nothing rfl
  | bad e => exact .nothing rfl
  | flag f v =>
    rw [place]
    split
    · exact .nothing rfl
    · have hkey : ∀ f ∈ flags, f.key.repeatable = true := by decide
      exact .setting ⟨f.key, v⟩ rfl (.inl (hkey f (hflag f v rfl)))
  | directive d v =>
    -- a `network` line is in its scope anywhere
    have hnone : d.scope ≠ .anywhere → (Scanned.directive d v).networkLines = [] := by
      rw [scope_of_mem_directives (hx.directive d v rfl)]
      intro hscope
      refine if_neg fun htarget => hscope ?_
      rw [htarget]
      rfl
    rw [place]
    split
    · rename_i hscope _
      exact .nothing (hnone (by simp [hscope]))
    · rename_i hscope _
      exact .nothing (hnone (by simp [hscope]))
    · exact file_places s d v

namespace Places

variable {cfg cfg' : RawConfig} {x : Scanned} (h : Places cfg x cfg')

include h

/-- The blocks stand at the `network` lines. -/
lemma networkLines : cfg'.zones.map (·.network.line) =
    cfg.zones.map (·.network.line) ++ x.networkLines := by
  cases h with
  | nothing h | setting g h hnew | listen v h => rw [h, List.append_nil]
  | block v h => rw [h, List.map_append]; rfl
  | value zone zone' h hlast hnetwork =>
    have hzones := List.dropLast_append_getLast? zone hlast
    rw [h, List.append_nil]
    conv_rhs => rw [← hzones]
    rw [List.map_append, List.map_append, List.map_singleton, List.map_singleton, hnetwork]

/-- Only a repeatable key is set again. -/
lemma setOnce (honce : SetOnce (cfg.globals.map RawGlobal.setting)) :
    SetOnce (cfg'.globals.map RawGlobal.setting) := by
  cases h with
  | nothing h | listen v h | block v h | value zone zone' h hlast hnetwork => exact honce
  | setting g h hnew =>
    intro key hkey
    have hadd : textsOf key ((cfg.globals ++ [g]).map RawGlobal.setting) =
        textsOf key (cfg.globals.map RawGlobal.setting) ++
          if g.key = key then [g.value.value] else [] := by
      simp [textsOf, RawGlobal.setting]
    rw [hadd]
    by_cases heq : g.key = key
    · have hnil : textsOf key (cfg.globals.map RawGlobal.setting) = [] := by
        apply List.flatMap_eq_nil_iff.mpr
        intro p hp
        obtain ⟨g', hg', rfl⟩ := List.mem_map.mp hp
        rcases hnew with hrep | hnew
        · rw [heq, hkey] at hrep
          simp at hrep
        · exact if_neg fun h => hnew g' hg' (h.trans heq.symm)
      simp [hnil, heq]
    · simpa [heq] using honce key hkey

end Places

/-- A flag that was scanned is one of the flags. -/
lemma scanLine_flag {n : ℕ} {raw : Bytes} {f : Flag} {v : RawValue}
    (h : scanLine n raw = .flag f v) : f ∈ flags := by
  have hscans := scanLine_scans n raw
  rw [h] at hscans
  cases hscans with
  | flag _ _ hf => exact hf

/-- A value knows the line it was scanned from. -/
lemma scanLine_line {n : ℕ} {raw : Bytes} {d : Directive} {v : RawValue}
    (h : scanLine n raw = .directive d v) : v.line = n := by
  have hscans := scanLine_scans n raw
  rw [h] at hscans
  cases hscans with
  | directive => rfl

/-- A line opens a block iff it says so. -/
lemma networkLines_scanLine (n : ℕ) (raw : Bytes) :
    (scanLine n raw).networkLines = if isNetworkLine raw then [n] else [] := by
  rw [isNetworkLine, ← entry_scanLine n]
  cases hx : scanLine n raw with
  | directive d v =>
    rw [← scanLine_line hx]
    cases htarget : d.target <;>
      simp [Scanned.networkLines, Scanned.entry, htarget, Target.entry, Entry.isNetwork]
  | _ => rfl

/-- The numbers of the `network` lines. -/
def networkLineNos (input : Bytes) : List ℕ :=
  (fileLines input).zipIdx.flatMap fun p => if isNetworkLine p.1 then [lineNo p.2] else []

/-- **Of every file**, accepted or not, the parser keeps all `network` lines, and no global value
twice. -/
lemma parse_keeps (input : Bytes) :
    (parse input).cfg.zones.map (·.network.line) = networkLineNos input ∧
      SetOnce ((parse input).cfg.globals.map RawGlobal.setting) := by
  have hloop : ∀ xs : List Scanned, (∀ x ∈ xs, x ∈ scannedLines input) → ∀ s : ParseState,
      SetOnce (s.cfg.globals.map RawGlobal.setting) →
        (xs.foldl place s).cfg.zones.map (·.network.line) =
          s.cfg.zones.map (·.network.line) ++ xs.flatMap Scanned.networkLines ∧
        SetOnce ((xs.foldl place s).cfg.globals.map RawGlobal.setting) := by
    intro xs
    induction xs with
    | nil => exact fun _ s hs => ⟨by simp, hs⟩
    | cons x xs ih =>
      intro hxs s hs
      have hx := hxs x (by simp)
      have hplaces : Places s.cfg x (place s x).cfg := by
        apply place_places (listed_of_mem_scannedLines hx)
        intro f v hf
        obtain ⟨p, -, hp⟩ := List.mem_map.mp hx
        exact scanLine_flag (hp.trans hf)
      obtain ⟨hlines, honce⟩ :=
        ih (fun y hy => hxs y (by simp [hy])) (place s x) (hplaces.setOnce hs)
      refine ⟨?_, honce⟩
      rw [List.foldl_cons, hlines, hplaces.networkLines, List.flatMap_cons, List.append_assoc]
  obtain ⟨hlines, honce⟩ := hloop _ (fun x hx => hx) {} fun key _ => by simp [textsOf]
  rw [← parse_eq_foldl] at hlines honce
  refine ⟨?_, honce⟩
  rw [hlines, scannedLines, List.flatMap_map, networkLineNos]
  simp only [networkLines_scanLine]
  rfl

/-! ## Nothing is dropped in compilation -/

/-- The address of a `listen` line. -/
def listenAddr (text : Bytes) : Option ListenAddr :=
  match SocketAddr.fromStr text with
  | some sock => some ⟨sock.ip, sock.port⟩
  | none => (IpAddr.fromStr text).map fun addr => ⟨addr, defaultPort⟩

/-- An accepted `listen` value has the address its text denotes. -/
lemma listenAddr_of_compileListen {v : RawValue} {a : ListenAddr} (h : compileListen v = .ok a) :
    listenAddr v.value = some a := by
  unfold compileListen at h
  unfold listenAddr
  cases hsock : SocketAddr.fromStr v.value with
  | some sock =>
    rw [hsock] at h
    exact congrArg some (Except.ok.inj h)
  | none =>
    rw [hsock] at h
    cases haddr : IpAddr.fromStr v.value with
    | some addr =>
      rw [haddr] at h
      exact congrArg some (Except.ok.inj h)
    | none =>
      rw [haddr] at h
      cases h

/-- **Compilation has dropped nothing**: every `listen` value is an address of the configuration,
every block a zone of it, and every setting is kept. -/
structure Kept (hk : Hickory) (raw : RawConfig) (c : Config) : Prop where
  listen : (raw.listen.map RawValue.value).map listenAddr = c.listen.map some
  blocks : ∃ zs ttl, List.Forall₂ (Compiles hk) raw.zones zs ∧
    c.zones.Perm (zs.map (Zone.withTtl ttl)) ∧
    SettingsKept hk (raw.globals.map RawGlobal.setting) ttl c.soa c.nameservers c.params

/-- **Without an error, nothing is dropped.** -/
lemma compile_kept {hk : Hickory} {raw : RawConfig}
    (honce : SetOnce (raw.globals.map RawGlobal.setting)) (h : (compile hk raw).2 = []) :
    Kept hk raw (compile hk raw).1 := by
  obtain ⟨⟨hlisten, hglobals⟩, hzones⟩ : ((compileListens raw.listen).2 = [] ∧
      (compileGlobals hk raw).errors = []) ∧
      (compileZones hk (compileGlobals hk raw).ttl raw.zones {}).2 = [] := by
    simpa [compile, List.append_eq_nil_iff, and_assoc] using h
  constructor
  · have hall := compileListens_eq_iff.mp (Prod.ext rfl hlisten)
    rw [List.map_map]
    change _ = List.map some (compileListens raw.listen).1
    rw [← List.forall₂_eq_eq_eq, List.forall₂_map_left_iff, List.forall₂_map_right_iff]
    exact hall.imp fun v a hva => listenAddr_of_compileListen hva
  · obtain ⟨zs, hall, -, -, hout⟩ := compileZones_eq_iff.mp (Prod.ext rfl hzones)
    refine ⟨zs, (compileGlobals hk raw).ttl, hall, ?_, compileGlobals_kept honce hglobals⟩
    rw [← hout]
    exact sortByMask_perm _

/-! ## The contents of an accepted file -/

/-- The lines from a `network` line to the next make the zone: with one `resolves to` among them,
and at most one `with upstream`. -/
structure SectionMakes (hk : Hickory) (ls : List Bytes) (z : Zone) : Prop where
  resolvesTo : valuesOf Entry.resolvesTos ls = [z.resolvesTo]
  upstream : (valuesOf Entry.upstreams ls).length ≤ 1
  compiles : ∃ raw : RawZone, SectionSays ls raw.block ∧ Compiles hk raw (z.withTtl defaultTtl)

/-- **What the lines of a file say** is the configuration, all of it and nothing else. -/
structure Contents (hk : Hickory) (input : Bytes) (c : Config) : Prop where
  lines : ∀ raw ∈ fileLines input, (IsBlank raw ∧ readLine raw = .blank) ∨
    ∃ k ∈ keywords, k.read (trimStart raw) = some (readLine raw) ∧
      ∀ k' ∈ keywords, (k'.read (trimStart raw)).isSome = true → k' = k
  header : ∀ raw ∈ headerLines input, isZoneLine raw = false
  globalsFirst : (fileLines input).Pairwise fun raw raw' =>
    isNetworkLine raw = true → isGlobalLine raw' = false
  zones : ∃ zs, List.Forall₂ (SectionMakes hk) (sectionLines input) zs ∧
    zs.map Zone.srcLine = networkLineNos input ∧ c.zones.Perm zs
  listen : (valuesOf Entry.listens (fileLines input)).map listenAddr = c.listen.map some
  settings : ∃ ttl, (∀ z ∈ c.zones, z.ttl = ttl) ∧
    SettingsKept hk (valuesOf Entry.settings (fileLines input)) ttl c.soa c.nameservers c.params

/-- Lists related elementwise to the same list are related to each other. -/
lemma forall₂_comp {α β γ : Type} {R : α → β → Prop} {S : β → γ → Prop} {T : α → γ → Prop}
    {as : List α} {bs : List β} {cs : List γ} (hR : List.Forall₂ R as bs)
    (hS : List.Forall₂ S bs cs) (h : ∀ a b c, R a b → S b c → T a c) : List.Forall₂ T as cs := by
  induction hR generalizing cs with
  | nil =>
    cases hS
    exact .nil
  | cons hab _ ih =>
    cases hS with
    | cons hbc hS => exact .cons (h _ _ _ hab hbc) (ih hS)

/-- A block that compiles was a section with the lines for it. -/
lemma sectionMakes_of_compiles {hk : Hickory} {ls : List Bytes} {raw : RawZone} {z : Zone}
    (hls : SectionSays ls raw.block) (hz : Compiles hk raw z) (ttl : ℕ) :
    SectionMakes hk ls (z.withTtl ttl) := by
  obtain ⟨v, hv, hvalue, -⟩ := hz.template
  have hdefault : (z.withTtl ttl).withTtl defaultTtl = z := by
    rw [← hz.ttl]
    rfl
  refine ⟨?_, ?_, raw, hls, by rwa [hdefault]⟩
  · rw [hls.resolvesTo, RawZone.block, hv, Option.map_some, Option.toList_some, hvalue]
    rfl
  · rw [hls.upstream]
    cases raw.block.upstream with
    | none => simp
    | some u => simp

/-- The global lines come first, if no section has one. -/
lemma pairwise_of_collects {input : Bytes} {o : Outline} (h : Collects input o) :
    (fileLines input).Pairwise fun raw raw' =>
      isNetworkLine raw = true → isGlobalLine raw' = false := by
  have hheader : ∀ raw ∈ headerLines input, isNetworkLine raw = false :=
    fun raw hraw => Sections.opens_of_mem_preamble isNetworkLine hraw
  have hsections : ∀ raw ∈ (sectionLines input).flatten, isGlobalLine raw = false := by
    intro raw hraw
    obtain ⟨ls, hls, hmem⟩ := List.mem_flatten.mp hraw
    have := List.flatMap_eq_nil_iff.mp (h.sections ls hls) raw hmem
    simp [isGlobalLine, this]
  rw [← Sections.preamble_append_flatten isNetworkLine (fileLines input), List.pairwise_append]
  refine ⟨?_, ?_, ?_⟩
  · apply List.pairwise_of_forall_mem_list
    intro raw hraw raw' _ hnetwork
    rw [hheader raw hraw] at hnetwork
    simp at hnetwork
  · exact List.pairwise_of_forall_mem_list fun _ _ raw' hraw' _ => hsections raw' hraw'
  · exact fun _ _ raw' hraw' _ => hsections raw' hraw'

/-- **An accepted file is all in its configuration**, and whenever compilation drops a zone or a
value it reports an error.

**Proof sketch.** The parser has collected the outline of the lines, and compilation has kept it:
each section is read as its block, and each block is compiled to its zone. -/
theorem parse_contents (hk : Hickory) (input : Bytes) :
    (∀ c, Config.parse hk input = .ok c → Contents hk input c) ∧
      (¬Kept hk (parse input).cfg (compile hk (parse input).cfg).1 →
        (compile hk (parse input).cfg).2 ≠ []) := by
  obtain ⟨hlines, honce⟩ := parse_keeps input
  refine ⟨?_, fun hnot herr => hnot (compile_kept honce herr)⟩
  intro c hc
  unfold Config.parse at hc
  simp only [List.isEmpty_iff, List.append_eq_nil_iff] at hc
  split at hc
  · rename_i herr
    obtain rfl := Except.ok.inj hc
    obtain ⟨hlisten, zs, ttl, hzs, hperm, hsettings⟩ := compile_kept honce herr.2
    have hcollects := collects_of_outline (parse_outline.mp ⟨herr.1, rfl⟩)
    have hmakes : List.Forall₂ (SectionMakes hk) (sectionLines input)
        (zs.map (Zone.withTtl ttl)) := by
      rw [List.forall₂_map_right_iff]
      have hblocks := hcollects.blocks
      rw [RawConfig.outline, List.forall₂_map_right_iff] at hblocks
      exact forall₂_comp hblocks hzs fun ls raw z hls hz => sectionMakes_of_compiles hls hz ttl
    refine ⟨?_, hcollects.header, pairwise_of_collects hcollects, ⟨_, hmakes, ?_, hperm⟩, ?_, ttl,
      ?_, ?_⟩
    · intro raw hraw
      refine (exists_keyword (hcollects.recognised raw hraw)).imp_right ?_
      rintro ⟨-, k, hk, hread⟩
      refine ⟨k, hk, hread, ?_⟩
      intro k' hk' hsome
      obtain ⟨e, he⟩ := Option.isSome_iff_exists.mp hsome
      exact Keyword.eq_of_read hk' hk he hread
    · rw [← hlines, List.map_map, ← List.forall₂_eq_eq_eq, List.forall₂_map_left_iff,
        List.forall₂_map_right_iff]
      exact hzs.flip.imp fun z raw hz => hz.srcLine
    · rw [← hcollects.listen]
      exact hlisten
    · intro z hz
      obtain ⟨w, -, rfl⟩ := List.mem_map.mp (hperm.mem_iff.mp hz)
      rfl
    · rw [← hcollects.globals]
      exact hsettings
  · simp at hc

/-- A file with settings, a comment and two blocks. -/
def settingsInput : Bytes := ofString "# authority
primary ns1.example.net
hostmaster hostmaster.example.net
ns ns1.example.net
ns ns2.example.net
TTL 60
rrl   off
network 2001:db8::/32
    resolves to %DIGITS%.example.net
listen 127.0.0.1
network 2001:db8:0:42::/64
    with upstream 2001:db8::53
    resolves to %DIGITS%.lan.example.net
"

/-- A file whose one value is not an address. -/
def nowhereInput : Bytes := ofString "listen nowhere"

/-- The contents of a file with settings, and the rejection of one without a valid address. -/
theorem parse_contents_settingsInput :
    Contents plainHickory settingsInput (plainlyParsed settingsInput) ∧
      (compile plainHickory (parse nowhereInput).cfg).2 ≠ [] := by
  refine ⟨(parse_contents plainHickory settingsInput).1 _ (by decide +kernel), ?_⟩
  apply (parse_contents plainHickory nowhereInput).2
  intro hkept
  have hlisten := hkept.listen
  revert hlisten
  decide +kernel

end PanoptiDns
