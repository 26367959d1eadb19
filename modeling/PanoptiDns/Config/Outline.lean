import PanoptiDns.Lib.Run
import PanoptiDns.Lib.Sections
import PanoptiDns.Config.Parse

set_option relaxedAutoImplicit false
set_option autoImplicit false

/-!
# The outline of a file

What a configuration file says, without where it says it. The parser keeps with every value the
line it stands on, for its diagnostics; whether a file is well-formed, and what is in it, does
not depend on that. Here the lines are read as entries, and the entries are collected into an
outline: a preamble of settings, and blocks.

## Main definitions

* `Entry`, `readLine` — what a line says.
* `Outline`, `Outline.add`, `outline` — the settings and the blocks of a file.
* `BlocksPermuted` — the same file with its blocks in another order.

## Main results

* `parse_outline` — the parser reports no error iff the file has an outline, and then it has
  collected that.
* `exec_eq_some_iff` — an outline, section by section.
* `outline_of_permuted` — blocks in another order are collected in another order.
-/

namespace PanoptiDns

open Bytes

/-! ## Entries -/

/-- What a line says. -/
inductive Entry
  | blank
  | bad
  | listen (value : Bytes)
  | network (value : Bytes)
  | resolvesTo (value : Bytes)
  | upstream (value : Bytes)
  | flag (key : GlobalKey)
  | setting (key : GlobalKey) (value : Bytes)
  deriving DecidableEq

/-- The entry of a directive with a value. -/
def Target.entry (value : Bytes) : Target → Entry
  | .listen => .listen value
  | .network => .network value
  | .resolvesTo => .resolvesTo value
  | .upstream => .upstream value
  | .global key => .setting key value

/-- The entry of a recognised line. -/
def Scanned.entry : Scanned → Entry
  | .blank => .blank
  | .flag f _ => .flag f.key
  | .directive d v => d.target.entry v.value
  | .bad _ => .bad

/-- What a line says, wherever it stands. -/
def readLine (raw : Bytes) : Entry := (scanLine 0 raw).entry

/-- What a line says does not depend on its number. -/
lemma entry_scanLine (n : ℕ) (raw : Bytes) : (scanLine n raw).entry = readLine raw := by
  unfold readLine scanLine
  simp only
  split
  · rfl
  · split
    · rfl
    · split
      · rfl
      · split
        · rfl
        · rfl

namespace Entry

/-- The entry opens a block. -/
def isNetwork : Entry → Bool
  | .network _ => true
  | _ => false

/-- The entry is part of a block. -/
def isZone : Entry → Bool
  | .network _ | .resolvesTo _ | .upstream _ => true
  | _ => false

/-- The entry may stand anywhere and is not part of a block. -/
def isLoose : Entry → Bool
  | .blank | .listen _ => true
  | _ => false

/-- The `listen` values of an entry. -/
def listens : Entry → List Bytes
  | .listen value => [value]
  | _ => []

end Entry

/-! ## Outlines -/

/-- A `network` block, as texts. -/
structure Block where
  network : Bytes
  resolvesTo : Option Bytes
  upstream : Option Bytes
  deriving DecidableEq

/-- A file, as texts. -/
structure Outline where
  listen : List Bytes := []
  blocks : List Block := []
  globals : List (GlobalKey × Bytes) := []
  deriving DecidableEq

/-- An entry after the first `network`: a value for the block, or nothing to do with it. -/
def Block.add (b : Block) : Entry → Option Block
  | .blank | .listen _ => some b
  | .resolvesTo v => if b.resolvesTo = none then some { b with resolvesTo := some v } else none
  | .upstream v => if b.upstream = none then some { b with upstream := some v } else none
  | .bad | .network _ | .flag _ | .setting .. => none

/-- An entry before the first `network`; `ns` may be repeated, and `rrl off` is not checked. -/
def Outline.addGlobal (o : Outline) : Entry → Option Outline
  | .blank => some o
  | .listen v => some { o with listen := o.listen ++ [v] }
  | .flag key => some { o with globals := o.globals ++ [(key, [])] }
  | .setting key v =>
    if key ≠ .ns ∧ key ∈ o.globals.map Prod.fst then none
    else some { o with globals := o.globals ++ [(key, v)] }
  | .bad | .network _ | .resolvesTo _ | .upstream _ => none

/-- The next entry. -/
def Outline.add (o : Outline) (e : Entry) : Option Outline :=
  match e with
  | .network v => some { o with blocks := o.blocks ++ [⟨v, none, none⟩] }
  | e =>
    match o.blocks.getLast? with
    | none => o.addGlobal e
    | some b => (b.add e).map fun b' =>
      { o with listen := o.listen ++ e.listens, blocks := o.blocks.dropLast ++ [b'] }

/-- The outline of the lines of a file, if there is nothing wrong with them. -/
def outline (ls : List Bytes) : Option Outline := Run.exec Outline.add {} (ls.map readLine)

/-! ## The parser collects the outline -/

/-- A block without its provenance. -/
def RawZone.block (raw : RawZone) : Block :=
  ⟨raw.network.value, raw.resolvesTo.map RawValue.value, raw.upstream.map RawValue.value⟩

/-- A file without its provenance. -/
def RawConfig.outline (raw : RawConfig) : Outline :=
  ⟨raw.listen.map RawValue.value, raw.zones.map RawZone.block,
    raw.globals.map fun g => (g.key, g.value.value)⟩

/-- Where a directive with the target may appear. -/
def Target.scope : Target → Scope
  | .listen | .network => .anywhere
  | .resolvesTo | .upstream => .zone
  | .global _ => .global

/-- The scope of a directive is that of its target. -/
lemma scope_of_mem_directives {d : Directive} (hd : d ∈ directives) : d.scope = d.target.scope := by
  have h : ∀ d ∈ directives, d.scope = d.target.scope := by decide
  exact h d hd

/-- A line recognised by the tables: a directive is one of them, and a flag has no value. -/
structure Scanned.Listed (x : Scanned) : Prop where
  directive : ∀ d v, x = .directive d v → d ∈ directives
  flag : ∀ f v, x = .flag f v → v.value = []

/-- A line with nothing on it, or a comment. -/
def IsBlank (raw : Bytes) : Prop := trimStart raw = [] ∨ (trimStart raw).head? = some '#'.toUInt8

/-- How a line is recognised: it is blank, or all of it is a flag, or it starts with a directive, or
it is bad. -/
inductive Scans (n : ℕ) (raw : Bytes) : Scanned → Prop
  | blank (h : IsBlank raw) : Scans n raw .blank
  | flag (h : ¬IsBlank raw) (f : Flag) (hf : f ∈ flags)
      (hmatch : matchesFlag (trimStart raw) f.words = true) (span : ℕ × ℕ) :
      Scans n raw (.flag f ⟨n, raw, span, []⟩)
  | directive (h : ¬IsBlank raw) (d : Directive) (hd : d ∈ directives) (p : ℕ × Bytes)
      (hmatch : stripKeyword (trimStart raw) d.words = some p) (span : ℕ × ℕ) :
      Scans n raw (.directive d ⟨n, raw, span, if d.lowercase then lower p.2 else p.2⟩)
  | bad (e : ConfigError) : Scans n raw (.bad e)

/-- **How a line is recognised.** -/
lemma scanLine_scans (n : ℕ) (raw : Bytes) : Scans n raw (scanLine n raw) := by
  unfold scanLine
  simp only
  split
  · rename_i h
    exact .blank (by simpa [IsBlank] using h)
  rename_i h
  have hblank : ¬IsBlank raw := by simpa [IsBlank] using h
  split
  · rename_i f hf
    exact .flag hblank f (List.mem_of_find?_eq_some hf) (by simpa using List.find?_some hf) _
  split
  · exact .bad _
  rename_i d offset value hmatch
  split
  · exact .bad _
  obtain ⟨d', hd', hsome⟩ := List.exists_of_findSome?_eq_some hmatch
  obtain ⟨p, hp, hpd⟩ := Option.map_eq_some_iff.mp hsome
  obtain ⟨rfl, rfl⟩ : d' = d ∧ p = (offset, value) := by simpa using hpd
  exact .directive hblank d' hd' _ hp _

/-- What is scanned is a keyword of the tables, blank or an error. -/
lemma scanLine_listed (n : ℕ) (raw : Bytes) : (scanLine n raw).Listed := by
  have hscans := scanLine_scans n raw
  generalize scanLine n raw = x at hscans ⊢
  cases hscans with
  | blank h => exact ⟨by simp, by simp⟩
  | flag h f hf hmatch span =>
    refine ⟨by simp, ?_⟩
    intro f' v hv
    rw [← (Scanned.flag.inj hv).2]
  | directive h d hd p hmatch span =>
    refine ⟨?_, by simp⟩
    intro d' v hv
    rwa [← (Scanned.directive.inj hv).1]
  | bad e => exact ⟨by simp, by simp⟩

/-- What became of the outline is what became of the file, or there is an error. -/
def Follows (s : ParseState) : Option Outline → ParseState → Prop
  | some o, s' => s'.errors = s.errors ∧ s'.cfg.outline = o
  | none, s' => s'.errors ≠ []

/-- A state with an error more follows none. -/
lemma follows_push (s : ParseState) (e : ConfigError) : Follows s none (s.push e) := by
  simp [Follows, ParseState.push]

/-- **Filing a line** before the first `network`. -/
lemma place_follows_of_nil {s : ParseState} (hs : s.cfg.zones = []) {x : Scanned} (hx : x.Listed) :
    Follows s (s.cfg.outline.add x.entry) (place s x) := by
  have hblocks : s.cfg.outline.blocks = [] := by simp [RawConfig.outline, hs]
  cases x with
  | blank => simp [Scanned.entry, Outline.add, hblocks, Outline.addGlobal, place, Follows]
  | bad e =>
    simpa [Scanned.entry, Outline.add, hblocks, Outline.addGlobal, place] using follows_push s e
  | flag f v =>
    have hv := hx.flag f v rfl
    simp [Scanned.entry, Outline.add, Outline.addGlobal, place, Follows, hs, hv, RawConfig.outline]
  | directive d v =>
    have hscope := scope_of_mem_directives (hx.directive d v rfl)
    unfold Scanned.entry place
    cases htarget : d.target with
    | listen =>
      simp [hscope, htarget, Target.scope, Target.entry, file, Outline.add, Outline.addGlobal,
        Follows, RawConfig.outline, hs]
    | network =>
      simp [hscope, htarget, Target.scope, Target.entry, file, Outline.add, Follows,
        RawConfig.outline, RawZone.block]
    | resolvesTo =>
      simpa [hscope, htarget, Target.scope, Target.entry, Outline.add, Outline.addGlobal, hblocks,
        hs] using follows_push s _
    | upstream =>
      simpa [hscope, htarget, Target.scope, Target.entry, Outline.add, Outline.addGlobal, hblocks,
        hs] using follows_push s _
    | global key =>
      have hfind : key ∈ s.cfg.outline.globals.map Prod.fst ↔
          (s.cfg.globals.find? (·.key = key)).isSome = true := by
        simp [RawConfig.outline, List.find?_isSome]
      simp only [hscope, htarget, Target.scope, Target.entry, Outline.add, Outline.addGlobal,
        hblocks, hs, file, List.isEmpty_nil, List.getLast?_nil]
      by_cases hns : key = .ns
      · simp [hns, Follows, RawConfig.outline]
      · cases hf : s.cfg.globals.find? (·.key = key) with
        | some first =>
          rw [if_pos ⟨hns, hfind.mpr (by simp [hf])⟩]
          simpa [hns] using follows_push s _
        | none =>
          rw [if_neg (fun h => by simpa [hf] using hfind.mp h.2)]
          simp [hns, Follows, RawConfig.outline]

/-- **Filing a line** after the first `network`. -/
lemma place_follows_of_concat {s : ParseState} {zs : List RawZone} {z : RawZone}
    (hs : s.cfg.zones = zs ++ [z]) {x : Scanned} (hx : x.Listed) :
    Follows s (s.cfg.outline.add x.entry) (place s x) := by
  have hblocks : s.cfg.outline.blocks = zs.map RawZone.block ++ [z.block] := by
    simp [RawConfig.outline, hs]
  have hempty : s.cfg.zones.isEmpty = false := by simp [hs]
  cases x with
  | blank =>
    simp [Scanned.entry, Outline.add, Block.add, place, Follows, Entry.listens, RawConfig.outline,
      hs]
  | bad e => simpa [Scanned.entry, Outline.add, hblocks, Block.add, place] using follows_push s e
  | flag f v =>
    simpa [Scanned.entry, Outline.add, hblocks, Block.add, place, hs] using follows_push s _
  | directive d v =>
    have hscope := scope_of_mem_directives (hx.directive d v rfl)
    unfold Scanned.entry place
    cases htarget : d.target with
    | listen =>
      simp [hscope, htarget, Target.scope, Target.entry, file, Outline.add, Block.add, Follows,
        RawConfig.outline, hs, Entry.listens]
    | network =>
      simp [hscope, htarget, Target.scope, Target.entry, file, Outline.add, Follows,
        RawConfig.outline, RawZone.block]
    | resolvesTo =>
      cases hz : z.resolvesTo with
      | some first =>
        simpa [hscope, htarget, Target.scope, Target.entry, Outline.add, Block.add, hblocks, hs,
          hempty, file, fillSlot, RawZone.block, hz] using follows_push s _
      | none =>
        simp [hscope, htarget, Target.scope, Target.entry, Outline.add, Block.add, hs, file,
          fillSlot, RawZone.block, hz, Entry.listens, RawConfig.outline, Follows]
    | upstream =>
      cases hz : z.upstream with
      | some first =>
        simpa [hscope, htarget, Target.scope, Target.entry, Outline.add, Block.add, hblocks, hs,
          hempty, file, fillSlot, RawZone.block, hz] using follows_push s _
      | none =>
        simp [hscope, htarget, Target.scope, Target.entry, Outline.add, Block.add, hs, file,
          fillSlot, RawZone.block, hz, Entry.listens, RawConfig.outline, Follows]
    | global key =>
      simpa [hscope, htarget, Target.scope, Target.entry, Outline.add, Block.add, hblocks, hempty]
        using follows_push s _

/-- Placing a line does what adding its entry does. -/
lemma place_follows (s : ParseState) {x : Scanned} (hx : x.Listed) :
    Follows s (s.cfg.outline.add x.entry) (place s x) := by
  rcases List.eq_nil_or_concat s.cfg.zones with hs | ⟨zs, z, hs⟩
  · exact place_follows_of_nil hs hx
  · exact place_follows_of_concat (hs.trans (List.concat_eq_append ..)) hx

/-- Errors are only ever added. -/
lemma errors_prefix_place (s : ParseState) (x : Scanned) : s.errors <+: (place s x).errors := by
  have hfile : ∀ d v, s.errors <+: (file d v s).errors := by
    intro d v
    unfold file
    split
    · exact List.prefix_refl _
    · exact List.prefix_refl _
    · split
      · exact List.prefix_refl _
      · split
        · exact List.prefix_append _ _
        · exact List.prefix_refl _
    · split
      · exact List.prefix_refl _
      · split
        · exact List.prefix_append _ _
        · exact List.prefix_refl _
    · split
      · exact List.prefix_append _ _
      · exact List.prefix_refl _
  cases x with
  | blank => exact List.prefix_refl _
  | bad e => exact List.prefix_append _ _
  | flag f v =>
    rw [place]
    split
    · exact List.prefix_append _ _
    · exact List.prefix_refl _
  | directive d v =>
    simp only [place]
    split
    · exact List.prefix_append _ _
    · exact List.prefix_append _ _
    · exact hfile d v

/-- Errors are only added. -/
lemma errors_prefix_foldl (xs : List Scanned) (s : ParseState) :
    s.errors <+: (xs.foldl place s).errors := by
  induction xs generalizing s with
  | nil => exact List.prefix_refl _
  | cons x xs ih => exact (errors_prefix_place s x).trans (ih _)

/-- **Filing all lines** collects the outline of their entries, or reports an error.

**Proof sketch.** Induction on the lines. A line that extends the outline leaves no error; one
that does not leaves one that stays. -/
lemma foldl_place_iff {xs : List Scanned} (hxs : ∀ x ∈ xs, x.Listed) {s : ParseState}
    (hs : s.errors = []) (o : Outline) :
    (xs.foldl place s).errors = [] ∧ (xs.foldl place s).cfg.outline = o ↔
      Run.exec Outline.add s.cfg.outline (xs.map Scanned.entry) = some o := by
  induction xs generalizing s with
  | nil => simp [hs]
  | cons x xs ih =>
    have hstep := place_follows s (hxs x (by simp))
    rw [List.foldl_cons, List.map_cons, Run.exec_cons]
    cases hadd : s.cfg.outline.add x.entry with
    | none =>
      rw [hadd] at hstep
      simp only [Option.bind_none, reduceCtorEq, iff_false, not_and]
      intro herr
      have hpre := errors_prefix_foldl xs (place s x)
      rw [herr, List.prefix_nil] at hpre
      exact absurd hpre hstep
    | some o' =>
      rw [hadd] at hstep
      obtain ⟨herr, rfl⟩ := hstep
      exact ih (fun y hy => hxs y (by simp [hy])) (herr.trans hs)

/-- The lines of a file, recognised. -/
def scannedLines (input : Bytes) : List Scanned :=
  (fileLines input).zipIdx.map fun p => scanLine (lineNo p.2) p.1

/-- The parser is a fold over the scanned lines. -/
lemma parse_eq_foldl (input : Bytes) : parse input = (scannedLines input).foldl place {} := by
  rw [scannedLines, List.foldl_map]
  rfl

/-- All of them are of the tables. -/
lemma listed_of_mem_scannedLines {input : Bytes} {x : Scanned} (hx : x ∈ scannedLines input) :
    x.Listed := by
  obtain ⟨p, -, rfl⟩ := List.mem_map.mp hx
  exact scanLine_listed _ _

/-- **The parser collects the outline**, and reports no error iff there is one. -/
theorem parse_outline {input : Bytes} {o : Outline} :
    (parse input).errors = [] ∧ (parse input).cfg.outline = o ↔
      outline (fileLines input) = some o := by
  have hentries : (scannedLines input).map Scanned.entry = (fileLines input).map readLine := by
    have hcomp : (Scanned.entry ∘ fun p : Bytes × ℕ => scanLine (lineNo p.2) p.1) =
        readLine ∘ Prod.fst := by
      funext p
      exact entry_scanLine _ _
    rw [scannedLines, List.map_map, hcomp, ← List.map_map, List.zipIdx_map_fst]
  rw [parse_eq_foldl, foldl_place_iff (fun x hx => listed_of_mem_scannedLines hx) rfl, hentries]
  rfl

/-! ## Section by section -/

/-- A section of a file: a `network` entry, and what follows until the next. -/
def blockOf : List Entry → Option Block
  | .network v :: es => Run.exec Block.add ⟨v, none, none⟩ es
  | _ => none

/-- Within a section, an entry goes to the last block. -/
lemma add_of_concat {o : Outline} {bs : List Block} {b : Block} (ho : o.blocks = bs ++ [b])
    {e : Entry} (he : e.isNetwork = false) :
    o.add e = (b.add e).map fun b' =>
      { o with listen := o.listen ++ e.listens, blocks := bs ++ [b'] } := by
  unfold Outline.add
  split
  · simp [Entry.isNetwork] at he
  · simp [ho]

/-- After the last block was opened, entries go to it or to the `listen` values. -/
lemma exec_of_concat {o : Outline} {bs : List Block} {b : Block} (ho : o.blocks = bs ++ [b])
    {es : List Entry} (hes : ∀ e ∈ es, e.isNetwork = false) :
    Run.exec Outline.add o es = (Run.exec Block.add b es).map fun b' =>
      { o with listen := o.listen ++ es.flatMap Entry.listens, blocks := bs ++ [b'] } := by
  induction es generalizing o b with
  | nil =>
    simp only [Run.exec_nil, Option.map_some, List.flatMap_nil, List.append_nil, ← ho]
  | cons e es ih =>
    rw [Run.exec_cons, Run.exec_cons, add_of_concat ho (hes e (by simp))]
    cases hb : b.add e with
    | none => rfl
    | some b' =>
      simp only [Option.map_some, Option.bind_some]
      rw [ih rfl fun e' he' => hes e' (by simp [he'])]
      simp

/-- **A section** adds a block, and the `listen` lines in it. -/
lemma exec_section (o : Outline) {s : List Entry}
    (hs : Sections.IsSection Entry.isNetwork s) :
    Run.exec Outline.add o s = (blockOf s).map fun b =>
      { o with listen := o.listen ++ s.flatMap Entry.listens, blocks := o.blocks ++ [b] } := by
  obtain ⟨e, es, rfl, he, hes⟩ := hs
  cases e with
  | network v =>
    rw [Run.exec_cons, Outline.add, Option.bind_some, exec_of_concat rfl hes]
    rfl
  | _ => simp [Entry.isNetwork] at he

/-- **All sections** are blocks. -/
lemma exec_sections {ss : List (List Entry)}
    (hss : ∀ s ∈ ss, Sections.IsSection Entry.isNetwork s)
    {o o' : Outline} :
    Run.exec Outline.add o ss.flatten = some o' ↔
      ∃ bs, List.Forall₂ (fun s b => blockOf s = some b) ss bs ∧
        o' = { o with listen := o.listen ++ ss.flatten.flatMap Entry.listens,
                      blocks := o.blocks ++ bs } := by
  induction ss generalizing o with
  | nil => simp [eq_comm]
  | cons s ss ih =>
    rw [List.flatten_cons, Run.exec_append, exec_section o (hss s (by simp))]
    cases hb : blockOf s with
    | none => simp [List.forall₂_cons_left_iff, hb]
    | some b =>
      simp only [Option.map_some, Option.bind_some, ih fun s' hs' => hss s' (by simp [hs'])]
      constructor
      · rintro ⟨bs, hall, rfl⟩
        exact ⟨b :: bs, .cons hb hall, by simp⟩
      · rintro ⟨bs, hall, rfl⟩
        cases hall with
        | cons h hall =>
          rename_i bs
          obtain rfl := Option.some.inj (hb.symm.trans h)
          exact ⟨bs, hall, by simp⟩

/-- **An outline, section by section**: settings from the preamble, and a block a section. -/
lemma exec_eq_some_iff {es : List Entry} {o : Outline} :
    Run.exec Outline.add {} es = some o ↔
      ∃ o₀, Run.exec Outline.add {} (Sections.preamble Entry.isNetwork es) = some o₀ ∧
        ∃ bs,
          List.Forall₂ (fun s b => blockOf s = some b) (Sections.sections Entry.isNetwork es) bs ∧
          o = { o₀ with
            listen :=
              o₀.listen ++ (Sections.sections Entry.isNetwork es).flatten.flatMap Entry.listens
            blocks := o₀.blocks ++ bs } := by
  have hss : ∀ s ∈ Sections.sections Entry.isNetwork es, Sections.IsSection Entry.isNetwork s :=
    fun s hs => Sections.isSection_of_mem Entry.isNetwork hs
  conv_lhs => rw [← Sections.preamble_append_flatten Entry.isNetwork es, Run.exec_append]
  rw [Option.bind_eq_some_iff]
  constructor
  · rintro ⟨o₀, h₀, h⟩
    exact ⟨o₀, h₀, (exec_sections hss).mp h⟩
  · rintro ⟨o₀, h₀, h⟩
    exact ⟨o₀, h₀, (exec_sections hss).mpr h⟩

/-- A block is made of its own entries; the others in its section are loose. -/
lemma exec_block_iff {b b' : Block} {es : List Entry} :
    Run.exec Block.add b es = some b' ↔
      Run.exec Block.add b (es.filter Entry.isZone) = some b' ∧
        ∀ e ∈ es.filter (!Entry.isZone ·), e.isLoose = true := by
  induction es generalizing b with
  | nil => simp
  | cons e es ih =>
    rw [Run.exec_cons]
    cases he : e.isZone with
    | true =>
      rw [List.filter_cons_of_pos he, List.filter_cons_of_neg (by simp [he]), Run.exec_cons]
      cases b.add e with
      | none => simp
      | some b₁ => exact ih
    | false =>
      rw [List.filter_cons_of_neg (by simp [he]), List.filter_cons_of_pos (by simp [he])]
      cases e with
      | blank => simpa [Block.add, Entry.isLoose] using ih
      | listen v => simpa [Block.add, Entry.isLoose] using ih
      | bad => simp [Block.add, Entry.isLoose]
      | flag key => simp [Block.add, Entry.isLoose]
      | setting key v => simp [Block.add, Entry.isLoose]
      | network v => simp [Entry.isZone] at he
      | resolvesTo v => simp [Entry.isZone] at he
      | upstream v => simp [Entry.isZone] at he

/-- A section makes a block iff its zone entries do and the others may stand anywhere. -/
lemma blockOf_eq_some_iff {s : List Entry}
    (hs : Sections.IsSection Entry.isNetwork s) {b : Block} :
    blockOf s = some b ↔ blockOf (s.filter Entry.isZone) = some b ∧
      ∀ e ∈ s.filter (!Entry.isZone ·), e.isLoose = true := by
  obtain ⟨e, es, rfl, he, -⟩ := hs
  cases e with
  | network v => exact exec_block_iff
  | _ => simp [Entry.isNetwork] at he

/-! ## Blocks in another order -/

/-- The line opens a `network` block. -/
def isNetworkLine (raw : Bytes) : Bool := (readLine raw).isNetwork

/-- The line is a `network`, `resolves to` or `with upstream` line. -/
def isZoneLine (raw : Bytes) : Bool := (readLine raw).isZone

/-- The lines of a file before the first `network`. -/
def headerLines (input : Bytes) : List Bytes := Sections.preamble isNetworkLine (fileLines input)

/-- The lines of a file from each `network` to the next. -/
def sectionLines (input : Bytes) : List (List Bytes) :=
  Sections.sections isNetworkLine (fileLines input)

/-- The second file is the first with its `network` blocks in another order: what comes before
the first block is the same, and so are the blocks, up to their order. The lines among the
blocks that are not part of one (`listen`, blank and comment lines) may stay where they are or
move with a block. -/
structure BlocksPermuted (input input' : Bytes) : Prop where
  header : headerLines input' = headerLines input
  blocks : ((sectionLines input').map (List.filter isZoneLine)).Perm
    ((sectionLines input).map (List.filter isZoneLine))
  others : ((sectionLines input').flatten.filter (!isZoneLine ·)).Perm
    ((sectionLines input).flatten.filter (!isZoneLine ·))

/-- The lines of a section that are not part of a block give all its `listen` values. -/
lemma flatMap_listens_filter (es : List Entry) :
    (es.filter (!Entry.isZone ·)).flatMap Entry.listens = es.flatMap Entry.listens := by
  induction es with
  | nil => rfl
  | cons e es ih =>
    rw [List.filter_cons, List.flatMap_cons]
    split
    · rw [List.flatMap_cons, ih]
    · rename_i he
      have hnil : e.listens = [] := by
        cases e with
        | listen v => simp [Entry.isZone] at he
        | _ => rfl
      rw [ih, hnil, List.nil_append]

/-- The sections are blocks iff their own entries are, and all the others are loose. -/
lemma forall₂_blockOf_iff {ss : List (List Entry)}
    (hss : ∀ s ∈ ss, Sections.IsSection Entry.isNetwork s)
    {bs : List Block} :
    List.Forall₂ (fun s b => blockOf s = some b) ss bs ↔
      List.Forall₂ (fun s b => blockOf s = some b) (ss.map (List.filter Entry.isZone)) bs ∧
        ∀ e ∈ ss.flatten.filter (!Entry.isZone ·), e.isLoose = true := by
  induction ss generalizing bs with
  | nil => simp
  | cons s ss ih =>
    have hss' : ∀ s ∈ ss, Sections.IsSection Entry.isNetwork s :=
      fun s' hs' => hss s' (by simp [hs'])
    cases bs with
    | nil => simp
    | cons b bs =>
      rw [List.map_cons, List.forall₂_cons, List.forall₂_cons,
        blockOf_eq_some_iff (hss s (by simp)), ih hss', List.flatten_cons, List.filter_append,
        List.forall_mem_append]
      tauto

/-- **Blocks in another order** are collected in another order, and the settings as before. -/
lemma outline_of_permuted {input input' : Bytes} (h : BlocksPermuted input input') {o : Outline}
    (ho : outline (fileLines input) = some o) :
    ∃ o', outline (fileLines input') = some o' ∧ o'.listen.Perm o.listen ∧
      o'.blocks.Perm o.blocks ∧ o'.globals = o.globals := by
  -- the sections of the entries are the entries of the sections
  have hpre : ∀ i, Sections.preamble Entry.isNetwork ((fileLines i).map readLine) =
      (headerLines i).map readLine := fun i => Sections.preamble_map _ _ _
  have hsec : ∀ i, Sections.sections Entry.isNetwork ((fileLines i).map readLine) =
      (sectionLines i).map (List.map readLine) := fun i => Sections.sections_map _ _ _
  have hblocks : ∀ i, (Sections.sections Entry.isNetwork ((fileLines i).map readLine)).map
      (List.filter Entry.isZone) =
      ((sectionLines i).map (List.filter isZoneLine)).map (List.map readLine) := by
    intro i
    rw [hsec, List.map_map, List.map_map]
    apply List.map_congr_left
    intro s _
    exact List.filter_map
  have hothers : ∀ i,
      (Sections.sections Entry.isNetwork ((fileLines i).map readLine)).flatten.filter
      (!Entry.isZone ·) = ((sectionLines i).flatten.filter (!isZoneLine ·)).map readLine := by
    intro i
    rw [hsec, ← List.map_flatten, List.filter_map]
    rfl
  have hsections : ∀ i, ∀ s ∈ Sections.sections Entry.isNetwork ((fileLines i).map readLine),
      Sections.IsSection Entry.isNetwork s :=
    fun i s hs => Sections.isSection_of_mem Entry.isNetwork hs
  obtain ⟨o₀, h₀, bs, hall, rfl⟩ := exec_eq_some_iff.mp ho
  obtain ⟨hall, hloose⟩ := (forall₂_blockOf_iff (hsections input)).mp hall
  have hperm := h.others.map readLine
  rw [← hothers, ← hothers] at hperm
  have hpermBlocks := h.blocks.map (List.map readLine)
  rw [← hblocks, ← hblocks] at hpermBlocks
  obtain ⟨bs', hall', hbs⟩ := List.perm_comp_forall₂ hpermBlocks hall
  refine ⟨_, exec_eq_some_iff.mpr ⟨o₀, ?_, bs', ?_, rfl⟩, ?_, ?_, rfl⟩
  · rw [hpre, h.header, ← hpre]
    exact h₀
  · apply (forall₂_blockOf_iff (hsections input')).mpr
    refine ⟨hall', ?_⟩
    intro e he
    exact hloose e (hperm.mem_iff.mp he)
  · rw [← flatMap_listens_filter, ← flatMap_listens_filter (List.flatten _)]
    exact (hperm.flatMap_right _).append_left _
  · exact hbs.append_left _

end PanoptiDns
