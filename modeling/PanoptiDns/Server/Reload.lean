import PanoptiDns.Server.System

set_option relaxedAutoImplicit false
set_option autoImplicit false

/-!
# Reloading

`serve` of `src/main.rs`: the configuration is loaded once to start with and again on every SIGHUP,
whatever the file then holds. What it says is put to use in three places: behind the pointer that
is swapped, in the upstream clients that are swapped with it, and in the limiter, which is built
once and kept so that a reload is no amnesty. The limiter keeps its settings along with its
buckets.

## Main definitions

* `loadConfig`, `Client`, `buildClients`, `loadZones` — from a file to what is swapped in.
* `Serving`, `Move`, `Serving.step` — the server under SIGHUPs.
* `lastGood` — the configuration of the last file that could be loaded.
* `Serving.InForce` — the settings that govern later requests are those of a configuration.

## Main results

* `zonesNew_eq` — the clients and the pointer are built together.
* `exec_follows` — what is in force in every state reached.
* `reload_inForce_iff` — when all of it is the last good file's.
-/

namespace PanoptiDns

open Bytes

/-! ## Loading -/

/-- Why a file is not put in force. -/
inductive LoadError
  | unreadable (reason : Bytes)
  | rejected (errors : List ConfigError)
  | upstream (reason : Bytes)
  deriving DecidableEq

/-- `load_config`: `read_to_string`, which fails or finds bytes that must be UTF-8, then
`Config::parse`. -/
def loadConfig (hk : Hickory) (file : Except Bytes Bytes) : Except LoadError Config :=
  match file with
  | .error reason => .error (.unreadable reason)
  | .ok body =>
    if !isUtf8 body then .error (.unreadable (ofString "stream did not contain valid UTF-8"))
    else
      match Config.parse hk body with
      | .ok config => .ok config
      | .error errors => .error (.rejected errors)

/-- An upstream client: whom it asks, and how long it waits. -/
structure Client where
  addr : IpAddr
  timeout : ℕ
  deriving DecidableEq

/-- The body of the loop of `Zones::new`: a client for an address that has none yet. -/
def addClient (newUpstream : IpAddr → (timeout : ℕ) → Except Bytes Unit) (timeout : ℕ)
    (clients : List Client) (addr : IpAddr) : Except Bytes (List Client) :=
  if addr ∈ clients.map Client.addr then .ok clients
  else
    match newUpstream addr timeout with
    | .error reason => .error reason
    | .ok () => .ok (clients ++ [⟨addr, timeout⟩])

/-- The clients of `Zones::new`, one per distinct address. -/
def buildClients (newUpstream : IpAddr → (timeout : ℕ) → Except Bytes Unit) (config : Config) :
    Except Bytes (List Client) :=
  (config.zones.filterMap Zone.upstream).foldlM
    (addClient newUpstream config.params.upstreamTimeout) []

/-- `load_config(&path).and_then(Zones::new)`. -/
def loadZones (hk : Hickory) (newUpstream : IpAddr → (timeout : ℕ) → Except Bytes Unit)
    (file : Except Bytes Bytes) : Except LoadError (Zones × List Client) :=
  match loadConfig hk file with
  | .error e => .error e
  | .ok config =>
    match buildClients newUpstream config with
    | .error reason => .error (.upstream reason)
    | .ok clients => .ok (⟨config, clients.map Client.addr⟩, clients)

/-- **The clients and the pointer** are built together. -/
lemma zonesNew_eq (newUpstream : IpAddr → (timeout : ℕ) → Except Bytes Unit) (config : Config) :
    Zones.new newUpstream config =
      (buildClients newUpstream config).map fun clients => ⟨config, clients.map Client.addr⟩ := by
  have hloop : ∀ (addrs : List IpAddr) (clients : List Client),
      addrs.foldlM (fun (upstreams : List IpAddr) addr =>
        if addr ∈ upstreams then pure upstreams
        else do
          newUpstream addr config.params.upstreamTimeout
          pure (upstreams ++ [addr])) (clients.map Client.addr) =
      (addrs.foldlM (addClient newUpstream config.params.upstreamTimeout) clients).map
        (List.map Client.addr) := by
    intro addrs
    induction addrs with
    | nil => exact fun clients => rfl
    | cons addr addrs ih =>
      intro clients
      rw [List.foldlM_cons, List.foldlM_cons, addClient]
      by_cases hmem : addr ∈ clients.map Client.addr
      · rw [if_pos hmem, if_pos hmem]
        exact ih clients
      · rw [if_neg hmem, if_neg hmem]
        cases newUpstream addr config.params.upstreamTimeout with
        | error reason => rfl
        | ok u =>
          have := ih (clients ++ [⟨addr, config.params.upstreamTimeout⟩])
          rw [List.map_append] at this
          exact this
  unfold Zones.new buildClients
  have hnil := hloop (config.zones.filterMap Zone.upstream) []
  rw [List.map_nil] at hnil
  rw [hnil]
  cases List.foldlM (addClient newUpstream config.params.upstreamTimeout) []
    (config.zones.filterMap Zone.upstream) <;> rfl

/-- The clients a configuration calls for: one for each upstream address, with its timeout. -/
structure ClientsOf (config : Config) (clients : List Client) : Prop where
  addr : ∀ a, a ∈ clients.map Client.addr ↔ ∃ z ∈ config.zones, z.upstream = some a
  timeout : ∀ client ∈ clients, client.timeout = config.params.upstreamTimeout

/-- A client is added for an address that has none; the others stay. -/
lemma addClient_eq_ok {newUpstream : IpAddr → (timeout : ℕ) → Except Bytes Unit} {timeout : ℕ}
    {clients out : List Client} {addr : IpAddr}
    (h : addClient newUpstream timeout clients addr = .ok out) :
    (∀ a, a ∈ out.map Client.addr ↔ a ∈ clients.map Client.addr ∨ a = addr) ∧
      ∀ client ∈ out, client ∈ clients ∨ client.timeout = timeout := by
  unfold addClient at h
  split at h
  · rename_i hmem
    obtain rfl := Except.ok.inj h
    refine ⟨fun a => ⟨.inl, ?_⟩, fun client => .inl⟩
    rintro (ha | rfl)
    · exact ha
    · exact hmem
  · split at h
    · cases h
    · obtain rfl := Except.ok.inj h
      refine ⟨fun a => by simp [or_comm], fun client hclient => ?_⟩
      rcases List.mem_append.mp hclient with hclient | hclient
      · exact .inl hclient
      · rw [List.mem_singleton.mp hclient]
        exact .inr rfl

/-- **What is built** is what the configuration calls for. -/
lemma buildClients_eq_ok {newUpstream : IpAddr → (timeout : ℕ) → Except Bytes Unit}
    {config : Config} {clients : List Client} (h : buildClients newUpstream config = .ok clients) :
    ClientsOf config clients := by
  have hloop : ∀ (addrs : List IpAddr) (out : List Client),
      addrs.foldlM (addClient newUpstream config.params.upstreamTimeout) out = .ok clients →
      (∀ a, a ∈ clients.map Client.addr ↔ a ∈ out.map Client.addr ∨ a ∈ addrs) ∧
        ∀ client ∈ clients, client ∈ out ∨ client.timeout = config.params.upstreamTimeout := by
    intro addrs
    induction addrs with
    | nil =>
      intro out hout
      obtain rfl := Except.ok.inj hout
      exact ⟨by simp, fun client => .inl⟩
    | cons addr addrs ih =>
      intro out hout
      rw [List.foldlM_cons] at hout
      cases hadd : addClient newUpstream config.params.upstreamTimeout out addr with
      | error reason =>
        rw [hadd] at hout
        cases hout
      | ok out' =>
        rw [hadd] at hout
        obtain ⟨haddr', htimeout'⟩ := addClient_eq_ok hadd
        obtain ⟨haddr, htimeout⟩ := ih out' hout
        refine ⟨fun a => ?_, fun client hclient => ?_⟩
        · rw [haddr, haddr', List.mem_cons, or_assoc]
        · rcases htimeout client hclient with hclient | htime
          · exact htimeout' client hclient
          · exact .inr htime
  obtain ⟨haddr, htimeout⟩ := hloop _ [] h
  refine ⟨fun a => ?_, fun client hclient => ?_⟩
  · rw [haddr]
    simp
  · simpa using htimeout client hclient

/-! ## Serving -/

/-- The server, with its upstream clients. -/
structure Serving (G : Governor) where
  system : System G
  clients : List Client

/-- What happens while the server runs: a SIGHUP, with what the file holds by then and how clients
can be built, or a step of the server that is not a reload. -/
inductive Move
  | hangup (file : Except Bytes Bytes) (newUpstream : IpAddr → (timeout : ℕ) → Except Bytes Unit)
  | act (action : Action)

/-- The configuration after a move: that of the file, if it could be loaded. -/
def goodAfter (hk : Hickory) (config : Config) : Move → Config
  | .hangup file newUpstream =>
    match loadZones hk newUpstream file with
    | .ok (zones, _) => zones.config
    | .error _ => config
  | .act _ => config

/-- The configuration of the last file that could be loaded, after the one there was at first. -/
def lastGood (hk : Hickory) (config : Config) (moves : List Move) : Config :=
  moves.foldl (goodAfter hk) config

namespace Serving

variable {G : Governor}

/-- `serve`, up to where the server runs. -/
def start (hk : Hickory) (newUpstream : IpAddr → (timeout : ℕ) → Except Bytes Unit)
    (file : Except Bytes Bytes) : Except LoadError (Serving G) :=
  match loadZones hk newUpstream file with
  | .error e => .error e
  | .ok (zones, clients) => .ok ⟨.start zones, clients⟩

/-- A step of the server under SIGHUPs: the previous configuration keeps running if the file
cannot be loaded. -/
def step (hk : Hickory) (s : Serving G) : Move → Option (Serving G)
  | .hangup file newUpstream =>
    match loadZones hk newUpstream file with
    | .ok (zones, clients) => (s.system.step (.reload zones)).map fun system => ⟨system, clients⟩
    | .error _ => some s
  -- only the reloader reloads
  | .act (.reload _) => none
  | .act action => (s.system.step action).map fun system => { s with system }

end Serving

/-- The settings of the limiter: whether it is on, its rate, its burst and its slip. -/
def RrlParams.settings (p : RrlParams) : Bool × ℕ × ℕ × ℕ :=
  (p.enabled, p.responsesPerSecond, p.burst, p.slip)

/-- The settings that govern later requests, all but `listen`, are those of a configuration. -/
structure Serving.InForce {G : Governor} (s : Serving G) (c : Config) : Prop where
  zones : s.system.zones.config.zones = c.zones
  soa : s.system.zones.config.soa = c.soa
  nameservers : s.system.zones.config.nameservers = c.nameservers
  outOfZone : s.system.zones.config.params.outOfZone = c.params.outOfZone
  maxUdpPayload : s.system.zones.config.params.maxUdpPayload = c.params.maxUdpPayload
  upstreams : s.system.zones.upstreams = s.clients.map Client.addr
  clients : ClientsOf c s.clients
  rrl : s.system.rrl.params.settings = c.params.rrl.settings

/-! ## What a step leaves alone -/

/-- The limiter keeps its settings. -/
lemma Rrl.decide_params {G : Governor} (rrl : Rrl G) (now : ℕ) (addr : IpAddr) (kind : Kind)
    (isTcp : Bool) : (rrl.decide now addr kind isTcp).2.params = rrl.params := by
  have hcheck : ∀ key, (rrl.check now key kind).2.params = rrl.params := by
    intro key
    cases kind <;> rfl
  unfold Rrl.decide
  split
  · rfl
  · simp only
    split
    · exact hcheck _
    · split
      · exact hcheck _
      · split <;> exact hcheck _

/-- A step that is not a reload keeps the configuration, and the settings of the limiter. -/
lemma System.step_frame {G : Governor} {s s' : System G} {a : Action}
    (hno : ∀ zones, a ≠ .reload zones) (hstep : s.step a = some s') :
    s'.zones = s.zones ∧ s'.rrl.params = s.rrl.params := by
  cases a with
  | arrive id request =>
    simp only [step] at hstep
    split at hstep
    · cases hstep
    obtain rfl := Option.some.inj hstep
    exact ⟨rfl, rfl⟩
  | advance id world =>
    obtain ⟨task, -, rfl⟩ := Option.map_eq_some_iff.mp hstep
    unfold advance
    split
    · exact ⟨rfl, rfl⟩
    · exact ⟨rfl, rfl⟩
    · exact ⟨rfl, rfl⟩
    · exact ⟨rfl, Rrl.decide_params _ _ _ _ _⟩
    · exact ⟨rfl, rfl⟩
  | reload zones => exact absurd rfl (hno zones)
  | sweep now =>
    obtain rfl := Option.some.inj hstep
    exact ⟨rfl, rfl⟩

/-! ## What is in force -/

/-- The pointer and the clients are those of one configuration; the limiter has settings of its
own. -/
structure Serving.Follows {G : Governor} (s : Serving G) (c : Config) (p : RrlParams) : Prop where
  config : s.system.zones.config = c
  upstreams : s.system.zones.upstreams = s.clients.map Client.addr
  clients : ClientsOf c s.clients
  rrl : s.system.rrl.params = p

/-- What is loaded is one configuration and its clients. -/
lemma loadZones_eq_ok {hk : Hickory} {newUpstream : IpAddr → (timeout : ℕ) → Except Bytes Unit}
    {file : Except Bytes Bytes} {zones : Zones} {clients : List Client}
    (h : loadZones hk newUpstream file = .ok (zones, clients)) :
    loadConfig hk file = .ok zones.config ∧ zones.upstreams = clients.map Client.addr ∧
      ClientsOf zones.config clients := by
  unfold loadZones at h
  split at h
  · cases h
  rename_i config hconfig
  split at h
  · cases h
  rename_i clients' hclients
  obtain ⟨rfl, rfl⟩ := Prod.mk.inj (Except.ok.inj h)
  exact ⟨hconfig, rfl, buildClients_eq_ok hclients⟩

namespace Serving

variable {G : Governor} {hk : Hickory} {s s' : Serving G} {c : Config} {p : RrlParams}

/-- A server that has just started serves by the file it was started with. -/
lemma start_follows {newUpstream : IpAddr → (timeout : ℕ) → Except Bytes Unit}
    {file : Except Bytes Bytes} (h : start hk newUpstream file = .ok s)
    (hc : loadConfig hk file = .ok c) : s.Follows c c.params.rrl := by
  unfold start at h
  split at h
  · cases h
  rename_i zones clients hload
  obtain ⟨hconfig, hup, hclients⟩ := loadZones_eq_ok hload
  obtain rfl := Except.ok.inj h
  obtain rfl : zones.config = c := Except.ok.inj (hconfig.symm.trans hc)
  exact ⟨rfl, hup, hclients, rfl⟩

/-- **One move**: the pointer and the clients go with the last good file, the limiter stays. -/
lemma Follows.step {m : Move} (h : s.Follows c p) (hstep : s.step hk m = some s') :
    s'.Follows (goodAfter hk c m) p := by
  cases m with
  | hangup file newUpstream =>
    simp only [Serving.step, System.step, Option.map_some] at hstep
    unfold goodAfter
    split at hstep
    · rename_i zones clients hload
      obtain ⟨-, hup, hclients⟩ := loadZones_eq_ok hload
      obtain rfl := Option.some.inj hstep
      simp only [hload]
      exact ⟨rfl, hup, hclients, h.rrl⟩
    · rename_i e hload
      obtain rfl := Option.some.inj hstep
      simp only [hload]
      exact h
  | act action =>
    have hno : ∀ zones, action ≠ .reload zones := by
      rintro zones rfl
      cases hstep
    have hsystem : (s.system.step action).map (fun system => { s with system }) = some s' := by
      cases action with
      | reload zones => exact absurd rfl (hno zones)
      | _ => exact hstep
    obtain ⟨system, hsys, rfl⟩ := Option.map_eq_some_iff.mp hsystem
    obtain ⟨hzones, hparams⟩ := System.step_frame hno hsys
    exact ⟨hzones ▸ h.config, hzones ▸ h.upstreams, h.clients, hparams.trans h.rrl⟩

/-- **A run**: the same, for the last good file of the run. -/
lemma exec_follows {moves : List Move} (h : s.Follows c p)
    (hexec : Run.exec (Serving.step hk) s moves = some s') :
    s'.Follows (lastGood hk c moves) p := by
  induction moves generalizing s c with
  | nil =>
    obtain rfl := Option.some.inj hexec
    exact h
  | cons m moves ih =>
    obtain ⟨s₁, h₁, hrest⟩ := Option.bind_eq_some_iff.mp hexec
    exact ih (h.step h₁) hrest

/-- A SIGHUP leaves the limiter as it is, buckets and all. -/
lemma step_hangup_rrl {file : Except Bytes Bytes}
    {newUpstream : IpAddr → (timeout : ℕ) → Except Bytes Unit}
    (hstep : s.step hk (.hangup file newUpstream) = some s') : s'.system.rrl = s.system.rrl := by
  simp only [Serving.step, System.step, Option.map_some] at hstep
  split at hstep <;> obtain rfl := Option.some.inj hstep <;> rfl

/-- All is in force iff the settings of the limiter are. -/
lemma Follows.inForce_iff (h : s.Follows c p) :
    s.InForce c ↔ c.params.rrl.settings = p.settings := by
  constructor
  · intro hin
    rw [← hin.rrl, h.rrl]
  · intro hrrl
    refine ⟨?_, ?_, ?_, ?_, ?_, h.upstreams, h.clients, ?_⟩
    all_goals first | rw [h.config] | rw [h.rrl, hrrl]

end Serving

/-- **What a reload puts in force**, after any run of SIGHUPs and requests. The pointer and the
upstream clients are those of the last file that could be loaded, a SIGHUP leaves the limiter as it
is, and a file that cannot be loaded changes nothing. Hence everything but `listen` is that file's
iff its settings of the limiter are the startup file's. -/
theorem reload_inForce_iff {G : Governor} {hk : Hickory}
    {newUpstream : IpAddr → (timeout : ℕ) → Except Bytes Unit} {file : Except Bytes Bytes}
    {c : Config} {s₀ s : Serving G} {moves : List Move} (hc : loadConfig hk file = .ok c)
    (hstart : Serving.start hk newUpstream file = .ok s₀)
    (hexec : Run.exec (Serving.step hk) s₀ moves = some s) :
    (s.InForce (lastGood hk c moves) ↔
      (lastGood hk c moves).params.rrl.settings = c.params.rrl.settings) ∧
    s.system.zones.config = lastGood hk c moves ∧ ClientsOf (lastGood hk c moves) s.clients ∧
    ∀ file newUpstream s', s.step hk (.hangup file newUpstream) = some s' →
      s'.system.rrl = s.system.rrl ∧
        (∀ e, loadZones hk newUpstream file = .error e → s' = s) := by
  have hfollows := Serving.exec_follows (Serving.start_follows hstart hc) hexec
  refine ⟨hfollows.inForce_iff, hfollows.config, hfollows.clients, ?_⟩
  intro file newUpstream s' hstep
  refine ⟨Serving.step_hangup_rrl hstep, fun e he => ?_⟩
  simp only [Serving.step, he] at hstep
  exact (Option.some.inj hstep).symm

/-- Upstream clients can be built. -/
def anyUpstream : IpAddr → (timeout : ℕ) → Except Bytes Unit := fun _ _ => .ok ()

/-- What the sample loads as. -/
def sampleLoaded : Zones × List Client :=
  (sampleZones, [⟨.v6 0x20010db8000000000000000000000053, 300⟩])

/-- The server of the sample, with token buckets for a limiter. -/
def sampleServing : Serving Rrl.tokenBuckets := ⟨.start sampleLoaded.1, sampleLoaded.2⟩

/-- It is what a start with the sample comes to. -/
lemma start_sampleServing : Serving.start namelessHickory anyUpstream (.ok sampleInput) =
    .ok sampleServing := by
  have hload : loadZones namelessHickory anyUpstream (.ok sampleInput) = .ok sampleLoaded := by
    decide +kernel
  unfold Serving.start
  rw [hload]
  rfl

/-- The sample can be loaded. -/
lemma loadConfig_sampleInput :
    loadConfig namelessHickory (.ok sampleInput) = .ok (parsed sampleInput) := by
  decide +kernel

/-- A SIGHUP for a file with these contents. -/
def hangup (input : Bytes) : Move := .hangup (.ok input) anyUpstream

/-- A file with another TTL. -/
def ttlInput : Bytes := ofString "ttl 60
"

/-- A file without a limiter. -/
def unlimitedInput : Bytes := ofString "rrl off
"

/-- After a SIGHUP for a file with another TTL, that file is in force. -/
theorem reload_inForce_ttlInput :
    ∃ s : Serving Rrl.tokenBuckets,
      Run.exec (Serving.step namelessHickory) sampleServing [hangup ttlInput] = some s ∧
        s.InForce (lastGood namelessHickory (parsed sampleInput) [hangup ttlInput]) := by
  have hsome : (Run.exec (Serving.step namelessHickory) sampleServing
      [hangup ttlInput]).isSome = true := by
    decide +kernel
  obtain ⟨s, hs⟩ := Option.isSome_iff_exists.mp hsome
  refine ⟨s, hs, (reload_inForce_iff loadConfig_sampleInput start_sampleServing hs).1.mpr ?_⟩
  decide +kernel

/-- After a SIGHUP for a file without a limiter, the limiter goes on. -/
theorem reload_unlimitedInput :
    ∃ s : Serving Rrl.tokenBuckets,
      Run.exec (Serving.step namelessHickory) sampleServing [hangup unlimitedInput] = some s ∧
        loadConfig namelessHickory (.ok unlimitedInput) = .ok (parsed unlimitedInput) ∧
        (parsed unlimitedInput).params.rrl.enabled = false ∧
        s.system.rrl.params.enabled = true ∧
        ¬s.InForce (lastGood namelessHickory (parsed sampleInput) [hangup unlimitedInput]) := by
  have henabled : (Run.exec (Serving.step namelessHickory) sampleServing
      [hangup unlimitedInput]).map (fun s => s.system.rrl.params.enabled) = some true := by
    decide +kernel
  obtain ⟨s, hs, hon⟩ := Option.map_eq_some_iff.mp henabled
  refine ⟨s, hs, by decide +kernel, by decide +kernel, hon, fun hin => ?_⟩
  have hoff : (lastGood namelessHickory (parsed sampleInput)
      [hangup unlimitedInput]).params.rrl.enabled = false := by
    decide +kernel
  have hsame := congrArg Prod.fst hin.rrl
  simp only [RrlParams.settings, hon, hoff] at hsame
  cases hsame

end PanoptiDns
