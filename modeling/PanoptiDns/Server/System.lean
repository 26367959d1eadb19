import PanoptiDns.Lib.Run
import PanoptiDns.Rrl.Budgets
import PanoptiDns.Server.Existence

set_option relaxedAutoImplicit false
set_option autoImplicit false

/-!
# The running server

Requests arrive at any time and are handled concurrently; the configuration can be swapped under
them, and the limiter swept. The state is the current configuration, the limiter and the programs
of the requests in flight; a step is one effect of one request, or one of the server's own
timers. The trace records what the limiter was asked and what was handed to the socket.

## Main definitions

* `System`, `Action`, `System.step` — the server and its steps; `System.Steps` says what a step
  finds and leaves.
* `Event` — what the trace records.
* `ChargedTrace` — over UDP, nothing untruncated is sent without an `Allow`, and nothing after a
  `Drop`.
* `Request.Plain`, `MeetsCharge` — the conditions under which the server keeps to that.

## Main results

* `handleRequest_careful` — the program of a plain request asks the limiter before it sends.
* `chargedTrace_of_exec` — so does the server, in every run of plain requests over UDP, whatever
  comes over TCP beside them.
-/

namespace PanoptiDns

open Bytes

/-- What happens to a request, as the outside sees it. -/
inductive Event
  | arrived (id : ℕ) (request : Request)
  | charged (id : ℕ) (src : IpAddr) (decision : Decision)
  | sent (id : ℕ) (response : Response)
  deriving DecidableEq

/-- The request an event belongs to. -/
def Event.id : Event → ℕ
  | .arrived id _ => id
  | .charged id _ _ => id
  | .sent id _ => id

/-- A request in flight, and what is left to do for it. -/
structure Task where
  request : Request
  program : Handling Metadata

/-- The server at a moment. -/
structure System (G : Governor) where
  zones : Zones
  rrl : Rrl G
  tasks : ℕ → Option Task
  trace : List Event

/-- What the world does during a step: the time, the upstreams, the socket. -/
structure World where
  now : ℕ
  lookup : IpAddr → LookupOutcome
  sent : Except Bytes Unit

/-- A step of the server. -/
inductive Action
  | arrive (id : ℕ) (request : Request)
  | advance (id : ℕ) (world : World)
  | reload (zones : Zones)
  | sweep (now : ℕ)

namespace System

variable {G : Governor}

/-- A server that has just started. -/
def start (zones : Zones) : System G := ⟨zones, .new zones.config.params.rrl, fun _ => none, []⟩

/-- The program of a request goes on. -/
def resume (s : System G) (id : ℕ) (task : Task) (program : Handling Metadata) : System G :=
  { s with tasks := Function.update s.tasks id (some { task with program }) }

/-- Something happened. -/
def log (s : System G) (e : Event) : System G := { s with trace := s.trace ++ [e] }

/-- One effect of a request's program. -/
def advance (s : System G) (id : ℕ) (task : Task) (world : World) : System G :=
  match task.program with
  | .done _ => { s with tasks := Function.update s.tasks id none }
  | .load k => s.resume id task (k s.zones)
  | .await k => s.resume id task (k world.lookup)
  | .charge src kind isTcp k =>
    let (decision, rrl) := s.rrl.decide world.now src kind isTcp
    ({ s with rrl }.resume id task (k decision)).log (.charged id src decision)
  | .transmit response k => (s.resume id task (k world.sent)).log (.sent id response)

/-- A step of the server, if it can be taken. -/
def step (s : System G) : Action → Option (System G)
  | .arrive id request =>
    -- every request has an identity of its own
    if s.trace.any (·.id = id) then none
    else some (({ s with
      tasks := Function.update s.tasks id (some ⟨request, handleRequest request⟩) }).log
        (.arrived id request))
  | .advance id world => (s.tasks id).map fun task => s.advance id task world
  | .reload zones => some { s with zones }
  | .sweep now => some { s with rrl := s.rrl.sweep now }

/-- The steps of the server, with what each finds and what it leaves. -/
inductive Steps (s : System G) : Action → System G → Prop
  | arrive {id : ℕ} {request : Request} (hnew : ∀ e ∈ s.trace, e.id ≠ id) :
      Steps s (.arrive id request) { s with
        tasks := Function.update s.tasks id (some ⟨request, handleRequest request⟩)
        trace := s.trace ++ [.arrived id request] }
  | finish {id : ℕ} {world : World} {task : Task} {metadata : Metadata}
      (htask : s.tasks id = some task) (hprogram : task.program = .done metadata) :
      Steps s (.advance id world) { s with tasks := Function.update s.tasks id none }
  | load {id : ℕ} {world : World} {task : Task} {k : Zones → Handling Metadata}
      (htask : s.tasks id = some task) (hprogram : task.program = .load k) :
      Steps s (.advance id world) (s.resume id task (k s.zones))
  | await {id : ℕ} {world : World} {task : Task} {k : (IpAddr → LookupOutcome) → Handling Metadata}
      (htask : s.tasks id = some task) (hprogram : task.program = .await k) :
      Steps s (.advance id world) (s.resume id task (k world.lookup))
  | charge {id : ℕ} {world : World} {task : Task} {src : IpAddr} {kind : Kind} {isTcp : Bool}
      {k : Decision → Handling Metadata} {decision : Decision} {rrl : Rrl G}
      (htask : s.tasks id = some task) (hprogram : task.program = .charge src kind isTcp k)
      (hdecide : s.rrl.decide world.now src kind isTcp = (decision, rrl)) :
      Steps s (.advance id world)
        (({ s with rrl }.resume id task (k decision)).log (.charged id src decision))
  | transmit {id : ℕ} {world : World} {task : Task} {response : Response}
      {k : Except Bytes Unit → Handling Metadata}
      (htask : s.tasks id = some task) (hprogram : task.program = .transmit response k) :
      Steps s (.advance id world) ((s.resume id task (k world.sent)).log (.sent id response))
  | reload {zones : Zones} : Steps s (.reload zones) { s with zones }
  | sweep {now : ℕ} : Steps s (.sweep now) { s with rrl := s.rrl.sweep now }

/-- **Inversion of a step.** -/
lemma steps_of_step {s s' : System G} {a : Action} (h : s.step a = some s') : s.Steps a s' := by
  cases a with
  | arrive id request =>
    simp only [step] at h
    split at h
    · cases h
    · rename_i hnew
      obtain rfl := Option.some.inj h
      exact .arrive (by simpa using hnew)
  | reload zones =>
    obtain rfl := Option.some.inj h
    exact .reload
  | sweep now =>
    obtain rfl := Option.some.inj h
    exact .sweep
  | advance id world =>
    obtain ⟨task, htask, rfl⟩ := Option.map_eq_some_iff.mp h
    unfold advance
    split <;> rename_i hprogram
    · exact .finish htask hprogram
    · exact .load htask hprogram
    · exact .await htask hprogram
    · exact .charge htask hprogram rfl
    · exact .transmit htask hprogram

end System

/-! ## Charging -/

/-- Every response to a request over UDP, unless it has the truncation flag, was preceded by an
`Allow` for the source of the request, and nothing is sent for such a request that was dropped. -/
structure ChargedTrace (trace : List Event) : Prop where
  allowed : ∀ before id response after, trace = before ++ .sent id response :: after →
    response.metadata.truncation = false →
    ∃ request, .arrived id request ∈ before ∧
      (request.isTcp = false → .charged id request.src .allow ∈ before)
  dropped : ∀ id request src response, .arrived id request ∈ trace → request.isTcp = false →
    .charged id src .drop ∈ trace → .sent id response ∉ trace

/-- A well-formed standard query of EDNS version 0. -/
def Request.Plain (r : Request) : Prop :=
  r.info.isOk = true ∧ r.metadata.opCode = .query ∧ r.version = 0

instance (r : Request) : Decidable r.Plain := inferInstanceAs (Decidable (_ ∧ _))

/-- The steps under which the server charges for everything it sends over UDP: only plain requests
arrive, and the socket takes a truncated response. Requests over TCP are not charged for. -/
def MeetsCharge {G : Governor} (s : System G) : Action → Prop
  | .arrive _ request => request.isTcp = false → request.Plain
  | .advance id world => ∀ task response k, s.tasks id = some task →
      task.request.isTcp = false → task.program = .transmit response k →
        response.metadata.truncation = true → world.sent = .ok ()
  | _ => True

namespace Handling

variable {α β : Type}

/-- The program neither asks nor sends. -/
def Silent : Handling α → Prop
  | .done _ => True
  | .load k => ∀ zones, (k zones).Silent
  | .await k => ∀ lookup, (k lookup).Silent
  | .charge .. => False
  | .transmit .. => False

/-- The program does not ask. -/
def Paid : Handling α → Prop
  | .done _ => True
  | .load k => ∀ zones, (k zones).Paid
  | .await k => ∀ lookup, (k lookup).Paid
  | .charge .. => False
  | .transmit _ k => ∀ sent, (k sent).Paid

/-- The program sends a truncated response and, if that goes well, nothing more. -/
def Truncates : Handling α → Prop
  | .transmit response k => response.metadata.truncation = true ∧ (k (.ok ())).Silent
  | _ => False

/-- The program asks for `src` before it sends, and heeds the answer. -/
def Careful (src : IpAddr) : Handling α → Prop
  | .done _ => True
  | .load k => ∀ zones, (k zones).Careful src
  | .await k => ∀ lookup, (k lookup).Careful src
  | .charge src' _ _ k => src' = src ∧ (k .allow).Paid ∧ (k .drop).Silent ∧ (k .truncate).Truncates
  | .transmit .. => False

/-- Programs that do not ask can be put one after another. -/
lemma Paid.bind {p : Handling α} {f : α → Handling β} (hp : p.Paid) (hf : ∀ a, (f a).Paid) :
    (p.bind f).Paid := by
  induction p with
  | done a => exact hf a
  | load k ih => exact fun zones => ih zones (hp zones)
  | await k ih => exact fun lookup => ih lookup (hp lookup)
  | charge src kind isTcp k ih => exact hp.elim
  | transmit response k ih => exact fun sent => ih sent (hp sent)

end Handling

/-- Handing a response over asks nothing. -/
lemma emit_paid (response : Response) : (emit response).Paid := by
  intro sent
  cases sent <;> exact trivial

/-- Nor does `send`. -/
lemma send_paid (request : Request) (reply : Reply) : (send request reply).Paid := by
  unfold send
  split
  · exact emit_paid _
  · intro zones
    simp only
    split
    · exact emit_paid _
    · exact trivial

/-- **A plain request** is asked about before anything is sent for it. -/
lemma handleRequest_careful {request : Request} (h : request.Plain) :
    (handleRequest request).Careful request.src := by
  obtain ⟨hinfo, hop, hversion⟩ := h
  unfold handleRequest handleInner
  cases hq : request.info with
  | error e =>
    rw [hq] at hinfo
    cases hinfo
  | ok query =>
    simp only [hop, ne_eq, not_true_eq_false, if_false, hversion, gt_iff_lt, lt_irrefl]
    intro zones lookup
    refine ⟨rfl, ?_, trivial, rfl, trivial⟩
    apply Handling.Paid.bind (send_paid request _)
    intro inner
    cases inner with
    | ok info => exact trivial
    | err reason => exact fun _ => trivial
    | panicked => exact fun _ => trivial

/-! ## The invariant -/

/-- Where a request in flight stands with the limiter. -/
inductive Standing (trace : List Event) (id : ℕ) (task : Task) : Prop
  /-- It has not been asked about, and nothing was sent. -/
  | fresh (program : task.program.Careful task.request.src)
      (quiet : ∀ e ∈ trace, e.id = id → e = .arrived id task.request)
  /-- It was allowed. -/
  | paid (program : task.program.Paid) (allow : .charged id task.request.src .allow ∈ trace)
      (noDrop : ∀ src, .charged id src .drop ∉ trace)
  /-- It is to be truncated, and nothing was sent. -/
  | slipped (program : task.program.Truncates) (noDrop : ∀ src, .charged id src .drop ∉ trace)
  /-- Nothing more will come of it. -/
  | finished (program : task.program.Silent)

/-- What holds of the server at every moment. -/
structure System.Inv {G : Governor} (s : System G) : Prop where
  charged : ChargedTrace s.trace
  arrived : ∀ id task, s.tasks id = some task → ∀ request,
    .arrived id request ∈ s.trace ↔ request = task.request
  standing : ∀ id task, s.tasks id = some task → task.request.isTcp = false →
    Standing s.trace id task

/-- At the start nothing has happened. -/
lemma System.start_inv {G : Governor} (zones : Zones) : (System.start zones : System G).Inv := by
  refine ⟨⟨?_, ?_⟩, ?_, ?_⟩
  · intro before id response after h
    simp [System.start] at h
  · intro id request src response h
    simp [System.start] at h
  · intro id task h
    simp [System.start] at h
  · intro id task h
    simp [System.start] at h

/-- Events of other requests do not change where a request stands. -/
lemma Standing.append {trace : List Event} {id : ℕ} {task : Task} (h : Standing trace id task)
    {es : List Event} (hes : ∀ e ∈ es, e.id ≠ id) : Standing (trace ++ es) id task := by
  have hold : ∀ e, e.id = id → e ∈ trace ++ es → e ∈ trace := by
    intro e hid hmem
    rcases List.mem_append.mp hmem with hmem | hmem
    · exact hmem
    · exact absurd hid (hes e hmem)
  cases h with
  | fresh program quiet => exact .fresh program fun e hmem hid => quiet e (hold e hid hmem) hid
  | paid program allow noDrop =>
    exact .paid program (by simp [allow]) fun src hmem => noDrop src (hold _ rfl hmem)
  | slipped program noDrop => exact .slipped program fun src hmem => noDrop src (hold _ rfl hmem)
  | finished program => exact .finished program

/-- Reading the configuration, or waiting, does not change where a request stands. -/
lemma Standing.pause {trace : List Event} {id : ℕ} {task : Task} (h : Standing trace id task)
    {program : Handling Metadata} (hcareful : task.program.Careful task.request.src →
      program.Careful task.request.src) (hpaid : task.program.Paid → program.Paid)
    (htruncates : ¬task.program.Truncates) (hsilent : task.program.Silent → program.Silent) :
    Standing trace id { task with program } := by
  cases h with
  | fresh h quiet => exact .fresh (hcareful h) quiet
  | paid h allow noDrop => exact .paid (hpaid h) allow noDrop
  | slipped h noDrop => exact absurd h htruncates
  | finished h => exact .finished (hsilent h)

/-- A request about which the limiter is being asked is fresh, and will heed the answer. -/
lemma Standing.of_charge {trace : List Event} {id : ℕ} {task : Task} (h : Standing trace id task)
    {src : IpAddr} {kind : Kind} {isTcp : Bool} {k : Decision → Handling Metadata}
    (hprogram : task.program = .charge src kind isTcp k) :
    (src = task.request.src ∧ (k .allow).Paid ∧ (k .drop).Silent ∧ (k .truncate).Truncates) ∧
      ∀ e ∈ trace, e.id = id → e = .arrived id task.request := by
  cases h with
  | fresh hcareful hquiet =>
    rw [hprogram] at hcareful
    exact ⟨hcareful, hquiet⟩
  | paid hpaid =>
    rw [hprogram] at hpaid
    exact hpaid.elim
  | slipped htruncates =>
    rw [hprogram] at htruncates
    exact htruncates.elim
  | finished hsilent =>
    rw [hprogram] at hsilent
    exact hsilent.elim

/-- A request for which a response is being sent was not dropped: it was allowed, or the response is
truncated and the last. -/
lemma Standing.of_transmit {trace : List Event} {id : ℕ} {task : Task} (h : Standing trace id task)
    {response : Response} {k : Except Bytes Unit → Handling Metadata}
    (hprogram : task.program = .transmit response k) :
    (∀ src, .charged id src .drop ∉ trace) ∧
      ((.charged id task.request.src .allow ∈ trace ∧ ∀ sent, (k sent).Paid) ∨
        (response.metadata.truncation = true ∧ (k (.ok ())).Silent)) := by
  cases h with
  | fresh hcareful =>
    rw [hprogram] at hcareful
    exact hcareful.elim
  | paid hpaid hallow hnodrop =>
    rw [hprogram] at hpaid
    exact ⟨hnodrop, .inl ⟨hallow, hpaid⟩⟩
  | slipped htruncates hnodrop =>
    rw [hprogram] at htruncates
    exact ⟨hnodrop, .inr htruncates⟩
  | finished hsilent =>
    rw [hprogram] at hsilent
    exact hsilent.elim

/-- An event that is not a response, and neither a `Drop` nor the arrival of a request something
was sent for, keeps the trace charged. -/
lemma ChargedTrace.append {trace : List Event} (h : ChargedTrace trace) {e : Event}
    (hsent : ∀ id response, e ≠ .sent id response)
    (hdrop : ∀ id request src, .arrived id request ∈ trace → request.isTcp = false →
      e = .charged id src .drop → ∀ response, .sent id response ∉ trace)
    (hnew : ∀ id request, e = .arrived id request → ∀ e' ∈ trace, e'.id ≠ id) :
    ChargedTrace (trace ++ [e]) := by
  refine ⟨?_, ?_⟩
  · intro before id response after heq htr
    rcases List.append_eq_append_iff.mp heq with ⟨mid, rfl, hmid⟩ | ⟨mid, hbefore, hmid⟩
    · have : Event.sent id response ∈ [e] := hmid ▸ by simp
      exact absurd (List.mem_singleton.mp this).symm (hsent id response)
    · cases mid with
      | nil =>
        have : Event.sent id response ∈ [e] := by
          rw [List.nil_append] at hmid
          rw [← hmid]
          simp
        exact absurd (List.mem_singleton.mp this).symm (hsent id response)
      | cons m mid =>
        obtain ⟨rfl, -⟩ := List.cons.inj hmid
        exact h.allowed before id response mid hbefore htr
  · intro id request src response harrived hudp hmem hsentmem
    have hs : Event.sent id response ∈ trace := by
      rcases List.mem_append.mp hsentmem with hs | hs
      · exact hs
      · exact absurd (List.mem_singleton.mp hs).symm (hsent id response)
    have ha : Event.arrived id request ∈ trace := by
      rcases List.mem_append.mp harrived with ha | ha
      · exact ha
      · exact absurd rfl (hnew id request (List.mem_singleton.mp ha).symm _ hs)
    rcases List.mem_append.mp hmem with hmem | hmem
    · exact h.dropped id request src response ha hudp hmem hs
    · exact hdrop id request src ha hudp (List.mem_singleton.mp hmem).symm response hs

/-- A response keeps the trace charged if it is truncated or was allowed, and not dropped; or if
its request came over TCP. -/
lemma ChargedTrace.append_sent {trace : List Event} (h : ChargedTrace trace) {id : ℕ}
    {response : Response} {request : Request}
    (harrived : ∀ request', .arrived id request' ∈ trace ↔ request' = request)
    (hallow : request.isTcp = false → response.metadata.truncation = false →
      .charged id request.src .allow ∈ trace)
    (hdrop : request.isTcp = false → ∀ src, .charged id src .drop ∉ trace) :
    ChargedTrace (trace ++ [.sent id response]) := by
  refine ⟨?_, ?_⟩
  · intro before id' response' after heq htr
    rcases List.append_eq_append_iff.mp heq with ⟨mid, rfl, hmid⟩ | ⟨mid, hbefore, hmid⟩
    · cases mid with
      | nil =>
        obtain ⟨hev, -⟩ := List.cons.inj hmid
        obtain ⟨rfl, rfl⟩ := Event.sent.inj hev
        rw [List.append_nil]
        exact ⟨request, (harrived request).mpr rfl, fun hudp => hallow hudp htr⟩
      | cons m mid => simp at hmid
    · cases mid with
      | nil =>
        obtain ⟨hev, -⟩ := List.cons.inj hmid
        obtain ⟨rfl, rfl⟩ := Event.sent.inj hev
        obtain rfl : trace = before := by simpa using hbefore
        exact ⟨request, (harrived request).mpr rfl, fun hudp => hallow hudp htr⟩
      | cons m mid =>
        obtain ⟨rfl, -⟩ := List.cons.inj hmid
        exact h.allowed before id' response' mid hbefore htr
  · intro id' request' src response' ha hudp hmem hsentmem
    have ha' : Event.arrived id' request' ∈ trace := by simpa using ha
    have hmem' : Event.charged id' src .drop ∈ trace := by simpa using hmem
    rcases List.mem_append.mp hsentmem with hs | hs
    · exact h.dropped id' request' src response' ha' hudp hmem' hs
    · obtain ⟨rfl, -⟩ := Event.sent.inj (List.mem_singleton.mp hs)
      obtain rfl := (harrived request').mp ha'
      exact hdrop hudp src hmem'

namespace System

variable {G : Governor}

/-- A step of one request: only its own standing has to be looked at again. -/
lemma Inv.of_update {s s' : System G} (h : s.Inv) {id : ℕ} {next : Option Task} (es : List Event)
    (htasks : s'.tasks = Function.update s.tasks id next) (htrace : s'.trace = s.trace ++ es)
    (hid : ∀ e ∈ es, e.id = id) (hcharged : ChargedTrace (s.trace ++ es))
    (hnext : ∀ task, next = some task →
      (∀ request, .arrived id request ∈ s.trace ++ es ↔ request = task.request) ∧
        (task.request.isTcp = false → Standing (s.trace ++ es) id task)) : s'.Inv := by
  have hother : ∀ id' task, id' ≠ id → s'.tasks id' = some task → s.tasks id' = some task := by
    intro id' task hne htask
    rwa [htasks, Function.update_of_ne hne] at htask
  have hown : ∀ task, s'.tasks id = some task → next = some task := by
    intro task htask
    rwa [htasks, Function.update_self] at htask
  refine ⟨htrace ▸ hcharged, ?_, ?_⟩
  · intro id' task htask
    rw [htrace]
    by_cases hne : id' = id
    · subst hne
      exact (hnext task (hown task htask)).1
    · intro request
      have hes : Event.arrived id' request ∉ es := fun he => hne (hid _ he)
      rw [List.mem_append, or_iff_left hes]
      exact h.arrived id' task (hother id' task hne htask) request
  · intro id' task htask hudp
    rw [htrace]
    by_cases hne : id' = id
    · subst hne
      exact (hnext task (hown task htask)).2 hudp
    · apply (h.standing id' task (hother id' task hne htask) hudp).append
      intro e he
      rw [hid e he]
      exact fun heq => hne heq.symm

/-- **A request arrives**: if it is plain, its program is careful. -/
lemma Inv.arrive {s : System G} (h : s.Inv) {id : ℕ} {request : Request}
    (hplain : request.isTcp = false → request.Plain) (hnew : ∀ e ∈ s.trace, e.id ≠ id) :
    ({ s with
      tasks := Function.update s.tasks id (some ⟨request, handleRequest request⟩)
      trace := s.trace ++ [.arrived id request] } : System G).Inv := by
  refine h.of_update [.arrived id request] rfl rfl (by simp [Event.id]) ?_ ?_
  · apply h.charged.append
    · intro id' response he
      cases he
    · intro id' request' src _ _ he
      cases he
    · intro id' request' he
      obtain ⟨rfl, -⟩ := Event.arrived.inj he
      exact hnew
  · intro task htask
    obtain rfl := Option.some.inj htask
    refine ⟨fun request' => ?_, fun hudp => .fresh (handleRequest_careful (hplain hudp)) ?_⟩
    · have hold : Event.arrived id request' ∉ s.trace := fun he => hnew _ he rfl
      simp [hold]
    · intro e he hid
      rcases List.mem_append.mp he with he | he
      · exact absurd hid (hnew e he)
      · exact List.mem_singleton.mp he

section Task

variable {s : System G} (h : s.Inv) {id : ℕ} {task : Task} (htask : s.tasks id = some task)

include h htask

/-- **A pause**: there is no event, and the program goes on. -/
lemma Inv.pause {program : Handling Metadata}
    (hcareful : task.program.Careful task.request.src → program.Careful task.request.src)
    (hpaid : task.program.Paid → program.Paid) (htruncates : ¬task.program.Truncates)
    (hsilent : task.program.Silent → program.Silent) : (s.resume id task program).Inv := by
  refine h.of_update [] rfl (by simp [resume]) (by simp) (by simpa using h.charged) ?_
  intro task' htask'
  obtain rfl := Option.some.inj htask'
  rw [List.append_nil]
  refine ⟨h.arrived id task htask, fun hudp => ?_⟩
  exact (h.standing id task htask hudp).pause hcareful hpaid htruncates hsilent

/-- **The limiter is asked**: the program heeds the answer, whatever it is. -/
lemma Inv.charge {src : IpAddr} {kind : Kind} {isTcp : Bool} {k : Decision → Handling Metadata}
    (hprogram : task.program = .charge src kind isTcp k) (decision : Decision) (rrl : Rrl G) :
    (({ s with rrl }.resume id task (k decision)).log (.charged id src decision)).Inv := by
  have hfresh := fun hudp => (h.standing id task htask hudp).of_charge hprogram
  refine h.of_update [.charged id src decision] rfl rfl (by simp [Event.id]) ?_ ?_
  · apply h.charged.append
    · intro id' response he
      cases he
    · -- nothing was sent yet for a request over UDP
      intro id' request src' ha hudp he response hmem
      obtain ⟨rfl, -, -⟩ := Event.charged.inj he
      obtain rfl := (h.arrived id task htask request).mp ha
      cases (hfresh hudp).2 _ hmem rfl
    · intro id' request he
      cases he
  · intro task' htask'
    obtain rfl := Option.some.inj htask'
    refine ⟨fun request => by simpa using h.arrived id task htask request, fun hudp => ?_⟩
    obtain ⟨⟨rfl, hallow, hdrop, htruncate⟩, hquiet⟩ := hfresh hudp
    have hnodrop : decision ≠ .drop → ∀ src,
        Event.charged id src .drop ∉ s.trace ++ [.charged id task.request.src decision] := by
      intro hd src hmem
      rcases List.mem_append.mp hmem with hmem | hmem
      · cases hquiet _ hmem rfl
      · obtain ⟨-, -, heq⟩ := Event.charged.inj (List.mem_singleton.mp hmem)
        exact hd heq.symm
    cases decision with
    | allow => exact .paid hallow (by simp) (hnodrop (by simp))
    | drop => exact .finished hdrop
    | truncate => exact .slipped htruncate (hnodrop (by simp))

/-- **A response is sent**: it was allowed, or it is truncated and the last. -/
lemma Inv.transmit {response : Response} {k : Except Bytes Unit → Handling Metadata}
    (hprogram : task.program = .transmit response k) {sent : Except Bytes Unit}
    (hsent : task.request.isTcp = false → response.metadata.truncation = true → sent = .ok ()) :
    ((s.resume id task (k sent)).log (.sent id response)).Inv := by
  have hstands := fun hudp => (h.standing id task htask hudp).of_transmit hprogram
  refine h.of_update [.sent id response] rfl rfl (by simp [Event.id]) ?_ ?_
  · refine h.charged.append_sent (h.arrived id task htask) (fun hudp hwhole => ?_)
      fun hudp => (hstands hudp).1
    rcases (hstands hudp).2 with ⟨hallow, -⟩ | ⟨htc, -⟩
    · exact hallow
    · rw [hwhole] at htc
      cases htc
  · intro task' htask'
    obtain rfl := Option.some.inj htask'
    refine ⟨fun request => by simpa using h.arrived id task htask request, fun hudp => ?_⟩
    obtain ⟨hnodrop, ⟨hallow, hpaid⟩ | ⟨htc, hsilent⟩⟩ := hstands hudp
    · exact .paid (hpaid sent) (by simp [hallow]) fun src => by simpa using hnodrop src
    · obtain rfl := hsent hudp htc
      exact .finished hsilent

end Task

/-- **One step** of the server keeps the invariant, under the condition on the step. -/
lemma step_inv {s s' : System G} {a : Action} (hok : MeetsCharge s a) (hstep : s.step a = some s')
    (h : s.Inv) : s'.Inv := by
  cases steps_of_step hstep with
  | arrive hnew => exact h.arrive hok hnew
  | finish => exact h.of_update [] rfl (by simp) (by simp) (by simpa using h.charged) (by simp)
  | load htask hprogram =>
    apply h.pause htask <;> rw [hprogram]
    · exact fun hc => hc s.zones
    · exact fun hp => hp s.zones
    · exact not_false
    · exact fun hs => hs s.zones
  | @await id world task k htask hprogram =>
    apply h.pause htask <;> rw [hprogram]
    · exact fun hc => hc world.lookup
    · exact fun hp => hp world.lookup
    · exact not_false
    · exact fun hs => hs world.lookup
  | charge htask hprogram => exact h.charge htask hprogram _ _
  | transmit htask hprogram =>
    exact h.transmit htask hprogram fun hudp => hok _ _ _ htask hudp hprogram
  | reload => exact ⟨h.charged, h.arrived, h.standing⟩
  | sweep => exact ⟨h.charged, h.arrived, h.standing⟩

end System

/-- **Everything sent over UDP is charged**, in every run whose requests over UDP are plain and
whose truncated responses the socket takes: in every state reached, every response to a request
over UDP that has no truncation flag was preceded by an `Allow` for the source of its request, and
nothing was sent for a request over UDP that was dropped. -/
theorem chargedTrace_of_exec {G : Governor} {zones : Zones} {actions : List Action} {s : System G}
    (hexec : Run.exec System.step (System.start zones) actions = some s)
    (hok : Run.Along System.step MeetsCharge (System.start zones : System G) actions) :
    ChargedTrace s.trace :=
  (Run.exec_invariant (fun _ _ _ hok hstep h => System.step_inv hok hstep h) hexec hok
    (System.start_inv zones)).charged

/-- A world in which the upstreams fail and the socket works. -/
def calmWorld : World := ⟨0, fun _ => .failed, .ok ()⟩

/-- A PTR query over UDP, from a client of the documentation network. -/
def ptrRequest : Request where
  src := .v4 0xC0000201
  isTcp := false
  metadata := { id := 7, isResponse := false, opCode := .query }
  info := .ok ⟨sampleReverse, .PTR, .IN⟩
  edns := none

/-- A run that takes a request from its arrival to its end. -/
def fullRun (request : Request) : List Action :=
  .arrive 0 request :: List.replicate 5 (.advance 0 calmWorld)

/-- A PTR query is asked about before it is answered. -/
theorem chargedTrace_ptrRequest :
    ∃ s : System Rrl.tokenBuckets,
      Run.exec System.step (System.start sampleZones) (fullRun ptrRequest) = some s ∧
        s.trace.length = 3 ∧ ChargedTrace s.trace := by
  have hlen : ((Run.exec System.step (System.start sampleZones : System Rrl.tokenBuckets)
      (fullRun ptrRequest)).map fun s => s.trace.length) = some 3 := by
    decide +kernel
  obtain ⟨s, hs, htrace⟩ := Option.map_eq_some_iff.mp hlen
  refine ⟨s, hs, htrace, chargedTrace_of_exec hs ?_⟩
  have hcalm : ∀ s : System Rrl.tokenBuckets, MeetsCharge s (.advance 0 calmWorld) :=
    fun _ _ _ _ _ _ _ _ => rfl
  have hplain : ptrRequest.Plain := by decide
  refine ⟨fun _ => hplain, fun _ _ => ⟨hcalm _, fun _ _ => ⟨hcalm _, fun _ _ => ?_⟩⟩⟩
  exact ⟨hcalm _, fun _ _ => ⟨hcalm _, fun _ _ => ⟨hcalm _, fun _ _ => trivial⟩⟩⟩

/-- A NOTIFY over UDP. -/
def notifyRequest : Request :=
  { ptrRequest with metadata := { id := 7, isResponse := false, opCode := .notify } }

/-- A NOTIFY is answered without asking. -/
theorem chargedTrace_notifyRequest :
    sampleZones.config.params.rrl.enabled = true ∧ notifyRequest.isTcp = false ∧
      ∃ (s : System Rrl.tokenBuckets) (response : Response),
        Run.exec System.step (System.start sampleZones) ((fullRun notifyRequest).take 3) = some s ∧
        s.trace = [.arrived 0 notifyRequest, .sent 0 response] ∧ ¬ChargedTrace s.trace := by
  refine ⟨by decide +kernel, rfl, ?_⟩
  let response : Response :=
    { metadata := { id := 7, isResponse := true, opCode := .notify, code := .notImp } }
  have htrace : (Run.exec System.step (System.start sampleZones : System Rrl.tokenBuckets)
      ((fullRun notifyRequest).take 3)).map System.trace =
        some [.arrived 0 notifyRequest, .sent 0 response] := by
    decide +kernel
  obtain ⟨s, hs, hst⟩ := Option.map_eq_some_iff.mp htrace
  refine ⟨s, response, hs, hst, fun hcharged => ?_⟩
  obtain ⟨request, harrived, hallow⟩ :=
    hcharged.allowed [.arrived 0 notifyRequest] 0 response [] hst rfl
  obtain ⟨-, rfl⟩ := Event.arrived.inj (List.mem_singleton.mp harrived)
  have hmem := hallow rfl
  simp at hmem

end PanoptiDns
