import PanoptiDns.Server.System

set_option relaxedAutoImplicit false
set_option autoImplicit false

/-!
# One configuration for one request

The configuration is behind one pointer, so that a reload cannot be seen half done. A request that
reads the pointer once is answered from one configuration; but `send` reads it again, for the
payload size it advertises. Here the server is watched: what each request was told by the world,
which configurations were current meanwhile, and what was sent for it. A response comes from one
configuration if the same program, told the same things but for the configuration, sends it.

## Main definitions

* `Answer`, `Handling.feed`, `Handling.after` — programs, told what the effects come to.
* `Watched`, `Watched.step` — the server with the history of each request.
* `Served.OneSnapshot` — the response is that of one configuration, current meanwhile.
* `Request.SamePayload`, `Zones.Alike`, `KeepsSnapshot` — the condition on the second reading.

## Main results

* `Watched.exec_system` — watching does not change what the server does.
* `handleRequest_fresh` — what a request's program does with the configurations it reads.
* `served_oneSnapshot` — every response is that of one configuration, in every run that meets the
  condition.
-/

namespace PanoptiDns

open Bytes

/-! ## Programs told what to expect -/

/-- What an effect came to. -/
inductive Answer
  | loaded (zones : Zones)
  | awaited (lookup : IpAddr → LookupOutcome)
  | decided (decision : Decision)
  | sent (result : Except Bytes Unit)

/-- The same, with another configuration. -/
def Answer.under (zones : Zones) : Answer → Answer
  | .loaded _ => .loaded zones
  | answer => answer

namespace Handling

variable {α : Type}

/-- The program after its next effect, if the effect can come to this. -/
def feed : Handling α → Answer → Option (Handling α)
  | .load k, .loaded zones => some (k zones)
  | .await k, .awaited lookup => some (k lookup)
  | .charge _ _ _ k, .decided decision => some (k decision)
  | .transmit _ k, .sent result => some (k result)
  | _, _ => none

/-- The program after a history. -/
def after (program : Handling α) (history : List Answer) : Option (Handling α) :=
  Run.exec feed program history

/-- The response the program is about to send. -/
def response : Handling α → Option Response
  | .transmit response _ => some response
  | _ => none

/-- One more answer feeds the program that the earlier ones led to. -/
lemma after_append {program program' : Handling α} {history : List Answer}
    (h : program.after history = some program') (answer : Answer) :
    program.after (history ++ [answer]) = program'.feed answer := by
  unfold after at *
  rw [Run.exec_append, h, Option.bind_some, Run.exec_cons]
  cases program'.feed answer <;> rfl

end Handling

/-! ## The server, watched -/

/-- A response that was sent: for which request, what its program had been told, and which
configurations were current since the request arrived. -/
structure Served where
  request : Request
  history : List Answer
  current : List Zones
  response : Response

/-- The response is the one that a single configuration, current at some moment during the request,
gives for the request alone, when the upstreams, the limiter and the socket answer the same. -/
def Served.OneSnapshot (sv : Served) : Prop :=
  ∃ zones ∈ sv.current,
    ((handleRequest sv.request).after (sv.history.map (Answer.under zones))).bind
      Handling.response = some sv.response

instance (sv : Served) : Decidable sv.OneSnapshot := inferInstanceAs (Decidable (∃ _ ∈ _, _))

/-- The server, what the requests in flight were told, which configurations were current since
they arrived, and what was sent. -/
structure Watched (G : Governor) where
  system : System G
  history : ℕ → List Answer
  current : ℕ → List Zones
  served : List Served

namespace Watched

variable {G : Governor}

/-- A server that has just started. -/
def start (zones : Zones) : Watched G := ⟨.start zones, fun _ => [], fun _ => [], []⟩

/-- A request's program is told something. -/
def tell (s : Watched G) (id : ℕ) (answer : Answer) : Watched G :=
  { s with history := Function.update s.history id (s.history id ++ [answer]) }

/-- What is noted of one effect of a request's program. -/
def note (s : Watched G) (id : ℕ) (task : Task) (world : World) : Watched G :=
  match task.program with
  | .done _ => s
  | .load _ => s.tell id (.loaded s.system.zones)
  | .await _ => s.tell id (.awaited world.lookup)
  | .charge src kind isTcp _ =>
    s.tell id (.decided (s.system.rrl.decide world.now src kind isTcp).1)
  | .transmit response _ =>
    { s.tell id (.sent world.sent) with
      served := s.served ++ [⟨task.request, s.history id, s.current id, response⟩] }

/-- What is noted of a step of the server. -/
def watch (s : Watched G) : Action → Watched G
  | .arrive id _ =>
    { s with
      history := Function.update s.history id []
      current := Function.update s.current id [s.system.zones] }
  | .advance id world =>
    match s.system.tasks id with
    | some task => s.note id task world
    | none => s
  | .reload zones => { s with current := fun id => s.current id ++ [zones] }
  | .sweep _ => s

/-- A step of the server, watched. -/
def step (s : Watched G) (a : Action) : Option (Watched G) :=
  (s.system.step a).map fun system => { s.watch a with system }

/-- **Watching changes nothing.** -/
lemma exec_system (s : Watched G) (actions : List Action) :
    (Run.exec step s actions).map Watched.system = Run.exec System.step s.system actions := by
  induction actions generalizing s with
  | nil => rfl
  | cons a actions ih =>
    rw [Run.exec_cons, Run.exec_cons, step]
    cases s.system.step a with
    | none => rfl
    | some system => exact ih _

end Watched

/-! ## What a program does with what it loads -/

/-- The payload size advertised to the client is the same under both configurations. -/
def Request.SamePayload (r : Request) (z w : Zones) : Prop :=
  z.config.params.maxUdpPayload = w.config.params.maxUdpPayload ∨
    (r.isTcp = false ∧ max 512 r.maxPayload ≤ z.config.params.maxUdpPayload ∧
      max 512 r.maxPayload ≤ w.config.params.maxUdpPayload)

/-- The two configurations decide alike. -/
structure Zones.Alike (z w : Zones) : Prop where
  zones : z.config.zones = w.config.zones
  soa : z.config.soa = w.config.soa
  nameservers : z.config.nameservers = w.config.nameservers
  outOfZone : z.config.params.outOfZone = w.config.params.outOfZone
  upstreams : z.upstreams = w.upstreams

/-- A configuration is like itself. -/
lemma Zones.Alike.refl (z : Zones) : z.Alike z := ⟨rfl, rfl, rfl, rfl, rfl⟩

/-- The limits and the `listen` addresses do not enter a decision. -/
lemma decide_congr {z w : Zones} (h : z.Alike w) (lookup : IpAddr → LookupOutcome) (q : Name)
    (t : RecordType) (cl : DNSClass) : decide z lookup q t cl = decide w lookup q t cl := by
  obtain ⟨⟨listen, zones, soa, nameservers, params⟩, upstreams⟩ := z
  obtain ⟨⟨listen', zones', soa', nameservers', params'⟩, upstreams'⟩ := w
  obtain ⟨hzones, hsoa, hns, hpolicy, hup⟩ := h
  simp only at hzones hsoa hns hpolicy hup
  subst hzones hsoa hns hup
  unfold decide decideName
  simp only [hpolicy]
  rfl

namespace Handling

variable {α β : Type} (request : Request)

/-- The program does not read the configuration. -/
def NoLoad : Handling α → Prop
  | .done _ => True
  | .load _ => False
  | .await k => ∀ lookup, (k lookup).NoLoad
  | .charge _ _ _ k => ∀ decision, (k decision).NoLoad
  | .transmit _ k => ∀ sent, (k sent).NoLoad

/-- The program goes on from a decision under `z`, and reads the configuration once more at most,
for the payload size. -/
def Stale (z : Zones) : Handling α → Prop
  | .done _ => True
  | .load k => ∀ w, (k w).NoLoad ∧ (request.SamePayload z w → k w = k z)
  | .await k => ∀ lookup, (k lookup).Stale z
  | .charge _ _ _ k => ∀ decision, (k decision).Stale z
  | .transmit _ k => ∀ sent, (k sent).Stale z

/-- The program has not read the configuration. It reads it for good, or decides from it and goes
on the same under every configuration that decides alike. -/
def Fresh : Handling α → Prop
  | .done _ => True
  | .load k => ∀ z, (k z).NoLoad ∨ ((k z).Stale request z ∧ ∀ w, z.Alike w → k w = k z)
  | .await k => ∀ lookup, (k lookup).Fresh
  | .charge _ _ _ k => ∀ decision, (k decision).Fresh
  | .transmit _ k => ∀ sent, (k sent).Fresh

/-- Programs that read no configuration can be put one after another. -/
lemma NoLoad.bind {p : Handling α} {f : α → Handling β} (hp : p.NoLoad) (hf : ∀ a, (f a).NoLoad) :
    (p.bind f).NoLoad := by
  induction p with
  | done a => exact hf a
  | load k ih => exact hp.elim
  | await k ih => exact fun lookup => ih lookup (hp lookup)
  | charge src kind isTcp k ih => exact fun decision => ih decision (hp decision)
  | transmit response k ih => exact fun sent => ih sent (hp sent)

variable {request}

/-- Such a program goes on from any decision as it must: there is nothing more to read. -/
lemma NoLoad.stale {p : Handling α} (h : p.NoLoad) (z : Zones) : p.Stale request z := by
  induction p with
  | done a => trivial
  | load k ih => exact h.elim
  | await k ih => exact fun lookup => ih lookup (h lookup)
  | charge src kind isTcp k ih => exact fun decision => ih decision (h decision)
  | transmit response k ih => exact fun sent => ih sent (h sent)

/-- Nor does it matter that it has read nothing yet. -/
lemma NoLoad.fresh {p : Handling α} (h : p.NoLoad) : p.Fresh request := by
  induction p with
  | done a => trivial
  | load k ih => exact h.elim
  | await k ih => exact fun lookup => ih lookup (h lookup)
  | charge src kind isTcp k ih => exact fun decision => ih decision (h decision)
  | transmit response k ih => exact fun sent => ih sent (h sent)

end Handling

/-- Handing a response over reads no configuration. -/
lemma emit_noLoad (response : Response) : (emit response).NoLoad := by
  intro sent
  cases sent <;> exact trivial

/-- Nor does SERVFAIL. -/
lemma servfail_noLoad (request : Request) : (servfail request).NoLoad := fun _ => trivial

/-- The payload size `send` advertises. -/
def advertised (request : Request) (zones : Zones) : Option ℕ :=
  let max := zones.config.params.maxUdpPayload
  if request.isTcp then some max else clamp request.maxPayload 512 max

/-- Two configurations with one limit, or with room for what the client asks, advertise the same. -/
lemma advertised_congr {request : Request} {z w : Zones} (h : request.SamePayload z w) :
    advertised request z = advertised request w := by
  unfold advertised
  rcases h with h | ⟨hudp, hz, hw⟩
  · rw [h]
  · have hpos : ∀ m, max 512 request.maxPayload ≤ m →
        clamp request.maxPayload 512 m = some (max 512 request.maxPayload) := by
      intro m hm
      rw [clamp, if_pos ((le_max_left _ _).trans hm), min_eq_left ((le_max_right _ _).trans hm)]
    simp only [hudp, Bool.false_eq_true, if_false]
    rw [hpos _ hz, hpos _ hw]

/-- What `handle_request` does when the guarded part has ended. -/
def conclude (request : Request) : Inner → Handling Metadata
  | .ok info => .done info
  | .err _ => servfail request
  | .panicked => servfail request

/-- The end of a request reads no configuration. -/
lemma conclude_noLoad (request : Request) (inner : Inner) : (conclude request inner).NoLoad := by
  cases inner with
  | ok info => trivial
  | err reason => exact servfail_noLoad request
  | panicked => exact servfail_noLoad request

/-- `send` reads nothing without EDNS. -/
lemma send_noLoad {request : Request} (h : request.edns = none) (reply : Reply) :
    (send request reply).NoLoad := by
  unfold send
  rw [h]
  exact emit_noLoad _

/-- **With EDNS, `send` reads the payload size** and nothing else of the configuration. -/
lemma send_eq_load {request : Request} {edns : Edns} (h : request.edns = some edns)
    (reply : Reply) :
    ∃ k : Option ℕ → Handling Inner, (∀ payload, (k payload).NoLoad) ∧
      send request reply = .load fun zones => k (advertised request zones) := by
  unfold send
  rw [h]
  let response : Response :=
    { metadata := { request.metadata.responseFromRequest with
        code := reply.code, authoritative := reply.authoritative }
      answers := reply.answers
      authority := reply.authority }
  refine ⟨fun payload => payload.elim (.done .panicked) fun advertised =>
    emit { response with edns := some advertised }, ?_, ?_⟩
  · intro payload
    cases payload with
    | some advertised => exact emit_noLoad _
    | none => trivial
  · apply congrArg
    funext zones
    unfold advertised
    simp only
    cases (if request.isTcp then some zones.config.params.maxUdpPayload
      else clamp request.maxPayload 512 zones.config.params.maxUdpPayload) with
    | some payload => rfl
    | none => rfl

/-- Before a decision, `send` reads the configuration for good, for the payload size. -/
lemma send_bind_fresh (request : Request) (reply : Reply) :
    ((send request reply).bind (conclude request)).Fresh request := by
  cases hedns : request.edns with
  | none => exact ((send_noLoad hedns reply).bind (conclude_noLoad request)).fresh
  | some edns =>
    obtain ⟨k, hk, hsend⟩ := send_eq_load hedns reply
    rw [hsend]
    exact fun z => .inl ((hk _).bind (conclude_noLoad request))

/-- After a decision, it goes on the same if the payload size is the one of the decision. -/
lemma send_bind_stale (request : Request) (reply : Reply) (z : Zones) :
    ((send request reply).bind (conclude request)).Stale request z := by
  cases hedns : request.edns with
  | none => exact ((send_noLoad hedns reply).bind (conclude_noLoad request)).stale z
  | some edns =>
    obtain ⟨k, hk, hsend⟩ := send_eq_load hedns reply
    rw [hsend]
    intro w
    refine ⟨(hk _).bind (conclude_noLoad request), fun hsame => ?_⟩
    simp only [advertised_congr hsame]

/-- **A request's program** reads the configuration to decide, and once more for the payload
size. -/
lemma handleRequest_fresh (request : Request) : (handleRequest request).Fresh request := by
  have hbind : handleRequest request = (handleInner request).bind (conclude request) := rfl
  rw [hbind]
  unfold handleInner
  cases request.info with
  | error e => exact (servfail_noLoad request).fresh
  | ok query =>
    simp only
    split
    · exact send_bind_fresh request _
    split
    · exact send_bind_fresh request _
    intro z
    right
    constructor
    · intro lookup decision
      cases decision with
      | allow => exact send_bind_stale request _ z
      | drop => trivial
      | truncate => exact ((emit_noLoad _).bind (conclude_noLoad request)).stale z
    · intro w hzw
      simp only [decide_congr hzw]

/-! ## The condition -/

/-- The steps under which a request is answered from one configuration: when a program that has
read the configuration reads it again, the payload size for the request is the same, or the two
configurations decide alike. -/
def KeepsSnapshot {G : Governor} (s : Watched G) : Action → Prop
  | .advance id _ => ∀ task k z, s.system.tasks id = some task → task.program = .load k →
      .loaded z ∈ s.history id →
        task.request.SamePayload z s.system.zones ∨ z.Alike s.system.zones
  | _ => True

/-- Where a request in flight stands with the configurations that were current. -/
inductive Tracked (current : List Zones) (history : List Answer) (task : Task) : Prop
  /-- It has read none: under any, it would be where it is. -/
  | unread (program : task.program.Fresh task.request)
      (replay : ∀ z, (handleRequest task.request).after (history.map (Answer.under z)) =
        some task.program)
  /-- It has decided from one. -/
  | decided (z : Zones) (mem : z ∈ current) (loaded : .loaded z ∈ history)
      (program : task.program.Stale task.request z)
      (replay : ∀ w, z.Alike w → (handleRequest task.request).after
        (history.map (Answer.under w)) = some task.program)
  /-- It will read no more, and is where one of them has put it. -/
  | settled (z : Zones) (mem : z ∈ current) (program : task.program.NoLoad)
      (replay : (handleRequest task.request).after (history.map (Answer.under z)) =
        some task.program)

/-- What holds of the watched server at every moment. -/
structure Watched.Inv {G : Governor} (s : Watched G) : Prop where
  served : ∀ sv ∈ s.served, sv.OneSnapshot
  latest : ∀ id task, s.system.tasks id = some task → s.system.zones ∈ s.current id
  tracked : ∀ id task, s.system.tasks id = some task → Tracked (s.current id) (s.history id) task

/-- A reload adds to the configurations a request may have read. -/
lemma Tracked.mono {current : List Zones} {history : List Answer} {task : Task}
    (h : Tracked current history task) (z : Zones) : Tracked (current ++ [z]) history task := by
  cases h with
  | unread program replay => exact .unread program replay
  | decided w mem loaded program replay =>
    exact .decided w (List.mem_append_left _ mem) loaded program replay
  | settled w mem program replay => exact .settled w (List.mem_append_left _ mem) program replay

/-- What a program that was replayed does next, it does replayed. -/
lemma after_map_append {request : Request} {history : List Answer} {z : Zones}
    {program : Handling Metadata}
    (h : (handleRequest request).after (history.map (Answer.under z)) = some program)
    (answer : Answer) : (handleRequest request).after ((history ++ [answer]).map (Answer.under z)) =
      program.feed (answer.under z) := by
  rw [List.map_append]
  exact Handling.after_append h _

/-- **The configuration is read**: for the first time, to decide or for good; or again, under the
condition. -/
lemma Tracked.load {current : List Zones} {history : List Answer} {task : Task}
    (h : Tracked current history task) {k : Zones → Handling Metadata}
    (hprogram : task.program = .load k) {z : Zones} (hz : z ∈ current)
    (hok : ∀ w, .loaded w ∈ history → task.request.SamePayload w z ∨ w.Alike z) :
    Tracked current (history ++ [.loaded z]) { task with program := k z } := by
  have hnext : ∀ w, (handleRequest task.request).after (history.map (Answer.under w)) =
      some task.program → (handleRequest task.request).after
        ((history ++ [Answer.loaded z]).map (Answer.under w)) = some (k w) := by
    intro w hw
    rw [after_map_append hw, hprogram]
    rfl
  cases h with
  | unread program replay =>
    rw [hprogram] at program
    rcases program z with hno | ⟨hstale, halike⟩
    · exact .settled z hz hno (hnext z (replay z))
    · refine .decided z hz (by simp) hstale fun w hw => ?_
      rw [hnext w (replay w), halike w hw]
  | decided w mem loaded program replay =>
    rw [hprogram] at program
    obtain ⟨hno, hsame⟩ := program z
    rcases hok w loaded with hpayload | halike
    · refine .settled w mem hno ?_
      rw [hnext w (replay w (.refl w)), hsame hpayload]
    · exact .settled z hz hno (hnext z (replay z halike))
  | settled w mem program replay =>
    rw [hprogram] at program
    exact program.elim

/-- **Another effect**: it comes to the same under every configuration. -/
lemma Tracked.pass {current : List Zones} {history : List Answer} {task : Task}
    (h : Tracked current history task) {answer : Answer} (hsame : ∀ z, answer.under z = answer)
    {program : Handling Metadata} (hfeed : task.program.feed answer = some program)
    (hfresh : task.program.Fresh task.request → program.Fresh task.request)
    (hstale : ∀ z, task.program.Stale task.request z → program.Stale task.request z)
    (hno : task.program.NoLoad → program.NoLoad) :
    Tracked current (history ++ [answer]) { task with program } := by
  have hnext : ∀ w, (handleRequest task.request).after (history.map (Answer.under w)) =
      some task.program → (handleRequest task.request).after
        ((history ++ [answer]).map (Answer.under w)) = some program := by
    intro w hw
    rw [after_map_append hw, hsame, hfeed]
  cases h with
  | unread h replay => exact .unread (hfresh h) fun z => hnext z (replay z)
  | decided w mem loaded h replay =>
    exact .decided w mem (List.mem_append_left _ loaded) (hstale w h)
      fun z hz => hnext z (replay z hz)
  | settled w mem h replay => exact .settled w mem (hno h) (hnext w replay)

/-- **What is sent** is what one of the current configurations sends. -/
lemma Tracked.oneSnapshot {current : List Zones} {history : List Answer} {task : Task}
    (h : Tracked current history task) {z : Zones} (hz : z ∈ current) {response : Response}
    {k : Except Bytes Unit → Handling Metadata} (hprogram : task.program = .transmit response k) :
    (⟨task.request, history, current, response⟩ : Served).OneSnapshot := by
  have hsent : ∀ w, (handleRequest task.request).after (history.map (Answer.under w)) =
      some task.program → ((handleRequest task.request).after
        (history.map (Answer.under w))).bind Handling.response = some response := by
    intro w hw
    rw [hw, hprogram]
    rfl
  cases h with
  | unread program replay => exact ⟨z, hz, hsent z (replay z)⟩
  | decided w mem loaded program replay => exact ⟨w, mem, hsent w (replay w (.refl w))⟩
  | settled w mem program replay => exact ⟨w, mem, hsent w replay⟩

namespace Watched

variable {G : Governor}

/-- At the start nothing is served. -/
lemma start_inv (zones : Zones) : (Watched.start zones : Watched G).Inv := by
  refine ⟨?_, ?_, ?_⟩
  · intro sv hsv
    simp [start] at hsv
  · intro id task htask
    simp [start, System.start] at htask
  · intro id task htask
    simp [start, System.start] at htask

/-- A step of one request: only its own history has to be looked at again. -/
lemma Inv.of_update {s s' : Watched G} (h : s.Inv) (id : ℕ) (next : Option Task)
    (hzones : s'.system.zones = s.system.zones)
    (htasks : s'.system.tasks = Function.update s.system.tasks id next)
    (hhistory : ∀ id', id' ≠ id → s'.history id' = s.history id')
    (hcurrent : ∀ id', id' ≠ id → s'.current id' = s.current id')
    (hserved : ∀ sv ∈ s'.served, sv.OneSnapshot)
    (hnext : ∀ task, next = some task →
      s.system.zones ∈ s'.current id ∧ Tracked (s'.current id) (s'.history id) task) : s'.Inv := by
  have hother : ∀ id' task, id' ≠ id → s'.system.tasks id' = some task →
      s.system.tasks id' = some task := by
    intro id' task hne htask
    rwa [htasks, Function.update_of_ne hne] at htask
  have hown : ∀ task, s'.system.tasks id = some task → next = some task := by
    intro task htask
    rwa [htasks, Function.update_self] at htask
  refine ⟨hserved, ?_, ?_⟩
  · intro id' task htask
    rw [hzones]
    by_cases hne : id' = id
    · subst hne
      exact (hnext task (hown task htask)).1
    · rw [hcurrent id' hne]
      exact h.latest id' task (hother id' task hne htask)
  · intro id' task htask
    by_cases hne : id' = id
    · subst hne
      exact (hnext task (hown task htask)).2
    · rw [hcurrent id' hne, hhistory id' hne]
      exact h.tracked id' task (hother id' task hne htask)

/-- **A request arrives** with nothing read. -/
lemma Inv.arrive {s : Watched G} (h : s.Inv) {id : ℕ} {request : Request} {system : System G}
    (hstep : s.system.step (.arrive id request) = some system) :
    ({ s.watch (.arrive id request) with system } : Watched G).Inv := by
  simp only [System.step] at hstep
  split at hstep
  · cases hstep
  obtain rfl := Option.some.inj hstep
  refine h.of_update id _ rfl rfl ?_ ?_ h.served ?_
  · intro id' hne
    exact Function.update_of_ne hne _ _
  · intro id' hne
    exact Function.update_of_ne hne _ _
  · intro task htask
    obtain rfl := Option.some.inj htask
    simp only [watch, Function.update_self]
    refine ⟨List.mem_singleton_self _, .unread (handleRequest_fresh request) fun z => rfl⟩

/-- What an effect came to is told, to the request alone. -/
lemma Inv.tell {s : Watched G} (h : s.Inv) {id : ℕ} {task : Task}
    (htask : s.system.tasks id = some task) {answer : Answer} {program : Handling Metadata}
    {system : System G} {served : List Served} (hzones : system.zones = s.system.zones)
    (htasks : system.tasks = Function.update s.system.tasks id (some { task with program }))
    (hserved : ∀ sv ∈ served, sv.OneSnapshot)
    (hnext : Tracked (s.current id) (s.history id ++ [answer]) { task with program }) :
    ({ s.tell id answer with system, served } : Watched G).Inv := by
  refine h.of_update id _ hzones htasks ?_ (fun _ _ => rfl) hserved ?_
  · intro id' hne
    exact Function.update_of_ne hne _ _
  · intro task' htask'
    obtain rfl := Option.some.inj htask'
    simp only [Watched.tell, Function.update_self]
    exact ⟨h.latest id task htask, hnext⟩

/-- **An effect of a request**: it is told what the effect came to. -/
lemma Inv.advance {s : Watched G} (h : s.Inv) {id : ℕ} {task : Task}
    (htask : s.system.tasks id = some task) {world : World}
    (hok : KeepsSnapshot s (.advance id world)) :
    ({ s.note id task world with system := s.system.advance id task world } : Watched G).Inv := by
  have htracked := h.tracked id task htask
  have hlatest := h.latest id task htask
  cases hprogram : task.program with
  | done metadata =>
    simp only [note, System.advance, hprogram]
    refine h.of_update id none rfl rfl (fun _ _ => rfl) (fun _ _ => rfl) h.served ?_
    intro task' htask'
    cases htask'
  | load k =>
    simp only [note, System.advance, hprogram]
    refine h.tell htask rfl rfl h.served ?_
    exact htracked.load hprogram hlatest fun w hw => hok task k w htask hprogram hw
  | await k =>
    simp only [note, System.advance, hprogram]
    refine h.tell htask rfl rfl h.served ?_
    apply htracked.pass (fun _ => rfl) (by rw [hprogram]; rfl) <;> rw [hprogram]
    · exact fun hf => hf world.lookup
    · exact fun z hs => hs world.lookup
    · exact fun hn => hn world.lookup
  | charge src kind isTcp k =>
    simp only [note, System.advance, hprogram]
    refine h.tell htask rfl rfl h.served ?_
    apply htracked.pass (fun _ => rfl) (by rw [hprogram]; rfl) <;> rw [hprogram]
    · exact fun hf => hf _
    · exact fun z hs => hs _
    · exact fun hn => hn _
  | transmit response k =>
    simp only [note, System.advance, hprogram]
    refine h.tell htask rfl rfl ?_ ?_
    · intro sv hsv
      rcases List.mem_append.mp hsv with hsv | hsv
      · exact h.served sv hsv
      · rw [List.mem_singleton.mp hsv]
        exact htracked.oneSnapshot hlatest hprogram
    · apply htracked.pass (fun _ => rfl) (by rw [hprogram]; rfl) <;> rw [hprogram]
      · exact fun hf => hf world.sent
      · exact fun z hs => hs world.sent
      · exact fun hn => hn world.sent

/-- **One step** keeps the invariant, under the condition on the step. -/
lemma step_inv {s s' : Watched G} {a : Action} (hok : KeepsSnapshot s a)
    (hstep : s.step a = some s') (h : s.Inv) : s'.Inv := by
  obtain ⟨system, hsystem, rfl⟩ := Option.map_eq_some_iff.mp hstep
  cases a with
  | arrive id request => exact h.arrive hsystem
  | advance id world =>
    obtain ⟨task, htask, rfl⟩ := Option.map_eq_some_iff.mp hsystem
    simp only [watch, htask]
    exact h.advance htask hok
  | reload zones =>
    obtain rfl := Option.some.inj hsystem
    refine ⟨h.served, ?_, fun id task htask => (h.tracked id task htask).mono zones⟩
    intro id task _
    simp [watch]
  | sweep now =>
    obtain rfl := Option.some.inj hsystem
    exact ⟨h.served, h.latest, h.tracked⟩

/-- While nothing is reloaded, what was read is what is current. -/
lemma loaded_eq_of_step {s s' : Watched G} {a : Action} (hno : ∀ zones, a ≠ .reload zones)
    (hstep : s.step a = some s') (h : ∀ id z, .loaded z ∈ s.history id → z = s.system.zones) :
    ∀ id z, .loaded z ∈ s'.history id → z = s'.system.zones := by
  obtain ⟨system, hsystem, rfl⟩ := Option.map_eq_some_iff.mp hstep
  have hupdate : ∀ id history, (∀ z, .loaded z ∈ history → z = s.system.zones) →
      ∀ id' z, .loaded z ∈ Function.update s.history id history id' → z = s.system.zones := by
    intro id history hhistory id' z hz
    by_cases hne : id' = id
    · subst hne
      rw [Function.update_self] at hz
      exact hhistory z hz
    · rw [Function.update_of_ne hne] at hz
      exact h id' z hz
  cases a with
  | arrive id request =>
    simp only [System.step] at hsystem
    split at hsystem
    · cases hsystem
    obtain rfl := Option.some.inj hsystem
    exact hupdate id [] fun z hz => by simp at hz
  | advance id world =>
    obtain ⟨task, htask, rfl⟩ := Option.map_eq_some_iff.mp hsystem
    have hother : ∀ answer : Answer, (∀ z, answer ≠ .loaded z) →
        ∀ z, .loaded z ∈ s.history id ++ [answer] → z = s.system.zones := by
      intro answer hanswer z hz
      rcases List.mem_append.mp hz with hz | hz
      · exact h id z hz
      · exact absurd (List.mem_singleton.mp hz).symm (hanswer z)
    simp only [watch, htask]
    cases hprogram : task.program with
    | done metadata =>
      simp only [note, System.advance, hprogram]
      exact h
    | load k =>
      simp only [note, System.advance, hprogram]
      refine hupdate id _ fun z hz => ?_
      rcases List.mem_append.mp hz with hz | hz
      · exact h id z hz
      · exact Answer.loaded.inj (List.mem_singleton.mp hz)
    | await k =>
      simp only [note, System.advance, hprogram]
      exact hupdate id _ (hother _ fun _ => Answer.noConfusion)
    | charge src kind isTcp k =>
      simp only [note, System.advance, hprogram]
      exact hupdate id _ (hother _ fun _ => Answer.noConfusion)
    | transmit response k =>
      simp only [note, System.advance, hprogram]
      exact hupdate id _ (hother _ fun _ => Answer.noConfusion)
  | reload zones => exact absurd rfl (hno zones)
  | sweep now =>
    obtain rfl := Option.some.inj hsystem
    exact h

/-- **Without reloads** the condition is met at every step. -/
lemma along_of_no_reload {s : Watched G} {actions : List Action}
    (h : ∀ id z, .loaded z ∈ s.history id → z = s.system.zones)
    (hno : ∀ a ∈ actions, ∀ zones, a ≠ .reload zones) : Run.Along step KeepsSnapshot s actions := by
  induction actions generalizing s with
  | nil => trivial
  | cons a actions ih =>
    refine ⟨?_, fun s' hstep => ?_⟩
    · cases a with
      | advance id world =>
        intro task k z _ _ hz
        rw [h id z hz]
        exact .inr (.refl _)
      | _ => trivial
    · apply ih (loaded_eq_of_step (hno a (List.mem_cons_self)) hstep h)
      exact fun b hb => hno b (List.mem_cons_of_mem a hb)

end Watched

/-- **Every response is that of one configuration**, current while the request was handled, in every
run in which no request that has decided reads another payload size for itself from a configuration
that decides otherwise. -/
theorem served_oneSnapshot {G : Governor} {zones : Zones} {actions : List Action} {s : Watched G}
    (hexec : Run.exec Watched.step (Watched.start zones) actions = some s)
    (hok : Run.Along Watched.step KeepsSnapshot (Watched.start zones : Watched G) actions) :
    ∀ sv ∈ s.served, sv.OneSnapshot :=
  (Run.exec_invariant (fun _ _ _ hok hstep h => Watched.step_inv hok hstep h) hexec hok
    (Watched.start_inv zones)).served

/-- `ptrRequest` with room for 4096 bytes. -/
def ednsRequest : Request := { ptrRequest with edns := some ⟨0, 4096⟩ }

/-- A file without networks and with a larger payload. -/
def emptiedZones : Zones := ⟨parsed (ofString "max-udp-payload 4096\n"), []⟩

/-- A run in which the configuration is replaced after the request was decided. -/
def reloadedRun : List Action :=
  .arrive 0 ednsRequest :: List.replicate 3 (.advance 0 calmWorld) ++
    .reload emptiedZones :: List.replicate 2 (.advance 0 calmWorld)

/-- Without a reload, a query with an OPT record is served from one configuration. -/
theorem served_oneSnapshot_ednsRequest :
    ∃ s : Watched Rrl.tokenBuckets,
      Run.exec Watched.step (Watched.start sampleZones)
        (.arrive 0 ednsRequest :: List.replicate 5 (.advance 0 calmWorld)) = some s ∧
        s.served.length = 1 ∧ ∀ sv ∈ s.served, sv.OneSnapshot := by
  have hlen : (Run.exec Watched.step (Watched.start sampleZones : Watched Rrl.tokenBuckets)
      (.arrive 0 ednsRequest :: List.replicate 5 (.advance 0 calmWorld))).map
        (fun s => s.served.length) = some 1 := by
    decide +kernel
  obtain ⟨s, hs, hserved⟩ := Option.map_eq_some_iff.mp hlen
  refine ⟨s, hs, hserved, served_oneSnapshot hs (Watched.along_of_no_reload ?_ ?_)⟩
  · intro id z hz
    simp [Watched.start] at hz
  · intro a ha zones
    rcases List.mem_cons.mp ha with rfl | ha
    · exact Action.noConfusion
    · rw [List.eq_of_mem_replicate ha]
      exact Action.noConfusion

/-- With a reload between its two reads, it is not. -/
theorem served_reloadedRun :
    ∃ s : Watched Rrl.tokenBuckets,
      Run.exec Watched.step (Watched.start sampleZones) reloadedRun = some s ∧
        ∃ sv ∈ s.served, ¬sv.OneSnapshot := by
  have hserved : (Run.exec Watched.step (Watched.start sampleZones : Watched Rrl.tokenBuckets)
      reloadedRun).map (fun s => s.served.map fun sv => Decidable.decide sv.OneSnapshot) =
        some [false] := by
    decide +kernel
  obtain ⟨s, hs, hmap⟩ := Option.map_eq_some_iff.mp hserved
  have hfalse : false ∈ s.served.map fun sv => Decidable.decide sv.OneSnapshot := by simp [hmap]
  obtain ⟨sv, hsv, hno⟩ := List.mem_map.mp hfalse
  exact ⟨s, hs, sv, hsv, of_decide_eq_false hno⟩

end PanoptiDns
