import PanoptiDns.Server.Amplification
import PanoptiDns.Server.Delivery

set_option relaxedAutoImplicit false
set_option autoImplicit false

/-!
# Clients that keep to their rate

The other side of the limiter: whom it leaves alone. A client prefix whose UDP requests conform to
the quota, those that ask for an answer and those that ask for a negative response each for
themselves, is never held back, whatever floods come from elsewhere; and no other client prefix is
left alone. What is not held back is answered, and not truncated.

## Main definitions

* `System.asked` — when the requests of a client ask the limiter.
* `System.Spared` — the limiter held nothing back from a client.
* `System.Attended` — nothing is left unanswered or truncated but by the limiter.

## Main results

* `spared_iff_conforms` — who is spared, in every run, and what those who are get.
-/

namespace PanoptiDns

/-! ## One request -/

namespace Handling

variable {α β : Type}

/-- The program sends no truncated response, unless the limiter says so. -/
def Whole : Handling α → Prop
  | .done _ => True
  | .load k => ∀ zones, (k zones).Whole
  | .await k => ∀ lookup, (k lookup).Whole
  | .charge _ _ _ k => (k .allow).Whole ∧ (k .drop).Whole
  | .transmit response k => response.metadata.truncation = false ∧ ∀ sent, (k sent).Whole

/-- Programs that truncate nothing can be put one after another. -/
lemma Whole.bind {p : Handling α} {f : α → Handling β} (hp : p.Whole) (hf : ∀ a, (f a).Whole) :
    (p.bind f).Whole := by
  induction p with
  | done a => exact hf a
  | load k ih => exact fun zones => ih zones (hp zones)
  | await k ih => exact fun lookup => ih lookup (hp lookup)
  | charge src kind isTcp k ih => exact ⟨ih .allow hp.1, ih .drop hp.2⟩
  | transmit response k ih => exact ⟨hp.1, fun sent => ih sent (hp.2 sent)⟩

end Handling

/-- A response without the flag is sent without it. -/
lemma emit_whole {response : Response} (h : response.metadata.truncation = false) :
    (emit response).Whole := by
  refine ⟨h, fun sent => ?_⟩
  cases sent <;> exact trivial

/-- `send` does not set the flag. -/
lemma send_whole (request : Request) (reply : Reply) : (send request reply).Whole := by
  unfold send
  split
  · exact emit_whole rfl
  · intro zones
    simp only
    split
    · exact emit_whole rfl
    · exact trivial

/-- **Only the limiter truncates.** -/
lemma handleRequest_whole (request : Request) : (handleRequest request).Whole := by
  have hinner : (handleInner request).Whole := by
    unfold handleInner
    split
    · exact trivial
    · split
      · exact send_whole request _
      · split
        · exact send_whole request _
        · exact fun zones lookup => ⟨send_whole request _, trivial⟩
  refine hinner.bind fun inner => ?_
  cases inner with
  | ok info => exact trivial
  | err reason => exact ⟨rfl, fun _ => trivial⟩
  | panicked => exact ⟨rfl, fun _ => trivial⟩

/-! ## What becomes of the requests -/

/-- The limiter had the response to the request truncated. -/
def SlippedIn (trace : List Event) (id : ℕ) : Prop := ∃ src, .charged id src .truncate ∈ trace

namespace System

variable {G : Governor}

/-- **Nothing is left unanswered or truncated but by the limiter**: a request that arrived was
dropped, or was sent a response, or is in flight and owed one; and a truncated response is the
limiter's. -/
structure Attended (s : System G) : Prop where
  owed : ∀ id request, .arrived id request ∈ s.trace → DroppedIn s.trace id ∨
    (∃ response, .sent id response ∈ s.trace ∧ response.Answers request) ∨
      ∃ p n, s.tasks id = some ⟨request, p⟩ ∧ p.Owes request n
  whole : ∀ id task, s.tasks id = some task → task.program.Whole ∨ SlippedIn s.trace id
  sent : ∀ id response, .sent id response ∈ s.trace →
    response.metadata.truncation = false ∨ SlippedIn s.trace id

/-- At the start no request is in flight. -/
lemma start_attended (zones : Zones) : (start zones : System G).Attended := by
  refine ⟨?_, ?_, ?_⟩ <;> simp [start]

variable {s s' : System G}

/-- A step of one request: only what becomes of it has to be looked at again. -/
lemma Attended.of_update (h : s.Attended) {id : ℕ} {next : Option Task} (es : List Event)
    (htasks : s'.tasks = Function.update s.tasks id next) (htrace : s'.trace = s.trace ++ es)
    (hes : ∀ e ∈ es, e.id = id)
    (howed : ∀ request, .arrived id request ∈ s.trace ++ es → DroppedIn (s.trace ++ es) id ∨
      (∃ response, .sent id response ∈ s.trace ++ es ∧ response.Answers request) ∨
        ∃ p n, next = some ⟨request, p⟩ ∧ p.Owes request n)
    (hwhole : ∀ task, next = some task → task.program.Whole ∨ SlippedIn (s.trace ++ es) id)
    (hsent : ∀ response, .sent id response ∈ es →
      response.metadata.truncation = false ∨ SlippedIn (s.trace ++ es) id) : s'.Attended := by
  have hmem : ∀ {e}, e ∈ s.trace → e ∈ s.trace ++ es := List.mem_append_left _
  have hother : ∀ {e}, e.id ≠ id → e ∈ s.trace ++ es → e ∈ s.trace := by
    intro e hid he
    exact (List.mem_append.mp he).resolve_right fun he => hid (hes e he)
  refine ⟨fun id' request harrived => ?_, fun id' task htask => ?_, fun id' response hmem' => ?_⟩
  · rw [htrace] at harrived ⊢
    rw [htasks]
    by_cases hid : id' = id
    · subst hid
      rw [Function.update_self]
      exact howed request harrived
    · rw [Function.update_of_ne hid]
      exact (h.owed id' request (hother hid harrived)).imp (Exists.imp fun _ => hmem)
        (Or.imp_left (Exists.imp fun _ => And.imp_left hmem))
  · rw [htrace]
    rw [htasks] at htask
    by_cases hid : id' = id
    · subst hid
      rw [Function.update_self] at htask
      exact hwhole task htask
    · rw [Function.update_of_ne hid] at htask
      exact (h.whole id' task htask).imp_right (Exists.imp fun _ => hmem)
  · rw [htrace] at hmem' ⊢
    rcases List.mem_append.mp hmem' with hold | hnew
    · exact (h.sent id' response hold).imp_right (Exists.imp fun _ => hmem)
    · obtain rfl : id' = id := hes _ hnew
      exact hsent response hnew

section Steps

variable (h : s.Attended) {id : ℕ} {task : Task} (htask : s.tasks id = some task)

include h htask

/-- A request in flight is owed what it was, or what becomes of its program. -/
lemma Attended.owed_append {es : List Event} (hes : ∀ request, .arrived id request ∉ es)
    {next : Option Task}
    (howes : ∀ n, task.program.Owes task.request n → DroppedIn (s.trace ++ es) id ∨
      (∃ response, .sent id response ∈ s.trace ++ es ∧ response.Answers task.request) ∨
        ∃ p m, next = some ⟨task.request, p⟩ ∧ p.Owes task.request m)
    (request : Request) (harrived : .arrived id request ∈ s.trace ++ es) :
    DroppedIn (s.trace ++ es) id ∨
      (∃ response, .sent id response ∈ s.trace ++ es ∧ response.Answers request) ∨
        ∃ p m, next = some ⟨request, p⟩ ∧ p.Owes request m := by
  have hold : .arrived id request ∈ s.trace :=
    (List.mem_append.mp harrived).resolve_right (hes request)
  rcases h.owed id request hold with hdropped | ⟨response, hsent⟩ | ⟨p, n, hp, hn⟩
  · exact .inl (hdropped.imp fun _ => List.mem_append_left _)
  · exact .inr (.inl ⟨response, List.mem_append_left _ hsent.1, hsent.2⟩)
  · obtain rfl := Option.some.inj (htask.symm.trans hp)
    exact howes n hn

/-- A request that is in flight goes on without an event. -/
lemma Attended.of_pause {program : Handling Metadata}
    (howes : ∀ n, task.program.Owes task.request n → ∃ m, program.Owes task.request m)
    (hwhole : task.program.Whole → program.Whole) : (s.resume id task program).Attended := by
  refine h.of_update [] rfl (by simp [resume]) (by simp)
    (h.owed_append htask (by simp) fun n hn => ?_) (fun task' hnext => ?_) (by simp)
  · obtain ⟨m, hm⟩ := howes n hn
    exact .inr (.inr ⟨program, m, rfl, hm⟩)
  · obtain rfl := Option.some.inj hnext
    rw [List.append_nil]
    exact (h.whole id task htask).imp_left hwhole

/-- A request ends when nothing is owed to it. -/
lemma Attended.finish {metadata : Metadata} (hprogram : task.program = .done metadata) :
    ({ s with tasks := Function.update s.tasks id none } : System G).Attended := by
  refine h.of_update [] rfl (by simp) (by simp)
    (h.owed_append htask (by simp) fun n hn => ?_) (by simp) (by simp)
  rw [hprogram] at hn
  cases n <;> exact hn.elim

/-- The limiter is asked: the request is dropped, or goes on as it was answered. -/
lemma Attended.charge {src : IpAddr} {kind : Kind} {isTcp : Bool}
    {k : Decision → Handling Metadata} (hprogram : task.program = .charge src kind isTcp k)
    (decision : Decision) (rrl : Rrl G) :
    (({ s with rrl }.resume id task (k decision)).log (.charged id src decision)).Attended := by
  refine h.of_update [.charged id src decision] rfl rfl (by simp [Event.id])
    (h.owed_append htask (by simp) fun n hn => ?_) (fun task' hnext => ?_) (by simp)
  · rw [hprogram] at hn
    cases n with
    | zero => exact hn.elim
    | succ n =>
      obtain ⟨hallow, htruncate, -⟩ := hn
      cases decision with
      | allow => exact .inr (.inr ⟨_, n, rfl, hallow⟩)
      | truncate => exact .inr (.inr ⟨_, n, rfl, htruncate⟩)
      | drop => exact .inl ⟨src, by simp⟩
  · obtain rfl := Option.some.inj hnext
    rcases h.whole id task htask with hwhole | ⟨src', hslipped⟩
    · rw [hprogram] at hwhole
      cases decision with
      | allow => exact .inl hwhole.1
      | drop => exact .inl hwhole.2
      | truncate => exact .inr ⟨src, by simp⟩
    · exact .inr ⟨src', List.mem_append_left _ hslipped⟩

/-- A response is sent: it is one to the request, and whole unless the limiter let it slip. -/
lemma Attended.transmit {response : Response} {k : Except Bytes Unit → Handling Metadata}
    (hprogram : task.program = .transmit response k) (sent : Except Bytes Unit) :
    ((s.resume id task (k sent)).log (.sent id response)).Attended := by
  have hwhole := h.whole id task htask
  rw [hprogram] at hwhole
  have hslipped : SlippedIn s.trace id → SlippedIn (s.trace ++ [.sent id response]) id :=
    Exists.imp fun _ => List.mem_append_left _
  refine h.of_update [.sent id response] rfl rfl (by simp [Event.id])
    (h.owed_append htask (by simp) fun n hn => ?_) (fun task' hnext => ?_) fun response' hmem => ?_
  · rw [hprogram] at hn
    cases n with
    | zero => exact hn.elim
    | succ n => exact .inr (.inl ⟨response, by simp, hn.1⟩)
  · obtain rfl := Option.some.inj hnext
    exact hwhole.imp (fun hw => hw.2 sent) hslipped
  · obtain ⟨-, rfl⟩ := Event.sent.inj (List.mem_singleton.mp hmem)
    exact hwhole.imp And.left hslipped

end Steps

/-- A request arrives, and is owed a response. -/
lemma Attended.arrive (h : s.Attended) {id : ℕ} {request : Request}
    (hnew : ∀ e ∈ s.trace, e.id ≠ id) :
    ({ s with
      tasks := Function.update s.tasks id (some ⟨request, handleRequest request⟩)
      trace := s.trace ++ [.arrived id request] } : System G).Attended := by
  refine h.of_update [.arrived id request] rfl rfl (by simp [Event.id]) ?_ ?_ (by simp)
  · intro request' harrived
    obtain rfl : request' = request := by
      rcases List.mem_append.mp harrived with hold | hlast
      · exact absurd rfl (hnew _ hold)
      · exact (Event.arrived.inj (List.mem_singleton.mp hlast)).2
    exact .inr (.inr ⟨_, 5, rfl, handleRequest_owes _⟩)
  · intro task hnext
    obtain rfl := Option.some.inj hnext
    exact .inl (handleRequest_whole request)

/-- **One step** leaves nothing unattended. -/
lemma step_attended {a : Action} (hstep : s.step a = some s') (h : s.Attended) : s'.Attended := by
  cases steps_of_step hstep with
  | arrive hnew => exact h.arrive hnew
  | finish htask hprogram => exact h.finish htask hprogram
  | load htask hprogram =>
    apply h.of_pause htask <;> rw [hprogram]
    · intro n hn
      cases n with
      | zero => exact hn.elim
      | succ n => exact ⟨n, hn s.zones⟩
    · exact fun hw => hw s.zones
  | @await id world task k htask hprogram =>
    apply h.of_pause htask <;> rw [hprogram]
    · intro n hn
      cases n with
      | zero => exact hn.elim
      | succ n => exact ⟨n, hn world.lookup⟩
    · exact fun hw => hw world.lookup
  | charge htask hprogram hdecide => exact h.charge htask hprogram _ _
  | transmit htask hprogram => exact h.transmit htask hprogram _
  | reload => exact ⟨h.owed, h.whole, h.sent⟩
  | sweep => exact ⟨h.owed, h.whole, h.sent⟩

/-! ## What the limiter holds back -/

/-- When the UDP requests of a kind from a client ask the limiter, in a run. -/
def asked (params : RrlParams) (kind : Kind) (client : IpAddr) (s : System G)
    (actions : List Action) : List ℕ :=
  Rrl.matched params kind client (s.calls actions)

/-- **The limiter held nothing back from a client**: it allowed each UDP request of the client's
prefix that it was asked about. -/
def Spared (params : RrlParams) (client : IpAddr) (s : System G) : Prop :=
  ∀ id request src decision, .arrived id request ∈ s.trace → request.isTcp = false →
    SamePrefix params.ipv4Prefix params.ipv6Prefix request.src client →
    .charged id src decision ∈ s.trace → decision = .allow

variable {params : RrlParams} {client : IpAddr}

/-- Only an arrival and a decision matter. -/
lemma spared_append {es : List Event} (htrace : s'.trace = s.trace ++ es)
    (harrived : ∀ id request, .arrived id request ∉ es)
    (hcharged : ∀ id src decision, .charged id src decision ∉ es) :
    s'.Spared params client ↔ s.Spared params client := by
  simp only [Spared, htrace, List.mem_append, harrived, hcharged, or_false]

/-- A decision matters if it is about a UDP request of the client. -/
lemma spared_charge {id : ℕ} {request : Request} {src : IpAddr} {decision : Decision}
    (htrace : s'.trace = s.trace ++ [.charged id src decision])
    (harrived : .arrived id request ∈ s.trace)
    (honce : ∀ r, .arrived id r ∈ s.trace → r = request) :
    s'.Spared params client ↔ s.Spared params client ∧
      (request.isTcp = false → SamePrefix params.ipv4Prefix params.ipv6Prefix request.src client →
        decision = .allow) := by
  have hold : ∀ id' r, .arrived id' r ∈ s'.trace ↔ .arrived id' r ∈ s.trace := by simp [htrace]
  simp only [Spared, hold]
  constructor
  · refine fun h => ⟨fun id' r src' d hr htcp hclient hd => ?_, fun htcp hclient => ?_⟩
    · exact h id' r src' d hr htcp hclient (htrace ▸ List.mem_append_left _ hd)
    · exact h id request src decision harrived htcp hclient (by simp [htrace])
  · rintro ⟨h, hnew⟩ id' r src' d hr htcp hclient hd
    rw [htrace] at hd
    rcases List.mem_append.mp hd with hd | hd
    · exact h id' r src' d hr htcp hclient hd
    · obtain ⟨rfl, rfl, rfl⟩ := Event.charged.inj (List.mem_singleton.mp hd)
      obtain rfl := honce r hr
      exact hnew htcp hclient

/-- **One step** holds nothing back from a client iff it allows the client's call. -/
lemma step_spared {a : Action} {cleared : ℕ → Prop}
    (h : s.Settled (fun _ => False) [] cleared) (hstep : s.step a = some s') :
    s'.Spared params client ↔ s.Spared params client ∧ ∀ call ∈ s.call? a, ∀ kind,
      (Rrl.matches? params kind client call).isSome → (s.rrl.perform call).1 = some .allow := by
  have hquiet : ∀ es, s'.trace = s.trace ++ es → (∀ id request, .arrived id request ∉ es) →
      (∀ id src decision, .charged id src decision ∉ es) →
      (∀ call ∈ s.call? a, ∀ kind, Rrl.matches? params kind client call = none) →
      (s'.Spared params client ↔ s.Spared params client ∧ ∀ call ∈ s.call? a, ∀ kind,
        (Rrl.matches? params kind client call).isSome →
          (s.rrl.perform call).1 = some .allow) := by
    intro es htrace harrived hcharged hcalls
    rw [spared_append htrace harrived hcharged, iff_self_and]
    intro _ call hcall kind hmatch
    rw [hcalls call hcall kind] at hmatch
    cases hmatch
  cases steps_of_step hstep with
  | @arrive id request hnew =>
    simp only [call?, Option.not_mem_none, false_imp_iff, implies_true, and_true]
    constructor
    · intro hs id' r src d hr htcp hclient hd
      exact hs id' r src d (by simp [hr]) htcp hclient (by simp [hd])
    · intro hs id' r src d hr htcp hclient hd
      have hd' : .charged id' src d ∈ s.trace := by simpa using hd
      rcases List.mem_append.mp hr with hr | hr
      · exact hs id' r src d hr htcp hclient hd'
      · obtain ⟨rfl, -⟩ := Event.arrived.inj (List.mem_singleton.mp hr)
        exact absurd rfl (hnew _ hd')
  | @charge id world task src kind isTcp k decision rrl htask hprogram hdecide =>
    have hown : src = task.request.src ∧ isTcp = task.request.isTcp := by
      rcases h.running id task htask (by simp) with hfrugal | ⟨hpaid, -⟩
      · rw [hprogram] at hfrugal
        exact ⟨hfrugal.1, hfrugal.2.1⟩
      · rw [hprogram] at hpaid
        exact hpaid.elim
    obtain ⟨rfl, rfl⟩ := hown
    rw [spared_charge rfl (h.arrived id task htask)
      fun r hr => h.once id r _ hr (h.arrived id task htask)]
    simp [call?, htask, hprogram, Rrl.perform, hdecide, Rrl.matches?]
  | finish htask hprogram | load htask hprogram | await htask hprogram =>
    exact hquiet [] (List.append_nil _).symm (by simp) (by simp) (by simp [call?, htask, hprogram])
  | @transmit id world task response k htask hprogram =>
    exact hquiet [.sent id response] rfl (by simp) (by simp) (by simp [call?, htask, hprogram])
  | reload => exact hquiet [] (List.append_nil _).symm (by simp) (by simp) (by simp [call?])
  | sweep =>
    exact hquiet [] (List.append_nil _).symm (by simp) (by simp) (by simp [call?, Rrl.matches?])

/-- **A run** holds nothing back from a client iff the limiter allows all of the client's calls. -/
lemma exec_spared {actions : List Action} {cleared : ℕ → Prop}
    (h : s.Settled (fun _ => False) [] cleared) (hexec : Run.exec step s actions = some s') :
    s'.Spared params client ↔ s.Spared params client ∧ ∀ kind,
      ∀ b ∈ s.rrl.allowedSince params kind client (s.calls actions), b = true := by
  induction actions generalizing s cleared with
  | nil =>
    obtain rfl : s = s' := Option.some.inj hexec
    simp [calls, Run.visited, Rrl.allowedSince, Mealy.answersSeen]
  | cons a actions ih =>
    obtain ⟨s₁, h₁, hrest⟩ := Option.bind_eq_some_iff.mp hexec
    have hsettled : s₁.Settled (fun _ => False) [] fun _ => True :=
      step_settled (fun _ => False.elim) (fun _ _ => trivial)
        (fun kind id (_ : s.paid? params kind client a = some id) => trivial) h₁ h
    rw [ih hsettled hrest, step_spared h h₁, rrl_of_step h₁, calls_cons h₁, and_assoc]
    refine and_congr_right fun _ => ?_
    cases s.call? a with
    | none => simp
    | some call =>
      simp only [Option.mem_def, Option.some.injEq, forall_eq', Option.toList_some,
        List.singleton_append, Mealy.final_cons, Mealy.final_nil, Rrl.allowedSince_cons,
        List.forall_mem_append, forall_and]
      refine and_congr_left fun _ => forall_congr' fun kind => ?_
      by_cases hmatch : (Rrl.matches? params kind client call).isSome = true
      · simp [hmatch]
      · simp [hmatch]

end System

/-- **Who keeps to the rate is spared.** In any run, the limiter holds nothing back from a client
prefix iff the times at which the client's UDP requests ask for it, those for an answer and those
for a negative response each for themselves, conform to the quota, whatever all other clients do.
And from whom nothing is held back no response is truncated, and each request that has ended was
sent a response. -/
theorem spared_iff_conforms {G : Governor} (K : G.PerKey) {zones : Zones}
    (henabled : zones.config.params.rrl.enabled = true) {interval tolerance : ℕ}
    (E : K.Exact (Rrl.quota zones.config.params.rrl) interval tolerance) {actions : List Action}
    {s : System G} (hexec : Run.exec System.step (System.start zones) actions = some s)
    (hclock : (clock actions).Pairwise (· ≤ ·)) (client : IpAddr) :
    (s.Spared zones.config.params.rrl client ↔ ∀ kind, CellRate.Conforms interval tolerance
      ((System.start zones : System G).asked zones.config.params.rrl kind client actions)) ∧
    (s.Spared zones.config.params.rrl client →
      ∀ id request, .arrived id request ∈ s.trace → request.isTcp = false →
        SamePrefix zones.config.params.rrl.ipv4Prefix zones.config.params.rrl.ipv6Prefix
          request.src client →
        (∀ response, .sent id response ∈ s.trace → response.metadata.truncation = false) ∧
        (s.tasks id = none →
          ∃ response, .sent id response ∈ s.trace ∧ response.Answers request)) := by
  set params := zones.config.params.rrl
  constructor
  · have horder : Rrl.InOrder ((System.start zones : System G).calls actions) :=
      hclock.sublist (System.calls_sublist _ _)
    have hstart : (System.start zones : System G).Settled (fun _ => False) [] fun _ => True :=
      System.start_settled zones
    rw [System.exec_spared hstart hexec]
    have hnone : (System.start zones : System G).Spared params client := by
      intro id request src decision harrived
      simp [System.start] at harrived
    simp only [hnone, true_and]
    exact forall_congr' fun kind => Rrl.allowed_all_iff K E henabled kind client horder
  · intro hspared id request harrived htcp hclient
    have hattended : s.Attended := Run.exec_preserves
      (fun _ _ _ hstep h => System.step_attended hstep h) hexec (System.start_attended zones)
    have hallow : ∀ src decision, .charged id src decision ∈ s.trace → decision = .allow :=
      fun src decision => hspared id request src decision harrived htcp hclient
    refine ⟨fun response hsent => ?_, fun hended => ?_⟩
    · rcases hattended.sent id response hsent with hwhole | ⟨src, hslipped⟩
      · exact hwhole
      · cases hallow src _ hslipped
    · rcases hattended.owed id request harrived with ⟨src, hdropped⟩ | hsent | ⟨p, n, htask, -⟩
      · cases hallow src _ hdropped
      · exact hsent
      · rw [hended] at htask
        cases htask

/-- The sample with one response a second. -/
def tightZones : Zones :=
  { sampleZones with
    config := { sampleZones.config with
      params := { sampleZones.config.params with rrl := Rrl.tightParams } } }

/-- A PTR query from another network. -/
def politeRequest : Request := { ptrRequest with src := .v4 0xC6336401 }

/-- Two queries from one network and one from another, one after another and all at once. -/
def floodRun : List Action :=
  [(0, ptrRequest), (1, ptrRequest), (2, politeRequest)].flatMap fun p =>
    .arrive p.1 p.2 :: List.replicate 5 (.advance p.1 calmWorld)

/-- The second query of the first network is held back, and nothing of the other network's. -/
theorem spared_iff_conforms_floodRun :
    ∃ s : System Rrl.tokenBuckets,
      Run.exec System.step (System.start tightZones) floodRun = some s ∧
      .charged 1 ptrRequest.src .truncate ∈ s.trace ∧
      s.Spared Rrl.tightParams politeRequest.src := by
  have hrun : ((Run.exec System.step (System.start tightZones : System Rrl.tokenBuckets)
      floodRun).map fun s => s.trace.contains (.charged 1 ptrRequest.src .truncate)) =
        some true := by
    decide +kernel
  obtain ⟨s, hs, hmem⟩ := Option.map_eq_some_iff.mp hrun
  have hclock : (clock floodRun).Pairwise (· ≤ ·) := by decide
  refine ⟨s, hs, List.contains_iff_mem.mp hmem, (spared_iff_conforms Rrl.tokenBuckets_perKey rfl
    (Rrl.tokenBuckets_exact _) hs hclock politeRequest.src).1.mpr fun kind => ?_⟩
  have hasked : ((System.start tightZones : System Rrl.tokenBuckets).asked Rrl.tightParams kind
      politeRequest.src floodRun).length ≤ 1 := by
    cases kind <;> decide +kernel
  intro window hwindow lo hi _
  have hlength := Nat.mul_le_mul_right (10 ^ 9 / (Rrl.quota Rrl.tightParams).1)
    (hwindow.length_le.trans hasked)
  rw [Nat.one_mul] at hlength
  exact hlength.trans (Nat.le_add_left _ _)

end PanoptiDns
