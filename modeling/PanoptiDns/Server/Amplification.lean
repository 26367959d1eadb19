import PanoptiDns.Rrl.Rate
import PanoptiDns.Server.System

set_option relaxedAutoImplicit false
set_option autoImplicit false

/-!
# Amplification

A response can be much larger than the query it answers, and the source of a query over UDP can be
forged. What the limiter is there for is a bound on what a victim can be made to receive: this file
proves it, for any interleaving of any requests, reloads and sweeps.

A response without records is no larger than its query. Every other response is preceded by an
`Allow` of the limiter for the source of its request, and the limiter's share in a run of the
server is a run of the limiter.

## Main definitions

* `Response.Bare` — responses without records.
* `Handling.Frugal` — programs that send no records before an `Allow`.
* `System.calls`, `System.paid` — the limiter's share in a run, and the requests it allows.

## Main results

* `System.rrl_of_exec` — a run of the server contains a run of the limiter.
* `amplification_bounded` — few responses with records reach a client prefix in a short time.
-/

namespace PanoptiDns

open Bytes

/-- A response without records. -/
def Response.Bare (r : Response) : Prop := r.answers = [] ∧ r.authority = []

instance (r : Response) : Decidable r.Bare := inferInstanceAs (Decidable (_ ∧ _))

/-! ## One request -/

namespace Handling

variable {α β : Type}

/-- The program sends no records before it is allowed to, and asks for `src` over the transport of
the request; once it is allowed, it does not ask again. -/
def Frugal (src : IpAddr) (isTcp : Bool) : Handling α → Prop
  | .done _ => True
  | .load k => ∀ zones, (k zones).Frugal src isTcp
  | .await k => ∀ lookup, (k lookup).Frugal src isTcp
  | .charge src' _ isTcp' k => src' = src ∧ isTcp' = isTcp ∧ (k .allow).Paid ∧
      (k .drop).Frugal src isTcp ∧ (k .truncate).Frugal src isTcp
  | .transmit response k => response.Bare ∧ ∀ sent, (k sent).Frugal src isTcp

/-- A frugal program may be followed by one that is frugal and no longer asks. -/
lemma Frugal.bind {src : IpAddr} {isTcp : Bool} {p : Handling α} {f : α → Handling β}
    (hp : p.Frugal src isTcp) (hf : ∀ a, (f a).Frugal src isTcp) (hpaid : ∀ a, (f a).Paid) :
    (p.bind f).Frugal src isTcp := by
  induction p with
  | done a => exact hf a
  | load k ih => exact fun zones => ih zones (hp zones)
  | await k ih => exact fun lookup => ih lookup (hp lookup)
  | charge src' kind isTcp' k ih =>
    obtain ⟨hsrc, htcp, hallow, hdrop, htruncate⟩ := hp
    exact ⟨hsrc, htcp, hallow.bind hpaid, ih .drop hdrop, ih .truncate htruncate⟩
  | transmit response k ih => exact ⟨hp.1, fun sent => ih sent (hp.2 sent)⟩

end Handling

/-- A response without records may be sent at any time. -/
lemma emit_frugal {response : Response} (h : response.Bare) (src : IpAddr) (isTcp : Bool) :
    (emit response).Frugal src isTcp := by
  refine ⟨h, fun sent => ?_⟩
  cases sent <;> exact trivial

/-- A reply that is only a code is sent without records. -/
lemma send_error_frugal (request : Request) (code : ResponseCode) (src : IpAddr) (isTcp : Bool) :
    (send request (.error code)).Frugal src isTcp := by
  unfold send
  split
  · exact emit_frugal ⟨rfl, rfl⟩ src isTcp
  · intro zones
    simp only
    split
    · exact emit_frugal ⟨rfl, rfl⟩ src isTcp
    · exact trivial

/-- **Every request** is asked about before records are sent for it. -/
lemma handleRequest_frugal (request : Request) :
    (handleRequest request).Frugal request.src request.isTcp := by
  have hinner : (handleInner request).Frugal request.src request.isTcp := by
    unfold handleInner
    split
    · exact trivial
    · split
      · exact send_error_frugal request _ _ _
      · split
        · exact send_error_frugal request _ _ _
        · intro zones lookup
          exact ⟨rfl, rfl, send_paid request _, trivial, emit_frugal ⟨rfl, rfl⟩ _ _⟩
  refine hinner.bind (fun inner => ?_) fun inner => ?_
  · cases inner with
    | ok info => exact trivial
    | err reason => exact ⟨⟨rfl, rfl⟩, fun _ => trivial⟩
    | panicked => exact ⟨⟨rfl, rfl⟩, fun _ => trivial⟩
  · cases inner with
    | ok info => exact trivial
    | err reason => exact fun _ => trivial
    | panicked => exact fun _ => trivial

/-! ## The limiter's share in a run -/

namespace System

variable {G : Governor}

/-- What a step asks of the limiter, and when. -/
def call? (s : System G) : Action → Option (ℕ × Rrl.Action)
  | .arrive .. => none
  | .advance id world =>
    (s.tasks id).bind fun task =>
      match task.program with
      | .charge src kind isTcp _ => some (world.now, .decide src kind isTcp)
      | _ => none
  | .reload _ => none
  | .sweep now => some (now, .sweep)

/-- The calls of the limiter in a run. -/
def calls (s : System G) (actions : List Action) : List (ℕ × Rrl.Action) :=
  (Run.visited step s actions).filterMap fun v => v.1.call? v.2

/-- The request of a step that asks for it, as a UDP request of a kind from a client, and gets an
`Allow`. -/
def paid? (params : RrlParams) (kind : Kind) (client : IpAddr) (s : System G) :
    Action → Option ℕ
  | .advance id world =>
    (s.call? (.advance id world)).bind fun call =>
      if (Rrl.matches? params kind client call).isSome ∧ (s.rrl.perform call).1 = some .allow
      then some id else none
  | _ => none

/-- The UDP requests of a kind from a client that are allowed in a run. -/
def paid (params : RrlParams) (kind : Kind) (client : IpAddr) (s : System G)
    (actions : List Action) : List ℕ :=
  (Run.visited step s actions).filterMap fun v => v.1.paid? params kind client v.2

section Cons

variable {s s' : System G} {a : Action} (h : s.step a = some s') (actions : List Action)

include h

/-- The calls of a run are those of its first step and of the rest. -/
lemma calls_cons : s.calls (a :: actions) = (s.call? a).toList ++ s'.calls actions := by
  rw [calls, Run.visited_cons step h, List.filterMap_cons]
  cases s.call? a <;> rfl

/-- So are the requests that it pays for. -/
lemma paid_cons (params : RrlParams) (kind : Kind) (client : IpAddr) :
    s.paid params kind client (a :: actions) =
      (s.paid? params kind client a).toList ++ s'.paid params kind client actions := by
  rw [paid, Run.visited_cons step h, List.filterMap_cons]
  cases s.paid? params kind client a <;> rfl

end Cons

/-- A step pays for a request iff its call is one of those asked about, and is allowed. -/
lemma length_paid? (s : System G) (a : Action) (params : RrlParams) (kind : Kind)
    (client : IpAddr) :
    (s.paid? params kind client a).toList.length =
      ((s.call? a).toList.flatMap fun call =>
        if (Rrl.matches? params kind client call).isSome
        then [(s.rrl.perform call).1 == some .allow] else []).count true := by
  cases a with
  | arrive | reload => rfl
  | sweep now => simp [paid?, call?, Rrl.matches?]
  | advance id world =>
    simp only [paid?]
    cases s.call? (.advance id world) with
    | none => rfl
    | some call =>
      by_cases hmatch : (Rrl.matches? params kind client call).isSome = true
      · by_cases hallow : (s.rrl.perform call).1 = some .allow <;> simp [hmatch, hallow]
      · simp [hmatch]

/-- A step moves the limiter as its call does. -/
lemma rrl_of_step {s s' : System G} {a : Action} (h : s.step a = some s') :
    s'.rrl = Mealy.final Rrl.perform s.rrl (s.call? a).toList := by
  cases a with
  | arrive id request =>
    simp only [step] at h
    split at h
    · cases h
    · obtain rfl := Option.some.inj h
      rfl
  | reload zones =>
    obtain rfl := Option.some.inj h
    rfl
  | sweep now =>
    obtain rfl := Option.some.inj h
    rfl
  | advance id world =>
    obtain ⟨task, htask, rfl⟩ := Option.map_eq_some_iff.mp h
    simp only [call?, htask, Option.bind_some]
    unfold advance
    split <;> rename_i hprogram <;> simp only [hprogram] <;> rfl

/-- **A run of the server contains a run of the limiter.** -/
lemma rrl_of_exec {s s' : System G} {actions : List Action}
    (h : Run.exec step s actions = some s') :
    s'.rrl = Mealy.final Rrl.perform s.rrl (s.calls actions) := by
  induction actions generalizing s with
  | nil =>
    obtain rfl : s = s' := Option.some.inj h
    rfl
  | cons a actions ih =>
    obtain ⟨s₁, h₁, hrest⟩ := Option.bind_eq_some_iff.mp h
    rw [ih hrest, rrl_of_step h₁, calls_cons h₁, Mealy.final_append]

/-- **The requests that are allowed** are as many as the calls that are. -/
lemma length_paid {s s' : System G} {actions : List Action}
    (h : Run.exec step s actions = some s') (params : RrlParams) (kind : Kind) (client : IpAddr) :
    (s.paid params kind client actions).length =
      (s.rrl.allowedSince params kind client (s.calls actions)).count true := by
  induction actions generalizing s with
  | nil => rfl
  | cons a actions ih =>
    obtain ⟨s₁, h₁, hrest⟩ := Option.bind_eq_some_iff.mp h
    rw [paid_cons h₁, calls_cons h₁, List.length_append, ih hrest, length_paid?, rrl_of_step h₁]
    cases s.call? a with
    | none => simp
    | some call => simp [Rrl.allowedSince_cons]

/-! ## What is paid for -/

/-- **What is paid for**, of the requests that arrived after `old`: a wanted request that is not
cleared has not sent a record, and has still to ask before it does. -/
structure Settled (wanted : Request → Prop) (old : List Event) (cleared : ℕ → Prop) (s : System G) :
    Prop where
  arrived : ∀ id task, s.tasks id = some task → .arrived id task.request ∈ s.trace
  once : ∀ id r r', .arrived id r ∈ s.trace → .arrived id r' ∈ s.trace → r = r'
  running : ∀ id task, s.tasks id = some task → .arrived id task.request ∉ old →
    task.program.Frugal task.request.src task.request.isTcp ∨
      task.program.Paid ∧ (wanted task.request → cleared id)
  sent : ∀ id request response, .arrived id request ∈ s.trace → .arrived id request ∉ old →
    .sent id response ∈ s.trace → ¬response.Bare → wanted request → cleared id

variable {wanted : Request → Prop} {old : List Event} {cleared cleared' : ℕ → Prop}

/-- At the start nothing has been sent. -/
lemma start_settled (zones : Zones) : (start zones : System G).Settled wanted old cleared := by
  refine ⟨?_, ?_, ?_, ?_⟩ <;> simp [start]

/-- A stretch of a run begins with nothing to pay for. -/
lemma Settled.restart {s : System G} (h : s.Settled wanted old cleared) (wanted' : Request → Prop)
    (cleared' : ℕ → Prop) : s.Settled wanted' s.trace cleared' :=
  ⟨h.arrived, h.once, fun id task htask hnew => absurd (h.arrived id task htask) hnew,
    fun _ _ _ harrived hnew => absurd harrived hnew⟩

/-- A step of one request: only its own account has to be looked at again. -/
lemma Settled.of_update {s s' : System G} (h : s.Settled wanted old cleared)
    (hmono : ∀ id, cleared id → cleared' id) {id : ℕ} {task : Task} {next : Option Task}
    (htask : s.tasks id = some task) (es : List Event)
    (htasks : s'.tasks = Function.update s.tasks id next) (htrace : s'.trace = s.trace ++ es)
    (hes : ∀ id' r, .arrived id' r ∉ es)
    (hnext : ∀ task', next = some task' → task'.request = task.request ∧
      (.arrived id task.request ∉ old →
        task'.program.Frugal task.request.src task.request.isTcp ∨
          task'.program.Paid ∧ (wanted task.request → cleared' id)))
    (hsent : ∀ id' response, .sent id' response ∈ es → id' = id ∧
      (¬response.Bare → .arrived id task.request ∉ old → wanted task.request → cleared' id)) :
    s'.Settled wanted old cleared' := by
  have hold : ∀ id' r, .arrived id' r ∈ s'.trace → .arrived id' r ∈ s.trace := by
    intro id' r hmem
    rw [htrace, List.mem_append] at hmem
    exact hmem.resolve_right (hes id' r)
  have htask' : ∀ id' task', s'.tasks id' = some task' →
      s.tasks id' = some task' ∨ id' = id ∧ next = some task' := by
    intro id' task' hget
    rw [htasks] at hget
    by_cases hid : id' = id
    · subst hid
      rw [Function.update_self] at hget
      exact .inr ⟨rfl, hget⟩
    · rw [Function.update_of_ne hid] at hget
      exact .inl hget
  refine ⟨?_, ?_, ?_, ?_⟩
  · intro id' task' hget
    rw [htrace]
    rcases htask' id' task' hget with hget | ⟨rfl, hget⟩
    · exact List.mem_append_left _ (h.arrived id' task' hget)
    · rw [(hnext task' hget).1]
      exact List.mem_append_left _ (h.arrived id' task htask)
  · exact fun id' r r' hr hr' => h.once id' r r' (hold id' r hr) (hold id' r' hr')
  · intro id' task' hget hnew
    rcases htask' id' task' hget with hget | ⟨rfl, hget⟩
    · exact (h.running id' task' hget hnew).imp_right
        (And.imp_right fun hw hwanted => hmono id' (hw hwanted))
    · obtain ⟨hrequest, hrun⟩ := hnext task' hget
      rw [hrequest] at hnew ⊢
      exact hrun hnew
  · intro id' request response harrived hnew hmem hrecords hwanted
    rw [htrace, List.mem_append] at hmem
    rcases hmem with hmem | hmem
    · exact hmono id' (h.sent id' request response (hold _ _ harrived) hnew hmem hrecords hwanted)
    · obtain ⟨rfl, hcleared⟩ := hsent id' response hmem
      obtain rfl := h.once id' request task.request (hold _ _ harrived) (h.arrived id' task htask)
      exact hcleared hrecords hnew hwanted

/-- A step of no request. -/
lemma Settled.mono {s s' : System G} (h : s.Settled wanted old cleared)
    (hmono : ∀ id, cleared id → cleared' id) (htasks : s'.tasks = s.tasks)
    (htrace : s'.trace = s.trace) : s'.Settled wanted old cleared' := by
  obtain ⟨harrived, honce, hrunning, hsent⟩ := h
  rw [← htrace] at harrived honce hsent
  rw [← htasks] at harrived hrunning
  refine ⟨harrived, honce, fun id task htask hnew => ?_,
    fun id request response h₁ h₂ h₃ h₄ h₅ => ?_⟩
  · exact (hrunning id task htask hnew).imp_right
      (And.imp_right fun hw hwanted => hmono id (hw hwanted))
  · exact hmono id (hsent id request response h₁ h₂ h₃ h₄ h₅)

/-- A program that goes on without asking or sending is in good order still. -/
lemma Settled.of_pause {s : System G} (h : s.Settled wanted old cleared)
    (hmono : ∀ id, cleared id → cleared' id) {id : ℕ} {task : Task}
    (htask : s.tasks id = some task) {program : Handling Metadata}
    (hfrugal : ∀ src isTcp, task.program.Frugal src isTcp → program.Frugal src isTcp)
    (hpaid : task.program.Paid → program.Paid) :
    (s.resume id task program).Settled wanted old cleared' := by
  refine h.of_update hmono htask [] rfl (by simp [resume]) (by simp) ?_ (by simp)
  intro task' hnext
  obtain rfl := Option.some.inj hnext
  refine ⟨rfl, fun hnew => (h.running id task htask hnew).imp (hfrugal _ _) ?_⟩
  exact And.imp hpaid fun hw hwanted => hmono id (hw hwanted)

/-- A request arrives, and has still to ask. -/
lemma Settled.arrive {s : System G} (h : s.Settled wanted old cleared)
    (hmono : ∀ id, cleared id → cleared' id) {id : ℕ} {request : Request}
    (hfresh : ∀ e ∈ s.trace, e.id ≠ id) :
    ({ s with
      tasks := Function.update s.tasks id (some ⟨request, handleRequest request⟩)
      trace := s.trace ++ [.arrived id request] } : System G).Settled wanted old cleared' := by
  have hmem : ∀ {id' r}, .arrived id' r ∈ s.trace ++ [.arrived id request] →
      .arrived id' r ∈ s.trace ∧ id' ≠ id ∨ id' = id ∧ r = request := by
    intro id' r hmem
    rcases List.mem_append.mp hmem with hmem | hmem
    · exact .inl ⟨hmem, hfresh _ hmem⟩
    · exact .inr (Event.arrived.inj (List.mem_singleton.mp hmem))
  have htask : ∀ {id' task},
      Function.update s.tasks id (some ⟨request, handleRequest request⟩) id' = some task →
        s.tasks id' = some task ∨ id' = id ∧ task = ⟨request, handleRequest request⟩ := by
    intro id' task hget
    by_cases hid : id' = id
    · subst hid
      rw [Function.update_self] at hget
      exact .inr ⟨rfl, (Option.some.inj hget).symm⟩
    · rw [Function.update_of_ne hid] at hget
      exact .inl hget
  refine ⟨fun id' task hget => ?_, fun id' r r' hr hr' => ?_, fun id' task hget hnew => ?_, ?_⟩
  · rcases htask hget with hget | ⟨rfl, rfl⟩
    · exact List.mem_append_left _ (h.arrived id' task hget)
    · simp
  · rcases hmem hr with ⟨hr, hid⟩ | ⟨rfl, rfl⟩
    · rcases hmem hr' with ⟨hr', -⟩ | ⟨rfl, -⟩
      · exact h.once id' r r' hr hr'
      · exact absurd rfl hid
    · rcases hmem hr' with ⟨-, hid⟩ | ⟨-, rfl⟩
      · exact absurd rfl hid
      · rfl
  · rcases htask hget with hget | ⟨rfl, rfl⟩
    · exact (h.running id' task hget hnew).imp_right
        (And.imp_right fun hw hwanted => hmono id' (hw hwanted))
    · exact .inl (handleRequest_frugal request)
  · intro id' request' response harrived hnew hsent hrecords hwanted
    have hsent' : .sent id' response ∈ s.trace := by simpa using hsent
    rcases hmem harrived with ⟨harrived, -⟩ | ⟨rfl, -⟩
    · exact hmono id' (h.sent id' request' response harrived hnew hsent' hrecords hwanted)
    · exact absurd rfl (hfresh _ hsent')

/-- **One step**: whoever has sent a record has been cleared, given that a step clears whom it pays
for. -/
lemma step_settled {s s' : System G} {a : Action} {params : RrlParams} {client : IpAddr}
    (hwanted : ∀ r, wanted r → r.isTcp = false ∧
      SamePrefix params.ipv4Prefix params.ipv6Prefix r.src client)
    (hmono : ∀ id, cleared id → cleared' id)
    (hpaid : ∀ kind id, s.paid? params kind client a = some id → cleared' id)
    (hstep : s.step a = some s') (h : s.Settled wanted old cleared) :
    s'.Settled wanted old cleared' := by
  cases steps_of_step hstep with
  | @arrive id request hfresh => exact h.arrive hmono hfresh
  | finish htask hprogram =>
    exact h.of_update hmono htask [] rfl (by simp) (by simp) (by simp) (by simp)
  | load htask hprogram =>
    apply h.of_pause hmono htask <;> rw [hprogram]
    · exact fun _ _ hf => hf s.zones
    · exact fun hp => hp s.zones
  | @await id world task k htask hprogram =>
    apply h.of_pause hmono htask <;> rw [hprogram]
    · exact fun _ _ hf => hf world.lookup
    · exact fun hp => hp world.lookup
  | @charge id world task src kind isTcp k decision rrl htask hprogram hdecide =>
    refine h.of_update hmono htask [.charged id src decision] rfl rfl (by simp) ?_ (by simp)
    intro task' hnext
    obtain rfl := Option.some.inj hnext
    refine ⟨rfl, fun hnew => ?_⟩
    rcases h.running id task htask hnew with hfrugal | ⟨hp, -⟩
    · rw [hprogram] at hfrugal
      obtain ⟨rfl, rfl, hallow, hdrop, htruncate⟩ := hfrugal
      cases decision with
      | allow =>
        refine .inr ⟨hallow, fun hw => hpaid kind id ?_⟩
        obtain ⟨htcp, hclient⟩ := hwanted _ hw
        simp only [paid?, call?, htask, hprogram, Option.bind_some]
        rw [if_pos]
        exact ⟨by simp [Rrl.matches?, htcp, hclient], by simp [Rrl.perform, hdecide]⟩
      | drop => exact .inl hdrop
      | truncate => exact .inl htruncate
    · rw [hprogram] at hp
      exact hp.elim
  | @transmit id world task response k htask hprogram =>
    have hrun := fun hnew => h.running id task htask hnew
    rw [hprogram] at hrun
    refine h.of_update hmono htask [.sent id response] rfl rfl (by simp) ?_ ?_
    · intro task' hnext
      obtain rfl := Option.some.inj hnext
      refine ⟨rfl, fun hnew => (hrun hnew).imp (fun hf => hf.2 world.sent) ?_⟩
      exact And.imp (fun hp => hp world.sent) fun hw hwanted => hmono id (hw hwanted)
    · intro id' response' hmem
      obtain ⟨rfl, rfl⟩ := Event.sent.inj (List.mem_singleton.mp hmem)
      refine ⟨rfl, fun hrecords hnew hw => ?_⟩
      rcases hrun hnew with hfrugal | ⟨-, hcleared⟩
      · exact absurd hfrugal.1 hrecords
      · exact hmono id' (hcleared hw)
  | reload => exact h.mono hmono rfl rfl
  | sweep => exact h.mono hmono rfl rfl

/-- **A stretch of a run** clears whom it pays for. -/
lemma exec_settled {s s' : System G} {actions : List Action} {params : RrlParams} {client : IpAddr}
    (hwanted : ∀ r, wanted r → r.isTcp = false ∧
      SamePrefix params.ipv4Prefix params.ipv6Prefix r.src client)
    (hexec : Run.exec step s actions = some s') (h : s.Settled wanted old cleared) :
    s'.Settled wanted old fun id =>
      cleared id ∨ ∃ kind, id ∈ s.paid params kind client actions := by
  induction actions generalizing s cleared with
  | nil =>
    obtain rfl : s = s' := Option.some.inj hexec
    exact h.mono (fun _ => .inl) rfl rfl
  | cons a actions ih =>
    obtain ⟨s₁, h₁, hrest⟩ := Option.bind_eq_some_iff.mp hexec
    have hstep : s₁.Settled wanted old fun id =>
        cleared id ∨ ∃ kind, s.paid? params kind client a = some id :=
      step_settled hwanted (fun _ => .inl) (fun kind id hpaid => .inr ⟨kind, hpaid⟩) h₁ h
    refine (ih hrest hstep).mono (fun id hid => ?_) rfl rfl
    simp only [paid_cons h₁, List.mem_append, Option.mem_toList, exists_or, ← or_assoc]
    exact hid

end System

/-- The time of a step that looks at the clock. -/
def Action.now? : Action → Option ℕ
  | .arrive .. => none
  | .advance _ world => some world.now
  | .reload _ => none
  | .sweep now => some now

/-- The clock readings of a run. -/
def clock (actions : List Action) : List ℕ := actions.filterMap Action.now?

/-- The limiter is called at clock readings. -/
lemma System.calls_sublist {G : Governor} (s : System G) (actions : List Action) :
    ((s.calls actions).map Prod.fst).Sublist (clock actions) := by
  induction actions generalizing s with
  | nil => exact .slnil
  | cons a actions ih =>
    have hfirst : ((s.call? a).toList.map Prod.fst).Sublist a.now?.toList := by
      cases a with
      | arrive | reload | sweep => exact List.Sublist.refl _
      | advance id world =>
        simp only [call?]
        cases s.tasks id with
        | none => exact List.nil_sublist _
        | some task =>
          obtain ⟨request, program⟩ := task
          cases program <;> first | exact List.Sublist.refl _ | exact List.nil_sublist _
    have hclock : clock (a :: actions) = a.now?.toList ++ clock actions := by
      rw [clock, List.filterMap_cons]
      cases a.now? <;> rfl
    rw [hclock]
    cases hstep : s.step a with
    | none =>
      have hcalls : s.calls (a :: actions) = (s.call? a).toList := by
        rw [calls, Run.visited, hstep, List.filterMap_cons]
        cases s.call? a <;> rfl
      rw [hcalls]
      exact hfirst.trans (List.sublist_append_left _ _)
    | some s₁ =>
      rw [calls_cons hstep, List.map_append]
      exact hfirst.append (ih s₁)

/-- **Amplification is bounded.** In any run, over any stretch of it in a window of time, of the
requests that arrive over UDP from one client prefix only few are sent a response with records: the
intervals of the quota, one for each, fit twice into the window, the tolerance and one interval
more, once for each kind of response. -/
theorem amplification_bounded {G : Governor} (K : G.PerKey) {zones : Zones}
    (henabled : zones.config.params.rrl.enabled = true) {interval tolerance : ℕ}
    (M : K.Metered (Rrl.quota zones.config.params.rrl) interval tolerance)
    {before during : List Action} {s₀ s : System G}
    (hbefore : Run.exec System.step (System.start zones) before = some s₀)
    (hduring : Run.exec System.step s₀ during = some s)
    (hclock : (clock (before ++ during)).Pairwise (· ≤ ·)) {lo hi : ℕ}
    (hwindow : ∀ t ∈ clock during, lo ≤ t ∧ t ≤ hi) (client : IpAddr) {ids : List ℕ}
    (hnodup : ids.Nodup)
    (hids : ∀ id ∈ ids, ∃ request response, .arrived id request ∈ s.trace ∧
      .arrived id request ∉ s₀.trace ∧ .sent id response ∈ s.trace ∧ ¬response.Bare ∧
      request.isTcp = false ∧ SamePrefix zones.config.params.rrl.ipv4Prefix
        zones.config.params.rrl.ipv6Prefix request.src client) :
    ids.length * interval ≤ 2 * ((hi - lo) + tolerance + interval) := by
  set params := zones.config.params.rrl
  have hcalls : (System.start zones : System G).calls (before ++ during) =
      (System.start zones : System G).calls before ++ s₀.calls during := by
    rw [System.calls, Run.visited_append _ hbefore, List.filterMap_append]
    rfl
  have horder : Rrl.InOrder ((System.start zones : System G).calls before ++ s₀.calls during) := by
    rw [← hcalls]
    exact hclock.sublist (System.calls_sublist _ _)
  have hrrl : s₀.rrl = Mealy.final Rrl.perform (.new params)
      ((System.start zones : System G).calls before) := System.rrl_of_exec hbefore
  -- each kind of response has a budget of its own
  have hrate : ∀ kind, (s₀.paid params kind client during).length * interval ≤
      (hi - lo) + tolerance + interval := by
    intro kind
    rw [System.length_paid hduring, hrrl]
    refine Rrl.allowed_rate K M henabled kind client horder fun a ha => hwindow a.1 ?_
    exact (System.calls_sublist s₀ during).subset (List.mem_map_of_mem ha)
  have hfirst : s₀.Settled (fun _ => False) [] fun id =>
      False ∨ ∃ kind, id ∈ (System.start zones : System G).paid params kind client before :=
    System.exec_settled (fun _ => False.elim) hbefore (System.start_settled zones)
  have hsettled : s.Settled (fun r => r.isTcp = false ∧
      SamePrefix params.ipv4Prefix params.ipv6Prefix r.src client) s₀.trace fun id =>
        False ∨ ∃ kind, id ∈ s₀.paid params kind client during :=
    System.exec_settled (fun _ => id) hduring (hfirst.restart _ _)
  have hsubset : ids ⊆ s₀.paid params .answer client during ++
      s₀.paid params .negative client during := by
    intro id hid
    obtain ⟨request, response, harrived, hnew, hsent, hrecords, htcp, hclient⟩ := hids id hid
    obtain hno | ⟨kind, hkind⟩ :=
      hsettled.sent id request response harrived hnew hsent hrecords ⟨htcp, hclient⟩
    · exact hno.elim
    · cases kind <;> simp [hkind]
  have hlength := (List.subperm_of_subset hnodup hsubset).length_le
  rw [List.length_append] at hlength
  calc ids.length * interval
      ≤ ((s₀.paid params .answer client during).length +
          (s₀.paid params .negative client during).length) * interval :=
        Nat.mul_le_mul_right _ hlength
    _ ≤ 2 * ((hi - lo) + tolerance + interval) := by
        rw [Nat.add_mul, Nat.two_mul]
        exact Nat.add_le_add (hrate .answer) (hrate .negative)

/-- A file that allows one response of each kind in a second. -/
def slowInput : Bytes := ofString "primary ns1.example.net
hostmaster hostmaster.example.net
rrl responses-per-second 1
rrl burst 1
network 2001:db8::/64
    resolves to %DIGITS%.example.net
"

/-- The zones of `slowInput`. -/
def slowZones : Zones := ⟨plainlyParsed slowInput, []⟩

/-- A query for the name of an address of the network, over UDP: an answer for PTR, a denial with
a SOA for A. -/
def slowRequest (t : RecordType) : Request :=
  { ptrRequest with
    info := .ok ⟨(netmaskToPtrName 0x20010db8000000000000000000000001 128).getD Name.root, t, .IN⟩ }

/-- Three requests of one client are handled side by side at the start, and two a second later. -/
def slowRun : List Action :=
  [.arrive 0 (slowRequest .PTR), .arrive 1 (slowRequest .PTR), .arrive 2 (slowRequest .A)] ++
  (List.replicate 5 [0, 1, 2]).flatten.map (.advance · calmWorld) ++
  [.arrive 3 (slowRequest .PTR), .arrive 4 (slowRequest .A)] ++
  (List.replicate 5 [3, 4]).flatten.map (.advance · { calmWorld with now := 10 ^ 9 })

/-- The event is a response with records to the request. -/
def Event.delivers (id : ℕ) : Event → Bool
  | .sent id' response => id' = id && !Decidable.decide response.Bare
  | _ => false

/-- A trace that delivers has a response to show for it. -/
lemma exists_sent_of_delivers {trace : List Event} {id : ℕ}
    (h : trace.any (·.delivers id) = true) :
    ∃ response, .sent id response ∈ trace ∧ ¬response.Bare := by
  obtain ⟨e, he, hdelivers⟩ := List.any_eq_true.mp h
  cases e with
  | arrived | charged => cases hdelivers
  | sent id' response =>
    simp only [Event.delivers, Bool.and_eq_true, decide_eq_true_eq, Bool.not_eq_true',
      decide_eq_false_iff_not] at hdelivers
    obtain ⟨rfl, hrecords⟩ := hdelivers
    exact ⟨response, he, hrecords⟩

/-- **The bound is reached**: a response of each kind at the start, and one of each kind a second
later; the second PTR query of the start is answered without records. -/
theorem amplification_bounded_slowRun :
    Config.parse plainHickory slowInput = .ok slowZones.config ∧
    Rrl.quota slowZones.config.params.rrl = (1, 1) ∧
    ∃ s : System Rrl.tokenBuckets,
      Run.exec System.step (System.start slowZones) slowRun = some s ∧
      (∀ id ∈ [0, 2, 3, 4], ∃ response, .sent id response ∈ s.trace ∧ ¬response.Bare) ∧
      [0, 2, 3, 4].length * 10 ^ 9 ≤ 2 * ((10 ^ 9 - 0) + 0 + 10 ^ 9) := by
  have hquota : Rrl.quota slowZones.config.params.rrl = (1, 1) := by decide +kernel
  refine ⟨by decide +kernel, hquota, ?_⟩
  have hrun : ((Run.exec System.step (System.start slowZones : System Rrl.tokenBuckets)
      slowRun).map fun s => [0, 2, 3, 4].all fun id => s.trace.any (·.delivers id) &&
        [slowRequest .PTR, slowRequest .A].any fun r =>
          Decidable.decide (.arrived id r ∈ s.trace)) = some true := by
    decide +kernel
  obtain ⟨s, hs, hall⟩ := Option.map_eq_some_iff.mp hrun
  have hserved : ∀ id ∈ [0, 2, 3, 4], (∃ response, .sent id response ∈ s.trace ∧ ¬response.Bare) ∧
      ∃ r ∈ [slowRequest .PTR, slowRequest .A], .arrived id r ∈ s.trace := by
    intro id hid
    obtain ⟨hsent, harrived⟩ := Bool.and_eq_true_iff.mp (List.all_eq_true.mp hall id hid)
    obtain ⟨r, hr, harrived⟩ := List.any_eq_true.mp harrived
    exact ⟨exists_sent_of_delivers hsent, r, hr, of_decide_eq_true harrived⟩
  refine ⟨s, hs, fun id hid => (hserved id hid).1, ?_⟩
  have henabled : slowZones.config.params.rrl.enabled = true := by decide +kernel
  have hwindow : ∀ t ∈ clock slowRun, 0 ≤ t ∧ t ≤ 10 ^ 9 := by decide +kernel
  have hnodup : [0, 2, 3, 4].Nodup := by decide
  have hbound := amplification_bounded Rrl.tokenBuckets_perKey henabled
    (Rrl.tokenBuckets_metered _) (Run.exec_nil _ _) hs (by decide +kernel) hwindow ptrRequest.src
    hnodup fun id hid => by
      obtain ⟨⟨response, hsent, hrecords⟩, r, hr, harrived⟩ := hserved id hid
      have hclient : r.isTcp = false ∧ r.src = ptrRequest.src := by
        rcases List.mem_cons.mp hr with rfl | hr
        · exact ⟨rfl, rfl⟩
        · obtain rfl := List.mem_singleton.mp hr
          exact ⟨rfl, rfl⟩
      refine ⟨r, response, harrived, by simp [System.start], hsent, hrecords, hclient.1, ?_⟩
      rw [hclient.2]
      exact (ClientKey.new_eq_iff _ _ _ _).mp rfl
  rw [hquota] at hbound
  exact hbound

end PanoptiDns
