import PanoptiDns.Server.Snapshot

set_option relaxedAutoImplicit false
set_option autoImplicit false

/-!
# Every request is answered once

What becomes of a request, from its arrival on, in any interleaving with other requests, reloads
and sweeps: it ends after a few steps of its own, and when it has, the limiter dropped it, or the
socket took one response, or the socket failed on all there was to send. A second response is only
ever the last-resort SERVFAIL, after the socket failed on the first.

## Main definitions

* `Response.Answers`, `lastResort` — the responses to a request.
* `Handling.Owes`, `Handling.Excuses` — programs with a response still to send.
* `System.sends` — what is handed to the socket for a request in a run.
* `Orderly`, `Complete` — what may be handed to the socket, and what becomes of a request.

## Main results

* `delivered_once` — the fate of a request, in every run from its arrival on.
-/

namespace PanoptiDns

open Bytes

/-- The response is to the request: its id, and no claim to recursion or to authenticated data. -/
structure Response.Answers (r : Response) (request : Request) : Prop where
  id : r.metadata.id = request.metadata.id
  isResponse : r.metadata.isResponse = true
  recursionAvailable : r.metadata.recursionAvailable = false
  authenticData : r.metadata.authenticData = false

/-- The SERVFAIL that is sent when nothing else can be. -/
def lastResort (request : Request) : Response where
  metadata := { id := request.metadata.id, isResponse := true, opCode := .query, code := .servFail }

/-- SERVFAIL is a response to the request. -/
lemma lastResort_answers (request : Request) : (lastResort request).Answers request :=
  ⟨rfl, rfl, rfl, rfl⟩

/-! ## One request -/

namespace Handling

variable {α β : Type}

/-- The program has come to its end. -/
def Over (p : Handling α) : Prop := ∃ a, p = .done a

/-- The program sends the last resort and no more. -/
def Excuses (request : Request) : Handling α → Prop
  | .transmit r k => r = lastResort request ∧ ∀ sent, (k sent).Over
  | _ => False

/-- The program sends a response within so many effects: it ends if the limiter drops it or the
socket takes the response, and else has the last resort to send, unless that was it. -/
def Owes (request : Request) : ℕ → Handling α → Prop
  | n + 1, .load k => ∀ zones, (k zones).Owes request n
  | n + 1, .await k => ∀ lookup, (k lookup).Owes request n
  | n + 1, .charge _ _ _ k =>
    (k .allow).Owes request n ∧ (k .truncate).Owes request n ∧ (k .drop).Over
  | _ + 1, .transmit r k => r.Answers request ∧ (k (.ok ())).Over ∧
      ((∀ e, (k (.error e)).Excuses request) ∨
        r = lastResort request ∧ ∀ e, (k (.error e)).Over)
  | _, _ => False

end Handling

section Request

variable {request : Request}

/-- Handing a response over settles the debt, in one step more. -/
lemma emit_owes {response : Response} (h : response.Answers request) (n : ℕ) :
    ((emit response).bind (conclude request)).Owes request (n + 1) :=
  ⟨h, ⟨_, rfl⟩, .inl fun _ => ⟨rfl, fun _ => ⟨_, rfl⟩⟩⟩

/-- So does SERVFAIL. -/
lemma servfail_owes (n : ℕ) : (servfail request).Owes request (n + 1) :=
  ⟨lastResort_answers request, ⟨_, rfl⟩, .inr ⟨rfl, fun _ => ⟨_, rfl⟩⟩⟩

/-- A reply is sent after the payload size is read, if at all. -/
lemma send_owes (reply : Reply) (n : ℕ) :
    ((send request reply).bind (conclude request)).Owes request (n + 2) := by
  unfold send
  split
  · exact emit_owes ⟨rfl, rfl, rfl, rfl⟩ (n + 1)
  · intro zones
    simp only
    split
    · exact emit_owes ⟨rfl, rfl, rfl, rfl⟩ n
    · exact servfail_owes n

/-- **Every request** is owed a response, within five effects. -/
lemma handleRequest_owes (request : Request) : (handleRequest request).Owes request 5 := by
  have hbind : handleRequest request = (handleInner request).bind (conclude request) := rfl
  rw [hbind]
  unfold handleInner
  split
  · exact servfail_owes 4
  · split
    · exact send_owes _ 3
    · split
      · exact send_owes _ 3
      · intro zones lookup
        exact ⟨send_owes _ 0, emit_owes ⟨rfl, rfl, rfl, rfl⟩ 1, ⟨_, rfl⟩⟩

end Request

/-! ## The fate of a request -/

/-- **What becomes of a request**, by what was handed to the socket and whether the socket took
it. -/
inductive Complete (request : Request) (dropped : Prop) : List (Response × Bool) → Prop
  /-- The limiter dropped it. -/
  | dropped (h : dropped) : Complete request dropped []
  /-- The socket took the response. -/
  | delivered {r : Response} (h : r.Answers request) : Complete request dropped [(r, true)]
  /-- The socket failed on the response, and the last resort was tried. -/
  | excused {r : Response} {taken : Bool} (h : r.Answers request) :
      Complete request dropped [(r, false), (lastResort request, taken)]
  /-- There was only the last resort to send, and the socket failed on it. -/
  | failed : Complete request dropped [(lastResort request, false)]

/-- **What may be handed to the socket** for a request, at any moment: responses to it, of which the
socket takes at most one, and a second only as the last resort after the socket failed on the
first. -/
structure Orderly (request : Request) (handed : List (Response × Bool)) : Prop where
  answers : ∀ sent ∈ handed, sent.1.Answers request
  once : (handed.filter Prod.snd).length ≤ 1
  second : handed.length ≤ 1 ∨ ∃ r taken, handed = [(r, false), (lastResort request, taken)]

/-- Where a request in flight stands, after so many effects. -/
inductive Phase (request : Request) (dropped : Prop) (p : Handling Metadata) :
    List (Response × Bool) → ℕ → Prop
  | owing {left taken : ℕ} (h : p.Owes request left) (heffects : taken + left ≤ 5) :
      Phase request dropped p [] taken
  | excusing {r : Response} {taken : ℕ} (h : p.Excuses request) (hr : r.Answers request)
      (heffects : taken ≤ 5) : Phase request dropped p [(r, false)] taken
  | ended {sends : List (Response × Bool)} {taken : ℕ} (h : p.Over)
      (hcomplete : Complete request dropped sends) (heffects : taken ≤ 6) :
      Phase request dropped p sends taken

section Phases

variable {request : Request} {dropped dropped' : Prop} {handed : List (Response × Bool)} {taken : ℕ}

/-- What is complete stays so while the trace grows. -/
lemma Complete.mono (hmono : dropped → dropped') (h : Complete request dropped handed) :
    Complete request dropped' handed := by
  cases h with
  | dropped h => exact .dropped (hmono h)
  | delivered h => exact .delivered h
  | excused h => exact .excused h
  | failed => exact .failed

/-- So does the phase of a request: what was dropped stays dropped. -/
lemma Phase.mono {p : Handling Metadata} (hmono : dropped → dropped')
    (h : Phase request dropped p handed taken) : Phase request dropped' p handed taken := by
  cases h with
  | owing h heffects => exact .owing h heffects
  | excusing h hr heffects => exact .excusing h hr heffects
  | ended h hcomplete heffects => exact .ended h (hcomplete.mono hmono) heffects

/-- What is complete is in order. -/
lemma Complete.orderly (h : Complete request dropped handed) : Orderly request handed := by
  cases h with
  | dropped => exact ⟨by simp, by simp, .inl (by simp)⟩
  | delivered h => exact ⟨by simpa using h, by simp, .inl (by simp)⟩
  | @excused r taken h =>
    refine ⟨by simpa using ⟨h, lastResort_answers request⟩, ?_, .inr ⟨r, taken, rfl⟩⟩
    cases taken <;> simp
  | failed => exact ⟨by simpa using lastResort_answers request, by simp, .inl (by simp)⟩

/-- At no time is anything handed over that is out of order, nor in more than six steps. -/
lemma Phase.orderly {p : Handling Metadata} (h : Phase request dropped p handed taken) :
    Orderly request handed ∧ taken ≤ 6 := by
  cases h with
  | owing h heffects => exact ⟨⟨by simp, by simp, .inl (by simp)⟩, by omega⟩
  | excusing h hr heffects => exact ⟨⟨by simpa using hr, by simp, .inl (by simp)⟩, by omega⟩
  | ended h hcomplete heffects => exact ⟨hcomplete.orderly, heffects⟩

/-- A program that is over has its fate. -/
lemma Phase.complete {m : Metadata} (h : Phase request dropped (.done m) handed taken) :
    Complete request dropped handed ∧ taken ≤ 6 := by
  cases h with
  | @owing left _ h => cases left <;> exact h.elim
  | excusing h => exact h.elim
  | ended _ hcomplete heffects => exact ⟨hcomplete, heffects⟩

/-- Reading the configuration is a step, and nothing is handed over in it. -/
lemma Phase.load {k : Zones → Handling Metadata} (zones : Zones)
    (h : Phase request dropped (.load k) handed taken) :
    Phase request dropped (k zones) handed (taken + 1) := by
  cases h with
  | @owing left _ h heffects =>
    cases left with
    | zero => exact h.elim
    | succ left => exact .owing (h zones) (by omega)
  | excusing h => exact h.elim
  | ended h => exact absurd h (by rintro ⟨a, ha⟩; cases ha)

/-- So is waiting for an upstream. -/
lemma Phase.await {k : (IpAddr → LookupOutcome) → Handling Metadata}
    (lookup : IpAddr → LookupOutcome) (h : Phase request dropped (.await k) handed taken) :
    Phase request dropped (k lookup) handed (taken + 1) := by
  cases h with
  | @owing left _ h heffects =>
    cases left with
    | zero => exact h.elim
    | succ left => exact .owing (h lookup) (by omega)
  | excusing h => exact h.elim
  | ended h => exact absurd h (by rintro ⟨a, ha⟩; cases ha)

/-- The limiter ends a request if it drops it. -/
lemma Phase.charge {src : IpAddr} {kind : Kind} {isTcp : Bool} {k : Decision → Handling Metadata}
    (decision : Decision) (hdropped : decision = .drop → dropped)
    (h : Phase request dropped (.charge src kind isTcp k) handed taken) :
    Phase request dropped (k decision) handed (taken + 1) := by
  cases h with
  | @owing left _ h heffects =>
    cases left with
    | zero => exact h.elim
    | succ left =>
      obtain ⟨hallow, htruncate, hdrop⟩ := h
      cases decision with
      | allow => exact .owing hallow (by omega)
      | truncate => exact .owing htruncate (by omega)
      | drop => exact .ended hdrop (.dropped (hdropped rfl)) (by omega)
  | excusing h => exact h.elim
  | ended h => exact absurd h (by rintro ⟨a, ha⟩; cases ha)

/-- The socket ends a request if it takes the response, or if that was the last resort. -/
lemma Phase.transmit {r : Response} {k : Except Bytes Unit → Handling Metadata}
    (sent : Except Bytes Unit) (h : Phase request dropped (.transmit r k) handed taken) :
    Phase request dropped (k sent) (handed ++ [(r, sent.isOk)]) (taken + 1) := by
  cases h with
  | @owing left _ h heffects =>
    cases left with
    | zero => exact h.elim
    | succ left =>
      obtain ⟨hr, hok, herror⟩ := h
      cases sent with
      | ok => exact .ended hok (.delivered hr) (by omega)
      | error e =>
        rcases herror with hexcuses | ⟨rfl, hover⟩
        · exact .excusing (hexcuses e) hr (by omega)
        · exact .ended (hover e) .failed (by omega)
  | excusing h hr heffects =>
    obtain ⟨rfl, hover⟩ := h
    exact .ended (hover sent) (.excused hr) (by omega)
  | ended h => exact absurd h (by rintro ⟨a, ha⟩; cases ha)

end Phases

namespace System

variable {G : Governor}

/-- What a step hands to the socket for a request, and whether the socket takes it. -/
def send? (id : ℕ) (s : System G) : Action → Option (Response × Bool)
  | .advance id' world =>
    if id' = id then
      (s.tasks id).bind fun task =>
        match task.program with
        | .transmit response _ => some (response, world.sent.isOk)
        | _ => none
    else none
  | _ => none

/-- What is handed to the socket for a request in a run. -/
def sends (id : ℕ) (s : System G) (actions : List Action) : List (Response × Bool) :=
  (Run.visited step s actions).filterMap fun v => v.1.send? id v.2

/-- What a run hands over is what its first step and the rest of it do. -/
lemma sends_cons {s s' : System G} {a : Action} (h : s.step a = some s') (id : ℕ)
    (actions : List Action) :
    s.sends id (a :: actions) = (s.send? id a).toList ++ s'.sends id actions := by
  rw [sends, Run.visited_cons step h, List.filterMap_cons]
  cases s.send? id a <;> rfl

end System

/-- The step is one of the request's own. -/
def Action.isOf (id : ℕ) : Action → Bool
  | .advance id' _ => id' = id
  | _ => false

/-- The limiter dropped the request. -/
def DroppedIn (trace : List Event) (id : ℕ) : Prop := ∃ src, .charged id src .drop ∈ trace

namespace System

variable {G : Governor} {id : ℕ} {request : Request}

/-- **What holds of a request** from its arrival on: it is in flight in some phase, or it has
ended. -/
inductive Followed (id : ℕ) (request : Request) (s : System G) (handed : List (Response × Bool))
    (taken : ℕ) : Prop
  | running {p : Handling Metadata} (htask : s.tasks id = some ⟨request, p⟩)
      (hphase : Phase request (DroppedIn s.trace id) p handed taken)
  | ended (htask : s.tasks id = none) (hcomplete : Complete request (DroppedIn s.trace id) handed)
      (heffects : taken ≤ 7)

variable {s s' : System G} {handed : List (Response × Bool)} {taken : ℕ}

/-- What other requests do does not matter. -/
lemma Followed.frame (h : Followed id request s handed taken) (htasks : s'.tasks id = s.tasks id)
    (htrace : ∀ e ∈ s.trace, e ∈ s'.trace) : Followed id request s' handed taken := by
  have hdropped : DroppedIn s.trace id → DroppedIn s'.trace id :=
    Exists.imp fun src => htrace _
  cases h with
  | running htask hphase => exact .running (htasks.trans htask) (hphase.mono hdropped)
  | ended htask hcomplete heffects =>
    exact .ended (htasks.trans htask) (hcomplete.mono hdropped) heffects

/-- **One step of the request's own.** -/
lemma advance_followed {world : World} {p : Handling Metadata}
    (htask : s.tasks id = some ⟨request, p⟩)
    (hphase : Phase request (DroppedIn s.trace id) p handed taken)
    (hstep : s.Steps (.advance id world) s') :
    Followed id request s' (handed ++ (s.send? id (.advance id world)).toList) (taken + 1) := by
  have hown : ∀ {task : Task}, s.tasks id = some task → task = ⟨request, p⟩ := by
    intro task h
    exact Option.some.inj (h.symm.trans htask)
  simp only [send?, if_true, htask, Option.bind_some]
  cases hstep with
  | finish htask' hprogram =>
    obtain rfl := hown htask'
    obtain rfl := hprogram
    obtain ⟨hcomplete, heffects⟩ := hphase.complete
    exact .ended (Function.update_self ..) (by simpa using hcomplete) (by omega)
  | load htask' hprogram =>
    obtain rfl := hown htask'
    obtain rfl := hprogram
    exact .running (Function.update_self ..) (by simpa [resume] using hphase.load _)
  | await htask' hprogram =>
    obtain rfl := hown htask'
    obtain rfl := hprogram
    exact .running (Function.update_self ..) (by simpa [resume] using hphase.await _)
  | @charge _ _ _ src kind isTcp k decision rrl htask' hprogram hdecide =>
    obtain rfl := hown htask'
    obtain rfl := hprogram
    refine .running (Function.update_self ..) ?_
    have hmono : DroppedIn s.trace id → DroppedIn (s.trace ++ [.charged id src decision]) id :=
      Exists.imp fun src => List.mem_append_left _
    simpa [resume, log] using
      (hphase.mono hmono).charge decision fun hdrop => ⟨src, by simp [hdrop]⟩
  | @transmit _ _ _ response k htask' hprogram =>
    obtain rfl := hown htask'
    obtain rfl := hprogram
    refine .running (Function.update_self ..) ?_
    have hmono : DroppedIn s.trace id → DroppedIn (s.trace ++ [.sent id response]) id :=
      Exists.imp fun src => List.mem_append_left _
    exact (hphase.mono hmono).transmit world.sent

/-- A step of another request leaves the request alone. -/
lemma Steps.frame {a : Action} (hstep : s.Steps a s') (hknown : ∃ e ∈ s.trace, e.id = id)
    (hother : a.isOf id = false) :
    s'.tasks id = s.tasks id ∧ (∀ e ∈ s.trace, e ∈ s'.trace) := by
  have hne : ∀ {id' world}, a = .advance id' world → id ≠ id' := by
    rintro id' world rfl rfl
    simp [Action.isOf] at hother
  cases hstep with
  | arrive hnew =>
    obtain ⟨e, he, rfl⟩ := hknown
    exact ⟨Function.update_of_ne (hnew e he) _ _, fun e he => List.mem_append_left _ he⟩
  | reload | sweep => exact ⟨rfl, fun _ he => he⟩
  | finish | load | await => exact ⟨Function.update_of_ne (hne rfl) _ _, fun _ he => he⟩
  | charge | transmit =>
    exact ⟨Function.update_of_ne (hne rfl) _ _, fun _ he => List.mem_append_left _ he⟩

/-- Only a step of the request's own hands anything to the socket for it. -/
lemma send?_of_other {a : Action} (hother : a.isOf id = false) : s.send? id a = none := by
  cases a with
  | advance id' world =>
    have hne : id' ≠ id := by simpa [Action.isOf] using hother
    simp [send?, hne]
  | _ => rfl

/-- The trace only grows. -/
lemma Steps.mem_trace {a : Action} (hstep : s.Steps a s') : ∀ e ∈ s.trace, e ∈ s'.trace := by
  cases hstep with
  | arrive | charge | transmit => exact fun _ he => List.mem_append_left _ he
  | _ => exact fun _ he => he

/-- **One step** of the server. -/
lemma step_followed {a : Action} (hknown : ∃ e ∈ s.trace, e.id = id) (hstep : s.step a = some s')
    (h : Followed id request s handed taken) :
    Followed id request s' (handed ++ (s.send? id a).toList)
      (taken + if a.isOf id then 1 else 0) := by
  cases hown : a.isOf id with
  | false =>
    obtain ⟨htasks, htrace⟩ := (steps_of_step hstep).frame hknown hown
    rw [send?_of_other hown, Option.toList_none, List.append_nil, if_neg (by simp)]
    exact h.frame htasks htrace
  | true =>
    cases a with
    | advance id' world =>
      obtain rfl : id' = id := by simpa [Action.isOf] using hown
      cases h with
      | running htask hphase => exact advance_followed htask hphase (steps_of_step hstep)
      | ended htask =>
        rw [step, htask] at hstep
        cases hstep
    | _ => cases hown

/-- **A run from the arrival on.** -/
lemma exec_followed {actions : List Action} (hknown : ∃ e ∈ s.trace, e.id = id)
    (hexec : Run.exec step s actions = some s') (h : Followed id request s handed taken) :
    Followed id request s' (handed ++ s.sends id actions)
      (taken + actions.countP (Action.isOf id)) := by
  induction actions generalizing s handed taken with
  | nil =>
    obtain rfl : s = s' := Option.some.inj hexec
    simpa [sends, Run.visited] using h
  | cons a actions ih =>
    obtain ⟨s₁, h₁, hrest⟩ := Option.bind_eq_some_iff.mp hexec
    obtain ⟨e, he, hid⟩ := hknown
    have hstep := step_followed ⟨e, he, hid⟩ h₁ h
    have hnext := ih ⟨e, (steps_of_step h₁).mem_trace e he, hid⟩ hrest hstep
    rw [sends_cons h₁, List.countP_cons]
    rw [List.append_assoc] at hnext
    convert hnext using 1
    omega

end System

/-- **Every request is answered once.** In any run from the arrival of a request on, what is handed
to the socket for it is orderly. The request takes at most seven steps of its own, and when it has
ended it was dropped by the limiter, or its response was taken, or the last resort was tried. -/
theorem delivered_once {G : Governor} {s₀ s₁ s : System G} {id : ℕ} {request : Request}
    {actions : List Action} (harrive : s₀.step (.arrive id request) = some s₁)
    (hexec : Run.exec System.step s₁ actions = some s) :
    Orderly request (s₁.sends id actions) ∧
    actions.countP (Action.isOf id) ≤ 7 ∧
    (actions.countP (Action.isOf id) = 7 → s.tasks id = none) ∧
    (s.tasks id = none → Complete request (DroppedIn s.trace id) (s₁.sends id actions)) := by
  obtain ⟨hknown, hstart⟩ : (∃ e ∈ s₁.trace, e.id = id) ∧
      System.Followed id request s₁ [] 0 := by
    cases System.steps_of_step harrive with
    | arrive =>
      exact ⟨⟨.arrived id request, by simp, rfl⟩, .running (Function.update_self ..)
        (.owing (handleRequest_owes request) (by omega))⟩
  have hfollowed := System.exec_followed hknown hexec hstart
  rw [List.nil_append, Nat.zero_add] at hfollowed
  cases hfollowed with
  | running htask hphase =>
    obtain ⟨horderly, heffects⟩ := hphase.orderly
    exact ⟨horderly, by omega, by omega, by simp [htask]⟩
  | ended htask hcomplete heffects =>
    exact ⟨hcomplete.orderly, heffects, fun _ => htask, fun _ => hcomplete⟩

/-- A PTR query is delivered one response in five steps. -/
theorem delivered_once_ptrRequest :
    ∃ s₁ s : System Rrl.tokenBuckets,
      (System.start sampleZones : System Rrl.tokenBuckets).step (.arrive 0 ptrRequest) = some s₁ ∧
      Run.exec System.step s₁ (List.replicate 5 (.advance 0 calmWorld)) = some s ∧
      Complete ptrRequest (DroppedIn s.trace 0)
        (s₁.sends 0 (List.replicate 5 (.advance 0 calmWorld))) := by
  have hrun : ((Run.exec System.step (System.start sampleZones : System Rrl.tokenBuckets)
      (fullRun ptrRequest)).map fun s => (s.tasks 0).isNone) = some true := by
    decide +kernel
  obtain ⟨s, hs, hnone⟩ := Option.map_eq_some_iff.mp hrun
  obtain ⟨s₁, h₁, hrest⟩ := Option.bind_eq_some_iff.mp hs
  exact ⟨s₁, s, h₁, hrest, (delivered_once h₁ hrest).2.2.2 (Option.isNone_iff_eq_none.mp hnone)⟩

end PanoptiDns
