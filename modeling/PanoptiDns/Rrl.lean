import PanoptiDns.Config.Basic

set_option relaxedAutoImplicit false
set_option autoImplicit false

/-!
# Response rate limiting

`src/rrl.rs`. The keyed limiter is that of the `governor` crate and is left open as a parameter:
a state, and what a check of a key at a time does to it.

## Main definitions

* `ClientKey`, `ClientKey.new` — the bucket of a client.
* `Governor` — a keyed limiter.
* `Rrl`, `Rrl.decide`, `Rrl.sweep`.
-/

namespace PanoptiDns

/-- A client bucket key: the client address masked to the configured prefix. -/
inductive ClientKey
  | v4 (bits : BitVec 32)
  | v6 (bits : BitVec 64)
  deriving DecidableEq

/-- Aggregate `addr` to the configured prefix length. -/
def ClientKey.new (addr : IpAddr) (ipv4Prefix ipv6Prefix : ℕ) : ClientKey :=
  match addr with
  | .v4 bits =>
    let shift := 32 - min ipv4Prefix 32
    .v4 (if shift ≥ 32 then 0 else bits >>> shift <<< shift)
  | .v6 bits =>
    -- the top 64 bits are enough
    let high : BitVec 64 := (bits >>> 64).setWidth 64
    let shift := 64 - min ipv6Prefix 64
    .v6 (if shift ≥ 64 then 0 else high >>> shift <<< shift)

/-- Which budget a response draws from. -/
inductive Kind
  | answer
  | negative
  deriving DecidableEq

/-- What the limiter decided. -/
inductive Decision
  | allow
  | drop
  | truncate
  deriving DecidableEq

/-- A keyed limiter, as the `governor` crate has it: a fresh one for a rate and a burst, the check
of a key at a time, and the removal of idle keys. -/
structure Governor where
  State : Type
  keyed : (rate burst : ℕ) → State
  checkKey : State → (now : ℕ) → ClientKey → Bool × State
  retainRecent : State → (now : ℕ) → State

/-- Keyed limiter with separate answer and negative budgets. -/
structure Rrl (G : Governor) where
  params : RrlParams
  answers : G.State
  negatives : G.State
  suppressed : ℕ

namespace Rrl

variable {G : Governor}

/-- Rate and burst; the fallbacks are for values the validator rejects. -/
def quota (params : RrlParams) : ℕ × ℕ :=
  let rps := if params.responsesPerSecond = 0 then 1 else params.responsesPerSecond
  let burst := if params.burst = 0 then rps else params.burst
  (rps, burst)

/-- A limiter with full budgets. -/
def new (params : RrlParams) : Rrl G :=
  let fresh := G.keyed (quota params).1 (quota params).2
  ⟨params, fresh, fresh, 0⟩

/-- The check of a key against the budget of its kind. -/
def check (rrl : Rrl G) (now : ℕ) (key : ClientKey) : Kind → Bool × Rrl G
  | .answer =>
    let (ok, answers) := G.checkKey rrl.answers now key
    (ok, { rrl with answers })
  | .negative =>
    let (ok, negatives) := G.checkKey rrl.negatives now key
    (ok, { rrl with negatives })

/-- Decide whether to send a response of `kind` to `addr`. -/
def decide (rrl : Rrl G) (now : ℕ) (addr : IpAddr) (kind : Kind) (isTcp : Bool) :
    Decision × Rrl G :=
  if !rrl.params.enabled || isTcp then (.allow, rrl)
  else
    let key := ClientKey.new addr rrl.params.ipv4Prefix rrl.params.ipv6Prefix
    let (ok, rrl) := rrl.check now key kind
    if ok then (.allow, rrl)
    else
      -- over budget: every `slip`th suppressed response is truncated instead of dropped
      let n := rrl.suppressed
      let rrl := { rrl with suppressed := (n + 1) % 2 ^ 64 }
      if rrl.params.slip = 0 then (.drop, rrl)
      else if n % rrl.params.slip = 0 then (.truncate, rrl)
      else (.drop, rrl)

/-- Drop bucket state for clients that have gone quiet. -/
def sweep (rrl : Rrl G) (now : ℕ) : Rrl G :=
  { rrl with
    answers := G.retainRecent rrl.answers now
    negatives := G.retainRecent rrl.negatives now }

end Rrl

end PanoptiDns
