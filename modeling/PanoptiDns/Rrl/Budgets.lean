import PanoptiDns.Lib.Mealy
import PanoptiDns.Lib.PrefixMask
import PanoptiDns.Rrl

set_option relaxedAutoImplicit false
set_option autoImplicit false

/-!
# Rate-limit budgets do not interfere

What a client prefix is allowed of one kind of response depends on when it asked for responses of
that kind over UDP, and on nothing else that happens at the limiter. The keyed limiter is assumed
to be what the `governor` crate says of it: a cell for each key, moved by that key's own checks,
where a sweep only removes cells that cannot be told from fresh ones.

## Main definitions

* `SamePrefix` — the addresses of one client.
* `Governor.PerKey` — what is assumed of the keyed limiter.
* `Rrl.Action`, `Rrl.perform` — decisions and sweeps, as the inputs of a machine.
* `Rrl.matched`, `Rrl.allowed` — the calls of one client and kind in a run, and which of them are
  allowed.

## Main results

* `ClientKey.new_eq_iff` — two addresses have one key iff they have one prefix.
* `Rrl.allowed_eq_answers` — which calls are allowed is what the client's own cell says.
* `Rrl.budgets_independent` — two runs with the same matched calls allow the same of them.
-/

namespace PanoptiDns

/-! ### The key of a client -/

/-- **One client prefix**: addresses of one family with the same high bits, as many as the prefix
length says and the family has (of an IPv6 address the upper half). -/
def SamePrefix (ipv4Prefix ipv6Prefix : ℕ) : IpAddr → IpAddr → Prop
  | .v4 a, .v4 b => ∀ i < min ipv4Prefix 32, a.getMsbD i = b.getMsbD i
  | .v6 a, .v6 b => ∀ i < min ipv6Prefix 64, a.getMsbD i = b.getMsbD i
  | _, _ => False

instance (ipv4Prefix ipv6Prefix : ℕ) (a b : IpAddr) :
    Decidable (SamePrefix ipv4Prefix ipv6Prefix a b) :=
  match a, b with
  | .v4 _, .v4 _ => inferInstanceAs (Decidable (∀ i < min ipv4Prefix 32, _))
  | .v6 _, .v6 _ => inferInstanceAs (Decidable (∀ i < min ipv6Prefix 64, _))
  | .v4 _, .v6 _ => .isFalse id
  | .v6 _, .v4 _ => .isFalse id

/-- A shift by the whole width or more leaves nothing, as the shifts say by themselves. -/
lemma shifted_guard {w m : ℕ} (x : BitVec w) :
    (if w - min m w ≥ w then 0 else x >>> (w - min m w) <<< (w - min m w)) =
      x >>> (w - min m w) <<< (w - min m w) := by
  split_ifs with h
  · have hzero : min m w = 0 ∨ w = 0 := by omega
    apply BitVec.eq_of_getMsbD_eq
    intro i hi
    rw [PrefixMask.getMsbD_shifted (min_le_right m w)]
    simp [show ¬ i < min m w by omega]
  · rfl

/-- The upper half of an IPv6 address has its high bits. -/
lemma getMsbD_high (x : BitVec 128) {i : ℕ} (hi : i < 64) :
    ((x >>> 64).setWidth 64 : BitVec 64).getMsbD i = x.getMsbD i := by
  rw [BitVec.getMsbD_setWidth, BitVec.getMsbD_ushiftRight]
  simp [show i + 64 < 128 by omega]

/-- **Two addresses have one key iff they have one prefix.** -/
theorem ClientKey.new_eq_iff (ipv4Prefix ipv6Prefix : ℕ) (a b : IpAddr) :
    ClientKey.new a ipv4Prefix ipv6Prefix = ClientKey.new b ipv4Prefix ipv6Prefix ↔
      SamePrefix ipv4Prefix ipv6Prefix a b := by
  cases a with
  | v4 a =>
    cases b with
    | v4 b =>
      simp only [ClientKey.new, shifted_guard, ClientKey.v4.injEq, SamePrefix]
      exact PrefixMask.shifted_eq_iff (min_le_right ipv4Prefix 32)
    | v6 b => simp [ClientKey.new, SamePrefix]
  | v6 a =>
    cases b with
    | v4 b => simp [ClientKey.new, SamePrefix]
    | v6 b =>
      simp only [ClientKey.new, shifted_guard, ClientKey.v6.injEq, SamePrefix]
      rw [PrefixMask.shifted_eq_iff (min_le_right ipv6Prefix 64)]
      refine forall₂_congr fun i hi => ?_
      have hi64 : i < 64 := hi.trans_le (min_le_right ipv6Prefix 64)
      rw [getMsbD_high a hi64, getMsbD_high b hi64]

/-! ### The keyed limiter -/

/-- **What is assumed of the keyed limiter.** Each key has a cell; a check of the key is answered
by its cell and moves that cell only; a sweep leaves a cell alone or makes it fresh, and makes it
fresh only if no checks from then on can tell. -/
structure Governor.PerKey (G : Governor) where
  Cell : Type
  check : Cell → ℕ → Bool × Cell
  fresh : Cell → Cell
  cell : G.State → ClientKey → Cell
  /-- The states the limiter can be in. -/
  Valid : G.State → Prop
  valid_keyed : ∀ rate burst, Valid (G.keyed rate burst)
  valid_checkKey : ∀ s now key, Valid s → Valid (G.checkKey s now key).2
  valid_retainRecent : ∀ s now, Valid s → Valid (G.retainRecent s now)
  checkKey_self : ∀ s now key, Valid s →
    (G.checkKey s now key).1 = (check (cell s key) now).1 ∧
      cell (G.checkKey s now key).2 key = (check (cell s key) now).2
  checkKey_other : ∀ s now key key', Valid s → key' ≠ key →
    cell (G.checkKey s now key).2 key' = cell s key'
  retainRecent_cell : ∀ s now key, Valid s →
    cell (G.retainRecent s now) key = cell s key ∨
      (cell (G.retainRecent s now) key = fresh (cell s key) ∧
        ∀ times, times.Pairwise (· ≤ ·) → (∀ t ∈ times, now ≤ t) →
          Mealy.answers check (fresh (cell s key)) times =
            Mealy.answers check (cell s key) times)

namespace Rrl

variable {G : Governor}

/-- The budget a kind of response draws from. -/
def budget (rrl : Rrl G) : Kind → G.State
  | .answer => rrl.answers
  | .negative => rrl.negatives

/-- What is asked of the limiter: a decision, or a sweep. -/
inductive Action
  | decide (addr : IpAddr) (kind : Kind) (isTcp : Bool)
  | sweep
  deriving DecidableEq

/-- The limiter as a machine, fed with actions and the times they are taken at. -/
def perform (rrl : Rrl G) : ℕ × Action → Option Decision × Rrl G
  | (now, .decide addr kind isTcp) =>
    let (decision, rrl) := rrl.decide now addr kind isTcp
    (some decision, rrl)
  | (now, .sweep) => (none, rrl.sweep now)

/-- The clock never goes back along a run. -/
def InOrder (run : List (ℕ × Action)) : Prop := (run.map Prod.fst).Pairwise (· ≤ ·)

/-- The time of a UDP call of a kind from a client. -/
def matches? (params : RrlParams) (kind : Kind) (client : IpAddr) : ℕ × Action → Option ℕ
  | (now, .decide addr kind' isTcp) =>
    if !isTcp ∧ kind' = kind ∧ SamePrefix params.ipv4Prefix params.ipv6Prefix addr client
    then some now else none
  | (_, .sweep) => none

/-- The times of the UDP calls of a kind from a client, in a run. -/
def matched (params : RrlParams) (kind : Kind) (client : IpAddr) (run : List (ℕ × Action)) :
    List ℕ :=
  run.filterMap (matches? params kind client)

/-- Which of these calls a new limiter allows, in order. -/
def allowed (G : Governor) (params : RrlParams) (kind : Kind) (client : IpAddr)
    (run : List (ℕ × Action)) : List Bool :=
  (Mealy.answersSeen perform (matches? params kind client) (new params : Rrl G) run).map
    (· == some .allow)

/-! ### One action -/

/-- Without a limiter, or over TCP, everything is allowed and nothing is counted. -/
lemma decide_of_unlimited (rrl : Rrl G) (now : ℕ) (addr : IpAddr) (kind : Kind) {isTcp : Bool}
    (h : rrl.params.enabled = false ∨ isTcp = true) :
    rrl.decide now addr kind isTcp = (.allow, rrl) := by
  rw [decide, if_pos (by rcases h with h | h <;> simp [h])]

/-- The key a client's checks are made with. -/
def key (params : RrlParams) (addr : IpAddr) : ClientKey :=
  ClientKey.new addr params.ipv4Prefix params.ipv6Prefix

/-- What becomes of a suppressed response that finds the counter at `n`. -/
def slipped (slip n : ℕ) : Decision :=
  if slip = 0 then .drop else if n % slip = 0 then .truncate else .drop

/-- A decision that is limited, as its check and what it does over budget. -/
lemma decide_of_limited (rrl : Rrl G) (now : ℕ) (addr : IpAddr) (kind : Kind)
    (henabled : rrl.params.enabled = true) :
    rrl.decide now addr kind false =
      if (rrl.check now (key rrl.params addr) kind).1 then
        (.allow, (rrl.check now (key rrl.params addr) kind).2)
      else (slipped rrl.params.slip rrl.suppressed,
        { (rrl.check now (key rrl.params addr) kind).2 with
          suppressed := (rrl.suppressed + 1) % 2 ^ 64 }) := by
  have hparams : (rrl.check now (key rrl.params addr) kind).2.params = rrl.params := by
    cases kind <;> rfl
  have hsuppressed : (rrl.check now (key rrl.params addr) kind).2.suppressed = rrl.suppressed := by
    cases kind <;> rfl
  have hkey : ClientKey.new addr rrl.params.ipv4Prefix rrl.params.ipv6Prefix =
      key rrl.params addr := rfl
  simp only [decide, henabled, Bool.not_true, Bool.or_false, Bool.false_eq_true, if_false]
  rw [hkey, hparams, hsuppressed, slipped]
  split_ifs <;> rfl

/-- What is over budget is not allowed. -/
@[simp] lemma slipped_ne_allow (slip n : ℕ) : slipped slip n ≠ .allow := by
  unfold slipped
  split_ifs <;> simp

/-- The check of a key moves the budget of its kind only. -/
lemma check_spec (rrl : Rrl G) (now : ℕ) (k : ClientKey) (kind : Kind) :
    (rrl.check now k kind).1 = (G.checkKey (rrl.budget kind) now k).1 ∧
      (rrl.check now k kind).2.params = rrl.params ∧
      ∀ kind', (rrl.check now k kind).2.budget kind' =
        if kind' = kind then (G.checkKey (rrl.budget kind) now k).2 else rrl.budget kind' := by
  refine ⟨by cases kind <;> rfl, by cases kind <;> rfl, fun kind' => ?_⟩
  cases kind <;> cases kind' <;> rfl

/-- The counter of the suppressed responses is not part of a budget. -/
lemma budget_suppressed (rrl : Rrl G) (n : ℕ) (kind : Kind) :
    ({ rrl with suppressed := n } : Rrl G).budget kind = rrl.budget kind := by
  cases kind <;> rfl

/-- **A limited decision** allows if and only if the check of the client's key does, and moves the
budget of its kind as the check does. -/
lemma decide_spec (rrl : Rrl G) (now : ℕ) (addr : IpAddr) (kind : Kind)
    (henabled : rrl.params.enabled = true) :
    ((rrl.decide now addr kind false).1 = .allow ↔
        (G.checkKey (rrl.budget kind) now (key rrl.params addr)).1 = true) ∧
      (rrl.decide now addr kind false).2.params = rrl.params ∧
      ∀ kind', (rrl.decide now addr kind false).2.budget kind' =
        if kind' = kind then (G.checkKey (rrl.budget kind) now (key rrl.params addr)).2
        else rrl.budget kind' := by
  obtain ⟨hanswer, hparams, hbudget⟩ := check_spec rrl now (key rrl.params addr) kind
  rw [decide_of_limited rrl now addr kind henabled]
  split_ifs with hok
  · exact ⟨by simp [← hanswer, hok], hparams, hbudget⟩
  · refine ⟨by simp [← hanswer, hok], hparams, fun kind' => ?_⟩
    rw [budget_suppressed, hbudget]

/-- A sweep sweeps both budgets. -/
lemma budget_sweep (rrl : Rrl G) (now : ℕ) (kind : Kind) :
    (rrl.sweep now).budget kind = G.retainRecent (rrl.budget kind) now := by
  cases kind <;> rfl

/-! ### Runs -/

/-- What the limiter keeps along a run: its parameters, and budgets it can have. -/
def Kept (K : G.PerKey) (params : RrlParams) (rrl : Rrl G) : Prop :=
  rrl.params = params ∧ ∀ kind, K.Valid (rrl.budget kind)

/-- The client's cell in the budget of a kind. -/
def view (K : G.PerKey) (params : RrlParams) (kind : Kind) (client : IpAddr) (rrl : Rrl G) :
    K.Cell :=
  K.cell (rrl.budget kind) (key params client)

section Step

variable (K : G.PerKey) {params : RrlParams} (kind : Kind) (client : IpAddr)

/-- A fresh limiter has its parameters, and full budgets. -/
lemma kept_new : Kept K params (new params : Rrl G) :=
  ⟨rfl, fun kind => by cases kind <;> exact K.valid_keyed _ _⟩

/-- A decision that is not limited leaves the limiter alone; a limited one checks the client's
key in the budget of its kind. -/
lemma perform_decide_cases (rrl : Rrl G) (now : ℕ) (addr : IpAddr) (kind : Kind) (isTcp : Bool) :
    (isTcp = true ∧ perform rrl (now, .decide addr kind isTcp) = (some .allow, rrl)) ∨
      (isTcp = false ∧ perform rrl (now, .decide addr kind isTcp) =
        (some (rrl.decide now addr kind false).1, (rrl.decide now addr kind false).2)) := by
  cases isTcp with
  | true => exact .inl ⟨rfl, by rw [perform, decide_of_unlimited rrl now addr kind (.inr rfl)]⟩
  | false => exact .inr ⟨rfl, rfl⟩

/-- They are kept by every call and every sweep. -/
lemma kept_perform {rrl : Rrl G} (a : ℕ × Action) (henabled : params.enabled = true)
    (h : Kept K params rrl) : Kept K params (perform rrl a).2 := by
  obtain ⟨now, a⟩ := a
  obtain ⟨rfl, hvalid⟩ := h
  cases a with
  | sweep =>
    refine ⟨rfl, fun kind => ?_⟩
    simp only [perform, budget_sweep]
    exact K.valid_retainRecent _ now (hvalid kind)
  | decide addr kind isTcp =>
    rcases perform_decide_cases rrl now addr kind isTcp with ⟨-, h⟩ | ⟨-, h⟩
    · rw [h]
      exact ⟨rfl, hvalid⟩
    · rw [h]
      obtain ⟨-, hparams, hbudget⟩ := decide_spec rrl now addr kind henabled
      refine ⟨hparams, fun kind' => ?_⟩
      rw [hbudget]
      split_ifs
      · exact K.valid_checkKey _ now _ (hvalid kind)
      · exact hvalid kind'

/-- **A matched call** is answered by the client's cell, and moves it as its check does. -/
lemma perform_matched {rrl : Rrl G} {a : ℕ × Action} {t : ℕ} (henabled : params.enabled = true)
    (h : Kept K params rrl) (hmatch : matches? params kind client a = some t) :
    ((perform rrl a).1 == some .allow) = (K.check (view K params kind client rrl) t).1 ∧
      view K params kind client (perform rrl a).2 =
        (K.check (view K params kind client rrl) t).2 := by
  obtain ⟨now, a⟩ := a
  obtain ⟨rfl, hvalid⟩ := h
  cases a with
  | sweep => cases hmatch
  | decide addr kind' isTcp =>
    simp only [matches?] at hmatch
    split_ifs at hmatch with hcond
    obtain ⟨htcp, rfl, hprefix⟩ := hcond
    obtain rfl := Option.some.inj hmatch
    have hkey : key rrl.params addr = key rrl.params client :=
      (ClientKey.new_eq_iff _ _ addr client).mpr hprefix
    rcases perform_decide_cases rrl now addr kind' isTcp with ⟨h, -⟩ | ⟨-, h⟩
    · rw [h] at htcp
      cases htcp
    · rw [h]
      obtain ⟨hallow, -, hbudget⟩ := decide_spec rrl now addr kind' henabled
      obtain ⟨hanswer, hcell⟩ := K.checkKey_self _ now (key rrl.params client) (hvalid kind')
      rw [hkey] at hallow
      refine ⟨?_, ?_⟩
      · rw [view, ← hanswer, Bool.eq_iff_iff, ← hallow]
        simp
      · rw [view, hbudget, if_pos rfl, hkey, hcell, view]

/-- **Any other action** leaves the client's cell, or makes it fresh where no check from then on
can tell. -/
lemma perform_unmatched {rrl : Rrl G} {a : ℕ × Action} {times : List ℕ}
    (henabled : params.enabled = true) (h : Kept K params rrl)
    (hmatch : matches? params kind client a = none) (hsorted : times.Pairwise (· ≤ ·))
    (hlater : ∀ t ∈ times, a.1 ≤ t) :
    Mealy.answers K.check (view K params kind client (perform rrl a).2) times =
      Mealy.answers K.check (view K params kind client rrl) times := by
  obtain ⟨now, a⟩ := a
  obtain ⟨rfl, hvalid⟩ := h
  cases a with
  | sweep =>
    simp only [perform, view, budget_sweep]
    rcases K.retainRecent_cell _ now (key rrl.params client) (hvalid kind) with
      hcell | ⟨hcell, hsame⟩
    · rw [hcell]
    · rw [hcell, hsame times hsorted hlater]
  | decide addr kind' isTcp =>
    rcases perform_decide_cases rrl now addr kind' isTcp with ⟨-, h⟩ | ⟨htcp, h⟩
    · rw [h]
    · rw [h, view]
      obtain ⟨-, -, hbudget⟩ := decide_spec rrl now addr kind' henabled
      rw [hbudget]
      split_ifs with hkind
      · -- a call of the kind from another client: the check is of another key
        have hkey : key rrl.params client ≠ key rrl.params addr := by
          intro hkey
          have hprefix := (ClientKey.new_eq_iff _ _ addr client).mp hkey.symm
          simp only [matches?] at hmatch
          rw [if_pos ⟨by simp [htcp], hkind.symm, hprefix⟩] at hmatch
          cases hmatch
        rw [hkind, K.checkKey_other _ now _ _ (hvalid kind') hkey, ← hkind]
        rfl
      · rfl

end Step

/-- The time of a call is the one it was made at. -/
lemma eq_fst_of_matches {params : RrlParams} {kind : Kind} {client : IpAddr} {a : ℕ × Action}
    {t : ℕ} (h : matches? params kind client a = some t) : t = a.1 := by
  obtain ⟨now, a⟩ := a
  cases a with
  | sweep => cases h
  | decide addr kind' isTcp =>
    simp only [matches?] at h
    split_ifs at h
    exact (Option.some.inj h).symm

/-- In a run in time order the matched calls after an action are in order, and not before it. -/
lemma matched_follows (params : RrlParams) (kind : Kind) (client : IpAddr)
    {older newer : List (ℕ × Action)} {a : ℕ × Action} (h : InOrder (older ++ a :: newer)) :
    (matched params kind client newer).Pairwise (· ≤ ·) ∧
      ∀ t ∈ matched params kind client newer, a.1 ≤ t := by
  rw [InOrder, List.map_append, List.pairwise_append, List.map_cons, List.pairwise_cons] at h
  obtain ⟨-, ⟨hfirst, hrest⟩, -⟩ := h
  refine ⟨?_, fun t ht => ?_⟩
  · refine List.pairwise_filterMap.mpr ((List.pairwise_map.mp hrest).imp ?_)
    intro b c hbc t ht t' ht'
    rw [eq_fst_of_matches ht, eq_fst_of_matches ht']
    exact hbc
  · obtain ⟨b, hb, ht⟩ := List.mem_filterMap.mp ht
    rw [eq_fst_of_matches ht]
    exact hfirst _ (List.mem_map_of_mem hb)

/-- **Which calls of a client are allowed** is what the client's own cell says to the times of
these calls. -/
theorem allowed_eq_answers (K : G.PerKey) {params : RrlParams} (henabled : params.enabled = true)
    (kind : Kind) (client : IpAddr) {run : List (ℕ × Action)} (horder : InOrder run) :
    allowed G params kind client run =
      Mealy.answers K.check (view K params kind client (new params))
        (matched params kind client run) := by
  have hfollows : ∀ older a newer, run = older ++ a :: newer →
      matches? params kind client a = none →
      (newer.filterMap (matches? params kind client)).Pairwise (· ≤ ·) ∧
        ∀ t ∈ newer.filterMap (matches? params kind client), a.1 ≤ t := by
    rintro older a newer rfl -
    exact matched_follows params kind client horder
  exact Mealy.answers_seen (· == some .allow) K.check (view K params kind client)
    (fun a times => times.Pairwise (· ≤ ·) ∧ ∀ t ∈ times, a.1 ≤ t)
    (fun _ a h => kept_perform K a henabled h)
    (fun _ _ _ h hmatch => perform_matched K kind client henabled h hmatch)
    (fun _ _ _ h hmatch hf => perform_unmatched K kind client henabled h hmatch hf.1 hf.2)
    hfollows (kept_new K)

/-- A limiter that is not enabled allows everything. -/
lemma allowed_of_disabled {params : RrlParams} (hdisabled : params.enabled = false) (kind : Kind)
    (client : IpAddr) (run : List (ℕ × Action)) :
    allowed G params kind client run =
      Mealy.answers (fun (c : Unit) (_ : ℕ) => (true, c)) ()
        (matched params kind client run) := by
  have hparams : ∀ (rrl : Rrl G) (a : ℕ × Action), rrl.params = params →
      (perform rrl a).2.params = params ∧ ∀ t, matches? params kind client a = some t →
        (perform rrl a).1 = some .allow := by
    rintro rrl ⟨now, a⟩ rfl
    cases a with
    | sweep => exact ⟨rfl, fun _ h => by cases h⟩
    | decide addr kind' isTcp =>
      rw [perform, decide_of_unlimited rrl now addr kind' (.inl hdisabled)]
      exact ⟨rfl, fun _ _ => rfl⟩
  have hnew : (new params : Rrl G).params = params := rfl
  refine Mealy.answers_seen (· == some .allow) _ (fun _ => ()) (fun _ _ => True)
    (fun rrl a h => (hparams rrl a h).1) (fun rrl a t h hmatch => ⟨?_, rfl⟩)
    (fun _ _ _ _ _ _ => rfl) (fun _ _ _ _ _ => trivial) hnew
  rw [(hparams rrl a h).2 t hmatch]
  rfl

/-- **Rate-limit budgets do not interfere.** In two runs with the same UDP calls of one kind from
one client prefix at the same times, the same of these calls are allowed, whatever else happens:
calls of the other kind, of other prefixes or over TCP, and sweeps. -/
theorem budgets_independent (K : G.PerKey) (params : RrlParams) (kind : Kind) (client : IpAddr)
    {run₁ run₂ : List (ℕ × Action)} (horder₁ : InOrder run₁) (horder₂ : InOrder run₂)
    (hsame : matched params kind client run₁ = matched params kind client run₂) :
    allowed G params kind client run₁ = allowed G params kind client run₂ := by
  cases henabled : params.enabled with
  | true =>
    rw [allowed_eq_answers K henabled kind client horder₁,
      allowed_eq_answers K henabled kind client horder₂, hsame]
  | false =>
    rw [allowed_of_disabled henabled kind client run₁,
      allowed_of_disabled henabled kind client run₂, hsame]

/-! ### A keyed limiter that meets the assumptions -/

/-- A token bucket: the time at which it will be full again, if it is not. -/
def checkBucket (quota : ℕ × ℕ) (full : Option ℕ) (now : ℕ) : Bool × Option ℕ :=
  if now + quota.1 * (quota.2 - 1) < full.getD now then (false, full)
  else (true, some (max (full.getD now) now + quota.1))

/-- A token bucket for each key, with times in nanoseconds. -/
def tokenBuckets : Governor where
  State := (ℕ × ℕ) × (ClientKey → Option ℕ)
  keyed rate burst := ((10 ^ 9 / rate, burst), fun _ => none)
  checkKey s now key :=
    let (ok, full) := checkBucket s.1 (s.2 key) now
    (ok, (s.1, Function.update s.2 key full))
  retainRecent s now := (s.1, fun key => (s.2 key).filter (now < ·))

/-- A bucket that is full again is as good as a fresh one. -/
lemma answers_of_full (quota : ℕ × ℕ) {full : Option ℕ} {now : ℕ}
    (hfull : ∀ t ∈ full, t ≤ now) (times : List ℕ) (hlater : ∀ t ∈ times, now ≤ t) :
    Mealy.answers (fun (c : (ℕ × ℕ) × Option ℕ) t =>
        ((checkBucket c.1 c.2 t).1, c.1, (checkBucket c.1 c.2 t).2)) (quota, none) times =
      Mealy.answers (fun (c : (ℕ × ℕ) × Option ℕ) t =>
        ((checkBucket c.1 c.2 t).1, c.1, (checkBucket c.1 c.2 t).2)) (quota, full) times := by
  cases times with
  | nil => rfl
  | cons t times =>
    have hsame : checkBucket quota none t = checkBucket quota full t := by
      cases full with
      | none => rfl
      | some tat =>
        have htat : tat ≤ t := (hfull tat rfl).trans (hlater t (by simp))
        simp only [checkBucket, Option.getD_none, Option.getD_some]
        rw [if_neg (by omega), if_neg (by omega), max_self, max_eq_right htat]
    rw [Mealy.answers_cons, Mealy.answers_cons]
    simp only [hsame]

/-- Token buckets meet what is assumed of the keyed limiter. -/
def tokenBuckets_perKey : tokenBuckets.PerKey where
  Cell := (ℕ × ℕ) × Option ℕ
  check c t := ((checkBucket c.1 c.2 t).1, c.1, (checkBucket c.1 c.2 t).2)
  fresh c := (c.1, none)
  cell s key := (s.1, s.2 key)
  Valid _ := True
  valid_keyed _ _ := trivial
  valid_checkKey _ _ _ _ := trivial
  valid_retainRecent _ _ _ := trivial
  checkKey_self s now key _ := ⟨rfl, Prod.ext rfl (Function.update_self ..)⟩
  checkKey_other s now key key' _ hkey := Prod.ext rfl (Function.update_of_ne hkey ..)
  retainRecent_cell s now key _ := by
    obtain ⟨quota, full⟩ := s
    show (quota, (full key).filter (now < ·)) = (quota, full key) ∨
      (quota, (full key).filter (now < ·)) = (quota, none) ∧ _
    cases hfull : full key with
    | none => exact .inl rfl
    | some tat =>
      by_cases hnow : now < tat
      · exact .inl (by simp [hnow])
      · have hold : ∀ t ∈ full key, t ≤ now := by
          intro t ht
          obtain rfl : tat = t := Option.some.inj (hfull.symm.trans ht)
          exact Nat.le_of_not_lt hnow
        rw [← hfull]
        exact .inr ⟨by simpa [hfull] using hnow,
          fun times _ hlater => answers_of_full quota hold times hlater⟩

/-- One response a second. -/
def tightParams : RrlParams := { responsesPerSecond := 1, burst := 1 }

/-- A client asks, asks again too soon, and again later. -/
def quietRun : List (ℕ × Action) :=
  [(0, .decide (.v4 0xC0000207) .answer false), (10 ^ 8, .decide (.v4 0xC00002C8) .answer false),
    (5 * 10 ^ 9, .decide (.v4 0xC0000207) .answer false)]

/-- The same calls among others. -/
def busyRun : List (ℕ × Action) :=
  [(0, .decide (.v4 0xC6336401) .answer false), (0, .decide (.v4 0xC0000207) .answer false),
    (1, .decide (.v4 0xC0000207) .negative false), (2, .decide (.v4 0xC0000207) .answer true),
    (10 ^ 8, .decide (.v4 0xC00002C8) .answer false),
    (10 ^ 8, .decide (.v4 0xC6336401) .answer false), (4 * 10 ^ 9, .sweep),
    (5 * 10 ^ 9, .decide (.v4 0xC0000207) .answer false)]

/-- What one client is allowed, alone and among others. -/
theorem budgets_independent_busyRun :
    allowed tokenBuckets tightParams .answer (.v4 0xC0000207) quietRun = [true, false, true] ∧
      allowed tokenBuckets tightParams .answer (.v4 0xC0000207) quietRun =
        allowed tokenBuckets tightParams .answer (.v4 0xC0000207) busyRun :=
  ⟨by decide +kernel, budgets_independent tokenBuckets_perKey _ .answer _
    (by unfold InOrder; decide +kernel) (by unfold InOrder; decide +kernel) (by decide +kernel)⟩

end Rrl

end PanoptiDns
