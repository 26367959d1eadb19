import PanoptiDns.Rrl.Budgets

set_option relaxedAutoImplicit false
set_option autoImplicit false

/-!
# Slip

A response over budget is dropped or, every so often, truncated, so that a resolver can retry over
TCP. Which of the two is decided by one counter for all the clients and both budgets: every
`slip`th suppressed response is truncated, whoever it is for. What a single client is told then
depends on how many responses are suppressed for the others between its own.

## Main definitions

* `Rrl.denials` — the responses suppressed in a run, with the counter each of them found.
* `Rrl.TruncatesEvery` — among so many consecutive decisions there is a truncation.
* `Rrl.othersBetween` — how many responses are suppressed for the others between a client's own.
* `Rrl.Harmless` — a number of others that leaves a client its next truncation.

## Main results

* `Rrl.server_slip` — for all clients together every window of `slip` has a truncation.
* `Rrl.denials_eq` — what a client finds, from the numbers of the others between.
* `Rrl.client_slip` — one client has a truncation in every window of `slip` if the others between
  are always harmless; and it has, iff in each window the count reaches a multiple at its own.
* `Rrl.client_slip_alternating` — two clients in turn, one of which is never truncated.
-/

namespace PanoptiDns.Rrl

variable {G : Governor}

/-- A response suppressed for one of some clients, with the counter it found. -/
def denied? (who : IpAddr → Prop) [DecidablePred who] (v : Rrl G × (ℕ × Action)) :
    Option (ℕ × Decision) :=
  match v.2 with
  | (now, .decide addr kind isTcp) =>
    if who addr ∧ (v.1.decide now addr kind isTcp).1 ≠ .allow then
      some (v.1.suppressed, (v.1.decide now addr kind isTcp).1)
    else none
  | (_, .sweep) => none

/-- The responses suppressed for some clients in a run, in order, with the counters they found. -/
def denials (rrl : Rrl G) (who : IpAddr → Prop) [DecidablePred who] (run : List (ℕ × Action)) :
    List (ℕ × Decision) :=
  (Mealy.visited perform rrl run).filterMap (denied? who)

/-- Among any `slip` consecutive decisions there is a truncation. -/
def TruncatesEvery (slip : ℕ) (decisions : List Decision) : Prop :=
  ∀ older window newer, decisions = older ++ window ++ newer → window.length = slip →
    .truncate ∈ window

/-- **Approaching the next multiple** of `slip`: one is reached or was just left, or the remainder
has grown. -/
def Approaches (slip m n : ℕ) : Prop := m % slip = 0 ∨ n % slip = 0 ∨ m % slip < n % slip

instance (slip m n : ℕ) : Decidable (Approaches slip m n) :=
  inferInstanceAs (Decidable (_ ∨ _ ∨ _))

/-- Whether a response that is suppressed is for one of some clients. -/
def mine? (who : IpAddr → Prop) [DecidablePred who] (v : Rrl G × (ℕ × Action)) : Option Bool :=
  match v.2 with
  | (now, .decide addr kind isTcp) =>
    if (v.1.decide now addr kind isTcp).1 ≠ .allow then some (Decidable.decide (who addr)) else none
  | (_, .sweep) => none

/-- The lengths of the stretches of `false` before each `true`, with `d` more in the first. -/
def gaps : ℕ → List Bool → List ℕ
  | _, [] => []
  | d, true :: l => d :: gaps 0 l
  | d, false :: l => gaps (d + 1) l

/-- **The others between**: for each response suppressed for some clients, how many are suppressed
for the others since the previous one. -/
def othersBetween (rrl : Rrl G) (who : IpAddr → Prop) [DecidablePred who]
    (run : List (ℕ × Action)) : List ℕ :=
  gaps 0 ((Mealy.visited perform rrl run).filterMap (mine? who))

/-- The counters that responses find, with these numbers of others before each of them, and with
`n` responses before all that. -/
def found : ℕ → List ℕ → List ℕ
  | _, [] => []
  | n, d :: ds => (n + d) % 2 ^ 64 :: found (n + d + 1) ds

/-- **Harmless others**: after a response that found the counter at `n`, the `d` responses to the
others, but for full rounds of `slip`, do not carry it past a multiple. Should the counter wrap in
between, what it comes to must approach a multiple. -/
def Harmless (slip n d : ℕ) : Prop :=
  if n + 1 + d < 2 ^ 64 then n % slip + d % slip < slip
  else Approaches slip n ((n + 1 + d) % 2 ^ 64)

/-- The others are harmless after every response but the last. The counter a response found is the
number of responses before it. -/
def HarmlessBetween (slip : ℕ) (others : List ℕ) : Prop :=
  ∀ older d newer, others = older ++ d :: newer → older ≠ [] →
    Harmless slip ((older.sum + older.length - 1) % 2 ^ 64) d

/-- In every window of `slip` responses one comes when the number of responses before it, modulo
the width of the counter, is a multiple of `slip`. -/
def ReachesMultiple (slip : ℕ) (others : List ℕ) : Prop :=
  ∀ older window newer, others = older ++ window ++ newer → window.length = slip →
    ∃ n ∈ found (older.sum + older.length) window, n % slip = 0

/-! ### Counters -/

/-- Counters that approach a multiple and do not reach one are fewer than `slip`. -/
lemma length_add_mod_le {slip : ℕ} (hslip : 0 < slip) {x : ℕ} {l : List ℕ}
    (hchain : (x :: l).IsChain (Approaches slip)) (hnone : ∀ n ∈ x :: l, n % slip ≠ 0) :
    l.length + x % slip < slip := by
  induction l generalizing x with
  | nil => simpa using Nat.mod_lt x hslip
  | cons y l ih =>
    rw [List.isChain_cons_cons] at hchain
    have hx : x % slip ≠ 0 := hnone x (by simp)
    have hy : y % slip ≠ 0 := hnone y (by simp)
    have hgrown : x % slip < y % slip := by
      rcases hchain.1 with h | h | h
      · exact absurd h hx
      · exact absurd h hy
      · exact h
    have hrest := ih hchain.2 fun n hn => hnone n (List.mem_cons_of_mem x hn)
    rw [List.length_cons]
    omega

/-- **Among `slip` counters that approach a multiple, one is a multiple.** -/
theorem exists_multiple {slip : ℕ} (hslip : 0 < slip) {l : List ℕ} (hlen : l.length = slip)
    (hchain : l.IsChain (Approaches slip)) : ∃ n ∈ l, n % slip = 0 := by
  by_contra! hnone
  cases l with
  | nil =>
    rw [List.length_nil] at hlen
    omega
  | cons x l =>
    have hlt := length_add_mod_le hslip hchain hnone
    have hx : x % slip ≠ 0 := hnone x (by simp)
    rw [List.length_cons] at hlen
    omega

/-- The remainders of a stretch of numbers that ends before a multiple. -/
lemma add_mod_of_lt {slip n i : ℕ} (hi : n % slip + i < slip) : (n + i) % slip = n % slip + i := by
  rw [Nat.add_mod, Nat.mod_eq_of_lt (show i < slip by omega), Nat.mod_eq_of_lt hi]

/-- **A count goes on towards the next multiple** iff what is added, but for full rounds, does not
carry it past one. -/
lemma approaches_add_iff {slip : ℕ} (hslip : 1 ≤ slip) (n d : ℕ) :
    Approaches slip n (n + 1 + d) ↔ n % slip + d % slip < slip := by
  have hn := Nat.mod_lt n hslip
  have hd := Nat.mod_lt d hslip
  have hmod : (n + 1 + d) % slip = (n % slip + d % slip + 1) % slip := by
    rw [Nat.add_right_comm, Nat.add_mod (n + d), Nat.add_mod n, Nat.add_mod_mod,
      Nat.mod_add_mod]
  unfold Approaches
  rw [hmod]
  rcases Nat.lt_trichotomy (n % slip + d % slip + 1) slip with hlt | heq | hgt
  · rw [Nat.mod_eq_of_lt hlt]
    omega
  · rw [heq, Nat.mod_self]
    omega
  · have hpast : (n % slip + d % slip + 1) % slip = n % slip + d % slip + 1 - slip := by
      rw [Nat.mod_eq_sub_mod (show slip ≤ n % slip + d % slip + 1 by omega),
        Nat.mod_eq_of_lt (show n % slip + d % slip + 1 - slip < slip by omega)]
    rw [hpast]
    omega

/-- **Others are harmless** iff the counter approaches the next multiple. -/
lemma harmless_iff {slip : ℕ} (hslip : 1 ≤ slip) (n d : ℕ) :
    Harmless slip n d ↔ Approaches slip n ((n + 1 + d) % 2 ^ 64) := by
  unfold Harmless
  split
  · rename_i hlt
    rw [Nat.mod_eq_of_lt hlt, approaches_add_iff hslip]
  · exact Iff.rfl

/-- Full rounds are harmless. -/
lemma harmless_of_dvd {slip n d : ℕ} (hslip : 1 ≤ slip) (hwrap : n + 1 + d < 2 ^ 64)
    (hd : slip ∣ d) : Harmless slip n d := by
  rw [Harmless, if_pos hwrap, Nat.mod_eq_zero_of_dvd hd]
  exact Nat.mod_lt n hslip

/-- So are others that do not carry the counter past a multiple. -/
lemma harmless_of_lt {slip n d : ℕ} (hwrap : n + 1 + d < 2 ^ 64) (hd : n % slip + d < slip) :
    Harmless slip n d := by
  rw [Harmless, if_pos hwrap, Nat.mod_eq_of_lt (by omega : d < slip)]
  exact hd

/-- A counter that steps by one, and wraps, approaches a multiple. -/
lemma approaches_succ (slip : ℕ) {n : ℕ} (hn : n < 2 ^ 64) :
    Approaches slip n ((n + 1) % 2 ^ 64) := by
  rcases Nat.lt_or_ge (n + 1) (2 ^ 64) with hlt | hge
  · rw [Nat.mod_eq_of_lt hlt]
    rcases Nat.eq_zero_or_pos slip with rfl | hslip
    · exact .inr (.inr (by rw [Nat.mod_zero, Nat.mod_zero]; omega))
    · have hmod := Nat.mod_lt n hslip
      rcases Nat.lt_or_ge (n % slip + 1) slip with hnext | hnext
      · exact .inr (.inr (by rw [add_mod_of_lt hnext]; omega))
      · refine .inr (.inl ?_)
        rw [← Nat.div_add_mod n slip, show n % slip = slip - 1 by omega, Nat.add_assoc,
          Nat.sub_add_cancel hslip, Nat.mul_add_mod, Nat.mod_self]
  · exact .inr (.inl (by rw [show n + 1 = 2 ^ 64 by omega, Nat.mod_self, Nat.zero_mod]))

/-! ### What a run does to the counter -/

/-- No call changes the settings. -/
lemma params_perform (rrl : Rrl G) (a : ℕ × Action) : (perform rrl a).2.params = rrl.params := by
  obtain ⟨now, a⟩ := a
  cases a with
  | sweep => rfl
  | decide addr kind isTcp =>
    by_cases hlimited : rrl.params.enabled = false ∨ isTcp = true
    · rw [perform, decide_of_unlimited rrl now addr kind hlimited]
    · obtain ⟨henabled, rfl⟩ : rrl.params.enabled = true ∧ isTcp = false := by
        simpa [not_or] using hlimited
      exact (decide_spec rrl now addr kind henabled).2.1

/-- **The counter**: a decision that suppresses is made from the value it finds, and steps it; any
other action leaves it. -/
lemma denied_cases (rrl : Rrl G) (a : ℕ × Action) :
    (denied? (fun _ => True) (rrl, a) = none ∧ (perform rrl a).2.suppressed = rrl.suppressed) ∨
      (denied? (fun _ => True) (rrl, a) =
          some (rrl.suppressed, slipped rrl.params.slip rrl.suppressed) ∧
        (perform rrl a).2.suppressed = (rrl.suppressed + 1) % 2 ^ 64) := by
  obtain ⟨now, a⟩ := a
  cases a with
  | sweep => exact .inl ⟨rfl, rfl⟩
  | decide addr kind isTcp =>
    by_cases hlimited : rrl.params.enabled = false ∨ isTcp = true
    · have hdecide := decide_of_unlimited rrl now addr kind hlimited
      exact .inl ⟨by simp [denied?, hdecide], by rw [perform, hdecide]⟩
    · obtain ⟨henabled, rfl⟩ : rrl.params.enabled = true ∧ isTcp = false := by
        simpa [not_or] using hlimited
      have hdecide := decide_of_limited rrl now addr kind henabled
      by_cases hok : (rrl.check now (key rrl.params addr) kind).1 = true
      · rw [if_pos hok] at hdecide
        refine .inl ⟨by simp [denied?, hdecide], ?_⟩
        rw [perform, hdecide]
        cases kind <;> rfl
      · rw [if_neg hok] at hdecide
        exact .inr ⟨by simp [denied?, hdecide], by rw [perform, hdecide]⟩

/-- What is suppressed for some clients is suppressed. -/
lemma denied_of_denied {who : IpAddr → Prop} [DecidablePred who] {v : Rrl G × (ℕ × Action)}
    {x : ℕ × Decision} (h : denied? who v = some x) : denied? (fun _ => True) v = some x := by
  obtain ⟨rrl, now, a⟩ := v
  cases a with
  | sweep => cases h
  | decide addr kind isTcp =>
    simp only [denied?] at h ⊢
    split_ifs at h with hwho
    rw [if_pos ⟨trivial, hwho.2⟩, h]

section Run

variable (rrl : Rrl G) (run : List (ℕ × Action))

/-- Every suppressed response is dropped or truncated by the counter it found. -/
lemma slipped_of_mem_denials (who : IpAddr → Prop) [DecidablePred who] :
    ∀ x ∈ denials rrl who run, x.2 = slipped rrl.params.slip x.1 := by
  induction run generalizing rrl with
  | nil => intro x hx; cases hx
  | cons a run ih =>
    intro x hx
    obtain ⟨v, hv, hdenied⟩ := List.mem_filterMap.mp hx
    rcases List.mem_cons.mp hv with rfl | hv
    · rcases denied_cases rrl a with ⟨hnone, -⟩ | ⟨hsome, -⟩
      · exact absurd ((denied_of_denied hdenied).symm.trans hnone) (by simp)
      · obtain rfl := Option.some.inj ((denied_of_denied hdenied).symm.trans hsome)
        rfl
    · rw [← params_perform rrl a]
      exact ih _ x (List.mem_filterMap.mpr ⟨v, hv, hdenied⟩)

/-- For all clients together the counters step by one, from the one the run starts with. -/
lemma isChain_denials (hcounter : rrl.suppressed < 2 ^ 64) (slip : ℕ) :
    ((denials rrl (fun _ => True) run).map Prod.fst).IsChain (Approaches slip) ∧
      ∀ n ∈ ((denials rrl (fun _ => True) run).map Prod.fst).head?, n = rrl.suppressed := by
  induction run generalizing rrl with
  | nil => exact ⟨.nil, fun _ h => by cases h⟩
  | cons a run ih =>
    rw [denials, Mealy.visited_cons]
    rcases denied_cases rrl a with ⟨hnone, hkeep⟩ | ⟨hsome, hstep⟩
    · rw [List.filterMap_cons_none hnone, ← hkeep]
      exact ih _ (hkeep ▸ hcounter)
    · rw [List.filterMap_cons_some hsome, List.map_cons]
      obtain ⟨hchain, hhead⟩ := ih (perform rrl a).2 (hstep ▸ Nat.mod_lt _ (by decide))
      refine ⟨List.isChain_cons.mpr ⟨fun n hn => ?_, hchain⟩, fun n hn => ?_⟩
      · rw [hhead n hn, hstep]
        exact approaches_succ slip hcounter
      · exact (Option.some.inj hn).symm

end Run

/-! ### Slip -/

/-- Decisions made from counters that approach a multiple have a truncation in every window. -/
lemma truncatesEvery_of_isChain {slip : ℕ} (hslip : 1 ≤ slip) {l : List (ℕ × Decision)}
    (hslipped : ∀ x ∈ l, x.2 = slipped slip x.1)
    (hchain : (l.map Prod.fst).IsChain (Approaches slip)) :
    TruncatesEvery slip (l.map Prod.snd) := by
  intro older window newer hsplit hlen
  obtain ⟨l', newer', rfl, hl', -⟩ := List.map_eq_append_iff.mp hsplit
  obtain ⟨older', window', rfl, -, rfl⟩ := List.map_eq_append_iff.mp hl'
  rw [List.map_append, List.map_append, List.append_assoc] at hchain
  have hwindow := (hchain.right_of_append).left_of_append
  obtain ⟨n, hn, hzero⟩ := exists_multiple hslip (by simpa using hlen) hwindow
  obtain ⟨x, hx, rfl⟩ := List.mem_map.mp hn
  refine List.mem_map.mpr ⟨x, hx, ?_⟩
  rw [hslipped x (by simp [hx]), slipped, if_neg (by omega), if_pos hzero]

/-- **Slip of the server**: among any `slip` consecutive suppressed responses, whoever they are for
and from whichever budget, one is truncated. -/
theorem server_slip {params : RrlParams} (hslip : 1 ≤ params.slip) (run : List (ℕ × Action)) :
    TruncatesEvery params.slip
      ((denials (new params : Rrl G) (fun _ => True) run).map Prod.snd) :=
  truncatesEvery_of_isChain hslip (slipped_of_mem_denials (new params) run _)
    (isChain_denials (new params) run (Nat.two_pow_pos 64) params.slip).1

/-! ### One client -/

/-- **What a step means for some clients**: nothing is suppressed, or something for them, or for
the others. -/
lemma mine_cases (rrl : Rrl G) (who : IpAddr → Prop) [DecidablePred who] (a : ℕ × Action) :
    (mine? who (rrl, a) = none ∧ denied? who (rrl, a) = none ∧
      (perform rrl a).2.suppressed = rrl.suppressed) ∨
    (mine? who (rrl, a) = some true ∧ denied? who (rrl, a) =
        some (rrl.suppressed, slipped rrl.params.slip rrl.suppressed) ∧
      (perform rrl a).2.suppressed = (rrl.suppressed + 1) % 2 ^ 64) ∨
    (mine? who (rrl, a) = some false ∧ denied? who (rrl, a) = none ∧
      (perform rrl a).2.suppressed = (rrl.suppressed + 1) % 2 ^ 64) := by
  have hcases := denied_cases rrl a
  obtain ⟨now, a⟩ := a
  cases a with
  | sweep => exact .inl ⟨rfl, rfl, rfl⟩
  | decide addr kind isTcp =>
    simp only [denied?, mine?, true_and] at hcases ⊢
    rcases hcases with ⟨hnone, hkeep⟩ | ⟨hsome, hstep⟩
    · have hallow : (rrl.decide now addr kind isTcp).1 = .allow := by
        by_contra hdenied
        rw [if_pos hdenied] at hnone
        cases hnone
      exact .inl ⟨by simp [hallow], by simp [hallow], hkeep⟩
    · have hdenied : (rrl.decide now addr kind isTcp).1 ≠ .allow := by
        intro hallow
        rw [if_neg (by simp [hallow])] at hsome
        cases hsome
      rw [if_pos hdenied] at hsome
      by_cases hwho : who addr
      · exact .inr (.inl ⟨by simp [hdenied, hwho], by rw [if_pos ⟨hwho, hdenied⟩, hsome], hstep⟩)
      · exact .inr (.inr ⟨by simp [hdenied, hwho], if_neg fun h => hwho h.1, hstep⟩)

/-- **What some clients find**: the counter is the number of responses suppressed before, theirs
and the others'.

**Proof sketch.** Induction on the run. A response for the others lengthens the stretch before the
next one of theirs; both kinds step the counter. -/
lemma denials_eq (rrl : Rrl G) (who : IpAddr → Prop) [DecidablePred who] (run : List (ℕ × Action))
    (hcounter : rrl.suppressed < 2 ^ 64) :
    denials rrl who run = (found rrl.suppressed (othersBetween rrl who run)).map fun n =>
      (n, slipped rrl.params.slip n) := by
  have hrun : ∀ (run : List (ℕ × Action)) (rrl : Rrl G) (n d : ℕ),
      rrl.suppressed = (n + d) % 2 ^ 64 →
        denials rrl who run =
          (found n (gaps d ((Mealy.visited perform rrl run).filterMap (mine? who)))).map fun n =>
            (n, slipped rrl.params.slip n) := by
    intro run
    induction run with
    | nil => intro rrl n d _; rfl
    | cons a run ih =>
      intro rrl n d hfound
      have hnext := ih (perform rrl a).2
      rw [params_perform rrl a] at hnext
      rw [denials, Mealy.visited_cons]
      rcases mine_cases rrl who a with ⟨hmine, hnone, hkeep⟩ | ⟨hmine, hsome, hstep⟩ |
        ⟨hmine, hnone, hstep⟩
      · rw [List.filterMap_cons_none hnone, List.filterMap_cons_none hmine]
        exact hnext n d (hkeep.trans hfound)
      · rw [List.filterMap_cons_some hsome, List.filterMap_cons_some hmine, gaps, found,
          List.map_cons, ← hfound]
        refine congrArg _ (hnext (n + d + 1) 0 ?_)
        rw [hstep, hfound, Nat.mod_add_mod, Nat.add_zero]
      · rw [List.filterMap_cons_none hnone, List.filterMap_cons_some hmine, gaps]
        refine hnext n (d + 1) ?_
        rw [hstep, hfound, Nat.mod_add_mod, Nat.add_assoc]
  exact hrun run rrl rrl.suppressed 0 (by rw [Nat.add_zero, Nat.mod_eq_of_lt hcounter])

/-- The counter is found once for each denial. -/
lemma length_found (n : ℕ) (ds : List ℕ) : (found n ds).length = ds.length := by
  induction ds generalizing n with
  | nil => rfl
  | cons d ds ih => rw [found, List.length_cons, List.length_cons, ih]

/-- What is found in a run in two parts. -/
lemma found_append (n : ℕ) (ds es : List ℕ) :
    found n (ds ++ es) = found n ds ++ found (n + ds.sum + ds.length) es := by
  induction ds generalizing n with
  | nil => simp [found]
  | cons d ds ih =>
    rw [List.cons_append, found, found, ih, List.cons_append, List.sum_cons, List.length_cons]
    congr 3
    omega

/-- **Harmless others leave the counter approaching**, from each response to the next. -/
lemma isChain_found {slip : ℕ} (hslip : 1 ≤ slip) {n : ℕ} {others : List ℕ}
    (h : ∀ older d newer, others = older ++ d :: newer → older ≠ [] →
      Harmless slip ((n + older.sum + older.length - 1) % 2 ^ 64) d) :
    (found n others).IsChain (Approaches slip) := by
  induction others generalizing n with
  | nil => exact .nil
  | cons d ds ih =>
    cases ds with
    | nil => exact .singleton _
    | cons e ds =>
      have hfirst := (harmless_iff hslip _ _).mp (h [d] e ds rfl (by simp))
      have hnext : ((n + d) % 2 ^ 64 + 1 + e) % 2 ^ 64 = (n + d + 1 + e) % 2 ^ 64 := by
        rw [Nat.add_assoc, Nat.mod_add_mod, ← Nat.add_assoc]
      rw [List.sum_singleton, List.length_singleton, Nat.add_sub_cancel, hnext] at hfirst
      rw [found, found, List.isChain_cons_cons]
      refine ⟨hfirst, ih fun older e' newer hsplit hne => ?_⟩
      have hlater := h (d :: older) e' newer (by rw [hsplit]; rfl) (by simp)
      rwa [List.sum_cons, List.length_cons, show n + (d + older.sum) + (older.length + 1) =
        n + d + 1 + older.sum + older.length by omega] at hlater

/-- A window of decisions has a truncation iff the window of counters has a multiple. -/
lemma truncatesEvery_iff {slip : ℕ} (hslip : 1 ≤ slip) (others : List ℕ) :
    TruncatesEvery slip ((found 0 others).map (slipped slip)) ↔ ReachesMultiple slip others := by
  have hmem : ∀ ns : List ℕ, .truncate ∈ ns.map (slipped slip) ↔ ∃ n ∈ ns, n % slip = 0 := by
    intro ns
    rw [List.mem_map]
    refine exists_congr fun n => and_congr_right fun _ => ?_
    unfold slipped
    rw [if_neg (by omega)]
    split_ifs with h <;> simp [h]
  constructor
  · intro h older window newer hsplit hlen
    rw [← hmem]
    refine h ((found 0 older).map (slipped slip)) _
      ((found (0 + (older ++ window).sum + (older ++ window).length) newer).map (slipped slip)) ?_
      (by rw [List.length_map, length_found, hlen])
    rw [hsplit, found_append, found_append, List.map_append, List.map_append, Nat.zero_add]
  · intro h older window newer hsplit hlen
    have hothers : others = others.take older.length ++
        (others.drop older.length).take window.length ++
          (others.drop older.length).drop window.length := by
      rw [List.append_assoc, List.take_append_drop, List.take_append_drop]
    have hlengths := congrArg List.length hsplit
    simp only [List.length_map, length_found, List.length_append] at hlengths
    have htake : (others.take older.length).length = older.length := by
      rw [List.length_take]
      omega
    have hwindow : ((others.drop older.length).take window.length).length = window.length := by
      rw [List.length_take, List.length_drop]
      omega
    -- the window of decisions is that of the counters
    rw [hothers, found_append, found_append, List.map_append, List.map_append, Nat.zero_add]
      at hsplit
    obtain ⟨hfront, -⟩ := List.append_inj hsplit (by
      simp only [List.length_append, List.length_map, length_found, htake, hwindow])
    obtain ⟨-, hmiddle⟩ := List.append_inj hfront (by rw [List.length_map, length_found, htake])
    rw [← hmiddle, hmem]
    exact h _ _ _ hothers (hwindow.trans hlen)

/-- **Slip of a client**: among any `slip` consecutive responses suppressed for one prefix one is
truncated, in every run in which the responses suppressed for the others between two of them are
harmless. And exactly, it is in the runs in which every such window has a response of the prefix at
which the number of all the responses suppressed before is a multiple of `slip`.

**Proof sketch.** What the prefix finds is counted from the numbers of the others between. Harmless
others leave the counter approaching a multiple, and of `slip` such counters one is a multiple. -/
theorem client_slip {params : RrlParams} (hslip : 1 ≤ params.slip) (client : IpAddr)
    (run : List (ℕ × Action)) :
    (HarmlessBetween params.slip (othersBetween (new params : Rrl G)
        (SamePrefix params.ipv4Prefix params.ipv6Prefix · client) run) →
      TruncatesEvery params.slip ((denials (new params : Rrl G)
        (SamePrefix params.ipv4Prefix params.ipv6Prefix · client) run).map Prod.snd)) ∧
    (TruncatesEvery params.slip ((denials (new params : Rrl G)
        (SamePrefix params.ipv4Prefix params.ipv6Prefix · client) run).map Prod.snd) ↔
      ReachesMultiple params.slip (othersBetween (new params : Rrl G)
        (SamePrefix params.ipv4Prefix params.ipv6Prefix · client) run)) := by
  have hdenials := denials_eq (new params : Rrl G)
    (SamePrefix params.ipv4Prefix params.ipv6Prefix · client) run (Nat.two_pow_pos 64)
  refine ⟨fun hharmless => ?_, ?_⟩
  · refine truncatesEvery_of_isChain hslip (slipped_of_mem_denials (new params) run _) ?_
    rw [hdenials, List.map_map]
    have hchain := isChain_found hslip (n := 0) fun older d newer hsplit hne => by
      rw [Nat.zero_add]
      exact hharmless older d newer hsplit hne
    -- the counters themselves
    change (List.map id _).IsChain _
    rw [List.map_id]
    exact hchain
  · rw [hdenials, List.map_map]
    exact truncatesEvery_iff hslip _

/-- One client over its budget, with two responses suppressed for another one between its own. -/
def politeRun : List (ℕ × Action) :=
  [(0, .decide (.v4 0xC0000201) .answer false), (0, .decide (.v4 0xC6336401) .answer false),
    (1, .decide (.v4 0xC6336401) .answer false), (2, .decide (.v4 0xC0000201) .answer false),
    (3, .decide (.v4 0xC6336401) .answer false), (4, .decide (.v4 0xC6336401) .answer false),
    (5, .decide (.v4 0xC0000201) .answer false)]

/-- Between the denials of one client the others have one and then two, and still every second of
its own is truncated. -/
theorem client_slip_politeRun :
    othersBetween (new tightParams : Rrl tokenBuckets) (SamePrefix 24 64 · (.v4 0xC0000201))
        politeRun = [1, 2] ∧
      TruncatesEvery 2 ((denials (new tightParams : Rrl tokenBuckets)
        (SamePrefix 24 64 · (.v4 0xC0000201)) politeRun).map Prod.snd) := by
  have hothers : othersBetween (new tightParams : Rrl tokenBuckets)
      (SamePrefix 24 64 · (.v4 0xC0000201)) politeRun = [1, 2] := by decide +kernel
  have hslip : 1 ≤ tightParams.slip := by decide +kernel
  refine ⟨hothers, (client_slip hslip (.v4 0xC0000201) politeRun).1 ?_⟩
  show HarmlessBetween 2 (othersBetween (new tightParams : Rrl tokenBuckets)
    (SamePrefix 24 64 · (.v4 0xC0000201)) politeRun)
  rw [hothers]
  intro older d newer hsplit hne
  obtain ⟨x, older, rfl⟩ := List.exists_cons_of_ne_nil hne
  obtain ⟨rfl, hrest⟩ := List.cons.inj hsplit
  obtain ⟨rfl, hd⟩ := List.append_eq_singleton_iff.mp hrest.symm |>.resolve_right (by simp)
  obtain ⟨rfl, -⟩ := List.cons.inj hd
  exact harmless_of_dvd (by decide) (by decide) (by decide)

/-- Two clients over their budgets, in turn. -/
def alternatingRun : List (ℕ × Action) :=
  [(0, .decide (.v4 0xC0000201) .answer false), (0, .decide (.v4 0xC6336401) .answer false),
    (1, .decide (.v4 0xC6336401) .answer false), (2, .decide (.v4 0xC0000201) .answer false),
    (3, .decide (.v4 0xC6336401) .answer false), (4, .decide (.v4 0xC0000201) .answer false)]

/-- Every response suppressed for the one is dropped, and every one for the other truncated. -/
theorem client_slip_alternating :
    (denials (new tightParams : Rrl tokenBuckets)
      (SamePrefix 24 64 · (.v4 0xC6336401)) alternatingRun).map Prod.snd = [.truncate, .truncate] ∧
      ¬ TruncatesEvery 2 ((denials (new tightParams : Rrl tokenBuckets)
        (SamePrefix 24 64 · (.v4 0xC0000201)) alternatingRun).map Prod.snd) := by
  have hdropped : (denials (new tightParams : Rrl tokenBuckets)
      (SamePrefix 24 64 · (.v4 0xC0000201)) alternatingRun).map Prod.snd = [.drop, .drop] := by
    decide +kernel
  refine ⟨by decide +kernel, fun h => ?_⟩
  rw [hdropped] at h
  exact absurd (h [] [.drop, .drop] [] rfl rfl) (by simp)

end PanoptiDns.Rrl
