import PanoptiDns.Nibble
import Mathlib.Tactic.Ring

set_option relaxedAutoImplicit false
set_option autoImplicit false

/-!
# The nibble codec is exact

Every function of `PanoptiDns.Nibble` against the fixed-width base-16 digits of the address:
which names denote an address, which digit strings denote a host part, and how both split at a
prefix length.

## Main definitions

* `hexDigit`, `reverseLabels` — the labels of the top `k` nibbles of an address under `ip6.arpa`.
* `hexDigits` — the low `n` nibbles, most significant first.
* `dashJoin` — digits in groups of four with a dash between groups.

## Main results

* `ptrNameToAddr_eq_some_iff` — a name parses as an address iff it is that address's full reverse
  name up to case.
* `netmaskToPtrName_eq` — the reverse zone of a network, as a label list.
* `hostDigits_eq`, `digitsToHost_eq_some_iff` — host digits and their decoding.
* `dashGroup_eq`, `undashGroup_eq_some_iff` — the dashed form and its decoding.
* `and_maskBits_eq_iff` — lying in a network is agreeing on the network's nibbles.
* `ptrNameToAddr_exact` — the codec of full reverse names is exact.
* `reverseLabels_suffix_iff` — reverse zones lie under one another as the prefixes do.
-/

namespace PanoptiDns

open Bytes PrefixMask Digits

/-! ## Single digits -/

/-- The lowercase hex digit of a value below 16. -/
def hexDigit (d : ℕ) : UInt8 := hexLower.getD d 0

/-- A byte that decodes is, up to case, the digit of its value. -/
lemma hexVal_sound {b v : UInt8} (h : hexVal b = some v) :
    v.toNat < 16 ∧ lowerByte b = hexDigit v.toNat := by
  have key : ∀ b : UInt8, (hexVal b).all
      (fun v => decide (v.toNat < 16 ∧ lowerByte b = hexDigit v.toNat)) = true :=
    forall_byte (by decide +kernel)
  have := key b
  rw [h] at this
  simpa using this

/-- Digits are lowercase. -/
lemma lowerByte_hexDigit {d : ℕ} (hd : d < 16) : lowerByte (hexDigit d) = hexDigit d := by
  have key : ∀ d : Fin 16, lowerByte (hexDigit d) = hexDigit d := by decide
  exact key ⟨d, hd⟩

/-- Distinct values have distinct digits. -/
lemma hexDigit_inj {d e : ℕ} (hd : d < 16) (he : e < 16) : hexDigit d = hexDigit e ↔ d = e := by
  have hnodup : hexLower.Nodup := by decide
  have hlen : hexLower.length = 16 := by decide
  rw [← hlen] at hd he
  rw [hexDigit, hexDigit, List.getD_eq_getElem _ _ hd, List.getD_eq_getElem _ _ he,
    hnodup.getElem_inj_iff]

/-- A byte that is, up to case, the digit of a value decodes to it. -/
lemma hexVal_complete {b : UInt8} {d : ℕ} (hd : d < 16) (h : lowerByte b = hexDigit d) :
    hexVal b = some (UInt8.ofNat d) := by
  have key : ∀ b : UInt8, lowerByte b ∈ hexLower → (hexVal b).isSome = true :=
    forall_byte (by decide +kernel)
  have hmem : hexDigit d ∈ hexLower := by
    have hlen : d < hexLower.length := lt_of_lt_of_eq hd (by decide)
    rw [hexDigit, List.getD_eq_getElem _ _ hlen]
    exact List.getElem_mem hlen
  obtain ⟨v, hv⟩ := Option.isSome_iff_exists.mp (key b (h ▸ hmem))
  obtain ⟨hlt, hdigit⟩ := hexVal_sound hv
  have heq : v.toNat = d := (hexDigit_inj hlt hd).mp (hdigit.symm.trans h)
  rw [hv, ← heq, UInt8.ofNat_toNat]

/-- No digit is an asterisk, and every digit is ASCII. -/
lemma hexDigit_ascii {d : ℕ} (hd : d < 16) : hexDigit d ≠ 42 ∧ hexDigit d < 0x80 := by
  have key : ∀ d : Fin 16, hexDigit d ≠ 42 ∧ hexDigit d < 0x80 := by decide
  exact key ⟨d, hd⟩

/-- Equal digit strings come from equal value lists. -/
lemma map_hexDigit_inj {ds es : List ℕ} (hds : ∀ d ∈ ds, d < 16) (hes : ∀ e ∈ es, e < 16)
    (h : ds.map hexDigit = es.map hexDigit) : ds = es := by
  induction ds generalizing es with
  | nil => simpa using h.symm
  | cons d ds ih =>
    cases es with
    | nil => simp at h
    | cons e es =>
      simp only [List.map_cons, List.cons.injEq] at h
      have hde := (hexDigit_inj (hds d (by simp)) (hes e (by simp))).mp h.1
      rw [hde, ih (fun x hx => hds x (by simp [hx])) (fun x hx => hes x (by simp [hx])) h.2]

/-- A digit string is its own lowercase form. -/
lemma lower_map_hexDigit {ds : List ℕ} (h : ∀ d ∈ ds, d < 16) :
    lower (ds.map hexDigit) = ds.map hexDigit := by
  rw [lower, List.map_map]
  refine List.map_congr_left fun d hd => ?_
  exact lowerByte_hexDigit (h d hd)

/-! ## Masks -/

/-- `mask_bits` is the network mask, saturation included. -/
lemma maskBits_eq (m : ℕ) : maskBits m = networkMask 128 m := by
  unfold maskBits
  split_ifs with h0 h
  · subst h0
    decide
  · refine BitVec.eq_of_getLsbD_eq fun i hi => ?_
    rw [getLsbD_networkMask]
    rw [U128.max, BitVec.getLsbD_allOnes]
    simp [show 128 ≤ i + m by omega]
  · rfl

/-- A mask of `4 k` bits leaves `16 ^ (32 - k)` addresses. -/
lemma two_pow_sub_mask {k : ℕ} (hk : k ≤ 32) : (2 : ℕ) ^ (128 - 4 * k) = 16 ^ (32 - k) := by
  rw [show (16 : ℕ) = 2 ^ 4 by norm_num, ← pow_mul]
  congr 1
  omega

/-- **Lying in a network is agreeing on the network's nibbles.** -/
lemma and_maskBits_eq_iff {k : ℕ} (hk : k ≤ 32) {a p : U128}
    (hp : p &&& maskBits (4 * k) = p) :
    a &&& maskBits (4 * k) = p ↔ a.toNat / 16 ^ (32 - k) = p.toNat / 16 ^ (32 - k) := by
  rw [maskBits_eq] at *
  rw [and_eq_iff_div_eq (by omega) hp, two_pow_sub_mask hk]

/-- **Sharing a network part is agreeing on its nibbles.** -/
lemma and_maskBits_inj {k : ℕ} (hk : k ≤ 32) {a b : U128} :
    a &&& maskBits (4 * k) = b &&& maskBits (4 * k) ↔
      a.toNat / 16 ^ (32 - k) = b.toNat / 16 ^ (32 - k) := by
  have hmasked : b &&& maskBits (4 * k) &&& maskBits (4 * k) = b &&& maskBits (4 * k) := by
    rw [BitVec.and_assoc, BitVec.and_self]
  rw [and_maskBits_eq_iff hk hmasked, ← (and_maskBits_eq_iff hk hmasked).mp rfl]

/-! ## Reverse names -/

/-- The two labels every reverse name ends in. -/
def arpaSuffix : List Bytes := [ofString "ip6", ofString "arpa"]

/-- `ip6` is in lowercase. -/
lemma lower_ip6 : lower (ofString "ip6") = ofString "ip6" := by decide

/-- `arpa` is in lowercase. -/
lemma lower_arpa : lower (ofString "arpa") = ofString "arpa" := by decide

/-- The label list of the top `k` nibbles of an address: its reverse zone for a `4 k`-bit
prefix, and its full reverse name for `k = 32`. -/
def reverseLabels (a : U128) (k : ℕ) : List Bytes :=
  (digitsLE 16 k (a.toNat / 16 ^ (32 - k))).map (fun d => [hexDigit d]) ++ arpaSuffix

/-- Adding a nibble above the ones already read. -/
lemma toNat_or_shl {addr : U128} {v : UInt8} {position : ℕ} (hpos : position < 32)
    (haddr : addr.toNat < 16 ^ position) (hv : v.toNat < 16) (hs : position * 4 < 128) :
    (addr ||| U128.shl (v.toBitVec.zeroExtend 128) (position * 4) hs).toNat =
      addr.toNat + 16 ^ position * v.toNat := by
  have hpow : (16 : ℕ) ^ position = 2 ^ (position * 4) := by
    rw [show (16 : ℕ) = 2 ^ 4 by norm_num, ← pow_mul, Nat.mul_comm]
  have hbound : v.toNat <<< (position * 4) < 2 ^ 128 := by
    rw [Nat.shiftLeft_eq]
    calc v.toNat * 2 ^ (position * 4) < 16 * 2 ^ (position * 4) := by
          have : 0 < 2 ^ (position * 4) := Nat.two_pow_pos _
          gcongr
      _ = 2 ^ (4 + position * 4) := by rw [pow_add]; norm_num
      _ ≤ 2 ^ 128 := Nat.pow_le_pow_right (by norm_num) (by omega)
  have hval : (v.toBitVec.zeroExtend 128).toNat = v.toNat := by
    simp only [BitVec.truncate_eq_setWidth, BitVec.toNat_setWidth, UInt8.toNat_toBitVec]
    omega
  rw [U128.shl, BitVec.toNat_or, BitVec.toNat_shiftLeft, hval, Nat.mod_eq_of_lt hbound,
    Nat.or_comm, ← Nat.shiftLeft_add_eq_or_of_lt (by rw [← hpow]; exact haddr), Nat.shiftLeft_eq,
    hpow]
  ring

/-- The nibbles read so far, with one more. -/
lemma toNat_or_shl_lt {addr : U128} {v : UInt8} {position : ℕ} (hpos : position < 32)
    (haddr : addr.toNat < 16 ^ position) (hv : v.toNat < 16) (hs : position * 4 < 128) :
    (addr ||| U128.shl (v.toBitVec.zeroExtend 128) (position * 4) hs).toNat <
      16 ^ (position + 1) := by
  rw [toNat_or_shl hpos haddr hv hs, pow_succ]
  have : 16 ^ position * v.toNat ≤ 16 ^ position * 15 := Nat.mul_le_mul_left _ (by omega)
  omega

/-- **The nibble loop**: from `position`, with an address below `16 ^ position`, the loop
succeeds iff the next labels are hex digits up to case, and it adds them as the next nibbles.

**Proof sketch.** Induction on the number of labels still to read. The label read must be one
byte that decodes (`hexVal_sound`, `hexVal_complete`), and or-ing its value in above the nibbles
already there is an addition (`toNat_or_shl`). -/
lemma ptrNibbles_eq_some_iff {todo position : ℕ} (h : position + todo ≤ addrNibbles)
    (labels : List Bytes) {addr : U128} (haddr : addr.toNat < 16 ^ position)
    (a : U128) (rest : List Bytes) :
    ptrNibbles todo position h labels addr = some (a, rest) ↔
      ∃ ls ds, labels = ls ++ rest ∧ ds.length = todo ∧ (∀ d ∈ ds, d < 16) ∧
        ls.map lower = ds.map (fun d => [hexDigit d]) ∧
        a.toNat = addr.toNat + 16 ^ position * Nat.ofDigits 16 ds := by
  induction todo generalizing position labels addr with
  | zero =>
    rw [ptrNibbles]
    constructor
    · intro heq
      obtain ⟨rfl, rfl⟩ := by simpa using heq
      exact ⟨[], [], by simp⟩
    · rintro ⟨ls, ds, rfl, hlen, -, hls, hval⟩
      obtain rfl : ds = [] := by simpa using hlen
      obtain rfl : ls = [] := by simpa using hls
      have ha : a = addr := BitVec.eq_of_toNat_eq (by simpa using hval)
      simp [ha]
  | succ todo ih =>
    have hpos : position < 32 := by unfold addrNibbles at h; omega
    unfold ptrNibbles
    constructor
    · intro heq
      split at heq
      · rename_i digit tail
        split at heq
        · rename_i v hv
          obtain ⟨hv16, hlow⟩ := hexVal_sound hv
          have hstep := toNat_or_shl hpos haddr hv16 (by omega)
          have hnext := toNat_or_shl_lt hpos haddr hv16 (by omega)
          obtain ⟨ls, ds, rfl, hlen, hlt, hls, hval⟩ := (ih _ _ hnext).mp heq
          refine ⟨[digit] :: ls, v.toNat :: ds, rfl, by simp [hlen], ?_, ?_, ?_⟩
          · intro d hd
            rcases List.mem_cons.mp hd with rfl | hd
            · exact hv16
            · exact hlt d hd
          · simp [hls, hlow]
          · rw [hval, hstep, Nat.ofDigits_cons, pow_succ]
            ring
        · simp at heq
      · simp at heq
    · rintro ⟨ls, ds, rfl, hlen, hlt, hls, hval⟩
      obtain ⟨d, ds, rfl⟩ : ∃ d ds', ds = d :: ds' := List.exists_cons_of_length_eq_add_one hlen
      obtain ⟨l, ls, rfl, hl, htail⟩ := by
        simpa only [List.map_cons, List.map_eq_cons_iff] using hls
      obtain ⟨b, t, rfl, hb, ht⟩ := by simpa only [lower, List.map_eq_cons_iff] using hl
      obtain rfl : t = [] := by simpa using ht
      have hd : d < 16 := hlt d (by simp)
      have hv := hexVal_complete hd hb
      have hdn : (UInt8.ofNat d).toNat = d := by
        rw [UInt8.toNat_ofNat']
        omega
      have hstep := toNat_or_shl (v := UInt8.ofNat d) hpos haddr (by omega) (by omega)
      rw [hdn] at hstep
      simp only [List.cons_append, hv]
      refine (ih _ _ ?_).mpr ⟨ls, ds, rfl, by simpa using hlen, fun e he => hlt e (by simp [he]),
        htail, ?_⟩
      · exact toNat_or_shl_lt hpos haddr (by omega) (by omega)
      · rw [hval, hstep, Nat.ofDigits_cons, pow_succ]
        ring

/-- The labels of a reverse name carry digits below 16. -/
lemma reverseDigits_lt (a : U128) (k : ℕ) :
    ∀ d ∈ digitsLE 16 k (a.toNat / 16 ^ (32 - k)), d < 16 :=
  fun _ => lt_of_mem_digitsLE (by norm_num)

/-- A reverse name is its own lowercase form. -/
lemma map_lower_reverseLabels (a : U128) (k : ℕ) :
    (reverseLabels a k).map lower = reverseLabels a k := by
  have harpa : arpaSuffix.map lower = arpaSuffix := by simp [arpaSuffix, lower_ip6, lower_arpa]
  rw [reverseLabels, List.map_append, harpa, List.map_map]
  congr 1
  refine List.map_congr_left fun d hd => ?_
  simp [lowerByte_hexDigit (reverseDigits_lt a k d hd)]

/-- A label for each nibble, and the two of the suffix. -/
@[simp] lemma length_reverseLabels (a : U128) (k : ℕ) : (reverseLabels a k).length = k + 2 := by
  simp [reverseLabels, arpaSuffix]

/-- The labels of a reverse name are as long as those of any other. -/
lemma map_length_reverseLabels (a : U128) (k : ℕ) : (reverseLabels a k).map List.length =
    (List.replicate k [(0 : UInt8)] ++ arpaSuffix).map List.length := by
  simp [reverseLabels, Function.comp_def]

/-- Reverse names fit the limits of the wire format. -/
lemma validLabels_reverseLabels (a : U128) {k : ℕ} (hk : k ≤ 32) :
    ValidLabels (reverseLabels a k) := by
  rw [validLabels_of_lengths (map_length_reverseLabels a k)]
  have key : ∀ k : Fin 33, ValidLabels (List.replicate k [(0 : UInt8)] ++ arpaSuffix) := by
    decide +kernel
  exact key ⟨k, by omega⟩

/-- A name whose first label is a hex digit has all its labels counted. -/
lemma numLabels_of_digit_head {n : Name} {l : Bytes} {rest : List Bytes} {d : ℕ} (hd : d < 16)
    (hn : n.labels = l :: rest) (hl : lower l = [hexDigit d]) : n.numLabels = n.labels.length := by
  rw [Name.numLabels, if_neg]
  intro hstar
  obtain rfl : l = Name.star := by simpa [hn] using hstar
  rw [show lower Name.star = [42] by decide] at hl
  exact (hexDigit_ascii hd).1 (by simpa using hl.symm)

/-- **The reverse-name parser is exact**: a name parses as the address `a` iff its labels are,
up to case, the full reverse name of `a`.

**Proof sketch.** The loop reads 32 labels that spell digits (`ptrNibbles_eq_some_iff`); the
digits of `a` are the only ones with its value. The first label is a digit, so the label count
leaves exactly the two labels of `ip6.arpa`. -/
lemma ptrNameToAddr_eq_some_iff (n : Name) (a : U128) :
    ptrNameToAddr n = some a ↔ n.key = reverseLabels a 32 := by
  have ha : a.toNat < 16 ^ 32 := lt_of_lt_of_eq a.isLt (by norm_num)
  have hloop : ∀ rest, ptrNibbles addrNibbles 0 (by simp) n.iter 0 = some (a, rest) ↔
      ∃ ls, n.labels = ls ++ rest ∧
        ls.map lower = (digitsLE 16 32 a.toNat).map fun d => [hexDigit d] := by
    intro rest
    rw [ptrNibbles_eq_some_iff (by simp) n.iter (by simp) a rest]
    constructor
    · rintro ⟨ls, ds, hls, hlen, hlt, hmap, hval⟩
      have hds := digitsLE_ofDigits ds hlt
      rw [hlen, ← show a.toNat = Nat.ofDigits 16 ds by simpa using hval] at hds
      exact ⟨ls, hls, by rw [hmap, ← hds]; rfl⟩
    · rintro ⟨ls, hls, hmap⟩
      refine ⟨ls, _, hls, length_digitsLE _ _, fun d => lt_of_mem_digitsLE (by norm_num), hmap, ?_⟩
      rw [ofDigits_digitsLE, show addrNibbles = 32 from rfl, Nat.mod_eq_of_lt ha]
      simp
  unfold ptrNameToAddr
  constructor
  · intro h
    split at h
    · simp at h
    rename_i hcount
    split at h
    · rename_i addr ip6 arpa rest hnib
      split_ifs at h with h1 h2
      obtain rfl : addr = a := by simpa using h
      obtain ⟨ls, hls, hmap⟩ := (hloop _).mp hnib
      have hlen : ls.length = 32 := by simpa using congrArg List.length hmap
      obtain ⟨l, ls', rfl⟩ : ∃ l ls', ls = l :: ls' := List.exists_cons_of_length_eq_add_one hlen
      have hhead : lower l = [hexDigit (addr.toNat % 16)] := by
        simpa [digitsLE] using congrArg List.head? hmap
      have hnum := numLabels_of_digit_head (Nat.mod_lt _ (by norm_num)) hls hhead
      have hrest : rest = [] := by
        have : n.labels.length = 34 + rest.length := by rw [hls]; simp at hlen ⊢; omega
        have : ptrQueryLabels = 34 := rfl
        exact List.eq_nil_of_length_eq_zero (by omega)
      subst hrest
      have h1' : lower ip6 = ofString "ip6" := by simpa [lower_ip6] using h1
      have h2' : lower arpa = ofString "arpa" := by simpa [lower_arpa] using h2
      rw [Name.key, hls, List.map_append, hmap]
      simp [reverseLabels, arpaSuffix, h1', h2']
    · simp at h
  · intro h
    have hsplit : ∃ ls ip6 arpa, n.labels = ls ++ [ip6, arpa] ∧
        ls.map lower = (digitsLE 16 32 a.toNat).map (fun d => [hexDigit d]) ∧
        lower ip6 = ofString "ip6" ∧ lower arpa = ofString "arpa" := by
      obtain ⟨ls, rest, hls, hmap, htail⟩ := List.map_eq_append_iff.mp h
      obtain ⟨ip6, rest, rfl, h6, htail⟩ := List.map_eq_cons_iff.mp htail
      obtain ⟨arpa, rest, rfl, harpa, htail⟩ := List.map_eq_cons_iff.mp htail
      obtain rfl : rest = [] := by simpa using htail
      exact ⟨ls, ip6, arpa, hls, by simpa using hmap, h6, harpa⟩
    obtain ⟨ls, ip6, arpa, hls, hmap, h6, harpa⟩ := hsplit
    have hlen : ls.length = 32 := by simpa using congrArg List.length hmap
    obtain ⟨l, ls', rfl⟩ : ∃ l ls', ls = l :: ls' := List.exists_cons_of_length_eq_add_one hlen
    have hhead : lower l = [hexDigit (a.toNat % 16)] := by
      simpa [digitsLE] using congrArg List.head? hmap
    have hnum := numLabels_of_digit_head (Nat.mod_lt _ (by norm_num)) hls hhead
    have hcount : n.numLabels = ptrQueryLabels := by
      rw [hnum, hls, List.length_append, hlen]
      rfl
    rw [if_neg (by simpa using hcount), (hloop _).mpr ⟨_, hls, hmap⟩]
    simp [eqIgnoreCase, h6, harpa, lower_ip6, lower_arpa]

/-- The nibble at a position is a base-16 digit of the address. -/
lemma hexLower_getElem?_nibble (p : U128) (position : ℕ) (hs : position * 4 < 128) :
    hexLower[(p.shr (position * 4) hs &&& 0xF).toNat]? =
      some (hexDigit (p.toNat / 16 ^ position % 16)) := by
  have hval : (p.shr (position * 4) hs &&& 0xF).toNat = p.toNat / 16 ^ position % 16 := by
    rw [U128.shr, BitVec.toNat_and, BitVec.toNat_ushiftRight, Nat.shiftRight_eq_div_pow,
      show (0xF : U128).toNat = 2 ^ 4 - 1 by decide, Nat.and_two_pow_sub_one_eq_mod,
      Nat.mul_comm, pow_mul]
    norm_num
  have hlt : p.toNat / 16 ^ position % 16 < hexLower.length :=
    lt_of_lt_of_eq (Nat.mod_lt _ (by norm_num)) (by decide)
  rw [hval, List.getElem?_eq_getElem hlt, hexDigit, List.getD_eq_getElem _ _ hlt]

/-- The positions a reverse zone is built from. -/
lemma map_drop_finRange {α : Type} (f : ℕ → α) {k : ℕ} (hk : k ≤ 32) :
    ((List.finRange addrNibbles).drop (addrNibbles - k)).map (fun i : Fin addrNibbles => f i) =
      (List.range k).map fun i => f (32 - k + i) := by
  have hdrop : ((List.finRange addrNibbles).drop (addrNibbles - k)).map Fin.val =
      List.range' (32 - k) k := by
    rw [List.map_drop, List.map_coe_finRange_eq_range, List.range_eq_range', List.drop_range']
    congr 1
    · unfold addrNibbles; omega
    · unfold addrNibbles; omega
  calc ((List.finRange addrNibbles).drop (addrNibbles - k)).map (fun i : Fin addrNibbles => f i)
      = (((List.finRange addrNibbles).drop (addrNibbles - k)).map Fin.val).map f := by
        rw [List.map_map]; rfl
    _ = (List.range k).map fun i => f (32 - k + i) := by
        rw [hdrop, List.range'_eq_map_range, List.map_map]; rfl

/-- **The reverse zone of a network**: for a prefix of `4 k` bits, the top `k` nibbles of the
address under `ip6.arpa`. -/
lemma netmaskToPtrName_eq (p : U128) {k : ℕ} (hk : k ≤ 32) :
    netmaskToPtrName p (4 * k) = some ⟨reverseLabels p k, validLabels_reverseLabels p hk⟩ := by
  have hfun : (fun position : Fin addrNibbles => hexLower[(p.shr (position * 4)
      (by have := position.isLt; unfold addrNibbles at this; omega) &&& 0xF).toNat]?) =
      fun position : Fin addrNibbles => pure (hexDigit (p.toNat / 16 ^ position.val % 16)) := by
    funext position
    exact hexLower_getElem?_nibble p position _
  have hdigits : (List.range k).map (fun i => hexDigit (p.toNat / 16 ^ (32 - k + i) % 16)) =
      (digitsLE 16 k (p.toNat / 16 ^ (32 - k))).map hexDigit := by
    rw [digitsLE_eq_map_range, List.map_map]
    refine List.map_congr_left fun i _ => ?_
    simp [pow_add, Nat.div_div_eq_div_mul]
  unfold netmaskToPtrName
  rw [if_neg (by omega), hfun]
  simp only [List.mapM_pure, Nat.mul_div_cancel_left k (by norm_num : 0 < 4), pure_bind]
  rw [map_drop_finRange (fun i => hexDigit (p.toNat / 16 ^ i % 16)) hk, hdigits, List.map_map]
  have hok : Name.fromLabels (reverseLabels p k) =
      .ok ⟨reverseLabels p k, validLabels_reverseLabels p hk⟩ := by
    rw [Name.fromLabels_eq_ok]
  exact congrArg Except.toOption hok

/-- The full reverse name of an address. -/
lemma netmaskToPtrName_full (a : U128) :
    ∃ r, netmaskToPtrName a 128 = some r ∧ r.key = reverseLabels a 32 := by
  refine ⟨_, netmaskToPtrName_eq a (k := 32) le_rfl, ?_⟩
  exact map_lower_reverseLabels a 32

/-- **The codec is exact**: an address is read back from its full reverse name, and a name is
read as an address only if it is that name up to case. -/
theorem ptrNameToAddr_exact :
    (∀ a : U128, (netmaskToPtrName a 128).bind ptrNameToAddr = some a) ∧
    ∀ (n : Name) (a : U128), ptrNameToAddr n = some a ↔
      ∃ r, netmaskToPtrName a 128 = some r ∧ n.labels.map lower = r.labels.map lower := by
  constructor
  · intro a
    obtain ⟨r, hr, hkey⟩ := netmaskToPtrName_full a
    rw [hr, Option.bind_some, ptrNameToAddr_eq_some_iff]
    exact hkey
  · intro n a
    obtain ⟨r, hr, hkey⟩ := netmaskToPtrName_full a
    rw [ptrNameToAddr_eq_some_iff, ← hkey]
    constructor
    · intro h
      exact ⟨r, hr, h⟩
    · rintro ⟨r', hr', h⟩
      rw [hr, Option.some.injEq] at hr'
      rw [hr']
      exact h

/-! ## Host digits -/

/-- The low `n` nibbles of an address as hex digits, most significant first. -/
def hexDigits (n : ℕ) (a : U128) : Bytes := (digitsLE 16 n a.toNat).reverse.map hexDigit

/-- The digit at an index, most significant first. -/
lemma hexDigits_getElem? {n i : ℕ} (hi : i < n) (a : U128) :
    (hexDigits n a)[i]? = some (hexDigit (a.toNat / 16 ^ (n - 1 - i) % 16)) := by
  unfold hexDigits
  rw [digitsLE_eq_map_range, List.getElem?_map, List.getElem?_reverse (by simpa using hi)]
  simp only [List.length_map, List.length_range, List.getElem?_map]
  rw [List.getElem?_range (by omega)]
  rfl

/-- As many digits as asked for. -/
@[simp] lemma length_hexDigits (n : ℕ) (a : U128) : (hexDigits n a).length = n := by
  simp [hexDigits]

/-- The digits are in lowercase. -/
lemma lower_hexDigits (n : ℕ) (a : U128) : lower (hexDigits n a) = hexDigits n a := by
  refine lower_map_hexDigit fun d hd => ?_
  exact lt_of_mem_digitsLE (by norm_num) (List.mem_reverse.mp hd)

/-- Digits determine the host part. -/
lemma hexDigits_inj {n : ℕ} {a b : U128} :
    hexDigits n a = hexDigits n b ↔ a.toNat % 16 ^ n = b.toNat % 16 ^ n := by
  have hlt : ∀ c : U128, ∀ d ∈ (digitsLE 16 n c.toNat).reverse, d < 16 := fun c d hd =>
    lt_of_mem_digitsLE (by norm_num) (List.mem_reverse.mp hd)
  constructor
  · intro h
    have := List.reverse_inj.mp (map_hexDigit_inj (hlt a) (hlt b) h)
    rw [← ofDigits_digitsLE, ← ofDigits_digitsLE, this]
  · intro h
    rw [hexDigits, hexDigits, ← digitsLE_mod n a.toNat, h, digitsLE_mod]

/-- Minimum-width formatting of a number that fits is fixed-width formatting. -/
lemma formatHex_eq {n : ℕ} (hn : 0 < n) {x : U128} (hx : x.toNat < 16 ^ n) :
    formatHex n x = hexDigits n x := by
  suffices hpad : (if x.toNat = 0 then [0] else (Nat.digits 16 x.toNat).reverse).leftpad n 0 =
      (digitsLE 16 n x.toNat).reverse from congrArg (List.map hexDigit) hpad
  by_cases h0 : x.toNat = 0
  · rw [if_pos h0, h0, digitsLE_zero_right, List.reverse_replicate]
    obtain ⟨m, rfl⟩ : ∃ m, n = m + 1 := ⟨n - 1, by omega⟩
    simp [List.leftpad, List.replicate_succ']
  · rw [if_neg h0, ← digits_append_zeros (by norm_num) hx, List.reverse_append,
      List.reverse_replicate]
    simp [List.leftpad]

/-- **Host digits** are the low nibbles, most significant first, zero padded. -/
lemma hostDigits_eq (a : U128) {n : ℕ} (hn : 0 < n) (hn32 : n ≤ 32) :
    hostDigits a n = some (hexDigits n a) := by
  have hpow : (2 : ℕ) ^ (128 - (128 - n * 4)) = 16 ^ n := by
    rw [show (16 : ℕ) = 2 ^ 4 by norm_num, ← pow_mul]
    congr 1
    omega
  have hhost : (a &&& ~~~maskBits (128 - n * 4)).toNat = a.toNat % 16 ^ n := by
    rw [maskBits_eq, toNat_and_not_networkMask (by omega), hpow]
  unfold hostDigits
  rw [if_neg (by unfold addrNibbles; omega), if_neg (by omega)]
  simp only [Option.some.injEq]
  rw [formatHex_eq hn (by rw [hhost]; exact Nat.mod_lt _ (by positivity)), hexDigits_inj, hhost,
    Nat.mod_mod]

/-- Shifting a host part by a nibble and or-ing the next one in is a Horner step. -/
lemma toNat_shl_or {h : U128} {v : UInt8} (hh : h.toNat < 16 ^ 31) (hv : v.toNat < 16)
    (hs : 4 < 128) :
    (h.shl 4 hs ||| v.toBitVec.zeroExtend 128).toNat = h.toNat * 16 + v.toNat := by
  have hval : (v.toBitVec.zeroExtend 128).toNat = v.toNat := by
    simp only [BitVec.truncate_eq_setWidth, BitVec.toNat_setWidth, UInt8.toNat_toBitVec]
    omega
  rw [U128.shl, BitVec.toNat_or, BitVec.toNat_shiftLeft, hval, Nat.mod_eq_of_lt,
    ← Nat.shiftLeft_add_eq_or_of_lt (by omega), Nat.shiftLeft_eq]
  rw [Nat.shiftLeft_eq]
  calc h.toNat * 2 ^ 4 < 16 ^ 31 * 2 ^ 4 := by gcongr
    _ ≤ 2 ^ 128 := by norm_num

/-- **The decoding loop**: with room for the digits still to come, the loop succeeds iff they are
hex digits up to case, and it computes their value. -/
lemma hostLoop_eq_some_iff (s : Bytes) {h : U128} {m : ℕ} (hh : h.toNat < 16 ^ m)
    (hm : m + s.length ≤ 32) (r : U128) :
    hostLoop s h = some r ↔ ∃ ds : List ℕ, (∀ d ∈ ds, d < 16) ∧ lower s = ds.map hexDigit ∧
      r.toNat = h.toNat * 16 ^ ds.length + Nat.ofDigits 16 ds.reverse := by
  induction s generalizing h m with
  | nil =>
    rw [hostLoop]
    constructor
    · intro heq
      obtain rfl : h = r := by simpa using heq
      exact ⟨[], by simp⟩
    · rintro ⟨ds, -, hds, hr⟩
      obtain rfl : ds = [] := by simpa using hds.symm
      have : h = r := BitVec.eq_of_toNat_eq (by simpa using hr.symm)
      rw [this]
  | cons b s ih =>
    have hbound : (16 : ℕ) ^ m ≤ 16 ^ 31 := Nat.pow_le_pow_right (by norm_num) (by
      rw [List.length_cons] at hm; omega)
    have hnext : ∀ v : UInt8, v.toNat < 16 →
        (h.shl 4 (by omega) ||| v.toBitVec.zeroExtend 128).toNat < 16 ^ (m + 1) := by
      intro v hv
      rw [toNat_shl_or (by omega) hv, pow_succ]
      omega
    rw [hostLoop]
    constructor
    · intro heq
      split at heq
      · rename_i v hv
        obtain ⟨hv16, hlow⟩ := hexVal_sound hv
        obtain ⟨ds, hlt, hds, hr⟩ :=
          (ih (hnext v hv16) (by rw [List.length_cons] at hm; omega)).mp heq
        refine ⟨v.toNat :: ds, ?_, by simp [hlow, hds], ?_⟩
        · intro d hd
          rcases List.mem_cons.mp hd with rfl | hd
          · exact hv16
          · exact hlt d hd
        · rw [hr, toNat_shl_or (by omega) hv16, List.reverse_cons, Nat.ofDigits_append,
            Nat.ofDigits_singleton, List.length_reverse, List.length_cons, pow_succ]
          ring
      · simp at heq
    · rintro ⟨ds, hlt, hds, hr⟩
      obtain ⟨d, ds, rfl, hb, hds⟩ := List.map_eq_cons_iff.mp hds.symm
      have hd : d < 16 := hlt d (by simp)
      have hdn : (UInt8.ofNat d).toNat = d := by
        rw [UInt8.toNat_ofNat']
        omega
      rw [hexVal_complete hd hb.symm]
      refine (ih (hnext _ (by omega)) (by rw [List.length_cons] at hm; omega)).mpr
        ⟨ds, fun e he => hlt e (by simp [he]), hds.symm, ?_⟩
      rw [hr, toNat_shl_or (by omega) (by omega), hdn, List.reverse_cons, Nat.ofDigits_append,
        Nat.ofDigits_singleton, List.length_reverse, List.length_cons, pow_succ]
      ring

/-- **Decoding host digits is exact**: a digit string decodes to `h` iff `h` has at most `n`
nibbles and the string is their hex form up to case. -/
lemma digitsToHost_eq_some_iff (s : Bytes) {n : ℕ} (hn : n ≤ 32) (h : U128) :
    digitsToHost s n = some h ↔ h.toNat < 16 ^ n ∧ lower s = hexDigits n h := by
  unfold digitsToHost
  constructor
  · intro heq
    split at heq
    · simp at heq
    rename_i hlen
    have hlen : s.length = n := by simpa using hlen
    obtain ⟨ds, hlt, hds, hval⟩ := (hostLoop_eq_some_iff s (m := 0) (by simp) (by omega) h).mp heq
    have hdlen : ds.length = n := by rw [← hlen, ← length_lower, hds, List.length_map]
    have hrev : ∀ d ∈ ds.reverse, d < 16 := fun d hd => hlt d (List.mem_reverse.mp hd)
    have hval' : h.toNat = Nat.ofDigits 16 ds.reverse := by simpa using hval
    have hdig := digitsLE_ofDigits ds.reverse hrev
    rw [List.length_reverse, hdlen, ← hval'] at hdig
    refine ⟨?_, by rw [hds, hexDigits, hdig, List.reverse_reverse]⟩
    rw [hval', ← hdlen, ← List.length_reverse]
    exact Nat.ofDigits_lt_base_pow_length (by norm_num) hrev
  · rintro ⟨hlt, hs⟩
    have hlen : s.length = n := by rw [← length_lower, hs, length_hexDigits]
    rw [if_neg (by simpa using hlen)]
    refine (hostLoop_eq_some_iff s (m := 0) (by simp) (by omega) h).mpr
      ⟨(digitsLE 16 n h.toNat).reverse, ?_, hs, ?_⟩
    · exact fun d hd => lt_of_mem_digitsLE (by norm_num) (List.mem_reverse.mp hd)
    · rw [List.reverse_reverse, ofDigits_digitsLE, Nat.mod_eq_of_lt hlt]
      simp

/-! ## Dashed digits -/

/-- `g` groups of four with a dash between groups. -/
def dashJoin : ℕ → Bytes → Bytes
  | 0, _ => []
  | g + 1, d => d.take 4 ++ if 0 < g then dash :: dashJoin g (d.drop 4) else []

/-- Case folding commutes with grouping. -/
lemma lower_dashJoin (g : ℕ) (d : Bytes) : lower (dashJoin g d) = dashJoin g (lower d) := by
  induction g generalizing d with
  | zero => rfl
  | succ g ih =>
    have htake : lower (d.take 4) = (lower d).take 4 := List.map_take
    have hdrop : lower (d.drop 4) = (lower d).drop 4 := List.map_drop
    rw [dashJoin, dashJoin, lower_append, htake]
    congr 1
    split
    · rw [lower_cons, ih, hdrop, show lowerByte dash = dash by decide]
    · rfl

/-- A dash between any two groups of four. -/
lemma length_dashJoin {g : ℕ} {d : Bytes} (hd : d.length = 4 * g) :
    (dashJoin g d).length = 4 * g + (g - 1) := by
  induction g generalizing d with
  | zero => rfl
  | succ g ih =>
    have htail := ih (d := d.drop 4) (by simp [hd]; omega)
    rw [dashJoin]
    split
    · simp [htail, hd]
      omega
    · obtain rfl : g = 0 := by omega
      simp [hd]

/-- Grouping is joining the groups with dashes. -/
lemma dashJoin_eq_intercalate (g : ℕ) (d : Bytes) :
    dashJoin g d = [dash].intercalate ((List.range g).map fun i => (d.drop (4 * i)).take 4) := by
  induction g generalizing d with
  | zero => rfl
  | succ g ih =>
    have htail : (List.range g).map (fun i => (d.drop (4 * (i + 1))).take 4) =
        (List.range g).map fun i => ((d.drop 4).drop (4 * i)).take 4 := by
      apply List.map_congr_left
      intro i _
      rw [List.drop_drop]
      congr 2
      omega
    rw [List.range_succ_eq_map, List.map_cons, List.map_map, dashJoin]
    simp only [Function.comp_def, Nat.succ_eq_add_one, htail, Nat.mul_zero, List.drop_zero]
    cases g with
    | zero => simp [List.intercalate]
    | succ g =>
      rw [if_pos (Nat.succ_pos g), ih]
      generalize hgs : (List.range (g + 1)).map (fun i => ((d.drop 4).drop (4 * i)).take 4) = gs
      cases gs with
      | nil => simp at hgs
      | cons s gs => simp [List.intercalate, List.intersperse]

/-- A text grouped like a digit string up to case is a digit string grouped. -/
lemma exists_of_lower_eq_dashJoin {g : ℕ} {s d : Bytes} (hd : d.length = 4 * g)
    (h : lower s = dashJoin g (lower d)) :
    ∃ e, e.length = 4 * g ∧ lower e = lower d ∧ s = dashJoin g e := by
  induction g generalizing s d with
  | zero =>
    obtain rfl : d = [] := by simpa using hd
    obtain rfl : s = [] := by simpa [dashJoin, lower] using h
    exact ⟨[], rfl, rfl, rfl⟩
  | succ g ih =>
    rw [dashJoin] at h
    obtain ⟨s₁, s₂, rfl, h₁, h₂⟩ := List.map_eq_append_iff.mp h
    have h₁' : lower s₁ = lower (d.take 4) := h₁.trans List.map_take.symm
    have hlen₁ : s₁.length = 4 := by
      rw [length_eq_of_lower_eq h₁', List.length_take, hd]
      omega
    by_cases hg : 0 < g
    · rw [if_pos hg] at h₂
      obtain ⟨b, s₂, rfl, hb, h₂⟩ := List.map_eq_cons_iff.mp h₂
      have hb' : b = dash := by
        have key : ∀ b, lowerByte b = dash → b = dash := fun b =>
          (lowerByte_eq_iff (by decide) (by decide) b).mp
        exact key b hb
      have hdrop : (lower d).drop 4 = lower (d.drop 4) := List.map_drop.symm
      rw [hdrop] at h₂
      obtain ⟨e, hlen, hlow, rfl⟩ := ih (d := d.drop 4) (by simp [hd]; omega) h₂
      refine ⟨s₁ ++ e, by simp [hlen₁, hlen]; omega, ?_, ?_⟩
      · rw [lower_append, h₁', hlow, ← lower_append, List.take_append_drop]
      · rw [dashJoin, if_pos hg, List.take_left' hlen₁, List.drop_left' hlen₁, hb']
    · rw [if_neg hg] at h₂
      obtain rfl : s₂ = [] := by simpa using h₂
      obtain rfl : g = 0 := by omega
      refine ⟨s₁, by omega, ?_, ?_⟩
      · rw [h₁', List.take_of_length_le (by omega)]
      · rw [dashJoin, if_neg hg, List.take_of_length_le (by omega)]

/-- **The undashing loop** reads exactly the texts grouped in fours. -/
lemma undashLoop_eq_some_iff (g : ℕ) (s out r : Bytes) :
    undashLoop g s out = some r ↔ ∃ d, d.length = 4 * g ∧ r = out ++ d ∧ s = dashJoin g d := by
  induction g generalizing s out with
  | zero =>
    rw [undashLoop]
    constructor
    · intro h
      split at h
      · rename_i hs
        obtain rfl : out = r := by simpa using h
        exact ⟨[], by simp, by simp, by simpa [dashJoin] using hs⟩
      · simp at h
    · rintro ⟨d, hd, rfl, rfl⟩
      obtain rfl : d = [] := by simpa using hd
      simp [dashJoin]
  | succ g ih =>
    rw [undashLoop]
    simp only [Option.bind_eq_bind, Option.bind_eq_some_iff, Prod.exists]
    constructor
    · rintro ⟨chunk, rest, hsplit, h⟩
      obtain ⟨rfl, hlen⟩ := splitAtChecked_eq_some.mp hsplit
      split at h
      · rename_i hg
        obtain ⟨⟨c, rest'⟩, hsplit', hloop⟩ := Option.bind_eq_some_iff.mp h
        obtain ⟨rfl, -⟩ := splitAtChecked_eq_some.mp hsplit'
        simp only at hloop
        split at hloop
        · simp at hloop
        · rename_i hc
          obtain ⟨d, hd, rfl, rfl⟩ := (ih _ _).mp hloop
          refine ⟨chunk ++ d, by simp [hlen, hd]; omega, by simp, ?_⟩
          rw [dashJoin, if_pos hg, List.take_left' hlen, List.drop_left' hlen,
            show c = [dash] by simpa using hc]
          rfl
      · rename_i hg
        obtain rfl : g = 0 := by omega
        obtain ⟨d, hd, rfl, rfl⟩ := (ih _ _).mp h
        obtain rfl : d = [] := by simpa using hd
        refine ⟨chunk, by omega, by simp, ?_⟩
        simp [dashJoin, List.take_of_length_le hlen.le]
    · rintro ⟨d, hd, rfl, rfl⟩
      have hlen : (d.take 4).length = 4 := by
        rw [List.length_take, hd]
        omega
      rw [dashJoin]
      by_cases hg : 0 < g
      · refine ⟨d.take 4, _, splitAtChecked_eq_some.mpr ⟨rfl, hlen⟩, ?_⟩
        simp only [hg, if_true, Option.bind_eq_some_iff, Prod.exists]
        refine ⟨[dash], dashJoin g (d.drop 4), splitAtChecked_eq_some.mpr ⟨rfl, rfl⟩, ?_⟩
        rw [if_neg (by simp)]
        exact (ih _ _).mpr ⟨d.drop 4, by simp [hd]; omega, by simp, rfl⟩
      · obtain rfl : g = 0 := by omega
        refine ⟨d.take 4, [], splitAtChecked_eq_some.mpr ⟨by simp, hlen⟩, ?_⟩
        rw [if_neg hg]
        refine (ih _ _).mpr ⟨[], rfl, ?_, rfl⟩
        rw [List.take_of_length_le (by omega)]
        simp

/-- **Undashing is exact** on `g ≥ 1` groups. -/
lemma undashGroup_eq_some_iff {g : ℕ} (hg : 0 < g) (s d : Bytes) :
    undashGroup s (4 * g) = some d ↔ d.length = 4 * g ∧ s = dashJoin g d := by
  unfold undashGroup
  rw [Nat.mul_div_cancel_left g (by norm_num : 0 < 4), if_neg (by omega), undashLoop_eq_some_iff]
  constructor
  · rintro ⟨e, he, rfl, rfl⟩
    exact ⟨by simpa using he, by simp⟩
  · rintro ⟨hd, rfl⟩
    exact ⟨d, hd, by simp, rfl⟩

/-- ASCII text is valid UTF-8. -/
lemma isUtf8_of_ascii {s : Bytes} (h : ∀ b ∈ s, b < 0x80) : isUtf8 s = true := by
  induction s with
  | nil => simp [isUtf8]
  | cons b s ih =>
    unfold isUtf8
    rw [if_pos (h b (by simp))]
    exact ih fun c hc => h c (by simp [hc])

/-- The loop of `dash_group` from any index on, for ASCII chunks. -/
lemma dashGroup_loop (cs : List Bytes) (k : ℕ) (out : Bytes)
    (hascii : ∀ c ∈ cs, ∀ b ∈ c, b < 0x80) :
    (cs.zipIdx (k + 1)).foldl (fun out p =>
      (if p.2 > 0 then out ++ [dash] else out) ++ utf8OrDefault p.1) out =
      out ++ cs.flatMap fun c => dash :: c := by
  induction cs generalizing k out with
  | nil => simp
  | cons c cs ih =>
    have hc : utf8OrDefault c = c := if_pos (isUtf8_of_ascii (hascii c (by simp)))
    rw [List.zipIdx_cons, List.foldl_cons, ih _ _ fun c' h' => hascii c' (by simp [h'])]
    simp [hc]

/-- Chunks of `4 g` digits, with a dash before each. -/
lemma flatMap_chunks {g : ℕ} {d : Bytes} {fuel : ℕ} (hd : d.length = 4 * g) (hfuel : g ≤ fuel) :
    (chunks 4 fuel d).flatMap (fun c => dash :: c) =
      if 0 < g then dash :: dashJoin g d else [] := by
  induction g generalizing d fuel with
  | zero =>
    obtain rfl : d = [] := by simpa using hd
    cases fuel <;> simp [chunks]
  | succ g ih =>
    obtain ⟨fuel, rfl⟩ : ∃ f, fuel = f + 1 := ⟨fuel - 1, by omega⟩
    have hne : d.isEmpty = false := by
      cases d with
      | nil => simp at hd
      | cons => rfl
    have htail := @ih (d.drop 4) fuel (by simp [hd]; omega) (by omega)
    rw [chunks, hne, if_neg (by simp), List.flatMap_cons, htail, if_pos (Nat.succ_pos g), dashJoin]
    rfl

/-- **Grouping** of ASCII digits: `g` groups of four joined by dashes. -/
lemma dashGroup_eq {g : ℕ} {d : Bytes} (hd : d.length = 4 * g) (hascii : ∀ b ∈ d, b < 0x80) :
    dashGroup d = dashJoin g d := by
  have hmem : ∀ fuel (t : Bytes), (∀ b ∈ t, b < 0x80) →
      ∀ c ∈ chunks 4 fuel t, ∀ b ∈ c, b < 0x80 := by
    intro fuel
    induction fuel with
    | zero => simp [chunks]
    | succ fuel ih =>
      intro t ht c hc
      rw [chunks] at hc
      split at hc
      · simp at hc
      · rcases List.mem_cons.mp hc with rfl | hc
        · exact fun b hb => ht b (List.mem_of_mem_take hb)
        · exact ih _ (fun b hb => ht b (List.mem_of_mem_drop hb)) c hc
  unfold dashGroup
  cases g with
  | zero =>
    obtain rfl : d = [] := by simpa using hd
    rfl
  | succ g =>
    obtain ⟨n, hn⟩ : ∃ n, d.length = n + 1 := ⟨d.length - 1, by omega⟩
    have hne : d.isEmpty = false := by
      cases d with
      | nil => simp at hd
      | cons => rfl
    have htake : ∀ b ∈ d.take 4, b < 0x80 := fun b hb => hascii b (List.mem_of_mem_take hb)
    have hdrop : ∀ b ∈ d.drop 4, b < 0x80 := fun b hb => hascii b (List.mem_of_mem_drop hb)
    rw [hn, chunks, hne, if_neg (by simp), List.zipIdx_cons, List.foldl_cons,
      dashGroup_loop _ 0 _ (hmem _ _ hdrop),
      flatMap_chunks (g := g) (by simp [hd]; omega) (by omega), dashJoin]
    simp [utf8OrDefault, isUtf8_of_ascii htake]

/-! ## Reverse names under one another -/

/-- A shorter prefix has the shorter reverse name, at the end of the longer one. -/
lemma reverseLabels_eq_append (a : U128) {j k : ℕ} (hjk : j ≤ k) (hk : k ≤ 32) :
    reverseLabels a k =
      (digitsLE 16 (k - j) (a.toNat / 16 ^ (32 - k))).map (fun d => [hexDigit d]) ++
        reverseLabels a j := by
  have hdiv : a.toNat / 16 ^ (32 - k) / 16 ^ (k - j) = a.toNat / 16 ^ (32 - j) := by
    rw [Nat.div_div_eq_div_mul, ← pow_add]
    congr 2
    omega
  have hsplit := digitsLE_add (b := 16) (k - j) j (a.toNat / 16 ^ (32 - k))
  rw [hdiv, show k - j + j = k by omega] at hsplit
  rw [reverseLabels, hsplit, List.map_append, List.append_assoc]
  rfl

/-- **Reverse zones of one width** are the same iff the prefixes agree. -/
lemma reverseLabels_inj {a b : U128} {k : ℕ} (hk : k ≤ 32) :
    reverseLabels a k = reverseLabels b k ↔ a.toNat / 16 ^ (32 - k) = b.toNat / 16 ^ (32 - k) := by
  have hlt : ∀ c : U128, c.toNat / 16 ^ (32 - k) < 16 ^ k := by
    intro c
    apply Nat.div_lt_of_lt_mul
    rw [← pow_add, show 32 - k + k = 32 by omega]
    exact lt_of_lt_of_eq c.isLt (by norm_num)
  constructor
  · intro h
    have hdigits := List.append_cancel_right h
    have hsing : ∀ ds : List ℕ,
        ds.map (fun d => [hexDigit d]) = (ds.map hexDigit).map fun b => [b] := by
      intro ds
      simp
    rw [hsing, hsing] at hdigits
    have hbytes := List.map_injective_iff.mpr (fun _ _ h => by simpa using h) hdigits
    have hds := map_hexDigit_inj (reverseDigits_lt a k) (reverseDigits_lt b k) hbytes
    exact (digitsLE_inj (hlt a) (hlt b)).mp hds
  · intro h
    rw [reverseLabels, reverseLabels, h]

/-- **Reverse zones lie under one another** as the prefixes do.

**Proof sketch.** A suffix is decided by its length: the reverse zone of the shorter prefix is the
end of the longer one's name iff it is the reverse zone of that address at the shorter width. -/
lemma reverseLabels_suffix_iff {a b : U128} {j k : ℕ} (hj : j ≤ 32) (hk : k ≤ 32) :
    reverseLabels a j <:+ reverseLabels b k ↔
      j ≤ k ∧ a &&& maskBits (4 * j) = b &&& maskBits (4 * j) := by
  have hend : j ≤ k → reverseLabels b j <:+ reverseLabels b k :=
    fun hjk => ⟨_, (reverseLabels_eq_append b hjk hk).symm⟩
  constructor
  · intro h
    have hjk : j ≤ k := by simpa using h.length_le
    have heq : reverseLabels a j = reverseLabels b j :=
      (List.suffix_of_suffix_length_le h (hend hjk) (by simp)).eq_of_length (by simp)
    exact ⟨hjk, (and_maskBits_inj hj).mpr ((reverseLabels_inj hj).mp heq)⟩
  · rintro ⟨hjk, heq⟩
    rw [(reverseLabels_inj hj).mpr ((and_maskBits_inj hj).mp heq)]
    exact hend hjk

/-- **The names above a full reverse name** are the root, `arpa`, `ip6.arpa` and the reverse names
of the address's prefixes. -/
lemma suffix_reverseLabels_iff (a : U128) (ls : List Bytes) :
    ls <:+ reverseLabels a 32 ↔
      ls = [] ∨ ls = [ofString "arpa"] ∨ ∃ k ≤ 32, ls = reverseLabels a k := by
  constructor
  · intro h
    have hlen : ls.length ≤ 34 := by simpa using h.length_le
    rcases Nat.lt_or_ge ls.length 2 with hlt | hge
    · have hsuf : ls <:+ arpaSuffix :=
        List.suffix_of_suffix_length_le h (List.suffix_append _ _) (by simp [arpaSuffix]; omega)
      rcases Nat.lt_or_ge ls.length 1 with h0 | h1
      · exact .inl (List.length_eq_zero_iff.mp (by omega))
      · right
        left
        have hone : [ofString "arpa"] <:+ arpaSuffix := List.suffix_cons _ _
        exact (List.suffix_of_suffix_length_le hsuf hone (by simpa using by omega)).eq_of_length
          (by simpa using by omega)
    · right
      right
      refine ⟨ls.length - 2, by omega, ?_⟩
      have hsuf : reverseLabels a (ls.length - 2) <:+ reverseLabels a 32 :=
        ⟨_, (reverseLabels_eq_append a (by omega) le_rfl).symm⟩
      refine (List.suffix_of_suffix_length_le h hsuf (by simp; omega)).eq_of_length ?_
      simp
      omega
  · rintro (rfl | rfl | ⟨k, hk, rfl⟩)
    · exact List.nil_suffix
    · exact (List.suffix_cons _ _).trans (List.suffix_append _ _)
    · exact ⟨_, (reverseLabels_eq_append a hk le_rfl).symm⟩

/-- Hex digits are ASCII. -/
lemma hexDigits_ascii (n : ℕ) (a : U128) : ∀ b ∈ hexDigits n a, b < 0x80 := by
  intro b hb
  obtain ⟨d, hd, rfl⟩ := List.mem_map.mp hb
  exact (hexDigit_ascii (lt_of_mem_digitsLE (by norm_num) (List.mem_reverse.mp hd))).2

end PanoptiDns
