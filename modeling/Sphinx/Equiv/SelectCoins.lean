import Mathlib.Data.List.Sort
import Sphinx.SelectCoins

/-!
# Coin selection is sound, and not complete

* `approximateBestSubset_best`: whatever the random bits, the flags of the best subset sum to its value, which
  reaches the target;
* `coinScan_inv`: what the loop over the coins has collected;
* `selectCoinsMinConf_sound`: the coins of a successful selection, and its change;
* `selectCoinsMinConf_complete_iff`: the denominated coins are never tried, since every path of the first round
  returns.
-/

namespace Sphinx

open SpendCoin (prevout)

variable {coin : SpendCoin}

/-! ### The subset search -/

/-- The sum of the values whose flag is set. -/
def selectedSum : List CAmount → List Bool → CAmount
  | value :: values, flag :: flags => (if flag then value else 0) + selectedSum values flags
  | _, _ => 0

theorem selectedSum_replicate_true (values : List CAmount) :
    selectedSum values (List.replicate values.length true) = values.sum := by
  induction values with
  | nil => rfl
  | cons value values ih =>
    rw [List.length_cons, List.replicate_succ, selectedSum, ih, if_pos rfl, List.sum_cons]

theorem selectedSum_replicate_false (values : List CAmount) :
    selectedSum values (List.replicate values.length false) = 0 := by
  induction values with
  | nil => rfl
  | cons value values ih =>
    rw [List.length_cons, List.replicate_succ, selectedSum, ih, if_neg Bool.false_ne_true, zero_add]

theorem selectedSum_set {values : List CAmount} {flags : List Bool} {i : Nat}
    (hlen : flags.length = values.length) (hi : i < values.length) (hflag : flags.getD i false = false) :
    selectedSum values (flags.set i true) = selectedSum values flags + values.getD i 0 := by
  induction values generalizing flags i with
  | nil => exact absurd hi (Nat.not_lt_zero i)
  | cons value values ih =>
    cases flags with
    | nil => cases hlen
    | cons flag flags =>
      cases i with
      | zero =>
        rw [List.getD_cons_zero] at hflag
        subst hflag
        rw [List.set_cons_zero, List.getD_cons_zero, selectedSum, selectedSum, if_pos rfl,
          if_neg Bool.false_ne_true]
        ring
      | succ i =>
        rw [List.getD_cons_succ] at hflag
        rw [List.length_cons, List.length_cons] at hlen
        rw [List.set_cons_succ, List.getD_cons_succ, selectedSum, selectedSum,
          ih (by omega) (by rw [List.length_cons] at hi; omega) hflag]
        ring

theorem set_false_of_getD {flags : List Bool} {i : Nat} (hflag : flags.getD i false = false) :
    flags.set i false = flags := by
  induction flags generalizing i with
  | nil => rfl
  | cons flag flags ih =>
    cases i with
    | zero =>
      rw [List.getD_cons_zero] at hflag
      rw [List.set_cons_zero, hflag]
    | succ i =>
      rw [List.getD_cons_succ] at hflag
      rw [List.set_cons_succ, ih hflag]

/-- Both bit vectors are in step with their sums, and the best one reaches the target. -/
structure SubsetSearch.Sound (vValue : List CAmount) (nTargetValue : CAmount) (s : SubsetSearch) : Prop where
  length_included : s.vfIncluded.length = vValue.length
  total : s.nTotal = selectedSum vValue s.vfIncluded
  length_best : s.vfBest.length = vValue.length
  best : s.nBest = selectedSum vValue s.vfBest
  le_best : nTargetValue ≤ s.nBest

section Search

variable {vValue : List CAmount} {nTargetValue : CAmount} {s : SubsetSearch} {i : Nat}

theorem SubsetSearch.Sound.include (h : s.Sound vValue nTargetValue) (hi : i < vValue.length)
    (hflag : s.vfIncluded.getD i false = false) : (s.include vValue nTargetValue i).Sound vValue nTargetValue := by
  have hset : selectedSum vValue (s.vfIncluded.set i true) = s.nTotal + vValue.getD i 0 := by
    rw [selectedSum_set h.length_included hi hflag, h.total]
  have hlen : (s.vfIncluded.set i true).length = vValue.length := by rw [List.length_set, h.length_included]
  unfold SubsetSearch.include
  dsimp only
  split_ifs with hreached hbetter
  · refine ⟨by rw [List.length_set, hlen], ?_, hlen, hset.symm, hreached⟩
    rw [List.set_set, set_false_of_getD hflag, ← h.total]
    ring
  · refine ⟨by rw [List.length_set, hlen], ?_, h.length_best, h.best, h.le_best⟩
    rw [List.set_set, set_false_of_getD hflag, ← h.total]
    ring
  · exact ⟨hlen, hset.symm, h.length_best, h.best, h.le_best⟩

theorem SubsetSearch.include_getD {j : Nat} (hij : i ≠ j) :
    (s.include vValue nTargetValue i).vfIncluded.getD j false = s.vfIncluded.getD j false := by
  have hset : ∀ (flags : List Bool) (b : Bool), (flags.set i b).getD j false = flags.getD j false := by
    intro flags b
    rw [List.getD_eq_getElem?_getD, List.getD_eq_getElem?_getD, List.getElem?_set_ne hij]
  unfold SubsetSearch.include
  dsimp only
  split_ifs
  · rw [hset, hset]
  · rw [hset, hset]
  · exact hset _ true

theorem SubsetSearch.Sound.firstPass (h : s.Sound vValue nTargetValue)
    (hfresh : s.vfIncluded = List.replicate vValue.length false) (insecureRand : Nat → Bool) :
    (subsetPass vValue nTargetValue (fun _ i => insecureRand i) s).Sound vValue nTargetValue := by
  have hrun : ∀ n ≤ vValue.length,
      ((List.range n).foldl (fun s i => if insecureRand i then s.include vValue nTargetValue i else s) s).Sound
        vValue nTargetValue ∧
      ∀ j, n ≤ j → ((List.range n).foldl (fun s i =>
        if insecureRand i then s.include vValue nTargetValue i else s) s).vfIncluded.getD j false = false := by
    intro n
    induction n with
    | zero =>
      refine fun _ => ⟨h, fun j _ => ?_⟩
      rw [List.range_zero, List.foldl_nil, hfresh, List.getD_eq_getElem?_getD, List.getElem?_replicate]
      split_ifs <;> rfl
    | succ n ih =>
      intro hn
      obtain ⟨hsound, hfalse⟩ := ih (by omega)
      rw [List.range_succ, List.foldl_append, List.foldl_cons, List.foldl_nil]
      split_ifs
      · refine ⟨hsound.include hn (hfalse n le_rfl), fun j hj => ?_⟩
        rw [SubsetSearch.include_getD (by omega)]
        exact hfalse j (by omega)
      · exact ⟨hsound, fun j hj => hfalse j (by omega)⟩
  exact (hrun _ le_rfl).1

theorem SubsetSearch.Sound.secondPass (h : s.Sound vValue nTargetValue) :
    (subsetPass vValue nTargetValue (fun vfIncluded i => !vfIncluded.getD i false) s).Sound vValue
      nTargetValue := by
  have hrun : ∀ l : List Nat, (∀ i ∈ l, i < vValue.length) → ∀ s' : SubsetSearch,
      s'.Sound vValue nTargetValue →
      (l.foldl (fun s i => if !s.vfIncluded.getD i false then s.include vValue nTargetValue i else s)
        s').Sound vValue nTargetValue := by
    intro l
    induction l with
    | nil => exact fun _ _ h => h
    | cons i l ih =>
      intro hl s' hs'
      obtain ⟨hi, hl⟩ := List.forall_mem_cons.mp hl
      rw [List.foldl_cons]
      split_ifs with hflag
      · exact ih hl _ (hs'.include hi (by simpa using hflag))
      · exact ih hl _ hs'
  exact hrun _ (fun i hi => List.mem_range.mp hi) s h

/-- The flags are in step with the sum, which reaches the target. -/
structure IsSubset (vValue : List CAmount) (nTargetValue : CAmount) (best : List Bool × CAmount) : Prop where
  length : best.1.length = vValue.length
  sum : best.2 = selectedSum vValue best.1
  le : nTargetValue ≤ best.2

theorem IsSubset.round {best : List Bool × CAmount} (h : IsSubset vValue nTargetValue best)
    (insecureRand : Nat → Bool) :
    IsSubset vValue nTargetValue (subsetRound vValue nTargetValue insecureRand best) := by
  have hstart : SubsetSearch.Sound vValue nTargetValue
      { vfIncluded := List.replicate vValue.length false, vfBest := best.1, nBest := best.2 } :=
    ⟨List.length_replicate, (selectedSum_replicate_false vValue).symm, h.length, h.sum, h.le⟩
  have hfirst := hstart.firstPass rfl insecureRand
  unfold subsetRound
  dsimp only
  split_ifs
  · exact ⟨hfirst.length_best, hfirst.best, hfirst.le_best⟩
  · exact ⟨hfirst.secondPass.length_best, hfirst.secondPass.best, hfirst.secondPass.le_best⟩

theorem IsSubset.loop (insecureRand : Nat → Nat → Bool) : ∀ (n nRep : Nat) {best : List Bool × CAmount},
    IsSubset vValue nTargetValue best →
    IsSubset vValue nTargetValue (subsetLoop vValue nTargetValue insecureRand n nRep best) := by
  intro n
  induction n with
  | zero => exact fun _ _ h => h
  | succ n ih =>
    intro nRep best h
    rw [subsetLoop]
    split_ifs
    · exact h
    · exact ih (nRep + 1) (h.round (insecureRand nRep))

theorem approximateBestSubset_best {nTotalLower : CAmount} (hsum : nTotalLower = vValue.sum)
    (hle : nTargetValue ≤ nTotalLower) (insecureRand : Nat → Nat → Bool) (iterations : Nat) :
    IsSubset vValue nTargetValue
      (approximateBestSubset vValue nTotalLower nTargetValue insecureRand iterations) :=
  IsSubset.loop insecureRand iterations 0
    ⟨List.length_replicate, by rw [hsum, selectedSum_replicate_true], hle⟩

end Search

theorem sum_flagged (vValue : List SpendCoin) (flags : List Bool) :
    ((flagged vValue flags).map SpendCoin.nValue).sum = selectedSum (vValue.map SpendCoin.nValue) flags := by
  induction vValue generalizing flags with
  | nil => rfl
  | cons coin vValue ih =>
    cases flags with
    | nil => rfl
    | cons flag flags =>
      have ih := ih flags
      unfold flagged at ih ⊢
      rw [List.zip_cons_cons, List.filter_cons, List.map_cons, selectedSum]
      cases flag with
      | true => rw [if_pos rfl, if_pos rfl, List.map_cons, List.map_cons, List.sum_cons, ih]
      | false => rw [if_neg Bool.false_ne_true, if_neg Bool.false_ne_true, ih, zero_add]

theorem flagged_sublist (vValue : List SpendCoin) (flags : List Bool) : (flagged vValue flags).Sublist vValue := by
  induction vValue generalizing flags with
  | nil => exact .slnil
  | cons coin vValue ih =>
    cases flags with
    | nil => exact List.nil_sublist _
    | cons flag flags =>
      have ih := ih flags
      unfold flagged at ih ⊢
      rw [List.zip_cons_cons, List.filter_cons]
      cases flag with
      | true => exact ih.cons_cons coin
      | false => exact ih.cons coin

/-! ### The loop over the coins -/

section Scan

variable {limits : CoinLimits} {nTargetValue : CAmount} {tryDenom : Nat}

/-- The coins that a round does not skip. -/
def considers (limits : CoinLimits) (tryDenom : Nat) (output : SpendCoin) : Bool :=
  limits.allows output && !(tryDenom = 0 && isDenominatedAmount output.nValue)

/-- The coins that go into `vValue`. -/
def isLower (limits : CoinLimits) (nTargetValue : CAmount) (tryDenom : Nat) (output : SpendCoin) : Bool :=
  considers limits tryDenom output && output.nValue < nTargetValue + cent

/-- What is known after the coins of `seen`. -/
structure CoinScanInv (limits : CoinLimits) (nTargetValue : CAmount) (tryDenom : Nat) (seen : List SpendCoin)
    (scan : CoinScan) : Prop where
  vValue : scan.vValue = seen.filter (isLower limits nTargetValue tryDenom)
  nTotalLower : scan.nTotalLower = (scan.vValue.map SpendCoin.nValue).sum
  ne_target : ∀ output ∈ seen, considers limits tryDenom output = true → output.nValue ≠ nTargetValue
  larger : ∀ coin, scan.coinLowestLarger = some coin →
    coin ∈ seen ∧ considers limits tryDenom coin = true ∧ nTargetValue + cent ≤ coin.nValue ∧
      coin.nValue < 2 ^ 63 - 1
  lowest : ∀ output ∈ seen, considers limits tryDenom output = true → nTargetValue + cent ≤ output.nValue →
    scan.lowestLarger ≤ output.nValue

theorem coinScanInv_nil : CoinScanInv limits nTargetValue tryDenom [] {} where
  vValue := rfl
  nTotalLower := rfl
  ne_target := List.forall_mem_nil _
  larger _ h := by cases h
  lowest := List.forall_mem_nil _

theorem CoinScan.lowestLarger_le {seen : List SpendCoin} {scan : CoinScan}
    (h : CoinScanInv limits nTargetValue tryDenom seen scan) : scan.lowestLarger ≤ 2 ^ 63 - 1 := by
  unfold CoinScan.lowestLarger
  cases hcoin : scan.coinLowestLarger with
  | none => exact le_rfl
  | some coin => exact (h.larger coin hcoin).2.2.2.le

theorem CoinScanInv.skip {seen : List SpendCoin} {scan : CoinScan} {output : SpendCoin}
    (h : CoinScanInv limits nTargetValue tryDenom seen scan)
    (hlower : isLower limits nTargetValue tryDenom output = false)
    (hne : considers limits tryDenom output = true → output.nValue ≠ nTargetValue)
    (hlowest : considers limits tryDenom output = true → nTargetValue + cent ≤ output.nValue →
      scan.lowestLarger ≤ output.nValue) :
    CoinScanInv limits nTargetValue tryDenom (seen ++ [output]) scan where
  vValue := by
    rw [List.filter_append, List.filter_cons_of_neg (by rw [hlower]; exact Bool.false_ne_true), List.filter_nil,
      List.append_nil, h.vValue]
  nTotalLower := h.nTotalLower
  ne_target := List.forall_mem_append.mpr ⟨h.ne_target, List.forall_mem_singleton.mpr hne⟩
  larger coin hcoin := by
    obtain ⟨hmem, hrest⟩ := h.larger coin hcoin
    exact ⟨List.mem_append_left _ hmem, hrest⟩
  lowest := List.forall_mem_append.mpr ⟨h.lowest, List.forall_mem_singleton.mpr hlowest⟩

/-- One coin: either it is the target, or it is put where it belongs. -/
theorem considerCoin_inv {seen : List SpendCoin} {scan : CoinScan} (output : SpendCoin)
    (h : CoinScanInv limits nTargetValue tryDenom seen scan) :
    (considers limits tryDenom output = true ∧ output.nValue = nTargetValue ∧
      considerCoin limits nTargetValue tryDenom scan output = .error (.ofCoins [output])) ∨
    ∃ scan', considerCoin limits nTargetValue tryDenom scan output = .ok scan' ∧
      CoinScanInv limits nTargetValue tryDenom (seen ++ [output]) scan' := by
  by_cases hconsiders : considers limits tryDenom output = true
  · have hand := hconsiders
    rw [considers, Bool.and_eq_true, Bool.not_eq_true'] at hand
    unfold considerCoin
    rw [hand.1, hand.2, Bool.not_true, if_neg Bool.false_ne_true, if_neg Bool.false_ne_true]
    by_cases htarget : output.nValue = nTargetValue
    · exact .inl ⟨hconsiders, htarget, if_pos htarget⟩
    right
    rw [if_neg htarget]
    by_cases hlt : output.nValue < nTargetValue + cent
    · have hlower : isLower limits nTargetValue tryDenom output = true := by
        rw [isLower, hconsiders, decide_eq_true hlt, Bool.and_self]
      rw [if_pos hlt]
      refine ⟨_, rfl, ?_, ?_, ?_, ?_, ?_⟩
      · rw [List.filter_append, List.filter_cons_of_pos hlower, List.filter_nil, h.vValue]
      · rw [List.map_append, List.sum_append, List.map_singleton, List.sum_singleton, h.nTotalLower]
      · exact List.forall_mem_append.mpr ⟨h.ne_target, List.forall_mem_singleton.mpr fun _ => htarget⟩
      · intro coin hcoin
        obtain ⟨hmem, hrest⟩ := h.larger coin hcoin
        exact ⟨List.mem_append_left _ hmem, hrest⟩
      · exact List.forall_mem_append.mpr
          ⟨h.lowest, List.forall_mem_singleton.mpr fun _ hle => absurd hle (not_le.mpr hlt)⟩
    rw [if_neg hlt]
    have hlower : isLower limits nTargetValue tryDenom output = false := by
      rw [isLower, decide_eq_false hlt, Bool.and_false]
    by_cases hlowest : output.nValue < scan.lowestLarger
    · rw [if_pos hlowest]
      -- the new coin becomes the smallest of the larger ones
      refine ⟨_, rfl, ?_, h.nTotalLower, ?_, ?_, ?_⟩
      · rw [List.filter_append, List.filter_cons_of_neg (by rw [hlower]; exact Bool.false_ne_true),
          List.filter_nil, List.append_nil, h.vValue]
      · exact List.forall_mem_append.mpr ⟨h.ne_target, List.forall_mem_singleton.mpr fun _ => htarget⟩
      · intro coin hcoin
        obtain rfl := Option.some.inj hcoin
        exact ⟨List.mem_append_right _ List.mem_cons_self, hconsiders, not_lt.mp hlt,
          hlowest.trans_le (CoinScan.lowestLarger_le h)⟩
      · exact List.forall_mem_append.mpr ⟨fun c hc hcon hle => hlowest.le.trans (h.lowest c hc hcon hle),
          List.forall_mem_singleton.mpr fun _ _ => le_rfl⟩
    · rw [if_neg hlowest]
      exact ⟨_, rfl, h.skip hlower (fun _ => htarget) fun _ _ => not_lt.mp hlowest⟩
  · right
    refine ⟨scan, ?_, h.skip ?_ (fun hc => absurd hc hconsiders) fun hc => absurd hc hconsiders⟩
    · unfold considerCoin
      rw [considers, Bool.and_eq_true, Bool.not_eq_true', not_and, Bool.not_eq_false] at hconsiders
      by_cases hallows : limits.allows output = true
      · rw [hallows, Bool.not_true, if_neg Bool.false_ne_true, if_pos (hconsiders hallows)]
      · rw [if_pos (by simpa using hallows)]
    · rw [isLower, (Bool.not_eq_true _).mp hconsiders, Bool.false_and]

theorem coinScan_inv : ∀ (vCoins : List SpendCoin) {seen : List SpendCoin} {scan : CoinScan},
    CoinScanInv limits nTargetValue tryDenom seen scan →
    (∃ output ∈ vCoins, considers limits tryDenom output = true ∧ output.nValue = nTargetValue ∧
      vCoins.foldlM (considerCoin limits nTargetValue tryDenom) scan = .error (.ofCoins [output])) ∨
    ∃ scan', vCoins.foldlM (considerCoin limits nTargetValue tryDenom) scan = .ok scan' ∧
      CoinScanInv limits nTargetValue tryDenom (seen ++ vCoins) scan' := by
  intro vCoins
  induction vCoins with
  | nil => exact fun {seen scan} h => .inr ⟨scan, rfl, by rwa [List.append_nil]⟩
  | cons output vCoins ih =>
    intro seen scan h
    rw [List.foldlM_cons]
    rcases considerCoin_inv output h with ⟨hcon, htarget, hrun⟩ | ⟨scan', hrun, hinv⟩
    · rw [hrun]
      exact .inl ⟨output, List.mem_cons_self, hcon, htarget, rfl⟩
    · rw [hrun]
      rcases ih hinv with ⟨c, hc, hrest⟩ | ⟨scan'', hrun', hinv'⟩
      · exact .inl ⟨c, List.mem_cons_of_mem _ hc, hrest⟩
      · exact .inr ⟨scan'', hrun', by rwa [List.append_assoc] at hinv'⟩

end Scan

/-! ### The selection -/

/-- A choice among the coins considered: it reaches the target, it is not more than the smallest coin that is
larger, and it leaves no change below a cent unless there is no other way. -/
structure GoodChoice (considered : List SpendCoin) (nTargetValue : CAmount) (chosen : List SpendCoin) : Prop where
  subperm : chosen.Subperm considered
  le_sum : nTargetValue ≤ (chosen.map SpendCoin.nValue).sum
  sum_le : ∀ coin ∈ considered, nTargetValue + cent ≤ coin.nValue →
    (chosen.map SpendCoin.nValue).sum ≤ coin.nValue
  change : (chosen.map SpendCoin.nValue).sum = nTargetValue ∨
    nTargetValue + cent ≤ (chosen.map SpendCoin.nValue).sum ∨
    ((∀ coin ∈ considered, coin.nValue < nTargetValue + cent) ∧
      (considered.map SpendCoin.nValue).sum < nTargetValue + cent)

theorem cent_pos : 0 < cent := by decide

section Select

variable {random : SelectRandom} {limits : CoinLimits} {nTargetValue : CAmount}
variable {considered chosen seen : List SpendCoin} {scan : CoinScan}

theorem GoodChoice.ofExact (hsub : chosen.Subperm considered)
    (hsum : (chosen.map SpendCoin.nValue).sum = nTargetValue) : GoodChoice considered nTargetValue chosen where
  subperm := hsub
  le_sum := hsum.ge
  sum_le _ _ hle := by
    have := cent_pos
    linarith
  change := .inl hsum

/-- The smallest of the larger coins. -/
theorem GoodChoice.ofLarger (hmem : coin ∈ considered) (hle : nTargetValue + cent ≤ coin.nValue)
    (hmin : ∀ c ∈ considered, nTargetValue + cent ≤ c.nValue → coin.nValue ≤ c.nValue) :
    GoodChoice considered nTargetValue [coin] where
  subperm := List.singleton_subperm_iff.mpr hmem
  le_sum := by
    have := cent_pos
    rw [List.map_singleton, List.sum_singleton]
    linarith
  sum_le := by
    rw [List.map_singleton, List.sum_singleton]
    exact hmin
  change := by
    rw [List.map_singleton, List.sum_singleton]
    exact .inr (.inl hle)

theorem GoodChoice.congr {considered' : List SpendCoin} (h : GoodChoice considered nTargetValue chosen)
    (hperm : considered.Perm considered') : GoodChoice considered' nTargetValue chosen where
  subperm := hperm.subperm_left.mp h.subperm
  le_sum := h.le_sum
  sum_le coin hcoin := h.sum_le coin (hperm.mem_iff.mpr hcoin)
  change := by
    refine h.change.imp_right (Or.imp_right fun ⟨hlt, hsum⟩ => ⟨fun c hc => ?_, ?_⟩)
    · exact hlt c (hperm.mem_iff.mpr hc)
    · rwa [← (hperm.map SpendCoin.nValue).sum_eq]

theorem isLower_sublist (seen : List SpendCoin) :
    (seen.filter (isLower limits nTargetValue 0)).Sublist (seen.filter (considers limits 0)) :=
  List.monotone_filter_right seen fun _ hlower => (Bool.and_eq_true_iff.mp hlower).1

/-- The best subset for the target, or the one for the target and a cent. -/
theorem exists_best {vValue : List CAmount} {nTotalLower : CAmount} (hsum : nTotalLower = vValue.sum)
    (hle : nTargetValue ≤ nTotalLower) (insecureRand : Nat → Nat → Nat → Bool) :
    ∃ best : List Bool × CAmount,
      (let best := approximateBestSubset vValue nTotalLower nTargetValue (insecureRand 0) 1000
      if best.2 ≠ nTargetValue ∧ nTargetValue + cent ≤ nTotalLower then
        approximateBestSubset vValue nTotalLower (nTargetValue + cent) (insecureRand 1) 1000
      else best) = best ∧ IsSubset vValue nTargetValue best ∧
      (best.2 = nTargetValue ∨ nTargetValue + cent ≤ best.2 ∨ nTotalLower < nTargetValue + cent) := by
  refine ⟨_, rfl, ?_⟩
  dsimp only
  have hpos := cent_pos
  have hfirst := approximateBestSubset_best hsum hle (insecureRand 0) 1000
  split_ifs with hagain
  · have hsecond := approximateBestSubset_best hsum hagain.2 (insecureRand 1) 1000
    exact ⟨⟨hsecond.length, hsecond.sum, by linarith [hsecond.le]⟩, .inr (.inl hsecond.le)⟩
  · refine ⟨hfirst, ?_⟩
    by_cases htarget : (approximateBestSubset vValue nTotalLower nTargetValue (insecureRand 0) 1000).2 = nTargetValue
    · exact .inl htarget
    · exact .inr (.inr (not_le.mp fun h => hagain ⟨htarget, h⟩))

/-- The result of a selection from `seen`: its coins reach the target, and they are a good choice if no value is
the one that `coinLowestLarger` uses for no coin. -/
def Chosen (seen : List SpendCoin) (limits : CoinLimits) (nTargetValue : CAmount) (result : SelectResult) : Prop :=
  ∃ chosen, result = .ofCoins chosen ∧ chosen.Subperm (seen.filter (considers limits 0)) ∧
    nTargetValue ≤ (chosen.map SpendCoin.nValue).sum ∧
    ((∀ coin ∈ seen, coin.nValue < 2 ^ 63 - 1) →
      GoodChoice (seen.filter (considers limits 0)) nTargetValue chosen)

theorem Chosen.ofGood {result : SelectResult} (hresult : result = .ofCoins chosen)
    (h : GoodChoice (seen.filter (considers limits 0)) nTargetValue chosen) :
    Chosen seen limits nTargetValue result :=
  ⟨chosen, hresult, h.subperm, h.le_sum, fun _ => h⟩

theorem Chosen.congr {seen' : List SpendCoin} {result : SelectResult} (h : Chosen seen limits nTargetValue result)
    (hperm : seen.Perm seen') : Chosen seen' limits nTargetValue result := by
  obtain ⟨chosen, hresult, hsub, hle, hgood⟩ := h
  exact ⟨chosen, hresult, (hperm.filter _).subperm_left.mp hsub, hle, fun hvalue =>
    (hgood fun c hc => hvalue c (hperm.mem_iff.mp hc)).congr (hperm.filter _)⟩

namespace CoinScanInv

section

variable (h : CoinScanInv limits nTargetValue 0 seen scan)

include h

theorem subperm :
    scan.vValue.Subperm (seen.filter (considers limits 0)) := by
  rw [h.vValue]
  exact (isLower_sublist seen).subperm

theorem le_of_some {c : SpendCoin}
    (hcoin : scan.coinLowestLarger = some coin) (hc : c ∈ seen.filter (considers limits 0))
    (hle : nTargetValue + cent ≤ c.nValue) : coin.nValue ≤ c.nValue := by
  obtain ⟨hseen, hcon⟩ := List.mem_filter.mp hc
  have hlowest := h.lowest c hseen hcon hle
  rwa [CoinScan.lowestLarger, hcoin] at hlowest

theorem goodChoice_of_some
    (hcoin : scan.coinLowestLarger = some coin) :
    GoodChoice (seen.filter (considers limits 0)) nTargetValue [coin] := by
  obtain ⟨hseen, hcon, hle, -⟩ := h.larger coin hcoin
  exact .ofLarger (List.mem_filter.mpr ⟨hseen, hcon⟩) hle fun _ hc hc' => h.le_of_some hcoin hc hc'

theorem lt_of_none (hcoin : scan.coinLowestLarger = none)
    (hvalue : ∀ c ∈ seen, c.nValue < 2 ^ 63 - 1) :
    ∀ c ∈ seen.filter (considers limits 0), c.nValue < nTargetValue + cent := by
  intro c hc
  obtain ⟨hseen, hcon⟩ := List.mem_filter.mp hc
  by_contra hle
  have hmax := h.lowest c hseen hcon (not_lt.mp hle)
  rw [CoinScan.lowestLarger, hcoin] at hmax
  exact absurd (hvalue c hseen) (not_lt.mpr hmax)

theorem filter_eq
    (hsmall : ∀ c ∈ seen.filter (considers limits 0), c.nValue < nTargetValue + cent) :
    seen.filter (considers limits 0) = scan.vValue := by
  rw [h.vValue]
  refine List.filter_congr fun c hc => ?_
  by_cases hcon : considers limits 0 c = true
  · rw [isLower, hcon, decide_eq_true (hsmall c (List.mem_filter.mpr ⟨hc, hcon⟩)), Bool.and_self]
  · rw [isLower, (Bool.not_eq_true _).mp hcon, Bool.false_and]

end

end CoinScanInv

theorem finishSelection_chosen (h : CoinScanInv limits nTargetValue 0 seen scan)
    (hok : (finishSelection random nTargetValue scan).fOk = true) :
    Chosen seen limits nTargetValue (finishSelection random nTargetValue scan) := by
  unfold finishSelection at hok ⊢
  by_cases heq : scan.nTotalLower = nTargetValue
  · rw [if_pos heq]
    exact .ofGood rfl (.ofExact h.subperm (by rw [← h.nTotalLower, heq]))
  rw [if_neg heq] at hok ⊢
  by_cases hlt : scan.nTotalLower < nTargetValue
  · rw [if_pos hlt] at hok ⊢
    cases hcoin : scan.coinLowestLarger with
    | none =>
      rw [hcoin] at hok
      cases hok
    | some coin => exact .ofGood rfl (h.goodChoice_of_some hcoin)
  rw [if_neg hlt]
  have hperm := random.sortValues_perm scan.vValue
  have htotal : scan.nTotalLower = ((random.sortValues scan.vValue).map SpendCoin.nValue).sum := by
    rw [h.nTotalLower, (hperm.map SpendCoin.nValue).sum_eq]
  obtain ⟨best, hbest, hsubset, hvalues⟩ := exists_best htotal (not_lt.mp hlt) random.insecureRand
  dsimp only at hbest ⊢
  rw [hbest]
  have hsum : ((flagged (random.sortValues scan.vValue) best.1).map SpendCoin.nValue).sum = best.2 := by
    rw [sum_flagged, hsubset.sum]
  have hsub : (flagged (random.sortValues scan.vValue) best.1).Subperm (seen.filter (considers limits 0)) :=
    (flagged_sublist _ _).subperm.trans (hperm.subperm.trans h.subperm)
  have hle : nTargetValue ≤ ((flagged (random.sortValues scan.vValue) best.1).map SpendCoin.nValue).sum := by
    rw [hsum]
    exact hsubset.le
  -- the smaller coins reach the target, and only a larger coin can replace their best subset
  cases hcoin : scan.coinLowestLarger with
  | none =>
    refine ⟨_, rfl, hsub, hle, fun hvalue => ?_⟩
    have hsmall := h.lt_of_none hcoin hvalue
    refine ⟨hsub, hle, fun c hc hlarge => absurd (hsmall c hc) (not_lt.mpr hlarge), ?_⟩
    rw [hsum, h.filter_eq hsmall, ← h.nTotalLower, ← h.filter_eq hsmall]
    exact hvalues.imp_right (Or.imp_right fun hcent => ⟨hsmall, hcent⟩)
  | some coin =>
    dsimp only
    split_ifs with hbigger
    · exact .ofGood rfl (h.goodChoice_of_some hcoin)
    · -- the subset is below the larger coin, and exact or a cent above the target
      rw [not_or, not_and, not_lt, not_le] at hbigger
      refine .ofGood rfl ⟨hsub, hle, fun c hc hlarge => ?_, ?_⟩
      · rw [hsum]
        exact hbigger.2.le.trans (h.le_of_some hcoin hc hlarge)
      · rw [hsum]
        by_cases htarget : best.2 = nTargetValue
        · exact .inl htarget
        · exact .inr (.inl (hbigger.1 htarget))

theorem denomsDown_perm (vCoins : List SpendCoin) : (denomsDown vCoins).Perm vCoins := by
  refine List.perm_append_comm.trans ?_
  have h := List.filter_append_perm (fun output : SpendCoin => isDenominatedAmount output.nValue) vCoins
  simpa only [Bool.decide_eq_true, Bool.not_eq_true, Bool.decide_eq_false] using h

theorem selectCoinsMinConf_run (random : SelectRandom) (limits : CoinLimits) (nTargetValue : CAmount)
    (vCoins : List SpendCoin) :
    (∃ output ∈ denomsDown (random.shuffle vCoins), considers limits 0 output = true ∧
      output.nValue = nTargetValue ∧
      selectCoinsMinConf random limits nTargetValue vCoins = .ofCoins [output]) ∨
    ∃ scan, CoinScanInv limits nTargetValue 0 (denomsDown (random.shuffle vCoins)) scan ∧
      selectCoinsMinConf random limits nTargetValue vCoins = finishSelection random nTargetValue scan := by
  unfold selectCoinsMinConf
  dsimp only
  rw [List.foldlM_cons, selectCoinsRound]
  rcases @coinScan_inv limits nTargetValue 0 (denomsDown (random.shuffle vCoins)) _ _ coinScanInv_nil with
    ⟨output, hmem, hcon, htarget, hrun⟩ | ⟨scan, hrun, hinv⟩
  · rw [hrun]
    exact .inl ⟨output, hmem, hcon, htarget, rfl⟩
  · rw [hrun]
    exact .inr ⟨scan, hinv, rfl⟩

def sampleRandom : SelectRandom where
  shuffle vCoins := vCoins
  shuffle_perm _ := .refl _
  sortValues vValue := vValue.insertionSort fun c c' => c'.nValue ≤ c.nValue
  sortValues_perm vValue := List.perm_insertionSort _ vValue
  sortValues_sorted vValue :=
    have : Std.Total fun c c' : SpendCoin => c'.nValue ≤ c.nValue := ⟨fun c c' => le_total c'.nValue c.nValue⟩
    have : IsTrans SpendCoin fun c c' => c'.nValue ≤ c.nValue := ⟨fun _ _ _ h h' => h'.trans h⟩
    List.pairwise_insertionSort _ vValue
  insecureRand _ _ _ := true

def sampleLimits : CoinLimits := ⟨100, 1, 10⟩

def sampleCoins : List SpendCoin :=
  [⟨⟨1, 0⟩, cent, 50, true, 5, true⟩, ⟨⟨2, 0⟩, 3 * cent, 50, false, 20, true⟩,
    ⟨⟨3, 1⟩, 2 * cent, 50, false, 20, true⟩, ⟨⟨4, 0⟩, 7 * cent, 50, false, 20, true⟩]

def denominatedCoins : List SpendCoin := [⟨⟨5, 0⟩, 10 * Sphinx.coin + 10000, 50, false, 20, true⟩]

theorem selectCoinsMinConf_chosen (random : SelectRandom) (limits : CoinLimits) (nTargetValue : CAmount)
    (vCoins : List SpendCoin) (hok : (selectCoinsMinConf random limits nTargetValue vCoins).fOk = true) :
    Chosen vCoins limits nTargetValue (selectCoinsMinConf random limits nTargetValue vCoins) := by
  have hperm : (denomsDown (random.shuffle vCoins)).Perm vCoins :=
    (denomsDown_perm _).trans (random.shuffle_perm vCoins)
  rcases selectCoinsMinConf_run random limits nTargetValue vCoins with
    ⟨output, hmem, hcon, htarget, hrun⟩ | ⟨scan, hinv, hrun⟩
  · refine .ofGood hrun (.ofExact ?_ ?_)
    · exact List.singleton_subperm_iff.mpr (List.mem_filter.mpr ⟨hperm.mem_iff.mp hmem, hcon⟩)
    · rw [List.map_singleton, List.sum_singleton, htarget]
  · rw [hrun] at hok ⊢
    exact (finishSelection_chosen hinv hok).congr hperm

theorem finishSelection_fOk (random : SelectRandom) (nTargetValue : CAmount) (scan : CoinScan) :
    (finishSelection random nTargetValue scan).fOk = false ↔
      scan.nTotalLower < nTargetValue ∧ scan.coinLowestLarger = none := by
  unfold finishSelection
  by_cases heq : scan.nTotalLower = nTargetValue
  · rw [if_pos heq]
    exact iff_of_false Bool.noConfusion fun h => h.1.ne heq
  rw [if_neg heq]
  by_cases hlt : scan.nTotalLower < nTargetValue
  · rw [if_pos hlt]
    cases scan.coinLowestLarger with
    | none => exact iff_of_true rfl ⟨hlt, rfl⟩
    | some coin => exact iff_of_false Bool.noConfusion fun h => Option.some_ne_none coin h.2
  rw [if_neg hlt]
  refine iff_of_false ?_ fun h => hlt h.1
  dsimp only
  cases scan.coinLowestLarger with
  | none => exact Bool.noConfusion
  | some coin =>
    dsimp only
    split_ifs <;> exact Bool.noConfusion

/-- No smaller coins for the target, and no larger one. -/
theorem selectCoinsMinConf_fails_iff (random : SelectRandom) (limits : CoinLimits) (nTargetValue : CAmount)
    (vCoins : List SpendCoin) :
    (selectCoinsMinConf random limits nTargetValue vCoins).fOk = false ↔
      (∀ coin ∈ vCoins, considers limits 0 coin = true → coin.nValue ≠ nTargetValue ∧
        ¬ (nTargetValue + cent ≤ coin.nValue ∧ coin.nValue < 2 ^ 63 - 1)) ∧
      ((vCoins.filter (isLower limits nTargetValue 0)).map SpendCoin.nValue).sum < nTargetValue := by
  have hperm : (denomsDown (random.shuffle vCoins)).Perm vCoins :=
    (denomsDown_perm _).trans (random.shuffle_perm vCoins)
  rcases selectCoinsMinConf_run random limits nTargetValue vCoins with
    ⟨output, hmem, hcon, htarget, hrun⟩ | ⟨scan, hinv, hrun⟩
  · rw [hrun]
    exact iff_of_false Bool.noConfusion fun h => (h.1 output (hperm.mem_iff.mp hmem) hcon).1 htarget
  · rw [hrun, finishSelection_fOk, hinv.nTotalLower, hinv.vValue,
      ((hperm.filter (isLower limits nTargetValue 0)).map SpendCoin.nValue).sum_eq, and_comm]
    refine and_congr_left fun _ => ⟨fun hnone coin hcoin hcon => ?_, fun hall => ?_⟩
    · have hseen := hperm.mem_iff.mpr hcoin
      refine ⟨hinv.ne_target coin hseen hcon, fun hlarger => ?_⟩
      have hmax := hinv.lowest coin hseen hcon hlarger.1
      rw [CoinScan.lowestLarger, hnone] at hmax
      exact absurd hlarger.2 (not_lt.mpr hmax)
    · cases hcoin : scan.coinLowestLarger with
      | none => rfl
      | some coin =>
        obtain ⟨hseen, hcon, hlarger⟩ := hinv.larger coin hcoin
        exact absurd hlarger (hall coin (hperm.mem_iff.mp hseen) hcon).2

/-- One denominated coin of ten, and a target of five. -/
theorem selectCoinsMinConf_denominated :
    (selectCoinsMinConf sampleRandom sampleLimits (5 * Sphinx.coin) denominatedCoins).fOk = false ∧
      ¬ ((denominatedCoins.filter sampleLimits.allows).map SpendCoin.nValue).sum < 5 * Sphinx.coin := by
  decide

/-- **When a failure means that the coins do not suffice.** -/
theorem selectCoinsMinConf_complete_iff (random : SelectRandom) (limits : CoinLimits) (nTargetValue : CAmount)
    (vCoins : List SpendCoin) :
    ((selectCoinsMinConf random limits nTargetValue vCoins).fOk = false →
      ((vCoins.filter limits.allows).map SpendCoin.nValue).sum < nTargetValue) ↔
    ((∃ coin ∈ vCoins, considers limits 0 coin = true ∧ (coin.nValue = nTargetValue ∨
        (nTargetValue + cent ≤ coin.nValue ∧ coin.nValue < 2 ^ 63 - 1))) ∨
      nTargetValue ≤ ((vCoins.filter (isLower limits nTargetValue 0)).map SpendCoin.nValue).sum ∨
      ((vCoins.filter limits.allows).map SpendCoin.nValue).sum < nTargetValue) := by
  rw [selectCoinsMinConf_fails_iff]
  constructor
  · intro h
    by_cases hlarger : ∃ coin ∈ vCoins, considers limits 0 coin = true ∧ (coin.nValue = nTargetValue ∨
        (nTargetValue + cent ≤ coin.nValue ∧ coin.nValue < 2 ^ 63 - 1))
    · exact .inl hlarger
    by_cases hlower : nTargetValue ≤ ((vCoins.filter (isLower limits nTargetValue 0)).map SpendCoin.nValue).sum
    · exact .inr (.inl hlower)
    refine .inr (.inr (h ⟨fun c hc hcon => ?_, not_le.mp hlower⟩))
    exact not_or.mp fun hvalue => hlarger ⟨c, hc, hcon, hvalue⟩
  · rintro (⟨coin, hcoin, hcon, hvalue⟩ | hlower | hsum) ⟨hnone, hlt⟩
    · exact absurd hvalue (not_or.mpr (hnone coin hcoin hcon))
    · exact absurd hlt (not_lt.mpr hlower)
    · exact hsum

end Select

/-! ### The coins of a wallet -/

namespace CWallet

variable {env : Env} {ctx : CreditCtx} {w : CWallet}

theorem availableCoins_nodup (request : CoinRequest) :
    ((w.availableCoins env ctx request).map fun out => (⟨out.hash, out.i⟩ : COutPoint)).Nodup := by
  rw [availableCoins, List.map_flatMap, List.nodup_flatMap]
  -- coins of two transactions differ in the hash, those of one in the index
  have hhash : ∀ (hash : Uint256) (pcoin : CWalletTx) (o : COutPoint),
      o ∈ (w.coinsOf env ctx request hash pcoin).map (fun out => (⟨out.hash, out.i⟩ : COutPoint)) →
      o.hash = hash := by
    intro hash pcoin o ho
    unfold coinsOf at ho
    split_ifs at ho
    · cases ho
    · rw [List.map_map, List.mem_map] at ho
      obtain ⟨e, -, rfl⟩ := ho
      rfl
  constructor
  · intro e _
    unfold coinsOf
    split_ifs
    · exact List.nodup_nil
    · rw [List.map_map]
      have hidx : (e.2.tx.vout.zipIdx.map Prod.snd).Nodup := by
        rw [List.zipIdx_map_snd]
        exact List.nodup_range'
      have hsub := (List.filter_sublist (p := fun a => w.offersOutput ctx request e.1 e.2 a.1 a.2)
        (l := e.2.tx.vout.zipIdx)).map Prod.snd
      have hn := (hidx.sublist hsub).map (f := fun n => (⟨e.1, n⟩ : COutPoint)) fun n n' h =>
        congrArg COutPoint.n h
      rwa [List.map_map] at hn
  · refine (List.pairwise_map.mp w.mapWallet.nodupKeys).imp ?_
    intro e e' hne o ho ho'
    exact hne ((hhash _ _ o ho).symm.trans (hhash _ _ o ho'))

theorem output_of_availableCoins {request : CoinRequest} {out : COutput}
    (h : out ∈ w.availableCoins env ctx request) : (w.output ⟨out.hash, out.i⟩).isSome = true := by
  rw [availableCoins, List.mem_flatMap] at h
  obtain ⟨e, he, hout⟩ := h
  unfold coinsOf at hout
  split_ifs at hout
  · cases hout
  · obtain ⟨a, ha, rfl⟩ := List.mem_map.mp hout
    have hidx := List.mem_zipIdx_iff_getElem?.mp (List.mem_of_mem_filter ha)
    have hlookup : w.mapWallet.lookup e.1 = some e.2 := AList.mem_lookup_iff.mpr he
    rw [output, hlookup, Option.bind_some, hidx]
    rfl

/-- What the loop adds for one denomination. -/
theorem denominationLoop_append (f : List SpendCoin → SpendCoin → Bool) (v : CAmount) (vCoins : List SpendCoin) :
    ∀ chosen : List SpendCoin, ∃ added : List SpendCoin, added.Sublist vCoins ∧
      (∀ out ∈ added, out.nValue = v) ∧
      vCoins.foldl (fun chosen out => if out.nValue = v ∧ f chosen out then chosen ++ [out] else chosen) chosen =
        chosen ++ added := by
  induction vCoins with
  | nil => exact fun chosen => ⟨[], .slnil, List.forall_mem_nil _, (List.append_nil _).symm⟩
  | cons out vCoins ih =>
    intro chosen
    rw [List.foldl_cons]
    split_ifs with hout
    · obtain ⟨added, hsub, hvalue, hrun⟩ := ih (chosen ++ [out])
      exact ⟨out :: added, hsub.cons_cons out, List.forall_mem_cons.mpr ⟨hout.1, hvalue⟩,
        by rw [hrun, List.append_assoc, List.singleton_append]⟩
    · obtain ⟨added, hsub, hvalue, hrun⟩ := ih chosen
      exact ⟨added, hsub.cons out, hvalue, hrun⟩

/-- No coin is chosen twice, since its value is one of the denominations. -/
theorem selectDenominated_nodup (nTargetValue : CAmount) {vCoins : List SpendCoin} (hnodup : vCoins.Nodup) :
    (w.selectDenominated env ctx nTargetValue vCoins).Nodup ∧
      w.selectDenominated env ctx nTargetValue vCoins ⊆ vCoins := by
  -- the values of the rounds before are `done`, so no coin comes up twice
  have hrun : ∀ (denoms done : List CAmount) (chosen : List SpendCoin), (done ++ denoms).Nodup →
      chosen.Nodup → chosen ⊆ vCoins → (∀ out ∈ chosen, out.nValue ∈ done) →
      ∃ chosen' : List SpendCoin, denoms.foldl (fun chosen v => vCoins.foldl (fun chosen out =>
        if out.nValue = v ∧ (chosen.map SpendCoin.nValue).sum + out.nValue < nTargetValue + coin / 10 + 100 ∧
          w.isAnonymized env ctx out then chosen ++ [out] else chosen) chosen) chosen = chosen' ∧
        chosen'.Nodup ∧ chosen' ⊆ vCoins := by
    intro denoms
    induction denoms with
    | nil => exact fun done chosen _ hchosen hsub _ => ⟨chosen, rfl, hchosen, hsub⟩
    | cons v denoms ih =>
      intro done chosen hdenoms hchosen hsub hdone
      obtain ⟨added, hadded, hvalue, hloop⟩ := denominationLoop_append (fun chosen out =>
        (chosen.map SpendCoin.nValue).sum + out.nValue < nTargetValue + coin / 10 + 100 ∧
          w.isAnonymized env ctx out) v vCoins chosen
      simp only [decide_eq_true_eq] at hloop
      rw [List.foldl_cons, hloop]
      have hv : v ∉ done := by
        intro hmem
        exact (List.nodup_append.mp hdenoms).2.2 v hmem v List.mem_cons_self rfl
      refine ih (done ++ [v]) _ (by rwa [List.append_assoc]) ?_ ?_ ?_
      · refine List.nodup_append.mpr ⟨hchosen, hnodup.sublist hadded, fun c hc c' hc' heq => hv ?_⟩
        subst heq
        rw [← hvalue c hc']
        exact hdone c hc
      · exact List.append_subset.mpr ⟨hsub, hadded.subset⟩
      · refine List.forall_mem_append.mpr ⟨fun c hc => List.mem_append_left _ (hdone c hc), fun c hc => ?_⟩
        exact List.mem_append_right _ (List.mem_singleton.mpr (hvalue c hc))
  obtain ⟨chosen', hfold, hrest⟩ := hrun stashedSendDenominations [] [] (by decide) List.nodup_nil
    (List.nil_subset _) (List.forall_mem_nil _)
  unfold selectDenominated
  rw [hfold]
  exact hrest

/-- The coins that a selection returns: outputs of the wallet, each once, whose values are `nValueRet`. -/
structure Selected (w : CWallet) (nTargetValue : CAmount) (result : SelectResult) : Prop where
  nodup : result.setCoinsRet.Nodup
  own : ∀ o ∈ result.setCoinsRet, (w.output o).isSome = true
  sum : result.nValueRet = (result.setCoinsRet.map w.coinValue).sum
  le : nTargetValue ≤ result.nValueRet

theorem selectCoins_selected {nTargetValue : CAmount} {request : SelectRequest} {random : Nat → SelectRandom}
    (hok : (w.selectCoins env ctx nTargetValue request random).fOk = true) :
    w.Selected nTargetValue (w.selectCoins env ctx nTargetValue request random) := by
  set vCoins := (w.availableCoins env ctx
    { selected := request.coinControl.map CCoinControl.setSelected
      coinType := request.coinType
      useIX := request.useIX }).map (w.spendCoin env ctx) with hvCoins
  have hprevouts : (vCoins.map prevout).Nodup := by
    rw [hvCoins, List.map_map]
    exact availableCoins_nodup _
  have hown : ∀ out ∈ vCoins, out.nValue = w.coinValue out.prevout ∧ (w.output out.prevout).isSome = true := by
    intro out hout
    obtain ⟨a, ha, rfl⟩ := List.mem_map.mp hout
    exact ⟨rfl, output_of_availableCoins ha⟩
  -- any choice of coins of the list, each once, is the wallet's
  have hselected : ∀ (chosen : List SpendCoin) (fOk : Bool), chosen.Nodup → chosen ⊆ vCoins →
      nTargetValue ≤ (chosen.map SpendCoin.nValue).sum →
      w.Selected nTargetValue { SelectResult.ofCoins chosen with fOk := fOk } := by
    intro chosen fOk hchosen hsub hle
    have hinj : (chosen.map prevout).Nodup :=
      hchosen.map_on fun c hc c' hc' => List.inj_on_of_nodup_map hprevouts (hsub hc) (hsub hc')
    refine ⟨?_, ?_, ?_, hle⟩
    · exact List.nodup_dedup _
    · intro o ho
      obtain ⟨c, hc, rfl⟩ := List.mem_map.mp (List.mem_dedup.mp ho)
      exact (hown c (hsub hc)).2
    · rw [SelectResult.ofCoins]
      dsimp only
      rw [hinj.dedup, List.map_map]
      exact congrArg List.sum (List.map_congr_left fun c hc => (hown c (hsub hc)).1)
  have hminConf : ∀ (random : SelectRandom) (limits : CoinLimits),
      (selectCoinsMinConf random limits nTargetValue vCoins).fOk = true →
      w.Selected nTargetValue (selectCoinsMinConf random limits nTargetValue vCoins) := by
    intro random limits hok
    obtain ⟨chosen, hresult, hsub, hle, -⟩ := selectCoinsMinConf_chosen random limits nTargetValue vCoins hok
    obtain ⟨l, hl, hsublist⟩ := hsub
    have hnodup := (hprevouts.of_map).sublist (hsublist.trans List.filter_sublist)
    rw [hresult]
    exact hselected chosen true (hl.nodup_iff.mp hnodup)
      (fun c hc => List.mem_of_mem_filter (hsublist.subset (hl.mem_iff.mpr hc))) hle
  unfold selectCoins at hok ⊢
  dsimp only at hok ⊢
  rw [← hvCoins] at hok ⊢
  split_ifs at hok ⊢ with hcontrol hdenominated hfirst hsecond
  · exact hselected _ _ (hprevouts.of_map.filter _) List.filter_sublist.subset (of_decide_eq_true hok)
  · obtain ⟨hnodup, hsub⟩ := @selectDenominated_nodup env ctx w nTargetValue _ hprevouts.of_map
    exact hselected _ _ hnodup hsub (of_decide_eq_true hok)
  · exact hminConf _ _ hfirst
  · exact hminConf _ _ hsecond
  · exact hminConf _ _ hok

end CWallet

end Sphinx
