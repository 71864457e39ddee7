import Sphinx.AddrMan
import Sphinx.MasternodeMan

/-!
# Which masternodes `FindRandomNotInVec` can return

The number of masternodes to choose from is taken to be the number of enabled ones less the size of the
vector, and the loop stops one masternode early: of `c` eligible masternodes and a difference `d` the first
`max 1 (d - 1)` are chosen, if there are as many.
-/

namespace Sphinx

/-! ### `int` -/

theorem toInt32_of_mem {x : Int} (h : -2 ^ 31 ≤ x) (hx : x < 2 ^ 31) : toInt32 x = x := by
  unfold toInt32
  omega

theorem le_toInt32 (x : Int) : -2 ^ 31 ≤ toInt32 x := by
  unfold toInt32
  omega

theorem toInt32_lt (x : Int) : toInt32 x < 2 ^ 31 := by
  unfold toInt32
  omega

theorem toNat_ofInt (x : Int) : ((UInt64.ofInt x).toNat : Int) = x % 2 ^ 64 := by
  have hlt : x % 2 ^ 64 < 2 ^ 64 := Int.emod_lt_of_pos _ (by decide)
  have hnonneg : 0 ≤ x % 2 ^ 64 := Int.emod_nonneg _ (by decide)
  rw [UInt64.ofInt, UInt64.toNat_ofNat', Nat.mod_eq_of_lt (by omega)]
  omega

theorem toInt32_toNat_ofInt (x : Int) : toInt32 (UInt64.ofInt x).toNat = toInt32 x := by
  rw [toNat_ofInt]
  unfold toInt32
  omega

/-! ### The random value -/

namespace Random

theorem exists_getRand_iff {nMax r : UInt64} :
    (∃ draws, getRand nMax draws = some r) ↔ r.toNat < max 1 nMax.toNat := by
  by_cases hzero : nMax = 0
  · subst hzero
    have hr : some 0 = some r ↔ r.toNat < 1 := by
      rw [Option.some.injEq, Nat.lt_one_iff, eq_comm, ← UInt64.toNat_inj]
      rfl
    simpa [getRand] using hr
  have hpos : 0 < nMax.toNat := by
    rw [Nat.pos_iff_ne_zero]
    exact fun h => hzero (UInt64.toNat_inj.mp h)
  rw [max_eq_right (by omega)]
  simp only [getRand, hzero, if_false, Option.map_eq_some_iff]
  constructor
  · rintro ⟨draws, nRand, -, rfl⟩
    rw [UInt64.toNat_mod]
    exact Nat.mod_lt _ hpos
  · intro hr
    -- `nMax` is a possible range, so `r` itself can be drawn
    have hrange : nMax.toNat ≤ (UInt64.ofInt (-1) / nMax * nMax).toNat := by
      have hmax : (UInt64.ofInt (-1)).toNat = 2 ^ 64 - 1 := by decide
      have hdiv : 1 ≤ (2 ^ 64 - 1) / nMax.toNat :=
        (Nat.one_le_div_iff hpos).mpr (by have := nMax.toNat_lt; omega)
      have hmul : (2 ^ 64 - 1) / nMax.toNat * nMax.toNat ≤ 2 ^ 64 - 1 := Nat.div_mul_le_self _ _
      rw [UInt64.toNat_mul, UInt64.toNat_div, hmax, Nat.mod_eq_of_lt (by omega)]
      exact Nat.le_mul_of_pos_left _ hdiv
    refine ⟨[r], r, ?_, ?_⟩
    · have hlt : r < UInt64.ofInt (-1) / nMax * nMax := UInt64.lt_iff_toNat_lt.mpr (by omega)
      simpa using hlt
    · exact UInt64.toNat_inj.mp (by rw [UInt64.toNat_mod, Nat.mod_eq_of_lt hr])

theorem getRandInt_mem {nMax rand : Int} {draws : List UInt64} (h : getRandInt nMax draws = some rand) :
    -2 ^ 31 ≤ rand ∧ rand < 2 ^ 31 := by
  obtain ⟨nRand, -, rfl⟩ := Option.map_eq_some_iff.mp h
  exact ⟨le_toInt32 _, toInt32_lt _⟩

/-- How many masternodes the loop can reach for the argument `nMax` of `GetRandInt`. -/
def reach (nMax : Int) : Nat := if nMax < 0 then 2 ^ 31 else max 1 (nMax - 1).toNat

/-- The loop returns the candidate at the position `(toInt32 (rand - 1)).toNat`; these are the positions
below `reach`. -/
theorem exists_getRandInt_iff {nMax : Int} (hlow : -2 ^ 31 ≤ nMax) (hhigh : nMax < 2 ^ 31) {j : Nat} :
    (∃ draws rand, getRandInt nMax draws = some rand ∧ (toInt32 (rand - 1)).toNat = j) ↔
      j < reach nMax := by
  have hdraw : (∃ draws rand, getRandInt nMax draws = some rand ∧ (toInt32 (rand - 1)).toNat = j) ↔
      ∃ r : Nat, r < max 1 (nMax % 2 ^ 64).toNat ∧ (toInt32 (toInt32 r - 1)).toNat = j := by
    simp only [getRandInt, Option.map_eq_some_iff]
    have hmax : (UInt64.ofInt nMax).toNat = (nMax % 2 ^ 64).toNat := by
      have := toNat_ofInt nMax
      omega
    constructor
    · rintro ⟨draws, rand, ⟨nRand, hrand, rfl⟩, hj⟩
      exact ⟨nRand.toNat, hmax ▸ exists_getRand_iff.mp ⟨draws, hrand⟩, hj⟩
    · rintro ⟨r, hr, hj⟩
      have hlt : r < 2 ^ 64 := by
        have := (UInt64.ofInt nMax).toNat_lt
        omega
      have hto : (UInt64.ofNat r).toNat = r := by
        rw [UInt64.toNat_ofNat', Nat.mod_eq_of_lt hlt]
      have hbelow : (UInt64.ofNat r).toNat < max 1 (UInt64.ofInt nMax).toNat := by
        rw [hto, hmax]
        exact hr
      obtain ⟨draws, hrand⟩ := exists_getRand_iff.mpr hbelow
      exact ⟨draws, toInt32 r, ⟨_, hrand, by rw [hto]⟩, hj⟩
  rw [hdraw]
  unfold reach toInt32
  constructor
  · rintro ⟨r, hr, hj⟩
    split_ifs <;> omega
  · intro hj
    split_ifs at hj with hneg
    · -- all values of an `int` are possible, and the least one wraps around
      refine ⟨if j = 2 ^ 31 - 1 then 2 ^ 31 else j + 1, ?_, ?_⟩ <;> split_ifs <;> omega
    · refine ⟨if nMax ≤ 1 then 0 else j + 1, ?_, ?_⟩ <;> split_ifs <;> omega

end Random

theorem forall_getElem?_lt_iff {α : Type} {l : List α} (hnodup : l.Nodup) {n : Nat} (hn : 0 < n) :
    ((∀ j < n, (l[j]? = none ↔ l = [])) ∧ ∀ a ∈ l, ∃ j < n, l[j]? = some a) ↔
      l = [] ∨ l.length = n := by
  constructor
  · rintro ⟨hnull, hall⟩
    by_cases hl : l = []
    · exact .inl hl
    refine .inr (le_antisymm (Nat.not_lt.mp fun hlt => ?_) (Nat.not_lt.mp fun hlt => ?_))
    · -- the entry at `n` stands nowhere else
      obtain ⟨j, hj, hget⟩ := hall l[n] (List.getElem_mem hlt)
      obtain ⟨hlen, heq⟩ := List.getElem?_eq_some_iff.mp hget
      have := (hnodup.getElem_inj_iff).mp heq
      omega
    · exact hl ((hnull l.length hlt).mp (List.getElem?_eq_none le_rfl))
  · rintro (rfl | rfl)
    · simp
    refine ⟨fun j hj => ?_, fun a ha => ?_⟩
    · rw [List.getElem?_eq_none_iff, ← List.length_eq_zero_iff]
      omega
    · obtain ⟨j, hj, rfl⟩ := List.getElem_of_mem ha
      exact ⟨j, hj, List.getElem?_eq_getElem hj⟩

namespace CMasternodeMan

/-! ### The count and the loop -/

/-- The masternode can be chosen. -/
def candidate (protocolVersion : Int) (vecToExclude : List CTxIn) (mn : MasternodeEntry) : Bool :=
  enabledAbove protocolVersion mn && !excludedBy vecToExclude mn

theorem findRandomLoop_eq (protocolVersion : Int) (vecToExclude : List CTxIn) (mns : List MasternodeEntry)
    {rand : Int} (hlow : -2 ^ 31 ≤ rand) (hhigh : rand < 2 ^ 31) (it : Nat) :
    findRandomLoop protocolVersion vecToExclude rand it mns =
      (mns.findIdxs (candidate protocolVersion vecToExclude) it)[(toInt32 (rand - 1)).toNat]? := by
  induction mns generalizing rand it with
  | nil => simp [findRandomLoop]
  | cons mn mns ih =>
    rw [findRandomLoop, List.findIdxs_cons]
    have hcandidate : candidate protocolVersion vecToExclude mn =
        (!(mn.protocolVersion < protocolVersion || !mn.isEnabled) && !excludedBy vecToExclude mn) := rfl
    by_cases hbelow : (mn.protocolVersion < protocolVersion || !mn.isEnabled) = true
    · rw [if_pos hbelow, hcandidate, hbelow, ih hlow hhigh]
      rfl
    by_cases hexcluded : excludedBy vecToExclude mn = true
    · rw [if_neg hbelow, if_pos hexcluded, hcandidate, hexcluded, ih hlow hhigh]
      simp
    rw [if_neg hbelow, if_neg hexcluded, hcandidate, Bool.eq_false_of_not_eq_true hbelow,
      Bool.eq_false_of_not_eq_true hexcluded]
    simp only [Bool.not_false, Bool.and_self, if_true]
    split
    · next hlast =>
      rw [show (toInt32 (rand - 1)).toNat = 0 by omega]
      rfl
    · next hmore =>
      rw [ih (le_toInt32 _) (toInt32_lt _)]
      have hnext : toInt32 (toInt32 (rand - 1) - 1) = toInt32 (rand - 1) - 1 :=
        toInt32_of_mem (by omega) (by have := toInt32_lt (rand - 1); omega)
      rw [hnext, show (toInt32 (rand - 1)).toNat = (toInt32 (rand - 1) - 1).toNat + 1 by omega,
        List.getElem?_cons_succ]

section

variable (fPayUpdatedNodes : Bool) (ctx : MasternodeCtx) (man : CMasternodeMan) (vecToExclude : List CTxIn)
  (protocolVersion : Int)

/-- The positions of the masternodes that can be chosen. -/
def eligible : List Nat :=
  (man.check ctx).vMasternodes.toList.findIdxs
    (candidate (resolveProtocol fPayUpdatedNodes protocolVersion) vecToExclude)

theorem nodup_eligible : (eligible fPayUpdatedNodes ctx man vecToExclude protocolVersion).Nodup :=
  List.nodup_findIdxs

@[simp] theorem resolveProtocol_resolveProtocol :
    resolveProtocol fPayUpdatedNodes (resolveProtocol fPayUpdatedNodes protocolVersion) =
      resolveProtocol fPayUpdatedNodes protocolVersion := by
  unfold resolveProtocol getMinMasternodePaymentsProto minMasternodePaymentProtoVersion1
    minMasternodePaymentProtoVersion2
  split_ifs <;> simp_all

/-- The number of enabled masternodes less the size of the vector. -/
def difference : Int :=
  (man.countEnabled fPayUpdatedNodes ctx protocolVersion).1 - vecToExclude.length

theorem countEnabled_resolveProtocol :
    man.countEnabled fPayUpdatedNodes ctx (resolveProtocol fPayUpdatedNodes protocolVersion) =
      man.countEnabled fPayUpdatedNodes ctx protocolVersion := by
  unfold countEnabled
  rw [resolveProtocol_resolveProtocol]

theorem exists_findRandomNotInVec_iff (r : Option Nat) :
    (∃ draws, (man.findRandomNotInVec fPayUpdatedNodes ctx vecToExclude protocolVersion draws).map Prod.fst
        = some r) ↔
      if difference fPayUpdatedNodes ctx man vecToExclude protocolVersion % 2 ^ 64 = 0 then r = none
      else ∃ j < Random.reach (toInt32 (difference fPayUpdatedNodes ctx man vecToExclude protocolVersion)),
        (eligible fPayUpdatedNodes ctx man vecToExclude protocolVersion)[j]? = r := by
  have hzero : UInt64.ofInt (difference fPayUpdatedNodes ctx man vecToExclude protocolVersion) < 1 ↔
      difference fPayUpdatedNodes ctx man vecToExclude protocolVersion % 2 ^ 64 = 0 := by
    have h := toNat_ofInt (difference fPayUpdatedNodes ctx man vecToExclude protocolVersion)
    rw [UInt64.lt_iff_toNat_lt]
    have hone : (1 : UInt64).toNat = 1 := rfl
    omega
  have hfind (draws : List UInt64) :
      (man.findRandomNotInVec fPayUpdatedNodes ctx vecToExclude protocolVersion draws).map Prod.fst =
        if difference fPayUpdatedNodes ctx man vecToExclude protocolVersion % 2 ^ 64 = 0 then some none
        else (Random.getRandInt (toInt32 (difference fPayUpdatedNodes ctx man vecToExclude protocolVersion)) draws).map
          fun rand => findRandomLoop (resolveProtocol fPayUpdatedNodes protocolVersion) vecToExclude rand 0
            (man.check ctx).vMasternodes.toList := by
    have hdifference : (man.countEnabled fPayUpdatedNodes ctx protocolVersion).1 - (vecToExclude.length : Int) =
        difference fPayUpdatedNodes ctx man vecToExclude protocolVersion := rfl
    simp only [findRandomNotInVec, countEnabled_resolveProtocol, hdifference, hzero, toInt32_toNat_ofInt]
    split_ifs
    · rfl
    · rw [Option.map_map]
      rfl
  simp only [hfind]
  split_ifs
  · simp [eq_comm]
  · simp only [← Random.exists_getRandInt_iff (le_toInt32 _) (toInt32_lt _), Option.map_eq_some_iff]
    constructor
    · rintro ⟨draws, rand, hrand, rfl⟩
      obtain ⟨hlow, hhigh⟩ := Random.getRandInt_mem hrand
      exact ⟨_, ⟨draws, rand, hrand, rfl⟩, (findRandomLoop_eq _ _ _ hlow hhigh 0).symm⟩
    · rintro ⟨j, ⟨draws, rand, hrand, rfl⟩, rfl⟩
      obtain ⟨hlow, hhigh⟩ := Random.getRandInt_mem hrand
      exact ⟨draws, rand, hrand, findRandomLoop_eq _ _ _ hlow hhigh 0⟩

/-- For every value that `GetRandInt` can return the function returns a masternode to choose from, and the
null pointer only if there is none; and it can return each of them. -/
structure PicksEligible : Prop where
  null_iff : ∀ draws r man', man.findRandomNotInVec fPayUpdatedNodes ctx vecToExclude protocolVersion draws =
    some (r, man') → (r = none ↔ eligible fPayUpdatedNodes ctx man vecToExclude protocolVersion = [])
  mem : ∀ draws i man', man.findRandomNotInVec fPayUpdatedNodes ctx vecToExclude protocolVersion draws =
    some (some i, man') → i ∈ eligible fPayUpdatedNodes ctx man vecToExclude protocolVersion
  exists_draws : ∀ i ∈ eligible fPayUpdatedNodes ctx man vecToExclude protocolVersion, ∃ draws man',
    man.findRandomNotInVec fPayUpdatedNodes ctx vecToExclude protocolVersion draws = some (some i, man')

variable {fPayUpdatedNodes ctx man vecToExclude protocolVersion}

theorem picksEligible_iff_results :
    PicksEligible fPayUpdatedNodes ctx man vecToExclude protocolVersion ↔
      (∀ r, (∃ draws, (man.findRandomNotInVec fPayUpdatedNodes ctx vecToExclude protocolVersion draws).map
          Prod.fst = some r) →
        (r = none ↔ eligible fPayUpdatedNodes ctx man vecToExclude protocolVersion = []) ∧
          ∀ i, r = some i → i ∈ eligible fPayUpdatedNodes ctx man vecToExclude protocolVersion) ∧
      ∀ i ∈ eligible fPayUpdatedNodes ctx man vecToExclude protocolVersion, ∃ draws,
        (man.findRandomNotInVec fPayUpdatedNodes ctx vecToExclude protocolVersion draws).map Prod.fst =
          some (some i) := by
  constructor
  · intro h
    refine ⟨?_, fun i hi => ?_⟩
    · rintro r ⟨draws, hr⟩
      obtain ⟨⟨r, man'⟩, hfind, rfl⟩ := Option.map_eq_some_iff.mp hr
      refine ⟨h.null_iff draws r man' hfind, fun i hi => ?_⟩
      obtain rfl : r = some i := hi
      exact h.mem draws i man' hfind
    · obtain ⟨draws, man', hfind⟩ := h.exists_draws i hi
      exact ⟨draws, by rw [hfind]; rfl⟩
  · rintro ⟨hresults, hall⟩
    refine ⟨fun draws r man' hfind => ?_, fun draws i man' hfind => ?_, fun i hi => ?_⟩
    · exact (hresults r ⟨draws, by rw [hfind]; rfl⟩).1
    · exact (hresults (some i) ⟨draws, by rw [hfind]; rfl⟩).2 i rfl
    · obtain ⟨draws, hr⟩ := hall i hi
      obtain ⟨⟨r, man'⟩, hfind, hfst⟩ := Option.map_eq_some_iff.mp hr
      exact ⟨draws, man', hfind.trans (congrArg (fun x => some (x, man')) hfst)⟩

/-- The condition for `c` masternodes to choose from and a difference `d`.  Where `d` is an `int`, the
function keeps its promise if `c` is 0, if `c` is 1 and `d` is 1 or 2, and if `d` is `c + 1`. -/
def CountsAgree (c : Nat) (d : Int) : Prop :=
  c = 0 ∨ d % 2 ^ 64 ≠ 0 ∧ (c = 1 ∧ 0 ≤ toInt32 d ∧ toInt32 d ≤ 2 ∨ 2 ≤ c ∧ toInt32 d = c + 1 ∨
    c = 2 ^ 31 ∧ toInt32 d < 0)

/-- **Every eligible masternode can be picked, and no other**, exactly if the counts agree. -/
theorem picksEligible_iff : PicksEligible fPayUpdatedNodes ctx man vecToExclude protocolVersion ↔
    CountsAgree (eligible fPayUpdatedNodes ctx man vecToExclude protocolVersion).length
      (difference fPayUpdatedNodes ctx man vecToExclude protocolVersion) := by
  generalize hc' : (eligible fPayUpdatedNodes ctx man vecToExclude protocolVersion).length = c
  generalize hd : difference fPayUpdatedNodes ctx man vecToExclude protocolVersion = d
  unfold CountsAgree
  rw [picksEligible_iff_results]
  simp only [exists_findRandomNotInVec_iff]
  rw [hd]
  by_cases hzero : d % 2 ^ 64 = 0
  · simp only [hzero, if_true, ne_eq, not_true_eq_false, false_and, or_false]
    have hc : eligible fPayUpdatedNodes ctx man vecToExclude protocolVersion = [] ↔ c = 0 := by
      rw [← List.length_eq_zero_iff, hc']
    constructor
    · rintro ⟨hnone, -⟩
      exact hc.mp ((hnone none rfl).1.mp rfl)
    · intro h
      rw [hc.mpr h]
      simp
  · simp only [hzero, if_false, ne_eq, not_false_eq_true, true_and]
    have hreach : c = Random.reach (toInt32 d) ∨ c = 0 ↔ c = 0 ∨
        (c = 1 ∧ 0 ≤ toInt32 d ∧ toInt32 d ≤ 2 ∨ 2 ≤ c ∧ toInt32 d = c + 1 ∨
          c = 2 ^ 31 ∧ toInt32 d < 0) := by
      unfold Random.reach
      split_ifs <;> omega
    have hpos : 0 < Random.reach (toInt32 d) := by
      unfold Random.reach
      split_ifs <;> omega
    have hcover := forall_getElem?_lt_iff
      (nodup_eligible fPayUpdatedNodes ctx man vecToExclude protocolVersion) hpos
    rw [← hreach, or_comm, ← hc', List.length_eq_zero_iff, ← hcover]
    refine and_congr_left fun _ => ⟨fun h j hj => (h _ ⟨j, hj, rfl⟩).1, ?_⟩
    rintro h r ⟨j, hj, rfl⟩
    exact ⟨h j hj, fun i hi => List.mem_of_getElem? hi⟩

end

end CMasternodeMan

/-! ### Two masternodes, none excluded -/

def enabledMasternode (n : Nat) : MasternodeEntry :=
  { MasternodeEntry.new ⟨[10, 0, 0, 1], 9999⟩ ⟨⟨7, n⟩, [], uintMax⟩ [] [] 0 [] 61403 [] 0 0 with
    lastTimeSeen := 1000 }

def randomCtx : MasternodeCtx where
  nAdjustedTime := 1060
  nTime := 1060
  acceptableInputs _ := true
  getInputAge _ := 20
  nBestHeight := some 500

def enabledPair : CMasternodeMan where
  vMasternodes := ⟨[enabledMasternode 0, enabledMasternode 1], 2, le_rfl⟩

/-- The second masternode is never chosen. -/
theorem findRandomNotInVec_misses_last :
    ¬CMasternodeMan.PicksEligible false randomCtx enabledPair [] 61403 := by
  intro h
  obtain ⟨draws, man', hfind⟩ := h.exists_draws 1 (by decide)
  have hresult := (CMasternodeMan.exists_findRandomNotInVec_iff false randomCtx enabledPair [] 61403
    (some 1)).mp ⟨draws, by rw [hfind]; rfl⟩
  revert hresult
  decide

end Sphinx
