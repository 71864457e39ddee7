import Sphinx.Difficulty
import Sphinx.Equiv.Bignum

/-!
# Difficulty along a chain

`TargetChain` is a chain of index entries whose `nBits` are those that `getNextTargetRequired` asks
for.  Every target on it is positive and at most the limit of its kind, although each one is rounded
by the compact form of the one before (`TargetChain.inRange`).

The next target is a function of the last two blocks of the kind, the genesis block never counted
(`getNextTargetRequired_of_two`, `getNextTargetRequired_of_few`), and of these only through the last
target and the time between them.  It grows with that time, except where the code puts another value
in place: a negative time counts as the target spacing, and a target of zero becomes the limit.
-/

namespace Sphinx

open CBigNum

variable {k : Bool} {rest : List CBlockIndex} {nBits : Nat}

/-! ### The last blocks of a kind -/

/-- The blocks of the kind, newest first, without the genesis block. -/
def blocksOfKind (chain : List CBlockIndex) (fProofOfStake : Bool) : List CBlockIndex :=
  chain.dropLast.filter fun pindex => pindex.isProofOfStake = fProofOfStake

theorem blocksOfKind_cons_cons (pindex pprev : CBlockIndex) (rest : List CBlockIndex) (k : Bool) :
    blocksOfKind (pindex :: pprev :: rest) k =
      if pindex.isProofOfStake = k then pindex :: blocksOfKind (pprev :: rest) k
      else blocksOfKind (pprev :: rest) k := by
  unfold blocksOfKind
  rw [List.dropLast_cons_cons, List.filter_cons]
  simp only [decide_eq_true_eq]

theorem mem_of_mem_blocksOfKind {chain : List CBlockIndex} {pindex : CBlockIndex}
    (h : pindex ∈ blocksOfKind chain k) : pindex ∈ chain ∧ pindex.isProofOfStake = k := by
  rw [blocksOfKind, List.mem_filter] at h
  exact ⟨List.dropLast_subset _ h.1, by simpa using h.2⟩

theorem head_blocksOfKind {chain : List CBlockIndex} {last : CBlockIndex}
    (h : blocksOfKind chain k = last :: rest) :
    last ∈ chain ∧ last.isProofOfStake = k := by
  apply mem_of_mem_blocksOfKind
  rw [h]
  exact List.mem_cons_self

/-- `GetLastBlockIndex` stops at the last block of the kind, or else at the genesis block. -/
theorem getLastBlockIndex_cases (chain : List CBlockIndex) (k : Bool) :
    (blocksOfKind chain k = [] ∧ (getLastBlockIndex chain k).length ≤ 1) ∨
    ∃ pindex pprev rest, getLastBlockIndex chain k = pindex :: pprev :: rest ∧
      blocksOfKind chain k = pindex :: blocksOfKind (pprev :: rest) k := by
  induction chain with
  | nil => exact .inl ⟨rfl, by simp [getLastBlockIndex]⟩
  | cons pindex rest ih =>
    cases rest with
    | nil => exact .inl ⟨rfl, by simp [getLastBlockIndex]⟩
    | cons pprev rest =>
      rw [blocksOfKind_cons_cons]
      by_cases hk : pindex.isProofOfStake = k
      · refine .inr ⟨pindex, pprev, rest, ?_, by rw [if_pos hk]⟩
        rw [getLastBlockIndex, if_neg (not_not.mpr hk)]
      · rw [getLastBlockIndex, if_pos hk, if_neg hk]
        exact ih

theorem getNextTargetRequired_of_two {chain : List CBlockIndex} {last prev : CBlockIndex}
    (h : blocksOfKind chain k = last :: prev :: rest) :
    getNextTargetRequired chain k =
      retarget k last.nBits (last.getBlockTime - prev.getBlockTime) := by
  rcases getLastBlockIndex_cases chain k with ⟨hnil, -⟩ | ⟨pindex, pprev, tail, hlast, hkind⟩
  · rw [hnil] at h
    cases h
  · rw [hkind] at h
    obtain ⟨rfl, hrest⟩ := List.cons.inj h
    rcases getLastBlockIndex_cases (pprev :: tail) k with
      ⟨hnil, -⟩ | ⟨pindex', pprev', tail', hlast', hkind'⟩
    · rw [hnil] at hrest
      cases hrest
    · rw [hkind'] at hrest
      obtain ⟨rfl, -⟩ := List.cons.inj hrest
      simp only [getNextTargetRequired, hlast, hlast']

theorem getNextTargetRequired_of_few {chain : List CBlockIndex} (h : (blocksOfKind chain k).length ≤ 1) :
    getNextTargetRequired chain k = some (getCompact (targetLimit k)) := by
  rcases getLastBlockIndex_cases chain k with ⟨-, hshort⟩ | ⟨pindex, pprev, tail, hlast, hkind⟩
  · unfold getNextTargetRequired
    rcases hl : getLastBlockIndex chain k with _ | ⟨a, _ | ⟨b, l⟩⟩
    · rfl
    · rfl
    · rw [hl] at hshort
      simp at hshort
  · rw [hkind] at h
    rcases getLastBlockIndex_cases (pprev :: tail) k with
      ⟨-, hshort⟩ | ⟨pindex', pprev', tail', -, hkind'⟩
    · simp only [getNextTargetRequired, hlast]
      rcases hl : getLastBlockIndex (pprev :: tail) k with _ | ⟨a, _ | ⟨b, l⟩⟩
      · rfl
      · rfl
      · rw [hl] at hshort
        simp at hshort
    · rw [hkind'] at h
      simp at h

/-! ### One retarget -/

/-- A target in the range of its kind. -/
def InRange (fProofOfStake : Bool) (nBits : Nat) : Prop :=
  0 < setCompact nBits ∧ setCompact nBits ≤ targetLimit fProofOfStake

/-- The spacing that `GetNextTargetRequired` computes with. -/
def effectiveSpacing (nActualSpacing : Int) : Int :=
  if nActualSpacing < 0 then targetSpacing else nActualSpacing

theorem effectiveSpacing_nonneg (nActualSpacing : Int) : 0 ≤ effectiveSpacing nActualSpacing := by
  unfold effectiveSpacing targetSpacing
  split <;> omega

/-- The target before it is rounded, from the last one and the spacing. -/
def newTarget (fProofOfStake : Bool) (target spacing : Int) : Int :=
  let bnNew := target * (540 + 2 * spacing) / 660
  if bnNew ≤ 0 ∨ targetLimit fProofOfStake < bnNew then targetLimit fProofOfStake else bnNew

theorem targetLimit_pos (k : Bool) : 0 < targetLimit k := by
  cases k <;> decide

theorem targetLimit_lt (k : Bool) : targetLimit k < 2 ^ 240 := by
  cases k <;> decide

theorem newTarget_pos (k : Bool) (target spacing : Int) : 0 < newTarget k target spacing := by
  have hlimit := targetLimit_pos k
  simp only [newTarget]
  split <;> omega

theorem newTarget_le (k : Bool) (target spacing : Int) :
    newTarget k target spacing ≤ targetLimit k := by
  simp only [newTarget]
  split <;> omega

theorem newTarget_mono {target spacing spacing' : Int} (htarget : 0 < target) (hle : spacing ≤ spacing')
    (hzero : 660 ≤ target * (540 + 2 * spacing)) :
    newTarget k target spacing ≤ newTarget k target spacing' := by
  have hmul : target * (540 + 2 * spacing) ≤ target * (540 + 2 * spacing') :=
    Int.mul_le_mul_of_nonneg_left (by omega) (Int.le_of_lt htarget)
  simp only [newTarget]
  generalize target * (540 + 2 * spacing) = a at hmul hzero ⊢
  generalize target * (540 + 2 * spacing') = b at hmul ⊢
  split <;> split <;> omega

theorem retarget_eq (h : InRange k nBits) (nActualSpacing : Int) :
    retarget k nBits nActualSpacing =
      some (getCompact (newTarget k (setCompact nBits) (effectiveSpacing nActualSpacing))) := by
  have hspacing := effectiveSpacing_nonneg nActualSpacing
  have hnum : 0 ≤ setCompact nBits * (540 + 2 * effectiveSpacing nActualSpacing) :=
    Int.mul_nonneg (Int.le_of_lt h.1) (by omega)
  have hinterval : divide targetTimespan targetSpacing = some 10 := by decide
  have hfactor : ((10 : Int) - 1) * targetSpacing + effectiveSpacing nActualSpacing +
      effectiveSpacing nActualSpacing = 540 + 2 * effectiveSpacing nActualSpacing := by
    unfold targetSpacing
    omega
  have hdivisor : ((10 : Int) + 1) * targetSpacing = 660 := by decide
  have hfold : (if nActualSpacing < 0 then targetSpacing else nActualSpacing) =
      effectiveSpacing nActualSpacing := rfl
  unfold retarget
  simp only [hinterval, hfold, Option.bind_eq_bind, Option.bind_some, hfactor, hdivisor]
  rw [divide, if_neg (by decide), Int.tdiv_eq_ediv_of_nonneg hnum]
  rfl

/-- The compact form of a target up to the limit decodes to a target of the same size or less. -/
theorem setCompact_getCompact_target {target : Int} (hpos : 0 < target) (hle : target ≤ targetLimit k) :
    setCompact (getCompact target) = (truncate target.toNat : Nat) := by
  have hlt := targetLimit_lt k
  have hcast : ((target.toNat : Nat) : Int) = target := Int.toNat_of_nonneg (Int.le_of_lt hpos)
  have h := setCompact_getCompact_of_lt (n := target.toNat) (by omega) (by omega)
  rwa [hcast] at h

theorem inRange_getCompact {target : Int} (hpos : 0 < target) (hle : target ≤ targetLimit k) :
    InRange k (getCompact target) := by
  have hdown := truncate_le target.toNat
  have hup := truncate_pos (n := target.toNat) (by omega)
  rw [InRange, setCompact_getCompact_target hpos hle]
  omega

theorem retarget_inRange {nBits' : Nat} {nActualSpacing : Int} (h : InRange k nBits)
    (hnext : retarget k nBits nActualSpacing = some nBits') :
    InRange k nBits' := by
  rw [retarget_eq h, Option.some.injEq] at hnext
  rw [← hnext]
  exact inRange_getCompact (newTarget_pos k _ _) (newTarget_le k _ _)

theorem retarget_mono {nBits₁ nBits₂ : Nat} {s₁ s₂ : Int} (h : InRange k nBits)
    (hle : effectiveSpacing s₁ ≤ effectiveSpacing s₂)
    (hzero : 2 ≤ setCompact nBits ∨ targetSpacing ≤ effectiveSpacing s₁)
    (h₁ : retarget k nBits s₁ = some nBits₁) (h₂ : retarget k nBits s₂ = some nBits₂) :
    setCompact nBits₁ ≤ setCompact nBits₂ := by
  rw [retarget_eq h, Option.some.injEq] at h₁ h₂
  have hs := effectiveSpacing_nonneg s₁
  -- the numerator reaches the divisor, so the new target is at least one
  have hnum : 660 ≤ setCompact nBits * (540 + 2 * effectiveSpacing s₁) := by
    have hpos := h.1
    rw [targetSpacing] at hzero
    rcases hzero with h2 | h60
    · nlinarith
    · nlinarith
  have hmono := newTarget_mono (k := k) h.1 hle hnum
  have hpos₁ := newTarget_pos k (setCompact nBits) (effectiveSpacing s₁)
  rw [← h₁, ← h₂, setCompact_getCompact_target hpos₁ (newTarget_le k _ _),
    setCompact_getCompact_target (newTarget_pos k _ _) (newTarget_le k _ _)]
  have htrunc := truncate_mono (n := (newTarget k (setCompact nBits) (effectiveSpacing s₁)).toNat)
    (m := (newTarget k (setCompact nBits) (effectiveSpacing s₂)).toNat) (by omega) (by omega)
  exact Int.ofNat_le.mpr htrunc

theorem one_le_getBlockTrust (h : InRange k nBits) :
    1 ≤ getBlockTrust nBits := by
  obtain ⟨hpos, hle⟩ := h
  have hlimit := targetLimit_lt k
  unfold getBlockTrust
  simp only [if_neg (Int.not_le.mpr hpos)]
  rw [Int.tdiv_eq_ediv_of_nonneg (by decide)]
  have hlow : (1 : Int) ≤ 2 ^ 256 / (setCompact nBits + 1) := by
    rw [Int.le_ediv_iff_mul_le (by omega)]
    omega
  have hhigh : (2 : Int) ^ 256 / (setCompact nBits + 1) < 2 ^ 256 := by
    rw [Int.ediv_lt_iff_lt_mul (by omega)]
    omega
  generalize (2 : Int) ^ 256 / (setCompact nBits + 1) = trust at hlow hhigh
  have hcast : ((trust.toNat : Nat) : Int) = trust := Int.toNat_of_nonneg (by omega)
  have hone : 1 ≤ trust.toNat := by omega
  have hread := getuint256_eq_mod (n := trust.toNat) (by omega)
  rw [hcast, Nat.mod_eq_of_lt (by omega)] at hread
  rw [hread]
  exact hone

/-! ### Chains -/

/-- `nChainTrust` of the parent, zero for the genesis block. -/
def parentTrust (chain : List CBlockIndex) : Uint256 := (chain.head?.map (·.nChainTrust)).getD 0

/-- A chain, newest block first, on which `AcceptBlock` has checked every `nBits` and
`AddToBlockIndex` has summed up the trust. -/
inductive TargetChain : List CBlockIndex → Prop
  | nil : TargetChain []
  | cons {pindex : CBlockIndex} {chain : List CBlockIndex} : TargetChain chain →
      getNextTargetRequired chain pindex.isProofOfStake = some pindex.nBits →
      pindex.nChainTrust = (parentTrust chain + getBlockTrust pindex.nBits) % 2 ^ 256 →
      TargetChain (pindex :: chain)

namespace TargetChain

variable {chain : List CBlockIndex}

theorem inRange_next (h : ∀ pindex ∈ chain, InRange pindex.isProofOfStake pindex.nBits)
    (hnext : getNextTargetRequired chain k = some nBits) : InRange k nBits := by
  rcases hkind : blocksOfKind chain k with _ | ⟨last, _ | ⟨prev, rest⟩⟩
  · rw [getNextTargetRequired_of_few (by simp [hkind]), Option.some.injEq] at hnext
    rw [← hnext]
    exact inRange_getCompact (targetLimit_pos k) (Int.le_refl _)
  · rw [getNextTargetRequired_of_few (by simp [hkind]), Option.some.injEq] at hnext
    rw [← hnext]
    exact inRange_getCompact (targetLimit_pos k) (Int.le_refl _)
  · obtain ⟨hmem, rfl⟩ := head_blocksOfKind hkind
    rw [getNextTargetRequired_of_two hkind] at hnext
    exact retarget_inRange (h last hmem) hnext

theorem inRange (h : TargetChain chain) :
    ∀ pindex ∈ chain, InRange pindex.isProofOfStake pindex.nBits := by
  induction h with
  | nil => simp
  | @cons pindex chain _ hbits _ ih =>
    intro p hp
    rcases List.mem_cons.mp hp with rfl | hp
    · exact inRange_next ih hbits
    · exact ih p hp

theorem isSome_next (h : TargetChain chain) (k : Bool) : (getNextTargetRequired chain k).isSome := by
  rcases hkind : blocksOfKind chain k with _ | ⟨last, _ | ⟨prev, rest⟩⟩
  · rw [getNextTargetRequired_of_few (by simp [hkind])]
    rfl
  · rw [getNextTargetRequired_of_few (by simp [hkind])]
    rfl
  · obtain ⟨hmem, rfl⟩ := head_blocksOfKind hkind
    rw [getNextTargetRequired_of_two hkind, retarget_eq (h.inRange last hmem)]
    rfl

theorem of_suffix {chain' : List CBlockIndex} (h : TargetChain chain) (hs : chain' <:+ chain) :
    TargetChain chain' := by
  induction h with
  | nil =>
    rw [List.suffix_nil.mp hs]
    exact .nil
  | cons hc hbits htrust ih =>
    rcases List.suffix_cons_iff.mp hs with rfl | hs
    · exact .cons hc hbits htrust
    · exact ih hs

theorem parent_lt {child parent : CBlockIndex} (h : TargetChain (child :: parent :: rest))
    (hsum : parent.nChainTrust + getBlockTrust child.nBits < 2 ^ 256) :
    parent.nChainTrust < child.nChainTrust := by
  have hrange := h.inRange child (by simp)
  have htrust := one_le_getBlockTrust hrange
  cases h with
  | cons _ _ heq =>
    have hparent : parentTrust (parent :: rest) = parent.nChainTrust := rfl
    rw [heq, hparent, Nat.mod_eq_of_lt hsum]
    exact Nat.lt_add_of_pos_right htrust

end TargetChain

def nextEntry (chain : List CBlockIndex) (fProofOfStake : Bool) (nTime : Nat) : CBlockIndex :=
  let nBits := (getNextTargetRequired chain fProofOfStake).getD 0
  { hashBlock := chain.length
    nHeight := chain.length
    nFlags := if fProofOfStake then CBlockIndex.BLOCK_PROOF_OF_STAKE else 0
    nTime := nTime
    nBits := nBits
    nChainTrust := (parentTrust chain + getBlockTrust nBits) % 2 ^ 256 }

theorem TargetChain.nextEntry {chain : List CBlockIndex} (h : TargetChain chain) (k : Bool)
    (nTime : Nat) : TargetChain (Sphinx.nextEntry chain k nTime :: chain) := by
  have hkind : (Sphinx.nextEntry chain k nTime).isProofOfStake = k := by
    cases k <;> simp [Sphinx.nextEntry, CBlockIndex.isProofOfStake,
      CBlockIndex.BLOCK_PROOF_OF_STAKE]
  obtain ⟨nBits, hbits⟩ := Option.isSome_iff_exists.mp (h.isSome_next k)
  refine .cons h ?_ rfl
  rw [hkind, hbits]
  simp [Sphinx.nextEntry, hbits]

def firstStake : List CBlockIndex :=
  [nextEntry [nextEntry [] false 0] true 60, nextEntry [] false 0]

def secondStake (nTime : Nat) : List CBlockIndex := nextEntry firstStake true nTime :: firstStake

theorem targetChain_secondStake (nTime : Nat) : TargetChain (secondStake nTime) :=
  ((TargetChain.nil.nextEntry false 0).nextEntry true 60).nextEntry true nTime

theorem blocksOfKind_secondStake (nTime : Nat) :
    blocksOfKind (secondStake nTime) true =
      [nextEntry firstStake true nTime, nextEntry [nextEntry [] false 0] true 60] := by
  simp [secondStake, firstStake, blocksOfKind, nextEntry, CBlockIndex.isProofOfStake,
    CBlockIndex.BLOCK_PROOF_OF_STAKE]

/-- A second block of the kind that is a second older than the first leaves the target where it is,
and one of the same age lowers it. -/
theorem target_not_monotone :
    ¬ ∀ (chain chain' : List CBlockIndex) (k : Bool) (last prev last' prev' : CBlockIndex)
      (rest rest' : List CBlockIndex) (nBits nBits' : Nat),
      TargetChain chain → TargetChain chain' →
      blocksOfKind chain k = last :: prev :: rest →
      blocksOfKind chain' k = last' :: prev' :: rest' →
      last.nBits = last'.nBits →
      last.getBlockTime - prev.getBlockTime ≤ last'.getBlockTime - prev'.getBlockTime →
      getNextTargetRequired chain k = some nBits →
      getNextTargetRequired chain' k = some nBits' →
      setCompact nBits ≤ setCompact nBits' := by
  intro h
  have hle := h (secondStake 59) (secondStake 60) true _ _ _ _ _ _ 504365055 504174405
    (targetChain_secondStake 59) (targetChain_secondStake 60) (blocksOfKind_secondStake 59)
    (blocksOfKind_secondStake 60) rfl (by decide) (by decide) (by decide)
  exact absurd hle (by decide)

/-- Targets stay in range along every chain, the next target is always defined and grows with the
time between the last two blocks of the kind, and the trust grows at every block. -/
theorem targetChain_spec {chain : List CBlockIndex} (h : TargetChain chain) :
    (∀ pindex ∈ chain, 0 < setCompact pindex.nBits ∧
      setCompact pindex.nBits ≤ targetLimit pindex.isProofOfStake) ∧
    (∀ k, (getNextTargetRequired chain k).isSome) ∧
    (∀ (chain' : List CBlockIndex) (k : Bool) (last prev last' prev' : CBlockIndex)
      (rest rest' : List CBlockIndex) (nBits nBits' : Nat),
      TargetChain chain' →
      blocksOfKind chain k = last :: prev :: rest →
      blocksOfKind chain' k = last' :: prev' :: rest' →
      last.nBits = last'.nBits →
      effectiveSpacing (last.getBlockTime - prev.getBlockTime) ≤
        effectiveSpacing (last'.getBlockTime - prev'.getBlockTime) →
      (2 ≤ setCompact last.nBits ∨
        targetSpacing ≤ effectiveSpacing (last.getBlockTime - prev.getBlockTime)) →
      getNextTargetRequired chain k = some nBits →
      getNextTargetRequired chain' k = some nBits' →
      setCompact nBits ≤ setCompact nBits') ∧
    (∀ pindex ∈ chain, 1 ≤ getBlockTrust pindex.nBits) ∧
    (∀ (child parent : CBlockIndex) (rest : List CBlockIndex), (child :: parent :: rest) <:+ chain →
      parent.nChainTrust + getBlockTrust child.nBits < 2 ^ 256 →
      parent.nChainTrust < child.nChainTrust) := by
  refine ⟨h.inRange, h.isSome_next, ?_, ?_, ?_⟩
  · intro chain' k last prev last' prev' rest rest' nBits nBits' _ hkind hkind' hbits hle hzero
      hnext hnext'
    obtain ⟨hmem, rfl⟩ := head_blocksOfKind hkind
    rw [getNextTargetRequired_of_two hkind] at hnext
    rw [getNextTargetRequired_of_two hkind', ← hbits] at hnext'
    exact retarget_mono (h.inRange last hmem) hle hzero hnext hnext'
  · intro pindex hp
    exact one_le_getBlockTrust (h.inRange pindex hp)
  · intro child parent rest hs hsum
    exact (h.of_suffix hs).parent_lt hsum

/-- The two chains above in the order in which the target does grow. -/
theorem targetChain_spec_secondStake :
    getNextTargetRequired (secondStake 60) true = some 504174405 ∧
    getNextTargetRequired (secondStake 59) true = some 504365055 ∧
    setCompact 504174405 ≤ setCompact 504365055 := by
  have h60 : getNextTargetRequired (secondStake 60) true = some 504174405 := by decide
  have h59 : getNextTargetRequired (secondStake 59) true = some 504365055 := by decide
  refine ⟨h60, h59, ?_⟩
  exact (targetChain_spec (targetChain_secondStake 60)).2.2.1 (secondStake 59) true _ _ _ _ _ _ _ _
    (targetChain_secondStake 59) (blocksOfKind_secondStake 60) (blocksOfKind_secondStake 59) rfl
    (by decide) (.inl (by decide)) h60 h59

end Sphinx
