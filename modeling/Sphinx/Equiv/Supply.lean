import Sphinx.Equiv.ConnectBlock

/-!
# The money supply

What a connected block adds to the money supply, `supplyGrowth`, is the total of output values minus
input values over its transactions (`supplyGrowth_eq_sumAlong`).  Split by the kind of transaction it
is what the coinbase pays, plus what the coinstakes create, minus the fees
(`supplyGrowth_eq_kinds`), and the reward checks bound it.

* `supplyGrowth_le_subsidy_iff`: the growth stays within the subsidy of the height exactly when the
  block is proof-of-stake, or its coinstakes create no more than its coinbase left unclaimed.  A
  proof-of-work block may hold coinstakes from the third transaction on, and none of the checks bounds
  them.
-/

namespace Sphinx

variable {env : Env} {ctx : Ctx} {node : Node} {block : CBlock} {pindex : CBlockIndex}
variable {st : ConnectState} {node' : Node}

/-- The subsidy of the height: `GetCoinbaseValue(height, 0)` for a proof-of-work block, `10 COIN`
for a proof-of-stake block. -/
def subsidy (block : CBlock) (nHeight : Nat) : CAmount :=
  if block.isProofOfWork then getCoinbaseValue nHeight 0 else 10 * coin

/-- `pindex->nMoneySupply - pindex->pprev->nMoneySupply` after `ConnectBlock` led from `node` to
`node'`; it does not write the parent's entry. -/
def supplyGrowth (node node' : Node) (pindex : CBlockIndex) : CAmount :=
  ((node'.mapBlockIndex pindex.hashBlock).map CBlockIndex.nMoneySupply).getD 0
    - prevMoneySupply node.mapBlockIndex pindex

/-- What the coinstakes of a block pay out beyond what they take in, in the chain state `node`. -/
def stakeCreated (env : Env) (node : Node) (block : CBlock) (pindex : CBlockIndex) : CAmount :=
  Loop.sumAlong (turnStake env node.mempool pindex block node.txdb.txIndexMap) [] block.vtx

/-- The fees of the ordinary transactions of a block, in the chain state `node`. -/
def feesOf (env : Env) (node : Node) (block : CBlock) (pindex : CBlockIndex) : CAmount :=
  Loop.sumAlong (turnFee env node.mempool pindex block node.txdb.txIndexMap) [] block.vtx

theorem getCoinbaseValue_fees (nHeight : Nat) (nFees : CAmount) :
    getCoinbaseValue nHeight nFees = getCoinbaseValue nHeight 0 + nFees := by
  simp [getCoinbaseValue]

theorem supplyGrowth_eq (hconn : Connected env node block pindex st node') :
    supplyGrowth node node' pindex = st.nValueOut - st.nValueIn := by
  obtain ⟨txdb, syncs, -, rfl⟩ := hconn.written
  simp only [supplyGrowth, recordSupply, Function.update_self, Option.map_some, Option.getD_some]
  ring

theorem supplyGrowth_eq_sumAlong (hconn : Connected env node block pindex st node') :
    supplyGrowth node node' pindex = Loop.sumAlong (fun done tx =>
      tx.valueOut - turnIn env node.mempool pindex block node.txdb.txIndexMap done tx) []
      block.vtx := by
  rw [supplyGrowth_eq hconn, hconn.loop.nValueOut_eq, hconn.loop.nValueIn_eq, Loop.sumAlong_sub]

theorem sumAlong_kinds {pool : CTxMemPool} {M : TxIndexMap} {cb : CTransaction}
    {txs : List CTransaction} (hvtx : block.vtx = cb :: txs) (hcb : cb.isCoinBase = true)
    (htxs : ∀ tx ∈ txs, tx.isCoinBase = false) :
    Loop.sumAlong (fun done tx => tx.valueOut - turnIn env pool pindex block M done tx) []
        block.vtx
      = cb.valueOut + Loop.sumAlong (turnStake env pool pindex block M) [] block.vtx
        - Loop.sumAlong (turnFee env pool pindex block M) [] block.vtx := by
  have hcs := CTransaction.isCoinStake_of_isCoinBase hcb
  have hhead : cb.valueOut - turnIn env pool pindex block M [] cb
      = cb.valueOut + turnStake env pool pindex block M [] cb
        - turnFee env pool pindex block M [] cb := by
    simp [turnStake, turnFee, hcb, hcs, turnIn, valueIn]
  have htail : ∀ done, Loop.sumAlong
      (fun done tx => tx.valueOut - turnIn env pool pindex block M done tx) done txs
      = Loop.sumAlong (fun done tx => turnStake env pool pindex block M done tx
        - turnFee env pool pindex block M done tx) done txs := by
    intro done
    refine Loop.sumAlong_congr fun d tx htx => ?_
    by_cases hs : tx.isCoinStake = true
    · simp [turnStake, turnFee, hs]
    · simp [turnStake, turnFee, hs, htxs tx htx]
  rw [hvtx]
  simp only [Loop.sumAlong, htail, Loop.sumAlong_sub]
  linarith

theorem supplyGrowth_eq_kinds (hconn : Connected env node block pindex st node') :
    supplyGrowth node node' pindex = (block.tx 0).valueOut + stakeCreated env node block pindex
      - feesOf env node block pindex := by
  obtain ⟨cb, txs, hvtx, hcb, htxs⟩ := checkTxPositions_coinbase hconn.checked.positions
  have htx0 : block.tx 0 = cb := by simp [CBlock.tx, hvtx]
  rw [supplyGrowth_eq_sumAlong hconn, sumAlong_kinds hvtx hcb htxs, htx0]
  rfl

theorem coinbase_le_of_proofOfWork (hconn : Connected env node block pindex st node')
    (hpos : block.isProofOfStake = false) :
    (block.tx 0).valueOut
      ≤ getCoinbaseValue pindex.nHeight (feesOf env node block pindex) := by
  have hpow : block.isProofOfWork = true := by rw [CBlock.isProofOfWork, hpos]; rfl
  have h := hconn.reward
  rw [checkReward, if_pos hpow] at h
  simp only [exceptBind_ok, rejectIf_eq_ok, decide_eq_false_iff_not, not_lt] at h
  obtain ⟨v, hv, hle⟩ := h
  rw [← CTransaction.getValueOut_eq hv, feesOf, ← hconn.loop.nFees_eq]
  exact hle

/-- The coinstake reward check; a proof-of-stake block has one coinstake and an empty coinbase. -/
theorem stakeCreated_le_of_proofOfStake (hconn : Connected env node block pindex st node')
    (hpos : block.isProofOfStake = true) :
    stakeCreated env node block pindex ≤ 10 * coin + feesOf env node block pindex ∧
      (block.tx 0).valueOut = 0 := by
  obtain ⟨cb, cs, txs, hvtx, hcb, hvalue, hcs, -, htxs⟩ :=
    checkTxPositions_stake hconn.checked.positions hpos
  have hcount : block.vtx.countP CTransaction.isCoinStake ≤ 1 := by
    have hnone : txs.countP CTransaction.isCoinStake = 0 := by
      simpa [List.countP_eq_zero] using fun tx htx => (htxs tx htx).2
    simp [hvtx, hnone, CTransaction.isCoinStake_of_isCoinBase hcb, hcs]
  have hpow : ¬ block.isProofOfWork = true := by rw [CBlock.isProofOfWork, hpos]; decide
  have h := hconn.reward
  rw [checkReward, if_neg hpow] at h
  refine ⟨?_, by simpa [CBlock.tx, hvtx] using hvalue⟩
  split at h
  · cases h
  · simp only [rejectIf_eq_ok, decide_eq_false_iff_not, not_lt] at h
    rw [stakeCreated, ← hconn.loop.nStakeReward_eq hcount, feesOf, ← hconn.loop.nFees_eq]
    exact h

/-- **What the reward checks come to.**  For every block that `ConnectBlock` connects, the recorded
growth of the money supply is the total of outputs minus inputs of its transactions; it is at most
the subsidy of the height exactly when the block is proof-of-stake, or what its coinstakes create is
at most what its coinbase left unclaimed; in particular when there is no coinstake outside a
proof-of-stake block. -/
theorem supplyGrowth_le_subsidy_iff {node' : Node}
    (h : connectBlock env ctx node block pindex = .ok node') :
    supplyGrowth node node' pindex = Loop.sumAlong (fun done tx =>
        tx.valueOut - turnIn env node.mempool pindex block node.txdb.txIndexMap done tx) []
        block.vtx ∧
      (supplyGrowth node node' pindex ≤ subsidy block pindex.nHeight ↔
        block.isProofOfStake = true ∨ stakeCreated env node block pindex
          ≤ getCoinbaseValue pindex.nHeight (feesOf env node block pindex)
            - (block.tx 0).valueOut) ∧
      ((block.isProofOfStake = true ∨ ∀ tx ∈ block.vtx, tx.isCoinStake = false) →
        supplyGrowth node node' pindex ≤ subsidy block pindex.nHeight) := by
  obtain ⟨st, hconn⟩ := connectBlock_ok h
  have hkinds := supplyGrowth_eq_kinds hconn
  have hiff : supplyGrowth node node' pindex ≤ subsidy block pindex.nHeight ↔
      block.isProofOfStake = true ∨ stakeCreated env node block pindex
        ≤ getCoinbaseValue pindex.nHeight (feesOf env node block pindex)
          - (block.tx 0).valueOut := by
    rw [hkinds, subsidy, CBlock.isProofOfWork,
      getCoinbaseValue_fees _ (feesOf env node block pindex)]
    by_cases hpos : block.isProofOfStake = true
    -- the reward check bounds the coinstake, and the coinbase is empty
    · obtain ⟨hstake, hcb⟩ := stakeCreated_le_of_proofOfStake hconn hpos
      simp only [hpos, Bool.not_true, Bool.false_eq_true, if_false, true_or, iff_true]
      linarith
    · simp only [hpos, Bool.not_false, if_true, Bool.false_eq_true, false_or]
      constructor <;> intro hle <;> linarith
  refine ⟨supplyGrowth_eq_sumAlong hconn, hiff, fun hcond => hiff.mpr ?_⟩
  by_cases hpos : block.isProofOfStake = true
  · exact .inl hpos
  · right
    have hnone := hcond.resolve_left hpos
    rw [stakeCreated, sumAlong_turnStake_eq_zero hnone]
    have := coinbase_le_of_proofOfWork hconn (by simpa using hpos)
    linarith

/-! ### A proof-of-work block with a coinstake -/

/-- A coinstake that takes in 5 coins and pays out a million. -/
def mintingCoinstake : CTransaction :=
  { nTime := 12, vin := [⟨⟨1001, 1⟩, [], uintMax⟩],
    vout := [⟨0, [], -10⟩, ⟨1000000 * coin, [1], -10⟩] }

/-- The checks accept a proof-of-work block whose third transaction is a coinstake that creates
almost a million coins. -/
theorem connectBlock_inflates :
    let vtx := [claimingCoinbase, ordinaryTx, mintingCoinstake]
    let node := sampleNode [fundingIndex, sampleIndex]
    checkBlock (sampleEnv vtx) sampleCtx (some fundingIndex) (sampleBlock vtx) true true true
        = .ok () ∧
      (acceptBlockChecks (sampleEnv vtx) sampleCtx (sampleNode [fundingIndex])
        (sampleBlock vtx)).isOk = true ∧
      ∃ node', connectBlock (sampleEnv vtx) sampleCtx node (sampleBlock vtx) sampleIndex
          = .ok node' ∧
        ¬ supplyGrowth node node' sampleIndex ≤ subsidy (sampleBlock vtx) sampleIndex.nHeight := by
  intro vtx node
  obtain ⟨⟨⟩, hcheck⟩ : ∃ u, checkBlock (sampleEnv vtx) sampleCtx (some fundingIndex)
      (sampleBlock vtx) true true true = .ok u := exists_of_isOk (by decide)
  obtain ⟨node', hconn⟩ : ∃ node', connectBlock (sampleEnv vtx) sampleCtx node (sampleBlock vtx)
      sampleIndex = .ok node' := exists_of_isOk (by decide)
  refine ⟨hcheck, by decide, node', hconn, ?_⟩
  have hgrowth : (connectBlock (sampleEnv vtx) sampleCtx node (sampleBlock vtx)
      sampleIndex).toOption.map (supplyGrowth node · sampleIndex)
        = some (1009995 * coin) := by decide
  rw [hconn] at hgrowth
  have hvalue : supplyGrowth node node' sampleIndex = 1009995 * coin := Option.some.inj hgrowth
  rw [hvalue]
  decide

/-- Without the coinstake the block stays within the subsidy. -/
theorem supplyGrowth_le_subsidy_iff_ordinary :
    let vtx := [claimingCoinbase, ordinaryTx]
    let node := sampleNode [fundingIndex, sampleIndex]
    ∃ node', connectBlock (sampleEnv vtx) sampleCtx node (sampleBlock vtx) sampleIndex
        = .ok node' ∧
      supplyGrowth node node' sampleIndex ≤ subsidy (sampleBlock vtx) sampleIndex.nHeight := by
  intro vtx node
  obtain ⟨node', hconn⟩ : ∃ node', connectBlock (sampleEnv vtx) sampleCtx node (sampleBlock vtx)
      sampleIndex = .ok node' := exists_of_isOk (by decide)
  exact ⟨node', hconn, (supplyGrowth_le_subsidy_iff hconn).2.2 (.inr (by decide))⟩

end Sphinx
