import Sphinx.CoinStake
import Sphinx.Equiv.CreateTransaction
import Sphinx.Equiv.Miner

/-!
# A stake block and its own rules

`SignBlock` puts the coinstake into a template and drops the transactions that are newer than it, but the reward of the
coinstake has been fixed with the fees of the whole template.

* `createCoinStake_spec`: what a coinstake spends and pays;
* `TemplateInv.fees_le_iff`: when no fee is lost;
* `signBlock_rules_iff`: when the block keeps the rules.
-/

namespace Sphinx

variable {tx : CTransaction} {vtx done rest : List CTransaction}

/-! ### The coinstake -/

/-- The value of the coins that a coinstake spends. -/
def coinsValue (coins : List StakeCoin) : CAmount := (coins.map fun c => c.txout.nValue).sum

section CoinStake

variable {env : Env} {ctx : Ctx} {node : Node} {wctx : StakeCtx} {w : CWallet}

theorem coinsValue_append (coins : List StakeCoin) (c : StakeCoin) :
    coinsValue (coins ++ [c]) = coinsValue coins + c.txout.nValue := by
  rw [coinsValue, coinsValue, List.map_append, List.sum_append, List.map_singleton, List.sum_singleton]

theorem addStakeInputs_credit {kernel : StakeCoin} {scriptPubKeyOut : CScript} {nTime : Nat} {nLimit : CAmount} :
    ∀ (setCoins : List StakeCoin) {st : List StakeCoin × CAmount}, st.2 = coinsValue st.1 →
      (addStakeInputs env kernel scriptPubKeyOut nTime nLimit setCoins st).2 =
        coinsValue (addStakeInputs env kernel scriptPubKeyOut nTime nLimit setCoins st).1 := by
  intro setCoins
  induction setCoins with
  | nil => exact fun h => h
  | cons c setCoins ih =>
    rintro ⟨coins, nCredit⟩ h
    have hadd : nCredit + c.txout.nValue = coinsValue (coins ++ [c]) := by
      rw [coinsValue_append, ← show nCredit = coinsValue coins from h]
    unfold addStakeInputs
    split_ifs
    · exact h
    · exact h
    · exact h
    · exact ih h
    · exact ih h
    · exact ih hadd
    · exact ih h

theorem chooseStakeInputs_credit {pindexPrev : CBlockIndex} {nBits nTime : Nat} {inputs : StakeInputs}
    (h : chooseStakeInputs env node wctx w pindexPrev nBits nTime = .ok inputs) :
    inputs.nCredit = coinsValue inputs.coins := by
  unfold chooseStakeInputs at h
  cases hbalance : w.getBalance env wctx with
  | none =>
    rw [hbalance] at h
    cases h
  | some nBalance =>
    simp only [hbalance, exceptBind_ok] at h
    obtain ⟨-, -, -, -, h⟩ := h
    cases hkernel : findKernel env node wctx pindexPrev nBits nTime
        (w.selectCoinsForStaking wctx (nBalance - wctx.nReserveBalance) nTime) with
    | none =>
      rw [hkernel] at h
      cases h
    | some r =>
      obtain ⟨kernel, scriptPubKeyOut, key⟩ := r
      simp only [hkernel, exceptBind_ok] at h
      obtain ⟨-, -, h⟩ := h
      have hone : kernel.txout.nValue = coinsValue [kernel] := (List.sum_singleton).symm
      rw [← Except.ok.inj h]
      dsimp only
      split_ifs
      · exact hone
      · exact addStakeInputs_credit _ hone

theorem sum_stakeOutputs (scriptPubKeyOut : CScript) (fSplit : Bool) (blockValue : CAmount) :
    ((stakeOutputs scriptPubKeyOut fSplit blockValue).map CTxOut.nValue).sum = blockValue := by
  unfold stakeOutputs
  split_ifs
  · dsimp only
    rw [List.map_cons, List.sum_cons, List.map_singleton, List.sum_singleton]
    exact add_sub_cancel _ blockValue
  · exact List.sum_singleton

theorem signStakeInput_same {tx' : CTransaction} {c : StakeCoin × Nat}
    (h : signStakeInput wctx tx c = .ok tx') : SameSpend tx tx' ∧ tx'.nTime = tx.nTime := by
  unfold signStakeInput at h
  have hsame := signSignature_same wctx.crypto wctx.keystore c.1.txout.scriptPubKey tx c.2 1
  have htime : (signSignature wctx.crypto wctx.keystore c.1.txout.scriptPubKey tx c.2 1).2.nTime = tx.nTime := by
    unfold signSignature
    dsimp only
    split_ifs <;> rfl
  split at h
  · rename_i txNew heq
    rw [heq] at hsame htime
    rw [← Except.ok.inj h]
    exact ⟨hsame, htime⟩
  · cases h

/-- What a coinstake at `nTime` spends, and how it pays out its reward. -/
structure StakesWith (env : Env) (ctx : Ctx) (wctx : StakeCtx) (nHeight nTime : Nat) (nFees : CAmount)
    (coins : List StakeCoin) (tx : CTransaction) : Prop where
  prevouts : tx.prevouts = coins.map (StakeCoin.prevout env)
  nTime_eq : tx.nTime = nTime
  valueOut : tx.valueOut = coinsValue coins + getCoinstakeValue 0 nFees nHeight
  payment : ∃ payee, stakePayee ctx wctx nHeight = some payee ∧
    tx.vout.getLast? = some ⟨getMasternodePayment nHeight (getCoinstakeValue 0 nFees nHeight), payee, -10⟩

theorem createCoinStake_spec {nBits nTime : Nat} {nFees : CAmount} {txNew : CTransaction} {key : CKey}
    (h : createCoinStake env ctx node wctx w nBits nFees nTime = .ok (txNew, key)) :
    ∃ pindexPrev inputs, node.pindexBest.bind node.mapBlockIndex = some pindexPrev ∧
      chooseStakeInputs env node wctx w pindexPrev nBits nTime = .ok inputs ∧
      StakesWith env ctx wctx (pindexPrev.nHeight + 1) nTime nFees inputs.coins txNew := by
  unfold createCoinStake at h
  cases hbest : node.pindexBest.bind node.mapBlockIndex with
  | none =>
    rw [hbest] at h
    cases h
  | some pindexPrev =>
    simp only [hbest, exceptBind_ok] at h
    obtain ⟨inputs, hinputs, nCoinAge, -, -, -, h⟩ := h
    cases hpayee : stakePayee ctx wctx (pindexPrev.nHeight + 1) with
    | none =>
      rw [hpayee] at h
      cases h
    | some payee =>
      simp only [hpayee, exceptBind_ok] at h
      obtain ⟨signed, hsign, -, -, h⟩ := h
      obtain ⟨rfl, -⟩ := Prod.mk.inj (Except.ok.inj h)
      -- signing changes no output and no outpoint
      obtain ⟨hsame, htime⟩ := Loop.foldlM_inv (fun _ tx => SameSpend _ tx ∧ tx.nTime = nTime) hsign
        ⟨⟨rfl, rfl⟩, rfl⟩ fun _ _ _ _ _ _ hst hround =>
          ⟨hst.1.trans (signStakeInput_same hround).1, (signStakeInput_same hround).2.trans hst.2⟩
      refine ⟨pindexPrev, inputs, rfl, hinputs, ?_, htime, ?_, payee, hpayee, ?_⟩
      · rw [hsame.prevouts, CTransaction.prevouts, List.map_map]
        rfl
      · rw [CTransaction.valueOut, hsame.vout, List.map_append, List.map_cons, List.sum_append, List.sum_cons,
          sum_stakeOutputs, List.map_singleton, List.sum_singleton, chooseStakeInputs_credit hinputs]
        dsimp only [getCoinstakeValue]
        ring
      · rw [hsame.vout]
        exact List.getLast?_concat

end CoinStake

/-! ### The transactions that remain -/

/-- The transactions that are not newer than `nTime`. -/
def remainingTxs (nTime : Nat) (vtx : List CTransaction) : List CTransaction :=
  vtx.filter fun tx => !(nTime < tx.nTime)

theorem mem_remainingTxs {nTime : Nat} :
    tx ∈ remainingTxs nTime vtx ↔ tx ∈ vtx ∧ tx.nTime ≤ nTime := by
  rw [remainingTxs, List.mem_filter, Bool.not_eq_true', decide_eq_false_iff_not, not_lt]

theorem remainingTxs_split {nTime : Nat} (h : remainingTxs nTime vtx = done ++ tx :: rest) :
    ∃ before after, vtx = before ++ tx :: after ∧ remainingTxs nTime before = done ∧ tx.nTime ≤ nTime := by
  obtain ⟨left, right, rfl, hleft, hright⟩ := List.filter_eq_append_iff.mp h
  obtain ⟨gap, after, rfl, hgap, htx, -⟩ := List.filter_eq_cons_iff.mp hright
  refine ⟨left ++ gap, after, by rw [List.append_assoc], ?_, by simpa using htx⟩
  rw [remainingTxs, List.filter_append, hleft, List.filter_eq_nil_iff.mpr hgap, List.append_nil]

section Remaining

variable {D : Type} {env : Env} {node : Node} {T : Set CTransaction} {chain : List Placed} {nBlockMaxSize : Nat}
  {st : TemplateState D} {nTime : Nat}

/-- The fee does not depend on which of the other transactions come before, as long as those that it spends from do. -/
theorem templateFee_eq (hnodup : ((vtx ++ chain.map Placed.tx).map env.getHash).Nodup)
    (hsub : done.Sublist vtx)
    (hprev : ∀ o ∈ tx.prevouts, ∃ txPrev ∈ done ++ chain.map Placed.tx, env.getHash txPrev = o.hash) :
    templateFee env chain done tx = templateFee env chain vtx tx := by
  have hsub' : (done ++ chain.map Placed.tx).Sublist (vtx ++ chain.map Placed.tx) := hsub.append (.refl _)
  unfold templateFee
  congr 2
  refine List.map_congr_left fun o ho => ?_
  obtain ⟨txPrev, hmem, hhash⟩ := hprev o ho
  rw [spentOutput, spentOutput, ← hhash, findByHash_of_mem (hnodup.sublist (hsub'.map _)) hmem,
    findByHash_of_mem hnodup (hsub'.mem hmem)]

theorem Sourced.remaining (h : Sourced env chain done tx) (htime : tx.nTime ≤ nTime) :
    ∀ o ∈ tx.prevouts, ∃ txPrev ∈ remainingTxs nTime done ++ chain.map Placed.tx,
      env.getHash txPrev = o.hash := by
  intro o ho
  obtain ⟨txPrev, hmem, hhash, hle⟩ := h.prev o ho
  refine ⟨txPrev, ?_, hhash⟩
  rcases List.mem_append.mp hmem with hdone | hchain
  · exact List.mem_append_left _ (mem_remainingTxs.mpr ⟨hdone, hle.trans htime⟩)
  · exact List.mem_append_right _ hchain

variable (hchain : IndexedChain env T node.readTxDB chain) (hcoll : CTransaction.NoCollision env.getHash T)
  (hinv : TemplateInv env node.mempool chain nBlockMaxSize st)

include hchain hcoll hinv

theorem TemplateInv.fee_eq (hsplit : st.vtx = done ++ tx :: rest) :
    templateFee env chain done tx = templateFee env chain st.vtx tx := by
  refine templateFee_eq (hinv.staged.nodup_chain (hchain.ledger.spec hcoll hchain.mem)) ?_ fun o ho => ?_
  · rw [hsplit]
    exact List.sublist_append_left _ _
  · obtain ⟨txPrev, hmem, hhash, -⟩ := (hinv.sourced done tx rest hsplit).prev o ho
    exact ⟨txPrev, hmem, hhash⟩

theorem TemplateInv.remaining_fee_eq (hsplit : remainingTxs nTime st.vtx = done ++ tx :: rest) :
    templateFee env chain done tx = templateFee env chain st.vtx tx := by
  obtain ⟨before, after, hvtx, rfl, htime⟩ := remainingTxs_split hsplit
  refine templateFee_eq (hinv.staged.nodup_chain (hchain.ledger.spec hcoll hchain.mem)) ?_
    ((hinv.sourced before tx after hvtx).remaining htime)
  rw [hvtx]
  exact List.filter_sublist.trans (List.sublist_append_left _ _)

/-- The fees of the whole template are those of what remains, unless a transaction with a fee is dropped. -/
theorem TemplateInv.fees_le_iff :
    Loop.sumAlong (templateFee env chain) [] st.vtx ≤
        Loop.sumAlong (templateFee env chain) [] (remainingTxs nTime st.vtx) ↔
      ∀ done tx rest, st.vtx = done ++ tx :: rest → nTime < tx.nTime → templateFee env chain done tx = 0 := by
  have hall : Loop.sumAlong (templateFee env chain) [] st.vtx = (st.vtx.map (templateFee env chain st.vtx)).sum :=
    Loop.sumAlong_eq_sum fun _ _ _ hsplit => hinv.fee_eq hchain hcoll hsplit
  have hremain : Loop.sumAlong (templateFee env chain) [] (remainingTxs nTime st.vtx) =
      ((remainingTxs nTime st.vtx).map (templateFee env chain st.vtx)).sum :=
    Loop.sumAlong_eq_sum fun _ _ _ hsplit => hinv.remaining_fee_eq hchain hcoll hsplit
  have hdropped : (st.vtx.map (templateFee env chain st.vtx)).sum =
      ((remainingTxs nTime st.vtx).map (templateFee env chain st.vtx)).sum +
        ((st.vtx.filter fun tx => !!(nTime < tx.nTime)).map (templateFee env chain st.vtx)).sum := by
    rw [← List.sum_append, ← List.map_append]
    exact ((List.filter_append_perm _ st.vtx).map _).sum_eq.symm
  have hnonneg : ∀ n ∈ (st.vtx.filter fun tx => !!(nTime < tx.nTime)).map (templateFee env chain st.vtx),
      0 ≤ n := by
    intro n hn
    obtain ⟨tx, htx, rfl⟩ := List.mem_map.mp hn
    obtain ⟨done, rest, hsplit⟩ := List.append_of_mem (List.mem_of_mem_filter htx)
    rw [← hinv.fee_eq hchain hcoll hsplit]
    exact (hinv.sourced done tx rest hsplit).fee_nonneg
  -- no fee is negative, so none is lost only if every dropped one is zero
  rw [hall, hremain, hdropped, add_le_iff_nonpos_right]
  constructor
  · intro hle done tx rest hsplit htime
    rw [hinv.fee_eq hchain hcoll hsplit]
    refine List.all_zero_of_le_zero_le_of_sum_eq_zero hnonneg (le_antisymm hle (List.sum_nonneg hnonneg)) ?_
    refine List.mem_map_of_mem (List.mem_filter.mpr ⟨?_, by simpa using htime⟩)
    rw [hsplit]
    exact List.mem_append_right _ List.mem_cons_self
  · intro hzero
    refine le_of_eq (List.sum_eq_zero fun n hn => ?_)
    obtain ⟨tx, htx, rfl⟩ := List.mem_map.mp hn
    obtain ⟨hmem, htime⟩ := List.mem_filter.mp htx
    obtain ⟨done, rest, hsplit⟩ := List.append_of_mem hmem
    rw [← hinv.fee_eq hchain hcoll hsplit]
    exact hzero done tx rest hsplit (by simpa using htime)

end Remaining

/-! ### The block -/

/-- The rules for a block at a height with a coinstake that spends `coins` and the transactions `vtx` behind it: the
reward is allowed by the fees of `vtx`, their inputs are there, and the masternode gets its part of the reward. -/
structure StakeRules (env : Env) (ctx : Ctx) (wctx : StakeCtx) (chain : List Placed) (nHeight : Nat)
    (coins : List StakeCoin) (txCoinStake : CTransaction) (vtx : List CTransaction) : Prop where
  reward_le : txCoinStake.valueOut - coinsValue coins ≤
    getCoinstakeValue 0 (Loop.sumAlong (templateFee env chain) [] vtx) nHeight
  available : ∀ done tx rest, vtx = done ++ tx :: rest → ∀ o ∈ tx.prevouts,
    (UnspentOnChain env chain o ∨ OutputOf env done o) ∧ ∀ tx' ∈ txCoinStake :: done, o ∉ tx'.prevouts
  payment : ∃ nReward payee, txCoinStake.valueOut = coinsValue coins + nReward ∧
    stakePayee ctx wctx nHeight = some payee ∧
    txCoinStake.vout.getLast? = some ⟨getMasternodePayment nHeight nReward, payee, -10⟩

section Block

variable {D : Type} {env : Env} {ctx tctx : Ctx} {node : Node} {mctx : MinerCtx D} {wctx : StakeCtx} {w : CWallet}
  {T : Set CTransaction} {chain : List Placed} {nBlockMaxSize : Nat} {st : TemplateState D}

/-- The inputs of what remains are there, as long as the coinstake does not take them. -/
theorem TemplateInv.available (hchain : IndexedChain env T node.readTxDB chain)
    (hcoll : CTransaction.NoCollision env.getHash T)
    (hpool : CTxMemPool.PoolInv env.getHash T node.mempool)
    (hinv : TemplateInv env node.mempool chain nBlockMaxSize st) {nTime : Nat}
    (hsplit : remainingTxs nTime st.vtx = done ++ tx :: rest) {o : COutPoint} (ho : o ∈ tx.prevouts) :
    (UnspentOnChain env chain o ∨ OutputOf env done o) ∧ ∀ tx' ∈ done, o ∉ tx'.prevouts := by
  obtain ⟨before, after, hvtx, rfl, htime⟩ := remainingTxs_split hsplit
  have hnodup := hinv.staged.nodup_chain (hchain.ledger.spec hcoll hchain.mem)
  constructor
  · refine (hinv.inputs before tx after hvtx o ho).imp_right ?_
    rintro ⟨txPrev, hmem, hhash, hn⟩
    obtain ⟨txPrev', hmem', hhash'⟩ := (hinv.sourced before tx after hvtx).remaining htime o ho
    refine ⟨txPrev, ?_, hhash, hn⟩
    -- the transaction with this hash is among those that remain
    have hsub : (before ++ chain.map Placed.tx).Sublist (st.vtx ++ chain.map Placed.tx) := by
      rw [hvtx]
      exact (List.sublist_append_left _ _).append (.refl _)
    have hmem'' : txPrev' ∈ before ++ chain.map Placed.tx :=
      (List.filter_sublist.append (.refl _)).mem hmem'
    obtain rfl : txPrev = txPrev' := List.inj_on_of_nodup_map (hnodup.sublist (hsub.map _))
      (List.mem_append_left _ hmem) hmem'' (hhash.trans hhash'.symm)
    refine (List.mem_append.mp hmem').resolve_right fun hon => ?_
    rw [List.map_append] at hnodup
    have hvtxmem : txPrev ∈ st.vtx := by
      rw [hvtx]
      exact List.mem_append_left _ hmem
    exact List.disjoint_of_nodup_append hnodup (List.mem_map_of_mem hvtxmem) (List.mem_map_of_mem hon)
  · intro tx' htx' ho'
    have hspent := (hinv.ok hpool).spentOnce
    rw [hvtx, List.flatMap_append, List.flatMap_cons] at hspent
    exact List.disjoint_of_nodup_append hspent
      (List.mem_flatMap.mpr ⟨tx', (mem_remainingTxs.mp htx').1, ho'⟩) (List.mem_append_left _ ho)

/-- A block with the coinstake in a template whose coinbase gets the time of the coinstake. -/
theorem stakedTxs_cons (coinbase : CTransaction) (vtx : List CTransaction) (txCoinStake : CTransaction) :
    stakedTxs (coinbase :: vtx) txCoinStake =
      { coinbase with nTime := txCoinStake.nTime } :: txCoinStake :: remainingTxs txCoinStake.nTime vtx := by
  have hkept : (!decide (txCoinStake.nTime < txCoinStake.nTime)) = true := by
    rw [decide_eq_false (lt_irrefl _), Bool.not_false]
  unfold stakedTxs
  dsimp only
  rw [List.modifyHead_cons, List.filter_cons, if_pos hkept]
  rfl

/-- A template that is signed gets a coinstake. -/
theorem signBlock_vtx {nLastCoinStakeSearchTime : Int} {block block' : CBlock} {nFees : CAmount}
    {coinbase : CTransaction} (hvtx : block.vtx = coinbase :: vtx)
    (hordinary : ∀ tx ∈ vtx, tx.isCoinStake = false)
    (h : signBlock env ctx node wctx w nLastCoinStakeSearchTime block nFees = .ok block') :
    ∃ txCoinStake key, createCoinStake env ctx node wctx w block.nBits nFees
        (stakeTime (toUnsigned ctx.nAdjustedTime)) = .ok (txCoinStake, key) ∧
      block'.vtx = stakedTxs block.vtx txCoinStake := by
  have hstake : block.isProofOfStake = false := by
    unfold CBlock.isProofOfStake
    rw [hvtx]
    cases vtx with
    | nil => rfl
    | cons tx vtx => exact hordinary tx List.mem_cons_self
  unfold signBlock at h
  split at h
  · simp only [hstake, exceptBind_ok, Bool.false_eq_true, if_false] at h
    obtain ⟨-, -, -, -, r, hcoinstake, -, -, h⟩ := h
    obtain ⟨txCoinStake, key⟩ := r
    refine ⟨txCoinStake, key, hcoinstake, ?_⟩
    split at h
    · cases h
    · rw [← Except.ok.inj h]
  · cases h

/-- **A stake block keeps its own rules** exactly if no transaction with a fee is dropped, and no remaining transaction
spends a coin of the coinstake. -/
theorem signBlock_rules_iff (hchain : IndexedChain env T node.readTxDB chain)
    (hcoll : CTransaction.NoCollision env.getHash T) (hpool : CTxMemPool.PoolInv env.getHash T node.mempool)
    {nLastCoinStakeSearchTime : Int} {block block' : CBlock} {nFees : CAmount}
    (hnew : createNewBlock env tctx node mctx true = .ok (some (block, nFees)))
    (hsign : signBlock env ctx node wctx w nLastCoinStakeSearchTime block nFees = .ok block') :
    ∃ pindexPrev inputs coinbase txCoinStake, node.pindexBest.bind node.mapBlockIndex = some pindexPrev ∧
      chooseStakeInputs env node wctx w pindexPrev block.nBits (stakeTime (toUnsigned ctx.nAdjustedTime)) =
        .ok inputs ∧
      block'.vtx = coinbase :: txCoinStake ::
        remainingTxs (stakeTime (toUnsigned ctx.nAdjustedTime)) block.vtx.tail ∧
      txCoinStake.prevouts = inputs.coins.map (StakeCoin.prevout env) ∧
      (StakeRules env ctx wctx chain (pindexPrev.nHeight + 1) inputs.coins txCoinStake
          (remainingTxs (stakeTime (toUnsigned ctx.nAdjustedTime)) block.vtx.tail) ↔
        (∀ done tx rest, block.vtx.tail = done ++ tx :: rest →
            stakeTime (toUnsigned ctx.nAdjustedTime) < tx.nTime →
          templateFee env chain done tx = 0) ∧
        ∀ tx ∈ block.vtx.tail, tx.nTime ≤ stakeTime (toUnsigned ctx.nAdjustedTime) →
          ∀ o ∈ tx.prevouts, o ∉ inputs.coins.map (StakeCoin.prevout env)) := by
  generalize hnTime : stakeTime (toUnsigned ctx.nAdjustedTime) = nTime at hsign ⊢
  obtain ⟨coinbase, -, st, hvtx, rfl, hinv⟩ := createNewBlock_inv hchain hcoll hpool hnew
  obtain ⟨txCoinStake, key, hcoinstake, hvtx'⟩ := signBlock_vtx hvtx (fun tx htx => (hinv.ordinary tx htx).2) hsign
  rw [hnTime] at hcoinstake
  obtain ⟨pindexPrev, inputs, hbest, hinputs, hstakes⟩ := createCoinStake_spec hcoinstake
  have htail : block.vtx.tail = st.vtx := by rw [hvtx, List.tail_cons]
  rw [hvtx, stakedTxs_cons, hstakes.nTime_eq] at hvtx'
  rw [htail]
  refine ⟨pindexPrev, inputs, _, txCoinStake, hbest, hinputs, hvtx', hstakes.prevouts, ?_⟩
  -- the reward has been fixed with the fees of the whole template
  have hreward : txCoinStake.valueOut - coinsValue inputs.coins ≤ getCoinstakeValue 0
        (Loop.sumAlong (templateFee env chain) [] (remainingTxs nTime st.vtx)) (pindexPrev.nHeight + 1) ↔
      Loop.sumAlong (templateFee env chain) [] st.vtx ≤
        Loop.sumAlong (templateFee env chain) [] (remainingTxs nTime st.vtx) := by
    rw [hstakes.valueOut, ← hinv.nFees_eq, getCoinstakeValue, getCoinstakeValue, add_sub_cancel_left]
    exact add_le_add_iff_left _
  constructor
  · intro hrules
    refine ⟨(hinv.fees_le_iff hchain hcoll).mp (hreward.mp hrules.reward_le), fun tx htx htime o ho hspent => ?_⟩
    obtain ⟨done, rest, hsplit⟩ := List.append_of_mem (mem_remainingTxs.mpr ⟨htx, htime⟩)
    refine (hrules.available done tx rest hsplit o ho).2 txCoinStake List.mem_cons_self ?_
    rwa [hstakes.prevouts]
  · rintro ⟨hfees, hapart⟩
    refine ⟨hreward.mpr ((hinv.fees_le_iff hchain hcoll).mpr hfees), fun done tx rest hsplit o ho => ?_, ?_⟩
    · obtain ⟨hsource, honce⟩ := hinv.available hchain hcoll hpool hsplit ho
      have htx : tx ∈ remainingTxs nTime st.vtx := by
        rw [hsplit]
        exact List.mem_append_right _ List.mem_cons_self
      obtain ⟨hmem, htime⟩ := mem_remainingTxs.mp htx
      refine ⟨hsource, List.forall_mem_cons.mpr ⟨?_, honce⟩⟩
      rw [hstakes.prevouts]
      exact hapart tx hmem htime o ho
    · obtain ⟨payee, hpayee, hlast⟩ := hstakes.payment
      exact ⟨_, payee, hstakes.valueOut, hpayee, hlast⟩

end Block

/-! ### A stake block that loses a fee -/

/-- A coinbase with 100 SPHX for the key. -/
def stakeCoinbase : CTransaction :=
  { firstCoinbase with vout := [⟨9900 * coin, [1], -10⟩, ⟨100 * coin, redeemScript, -10⟩] }

/-- A transaction with a fee of 1 SPHX. -/
def lateTx : CTransaction := { templateTx 10 (9899 * coin) with nTime := 4001 }

def stakeTxs : List CTransaction := [stakeCoinbase, lateTx]

def stakePlaced : Placed := ⟨stakeCoinbase, txPos firstIndex (sampleBlock [stakeCoinbase]) [], 1⟩

def stakingNode : Node :=
  { sampleNode [fundingIndex] with
    txdb := ⟨Function.update (fun _ => none) (.tx 1010) (some (.txIndex (CTxIndex.mk' stakePlaced.pos 2))), none⟩
    mempool := ({} : CTxMemPool).addUnchecked 5001 lateTx }

def stakeWalletCtx : StakeCtx where
  toCreditCtx := { CreditState.creditCtx with
    isMine := fun scriptPubKey => if scriptPubKey = redeemScript then ISMINE_SPENDABLE else ISMINE_NO
    getDepthInMainChain := fun _ _ => 200 }
  crypto := onlyCrypto
  keystore := onlyStore
  hashKernel _ _ _ _ := 0
  sortCoins coins := coins
  sortCoins_perm _ := .refl _
  currentMasterNode := some [1]

def stakingWallet : CWallet where
  mapWallet := AList.insert 1010 { tx := stakeCoinbase } ∅

def stakeTimeCtx (nAdjustedTime : Int) : Ctx := { sampleCtx with nAdjustedTime := nAdjustedTime }

def stakeRun (nAdjustedTime : Int) : Option (CBlock × CAmount × CBlock) :=
  let env := sampleEnv [stakeCoinbase]
  let ctx := stakeTimeCtx nAdjustedTime
  (createNewBlock env ctx stakingNode sampleMiner true).toOption.join.bind fun r =>
    (signBlock env ctx stakingNode stakeWalletCtx stakingWallet 0 r.1 r.2).toOption.map fun block => (r.1, r.2, block)

theorem noCollision_stakeTxs : CTransaction.NoCollision (sampleEnv [stakeCoinbase]).getHash {tx | tx ∈ stakeTxs} :=
  noCollision_of_nodup (by decide)

theorem indexedChain_stakingNode :
    IndexedChain (sampleEnv [stakeCoinbase]) {tx | tx ∈ stakeTxs} stakingNode.readTxDB [stakePlaced] := by
  refine ⟨.append .nil ⟨by decide, ⟨{}, fun h => ?_⟩, by decide, by decide, by decide, fun _ => ?_⟩,
    fun x hx => ?_,
    txIndexMap_single 1010 _⟩
  · -- the transaction is a coinbase
    cases h
  · exact ⟨by decide, fun y hy => absurd hy List.not_mem_nil⟩
  · rw [List.mem_singleton.mp hx]
    exact List.mem_cons_self

theorem poolInv_stakingNode :
    CTxMemPool.PoolInv (sampleEnv [stakeCoinbase]).getHash {tx | tx ∈ stakeTxs} stakingNode.mempool := by
  have hmem : lateTx ∈ {tx | tx ∈ stakeTxs} := List.mem_cons_of_mem _ List.mem_cons_self
  exact CTxMemPool.addUnchecked_inv (CTxMemPool.poolInv_empty 0) hmem (by decide) rfl (by decide)

theorem stakeRun_some {nAdjustedTime : Int} {β : Type} {f : CBlock × CAmount × CBlock → β} {b : β}
    (h : (stakeRun nAdjustedTime).map f = some b) :
    ∃ block nFees block',
      createNewBlock (sampleEnv [stakeCoinbase]) (stakeTimeCtx nAdjustedTime) stakingNode sampleMiner true =
        .ok (some (block, nFees)) ∧
      signBlock (sampleEnv [stakeCoinbase]) (stakeTimeCtx nAdjustedTime) stakingNode stakeWalletCtx stakingWallet 0
        block nFees = .ok block' ∧
      f (block, nFees, block') = b := by
  obtain ⟨r, hrun, hf⟩ := Option.map_eq_some_iff.mp h
  obtain ⟨⟨block, nFees⟩, hjoin, hsigned⟩ := Option.bind_eq_some_iff.mp hrun
  obtain ⟨block', hok, rfl⟩ := Option.map_eq_some_iff.mp hsigned
  obtain ⟨made, hnew, rfl⟩ := exists_made (f := id) (by rw [Option.map_id]; exact hjoin)
  refine ⟨_, _, block', hnew, ?_, hf⟩
  cases hs : signBlock (sampleEnv [stakeCoinbase]) (stakeTimeCtx nAdjustedTime) stakingNode stakeWalletCtx
      stakingWallet 0 block nFees with
  | error e =>
    rw [hs] at hok
    cases hok
  | ok b =>
    rw [hs] at hok
    exact congrArg _ (Option.some.inj hok)

/-- The block is signed at the time 4016, and the transaction stays. -/
theorem signBlock_rules_iff_sample : ∃ block nFees block',
    createNewBlock (sampleEnv [stakeCoinbase]) (stakeTimeCtx 4016) stakingNode sampleMiner true =
      .ok (some (block, nFees)) ∧
    signBlock (sampleEnv [stakeCoinbase]) (stakeTimeCtx 4016) stakingNode stakeWalletCtx stakingWallet 0 block nFees =
      .ok block' ∧
    ∃ coinbase txCoinStake coins, block'.vtx = [coinbase, txCoinStake, lateTx] ∧
      StakeRules (sampleEnv [stakeCoinbase]) (stakeTimeCtx 4016) stakeWalletCtx [stakePlaced] 2 coins txCoinStake
        [lateTx] := by
  obtain ⟨block, nFees, block', hnew, hsign, hf⟩ := stakeRun_some
    (show (stakeRun 4016).map (fun r => (r.1.vtx.tail, r.2.2.vtx.map CTransaction.prevouts)) =
      some ([lateTx], [[COutPoint.null], [⟨1010, 1⟩], [⟨1010, 0⟩]]) by decide +kernel)
  obtain ⟨htail, hprevouts⟩ := Prod.mk.inj hf
  obtain ⟨pindexPrev, inputs, coinbase, txCoinStake, hbest, -, hvtx, hcoins, hrules⟩ :=
    signBlock_rules_iff indexedChain_stakingNode noCollision_stakeTxs poolInv_stakingNode hnew hsign
  obtain rfl : fundingIndex = pindexPrev := Option.some.inj hbest
  have hremain : remainingTxs (stakeTime (toUnsigned (stakeTimeCtx 4016).nAdjustedTime)) [lateTx] = [lateTx] := by
    decide
  rw [htail, hremain] at hvtx hrules
  rw [hvtx] at hprevouts
  simp only [List.map_cons, List.cons.injEq] at hprevouts
  have hapart : ∀ o ∈ lateTx.prevouts, o ∉ inputs.coins.map (StakeCoin.prevout (sampleEnv [stakeCoinbase])) := by
    rw [← hcoins, hprevouts.2.1]
    decide
  refine ⟨block, nFees, block', hnew, hsign, coinbase, txCoinStake, inputs.coins, hvtx, hrules.mpr ⟨?_, ?_⟩⟩
  · intro done tx rest hsplit htime
    have htx : tx ∈ [lateTx] := by
      rw [hsplit]
      exact List.mem_append_right _ List.mem_cons_self
    rw [List.mem_singleton.mp htx] at htime
    exact absurd htime (by decide)
  · intro tx htx _
    rw [List.mem_singleton.mp htx]
    exact hapart

/-- Signed at the time 4000, the block loses the transaction, and the coinstake still takes its fee: it pays out 11 SPHX
for the output 1 of the coinbase. -/
theorem signBlock_loses_fee :
    IndexedChain (sampleEnv [stakeCoinbase]) {tx | tx ∈ stakeTxs} stakingNode.readTxDB [stakePlaced] ∧
    CTransaction.NoCollision (sampleEnv [stakeCoinbase]).getHash {tx | tx ∈ stakeTxs} ∧
    CTxMemPool.PoolInv (sampleEnv [stakeCoinbase]).getHash {tx | tx ∈ stakeTxs} stakingNode.mempool ∧
    ∃ block nFees block',
      createNewBlock (sampleEnv [stakeCoinbase]) (stakeTimeCtx 4005) stakingNode sampleMiner true =
        .ok (some (block, nFees)) ∧
      signBlock (sampleEnv [stakeCoinbase]) (stakeTimeCtx 4005) stakingNode stakeWalletCtx stakingWallet 0 block nFees =
        .ok block' ∧
      ∃ coinbase txCoinStake, block'.vtx = [coinbase, txCoinStake] ∧ txCoinStake.prevouts = [⟨1010, 1⟩] ∧
        ¬StakeRules (sampleEnv [stakeCoinbase]) (stakeTimeCtx 4005) stakeWalletCtx [stakePlaced] 2
          [⟨{ tx := stakeCoinbase }, 1⟩] txCoinStake [] := by
  refine ⟨indexedChain_stakingNode, noCollision_stakeTxs, poolInv_stakingNode, ?_⟩
  obtain ⟨block, nFees, block', hnew, hsign, hf⟩ := stakeRun_some
    (show (stakeRun 4005).map (fun r => r.2.2.vtx.map fun tx => (tx.prevouts, tx.valueOut)) =
      some [([COutPoint.null], 0), ([⟨1010, 1⟩], 111 * coin)] by decide +kernel)
  obtain ⟨coinbase, vtx, hvtx, -, hcoinstake⟩ := List.map_eq_cons_iff.mp hf
  obtain ⟨txCoinStake, rest, rfl, heq, hrest⟩ := List.map_eq_cons_iff.mp hcoinstake
  obtain rfl := List.map_eq_nil_iff.mp hrest
  obtain ⟨hprevouts, hvalue⟩ := Prod.mk.inj heq
  refine ⟨block, nFees, block', hnew, hsign, coinbase, txCoinStake, hvtx, hprevouts, fun hrules => ?_⟩
  -- without fees the reward is 10 SPHX
  have hle := hrules.reward_le
  rw [hvalue] at hle
  exact absurd hle (by decide)

end Sphinx
