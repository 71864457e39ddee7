import Sphinx.ConnectBlock
import Sphinx.Equiv.TxDb
import Sphinx.Primitives.Equiv.Inputs

/-!
# Checked and connected blocks

`checkBlock_ok` collects what the later proofs use of a successful `CheckBlock`;
`checkTxPositions_coinbase` and `checkTxPositions_stake` say which kinds of transactions may stand
where.

`ConnectBlock` stages its changes in `mapQueuedChanges` and writes them at the end.  On the index as
a map this is one transaction after another: `connectMap` is the effect of one transaction,
`indexAfter … done` the index after the transactions `done` of the block.

* `connectTx_ok`, `connectLoop_ok`: what a round, respectively the whole loop, has checked, where
  the staged index stands, and what the totals `nValueIn`, `nValueOut`, `nFees` and `nStakeReward`
  are;
* `connectBlock_ok`: the state a successful `ConnectBlock` ends in.
-/

namespace Sphinx

open CTxDB (Frame IsAddrKey IsBlockKey IsTxKey frame_foldl)

variable {block : CBlock}

theorem CTransaction.isCoinStake_of_isCoinBase {tx : CTransaction} (h : tx.isCoinBase = true) :
    tx.isCoinStake = false := by
  obtain ⟨txin, hvin, hnull⟩ := isCoinBase_vin h
  unfold isCoinStake
  rw [hvin]
  split
  · next heq _ =>
    obtain ⟨rfl, -⟩ := List.cons.inj heq
    simp [hnull]
  · rfl

theorem forM_eq_ok {ε α : Type} {f : α → Except ε Unit} {xs : List α} {u : Unit} :
    xs.forM f = .ok u ↔ ∀ x ∈ xs, f x = .ok () := by
  induction xs with
  | nil => simp [List.forM_nil]; rfl
  | cons x xs ih =>
    change (f x >>= fun _ => xs.forM f) = .ok u ↔ _
    simp only [exceptBind_ok, List.mem_cons, forall_eq_or_imp]
    constructor
    · rintro ⟨⟨⟩, hx, hxs⟩; exact ⟨hx, ih.mp hxs⟩
    · rintro ⟨hx, hxs⟩; exact ⟨(), hx, ih.mpr hxs⟩

theorem checkTxPositions_coinbase (h : checkTxPositions block = .ok ()) :
    ∃ cb txs, block.vtx = cb :: txs ∧ cb.isCoinBase = true ∧
      ∀ tx ∈ txs, tx.isCoinBase = false := by
  simp only [checkTxPositions, exceptBind_ok, rejectIf_eq_ok, Bool.or_eq_false_iff,
    Bool.not_eq_false'] at h
  obtain ⟨-, ⟨hne, hcb⟩, -, hrest, -⟩ := h
  cases hvtx : block.vtx with
  | nil => simp [hvtx] at hne
  | cons cb txs =>
    exact ⟨cb, txs, rfl, by simpa [CBlock.tx, hvtx] using hcb, by simpa [hvtx] using hrest⟩

/-- In a proof-of-stake block the coinbase pays nothing and the second transaction is the only
coinstake.  Nothing of the kind is checked for a proof-of-work block. -/
theorem checkTxPositions_stake (h : checkTxPositions block = .ok ())
    (hpos : block.isProofOfStake = true) :
    ∃ cb cs txs, block.vtx = cb :: cs :: txs ∧ cb.isCoinBase = true ∧ cb.valueOut = 0 ∧
      cs.isCoinStake = true ∧ cs.isCoinBase = false ∧
      ∀ tx ∈ txs, tx.isCoinBase = false ∧ tx.isCoinStake = false := by
  obtain ⟨cb, txs, hvtx, hcb0, htxs⟩ := checkTxPositions_coinbase h
  simp only [checkTxPositions, exceptBind_ok] at h
  obtain ⟨-, -, -, -, h⟩ := h
  rw [if_pos hpos] at h
  simp only [exceptBind_ok, rejectIf_eq_ok, Bool.or_eq_false_iff, Bool.not_eq_false',
    decide_eq_false_iff_not, not_not] at h
  obtain ⟨-, ⟨hlen, hempty⟩, -, ⟨-, hcs⟩, hothers⟩ := h
  obtain ⟨cs, txs', rfl⟩ : ∃ cs txs', txs = cs :: txs' := by
    cases txs with
    | nil => simp [CBlock.isProofOfStake, hvtx] at hpos
    | cons cs txs' => exact ⟨cs, txs', rfl⟩
  have hcs0 : cs.isCoinStake = true := by simpa [CBlock.tx, hvtx] using hcs
  have hothers' : ∀ tx ∈ txs', tx.isCoinStake = false := by simpa [hvtx] using hothers
  have hvalue : cb.valueOut = 0 := by
    have hlen' : cb.vout.length = 1 := by simpa [CBlock.tx, hvtx] using hlen
    obtain ⟨txout, hout⟩ := List.length_eq_one_iff.mp hlen'
    have hemp : txout.isEmpty = true := by simpa [CBlock.tx, hvtx, hout] using hempty
    simp only [CTxOut.isEmpty, Bool.and_eq_true, decide_eq_true_eq] at hemp
    simp [CTransaction.valueOut, hout, hemp.1]
  exact ⟨cb, cs, txs', hvtx, hcb0, hvalue, hcs0, htxs cs (by simp), fun tx htx =>
    ⟨htxs tx (by simp [htx]), hothers' tx htx⟩⟩

/-- What a block that passed `CheckBlock` is like. -/
structure Checked (env : Env) (block : CBlock) : Prop where
  positions : checkTxPositions block = .ok ()
  txs : ∀ tx ∈ block.vtx, tx.checkTransaction = .ok ()
  nodup : (block.vtx.map env.getHash).Nodup

theorem checkBlock_ok {env : Env} {ctx : Ctx} {pindexBest : Option CBlockIndex}
    {fCheckPOW fCheckMerkleRoot fCheckSig : Bool}
    (h : checkBlock env ctx pindexBest block fCheckPOW fCheckMerkleRoot fCheckSig = .ok ()) :
    Checked env block := by
  simp only [checkBlock, exceptBind_ok, rejectIf_eq_ok] at h
  obtain ⟨-, -, -, -, -, -, ⟨⟩, hpos, -, -, -, -, ⟨⟩, -, ⟨⟩, htxs, -, hnodup, -⟩ := h
  refine ⟨hpos, fun tx htx => ?_, by simpa using hnodup⟩
  have hx := forM_eq_ok.mp htxs tx htx
  unfold checkBlockTx at hx
  cases hc : tx.checkTransaction with
  | error r => rw [hc] at hx; cases hx
  | ok u => rfl

/-- What `AcceptBlock` has checked: the block is new, its parent is indexed, and its coinbase starts
with its height. -/
theorem acceptBlockChecks_ok {env : Env} {ctx : Ctx} {node : Node} {hashProof : Uint256}
    (h : acceptBlockChecks env ctx node block = .ok hashProof) :
    node.mapBlockIndex (env.getBlockHash block) = none ∧
      ∃ pindexPrev, node.mapBlockIndex block.hashPrevBlock = some pindexPrev ∧
        startsWithHeight block (pindexPrev.nHeight + 1) = true := by
  simp only [acceptBlockChecks, exceptBind_ok, rejectIf_eq_ok] at h
  obtain ⟨-, -, -, hnew, h⟩ := h
  refine ⟨by simpa using hnew, ?_⟩
  cases hprev : node.mapBlockIndex block.hashPrevBlock with
  | none => rw [hprev] at h; cases h
  | some pindexPrev =>
    refine ⟨pindexPrev, rfl, ?_⟩
    simp only [hprev, exceptBind_ok, rejectIf_eq_ok, Bool.not_eq_false'] at h
    obtain ⟨-, -, -, -, -, -, -, -, -, -, -, -, -, -, -, -, h⟩ := h
    -- the height is checked last, whichever kind of proof came before
    have hlast : ∀ hp : Uint256, (do
        rejectIf (!startsWithHeight block (pindexPrev.nHeight + 1)) 100
          "AcceptBlock() : block height mismatch in coinbase"
        pure hp : Except Reject Uint256) = .ok hashProof →
        startsWithHeight block (pindexPrev.nHeight + 1) = true := by
      intro hp hlast
      simp only [exceptBind_ok, rejectIf_eq_ok, Bool.not_eq_false'] at hlast
      obtain ⟨-, hheight, -⟩ := hlast
      exact hheight
    by_cases hpos : block.isProofOfStake = true
    · rw [if_pos hpos] at h
      split at h
      · cases h
      · exact hlast _ h
    · rw [if_neg hpos] at h
      exact hlast _ h

/-! ### `ConnectBlock` on the transaction index as a map -/

variable {env : Env} {ctx : Ctx} {node : Node} {pindex : CBlockIndex}
variable {tx : CTransaction} {p : CDiskTxPos} {st st' : ConnectState} {node' : Node}

/-! ### The index after some of the transactions -/

/-- The effect of connecting one transaction at position `p`. -/
def connectMap (env : Env) (M : TxIndexMap) (tx : CTransaction) (p : CDiskTxPos) : TxIndexMap :=
  Function.update (if tx.isCoinBase then M else setSpentAll tx.prevouts p M) (env.getHash tx)
    (some (CTxIndex.mk' p tx.vout.length))

theorem connectMap_pos_of_ne {M : TxIndexMap} {h : Uint256} (hne : h ≠ env.getHash tx) :
    (connectMap env M tx p h).map CTxIndex.pos = (M h).map CTxIndex.pos := by
  rw [connectMap, Function.update_of_ne hne]
  split_ifs
  · rfl
  · simp [setSpentAll, Function.comp_def]

/-- The position of the transaction that comes after the transactions `done` of the block. -/
def txPos (pindex : CBlockIndex) (block : CBlock) (done : List CTransaction) : CDiskTxPos :=
  .pos pindex.nFile pindex.nBlockPos
    (firstTxPos pindex block false + (done.map CTransaction.getSerializeSize).sum)

/-- The index `M` after the transactions `done` of the block have been connected. -/
def indexAfter (env : Env) (pindex : CBlockIndex) (block : CBlock) (M : TxIndexMap)
    (done : List CTransaction) : TxIndexMap :=
  (done.foldl (fun st tx => (st.1 ++ [tx], connectMap env st.2 tx (txPos pindex block st.1)))
    (([] : List CTransaction), M)).2

theorem indexAfter_nil (M : TxIndexMap) : indexAfter env pindex block M [] = M := rfl

theorem indexAfter_append (M : TxIndexMap) (done : List CTransaction) (tx : CTransaction) :
    indexAfter env pindex block M (done ++ [tx])
      = connectMap env (indexAfter env pindex block M done) tx (txPos pindex block done) := by
  have hfst : ∀ (l : List CTransaction) (st : List CTransaction × TxIndexMap),
      (l.foldl (fun st tx => (st.1 ++ [tx], connectMap env st.2 tx (txPos pindex block st.1)))
        st).1 = st.1 ++ l := by
    intro l
    induction l with
    | nil => intro st; simp
    | cons x xs ih => intro st; rw [List.foldl_cons, ih]; simp
  unfold indexAfter
  rw [List.foldl_append, List.foldl_cons, List.foldl_nil, hfst, List.nil_append]

/-- The value of an outpoint, for an index `M`. -/
def prevValue (env : Env) (pool : CTxMemPool) (M : TxIndexMap) (o : COutPoint) : CAmount :=
  match (M o.hash).bind (loadPrev env pool o.hash) with
  | none => 0
  | some txPrev => (txPrev.vout.getD o.n ⟨0, [], 0⟩).nValue

/-- The total value of the outputs a transaction spends, for an index `M`; nothing for a
coinbase. -/
def valueIn (env : Env) (pool : CTxMemPool) (M : TxIndexMap) (tx : CTransaction) : CAmount :=
  if tx.isCoinBase then 0 else (tx.prevouts.map (prevValue env pool M)).sum

/-! ### One round of the loop -/

/-- The fetched inputs agree with the overlay. -/
theorem indexOf_sync {fBlock fMiner : Bool} {q : StdMap Uint256 CTxIndex} {inputs : MapPrevTx}
    (hstaged : (fBlock || fMiner) = true)
    (h : ∀ k prev, inputs.lookup k = some prev →
      IsPrev env node.txdb node.mempool q fBlock fMiner k prev) :
    ∀ k txindex, indexOf inputs k = some txindex →
      overlay q node.txdb.txIndexMap k = some txindex := by
  intro k txindex hk
  simp only [indexOf, Option.map_eq_some_iff] at hk
  obtain ⟨prev, hl, rfl⟩ := hk
  rcases h k prev hl with ⟨hf, -⟩ | ⟨-, hb, hm, -⟩
  · rw [← findTxIndex_staged _ _ hstaged]; exact hf
  · rw [hb, hm] at hstaged
    cases hstaged

/-- The value of a fetched input is the value of the outpoint for the overlay. -/
theorem inputValue_eq {fBlock fMiner : Bool} {q : StdMap Uint256 CTxIndex} {inputs : MapPrevTx} {o : COutPoint}
    (hstaged : (fBlock || fMiner) = true)
    (h : ∀ k prev, inputs.lookup k = some prev →
      IsPrev env node.txdb node.mempool q fBlock fMiner k prev)
    (ho : ∃ txindex txPrev, inputs.lookup o.hash = some (txindex, txPrev) ∧
      o.n < txPrev.vout.length ∧ o.n < txindex.vSpent.length) :
    inputValue inputs o = prevValue env node.mempool (overlay q node.txdb.txIndexMap) o := by
  obtain ⟨txindex, txPrev, hl, hn, -⟩ := ho
  rcases h _ _ hl with ⟨hf, hload⟩ | ⟨-, hb, hm, -⟩
  · rw [findTxIndex_staged _ _ hstaged] at hf
    simp only at hf hload
    rw [prevValue, hf, Option.bind_some, hload, inputValue, getOutputFor, hl]
    simp [List.getElem?_eq_getElem hn]
  · rw [hb, hm] at hstaged
    cases hstaged

/-- What a round has checked of a transaction that is not a coinbase. -/
def InputsOk (env : Env) (pool : CTxMemPool) (M : TxIndexMap) (tx : CTransaction) : Prop :=
  tx.isCoinBase = false → (∀ o ∈ tx.prevouts, IsUnspent M o) ∧
    (∀ o ∈ tx.prevouts, ∃ txindex txPrev, M o.hash = some txindex ∧
      loadPrev env pool o.hash txindex = some txPrev ∧ o.n < txPrev.vout.length) ∧
    (tx.isCoinStake = false → tx.valueOut ≤ valueIn env pool M tx)

/-- The totals after one more transaction. -/
def Tallied (st st' : ConnectState) (tx : CTransaction) (nIn : CAmount) : Prop :=
  st'.nValueIn = st.nValueIn + nIn ∧ st'.nValueOut = st.nValueOut + tx.valueOut ∧
    st'.nFees = st.nFees +
      (if tx.isCoinBase || tx.isCoinStake then 0 else nIn - tx.valueOut) ∧
    st'.nStakeReward = if tx.isCoinStake then tx.valueOut - nIn else st.nStakeReward

theorem connectTxInputs_inv (h : connectTxInputs env ctx node pindex p st tx = .ok st') :
    ∃ inputs nIn nOut nP2SH q',
      fetchInputs env node.txdb node.mempool st.mapQueuedChanges true false tx = .ok inputs ∧
      getValueIn tx inputs = .ok nIn ∧ tx.getValueOut = .ok nOut ∧
      connectInputs env ctx node.mapBlockIndex tx inputs st.mapQueuedChanges p
        (some pindex.hashBlock) true false scriptVerifyNoCache = .ok q' ∧
      st' = { st.tally tx nIn nOut with
        nSigOps := st.nSigOps + nP2SH, mapQueuedChanges := q' } := by
  simp only [connectTxInputs, exceptBind_ok, rejectIf_eq_ok] at h
  obtain ⟨inputs, hfetch, nP2SH, -, -, -, nIn, hIn, nOut, hOut, q', hconn, h⟩ := h
  refine ⟨inputs, nIn, nOut, nP2SH, q', ?_, hIn, hOut, hconn, (Except.ok.inj h).symm⟩
  revert hfetch
  cases fetchInputs env node.txdb node.mempool st.mapQueuedChanges true false tx with
  | error r => intro hc; cases hc
  | ok i => intro hc; cases hc; rfl

theorem connectTxInputs_ok (hcb : tx.isCoinBase = false) (hp : p ≠ .null)
    (h : connectTxInputs env ctx node pindex p st tx = .ok st') :
    InputsOk env node.mempool (overlay st.mapQueuedChanges node.txdb.txIndexMap) tx ∧
      overlay st'.mapQueuedChanges node.txdb.txIndexMap
        = setSpentAll tx.prevouts p (overlay st.mapQueuedChanges node.txdb.txIndexMap) ∧
      st'.nTxPos = st.nTxPos ∧
      Tallied st st' tx
        (valueIn env node.mempool (overlay st.mapQueuedChanges node.txdb.txIndexMap) tx) := by
  obtain ⟨inputs, nIn, nOut, nP2SH, q', hfetch, hIn, hOut, hconn, rfl⟩ := connectTxInputs_inv h
  obtain ⟨hprev, hfound⟩ := fetchInputs_ok hcb hfetch
  have hsync := indexOf_sync rfl hprev
  obtain ⟨hunspent, hfee, hover⟩ := connectInputs_ok hcb hp (fun _ => hsync) hconn
  -- the value of what was fetched is the value of what the index says is there
  have hvalue : inputsValue inputs tx.prevouts
      = valueIn env node.mempool (overlay st.mapQueuedChanges node.txdb.txIndexMap) tx := by
    rw [inputsValue, valueIn, hcb]
    simp only [Bool.false_eq_true, if_false]
    congr 1
    exact List.map_congr_left fun o ho => inputValue_eq rfl hprev (hfound o ho)
  have hIn' := getValueIn_eq hcb hIn
  have hOut' := CTransaction.getValueOut_eq hOut
  refine ⟨fun _ => ⟨fun o ho => ?_, fun o ho => ?_, fun hcs => ?_⟩, hover rfl, rfl, ?_⟩
  · obtain ⟨txindex, hi, hn⟩ := hunspent o ho
    exact ⟨txindex, hsync _ _ hi, hn⟩
  · obtain ⟨txindex, txPrev, hl, hn, -⟩ := hfound o ho
    refine ⟨txindex, txPrev, hsync _ _ (by rw [indexOf, hl]; rfl), ?_, hn⟩
    -- inside a block nothing is fetched from the pool
    rcases hprev _ _ hl with ⟨-, hload⟩ | ⟨-, hb, -⟩
    · exact hload
    · cases hb
  · rw [← hvalue]; exact hfee hcs
  · rw [← hvalue, ← hIn', Tallied, ← hOut']
    refine ⟨rfl, rfl, ?_, rfl⟩
    simp only [ConnectState.tally, hcb, Bool.false_or]
    split_ifs <;> simp

theorem connectTx_ok {fJustCheck : Bool} (h : connectTx env ctx node pindex fJustCheck st tx = .ok st') :
    let M := overlay st.mapQueuedChanges node.txdb.txIndexMap
    InputsOk env node.mempool M tx ∧
      overlay st'.mapQueuedChanges node.txdb.txIndexMap
        = connectMap env M tx (.pos pindex.nFile pindex.nBlockPos st.nTxPos) ∧
      st'.nTxPos = (if fJustCheck then st.nTxPos else st.nTxPos + tx.getSerializeSize) ∧
      Tallied st st' tx (valueIn env node.mempool M tx) := by
  simp only [connectTx, exceptBind_ok, rejectIf_eq_ok] at h
  obtain ⟨-, -, h⟩ := h
  by_cases hcb : tx.isCoinBase = true
  · -- a coinbase has no inputs; only its outputs are counted
    rw [if_pos hcb] at h
    simp only [exceptBind_ok] at h
    obtain ⟨nOut, hOut, st1, hst1, h⟩ := h
    obtain rfl := Except.ok.inj hst1
    obtain rfl := Except.ok.inj h
    have hcs := CTransaction.isCoinStake_of_isCoinBase hcb
    refine ⟨fun hc => absurd hcb (by simp [hc]), ?_, rfl, ?_⟩
    · rw [connectMap, if_pos hcb]
      exact overlay_insert _ _ _ _
    · refine ⟨?_, ?_, ?_, ?_⟩
      · simp [ConnectState.queue, ConnectState.advance, valueIn, hcb]
      · rw [← CTransaction.getValueOut_eq hOut]; rfl
      · simp [ConnectState.queue, ConnectState.advance, hcb]
      · simp [ConnectState.queue, ConnectState.advance, hcs]
  · rw [if_neg hcb] at h
    simp only [exceptBind_ok] at h
    obtain ⟨st1, hst1, h⟩ := h
    obtain rfl := Except.ok.inj h
    have hcb' : tx.isCoinBase = false := by simpa using hcb
    obtain ⟨hin, hover, hpos, htally⟩ := connectTxInputs_ok hcb' (by simp) hst1
    refine ⟨hin, ?_, ?_, htally⟩
    · rw [connectMap, if_neg hcb]
      have hq := overlay_insert st1.mapQueuedChanges node.txdb.txIndexMap (env.getHash tx)
        (CTxIndex.mk' (.pos pindex.nFile pindex.nBlockPos st.nTxPos) tx.vout.length)
      rw [hover] at hq
      exact hq
    · change st1.nTxPos = _
      rw [hpos]; rfl

/-! ### The loop -/

section

variable (env : Env) (pool : CTxMemPool) (pindex : CBlockIndex) (block : CBlock)
    (M : TxIndexMap) (done : List CTransaction) (tx : CTransaction)

/-- What a transaction of the block takes in at its turn, after the transactions `done`. -/
def turnIn : CAmount :=
  valueIn env pool (indexAfter env pindex block M done) tx

/-- The fee of a transaction of the block. -/
def turnFee : CAmount :=
  if tx.isCoinBase || tx.isCoinStake then 0
  else turnIn env pool pindex block M done tx - tx.valueOut

/-- What a coinstake of the block pays out beyond what it takes in. -/
def turnStake : CAmount :=
  if tx.isCoinStake then tx.valueOut - turnIn env pool pindex block M done tx else 0

end

/-- The loop invariant of `ConnectBlock`, after the transactions `done`. -/
structure LoopInv (env : Env) (node : Node) (block : CBlock) (pindex : CBlockIndex)
    (done : List CTransaction) (st : ConnectState) : Prop where
  overlay_eq : overlay st.mapQueuedChanges node.txdb.txIndexMap
    = indexAfter env pindex block node.txdb.txIndexMap done
  nTxPos_eq : st.nTxPos
    = firstTxPos pindex block false + (done.map CTransaction.getSerializeSize).sum
  nValueIn_eq : st.nValueIn
    = Loop.sumAlong (turnIn env node.mempool pindex block node.txdb.txIndexMap) [] done
  nValueOut_eq : st.nValueOut = Loop.sumAlong (fun _ tx => tx.valueOut) [] done
  nFees_eq : st.nFees
    = Loop.sumAlong (turnFee env node.mempool pindex block node.txdb.txIndexMap) [] done
  nStakeReward_eq : done.countP CTransaction.isCoinStake ≤ 1 → st.nStakeReward
    = Loop.sumAlong (turnStake env node.mempool pindex block node.txdb.txIndexMap) [] done

theorem sumAlong_turnStake_eq_zero {pool : CTxMemPool} {M : TxIndexMap}
    {done : List CTransaction} (h : ∀ tx ∈ done, tx.isCoinStake = false) :
    Loop.sumAlong (turnStake env pool pindex block M) [] done = 0 :=
  Loop.sumAlong_eq_zero fun done' tx htx => by simp [turnStake, h tx htx]

theorem loopInv_step {done : List CTransaction} (hinv : LoopInv env node block pindex done st)
    (h : connectTx env ctx node pindex false st tx = .ok st') :
    LoopInv env node block pindex (done ++ [tx]) st' := by
  obtain ⟨-, hover, hpos, hvIn, hvOut, hfee, hstake⟩ := connectTx_ok h
  rw [hinv.overlay_eq] at hover hvIn hfee hstake
  rw [if_neg Bool.false_ne_true] at hpos
  constructor
  · rw [hover, indexAfter_append, txPos, hinv.nTxPos_eq]
  · rw [hpos, hinv.nTxPos_eq]
    simp [Nat.add_assoc]
  · rw [hvIn, hinv.nValueIn_eq, Loop.sumAlong_append]; rfl
  · rw [hvOut, hinv.nValueOut_eq, Loop.sumAlong_append]
  · rw [hfee, hinv.nFees_eq, Loop.sumAlong_append]; rfl
  · intro hcount
    rw [List.countP_append, List.countP_singleton] at hcount
    rw [hstake, Loop.sumAlong_append]
    by_cases hcs : tx.isCoinStake = true
    · have hnone : ∀ t ∈ done, t.isCoinStake = false := by
        simp only [hcs, if_true] at hcount
        have h0 : done.countP CTransaction.isCoinStake = 0 := by omega
        simpa [List.countP_eq_zero] using h0
      rw [sumAlong_turnStake_eq_zero hnone, if_pos hcs]
      simp [turnStake, hcs, turnIn]
    · rw [if_neg hcs, hinv.nStakeReward_eq (by omega)]
      simp [turnStake, hcs]

theorem loopInv_init :
    LoopInv env node block pindex [] { nTxPos := firstTxPos pindex block false } :=
  ⟨overlay_empty _, by simp, rfl, rfl, rfl, fun _ => rfl⟩

/-- **The whole loop**: the invariant at the end, and the rounds. -/
theorem connectLoop_ok
    (h : block.vtx.foldlM (connectTx env ctx node pindex false) { nTxPos := firstTxPos pindex block false } = .ok st) :
    LoopInv env node block pindex block.vtx st ∧
      ∀ done tx rest, block.vtx = done ++ tx :: rest → ∃ st1 st2,
        LoopInv env node block pindex done st1 ∧
          connectTx env ctx node pindex false st1 tx = .ok st2 :=
  have hstep : ∀ done tx (rest : List CTransaction) st st', block.vtx = done ++ tx :: rest →
      LoopInv env node block pindex done st → connectTx env ctx node pindex false st tx = .ok st' →
      LoopInv env node block pindex (done ++ [tx]) st' :=
    fun _ _ _ _ _ _ hinv hround => loopInv_step hinv hround
  ⟨Loop.foldlM_inv _ h loopInv_init hstep, Loop.foldlM_rounds _ h loopInv_init hstep⟩

/-! ### The writes -/

theorem writeQueued_txIndexMap (txdb : CTxDB) (q : StdMap Uint256 CTxIndex) :
    (writeQueued txdb q).txIndexMap = overlay q txdb.txIndexMap := by
  have key : ∀ (l : List (Sigma fun _ : Uint256 => CTxIndex)) (hl : l.NodupKeys) (txdb : CTxDB),
      (l.foldl (fun txdb e => txdb.updateTxIndex e.1 e.2) txdb).txIndexMap
        = overlay ⟨l, hl⟩ txdb.txIndexMap := by
    intro l
    induction l with
    | nil => intro _ txdb; exact (overlay_empty _).symm
    | cons e l ih =>
      intro hl txdb
      obtain ⟨h, txindex⟩ := e
      have hnot := (List.nodupKeys_cons.mp hl).1
      rw [List.foldl_cons, ih (List.nodupKeys_cons.mp hl).2, CTxDB.txIndexMap_updateTxIndex]
      funext k
      simp only [overlay, AList.lookup]
      by_cases hk : k = h
      · subst hk
        rw [List.dlookup_eq_none.mpr hnot, List.dlookup_cons_eq]
        simp
      · rw [List.dlookup_cons_ne _ _ hk, Function.update_of_ne hk]
  exact key q.entries q.nodupKeys txdb

theorem frame_writeQueued (txdb : CTxDB) (q : StdMap Uint256 CTxIndex) :
    Frame IsTxKey txdb (writeQueued txdb q) :=
  frame_foldl (fun _ (e : Sigma fun _ : Uint256 => CTxIndex) =>
    CTxDB.frame_updateTxIndex e.1 e.2) q.entries txdb

theorem frame_writeAddrs (hashTx : Uint256) (txdb : CTxDB) (txout : CTxOut) :
    Frame IsAddrKey txdb (writeAddrs env hashTx txdb txout) := by
  unfold writeAddrs
  split
  · exact CTxDB.Frame.refl _ _
  · exact frame_foldl (fun _ addrId => CTxDB.frame_writeAddrIndex addrId hashTx) _ txdb

/-- The handle a computation on the database ends with, failed or not. -/
def dbOf : Except (Reject × CTxDB) CTxDB → CTxDB
  | .ok txdb => txdb
  | .error e => e.2

theorem frame_writeAddrIndexTx (pool : CTxMemPool) (txdb : CTxDB) (tx : CTransaction) :
    Frame IsAddrKey txdb (dbOf (writeAddrIndexTx env pool txdb tx)) := by
  have hout : ∀ (vout : List CTxOut) (db : CTxDB),
      Frame IsAddrKey db (vout.foldl (writeAddrs env (env.getHash tx)) db) :=
    fun vout db => frame_foldl (frame_writeAddrs _) vout db
  unfold writeAddrIndexTx
  by_cases hcb : tx.isCoinBase = true
  · simp only [hcb, if_true]
    exact hout tx.vout txdb
  · simp only [hcb, Bool.false_eq_true, if_false]
    cases fetchInputs env txdb pool ∅ true false tx with
    | error r => exact CTxDB.Frame.refl _ _
    | ok mapInputs =>
      exact (frame_foldl (fun db (e : Sigma fun _ : Uint256 => CTxIndex × CTransaction) =>
        hout e.2.2.vout db) mapInputs.entries txdb).trans (hout tx.vout _)

theorem frame_foldlM {α : Type} {W : DbKey → Prop} {f : CTxDB → α → Except (Reject × CTxDB) CTxDB}
    (hf : ∀ db x, Frame W db (dbOf (f db x))) (xs : List α) :
    ∀ db, Frame W db (dbOf (xs.foldlM f db)) := by
  induction xs with
  | nil => exact fun db => CTxDB.Frame.refl W db
  | cons x xs ih =>
    intro db
    rw [List.foldlM_cons]
    have hx := hf db x
    cases hfx : f db x with
    | error e => rw [hfx] at hx; exact hx
    | ok db' => rw [hfx] at hx; exact hx.trans (ih db')

theorem frame_writeHashNext (node : Node) (txdb : CTxDB) (pindex : CBlockIndex)
    (hashNext : Uint256) :
    Frame IsBlockKey txdb (writeHashNext node txdb pindex hashNext) := by
  unfold writeHashNext
  split
  · exact CTxDB.Frame.refl _ _
  · exact CTxDB.frame_writeBlockIndex _

/-- The keys `ConnectBlock` and `DisconnectBlock` may write. -/
def IsIndexKey (key : DbKey) : Prop :=
  IsTxKey key ∨ IsBlockKey key ∨ IsAddrKey key

theorem isIndexKey_of_isTxKey (key : DbKey) (h : IsTxKey key) : IsIndexKey key := .inl h

theorem isIndexKey_of_isBlockKey (key : DbKey) (h : IsBlockKey key) : IsIndexKey key :=
  .inr (.inl h)

theorem isIndexKey_of_isAddrKey (key : DbKey) (h : IsAddrKey key) : IsIndexKey key :=
  .inr (.inr h)

/-- What the node looks like after the writes of `ConnectBlock`, failed or not: only the entry of the
block, the database and the wallet have changed, and of the database only the three indexes. -/
def BlockWritten (node : Node) (pindex : CBlockIndex) (node' : Node) : Prop :=
  ∃ txdb walletSyncs, Frame IsIndexKey node.txdb txdb ∧
    node' = { node with
      mapBlockIndex := Function.update node.mapBlockIndex pindex.hashBlock (some pindex)
      txdb := txdb
      walletSyncs := walletSyncs }

/-- The handle after the block's own record and the queued changes have been written. -/
def writtenQueued (node : Node) (pindex : CBlockIndex) (st : ConnectState) : CTxDB :=
  writeQueued (node.txdb.writeBlockIndex (CDiskBlockIndex.ofIndex pindex)) st.mapQueuedChanges

theorem frame_writtenQueued (node : Node) (pindex : CBlockIndex) (st : ConnectState) :
    Frame IsIndexKey node.txdb (writtenQueued node pindex st) :=
  ((CTxDB.frame_writeBlockIndex _).mono isIndexKey_of_isBlockKey).trans
    ((frame_writeQueued _ _).mono isIndexKey_of_isTxKey)

/-- The address index step of `ConnectBlock`. -/
def writtenAddrs (env : Env) (node : Node) (block : CBlock) (txdb : CTxDB) :
    Except (Reject × CTxDB) CTxDB :=
  if env.fAddrIndex then block.vtx.foldlM (writeAddrIndexTx env node.mempool) txdb else .ok txdb

theorem frame_writtenAddrs (env : Env) (node : Node) (block : CBlock) (txdb : CTxDB) :
    Frame IsAddrKey txdb (dbOf (writtenAddrs env node block txdb)) := by
  unfold writtenAddrs
  split_ifs
  · exact frame_foldlM (frame_writeAddrIndexTx node.mempool) block.vtx txdb
  · exact CTxDB.Frame.refl _ _

theorem connectWrites_eq (st : ConnectState) :
    connectWrites env node block pindex st false =
      let entry := recordSupply node.mapBlockIndex pindex st
      let node1 : Node := { node with
        mapBlockIndex := Function.update node.mapBlockIndex entry.hashBlock (some entry) }
      match writtenAddrs env node block (writtenQueued node entry st) with
      | .error (r, txdb) => .error (r, { node1 with txdb := txdb })
      | .ok txdb => .ok { node1 with
          txdb := writeHashNext node1 txdb entry entry.hashBlock
          walletSyncs := node.walletSyncs ++ block.vtx.map fun tx => (tx, true) } := rfl

theorem connectWrites_error {r : Reject}
    (h : connectWrites env node block pindex st false = .error (r, node')) :
    BlockWritten node (recordSupply node.mapBlockIndex pindex st) node' := by
  have hframe := frame_writtenAddrs env node block
    (writtenQueued node (recordSupply node.mapBlockIndex pindex st) st)
  rw [connectWrites_eq] at h
  simp only at h
  split at h
  · next r' txdb heq =>
    rw [heq, dbOf] at hframe
    obtain ⟨-, rfl⟩ := Prod.mk.inj (Except.error.inj h)
    exact ⟨txdb, node.walletSyncs, (frame_writtenQueued _ _ _).trans
      (hframe.mono isIndexKey_of_isAddrKey), rfl⟩
  · cases h

/-- The state a successful `ConnectBlock` ends in. -/
structure Connected (env : Env) (node : Node) (block : CBlock) (pindex : CBlockIndex)
    (st : ConnectState) (node' : Node) : Prop where
  checked : Checked env block
  loop : LoopInv env node block pindex block.vtx st
  inputsOk : ∀ done tx rest, block.vtx = done ++ tx :: rest →
    InputsOk env node.mempool (indexAfter env pindex block node.txdb.txIndexMap done) tx
  reward : checkReward env node pindex block st = .ok ()
  written : BlockWritten node (recordSupply node.mapBlockIndex pindex st) node'
  txIndexMap_eq : node'.txdb.txIndexMap
    = indexAfter env pindex block node.txdb.txIndexMap block.vtx

theorem connectWrites_ok (h : connectWrites env node block pindex st false = .ok node') :
    BlockWritten node (recordSupply node.mapBlockIndex pindex st) node' ∧
      node'.txdb.txIndexMap = overlay st.mapQueuedChanges node.txdb.txIndexMap := by
  set entry := recordSupply node.mapBlockIndex pindex st with hentry
  have haddr := frame_writtenAddrs env node block (writtenQueued node entry st)
  rw [connectWrites_eq] at h
  simp only [← hentry] at h
  split at h
  · cases h
  · next txdb heq =>
    rw [heq, dbOf] at haddr
    obtain rfl := Except.ok.inj h
    have hnext := frame_writeHashNext { node with
      mapBlockIndex := Function.update node.mapBlockIndex entry.hashBlock (some entry) }
      txdb entry entry.hashBlock
    refine ⟨⟨_, _, (frame_writtenQueued _ _ _).trans ((haddr.mono isIndexKey_of_isAddrKey).trans
      (hnext.mono isIndexKey_of_isBlockKey)), rfl⟩, ?_⟩
    rw [hnext.txIndexMap_eq (by rintro hash ⟨_, hc⟩; cases hc),
      haddr.txIndexMap_eq (by rintro hash ⟨_, hc⟩; cases hc), writtenQueued,
      writeQueued_txIndexMap]
    congr 1
    exact (CTxDB.frame_writeBlockIndex _).txIndexMap_eq (by rintro hash ⟨_, hc⟩; cases hc)

theorem connectBlock_ok (h : connectBlock env ctx node block pindex = .ok node') :
    ∃ st, Connected env node block pindex st node' := by
  unfold connectBlock at h
  split at h
  · cases h
  next st hchecks =>
  simp only [connectChecks, exceptBind_ok] at hchecks
  obtain ⟨⟨⟩, hcheck, st', hloop, ⟨⟩, hreward, hst⟩ := hchecks
  obtain rfl := Except.ok.inj hst
  obtain ⟨hinv, hrounds⟩ := connectLoop_ok hloop
  obtain ⟨hwritten, hmap⟩ := connectWrites_ok h
  refine ⟨st', checkBlock_ok hcheck, hinv, fun done tx rest hvtx => ?_, hreward, hwritten,
    hmap.trans hinv.overlay_eq⟩
  obtain ⟨st1, st2, hinv1, hround⟩ := hrounds done tx rest hvtx
  rw [← hinv1.overlay_eq]
  exact (connectTx_ok hround).1

/-- A failed `ConnectBlock` has written nothing but index keys and the supply of the block. -/
theorem connectBlock_error {r : Reject} (h : connectBlock env ctx node block pindex = .error (r, node')) :
    node' = node ∨ ∃ st, BlockWritten node (recordSupply node.mapBlockIndex pindex st) node' := by
  unfold connectBlock at h
  split at h
  · exact .inl (Prod.mk.inj (Except.error.inj h)).2.symm
  · exact .inr ⟨_, connectWrites_error h⟩

/-! ### A sample chain state -/

def fundingTx : CTransaction :=
  { nTime := 1, vin := [⟨⟨7, 0⟩, [], uintMax⟩], vout := [⟨5 * coin, [1], -10⟩, ⟨5 * coin, [1], -10⟩] }

/-- A coinbase for height 2 that claims the whole subsidy. -/
def claimingCoinbase : CTransaction :=
  { nTime := 10, vin := [⟨COutPoint.null, [0x52, 0], uintMax⟩], vout := [⟨10000 * coin, [1], -10⟩] }

def ordinaryTx : CTransaction :=
  { nTime := 11, vin := [⟨⟨1001, 0⟩, [], uintMax⟩], vout := [⟨5 * coin, [1], -10⟩] }

def sampleTxHash (tx : CTransaction) : Uint256 := 1000 + tx.nTime

def sampleBlockHash (block : CBlock) : Uint256 := 100 + block.nTime

def fundingBlock : CBlock :=
  { hashPrevBlock := 0, nTime := 5, vtx := [{ claimingCoinbase with nTime := 0 }, fundingTx] }

def sampleBlock (vtx : List CTransaction) : CBlock :=
  { hashPrevBlock := 105, nTime := 20, vtx := vtx,
    hashMerkleRoot := CBlock.buildMerkleTree (· + ·) (vtx.map sampleTxHash) }

def sampleEnv (vtx : List CTransaction) : Env :=
  Env.permissive sampleTxHash sampleBlockHash (fun _ _ _ _ _ _ => true)
    (BlockFiles.ofBlocks [fundingBlock, sampleBlock vtx])

def fundingIndex : CBlockIndex :=
  { hashBlock := 105, nFile := 1, nBlockPos := 8, nHeight := 1, nMoneySupply := 10 * coin }

/-- The entry of the sample block, as `AddToBlockIndex` makes it. -/
def sampleIndex : CBlockIndex :=
  { hashBlock := 120, pprev := some 105, nFile := 2, nBlockPos := 8, nHeight := 2 }

def sampleNode (entries : List CBlockIndex) : Node where
  mapBlockIndex h := entries.find? fun pindex => pindex.hashBlock = h
  pindexGenesisBlock := some 105
  pindexBest := some 105
  hashBestChain := 105
  nBestHeight := 1
  nBestChainTrust := 0
  nBestInvalidTrust := 0
  nBlockSequenceId := 0
  setStakeSeen := []
  txdb := ⟨Function.update (fun _ => none) (.tx 1001)
    (some (.txIndex (CTxIndex.mk' (.pos 1 8 (8 + fundingBlock.txOffset 1)) 2))), none⟩
  mempool := {}
  walletSyncs := []

def sampleCtx : Ctx where
  nAdjustedTime := 20
  fInitialDownload := false
  fBlockFiltering := true
  mapLockedInputs _ := none
  vWinning := []
  isStandardTx _ := true
  areInputsStandard _ := true
  acceptFees _ _ := true

example : (connectBlock (sampleEnv [claimingCoinbase, ordinaryTx]) sampleCtx
    (sampleNode [fundingIndex, sampleIndex]) (sampleBlock [claimingCoinbase, ordinaryTx])
    sampleIndex).isOk = true := by decide

end Sphinx
