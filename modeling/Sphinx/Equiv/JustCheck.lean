import Sphinx.Equiv.ConnectBlock

/-!
# `ConnectBlock` as a check

With `fJustCheck` the return comes after the mint amount and the money supply have been recorded and the
entry has been written.  So a block that fails a check leaves everything as it was, and a block that passes
leaves it only if all of this was recorded before.

* `connectChecks_ok_totals`: what the loop adds up, for a check;
* `isPureCheck_iff`: when a check leaves the database and the entry as they were.
-/

namespace Sphinx

variable {env : Env} {ctx : Ctx} {node : Node} {block : CBlock} {pindex : CBlockIndex}
variable {st : ConnectState}

/-! ### What a block mints -/

/-- The index after the transactions `done`, when all of them are at one position. -/
def checkedIndex (env : Env) (pindex : CBlockIndex) (M : TxIndexMap) (done : List CTransaction) : TxIndexMap :=
  done.foldl (fun M tx => connectMap env M tx (.pos pindex.nFile pindex.nBlockPos 1)) M

theorem checkedIndex_append (M : TxIndexMap) (done : List CTransaction) (tx : CTransaction) :
    checkedIndex env pindex M (done ++ [tx]) =
      connectMap env (checkedIndex env pindex M done) tx (.pos pindex.nFile pindex.nBlockPos 1) := by
  simp only [checkedIndex, List.foldl_append, List.foldl_cons, List.foldl_nil]

/-- What a transaction pays out beyond what it takes in, after the transactions `done`. -/
def checkedGain (env : Env) (node : Node) (pindex : CBlockIndex) (done : List CTransaction) (tx : CTransaction) :
    CAmount :=
  tx.valueOut - valueIn env node.mempool (checkedIndex env pindex node.txdb.txIndexMap done) tx

/-- The same, for the coinbase and the coinstake alone. -/
def checkedMint (env : Env) (node : Node) (pindex : CBlockIndex) (done : List CTransaction) (tx : CTransaction) :
    CAmount :=
  if tx.isCoinBase || tx.isCoinStake then checkedGain env node pindex done tx else 0

/-- What a block adds to the money supply. -/
def blockGain (env : Env) (node : Node) (block : CBlock) (pindex : CBlockIndex) : CAmount :=
  Loop.sumAlong (checkedGain env node pindex) [] block.vtx

/-- What the coinbase and the coinstake of a block pay out beyond what they take in. -/
def blockMint (env : Env) (node : Node) (block : CBlock) (pindex : CBlockIndex) : CAmount :=
  Loop.sumAlong (checkedMint env node pindex) [] block.vtx

/-! ### The loop of a check -/

/-- The loop invariant, after the transactions `done`. -/
structure CheckInv (env : Env) (node : Node) (pindex : CBlockIndex) (done : List CTransaction)
    (st : ConnectState) : Prop where
  overlay_eq : overlay st.mapQueuedChanges node.txdb.txIndexMap =
    checkedIndex env pindex node.txdb.txIndexMap done
  nTxPos_eq : st.nTxPos = 1
  gain_eq : st.nValueOut - st.nValueIn = Loop.sumAlong (checkedGain env node pindex) [] done
  mint_eq : st.nValueOut - st.nValueIn + st.nFees = Loop.sumAlong (checkedMint env node pindex) [] done

theorem checkInv_step {done : List CTransaction} {st' : ConnectState} {tx : CTransaction}
    (hinv : CheckInv env node pindex done st) (h : connectTx env ctx node pindex true st tx = .ok st') :
    CheckInv env node pindex (done ++ [tx]) st' := by
  obtain ⟨-, hover, hpos, hvIn, hvOut, hfee, -⟩ := connectTx_ok h
  rw [hinv.overlay_eq] at hover hvIn hfee
  have hgain : st'.nValueOut - st'.nValueIn = st.nValueOut - st.nValueIn + checkedGain env node pindex done tx := by
    rw [hvIn, hvOut, checkedGain]
    ring
  constructor
  · rw [hover, hinv.nTxPos_eq, checkedIndex_append]
  · rw [hpos, if_pos rfl, hinv.nTxPos_eq]
  · rw [hgain, hinv.gain_eq, Loop.sumAlong_append]
  · -- what an ordinary transaction does not pay out is its fee
    have hmint : checkedGain env node pindex done tx +
        (if tx.isCoinBase || tx.isCoinStake then 0 else
          valueIn env node.mempool (checkedIndex env pindex node.txdb.txIndexMap done) tx - tx.valueOut) =
        checkedMint env node pindex done tx := by
      rw [checkedMint]
      split_ifs
      · exact add_zero _
      · rw [checkedGain]
        ring
    rw [hgain, hfee, Loop.sumAlong_append, ← hinv.mint_eq, ← hmint]
    ring

theorem connectChecks_ok_totals (h : connectChecks env ctx node block pindex true = .ok st) :
    st.nValueOut - st.nValueIn = blockGain env node block pindex ∧
      st.nValueOut - st.nValueIn + st.nFees = blockMint env node block pindex := by
  simp only [connectChecks, exceptBind_ok] at h
  obtain ⟨-, -, st', hloop, -, -, h⟩ := h
  obtain rfl := Except.ok.inj h
  have hinit : CheckInv env node pindex [] { nTxPos := firstTxPos pindex block true } :=
    ⟨overlay_empty _, rfl, rfl, rfl⟩
  have hinv := Loop.foldlM_inv (CheckInv env node pindex) hloop hinit
    fun _ _ _ _ _ _ hinv hround => checkInv_step hinv hround
  exact ⟨hinv.gain_eq, hinv.mint_eq⟩

/-! ### What a check leaves -/

/-- The call leaves the database, with its open batch, and the entry as they were. -/
structure IsPureCheck (env : Env) (ctx : Ctx) (node : Node) (block : CBlock) (pindex : CBlockIndex) : Prop where
  txdb_eq : (nodeOf (connectBlock env ctx node block pindex true)).txdb = node.txdb
  entry_eq : (nodeOf (connectBlock env ctx node block pindex true)).mapBlockIndex pindex.hashBlock = some pindex

/-- The entry and the database have everything that `ConnectBlock` would record, and no batch is open. -/
structure SupplyRecorded (env : Env) (node : Node) (block : CBlock) (pindex : CBlockIndex) : Prop where
  nMint_eq : pindex.nMint = blockMint env node block pindex
  nMoneySupply_eq : pindex.nMoneySupply = prevMoneySupply node.mapBlockIndex pindex + blockGain env node block pindex
  noBatch : node.txdb.activeBatch = none
  stored : node.txdb.pdb (.blockindex pindex.hashBlock) = some (.diskIndex (CDiskBlockIndex.ofIndex pindex))

theorem recordSupply_eq_iff (h : connectChecks env ctx node block pindex true = .ok st) :
    recordSupply node.mapBlockIndex pindex st = pindex ↔ pindex.nMint = blockMint env node block pindex ∧
      pindex.nMoneySupply = prevMoneySupply node.mapBlockIndex pindex + blockGain env node block pindex := by
  obtain ⟨hgain, hmint⟩ := connectChecks_ok_totals h
  have hsupply : prevMoneySupply node.mapBlockIndex pindex + st.nValueOut - st.nValueIn =
      prevMoneySupply node.mapBlockIndex pindex + blockGain env node block pindex := by
    rw [← hgain]
    ring
  constructor
  · intro heq
    have h1 := congrArg CBlockIndex.nMint heq
    have h2 := congrArg CBlockIndex.nMoneySupply heq
    simp only [recordSupply, hmint, hsupply] at h1 h2
    exact ⟨h1.symm, h2.symm⟩
  · rintro ⟨h1, h2⟩
    rw [recordSupply, hmint, hsupply, ← h1, ← h2]

/-- A write without a batch that changes nothing wrote what was there; with a batch the operation is added. -/
theorem writeBlockIndex_eq_self_iff {txdb : CTxDB} {blockindex : CDiskBlockIndex} :
    txdb.writeBlockIndex blockindex = txdb ↔ txdb.activeBatch = none ∧
      txdb.pdb (.blockindex blockindex.blockHash) = some (.diskIndex blockindex) := by
  rcases txdb with ⟨pdb, _ | ops⟩
  · simp only [CTxDB.writeBlockIndex, CTxDB.write, CTxDB.mk.injEq, and_true, true_and]
    constructor
    · intro h
      have := congrFun h (.blockindex blockindex.blockHash)
      rw [Function.update_self] at this
      exact this.symm
    · intro h
      rw [← h, Function.update_eq_self]
  · simp [CTxDB.writeBlockIndex, CTxDB.write]

theorem nodeOf_connectBlock_error {r : Reject} (h : connectChecks env ctx node block pindex true = .error r) :
    nodeOf (connectBlock env ctx node block pindex true) = node := by
  rw [connectBlock, h]
  rfl

theorem nodeOf_connectBlock_ok (h : connectChecks env ctx node block pindex true = .ok st) :
    nodeOf (connectBlock env ctx node block pindex true) =
      let entry := recordSupply node.mapBlockIndex pindex st
      { node with
        mapBlockIndex := Function.update node.mapBlockIndex entry.hashBlock (some entry)
        txdb := node.txdb.writeBlockIndex (CDiskBlockIndex.ofIndex entry) } := by
  rw [connectBlock, h]
  rfl

/-- **`ConnectBlock` as a check** leaves the database and the entry of the block as they were exactly when the
block fails a check, or when there is nothing new to record. -/
theorem isPureCheck_iff (hpindex : node.mapBlockIndex pindex.hashBlock = some pindex) :
    IsPureCheck env ctx node block pindex ↔
      (connectChecks env ctx node block pindex true).isOk = false ∨ SupplyRecorded env node block pindex := by
  cases hchecks : connectChecks env ctx node block pindex true with
  | error r =>
    have hnode := nodeOf_connectBlock_error hchecks
    refine ⟨fun _ => .inl rfl, fun _ => ⟨?_, ?_⟩⟩
    · rw [hnode]
    · rw [hnode]
      exact hpindex
  | ok st =>
    have hnode := nodeOf_connectBlock_ok hchecks
    have hentry := recordSupply_eq_iff hchecks
    constructor
    · rintro ⟨htxdb, hmap⟩
      simp only [hnode] at htxdb hmap
      have hhash : (recordSupply node.mapBlockIndex pindex st).hashBlock = pindex.hashBlock := rfl
      rw [hhash, Function.update_self, Option.some.injEq] at hmap
      rw [hmap] at htxdb
      obtain ⟨h1, h2⟩ := hentry.mp hmap
      obtain ⟨h3, h4⟩ := writeBlockIndex_eq_self_iff.mp htxdb
      exact .inr ⟨h1, h2, h3, h4⟩
    · rintro (hc | ⟨h1, h2, h3, h4⟩)
      · cases hc
      · have heq := hentry.mpr ⟨h1, h2⟩
        constructor
        · rw [hnode]
          simp only [heq]
          exact writeBlockIndex_eq_self_iff.mpr ⟨h3, h4⟩
        · rw [hnode]
          simp only [heq]
          exact Function.update_self _ _ _

/-- A block without transactions fails, and changes nothing. -/
theorem isPureCheck_empty :
    IsPureCheck (sampleEnv []) sampleCtx (sampleNode [fundingIndex, sampleIndex]) (sampleBlock []) sampleIndex :=
  (isPureCheck_iff (by decide)).mpr (.inl (by decide))

/-- The check of a good block records its mint amount and writes its entry. -/
theorem justCheck_records :
    (sampleNode [fundingIndex, sampleIndex]).mapBlockIndex sampleIndex.hashBlock = some sampleIndex ∧
      (connectBlock (sampleEnv [claimingCoinbase, ordinaryTx]) sampleCtx (sampleNode [fundingIndex, sampleIndex])
        (sampleBlock [claimingCoinbase, ordinaryTx]) sampleIndex true).isOk = true ∧
      ¬ IsPureCheck (sampleEnv [claimingCoinbase, ordinaryTx]) sampleCtx (sampleNode [fundingIndex, sampleIndex])
        (sampleBlock [claimingCoinbase, ordinaryTx]) sampleIndex := by
  refine ⟨by decide, by decide, fun h => ?_⟩
  have hmint : (nodeOf (connectBlock (sampleEnv [claimingCoinbase, ordinaryTx]) sampleCtx
      (sampleNode [fundingIndex, sampleIndex]) (sampleBlock [claimingCoinbase, ordinaryTx]) sampleIndex
      true)).mapBlockIndex sampleIndex.hashBlock ≠ some sampleIndex := by decide
  exact hmint h.entry_eq

end Sphinx
