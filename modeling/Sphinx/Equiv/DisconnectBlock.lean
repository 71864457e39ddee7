import Sphinx.Equiv.ConnectBlock

/-!
# `DisconnectBlock` undoes `ConnectBlock`

One transaction is undone by `disconnectInputs_connectMap`; since `DisconnectBlock` goes through the
block in reverse, the whole block is undone by induction from its end (`disconnectLoop_total`).

* `disconnectBlock_connectBlock`: a block that has been connected and whose transactions were not
  indexed before can be disconnected, and the transaction index is what it was.
-/

namespace Sphinx

variable {env : Env} {ctx : Ctx} {node : Node} {block : CBlock} {pindex : CBlockIndex}
variable {M : TxIndexMap} {tx : CTransaction}

theorem connectMap_eq_none {p : CDiskTxPos} {h : Uint256} (hne : h ≠ env.getHash tx) :
    connectMap env M tx p h = none ↔ M h = none := by
  rw [connectMap, Function.update_of_ne hne]
  split_ifs
  · rfl
  · exact setSpentAll_eq_none

/-- A hash that is none of the transactions' is indexed after them exactly when it was before. -/
theorem indexAfter_eq_none {done : List CTransaction} {h : Uint256}
    (hne : ∀ tx ∈ done, h ≠ env.getHash tx) :
    indexAfter env pindex block M done h = none ↔ M h = none := by
  induction done using List.reverseRecOn with
  | nil => rfl
  | append_singleton done tx ih =>
    rw [indexAfter_append, connectMap_eq_none (hne tx (by simp))]
    exact ih fun t ht => hne t (by simp [ht])

/-- A transaction that is not a coinbase spends unspent outputs only. -/
def SpendsUnspent (M : TxIndexMap) (tx : CTransaction) : Prop :=
  tx.isCoinBase = false → ∀ o ∈ tx.prevouts, IsUnspent M o

theorem InputsOk.spendsUnspent {pool : CTxMemPool} (h : InputsOk env pool M tx) :
    SpendsUnspent M tx := fun hcb => (h hcb).1

/-- **One transaction.**  What connecting it did to the index, `DisconnectInputs` undoes. -/
theorem disconnectInputs_connectMap {txdb : CTxDB} {p : CDiskTxPos} (hin : SpendsUnspent M tx)
    (hnew : M (env.getHash tx) = none) (hdb : txdb.txIndexMap = connectMap env M tx p) :
    ∃ txdb', disconnectInputs env txdb tx = .ok txdb' ∧ txdb'.txIndexMap = M := by
  have hback : ∀ v, Function.update (Function.update M (env.getHash tx) v) (env.getHash tx) none
      = M := fun v => by rw [Function.update_idem, ← hnew, Function.update_eq_self]
  by_cases hcb : tx.isCoinBase = true
  · refine ⟨txdb.eraseTxIndex (env.getHash tx), by simp [disconnectInputs, hcb], ?_⟩
    rw [CTxDB.txIndexMap_eraseTxIndex, hdb, connectMap, if_pos hcb, hback]
  · have hunspent := hin (by simpa using hcb)
    -- an output that is spent belongs to an indexed transaction, hence not to this one
    have hne : ∀ o ∈ tx.prevouts, o.hash ≠ env.getHash tx := by
      rintro o ho heq
      obtain ⟨txindex, hM, -⟩ := hunspent o ho
      rw [heq, hnew] at hM
      cases hM
    rw [connectMap, if_neg hcb] at hdb
    have hexists : ∀ o ∈ tx.prevouts, OutputExists txdb.txIndexMap o := by
      intro o ho
      obtain ⟨txindex, hM, hn⟩ :=
        (outputExists_setSpentAll tx.prevouts p).mpr (hunspent o ho).outputExists
      exact ⟨txindex, by rw [hdb, Function.update_of_ne (hne o ho), hM], hn⟩
    obtain ⟨txdb1, hfold, hmap⟩ := unspendInputs_total txdb tx.prevouts hexists
    refine ⟨txdb1.eraseTxIndex (env.getHash tx), by simp [disconnectInputs, hcb, hfold], ?_⟩
    rw [CTxDB.txIndexMap_eraseTxIndex, hmap, hdb, setSpentAll_update_of_ne hne,
      setSpentAll_null_setSpentAll hunspent, hback]

/-- **The loop of `DisconnectBlock`**, from the index after the transactions `done`. -/
theorem disconnectLoop_total {done : List CTransaction} :
    ∀ {txdb : CTxDB},
    (∀ done' tx rest, done = done' ++ tx :: rest →
      SpendsUnspent (indexAfter env pindex block M done') tx) →
    (∀ tx ∈ done, M (env.getHash tx) = none) → (done.map env.getHash).Nodup →
    txdb.txIndexMap = indexAfter env pindex block M done →
    ∃ txdb', done.reverse.foldlM (disconnectInputs env) txdb = .ok txdb' ∧
      txdb'.txIndexMap = M := by
  induction done using List.reverseRecOn with
  | nil =>
    intro txdb _ _ _ hdb
    exact ⟨txdb, rfl, hdb⟩
  | append_singleton done tx ih =>
    intro txdb hin hnew hnodup hdb
    rw [List.map_append, List.map_singleton, List.nodup_append] at hnodup
    obtain ⟨hnodup', -, hdisj⟩ := hnodup
    have htx : indexAfter env pindex block M done (env.getHash tx) = none :=
      (indexAfter_eq_none fun t ht => (hdisj _ (List.mem_map_of_mem ht) _ (by simp)).symm).mpr
        (hnew tx (by simp))
    rw [indexAfter_append] at hdb
    obtain ⟨txdb1, hstep, hmap1⟩ := disconnectInputs_connectMap (hin done tx [] rfl) htx hdb
    obtain ⟨txdb2, hrest, hmap2⟩ := ih (fun done' t rest heq => hin done' t (rest ++ [tx])
      (by rw [heq]; simp)) (fun t ht => hnew t (by simp [ht])) hnodup' hmap1
    refine ⟨txdb2, ?_, hmap2⟩
    rw [List.reverse_append, List.reverse_singleton, List.singleton_append, List.foldlM_cons,
      hstep]
    exact hrest

/-- `DisconnectBlock` from the index after a block. -/
theorem disconnectBlock_total
    (hin : ∀ done tx rest, block.vtx = done ++ tx :: rest → SpendsUnspent (indexAfter env pindex block M done) tx)
    (hnew : ∀ tx ∈ block.vtx, M (env.getHash tx) = none) (hnodup : (block.vtx.map env.getHash).Nodup)
    (hdb : node.txdb.txIndexMap = indexAfter env pindex block M block.vtx) (pindex' : CBlockIndex) :
    ∃ node', disconnectBlock env node block pindex' = .ok node' ∧
      node'.txdb.txIndexMap = M ∧ node'.mapBlockIndex = node.mapBlockIndex ∧
      ∀ pprev, pindex'.pprev.bind node.mapBlockIndex = some pprev →
        node'.txdb.readBlockIndex pprev.hashBlock
          = some { CDiskBlockIndex.ofIndex pprev with hashNext := 0 } := by
  obtain ⟨txdb, hfold, hmap⟩ := disconnectLoop_total hin hnew hnodup hdb
  refine ⟨{ node with
    txdb := writeHashNext node txdb pindex' 0
    walletSyncs := node.walletSyncs ++ block.vtx.map fun tx => (tx, false) },
    by rw [disconnectBlock, hfold], ?_, rfl, fun pprev hprev => ?_⟩
  · rw [← hmap]
    exact (frame_writeHashNext node txdb pindex' 0).txIndexMap_eq (by rintro hash ⟨_, hc⟩; cases hc)
  · rw [writeHashNext, hprev]
    exact (CTxDB.readBlockIndex_writeBlockIndex _ _).trans (if_pos rfl)

/-- **`DisconnectBlock` undoes `ConnectBlock`.**  A block whose transactions are not indexed yet and
which `ConnectBlock` connects can be disconnected from the state reached; the transaction index is
then the one before, and the stored record of the parent has `hashNext = 0`. -/
theorem disconnectBlock_connectBlock {node' : Node}
    (hnew : ∀ tx ∈ block.vtx, node.txdb.readTxIndex (env.getHash tx) = none)
    (h : connectBlock env ctx node block pindex = .ok node') :
    ∃ pindex' node'', node'.mapBlockIndex pindex.hashBlock = some pindex' ∧
      pindex'.pprev = pindex.pprev ∧
      disconnectBlock env node' block pindex' = .ok node'' ∧
      node''.txdb.readTxIndex = node.txdb.readTxIndex ∧
      ∀ pprev, pindex.pprev.bind node'.mapBlockIndex = some pprev →
        (node''.txdb.readBlockIndex pprev.hashBlock).map CDiskBlockIndex.hashNext = some 0 := by
  obtain ⟨st, hconn⟩ := connectBlock_ok h
  obtain ⟨node'', hdis, hmap, -, hprev⟩ := disconnectBlock_total
    (fun done tx rest hvtx => (hconn.inputsOk done tx rest hvtx).spendsUnspent) hnew
    hconn.checked.nodup hconn.txIndexMap_eq (recordSupply node.mapBlockIndex pindex st)
  refine ⟨recordSupply node.mapBlockIndex pindex st, node'', ?_, rfl, hdis, hmap,
    fun pprev hp => ?_⟩
  · obtain ⟨txdb, syncs, -, rfl⟩ := hconn.written
    exact Function.update_self _ _ _
  · rw [hprev pprev hp]; rfl

def chainedTx : CTransaction :=
  { nTime := 12, vin := [⟨⟨1011, 0⟩, [], uintMax⟩, ⟨⟨1001, 1⟩, [], uintMax⟩],
    vout := [⟨9 * coin, [1], -10⟩] }

/-- A block with a spend inside the block, connected and disconnected. -/
theorem disconnectBlock_connectBlock_chained :
    let vtx := [claimingCoinbase, ordinaryTx, chainedTx]
    let node := sampleNode [fundingIndex, sampleIndex]
    ∃ node' pindex' node'',
      connectBlock (sampleEnv vtx) sampleCtx node (sampleBlock vtx) sampleIndex = .ok node' ∧
      node'.mapBlockIndex sampleIndex.hashBlock = some pindex' ∧
      disconnectBlock (sampleEnv vtx) node' (sampleBlock vtx) pindex' = .ok node'' ∧
      node''.txdb.readTxIndex = node.txdb.readTxIndex := by
  intro vtx node
  obtain ⟨node', hconn⟩ : ∃ node', connectBlock (sampleEnv vtx) sampleCtx node (sampleBlock vtx)
      sampleIndex = .ok node' := exists_of_isOk (by decide)
  obtain ⟨pindex', node'', hentry, -, hdis, hmap, -⟩ :=
    disconnectBlock_connectBlock (by decide) hconn
  exact ⟨node', pindex', node'', hconn, hentry, hdis, hmap⟩

end Sphinx
