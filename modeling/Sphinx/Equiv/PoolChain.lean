import Sphinx.Equiv.TxIndex
import Sphinx.Equiv.TxMemPool

/-!
# The memory pool and the main chain

The pool changes when `AcceptToMemoryPool` lets a transaction in, when `SetBestChainInner` attaches a
block and removes its transactions, and when `Reorganize` switches branches, resurrects and deletes
transactions.  A property of the pool and the active chain that these operations keep (`PoolRule`),
under a condition on the blocks and branches concerned (`PoolGuard`), holds in every state of a run.

* `acceptToMemoryPool_ok`, `removeAll_spec`, `deleteAll_spec`, `switchBranches_core`: what the
  operations do;
* `LinkInv.setBestChainInner`, `LinkInv.reorganize`, `LinkInv.setBestChain`: they keep the property;
* `NodeInv.add`, `NodeInv.acceptTx`: the two steps of a run.
-/

namespace Sphinx

open ParentTree Relation CTxMemPool

variable {env : Env} {ctx : Uint256 → Ctx} {T : Set CTransaction} {genesis : Uint256}
  {node node' : Node} {chain : List ChainBlock} {pool pool' : CTxMemPool}
variable {tx : CTransaction} {block : CBlock} {pindexNew : CBlockIndex} {new : Uint256}
  {vDisconnect vConnect : List Uint256} {vResurrect vDelete : List CTransaction}

/-- `pool'` holds only transactions of `pool`. -/
def SubPool (pool' pool : CTxMemPool) : Prop :=
  ∀ h tx, pool'.mapTx.lookup h = some tx → pool.mapTx.lookup h = some tx

theorem SubPool.trans {pool'' : CTxMemPool} (h' : SubPool pool'' pool') (h : SubPool pool' pool) :
    SubPool pool'' pool := fun k tx hk => h k tx (h' k tx hk)

theorem subPool_of_without {R : Set Uint256} (h : Without env.getHash T pool R pool') :
    SubPool pool' pool :=
  fun _ _ hk => (h.lookup_some hk).2

/-! ### Accepting a transaction -/

/-- The outpoint names an output of a pool transaction. -/
def OutputIn (pool : CTxMemPool) (o : COutPoint) : Prop :=
  ∃ tx, pool.mapTx.lookup o.hash = some tx ∧ o.n < tx.vout.length

/-- What a successful `AcceptToMemoryPool` has checked and done.  An input that the database knows is
not spent there; another one names an output of a pool transaction. -/
structure Accepted (env : Env) (node : Node) (tx : CTransaction) (node' : Node) : Prop where
  checked : tx.checkTransaction = .ok ()
  fresh : node.mempool.mapTx.lookup (env.getHash tx) = none
  free : ∀ o ∈ tx.prevouts, node.mempool.mapNextTx.lookup o = none
  unspent : ∀ o ∈ tx.prevouts, ∀ txindex,
    (⟨node.txdb.pdb, none⟩ : CTxDB).readTxIndex o.hash = some txindex →
      txindex.vSpent[o.n]? = some .null
  found : ∀ o ∈ tx.prevouts, (⟨node.txdb.pdb, none⟩ : CTxDB).readTxIndex o.hash = none →
    OutputIn node.mempool o
  node_eq : node' = { node with
    mempool := node.mempool.addUnchecked (env.getHash tx) tx
    walletSyncs := node.walletSyncs ++ [(tx, true)] }

/-- The database part: an input that is indexed is unspent, another one is found in the pool. -/
theorem acceptInputs_ok {c : Ctx} {txdb : CTxDB} {hash : Uint256} (hcb : tx.isCoinBase = false)
    (h : acceptInputs env c node txdb hash tx = .ok ()) :
    (∀ o ∈ tx.prevouts, ∀ txindex, txdb.readTxIndex o.hash = some txindex →
      txindex.vSpent[o.n]? = some .null) ∧
    ∀ o ∈ tx.prevouts, txdb.readTxIndex o.hash = none → OutputIn node.mempool o := by
  simp only [acceptInputs, acceptFetched, exceptBind_ok] at h
  obtain ⟨-, -, -, -, mapInputs, hfetch, -, -, -, -, -, -, -, -, -, -, -, -, q, hconnect, -⟩ := h
  have hfetch' : fetchInputs env txdb node.mempool ∅ false false tx = .ok mapInputs := by
    cases hf : fetchInputs env txdb node.mempool ∅ false false tx with
    | error e => rw [hf] at hfetch; cases hfetch
    | ok inputs => rw [hf] at hfetch; exact congrArg _ (Except.ok.inj hfetch)
  obtain ⟨hprev, hrange⟩ := fetchInputs_ok hcb hfetch'
  have hunspent := (connectInputs_ok (M := fun _ => none) hcb (by simp [CDiskTxPos.memoryPool])
    (fun hfalse => by cases hfalse) hconnect).1
  refine ⟨fun o ho txindex htxindex => ?_, fun o ho hnone => ?_⟩
  · obtain ⟨fetched, hfetched, hnull⟩ := hunspent o ho
    obtain ⟨⟨fetched', txPrev⟩, hlookup, rfl⟩ := Option.map_eq_some_iff.mp hfetched
    have hfind : findTxIndex txdb ∅ false false o.hash = some txindex := htxindex
    rcases hprev o.hash _ hlookup with ⟨hfind', -⟩ | ⟨hnone, -⟩
    · rw [← Option.some.inj (hfind.symm.trans hfind')] at hnull
      exact hnull
    · rw [hfind] at hnone
      cases hnone
  · obtain ⟨fetched, txPrev, hlookup, hn, -⟩ := hrange o ho
    have hfind : findTxIndex txdb ∅ false false o.hash = none := hnone
    rcases hprev o.hash _ hlookup with ⟨hfind', -⟩ | ⟨-, -, -, hpool, -⟩
    · rw [hfind] at hfind'
      cases hfind'
    · exact ⟨txPrev, hpool, hn⟩

theorem acceptToMemoryPool_ok {c : Ctx} (h : acceptToMemoryPool env c node tx = .ok node') :
    Accepted env node tx node' := by
  unfold acceptToMemoryPool at h
  split at h
  · cases h
  · next hcheck =>
    simp only [exceptBind_ok, rejectIf_eq_ok] at h
    obtain ⟨⟨⟩, hcb, -, -, -, -, ⟨⟩, hcontains, -, -, ⟨⟩, hfree, ⟨⟩, hinputs, h⟩ := h
    obtain ⟨hunspent, hfound⟩ := acceptInputs_ok hcb hinputs
    refine ⟨hcheck, by simpa [contains] using hcontains, fun o ho => ?_, hunspent, hfound,
      (Except.ok.inj h).symm⟩
    by_contra hne
    have hany : (tx.prevouts.any fun o => (node.mempool.mapNextTx.lookup o).isSome) = true :=
      List.any_eq_true.mpr ⟨o, ho, Option.isSome_iff_ne_none.mpr hne⟩
    rw [hany] at hfree
    cases hfree

/-! ### Removing transactions -/

/-- `mempool.remove(tx)` for every transaction of a block. -/
theorem removeAll_spec (hT : HashOk env.getHash T) (txs : List CTransaction) :
    ∀ pool, PoolInv env.getHash T pool → (∀ tx ∈ txs, tx ∈ T) →
      PoolInv env.getHash T (txs.foldl (fun pool tx => pool.remove env.getHash tx) pool) ∧
        SubPool (txs.foldl (fun pool tx => pool.remove env.getHash tx) pool) pool ∧
        ∀ tx ∈ txs, (txs.foldl (fun pool tx => pool.remove env.getHash tx) pool).mapTx.lookup
          (env.getHash tx) = none := by
  induction txs with
  | nil => exact fun pool hinv _ => ⟨hinv, fun _ _ h => h, fun tx htx => by cases htx⟩
  | cons tx txs ih =>
    intro pool hinv hmem
    have htx : tx ∈ T := hmem tx (by simp)
    obtain ⟨R, hR⟩ := remove_without hT hinv htx false
    obtain ⟨hinv', hsub, hnone⟩ := ih _ hR.inv fun t ht => hmem t (by simp [ht])
    refine ⟨hinv', hsub.trans (subPool_of_without hR), fun t ht => ?_⟩
    rcases List.mem_cons.mp ht with rfl | ht
    · -- what has been removed does not come back
      have hgone : (pool.remove env.getHash t).mapTx.lookup (env.getHash t) = none := by
        unfold remove
        by_cases hin : pool.contains (env.getHash t) = true
        · simp [hin, eraseTx]
        · have hnone' : pool.mapTx.lookup (env.getHash t) = none :=
            Option.not_isSome_iff_eq_none.mp hin
          simpa [hin] using hnone'
      by_contra hne
      obtain ⟨t', ht'⟩ := Option.ne_none_iff_exists'.mp hne
      rw [List.foldl_cons] at ht'
      rw [hsub _ _ ht'] at hgone
      cases hgone
    · exact hnone t ht

/-- `remove` and `removeConflicts` together leave nothing that spends an outpoint of `y`. -/
theorem deleteTx_spec (hT : HashOk env.getHash T) (hinv : PoolInv env.getHash T pool)
    {y : CTransaction} (hy : y ∈ T) :
    PoolInv env.getHash T (deleteTx env pool y) ∧ SubPool (deleteTx env pool y) pool ∧
      ∀ h tx, (deleteTx env pool y).mapTx.lookup h = some tx → ∀ o ∈ tx.prevouts,
        o ∉ y.prevouts := by
  obtain ⟨hinv1, hsub1, hgone⟩ := removeAll_spec hT [y] pool hinv (by simpa using hy)
  have hconf := removeConflicts_without hT hinv1 y
  refine ⟨hconf.inv, (subPool_of_without hconf).trans hsub1, fun h tx hl o ho hoy => ?_⟩
  obtain ⟨hmem, hl1⟩ := hconf.lookup_some hl
  have hne : tx ≠ y := by
    rintro rfl
    have hhash := (hinv1.mem hl1).2
    rw [← hhash, hgone tx (by simp)] at hl1
    cases hl1
  exact hmem ⟨h, ⟨tx, hl1, hne, o, hoy, ho⟩, .refl⟩

theorem deleteAll_spec (hT : HashOk env.getHash T) (txs : List CTransaction) :
    ∀ pool, PoolInv env.getHash T pool → (∀ tx ∈ txs, tx ∈ T) →
      PoolInv env.getHash T (txs.foldl (deleteTx env) pool) ∧
        SubPool (txs.foldl (deleteTx env) pool) pool ∧
        ∀ y ∈ txs, ∀ h tx, (txs.foldl (deleteTx env) pool).mapTx.lookup h = some tx →
          ∀ o ∈ tx.prevouts, o ∉ y.prevouts := by
  induction txs with
  | nil => exact fun pool hinv _ => ⟨hinv, fun _ _ h => h, fun y hy => by cases hy⟩
  | cons t txs ih =>
    intro pool hinv hmem
    obtain ⟨hinv1, hsub1, hfree⟩ := deleteTx_spec hT hinv (hmem t (by simp))
    obtain ⟨hinv', hsub, hfree'⟩ := ih _ hinv1 fun y hy => hmem y (by simp [hy])
    refine ⟨hinv', hsub.trans hsub1, fun y hy h tx hl => ?_⟩
    rcases List.mem_cons.mp hy with rfl | hy
    · exact hfree h tx (hsub h tx hl)
    · exact hfree' y hy h tx hl

/-! ### The database handle -/

/-- After a failure the transaction index and the pool are what they were. -/
theorem failed_eq (hbatch : node.txdb.activeBatch = none)
    (hstaged : Staged node.begun node') (pindexNew : CBlockIndex) :
    (failed node' pindexNew).txdb.txIndexMap = node.txdb.txIndexMap ∧
      (failed node' pindexNew).mempool = node.mempool := by
  obtain ⟨trust, pdb, heq, hpdb⟩ :=
    invalidChainFound_eq { node' with txdb := node'.txdb.txnAbort } pindexNew
  have habort := hstaged.txnAbort_eq hbatch
  rw [failed, heq]
  refine ⟨?_, ?_⟩
  · funext h
    have hkey : pdb (.tx h) = node.txdb.pdb (.tx h) := by
      rw [hpdb _ (by simp), ← habort]
    simp only [CTxDB.txIndexMap, CTxDB.readTxIndex, CTxDB.read, CTxDB.txnAbort, hkey, hbatch]
  · have hrest := hstaged.rest
    show node'.mempool = node.mempool
    rw [hrest]

/-! ### Attaching a block and switching branches -/

/-- A condition on the blocks that are attached and on the branches that are switched. -/
structure PoolGuard where
  /-- For the pool before `SetBestChainInner` and the block it attaches. -/
  attach : CTxMemPool → CBlock → Bool
  /-- For the node just before transactions are resurrected, and the two branches. -/
  switch : (Uint256 → Ctx) → Node → List Uint256 → List Uint256 → Bool

/-- The node after the commit of `Reorganize`, with the new links and the old pool. -/
def linkBranches (node : Node) (vDisconnect vConnect : List Uint256) : Node :=
  { node with
    mapBlockIndex := vConnect.foldl (fun m h => setPrevNext m h (some h))
      (vDisconnect.foldl (fun m h => setPrevNext m h none) node.mapBlockIndex) }

/-- A transaction that `Reorganize` resurrects if it disconnects its block. -/
def resurrectable (env : Env) (nHeight : Nat) (tx : CTransaction) : Bool :=
  !(tx.isCoinBase || tx.isCoinStake) && env.getTotalBlocksEstimate < nHeight

/-- What `Reorganize` has done by then: the blocks `post` have been disconnected from the active chain
`pre ++ post` and the blocks `added` connected. -/
structure Switched (env : Env) (T : Set CTransaction) (genesis : Uint256)
    (pre post added : List ChainBlock) (vDisconnect vConnect : List Uint256) (node : Node)
    (vResurrect vDelete : List CTransaction) : Prop where
  ledger : Ledger env (chainTxs (pre ++ post))
  mem : ∀ x ∈ chainTxs (pre ++ post), x.tx ∈ T
  core : ChainCore env T genesis ⟨node, pre ++ added⟩
  batch : node.txdb.activeBatch = none
  pool : PoolInv env.getHash T node.mempool
  disconnected : ∀ b ∈ post, b.pindex.hashBlock ∈ vDisconnect ∧
    ∃ e, node.mapBlockIndex b.pindex.hashBlock = some e ∧ e.nHeight = b.pindex.nHeight ∧
      env.readBlockFromDisk e = .ok b.block
  connected : ∀ h ∈ vConnect, ∃ b ∈ added, b.pindex.hashBlock = h
  resurrect : ∀ tx, tx ∈ vResurrect ↔
    ∃ b ∈ post, tx ∈ b.block.vtx ∧ resurrectable env b.pindex.nHeight tx = true
  delete : vDelete = added.flatMap fun b => b.block.vtx

/-- A property of the pool and the active chain, and that the operations keep it: those that attach a
block or switch branches as far as the guard allows them. -/
structure PoolRule (env : Env) (T : Set CTransaction) (genesis : Uint256) (G : PoolGuard) where
  Holds : CTxMemPool → List ChainBlock → Prop
  congr : ∀ {pool pool' chain}, pool'.mapTx = pool.mapTx → Holds pool chain → Holds pool' chain
  accept : ∀ {node node' chain tx}, ChainCore env T genesis ⟨node, chain⟩ →
    node.txdb.activeBatch = none → Accepted env node tx node' → Holds node.mempool chain →
    Holds node'.mempool chain
  attach : ∀ {pool chain block pindex}, PoolInv env.getHash T pool → (∀ tx ∈ block.vtx, tx ∈ T) →
    Holds pool chain → G.attach pool block = true →
    Holds (block.vtx.foldl (fun pool tx => pool.remove env.getHash tx) pool)
      (chain ++ [⟨block, pindex⟩])
  switch : ∀ {ctx pre post added vDisconnect vConnect node vResurrect vDelete},
    Switched env T genesis pre post added vDisconnect vConnect node vResurrect vDelete →
    Holds node.mempool (pre ++ post) → G.switch ctx node vDisconnect vConnect = true →
    Holds (vDelete.foldl (deleteTx env) (vResurrect.foldl (resurrectTx env ctx) node).mempool)
      (pre ++ added)

variable {G : PoolGuard} {R : PoolRule env T genesis G}

/-- Database, block index, transaction index and pool agree on the active chain, and the property
holds. -/
structure LinkInv (R : PoolRule env T genesis G) (node : Node) (chain : List ChainBlock) : Prop where
  tip : ChainTip genesis node (tipOf genesis chain)
  readable : Readable env node.mapBlockIndex genesis
  core : ChainCore env T genesis ⟨node, chain⟩
  pool : PoolInv env.getHash T node.mempool
  holds : R.Holds node.mempool chain

theorem ChainCore.begun (hcore : ChainCore env T genesis ⟨node, chain⟩)
    (hbatch : node.txdb.activeBatch = none) :
    ChainCore env T genesis ⟨node.begun, chain⟩ :=
  hcore.congr (txIndexMap_txnBegin hbatch) (Entrywise.refl SameCore.refl _)

/-- **`SetBestChainInner`** extends the active chain. -/
theorem LinkInv.setBestChainInner (h : LinkInv R node chain) (hT : HashOk env.getHash T)
    (hentry : node.mapBlockIndex pindexNew.hashBlock = some pindexNew)
    (hparent : parentOf node.mapBlockIndex pindexNew.hashBlock = some (tipOf genesis chain))
    (hread : env.readBlockFromDisk pindexNew = .ok block)
    (hok : setBestChainInner env ctx node.begun block pindexNew = .ok node')
    (hguard : G.attach node.mempool block = true) :
    LinkInv R node' (chain ++ [⟨block, pindexNew⟩]) := by
  obtain ⟨htip, hkept⟩ :=
    setBestChainInner_ok h.tip hentry hparent (readBlockFromDisk_ok hread).2 hok
  have hpprev : pindexNew.pprev = some (tipOf genesis chain) := by
    rw [← parentOf_eq hentry]
    exact hparent
  have hstaged := staged_connectBlock env (ctx pindexNew.hashBlock)
    node.begun block hentry
  obtain ⟨-, hstored, -⟩ := h.core.child hentry hpprev hread
  unfold Sphinx.setBestChainInner at hok
  split at hok
  · cases hok
  · next node1 hconn =>
    rw [hconn, nodeOf] at hstaged
    obtain rfl := Except.ok.inj hok
    have hcore := (h.core.begun h.tip.batch).connect hentry hpprev hread hconn
    have hpool : node1.mempool = node.mempool := by
      rw [hstaged.rest]
    obtain ⟨hinv, -, -⟩ := removeAll_spec hT block.vtx node1.mempool
      (by rw [hpool]; exact h.pool) hstored.mem
    refine ⟨by rw [tipOf_append]; exact htip, h.readable.congr hkept.1,
      hcore.congr (txIndexMap_commit _ _) (sameTree_setPrevNext _ _ _), hinv, ?_⟩
    show R.Holds (block.vtx.foldl (fun pool tx => pool.remove env.getHash tx) node1.mempool) _
    rw [hpool]
    exact R.attach h.pool hstored.mem h.holds hguard

theorem LinkInv.failed (h : LinkInv R node chain)
    (hstaged : Staged node.begun node') (pindexNew : CBlockIndex) :
    LinkInv R (failed node' pindexNew) chain ∧ Kept node (failed node' pindexNew) := by
  obtain ⟨htip, hkept⟩ := h.tip.failed hstaged pindexNew
  obtain ⟨hindex, hpool⟩ := failed_eq h.tip.batch hstaged pindexNew
  refine ⟨⟨htip, h.readable.congr hkept.1, h.core.congr hindex hkept.1, ?_, ?_⟩, hkept⟩
  · rw [hpool]
    exact h.pool
  · rw [hpool]
    exact h.holds

theorem exists_placed_of_mem {b : ChainBlock} (hb : b ∈ chain) (htx : tx ∈ b.block.vtx) :
    ∃ x ∈ chainTxs chain, x.tx = tx := by
  rw [← map_tx_placeTxs b.pindex b.block b.block.vtx []] at htx
  obtain ⟨x, hx, rfl⟩ := List.mem_map.mp htx
  exact ⟨x, List.mem_flatMap.mpr ⟨b, hb, hx⟩, rfl⟩

theorem ChainCore.read_entry (hcore : ChainCore env T genesis ⟨node, chain⟩) {b : ChainBlock}
    (hb : b ∈ chain) {e : CBlockIndex} (he : node.mapBlockIndex b.pindex.hashBlock = some e)
    (hread : env.readBlockFromDisk e = .ok block) : block = b.block ∧ e.nHeight = b.pindex.nHeight := by
  obtain ⟨pre, post, hchain⟩ := List.append_of_mem hb
  obtain ⟨e', he', hsame, -, -, hstored⟩ := hcore.blocks pre b post hchain
  obtain rfl := Option.some.inj (he.symm.trans he')
  have hread' := (readBlockFromDisk_ok hread).1
  rw [hsame.nFile, hsame.nBlockPos] at hread'
  exact ⟨Option.some.inj (hread'.symm.trans hstored.read), hsame.nHeight⟩

/-- **The disconnecting loop** takes the active chain back to the fork and collects the transactions to
resurrect. -/
theorem disconnectLoop_core (hcoll : CTransaction.NoCollision env.getHash T) {pfork : Uint256} :
    ∀ (l : List Uint256) {node : Node} {chain : List ChainBlock} {vResurrect : List CTransaction}
      {st : Node × List CTransaction}, ChainCore env T genesis ⟨node, chain⟩ →
      IsPath (parentOf node.mapBlockIndex) (tipOf genesis chain) l pfork →
      l.foldlM (disconnectTip env) (node, vResurrect) = .ok st →
      ∃ pre post, chain = pre ++ post ∧ ChainCore env T genesis ⟨st.1, pre⟩ ∧
        tipOf genesis pre = pfork ∧
        (∀ b ∈ post, b.pindex.hashBlock ∈ l ∧ ∃ e, node.mapBlockIndex b.pindex.hashBlock = some e ∧
          e.nHeight = b.pindex.nHeight ∧ env.readBlockFromDisk e = .ok b.block) ∧
        ∀ tx, tx ∈ st.2 ↔ tx ∈ vResurrect ∨
          ∃ b ∈ post, tx ∈ b.block.vtx ∧ resurrectable env b.pindex.nHeight tx = true := by
  intro l
  induction l with
  | nil =>
    intro node chain vResurrect st hcore hpath hfold
    obtain rfl := Except.ok.inj hfold
    cases hpath
    exact ⟨chain, [], by simp, hcore, rfl, by simp, by simp⟩
  | cons h l ih =>
    intro node chain vResurrect st hcore hpath hfold
    rw [List.foldlM_cons, exceptBind_ok] at hfold
    obtain ⟨⟨node1, vResurrect1⟩, hround, hfold⟩ := hfold
    obtain ⟨entry, block, hentry, hread, hdis, hres⟩ := disconnectTip_ok hround
    generalize htip : tipOf genesis chain = tip at hpath
    cases hpath with
    | @cons _ p _ _ hp hpath =>
      -- the tip has a parent, so it is not the genesis block
      obtain ⟨chain', b, rfl⟩ : ∃ chain' b, chain = chain' ++ [b] := by
        rcases List.eq_nil_or_concat chain with rfl | ⟨chain', b, hchain⟩
        · exact absurd htip.symm (hcore.tree.ne_genesis hp)
        · exact ⟨chain', b, by rw [hchain, List.concat_eq_append]⟩
      rw [tipOf_append] at htip
      subst htip
      obtain ⟨e, he, -, hpprev, -, -⟩ := hcore.blocks chain' b [] rfl
      have hparent : tipOf genesis chain' = p := by
        rw [parentOf_eq he, hpprev] at hp
        exact Option.some.inj hp
      obtain ⟨rfl, hheight⟩ := hcore.read_entry (by simp) hentry hread
      obtain ⟨hcore1, hmap⟩ := hcore.disconnect hcoll hentry hread hdis
      have hmap1 : node1.mapBlockIndex = node.mapBlockIndex := hmap
      have hpath1 : IsPath (parentOf node1.mapBlockIndex) (tipOf genesis chain') l pfork := by
        rw [hmap1, hparent]
        exact hpath
      obtain ⟨pre, post, hsplit, hpre, hfork, hpost, hmem⟩ := ih hcore1 hpath1 hfold
      rw [hmap1] at hpost
      refine ⟨pre, post ++ [b], by rw [hsplit, List.append_assoc], hpre, hfork, ?_, ?_⟩
      · intro c hc
        rcases List.mem_append.mp hc with hc | hc
        · exact ⟨List.mem_cons_of_mem _ (hpost c hc).1, (hpost c hc).2⟩
        · rw [List.mem_singleton.mp hc]
          exact ⟨List.mem_cons_self, entry, hentry, hheight, hread⟩
      · intro tx
        have hround' : tx ∈ vResurrect1 ↔
            (tx ∈ b.block.vtx ∧ resurrectable env b.pindex.nHeight tx = true) ∨ tx ∈ vResurrect := by
          rw [show vResurrect1 = _ from hres, List.mem_append, List.mem_filter, ← hheight]
          rfl
        rw [hmem tx, hround']
        constructor
        · rintro ((hb | hr) | ⟨c, hc, hc'⟩)
          · exact .inr ⟨b, by simp, hb⟩
          · exact .inl hr
          · exact .inr ⟨c, by simp [hc], hc'⟩
        · rintro (hr | ⟨c, hc, hc'⟩)
          · exact .inl (.inr hr)
          · rcases List.mem_append.mp hc with hc | hc
            · exact .inr ⟨c, hc, hc'⟩
            · rw [List.mem_singleton.mp hc] at hc'
              exact .inl (.inl hc')

/-- **The connecting loop** takes the active chain from the fork to the new block. -/
theorem connectLoop_core :
    ∀ (l : List Uint256) {node : Node} {chain : List ChainBlock} {vDelete : List CTransaction}
      {st : Node × List CTransaction}, ChainCore env T genesis ⟨node, chain⟩ →
      IsPath (parentOf node.mapBlockIndex) new l.reverse (tipOf genesis chain) →
      l.foldlM (connectTip env ctx) (node, vDelete) = .ok st →
      ∃ added : List ChainBlock, ChainCore env T genesis ⟨st.1, chain ++ added⟩ ∧
        tipOf genesis (chain ++ added) = new ∧
        st.2 = vDelete ++ (added.flatMap fun b => b.block.vtx) ∧
        ∀ h ∈ l, ∃ b ∈ added, b.pindex.hashBlock = h := by
  intro l
  induction l with
  | nil =>
    intro node chain vDelete st hcore hpath hfold
    obtain rfl := Except.ok.inj hfold
    generalize htip : tipOf genesis chain = tip at hpath
    cases hpath
    exact ⟨[], by simpa using hcore, by simpa using htip, by simp, by simp⟩
  | cons h l ih =>
    intro node chain vDelete st hcore hpath hfold
    rw [List.foldlM_cons, exceptBind_ok] at hfold
    obtain ⟨⟨node1, vDelete1⟩, hround, hfold⟩ := hfold
    have hhash : ∀ {e}, node.mapBlockIndex h = some e → e.hashBlock = h := hcore.tree.hash
    have hstaged : Staged node node1 := staged_connectTip hhash hround
    obtain ⟨entry, block, hentry, hread, hconn, hdelete⟩ := connectTip_ok hround
    obtain rfl := hhash hentry
    rw [List.reverse_cons, isPath_append_singleton] at hpath
    obtain ⟨hpath, hparent⟩ := hpath
    have hpprev : entry.pprev = some (tipOf genesis chain) := by
      rw [← parentOf_eq hentry]
      exact hparent
    have hcore1 := hcore.connect hentry hpprev hread hconn
    rw [← hstaged.sameTree.parentOf_eq] at hpath
    obtain ⟨added, hcore', htip, hdelete', hconnected⟩ :=
      ih hcore1 (by rw [tipOf_append]; exact hpath) hfold
    refine ⟨⟨block, entry⟩ :: added, ?_, ?_, ?_, ?_⟩
    · simpa using hcore'
    · simpa using htip
    · rw [hdelete', show vDelete1 = _ from hdelete]
      simp
    · intro k hk
      rcases List.mem_cons.mp hk with rfl | hk
      · exact ⟨_, List.mem_cons_self, rfl⟩
      · obtain ⟨b, hb, hhash⟩ := hconnected k hk
        exact ⟨b, List.mem_cons_of_mem _ hb, hhash⟩

/-- A property that every accepted transaction keeps is kept by **the resurrecting loop**. -/
theorem resurrect_inv (ctx : Uint256 → Ctx) {I : Node → Prop} (vResurrect : List CTransaction) :
    ∀ node : Node, I node →
      (∀ n n' tx, tx ∈ vResurrect → I n → Accepted env n tx n' → I n') →
      I (vResurrect.foldl (resurrectTx env ctx) node) := by
  induction vResurrect with
  | nil => exact fun node h _ => h
  | cons tx rest ih =>
    intro node h hstep
    have hrest : ∀ n n' t, t ∈ rest → I n → Accepted env n t n' → I n' :=
      fun n n' t ht => hstep n n' t (by simp [ht])
    rw [List.foldl_cons, resurrectTx]
    cases haccept : acceptToMemoryPool env (ctx (env.getHash tx)) node tx with
    | error r => exact ih node h hrest
    | ok node1 => exact ih node1 (hstep node node1 tx (by simp) h (acceptToMemoryPool_ok haccept)) hrest

theorem poolInv_acceptToMemoryPool (hinv : PoolInv env.getHash T node.mempool) (htx : tx ∈ T)
    (hok : Accepted env node tx node') : PoolInv env.getHash T node'.mempool := by
  rw [hok.node_eq]
  exact addUnchecked_inv hinv htx (CTransaction.checkTransaction_ok hok.checked).2.2.1 hok.fresh
    hok.free

/-- The node between the resurrection of two transactions. -/
structure Resurrecting (env : Env) (T : Set CTransaction) (genesis : Uint256)
    (chain : List ChainBlock) (node : Node) : Prop where
  core : ChainCore env T genesis ⟨node, chain⟩
  batch : node.txdb.activeBatch = none
  pool : PoolInv env.getHash T node.mempool

theorem Resurrecting.accept (h : Resurrecting env T genesis chain node) (htx : tx ∈ T)
    (hok : Accepted env node tx node') : Resurrecting env T genesis chain node' := by
  refine ⟨?_, ?_, poolInv_acceptToMemoryPool h.pool htx hok⟩
  · rw [hok.node_eq]
    exact h.core.congr rfl (Entrywise.refl SameCore.refl _)
  · rw [hok.node_eq]
    exact h.batch

section

variable {pre post added : List ChainBlock}
  (h : Switched env T genesis pre post added vDisconnect vConnect node vResurrect vDelete)

include h

theorem Switched.resurrecting :
    Resurrecting env T genesis (pre ++ added) node := ⟨h.core, h.batch, h.pool⟩

theorem Switched.resurrect_mem :
    ∀ tx ∈ vResurrect, tx ∈ T := by
  intro tx htx
  obtain ⟨b, hb, htxb, -⟩ := (h.resurrect tx).mp htx
  obtain ⟨x, hx, rfl⟩ := exists_placed_of_mem (List.mem_append_right pre hb) htxb
  exact h.mem x hx

theorem Switched.delete_mem :
    ∀ tx ∈ vDelete, tx ∈ T := by
  intro tx htx
  rw [h.delete] at htx
  obtain ⟨b, hb, htxb⟩ := List.mem_flatMap.mp htx
  obtain ⟨x, hx, rfl⟩ := exists_placed_of_mem (List.mem_append_right pre hb) htxb
  exact h.core.mem x hx

end

/-- The pool at the end of `Reorganize` is well formed. -/
theorem Switched.poolInv {pre post added : List ChainBlock} (hT : HashOk env.getHash T)
    (ctx : Uint256 → Ctx)
    (h : Switched env T genesis pre post added vDisconnect vConnect node vResurrect vDelete) :
    PoolInv env.getHash T (vResurrect.foldl (resurrectTx env ctx) node).mempool ∧
      PoolInv env.getHash T
        (vDelete.foldl (deleteTx env) (vResurrect.foldl (resurrectTx env ctx) node).mempool) := by
  have hres : Resurrecting env T genesis (pre ++ added)
      (vResurrect.foldl (resurrectTx env ctx) node) :=
    resurrect_inv ctx vResurrect node h.resurrecting
      fun n n' tx htx hn hok => hn.accept (h.resurrect_mem tx htx) hok
  exact ⟨hres.pool, (deleteAll_spec hT vDelete _ hres.pool h.delete_mem).1⟩

/-- The two loops of `Reorganize` and the links. -/
theorem switchBranches_core (hcoll : CTransaction.NoCollision env.getHash T) {pfork : Uint256}
    (hbatch : node.txdb.activeBatch = none) (hcore : ChainCore env T genesis ⟨node, chain⟩)
    (hpool : PoolInv env.getHash T node.mempool)
    (hpath : IsPath (parentOf node.mapBlockIndex) (tipOf genesis chain) vDisconnect pfork)
    (hpath' : IsPath (parentOf node.mapBlockIndex) new vConnect.reverse pfork)
    (hok : switchBranches env ctx node.begun vDisconnect vConnect = .ok (node', vResurrect, vDelete)) :
    ∃ pre post added, chain = pre ++ post ∧ tipOf genesis (pre ++ added) = new ∧
      node'.mempool = node.mempool ∧
      Switched env T genesis pre post added vDisconnect vConnect
        (linkBranches { node' with txdb := (node'.txdb.writeHashBestChain new).txnCommit } vDisconnect
          vConnect) vResurrect vDelete := by
  have hstaged := (staged_switchBranches ctx node.begun vDisconnect
    vConnect hcore.tree.hash).2 node' vResurrect vDelete hok
  have hmempool : node'.mempool = node.mempool := by rw [hstaged.rest]
  simp only [switchBranches, exceptBind_ok] at hok
  obtain ⟨⟨node1, vResurrect1⟩, hdisconnect, ⟨node2, vDelete2⟩, hconnect, hpure⟩ := hok
  obtain ⟨rfl, rfl, rfl⟩ : node2 = node' ∧ vResurrect1 = vResurrect ∧ vDelete2 = vDelete := by
    simpa using Except.ok.inj hpure
  obtain ⟨pre, post, rfl, hcore1, hfork, hpost, hresurrect⟩ :=
    disconnectLoop_core hcoll vDisconnect (hcore.begun hbatch) hpath hdisconnect
  have hstaged1 : Staged node.begun node1 := by
    let I (_ : List Uint256) (st : Node × List CTransaction) : Prop :=
      Staged node.begun st.1
    exact Loop.foldlM_inv I hdisconnect (Staged.refl _)
      fun _ _ _ _ _ _ hI hround => Staged.trans hI (staged_disconnectTip hround)
  rw [← hfork, ← hstaged1.sameTree.parentOf_eq] at hpath'
  obtain ⟨added, hcore2, htip, hdelete, hconnected⟩ := connectLoop_core vConnect hcore1 hpath' hconnect
  -- the new links leave the tree of the index as it is
  have hlinks : SameTree (linkBranches { node2 with
      txdb := (node2.txdb.writeHashBestChain new).txnCommit } vDisconnect vConnect).mapBlockIndex
      node2.mapBlockIndex :=
    Entrywise.trans SameCore.trans (sameTree_foldl_setPrevNext some _ _)
      (sameTree_foldl_setPrevNext (fun _ => none) _ _)
  have hsame : SameTree (linkBranches { node2 with
      txdb := (node2.txdb.writeHashBestChain new).txnCommit } vDisconnect vConnect).mapBlockIndex
      node.mapBlockIndex := Entrywise.trans SameCore.trans hlinks hstaged.sameTree
  refine ⟨pre, post, added, rfl, htip, hmempool, ⟨hcore.ledger, hcore.mem,
    hcore2.congr (txIndexMap_commit _ _) hlinks, rfl, ?_, ?_, hconnected, ?_, by simpa using hdelete⟩⟩
  · show PoolInv env.getHash T node2.mempool
    rw [hmempool]
    exact hpool
  · -- the blocks of the old branch are still in the index
    intro b hb
    obtain ⟨hmem, e, he, hheight, hread⟩ := hpost b hb
    obtain ⟨e', he', hsame'⟩ := hsame.exists_left he
    refine ⟨hmem, e', he', hsame'.nHeight.trans hheight, ?_⟩
    rw [readBlockFromDisk_congr hsame']
    exact hread
  · intro tx
    rw [hresurrect tx]
    simp

/-- The condition at a call of `Reorganize`; one that fails changes nothing. -/
def PoolGuard.reorganizes (G : PoolGuard) (env : Env) (ctx : Uint256 → Ctx) (node : Node)
    (pindexNew : CBlockIndex) : Bool :=
  match node.pindexBest.bind node.mapBlockIndex with
  | none => true
  | some pindexBest =>
    match findBranches node.mapBlockIndex pindexBest pindexNew with
    | .error _ => true
    | .ok (vDisconnect, vConnect) =>
      match switchBranches env ctx node vDisconnect vConnect with
      | .error _ => true
      | .ok (node, _, _) => G.switch ctx (linkBranches { node with
          txdb := (node.txdb.writeHashBestChain pindexNew.hashBlock).txnCommit } vDisconnect vConnect)
          vDisconnect vConnect

theorem LinkInv.reorganize (h : LinkInv R node chain) (hT : HashOk env.getHash T)
    (hbest : node.pindexBest = some (tipOf genesis chain))
    (hentry : node.mapBlockIndex pindexNew.hashBlock = some pindexNew)
    (hguard : G.reorganizes env ctx node.begun pindexNew = true)
    (hok : reorganize env ctx node.begun pindexNew = .ok node') :
    ∃ chain', LinkInv R node' chain' ∧ tipOf genesis chain' = pindexNew.hashBlock := by
  obtain ⟨htip', hkept'⟩ := reorganize_ok h.tip hbest hentry hok
  obtain ⟨etip, hetip⟩ := exists_of_mem_indexed h.tip.mem
  have hhash := h.tip.tree.hash hetip
  have hetip' : node.mapBlockIndex etip.hashBlock = some etip := by rw [hhash]; exact hetip
  obtain ⟨pfork, vDisconnect, vConnect, hbranches, -, hpath, hpath'⟩ :=
    findBranches_spec h.tip.tree hetip' hentry
  rw [hhash] at hpath
  have hbest' : node.pindexBest.bind node.mapBlockIndex = some etip := by
    rw [hbest, Option.bind_some, hetip]
  rw [reorganize_eq env ctx node.begun (by rw [hbest, hhash])
    hetip' hbranches] at hok
  simp only [PoolGuard.reorganizes, hbest', hbranches] at hguard
  cases hswitch : switchBranches env ctx node.begun vDisconnect
    vConnect with
  | error e => rw [hswitch] at hok; cases hok
  | ok result =>
    obtain ⟨node1, vResurrect, vDelete⟩ := result
    rw [hswitch] at hok hguard
    obtain ⟨pre, post, added, rfl, htip, hmempool, hswitched⟩ :=
      switchBranches_core hT.noCollision h.tip.batch h.core h.pool hpath hpath' hswitch
    have hnode' := (Except.ok.inj hok).symm
    dsimp only at hnode' hguard
    obtain ⟨mempool, walletSyncs, hfinish⟩ := finishReorganize_eq env ctx { node1 with
      txdb := (node1.txdb.writeHashBestChain pindexNew.hashBlock).txnCommit } vDisconnect vConnect
      vResurrect vDelete
    have hcore' : ChainCore env T genesis ⟨node', pre ++ added⟩ := by
      rw [hnode', hfinish]
      exact hswitched.core.congr rfl (Entrywise.refl SameCore.refl _)
    have hholds : R.Holds node1.mempool (pre ++ post) := by
      rw [hmempool]
      exact h.holds
    refine ⟨pre ++ added, ⟨by rw [htip]; exact htip', h.readable.congr hkept'.1, hcore', ?_, ?_⟩, htip⟩
    · rw [hnode']
      exact (hswitched.poolInv hT ctx).2
    · rw [hnode']
      exact R.switch hswitched hholds hguard

/-! ### `SetBestChain` -/

/-- When its turn comes, every postponed block is connected, and it meets the condition. -/
def PoolGuard.connects (G : PoolGuard) (env : Env) (ctx : Uint256 → Ctx) : List Uint256 → Node → Bool
  | [], _ => true
  | pindex :: rest, node =>
    match readIndexed env node pindex "SetBestChain() : ReadFromDisk failed" with
    | .error _ => true
    | .ok (entry, block) =>
      match setBestChainInner env ctx node.begun block entry with
      | .error _ => false
      | .ok node' => G.attach node.mempool block && G.connects env ctx rest node'

theorem LinkInv.connectFurther (hT : HashOk env.getHash T) :
    ∀ (l : List Uint256) {node : Node} {chain : List ChainBlock},
      LinkInv R node chain → new ∈ indexed node.mapBlockIndex →
      IsPath (parentOf node.mapBlockIndex) new l.reverse (tipOf genesis chain) →
      G.connects env ctx l node = true →
      connectsFurther env ctx l node = true ∧
        ∃ chain', LinkInv R (connectFurther env ctx l node) chain' := by
  intro l
  induction l with
  | nil => exact fun {node chain} h _ _ _ => ⟨rfl, chain, h⟩
  | cons pindex rest ih =>
    intro node chain h hmem hpath hclean
    obtain ⟨entry, block, rfl, hentry, hparent, hpath, hblock, hreadIndexed⟩ :=
      h.readable.readIndexed_next h.tip.tree hmem hpath "SetBestChain() : ReadFromDisk failed"
    simp only [PoolGuard.connects, hreadIndexed] at hclean
    simp only [Sphinx.connectFurther, connectsFurther, hreadIndexed]
    cases hinner : Sphinx.setBestChainInner env ctx node.begun block
      entry with
    | error e => rw [hinner] at hclean; cases hclean
    | ok node1 =>
      simp only [hinner, Bool.and_eq_true] at hclean
      have h1 := h.setBestChainInner hT hentry hparent hblock hinner hclean.1
      obtain ⟨-, hkept⟩ :=
        setBestChainInner_ok h.tip hentry hparent (readBlockFromDisk_ok hblock).2 hinner
      rw [← hkept.1.parentOf_eq] at hpath
      exact ih h1 (hkept.1.mem_indexed hmem) (by rw [tipOf_append]; exact hpath) hclean.2

/-- The condition when `SetBestChain` switches branches. -/
def PoolGuard.switches (G : PoolGuard) (env : Env) (ctx : Uint256 → Ctx) (node : Node)
    (pindexNew : CBlockIndex) : Bool :=
  match node.pindexBest.bind node.mapBlockIndex with
  | none => true
  | some pindexBest =>
    let (pindexIntermediate, vpindexSecondary) := postpone node.mapBlockIndex pindexBest.nChainTrust
      (pindexNew.nHeight + 1) pindexNew []
    G.reorganizes env ctx node.begun pindexIntermediate &&
      match reorganize env ctx node.begun pindexIntermediate with
      | .error _ => true
      | .ok node => G.connects env ctx vpindexSecondary.reverse node

theorem LinkInv.switchBestChain (h : LinkInv R node chain) (ctx : Uint256 → Ctx)
    (hT : HashOk env.getHash T) (hbest : node.pindexBest = some (tipOf genesis chain))
    (hentry : node.mapBlockIndex pindexNew.hashBlock = some pindexNew)
    (hclean : G.switches env ctx node pindexNew = true) :
    postponedConnect env ctx node pindexNew = true ∧
      (∀ e, switchBestChain env ctx node.begun pindexNew = .error e →
        LinkInv R e.2 chain) ∧
      ∀ node', switchBestChain env ctx node.begun pindexNew = .ok node' →
        ∃ chain', LinkInv R node' chain' := by
  obtain ⟨etip, pindexIntermediate, l, hbest', hpostpone, hmid, hpath⟩ := h.tip.postpone hbest hentry
  simp only [PoolGuard.switches, hbest', hpostpone, Bool.and_eq_true] at hclean
  obtain ⟨hguard, hclean⟩ := hclean
  simp only [Sphinx.switchBestChain, postponedConnect, hbest', hpostpone]
  cases hreorganize : Sphinx.reorganize env ctx node.begun
    pindexIntermediate with
  | error e =>
    refine ⟨rfl, fun e' he => ?_, fun _ hok => ?_⟩
    · rw [← Except.error.inj he]
      exact (h.failed (reorganize_error h.tip hbest hmid hreorganize) pindexNew).1
    · cases hok
  | ok node1 =>
    obtain ⟨chain1, h1, htip1⟩ := h.reorganize hT hbest hmid hguard hreorganize
    obtain ⟨-, hkept⟩ := reorganize_ok h.tip hbest hmid hreorganize
    rw [hreorganize] at hclean
    rw [← hkept.1.parentOf_eq, ← l.reverse_reverse, ← htip1] at hpath
    obtain ⟨hconnects, chain', h'⟩ := LinkInv.connectFurther hT l.reverse h1
      (hkept.1.mem_indexed (mem_indexed hentry)) hpath hclean
    refine ⟨hconnects, fun e' he => ?_, fun node' hok => ?_⟩
    · cases he
    · rw [← Except.ok.inj hok]
      exact ⟨chain', h'⟩

theorem LinkInv.newBestBlock (h : LinkInv R node chain) (hash : Uint256)
    (pindexNew : CBlockIndex) : LinkInv R (newBestBlock node hash pindexNew) chain := by
  have hholds : R.Holds (Sphinx.newBestBlock node hash pindexNew).mempool chain := by
    refine R.congr ?_ h.holds
    rfl
  exact ⟨h.tip.congr rfl rfl, h.readable, h.core.congr rfl (Entrywise.refl SameCore.refl _),
    ⟨h.pool.mem, h.pool.mapNextTx_iff⟩, hholds⟩

/-- The condition when `SetBestChain` extends the best chain. -/
def PoolGuard.extends (G : PoolGuard) (env : Env) (ctx : Uint256 → Ctx) (node : Node) (block : CBlock)
    (pindexNew : CBlockIndex) : Bool :=
  match setBestChainInner env ctx node.begun block pindexNew with
  | .error _ => true
  | .ok _ => G.attach node.mempool block

theorem LinkInv.setBestChain (h : LinkInv R node chain) (hT : HashOk env.getHash T)
    (hinv : BestInv env genesis node (tipOf genesis chain))
    (hentry : node.mapBlockIndex pindexNew.hashBlock = some pindexNew)
    (hpprev : pindexNew.pprev = some block.hashPrevBlock)
    (hread : env.readBlockFromDisk pindexNew = .ok block)
    (hextend : block.hashPrevBlock = node.hashBestChain → G.extends env ctx node block pindexNew = true)
    (hswitch : block.hashPrevBlock ≠ node.hashBestChain → G.switches env ctx node pindexNew = true) :
    ∃ chain', LinkInv R (nodeOf (setBestChain env ctx node block pindexNew)) chain' := by
  have hstarted : ¬ (node.pindexGenesisBlock = none ∧ env.getBlockHash block = env.hashGenesisBlock) :=
    fun hgen => hinv.started hgen.1
  simp only [Sphinx.setBestChain]
  rw [if_neg hstarted]
  by_cases hextends : block.hashPrevBlock = node.hashBestChain
  · -- the new block is a child of the tip
    rw [if_pos hextends]
    have hclean := hextend hextends
    unfold PoolGuard.extends at hclean
    have hparent : parentOf node.mapBlockIndex pindexNew.hashBlock = some (tipOf genesis chain) := by
      rw [parentOf_eq hentry, hpprev, hextends, hinv.hash]
    cases hinner : Sphinx.setBestChainInner env ctx node.begun block
      pindexNew with
    | error e =>
      have hstaged := staged_connectBlock env (ctx pindexNew.hashBlock)
        node.begun block hentry
      unfold Sphinx.setBestChainInner at hinner
      split at hinner
      · next r node1 hconn =>
        rw [hconn, nodeOf] at hstaged
        obtain rfl := Except.error.inj hinner
        exact ⟨chain, (h.failed hstaged pindexNew).1⟩
      · cases hinner
    | ok node1 =>
      rw [hinner] at hclean
      have h1 := h.setBestChainInner hT hentry hparent hread hinner hclean
      exact ⟨_, h1.newBestBlock _ _⟩
  · rw [if_neg hextends]
    obtain ⟨-, herror, hok⟩ :=
      h.switchBestChain ctx hT hinv.best hentry (hswitch hextends)
    cases hs : Sphinx.switchBestChain env ctx node.begun pindexNew with
    | error e => exact ⟨chain, herror e hs⟩
    | ok node1 =>
      obtain ⟨chain', h'⟩ := hok node1 hs
      exact ⟨chain', h'.newBestBlock _ _⟩

/-! ### Runs -/

/-- The state of the node, with its active chain. -/
structure NodeInv (R : PoolRule env T genesis G) (node : Node) (chain : List ChainBlock) : Prop where
  best : BestInv env genesis node (tipOf genesis chain)
  link : LinkInv R node chain

/-- The call meets the condition, and no block it postpones fails to connect. -/
def Arrival.meets (G : PoolGuard) (env : Env) (node : Node) (a : Arrival) : Bool :=
  match newBlockIndex env node a.block a.nFile a.nBlockPos a.hashProof with
  | .error _ => true
  | .ok pindexNew =>
    if (node.mapBlockIndex pindexNew.hashBlock).isSome ∨
      pindexNew.nChainTrust ≤ node.nBestChainTrust then true
    else if a.block.hashPrevBlock = node.hashBestChain then
      G.extends env a.ctx (insertBlockIndex node pindexNew) a.block pindexNew
    else G.switches env a.ctx (insertBlockIndex node pindexNew) pindexNew

/-- A block of transactions of `T` that has been accepted and written to disk. -/
structure Arrival.Good (env : Env) (T : Set CTransaction) (node : Node) (a : Arrival) : Prop where
  valid : a.Valid env node
  accepted : a.accepted env node = true
  -- heights are of type `int`
  height : heightOf node.mapBlockIndex a.block.hashPrevBlock + 1 < 2 ^ 31
  mem : ∀ tx ∈ a.block.vtx, tx ∈ T

theorem NodeInv.insert {a : Arrival} (h : NodeInv R node chain) (hgood : a.Good env T node)
    (hnew : newBlockIndex env node a.block a.nFile a.nBlockPos a.hashProof = .ok pindexNew)
    (hfresh : node.mapBlockIndex pindexNew.hashBlock = none) :
    NodeInv R (insertBlockIndex node pindexNew) chain := by
  have hbest := h.best.insert hgood.valid hnew hfresh
  obtain ⟨prev, hprev⟩ := Option.isSome_iff_exists.mp hgood.valid.parent
  obtain ⟨-, -, hnHeight, -⟩ := newBlockIndex_ok hprev hnew
  have haccepted := hgood.accepted
  simp only [Arrival.accepted, Bool.and_eq_true] at haccepted
  obtain ⟨hashProof, haccept⟩ := exists_of_isOk haccepted.2
  have hheight := hgood.height
  rw [heightOf_eq hprev, ← hnHeight] at hheight
  obtain ⟨hcore, -⟩ := h.link.core.accept haccept h.link.tip.batch
    (readBlockFromDisk_ok hgood.valid.readable).1 hnew hheight hgood.mem
  exact ⟨hbest, hbest.chainTip, hbest.readable, hcore, h.link.pool, h.link.holds⟩

theorem NodeInv.add {a : Arrival} (h : NodeInv R node chain) (hT : HashOk env.getHash T)
    (hgood : a.Good env T node) (hclean : a.meets G env node = true) :
    ∃ chain', NodeInv R (a.add env node) chain' := by
  suffices hlink : a.postponedConnect env node = true ∧
      ∃ chain', LinkInv R (a.add env node) chain' by
    -- both invariants are about the block in the database
    obtain ⟨hpostponed, chain', hlink⟩ := hlink
    obtain ⟨tip', hbest⟩ := addStep_agree h.best hgood.valid hpostponed
    have htip : tip' = tipOf genesis chain' :=
      Option.some.inj (hbest.chainTip.stored.symm.trans hlink.tip.stored)
    exact ⟨chain', by rw [← htip]; exact hbest, hlink⟩
  rcases Arrival.add_cases hgood.valid with ⟨hadd, hexists⟩ | ⟨hadd, r, hnew⟩ |
    ⟨pindexNew, hnew, hfresh, hhash, hpprev, hentry, hadd⟩
  · rw [hadd]
    refine ⟨?_, chain, h.link⟩
    obtain ⟨prev, hprev⟩ := Option.isSome_iff_exists.mp hgood.valid.parent
    unfold Arrival.postponedConnect
    split
    · rfl
    · next pindexNew hnew =>
      rw [← (newBlockIndex_ok hprev hnew).1] at hexists
      simp [hexists]
  · rw [hadd, Arrival.postponedConnect, hnew]
    exact ⟨rfl, chain, h.link.tip.congr rfl rfl, h.link.readable,
      h.link.core.congr rfl (Entrywise.refl SameCore.refl _), h.link.pool, h.link.holds⟩
  · obtain ⟨prev, hprev⟩ := Option.isSome_iff_exists.mp hgood.valid.parent
    obtain ⟨-, -, -, hfile, hpos, -⟩ := newBlockIndex_ok hprev hnew
    have hinsert := h.insert hgood hnew hfresh
    have hread : env.readBlockFromDisk pindexNew = .ok a.block := by
      have hread := hgood.valid.readable
      unfold Env.readBlockFromDisk at hread ⊢
      rw [hfile, hpos, hhash]
      exact hread
    simp only [Arrival.meets, hnew, hfresh, Option.isSome_none, Bool.false_eq_true, false_or] at hclean
    simp only [Arrival.postponedConnect, hnew, hfresh, Option.isSome_none, Bool.false_eq_true, false_or]
    rw [hadd]
    by_cases htrust : node.nBestChainTrust < pindexNew.nChainTrust
    · rw [if_pos htrust]
      rw [if_neg (not_le.mpr htrust)] at hclean
      by_cases hextends : a.block.hashPrevBlock = node.hashBestChain
      · rw [if_pos hextends] at hclean
        refine ⟨by simp [hextends], ?_⟩
        exact hinsert.link.setBestChain hT hinsert.best hentry hpprev hread (fun _ => hclean)
          fun hne => absurd hextends hne
      · rw [if_neg hextends] at hclean
        refine ⟨?_, ?_⟩
        · rw [if_neg (by simp [htrust, hextends])]
          exact (hinsert.link.switchBestChain a.ctx hT hinsert.best.best hentry hclean).1
        · exact hinsert.link.setBestChain hT hinsert.best hentry hpprev hread
            (fun heq => absurd heq hextends) fun _ => hclean
    · rw [if_neg htrust]
      exact ⟨by simp [not_lt.mp htrust], chain, hinsert.link⟩

theorem NodeInv.setPool (h : NodeInv R node chain) (walletSyncs : List (CTransaction × Bool))
    (hinv : PoolInv env.getHash T pool) (hholds : R.Holds pool chain) :
    NodeInv R { node with mempool := pool, walletSyncs := walletSyncs } chain :=
  ⟨h.best.of_kept (h.link.tip.congr rfl rfl) (Kept.refl node), h.link.tip.congr rfl rfl,
    h.link.readable, h.link.core.congr rfl (Entrywise.refl SameCore.refl _), hinv, hholds⟩

theorem NodeInv.acceptTx {c : Ctx} (h : NodeInv R node chain) (htx : tx ∈ T)
    (hok : acceptToMemoryPool env c node tx = .ok node') : NodeInv R node' chain := by
  have hok := acceptToMemoryPool_ok hok
  have hinv := poolInv_acceptToMemoryPool h.link.pool htx hok
  have hholds := R.accept h.link.core h.link.tip.batch hok h.link.holds
  rw [hok.node_eq] at hinv hholds ⊢
  exact h.setPool _ hinv hholds

theorem nodeInv_genesis {start : Node} (R : PoolRule env T genesis G)
    (hindex : OnlyGenesis genesis start) (hgenesis : AtGenesis genesis start)
    (hempty : start.mempool = {}) (hholds : R.Holds {} []) : NodeInv R start [] := by
  have hbest : BestInv env genesis start genesis := bestInv_onlyGenesis hindex
  refine ⟨hbest, hbest.chainTip, hbest.readable, (chainInv_genesis hgenesis).core, ?_, ?_⟩
  · rw [hempty]
    exact poolInv_empty 0
  · rw [hempty]
    exact hholds

theorem ChainCore.mem_of_ancestor {b : Uint256} (hcore : ChainCore env T genesis ⟨node, chain⟩)
    (hanc : Ancestor (parentOf node.mapBlockIndex) (tipOf genesis chain) b) (hne : b ≠ genesis) :
    ∃ c ∈ chain, c.pindex.hashBlock = b := by
  suffices key : ∀ pre post, chain = pre ++ post →
      Ancestor (parentOf node.mapBlockIndex) (tipOf genesis pre) b →
      ∃ c ∈ pre, c.pindex.hashBlock = b from key chain [] (by simp) hanc
  intro pre
  induction pre using List.reverseRecOn with
  | nil =>
    intro post _ hanc
    obtain ⟨e, he, hprev, -⟩ := hcore.tree.root
    have hroot : parentOf node.mapBlockIndex genesis = none := by
      rw [parentOf_eq he]
      exact hprev
    exact absurd (eq_of_ancestor_root hroot hanc).symm hne
  | append_singleton pre c ih =>
    intro post hchain hanc
    rw [List.append_assoc] at hchain
    obtain ⟨e, he, -, hpprev, -⟩ := hcore.blocks pre c post hchain
    have hparent : parentOf node.mapBlockIndex c.pindex.hashBlock = some (tipOf genesis pre) := by
      rw [parentOf_eq he]
      exact hpprev
    rw [tipOf_append, ancestor_iff hparent] at hanc
    rcases hanc with rfl | hanc
    · exact ⟨c, by simp, rfl⟩
    · obtain ⟨c', hc', heq⟩ := ih ([c] ++ post) hchain hanc
      exact ⟨c', by simp [hc'], heq⟩

theorem NodeInv.isInMainChain_iff (h : NodeInv R node chain) {b : Uint256} {pindex : CBlockIndex}
    (hb : node.mapBlockIndex b = some pindex) :
    isInMainChain node pindex = true ↔ Ancestor (parentOf node.mapBlockIndex) (tipOf genesis chain) b := by
  rw [← h.best.chainTip.follows.ancestor_iff b, nextOf_eq hb, isInMainChain, h.best.best,
    h.best.chainTip.tree.hash hb]
  simp [Option.ne_none_iff_isSome]

/-- A step of the node: a transaction is accepted into the pool, or a block for which `P` holds is added
to the index, and connected if it makes a better chain. -/
inductive SyncStep (env : Env) (T : Set CTransaction) (P : Node → Arrival → Prop) :
    Node → Node → Prop
  | acceptTx {node node' : Node} {c : Ctx} {tx : CTransaction} (htx : tx ∈ T)
      (hok : acceptToMemoryPool env c node tx = .ok node') : SyncStep env T P node node'
  | addBlock {node : Node} {a : Arrival} (hgood : a.Good env T node) (hP : P node a) :
      SyncStep env T P node (a.add env node)

theorem syncRun_inv {start : Node} (hT : HashOk env.getHash T) (hstart : NodeInv R start chain)
    (hrun : ReflTransGen (SyncStep env T fun node a => a.meets G env node = true) start node) :
    ∃ chain', NodeInv R node chain' := by
  induction hrun with
  | refl => exact ⟨chain, hstart⟩
  | tail _ hstep ih =>
    obtain ⟨chain', hinv⟩ := ih
    cases hstep with
    | acceptTx htx hok => exact ⟨chain', hinv.acceptTx htx hok⟩
    | addBlock hgood hmeets => exact hinv.add hT hgood hmeets

/-! ### Sample runs -/

/-- The coinbases of the sample blocks and, from the time 200 on, transactions that all spend the first
of these coinbases. -/
def minedTx (n : Nat) : CTransaction :=
  if n < 200 then
    { nTime := n, vin := [⟨COutPoint.null, CScript.pushInt n ++ [0], uintMax⟩],
      vout := [⟨1, [1], -10⟩] }
  else
    { nTime := n, vin := [⟨⟨1001, 0⟩, [], uintMax⟩], vout := [⟨1, [1], -10⟩] }

/-- The block at height `n`, with hash `1000 + n`.  The first hundred blocks hold a coinbase only. -/
def minedBlock (n : Nat) : CBlock :=
  { sampleBlock (if n ≤ 100 then [minedTx n] else [minedTx n, minedTx 201]) with
    hashPrevBlock := if n = 1 then 105 else 1000 + n - 1
    nTime := 900 + n }

def minedEnv : Env :=
  Env.permissive sampleTxHash sampleBlockHash (fun _ _ _ _ _ _ => true)
    (BlockFiles.ofBlocks ((List.range 101).map fun i => minedBlock (i + 1)))

def minedArrivals (n : Nat) : List Arrival :=
  (List.range n).map fun i => arrival 1100 (i + 1) (minedBlock (i + 1))

theorem minedTx_nTime (n : Nat) : (minedTx n).nTime = n := by
  unfold minedTx
  split <;> rfl

theorem prevouts_minedTx_lt (n : Nat) : ∀ o ∈ (minedTx n).prevouts, o.hash < 1000 + n := by
  intro o ho
  unfold minedTx at ho
  split at ho
  · obtain rfl := List.mem_singleton.mp ho
    show 0 < 1000 + n
    omega
  · obtain rfl := List.mem_singleton.mp ho
    show 1001 < 1000 + n
    omega

theorem hashOk_minedTx : HashOk minedEnv.getHash (Set.range minedTx) := by
  have hhash : ∀ n, minedEnv.getHash (minedTx n) = 1000 + n := by
    intro n
    show 1000 + (minedTx n).nTime = 1000 + n
    rw [minedTx_nTime]
  constructor
  · rintro _ ⟨n, rfl⟩ _ ⟨m, rfl⟩ heq
    rw [hhash, hhash] at heq
    have hnm : n = m := Nat.add_left_cancel heq
    rw [hnm]
  · refine acyclic_of_lt ?_
    rintro a b ⟨_, ⟨n, rfl⟩, rfl, o, ho, rfl⟩
    rw [hhash]
    exact prevouts_minedTx_lt n o ho

/-- Each block of the list is a valid arrival that meets the condition when its turn comes. -/
def goodRun (G : PoolGuard) (env : Env) : List Arrival → Node → Bool
  | [], _ => true
  | a :: rest, node =>
    (node.mapBlockIndex a.block.hashPrevBlock).isSome &&
      decide (env.readBlockFromDisk
        (CBlockIndex.ofBlock (env.getBlockHash a.block) a.nFile a.nBlockPos a.block) = .ok a.block) &&
      a.accepted env node &&
      decide (heightOf node.mapBlockIndex a.block.hashPrevBlock + 1 < 2 ^ 31) &&
      a.meets G env node && goodRun G env rest (a.add env node)

theorem syncRun_of_goodRun {P : Node → Arrival → Prop}
    (hP : ∀ node a, a.meets G env node = true → P node a) :
    ∀ (l : List Arrival) (node : Node), goodRun G env l node = true →
      (∀ a ∈ l, ∀ tx ∈ a.block.vtx, tx ∈ T) →
      ReflTransGen (SyncStep env T P) node (l.foldl (fun node a => a.add env node) node) := by
  intro l
  induction l with
  | nil => exact fun node _ _ => .refl
  | cons a rest ih =>
    intro node hrun hmem
    simp only [goodRun, Bool.and_eq_true, decide_eq_true_eq] at hrun
    obtain ⟨⟨⟨⟨⟨hparent, hread⟩, haccepted⟩, hheight⟩, hmeets⟩, hrest⟩ := hrun
    refine .head (.addBlock ⟨⟨hparent, hread⟩, haccepted, hheight, hmem a (by simp)⟩ (hP _ _ hmeets)) ?_
    exact ih _ hrest fun b hb => hmem b (by simp [hb])

def minedNode : Node :=
  (minedArrivals 100).foldl (fun node a => a.add minedEnv node) genesisNode

def minedCtx : Ctx := { sampleCtx with nAdjustedTime := 1100 }

def pooledNode : Node :=
  match acceptToMemoryPool minedEnv minedCtx minedNode (minedTx 200) with
  | .ok node => node
  | .error _ => minedNode

theorem minedArrivals_mem : ∀ a ∈ minedArrivals 100, ∀ tx ∈ a.block.vtx, tx ∈ Set.range minedTx := by
  intro a ha tx htx
  obtain ⟨i, hi, rfl⟩ := List.mem_map.mp ha
  have hle : i + 1 ≤ 100 := List.mem_range.mp hi
  refine ⟨i + 1, ?_⟩
  simpa [arrival, minedBlock, sampleBlock, hle, eq_comm] using htx

end Sphinx
