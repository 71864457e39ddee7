import Sphinx.Equiv.PoolChain

/-!
# Pool and main chain do not conflict

A pool transaction and a transaction of the main chain must not spend the same outpoint (`Apart`).
`AcceptToMemoryPool` lets in only transactions whose inputs are unspent in the index of the active
chain; `Reorganize` removes what conflicts with the blocks it has connected.  `SetBestChainInner`,
however, removes the transactions of the block it connects and leaves those that conflict with them.

* `apartRule`: the operations keep pool and chain apart if no block attached by `SetBestChainInner`
  conflicts with the pool;
* `nodeRun_apart`: in every run of such operations pool and main chain stay apart;
* `nodeRun_conflict`: a run with another operation, after which they do not.
-/

namespace Sphinx

open ParentTree Relation CTxMemPool

variable {env : Env} {ctx : Uint256 → Ctx} {T : Set CTransaction} {genesis : Uint256}
  {node node' : Node} {chain : List ChainBlock} {pool pool' : CTxMemPool}

/-- No pool transaction spends an outpoint that a transaction of the chain spends. -/
def Apart (pool : CTxMemPool) (chain : List ChainBlock) : Prop :=
  ∀ h tx, pool.mapTx.lookup h = some tx → ∀ o ∈ tx.prevouts, ∀ y, ¬ SpentBy chain o y

theorem Apart.mono (h : Apart pool chain) (hsub : SubPool pool' pool) : Apart pool' chain :=
  fun k tx hk => h k tx (hsub k tx hk)

/-- **An accepted transaction does not conflict with the active chain.** -/
theorem apart_acceptToMemoryPool {tx : CTransaction} (hcore : ChainCore env T genesis ⟨node, chain⟩)
    (hcoll : CTransaction.NoCollision env.getHash T) (hbatch : node.txdb.activeBatch = none)
    (hok : Accepted env node tx node') : ∀ o ∈ tx.prevouts, ∀ y, ¬ SpentBy chain o y := by
  rintro o ho y ⟨hy, hcb, hoy⟩
  have hspec := hcore.ledger.spec hcoll hcore.mem
  obtain ⟨_, hyf⟩ := hcore.ledger.forall_canFollow hy
  obtain ⟨txindex, hindex, hspent⟩ :=
    (hspec.spent_iff o y.pos hyf.pos_ne_null).mpr ⟨y, hy, hcb, hoy, rfl⟩
  have hdb : (⟨node.txdb.pdb, none⟩ : CTxDB) = node.txdb := by rw [← hbatch]
  rw [← hcore.index] at hindex
  have hnull := hok.unspent o ho txindex (by rw [hdb]; exact hindex)
  exact hyf.pos_ne_null (Option.some.inj (hspent.symm.trans hnull))

/-! ### The guard and the rule -/

theorem spentBy_append {b : ChainBlock} {o : COutPoint} {y : Placed} :
    SpentBy (chain ++ [b]) o y ↔
      SpentBy chain o y ∨ y ∈ b.txs ∧ y.tx.isCoinBase = false ∧ o ∈ y.tx.prevouts := by
  simp only [SpentBy, chainTxs_append, List.mem_append, or_and_right]

/-- No pool transaction that is not in the block spends an outpoint the block spends. -/
def compatible (env : Env) (pool : CTxMemPool) (block : CBlock) : Bool :=
  pool.mapTx.entries.all fun e => (block.vtx.map env.getHash).contains e.1 ||
    e.2.prevouts.all fun o => block.vtx.all fun y => y.isCoinBase || !y.prevouts.contains o

theorem compatible_iff {block : CBlock} : compatible env pool block = true ↔
    ∀ h tx, pool.mapTx.lookup h = some tx → h ∉ block.vtx.map env.getHash →
      ∀ o ∈ tx.prevouts, ∀ y ∈ block.vtx, y.isCoinBase = false → o ∉ y.prevouts := by
  have hmem : ∀ h tx, pool.mapTx.lookup h = some tx ↔ (⟨h, tx⟩ : Sigma fun _ => CTransaction)
      ∈ pool.mapTx.entries := fun h tx => AList.mem_lookup_iff
  simp only [compatible, List.all_eq_true, Bool.or_eq_true, List.contains_iff_mem, Sigma.forall,
    ← hmem, Bool.not_eq_true']
  constructor
  · intro hall h tx hl hnot o ho y hy hcb hoy
    rcases hall h tx hl with hin | hfree
    · exact hnot hin
    · rcases hfree o ho y hy with hcb' | hnot'
      · rw [hcb] at hcb'; cases hcb'
      · simp [hoy] at hnot'
  · intro hall h tx hl
    by_cases hin : h ∈ block.vtx.map env.getHash
    · exact .inl hin
    · refine .inr fun o ho y hy => ?_
      by_cases hcb : y.isCoinBase = true
      · exact .inl hcb
      · exact .inr (by simpa using hall h tx hl hin o ho y hy (by simpa using hcb))

/-- No attached block conflicts with the pool. -/
def noConflict (env : Env) : PoolGuard where
  attach := compatible env
  switch _ _ _ _ := true

/-- Attaching a block that is compatible with the pool. -/
theorem Apart.attach {block : CBlock} {pindex : CBlockIndex} (hT : HashOk env.getHash T)
    (hinv : PoolInv env.getHash T pool) (hmem : ∀ tx ∈ block.vtx, tx ∈ T) (hapart : Apart pool chain)
    (hcompatible : compatible env pool block = true) :
    Apart (block.vtx.foldl (fun pool tx => pool.remove env.getHash tx) pool)
      (chain ++ [⟨block, pindex⟩]) := by
  obtain ⟨-, hsub, hgone⟩ := removeAll_spec hT block.vtx pool hinv hmem
  intro k tx hl o ho y hy
  have hl' := hsub k tx hl
  rcases spentBy_append.mp hy with hy | ⟨hy, hcb, hoy⟩
  · exact hapart k tx hl' o ho y hy
  · refine compatible_iff.mp hcompatible k tx hl' ?_ o ho y.tx (mem_placeTxs hy).1 hcb hoy
    intro hmem
    obtain ⟨t, ht, rfl⟩ := List.mem_map.mp hmem
    rw [hgone t ht] at hl
    cases hl

/-- Pool and chain conflict at most over the transactions `D`. -/
def ApartBut (D : List CTransaction) (pool : CTxMemPool) (chain : List ChainBlock) : Prop :=
  ∀ h tx, pool.mapTx.lookup h = some tx → ∀ o ∈ tx.prevouts, ∀ y, SpentBy chain o y → y.tx ∈ D

/-- An accepted transaction adds no conflict. -/
theorem apartBut_acceptToMemoryPool {D : List CTransaction} {tx : CTransaction}
    (hcore : ChainCore env T genesis ⟨node, chain⟩)
    (hcoll : CTransaction.NoCollision env.getHash T) (hbatch : node.txdb.activeBatch = none)
    (hok : Accepted env node tx node') (hD : ApartBut D node.mempool chain) :
    ApartBut D node'.mempool chain := by
  intro h t hl o ho y hy
  rw [hok.node_eq] at hl
  by_cases hh : h = env.getHash tx
  · rw [hh] at hl
    have ht : tx = t := by simpa [addUnchecked] using hl
    rw [← ht] at ho
    exact absurd hy (apart_acceptToMemoryPool hcore hcoll hbatch hok o ho y)
  · have hl' : node.mempool.mapTx.lookup h = some t := by
      simpa [addUnchecked, AList.lookup_insert_ne hh] using hl
    exact hD h t hl' o ho y hy

/-- Switching branches: what conflicts with the new blocks is deleted. -/
theorem Apart.switch {pre post added : List ChainBlock} {vDisconnect vConnect : List Uint256}
    {vResurrect vDelete : List CTransaction} (hT : HashOk env.getHash T)
    (h : Switched env T genesis pre post added vDisconnect vConnect node vResurrect vDelete)
    (hapart : Apart node.mempool (pre ++ post)) :
    Apart (vDelete.foldl (deleteTx env) (vResurrect.foldl (resurrectTx env ctx) node).mempool)
      (pre ++ added) := by
  -- the pool conflicts with the new blocks at most
  have hD : ApartBut vDelete node.mempool (pre ++ added) := by
    rintro k tx hl o ho y ⟨hy, hcb, hoy⟩
    obtain ⟨b, hb, hyb⟩ := List.mem_flatMap.mp hy
    rcases List.mem_append.mp hb with hb | hb
    · have hold : SpentBy (pre ++ post) o y :=
        ⟨List.mem_flatMap.mpr ⟨b, List.mem_append_left post hb, hyb⟩, hcb, hoy⟩
      exact absurd hold (hapart k tx hl o ho y)
    · rw [h.delete]
      exact List.mem_flatMap.mpr ⟨b, hb, (mem_placeTxs hyb).1⟩
  let I (n : Node) : Prop :=
    Resurrecting env T genesis (pre ++ added) n ∧ ApartBut vDelete n.mempool (pre ++ added)
  have hI : I (vResurrect.foldl (resurrectTx env ctx) node) := by
    refine resurrect_inv ctx vResurrect node ⟨h.resurrecting, hD⟩ ?_
    rintro n n' tx htx ⟨hn, hDn⟩ hok
    exact ⟨hn.accept (h.resurrect_mem tx htx) hok,
      apartBut_acceptToMemoryPool hn.core hT.noCollision hn.batch hok hDn⟩
  obtain ⟨-, hsub, hfree⟩ := deleteAll_spec hT vDelete _ hI.1.pool h.delete_mem
  intro k tx hl o ho y hy
  exact hfree y.tx (hI.2 k tx (hsub k tx hl) o ho y hy) k tx hl o ho hy.2.2

def apartRule (genesis : Uint256) (hT : HashOk env.getHash T) :
    PoolRule env T genesis (noConflict env) where
  Holds := Apart
  congr hmap hapart k tx hl := hapart k tx (by rw [← hmap]; exact hl)
  accept hcore hbatch hok hapart k t hl o ho y hy := by
    have hD := apartBut_acceptToMemoryPool hcore hT.noCollision hbatch hok
      (D := []) (fun k t hl o ho y hy => absurd hy (hapart k t hl o ho y))
    exact absurd (hD k t hl o ho y hy) List.not_mem_nil
  attach := Apart.attach hT
  switch h hapart _ := Apart.switch hT h hapart

/-! ### Runs -/

/-- When its turn comes, every postponed block is connected, and it is compatible with the pool. -/
def connectsCleanly (env : Env) (ctx : Uint256 → Ctx) : List Uint256 → Node → Bool
  | [], _ => true
  | pindex :: rest, node =>
    match readIndexed env node pindex "SetBestChain() : ReadFromDisk failed" with
    | .error _ => true
    | .ok (entry, block) =>
      match setBestChainInner env ctx node.begun block entry with
      | .error _ => false
      | .ok node' => compatible env node.mempool block && connectsCleanly env ctx rest node'

/-- When `SetBestChain` switches branches, the postponed blocks are connected and are compatible with
the pool. -/
def switchesCleanly (env : Env) (ctx : Uint256 → Ctx) (node : Node) (pindexNew : CBlockIndex) :
    Bool :=
  match node.pindexBest.bind node.mapBlockIndex with
  | none => true
  | some pindexBest =>
    let (pindexIntermediate, vpindexSecondary) := postpone node.mapBlockIndex pindexBest.nChainTrust
      (pindexNew.nHeight + 1) pindexNew []
    match reorganize env ctx node.begun pindexIntermediate with
    | .error _ => true
    | .ok node => connectsCleanly env ctx vpindexSecondary.reverse node

/-- A block that is connected on top of the best chain is compatible with the pool. -/
def extendsCleanly (env : Env) (ctx : Uint256 → Ctx) (node : Node) (block : CBlock)
    (pindexNew : CBlockIndex) : Bool :=
  match setBestChainInner env ctx node.begun block pindexNew with
  | .error _ => true
  | .ok _ => compatible env node.mempool block

/-- No block that the call attaches by `SetBestChainInner` spends an outpoint that a pool transaction
outside the block spends, and no block it postpones fails to connect. -/
def Arrival.clean (env : Env) (node : Node) (a : Arrival) : Bool :=
  match newBlockIndex env node a.block a.nFile a.nBlockPos a.hashProof with
  | .error _ => true
  | .ok pindexNew =>
    if (node.mapBlockIndex pindexNew.hashBlock).isSome ∨
      pindexNew.nChainTrust ≤ node.nBestChainTrust then true
    else if a.block.hashPrevBlock = node.hashBestChain then
      extendsCleanly env a.ctx (insertBlockIndex node pindexNew) a.block pindexNew
    else switchesCleanly env a.ctx (insertBlockIndex node pindexNew) pindexNew

theorem connects_noConflict (l : List Uint256) :
    ∀ node, (noConflict env).connects env ctx l node = connectsCleanly env ctx l node := by
  induction l with
  | nil => exact fun _ => rfl
  | cons h rest ih =>
    intro node
    unfold PoolGuard.connects connectsCleanly
    cases readIndexed env node h "SetBestChain() : ReadFromDisk failed" with
    | error e => rfl
    | ok r =>
      dsimp only
      cases setBestChainInner env ctx node.begun r.2 r.1 with
      | error e => rfl
      | ok node' =>
        dsimp only
        rw [ih node']
        rfl

theorem reorganizes_noConflict (pindexNew : CBlockIndex) :
    (noConflict env).reorganizes env ctx node pindexNew = true := by
  unfold PoolGuard.reorganizes
  split
  · rfl
  · split
    · rfl
    · split
      · rfl
      · rfl

theorem switches_noConflict (pindexNew : CBlockIndex) :
    (noConflict env).switches env ctx node pindexNew = switchesCleanly env ctx node pindexNew := by
  unfold PoolGuard.switches switchesCleanly
  cases node.pindexBest.bind node.mapBlockIndex with
  | none => rfl
  | some pindexBest =>
    dsimp only
    rw [reorganizes_noConflict, Bool.true_and]
    generalize reorganize env ctx _ _ = result
    cases result with
    | error e => rfl
    | ok node' => exact connects_noConflict _ node'

theorem Arrival.meets_noConflict (a : Arrival) :
    a.meets (noConflict env) env node = a.clean env node := by
  unfold Arrival.meets Arrival.clean
  simp only [switches_noConflict]
  rfl

/-- A step of the node: a transaction is accepted into the pool, a block for which `P` holds is added
to the index (and connected, if it makes a better chain), or transactions are removed from the pool. -/
inductive NodeStep (env : Env) (T : Set CTransaction) (P : Node → Arrival → Prop) :
    Node → Node → Prop
  | acceptTx {node node' : Node} {c : Ctx} {tx : CTransaction} (htx : tx ∈ T)
      (hok : acceptToMemoryPool env c node tx = .ok node') : NodeStep env T P node node'
  | addBlock {node : Node} {a : Arrival} (hgood : a.Good env T node) (hP : P node a) :
      NodeStep env T P node (a.add env node)
  | remove {node : Node} {tx : CTransaction} (htx : tx ∈ T) (fRecursive : Bool) :
      NodeStep env T P node { node with mempool := node.mempool.remove env.getHash tx fRecursive }
  | removeConflicts {node : Node} {tx : CTransaction} (htx : tx ∈ T) :
      NodeStep env T P node { node with mempool := node.mempool.removeConflicts env.getHash tx }
  | clear {node : Node} : NodeStep env T P node { node with mempool := node.mempool.clear }

theorem NodeStep.of_sync {P : Node → Arrival → Prop} (h : SyncStep env T P node node') :
    NodeStep env T P node node' := by
  cases h with
  | acceptTx htx hok => exact .acceptTx htx hok
  | addBlock hgood hP => exact .addBlock hgood hP

theorem nodeStep_inv {node' : Node} (hT : HashOk env.getHash T)
    (h : NodeInv (apartRule genesis hT) node chain)
    (hstep : NodeStep env T (fun node a => a.clean env node = true) node node') :
    ∃ chain', NodeInv (apartRule genesis hT) node' chain' := by
  cases hstep with
  | acceptTx htx hok => exact ⟨chain, h.acceptTx htx hok⟩
  | addBlock hgood hclean => exact h.add hT hgood (by rw [Arrival.meets_noConflict]; exact hclean)
  | remove htx fRecursive =>
    obtain ⟨R, hR⟩ := remove_without hT h.link.pool htx fRecursive
    exact ⟨chain, h.setPool node.walletSyncs hR.inv (Apart.mono h.link.holds (subPool_of_without hR))⟩
  | @removeConflicts tx htx =>
    have hR := removeConflicts_without hT h.link.pool tx
    exact ⟨chain, h.setPool node.walletSyncs hR.inv (Apart.mono h.link.holds (subPool_of_without hR))⟩
  | clear =>
    refine ⟨chain, h.setPool node.walletSyncs (poolInv_empty _) fun k tx hl => ?_⟩
    cases hl

/-- No pool transaction spends an outpoint that a transaction of the main chain spends. -/
def PoolApart (env : Env) (genesis : Uint256) (node : Node) : Prop :=
  ∀ h tx, node.mempool.mapTx.lookup h = some tx → ∀ o ∈ tx.prevouts,
    ∀ b pindex block, node.mapBlockIndex b = some pindex → b ≠ genesis →
      isInMainChain node pindex = true → env.readBlockFromDisk pindex = .ok block →
      ∀ y ∈ block.vtx, y.isCoinBase = false → o ∉ y.prevouts

theorem NodeInv.poolApart {hT : HashOk env.getHash T} (h : NodeInv (apartRule genesis hT) node chain) :
    PoolApart env genesis node := by
  intro k tx hl o ho b pindex block hb hne hmain hread y hy hcb hoy
  obtain ⟨c, hc, rfl⟩ := h.link.core.mem_of_ancestor ((h.isInMainChain_iff hb).mp hmain) hne
  obtain ⟨rfl, -⟩ := h.link.core.read_entry hc hb hread
  rw [← map_tx_placeTxs c.pindex c.block c.block.vtx []] at hy
  obtain ⟨x, hx, rfl⟩ := List.mem_map.mp hy
  exact h.link.holds k tx hl o ho x ⟨List.mem_flatMap.mpr ⟨c, hc, hx⟩, hcb, hoy⟩

/-- **Pool and main chain stay apart**, in every run in which no block attached by `SetBestChainInner`
spends an outpoint that a pool transaction outside the block spends. -/
theorem nodeRun_apart {start : Node} (hT : HashOk env.getHash T) (hindex : OnlyGenesis genesis start)
    (hgenesis : AtGenesis genesis start) (hempty : start.mempool = {})
    (hrun : ReflTransGen (NodeStep env T fun node a => a.clean env node = true) start node) :
    PoolApart env genesis node := by
  suffices hinv : ∃ chain, NodeInv (apartRule genesis hT) node chain by
    obtain ⟨chain, hinv⟩ := hinv
    exact hinv.poolApart
  induction hrun with
  | refl =>
    refine ⟨[], nodeInv_genesis _ hindex hgenesis hempty ?_⟩
    intro k tx hl
    cases hl
  | tail _ hstep ih =>
    obtain ⟨chain, hinv⟩ := ih
    exact nodeStep_inv hT hinv hstep

/-! ### Sample runs -/

def conflictArrival : Arrival := arrival 1100 101 (minedBlock 101)

def conflictNode : Node := conflictArrival.add minedEnv pooledNode

theorem goodRun_minedArrivals : goodRun (noConflict minedEnv) minedEnv (minedArrivals 100) genesisNode = true := by
  decide +kernel

/-- The first coinbase is mature, so the first transaction that spends it goes into the pool, and it
stays there when the next block arrives. -/
theorem conflictNode_spec :
    (acceptToMemoryPool minedEnv minedCtx minedNode (minedTx 200)).isOk = true ∧
    pooledNode.mempool.mapTx.lookup 1200 = some (minedTx 200) ∧
    conflictArrival.accepted minedEnv pooledNode = true ∧
    (pooledNode.mapBlockIndex conflictArrival.block.hashPrevBlock).isSome = true ∧
    heightOf pooledNode.mapBlockIndex conflictArrival.block.hashPrevBlock + 1 < 2 ^ 31 ∧
    conflictNode.mempool.mapTx.lookup 1200 = some (minedTx 200) ∧
    conflictNode.pindexBest = some 1101 ∧
    (conflictNode.mapBlockIndex 1101).map (fun e => (e.hashBlock, minedEnv.readBlockFromDisk e)) =
      some (1101, .ok (minedBlock 101)) := by decide +kernel

theorem nodeRun_pooledNode {P : Node → Arrival → Prop}
    (hP : ∀ node a, a.clean minedEnv node = true → P node a) :
    ReflTransGen (NodeStep minedEnv (Set.range minedTx) P) genesisNode pooledNode := by
  have hmined : ReflTransGen (NodeStep minedEnv (Set.range minedTx) P) genesisNode minedNode :=
    ReflTransGen.mono (fun _ _ => .of_sync) _ _ (syncRun_of_goodRun
      (fun node a hmeets => hP node a (by rw [← Arrival.meets_noConflict]; exact hmeets)) _ _
      goodRun_minedArrivals minedArrivals_mem)
  refine hmined.tail (.acceptTx (c := minedCtx) ⟨200, rfl⟩ ?_)
  have hok := conflictNode_spec.1
  unfold pooledNode
  cases h : acceptToMemoryPool minedEnv minedCtx minedNode (minedTx 200) with
  | ok node => rfl
  | error e => rw [h] at hok; cases hok

/-- **A pool transaction spends what the main chain spends.**  The block extends the best chain, so it
is attached by `SetBestChainInner`, which removes the transactions of the block from the pool and not
those that conflict with them. -/
theorem nodeRun_conflict :
    HashOk minedEnv.getHash (Set.range minedTx) ∧ OnlyGenesis 105 genesisNode ∧
    AtGenesis 105 genesisNode ∧ genesisNode.mempool = {} ∧
    ReflTransGen (NodeStep minedEnv (Set.range minedTx) fun _ _ => True) genesisNode conflictNode ∧
    ¬ PoolApart minedEnv 105 conflictNode := by
  obtain ⟨-, -, haccepted, hparent, hheight, hpool, hbest, hindex⟩ := conflictNode_spec
  refine ⟨hashOk_minedTx, onlyGenesis_genesisNode, atGenesis_genesisNode, rfl, ?_, ?_⟩
  · have hrun : ReflTransGen (NodeStep minedEnv (Set.range minedTx) fun _ _ => True) genesisNode
        pooledNode := nodeRun_pooledNode fun _ _ _ => trivial
    have hread : minedEnv.readBlockFromDisk (CBlockIndex.ofBlock
        (minedEnv.getBlockHash conflictArrival.block) conflictArrival.nFile conflictArrival.nBlockPos
        conflictArrival.block) = .ok conflictArrival.block := by decide
    refine hrun.tail (.addBlock ⟨⟨hparent, hread⟩, haccepted, hheight, fun tx htx => ?_⟩ trivial)
    have hvtx : conflictArrival.block.vtx = [minedTx 101, minedTx 201] := rfl
    rw [hvtx] at htx
    rcases List.mem_pair.mp htx with rfl | rfl
    · exact ⟨101, rfl⟩
    · exact ⟨201, rfl⟩
  · intro hapart
    obtain ⟨e, he, heq⟩ := Option.map_eq_some_iff.mp hindex
    have hmain : isInMainChain conflictNode e = true := by
      have hhash : e.hashBlock = 1101 := (Prod.ext_iff.mp heq).1
      simp [isInMainChain, hbest, hhash]
    exact hapart 1200 (minedTx 200) hpool ⟨1001, 0⟩ (by decide) 1101 e (minedBlock 101) he (by decide)
      hmain (Prod.ext_iff.mp heq).2 (minedTx 201) (by decide) (by decide) (by decide)

/-- A transaction of the pool spends the first coinbase, and no block of the chain does. -/
theorem nodeRun_apart_pooled :
    PoolApart minedEnv 105 pooledNode ∧
    pooledNode.mempool.mapTx.lookup 1200 = some (minedTx 200) :=
  ⟨nodeRun_apart hashOk_minedTx onlyGenesis_genesisNode atGenesis_genesisNode rfl
    (nodeRun_pooledNode fun _ _ hclean => hclean), conflictNode_spec.2.1⟩

end Sphinx
