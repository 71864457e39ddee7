import Sphinx.Equiv.BestChain
import Sphinx.Equiv.Ledger
import Sphinx.Equiv.Supply

/-!
# The transaction index over runs

The active chain is a list of blocks above the genesis block.  A step accepts a block into the block
index, connects a child of the tip, disconnects the tip, or changes something else.  `ChainInv` says
that the transaction index is the `ledgerIndex` of the active chain (`ChainCore`) and that the money
supply recorded in each of its blocks is the value of the unspent outputs up to that block.

* `ChainCore.connect`, `ChainCore.disconnect`: the two steps of the index;
* `chainRun_spec`: what the index says after every run;
* `moneySupply_le`: how much money there can be after every run.
-/

namespace Sphinx

open Relation ParentTree
open CTransaction (NoCollision)
open Function (update update_of_ne update_self)

variable {env : Env} {T : Set CTransaction} {genesis : Uint256}
variable {pindex : CBlockIndex} {block : CBlock} {node node' : Node} {st : ConnectState} {ctx : Ctx}

/-! ### The transactions of a chain -/

/-- A block of the active chain, with its index entry. -/
structure ChainBlock where
  block : CBlock
  pindex : CBlockIndex

/-- The transactions `rest` of a block, placed after its transactions `done`. -/
def placeTxs (pindex : CBlockIndex) (block : CBlock) :
    List CTransaction → List CTransaction → List Placed
  | _, [] => []
  | done, tx :: rest =>
    ⟨tx, txPos pindex block done, pindex.nHeight⟩ :: placeTxs pindex block (done ++ [tx]) rest

/-- The transactions of a block. -/
def ChainBlock.txs (b : ChainBlock) : List Placed := placeTxs b.pindex b.block [] b.block.vtx

/-- The transactions of a chain, in their order. -/
def chainTxs (chain : List ChainBlock) : List Placed := chain.flatMap ChainBlock.txs

theorem chainTxs_append (chain : List ChainBlock) (b : ChainBlock) :
    chainTxs (chain ++ [b]) = chainTxs chain ++ b.txs := by
  simp [chainTxs]

variable {txs : List Placed}

theorem placeTxs_append_list (pindex : CBlockIndex) (block : CBlock) (ys : List CTransaction) :
    ∀ xs done, placeTxs pindex block done (xs ++ ys)
      = placeTxs pindex block done xs ++ placeTxs pindex block (done ++ xs) ys := by
  intro xs
  induction xs with
  | nil => intro done; simp [placeTxs]
  | cons x xs ih => intro done; simp [placeTxs, ih]

theorem placeTxs_append (pindex : CBlockIndex) (block : CBlock) (tx : CTransaction)
    (xs done : List CTransaction) : placeTxs pindex block done (xs ++ [tx])
      = placeTxs pindex block done xs ++ [⟨tx, txPos pindex block (done ++ xs), pindex.nHeight⟩] :=
  placeTxs_append_list pindex block [tx] xs done

theorem mem_placeTxs {x : Placed} :
    ∀ {xs done : List CTransaction}, x ∈ placeTxs pindex block done xs →
      x.tx ∈ xs ∧ x.nHeight = pindex.nHeight := by
  intro xs
  induction xs with
  | nil => intro done hx; cases hx
  | cons tx xs ih =>
    intro done hx
    rcases List.mem_cons.mp hx with rfl | hx
    · exact ⟨by simp, rfl⟩
    · obtain ⟨hmem, hheight⟩ := ih hx
      exact ⟨by simp [hmem], hheight⟩

theorem map_tx_placeTxs (pindex : CBlockIndex) (block : CBlock) :
    ∀ xs done, (placeTxs pindex block done xs).map Placed.tx = xs := by
  intro xs
  induction xs with
  | nil => intro done; rfl
  | cons tx xs ih => intro done; simp [placeTxs, ih]

/-- Connecting transactions of a block is connecting them to the ledger. -/
theorem ledgerIndex_placeTxs (txs : List Placed) (pindex : CBlockIndex) (block : CBlock)
    (done : List CTransaction) :
    ledgerIndex env (txs ++ placeTxs pindex block [] done)
      = indexAfter env pindex block (ledgerIndex env txs) done := by
  induction done using List.reverseRecOn with
  | nil => simp [placeTxs, indexAfter_nil]
  | append_singleton done tx ih =>
    rw [placeTxs_append, ← List.append_assoc, ledgerIndex_append, ih, indexAfter_append,
      List.nil_append]

/-! ### One block -/

/-- A block that can be read at the position of an index entry and starts with its height. -/
structure Stored (env : Env) (T : Set CTransaction) (pindex : CBlockIndex) (block : CBlock) :
    Prop where
  read : env.files.readBlock pindex.nFile pindex.nBlockPos = some block
  nHeight_lt : pindex.nHeight < 2 ^ 31
  height : startsWithHeight block pindex.nHeight = true
  mem : ∀ tx ∈ block.vtx, tx ∈ T

theorem firstTxPos_eq (pindex : CBlockIndex) (block : CBlock) :
    firstTxPos pindex block false
      = pindex.nBlockPos + (CBlock.headerSize + getSizeOfCompactSize block.vtx.length) := by
  simp [firstTxPos, CBlock.getSerializeSize, CBlock.headerSize, getSizeOfCompactSize]
  omega

theorem readTxFromDisk_txPos (hread : env.files.readBlock pindex.nFile pindex.nBlockPos = some block)
    {done rest : List CTransaction} {tx : CTransaction} (hvtx : block.vtx = done ++ tx :: rest) :
    env.readTxFromDisk (txPos pindex block done) = some tx := by
  have htx : block.vtx[done.length]? = some tx := by rw [hvtx]; simp
  have hpos := env.files.readTx_of_readBlock hread htx
  have htake : block.vtx.take done.length = done := by rw [hvtx]; simp
  rw [CBlock.txOffset, htake, ← Nat.add_assoc, ← firstTxPos_eq] at hpos
  exact hpos

theorem txPos_ne_memoryPool (pindex : CBlockIndex) (block : CBlock) (done : List CTransaction) :
    txPos pindex block done ≠ CDiskTxPos.memoryPool := by
  intro heq
  have hpos := (CDiskTxPos.pos.inj heq).2.2
  rw [firstTxPos_eq, CBlock.headerSize] at hpos
  omega

/-- The coinbase of a block that starts with its height. -/
theorem startsWithHeight_pushInt {nHeight : Nat} {cb : CTransaction} {txs : List CTransaction}
    (h : startsWithHeight block nHeight = true) (hvtx : block.vtx = cb :: txs) :
    CScript.pushInt nHeight <+: coinbaseScript cb := by
  simp only [startsWithHeight, CBlock.tx, hvtx, List.getD_cons_zero, Bool.and_eq_true,
    decide_eq_true_eq] at h
  rw [coinbaseScript]
  exact List.prefix_iff_eq_take.mpr h.2.symm

/-- The transactions of a connected block extend the ledger. -/
theorem Ledger.appendBlock (hl : Ledger env txs)
    (hM : node.txdb.txIndexMap = ledgerIndex env txs) (hstored : Stored env T pindex block)
    (hlow : ∀ x ∈ txs, x.nHeight < pindex.nHeight) (hconn : Connected env node block pindex st node') :
    ∀ done rest, block.vtx = done ++ rest → Ledger env (txs ++ placeTxs pindex block [] done) := by
  intro done
  induction done using List.reverseRecOn with
  | nil => intro _ _; simpa [placeTxs] using hl
  | append_singleton done tx ih =>
    intro rest hvtx
    have hvtx' : block.vtx = done ++ tx :: rest := by simpa using hvtx
    rw [placeTxs_append, ← List.append_assoc, List.nil_append]
    refine .append (ih (tx :: rest) hvtx') ?_
    have hin := hconn.inputsOk done tx rest hvtx'
    rw [hM, ← ledgerIndex_placeTxs] at hin
    refine ⟨hconn.checked.txs tx (by rw [hvtx']; simp), ⟨_, hin⟩,
      readTxFromDisk_txPos hstored.read hvtx', txPos_ne_memoryPool _ _ _, hstored.nHeight_lt,
      fun hcb => ?_⟩
    -- only the first transaction is a coinbase
    obtain ⟨cb, txs', hvtx'', -, hrest⟩ := checkTxPositions_coinbase hconn.checked.positions
    obtain rfl : done = [] := by
      cases done with
      | nil => rfl
      | cons x xs =>
        rw [hvtx', List.cons_append] at hvtx''
        have hmem : tx ∈ txs' := by rw [← (List.cons.inj hvtx'').2]; simp
        rw [hrest tx hmem] at hcb
        cases hcb
    exact ⟨startsWithHeight_pushInt hstored.height hvtx', by simpa [placeTxs] using hlow⟩

/-- The unspent value grows by what the transactions pay out minus what they take in. -/
theorem unspentValue_placeTxs (hM : node.txdb.txIndexMap = ledgerIndex env txs)
    (hcoll : NoCollision env.getHash T) :
    ∀ done, Ledger env (txs ++ placeTxs pindex block [] done) →
      (∀ x ∈ txs ++ placeTxs pindex block [] done, x.tx ∈ T) →
      unspentValue env (ledgerIndex env (txs ++ placeTxs pindex block [] done))
          (txs ++ placeTxs pindex block [] done)
        = unspentValue env (ledgerIndex env txs) txs
          + Loop.sumAlong (fun done tx => tx.valueOut
            - turnIn env node.mempool pindex block node.txdb.txIndexMap done tx) [] done := by
  intro done
  induction done using List.reverseRecOn with
  | nil => intro _ _; simp [placeTxs, Loop.sumAlong]
  | append_singleton done tx ih =>
    intro hl hT
    rw [placeTxs_append, ← List.append_assoc] at hl hT ⊢
    obtain ⟨hl', hx⟩ := hl.of_append
    have hT' := fun x hx => hT x (List.mem_append_left _ hx)
    have hspec := hl'.spec hcoll hT'
    have hnew := hx.hash_new hl' hspec hcoll (hT _ (by simp)) hT'
    rw [hspec.unspentValue_append hl' hx hnew node.mempool, ih hl' hT', Loop.sumAlong_append,
      ledgerIndex_placeTxs, turnIn, hM]
    ring

/-! ### The active chain and the index -/

/-- The node and its active chain above the genesis block, the tip last. -/
structure ChainState where
  node : Node
  chain : List ChainBlock

/-- The hash of the last block of a chain. -/
def tipOf (genesis : Uint256) (chain : List ChainBlock) : Uint256 :=
  (chain.getLast?.map fun b => b.pindex.hashBlock).getD genesis

@[simp] theorem tipOf_nil : tipOf genesis [] = genesis := rfl

@[simp] theorem tipOf_append (chain : List ChainBlock) (b : ChainBlock) :
    tipOf genesis (chain ++ [b]) = b.pindex.hashBlock := by
  simp [tipOf]

/-- The transaction index is that of the active chain, and each block of the chain is stored where its
entry says, on top of the block before it. -/
structure ChainCore (env : Env) (T : Set CTransaction) (genesis : Uint256) (s : ChainState) :
    Prop where
  tree : IndexTree s.node.mapBlockIndex genesis
  stored : ∀ {h e}, s.node.mapBlockIndex h = some e → h ≠ genesis → ∃ block, Stored env T e block
  ledger : Ledger env (chainTxs s.chain)
  index : s.node.txdb.txIndexMap = ledgerIndex env (chainTxs s.chain)
  mem : ∀ x ∈ chainTxs s.chain, x.tx ∈ T
  blocks : ∀ pre b post, s.chain = pre ++ b :: post → ∃ e,
    s.node.mapBlockIndex b.pindex.hashBlock = some e ∧ SameCore e b.pindex ∧
      e.pprev = some (tipOf genesis pre) ∧ e.nHeight = pre.length + 1 ∧
      Stored env T b.pindex b.block

/-- The supply recorded in each block of the active chain is the value of the unspent outputs up to
it. -/
def SupplyOk (env : Env) (genesis : Uint256) (s : ChainState) : Prop :=
  ∀ pre post, s.chain = pre ++ post → ∃ e, s.node.mapBlockIndex (tipOf genesis pre) = some e ∧
    e.nMoneySupply = unspentValue env (ledgerIndex env (chainTxs pre)) (chainTxs pre)

theorem Stored.congr {e e' : CBlockIndex} (h : Stored env T e block) (hcore : SameCore e' e) :
    Stored env T e' block :=
  ⟨by rw [hcore.nFile, hcore.nBlockPos]; exact h.read, by rw [hcore.nHeight]; exact h.nHeight_lt,
    by rw [hcore.nHeight]; exact h.height, h.mem⟩

namespace ChainCore

variable {s : ChainState} (hcore : ChainCore env T genesis s)

include hcore

theorem congr (hindex : node'.txdb.txIndexMap = s.node.txdb.txIndexMap)
    (hsame : SameTree node'.mapBlockIndex s.node.mapBlockIndex) :
    ChainCore env T genesis { s with node := node' } := by
  refine ⟨hcore.tree.congr hsame, fun he' hne => ?_, hcore.ledger, hindex.trans hcore.index,
    hcore.mem, fun pre b post hchain => ?_⟩
  · obtain ⟨e, he, hcore'⟩ := hsame.exists_right he'
    obtain ⟨block, hstored⟩ := hcore.stored he hne
    exact ⟨block, hstored.congr hcore'⟩
  · obtain ⟨e, he, hcore', hprev, hheight, hstored⟩ := hcore.blocks pre b post hchain
    obtain ⟨e', he', hsame'⟩ := hsame.exists_left he
    exact ⟨e', he', hsame'.trans hcore', hsame'.pprev.trans hprev, hsame'.nHeight.trans hheight,
      hstored⟩

theorem tip : ∃ e, s.node.mapBlockIndex (tipOf genesis s.chain) = some e ∧
    e.nHeight = s.chain.length := by
  rcases List.eq_nil_or_concat s.chain with hnil | ⟨pre, b, hchain⟩
  · obtain ⟨e, he, -, hheight⟩ := hcore.tree.root
    exact ⟨e, by rw [hnil]; exact he, by rw [hnil]; exact hheight⟩
  · rw [List.concat_eq_append] at hchain
    obtain ⟨e, he, -, -, hheight, -⟩ := hcore.blocks pre b [] hchain
    exact ⟨e, by rw [hchain, tipOf_append]; exact he, by rw [hheight, hchain]; simp⟩

theorem nHeight_le : ∀ x ∈ chainTxs s.chain, x.nHeight ≤ s.chain.length := by
  intro x hx
  obtain ⟨b, hb, hxb⟩ := List.mem_flatMap.mp hx
  obtain ⟨pre, post, hchain⟩ := List.append_of_mem hb
  obtain ⟨e, -, hcore', -, hheight, -⟩ := hcore.blocks pre b post hchain
  rw [(mem_placeTxs hxb).2, ← hcore'.nHeight, hheight, hchain]
  simp

/-- A child of the tip: its height, where it is stored, and that it is not in the active chain. -/
theorem child (hentry : s.node.mapBlockIndex pindex.hashBlock = some pindex)
    (htip : pindex.pprev = some (tipOf genesis s.chain))
    (hread : env.readBlockFromDisk pindex = .ok block) :
    pindex.nHeight = s.chain.length + 1 ∧ Stored env T pindex block ∧
      ∀ pre post, s.chain = pre ++ post → tipOf genesis pre ≠ pindex.hashBlock := by
  have hparent : parentOf s.node.mapBlockIndex pindex.hashBlock = some (tipOf genesis s.chain) := by
    rw [parentOf_eq hentry, htip]
  obtain ⟨block', hstored⟩ := hcore.stored hentry (hcore.tree.ne_genesis hparent)
  obtain rfl : block' = block :=
    Option.some.inj (hstored.read.symm.trans (readBlockFromDisk_ok hread).1)
  obtain ⟨e, he, hlen⟩ := hcore.tip
  have hheight := hcore.tree.graded.height_eq (mem_indexed hentry) hparent
  rw [heightOf_eq hentry, heightOf_eq he, hlen] at hheight
  refine ⟨hheight, hstored, fun pre post hchain heq => ?_⟩
  -- a block of the active chain has a smaller height
  have hpre : heightOf s.node.mapBlockIndex (tipOf genesis pre) = pre.length := by
    rcases List.eq_nil_or_concat pre with hnil | ⟨pre', b, hpre⟩
    · obtain ⟨e, he, -, hzero⟩ := hcore.tree.root
      rw [hnil, tipOf_nil, heightOf_eq he, hzero]
      rfl
    · rw [List.concat_eq_append] at hpre
      obtain ⟨e, he, -, -, hheight', -⟩ := hcore.blocks pre' b post (by rw [hchain, hpre]; simp)
      rw [hpre, tipOf_append, heightOf_eq he, hheight']
      simp
  rw [heq, heightOf_eq hentry, hheight, hchain, List.length_append] at hpre
  omega

theorem ancestor_tip {pre : List ChainBlock}
    {b : ChainBlock} {post : List ChainBlock} (hchain : s.chain = pre ++ b :: post) :
    Ancestor (parentOf s.node.mapBlockIndex) (tipOf genesis s.chain) b.pindex.hashBlock := by
  suffices h : ∀ post rest, s.chain = pre ++ b :: post ++ rest →
      Ancestor (parentOf s.node.mapBlockIndex) (tipOf genesis (pre ++ b :: post))
        b.pindex.hashBlock by
    rw [hchain]
    exact h post [] (by rw [List.append_nil]; exact hchain)
  intro post
  induction post using List.reverseRecOn with
  | nil =>
    intro rest _
    rw [tipOf_append]
    exact ancestor_refl _
  | append_singleton post c ih =>
    intro rest hchain
    have hsplit : s.chain = (pre ++ b :: post) ++ c :: rest := by
      rw [hchain]
      simp
    obtain ⟨e, he, -, hpprev, -, -⟩ := hcore.blocks (pre ++ b :: post) c rest hsplit
    have htip : tipOf genesis (pre ++ b :: (post ++ [c])) = c.pindex.hashBlock := by
      rw [← List.cons_append, ← List.append_assoc, tipOf_append]
    rw [htip]
    refine .of_parent ?_ (ih (c :: rest) hsplit)
    rw [parentOf_eq he, hpprev]

end ChainCore

theorem insertBlockIndex_txIndexMap (hbatch : node.txdb.activeBatch = none) :
    (insertBlockIndex node pindex).txdb.txIndexMap = node.txdb.txIndexMap := by
  funext h
  have hview : node.txdb.view = node.txdb.pdb := by rw [CTxDB.view, hbatch]; rfl
  simp only [insertBlockIndex, CTxDB.txIndexMap, CTxDB.readTxIndex, CTxDB.read_eq_view,
    CTxDB.view_txnCommit, CTxDB.writeBlockIndex, CTxDB.view_write, CTxDB.view_txnBegin, hview]
  rw [update_of_ne (by simp)]

/-- **A new entry**, for a block that has been written to disk and starts with its height. -/
theorem ChainCore.insert {s : ChainState} (hcore : ChainCore env T genesis s) {prev : CBlockIndex}
    (hbatch : s.node.txdb.activeBatch = none) (hfresh : s.node.mapBlockIndex pindex.hashBlock = none)
    (hpprev : pindex.pprev = some prev.hashBlock)
    (hprev : s.node.mapBlockIndex prev.hashBlock = some prev)
    (hheight : pindex.nHeight = prev.nHeight + 1) (hstored : Stored env T pindex block) :
    ChainCore env T genesis { s with node := insertBlockIndex s.node pindex } := by
  have hmap : (insertBlockIndex s.node pindex).mapBlockIndex
      = update s.node.mapBlockIndex pindex.hashBlock (some pindex) := rfl
  refine ⟨hcore.tree.insert hfresh hpprev hprev hheight, fun {h e} he hne => ?_, hcore.ledger,
    (insertBlockIndex_txIndexMap hbatch).trans hcore.index, hcore.mem, fun pre b post hchain => ?_⟩
  · by_cases hh : h = pindex.hashBlock
    · rw [hmap, hh, update_self] at he
      rw [← Option.some.inj he]
      exact ⟨block, hstored⟩
    · rw [hmap, update_of_ne hh] at he
      exact hcore.stored he hne
  · obtain ⟨e, he, hrest⟩ := hcore.blocks pre b post hchain
    refine ⟨e, ?_, hrest⟩
    rw [hmap, update_of_ne, he]
    intro hh
    rw [hh, hfresh] at he
    cases he

theorem Connected.mapBlockIndex_eq (hconn : Connected env node block pindex st node') :
    node'.mapBlockIndex = update node.mapBlockIndex pindex.hashBlock
      (some (recordSupply node.mapBlockIndex pindex st)) := by
  obtain ⟨txdb, syncs, -, rfl⟩ := hconn.written
  rfl

/-- The ledger of the active chain with one more block. -/
theorem ChainCore.ledger_append {s : ChainState} (hcore : ChainCore env T genesis s)
    (hnHeight : pindex.nHeight = s.chain.length + 1) (hstored : Stored env T pindex block)
    (hconn : Connected env s.node block pindex st node') :
    Ledger env (chainTxs s.chain ++ placeTxs pindex block [] block.vtx) ∧
      ∀ x ∈ chainTxs s.chain ++ placeTxs pindex block [] block.vtx, x.tx ∈ T := by
  refine ⟨hcore.ledger.appendBlock hcore.index hstored (fun x hx => ?_) hconn block.vtx [] (by simp),
    fun x hx => ?_⟩
  · have := hcore.nHeight_le x hx
    omega
  · rcases List.mem_append.mp hx with hx | hx
    · exact hcore.mem x hx
    · exact hstored.mem _ (mem_placeTxs hx).1

theorem ChainCore.connect {s : ChainState} (hcore : ChainCore env T genesis s)
    (hentry : s.node.mapBlockIndex pindex.hashBlock = some pindex)
    (htip : pindex.pprev = some (tipOf genesis s.chain))
    (hread : env.readBlockFromDisk pindex = .ok block)
    (hok : connectBlock env ctx s.node block pindex = .ok node') :
    ChainCore env T genesis ⟨node', s.chain ++ [⟨block, pindex⟩]⟩ := by
  obtain ⟨hnHeight, hstored, -⟩ := hcore.child hentry htip hread
  obtain ⟨st, hconn⟩ := connectBlock_ok hok
  obtain ⟨hledger, hmem⟩ := hcore.ledger_append hnHeight hstored hconn
  have hstaged := staged_connectBlock env ctx s.node block hentry
  rw [hok, nodeOf] at hstaged
  -- the block index without the new block in the active chain
  have hbefore : ChainCore env T genesis { s with node := { node' with txdb := s.node.txdb } } :=
    hcore.congr rfl hstaged.sameTree
  refine ⟨hbefore.tree, hbefore.stored, ?_, ?_, ?_, fun pre b post hchain => ?_⟩
  · rw [chainTxs_append]
    exact hledger
  · rw [chainTxs_append, hconn.txIndexMap_eq, hcore.index]
    exact (ledgerIndex_placeTxs _ _ _ _).symm
  · rw [chainTxs_append]
    exact hmem
  · rcases List.eq_nil_or_concat post with rfl | ⟨post', c, rfl⟩
    · obtain ⟨rfl, hlast⟩ := List.append_inj' hchain rfl
      obtain rfl := List.singleton_inj.mp hlast
      refine ⟨recordSupply s.node.mapBlockIndex pindex st, ?_, ⟨rfl, rfl, rfl, rfl, rfl, rfl⟩, htip,
        hnHeight, hstored⟩
      rw [hconn.mapBlockIndex_eq, update_self]
    · have hchain' : s.chain = pre ++ b :: post' := by
        have heq : s.chain ++ [⟨block, pindex⟩] = (pre ++ b :: post') ++ [c] := by
          simpa using hchain
        exact (List.append_inj' heq rfl).1
      exact hbefore.blocks pre b post' hchain'

/-- The transactions of the last block of a ledger found their inputs unspent. -/
theorem Ledger.spendsUnspent
    (hl : Ledger env (txs ++ placeTxs pindex block [] block.vtx)) :
    ∀ done tx rest, block.vtx = done ++ tx :: rest →
      SpendsUnspent (indexAfter env pindex block (ledgerIndex env txs) done) tx := by
  intro done tx rest hvtx
  have hsplit : block.vtx = (done ++ [tx]) ++ rest := by rw [hvtx]; simp
  rw [hsplit, placeTxs_append_list, ← List.append_assoc] at hl
  have hl' := hl.of_append_list
  rw [placeTxs_append, ← List.append_assoc] at hl'
  obtain ⟨-, hx⟩ := hl'.of_append
  obtain ⟨pool, hin⟩ := hx.inputsOk
  rw [ledgerIndex_placeTxs] at hin
  exact hin.spendsUnspent

theorem ChainCore.disconnect {chain : List ChainBlock} {b : ChainBlock}
    (hcore : ChainCore env T genesis ⟨node, chain ++ [b]⟩)
    (hcoll : NoCollision env.getHash T)
    (hentry : node.mapBlockIndex b.pindex.hashBlock = some pindex)
    (hread : env.readBlockFromDisk pindex = .ok block)
    (hdis : disconnectBlock env node block pindex = .ok node') :
    ChainCore env T genesis ⟨node', chain⟩ ∧ node'.mapBlockIndex = node.mapBlockIndex := by
  obtain ⟨e, he, hsame, -, -, hstored⟩ := hcore.blocks chain b [] rfl
  obtain rfl := Option.some.inj (hentry.symm.trans he)
  obtain rfl : b.block = block := by
    have hread' := (readBlockFromDisk_ok hread).1
    rw [hsame.nFile, hsame.nBlockPos] at hread'
    exact Option.some.inj (hstored.read.symm.trans hread')
  have hall := hcore.ledger
  have hmem := hcore.mem
  have hindex := hcore.index
  simp only [chainTxs_append] at hall hmem hindex
  have hl : Ledger env (chainTxs chain) := hall.of_append_list
  have hspec := hall.spec hcoll hmem
  have hspec' := hl.spec hcoll fun x hx => hmem x (List.mem_append_left _ hx)
  have hnodup := hspec.nodup
  rw [List.map_append, List.nodup_append] at hnodup
  have hhashes : b.txs.map (fun x => env.getHash x.tx) = b.block.vtx.map env.getHash := by
    rw [← map_tx_placeTxs b.pindex b.block b.block.vtx [], List.map_map]
    rfl
  -- the transactions of the block are not indexed by the chain below it
  obtain ⟨node'', hdis', hmap, hblocks, -⟩ := disconnectBlock_total hall.spendsUnspent
    (fun tx htx => (hspec'.none_iff _).mpr fun x hx heq =>
      hnodup.2.2 (env.getHash x.tx) (List.mem_map_of_mem hx) (env.getHash tx)
        (by rw [hhashes]; exact List.mem_map_of_mem htx) heq.symm)
    (by rw [← hhashes]; exact hnodup.2.1) (hindex.trans (ledgerIndex_placeTxs _ _ _ _)) pindex
  obtain rfl := Except.ok.inj (hdis.symm.trans hdis')
  refine ⟨⟨?_, fun he' => ?_, hl, hmap, fun x hx => hmem x (List.mem_append_left _ hx),
    fun pre c post hchain => ?_⟩, hblocks⟩
  · rw [hblocks]
    exact hcore.tree
  · rw [hblocks] at he'
    exact hcore.stored he'
  · have hchain' : chain = pre ++ c :: post := hchain
    rw [hblocks]
    exact hcore.blocks pre c (post ++ [b]) (by simp [hchain'])

/-! ### Runs -/

/-- A step of the active chain.  `accept` is a block that passes `CheckBlock` and the checks of
`AcceptBlock`, is written to disk and added to the index; `connect` is a successful `ConnectBlock` of
a child of the tip, `disconnect` a successful `DisconnectBlock` of the tip.  `other` is whatever else
happens in between: it keeps the transaction index and, but for `pnext`, the block index. -/
inductive ChainStep (env : Env) (T : Set CTransaction) (genesis : Uint256) :
    ChainState → ChainState → Prop
  | accept {s : ChainState} {ctx : Ctx} {block : CBlock} {nFile nBlockPos : Nat}
      {hashProof : Uint256} {pindex : CBlockIndex}
      (hcheck : checkBlock env ctx (s.node.pindexBest.bind s.node.mapBlockIndex) block true true true
        = .ok ())
      (haccept : acceptBlockChecks env ctx s.node block = .ok hashProof)
      -- `TxnBegin` asserts that no batch is open
      (hbatch : s.node.txdb.activeBatch = none)
      (hwritten : env.files.readBlock nFile nBlockPos = some block)
      (hentry : newBlockIndex env s.node block nFile nBlockPos hashProof = .ok pindex)
      -- heights are of type `int`
      (hheight : pindex.nHeight < 2 ^ 31) (hT : ∀ tx ∈ block.vtx, tx ∈ T) :
      ChainStep env T genesis s { s with node := insertBlockIndex s.node pindex }
  | connect {s : ChainState} {ctx : Ctx} {block : CBlock} {pindex : CBlockIndex} {node' : Node}
      (hentry : s.node.mapBlockIndex pindex.hashBlock = some pindex)
      (htip : pindex.pprev = some (tipOf genesis s.chain))
      (hread : env.readBlockFromDisk pindex = .ok block)
      (hconn : connectBlock env ctx s.node block pindex = .ok node') :
      ChainStep env T genesis s ⟨node', s.chain ++ [⟨block, pindex⟩]⟩
  | disconnect {node node' : Node} {chain : List ChainBlock} {b : ChainBlock} {block : CBlock}
      {pindex : CBlockIndex} (hentry : node.mapBlockIndex b.pindex.hashBlock = some pindex)
      (hread : env.readBlockFromDisk pindex = .ok block)
      (hdis : disconnectBlock env node block pindex = .ok node') :
      ChainStep env T genesis ⟨node, chain ++ [b]⟩ ⟨node', chain⟩
  | other {s : ChainState} {node' : Node}
      (hindex : node'.txdb.txIndexMap = s.node.txdb.txIndexMap)
      (hmap : Entrywise CBlockIndex.sameButNext node'.mapBlockIndex s.node.mapBlockIndex) :
      ChainStep env T genesis s { s with node := node' }

theorem txIndexMap_txnBegin {txdb : CTxDB} (hbatch : txdb.activeBatch = none) :
    txdb.txnBegin.txIndexMap = txdb.txIndexMap := by
  have hview : txdb.txnBegin.view = txdb.view := by
    rw [CTxDB.view_txnBegin, CTxDB.view, hbatch]
    rfl
  funext h
  simp only [CTxDB.txIndexMap, CTxDB.readTxIndex, CTxDB.read_eq_view, hview]

theorem txIndexMap_commit (txdb : CTxDB) (hash : Uint256) :
    (txdb.writeHashBestChain hash).txnCommit.txIndexMap = txdb.txIndexMap := by
  funext h
  have hne : DbKey.tx h ≠ .hashBestChain := by simp
  simp only [CTxDB.txIndexMap, CTxDB.readTxIndex, CTxDB.read_eq_view, CTxDB.view_txnCommit,
    CTxDB.writeHashBestChain, CTxDB.view_write, update_of_ne hne]

/-- Both invariants of the active chain. -/
structure ChainInv (env : Env) (T : Set CTransaction) (genesis : Uint256) (s : ChainState) :
    Prop where
  core : ChainCore env T genesis s
  supply : SupplyOk env genesis s

theorem ChainCore.accept {s : ChainState} (hcore : ChainCore env T genesis s) {nFile nBlockPos : Nat}
    {hashProof hashProof' : Uint256} (haccept : acceptBlockChecks env ctx s.node block = .ok hashProof')
    (hbatch : s.node.txdb.activeBatch = none)
    (hwritten : env.files.readBlock nFile nBlockPos = some block)
    (hentry : newBlockIndex env s.node block nFile nBlockPos hashProof = .ok pindex)
    (hheight : pindex.nHeight < 2 ^ 31) (hT : ∀ tx ∈ block.vtx, tx ∈ T) :
    ChainCore env T genesis { s with node := insertBlockIndex s.node pindex } ∧
      s.node.mapBlockIndex pindex.hashBlock = none := by
  obtain ⟨hfresh, prev, hprev, hstart⟩ := acceptBlockChecks_ok haccept
  obtain ⟨hhash, hpprev, hnHeight, hfile, hpos, -, -⟩ := newBlockIndex_ok hprev hentry
  have hprevHash := hcore.tree.hash hprev
  rw [← hhash] at hfresh
  refine ⟨hcore.insert hbatch hfresh (by rw [hpprev, hprevHash]) (by rw [hprevHash, hprev]) hnHeight
    ⟨?_, hheight, ?_, hT⟩, hfresh⟩
  · rw [hfile, hpos]
    exact hwritten
  · rw [hnHeight]
    exact hstart

theorem chainInv_accept {s : ChainState} (hinv : ChainInv env T genesis s) {nFile nBlockPos : Nat}
    {hashProof : Uint256} (haccept : acceptBlockChecks env ctx s.node block = .ok hashProof)
    (hbatch : s.node.txdb.activeBatch = none)
    (hwritten : env.files.readBlock nFile nBlockPos = some block)
    (hentry : newBlockIndex env s.node block nFile nBlockPos hashProof = .ok pindex)
    (hheight : pindex.nHeight < 2 ^ 31) (hT : ∀ tx ∈ block.vtx, tx ∈ T) :
    ChainInv env T genesis { s with node := insertBlockIndex s.node pindex } := by
  obtain ⟨hcore, hfresh⟩ := hinv.core.accept haccept hbatch hwritten hentry hheight hT
  refine ⟨hcore, fun pre post hchain => ?_⟩
  obtain ⟨e, he, hsupply⟩ := hinv.supply pre post hchain
  refine ⟨e, ?_, hsupply⟩
  show update s.node.mapBlockIndex pindex.hashBlock (some pindex) _ = _
  rw [update_of_ne, he]
  intro heq
  rw [heq, hfresh] at he
  cases he

theorem chainInv_connect {s : ChainState} (hinv : ChainInv env T genesis s)
    (hcoll : NoCollision env.getHash T)
    (hentry : s.node.mapBlockIndex pindex.hashBlock = some pindex)
    (htip : pindex.pprev = some (tipOf genesis s.chain))
    (hread : env.readBlockFromDisk pindex = .ok block)
    (hok : connectBlock env ctx s.node block pindex = .ok node') :
    ChainInv env T genesis ⟨node', s.chain ++ [⟨block, pindex⟩]⟩ := by
  refine ⟨hinv.core.connect hentry htip hread hok, fun pre post hchain => ?_⟩
  obtain ⟨hnHeight, hstored, hinactive⟩ := hinv.core.child hentry htip hread
  obtain ⟨st, hconn⟩ := connectBlock_ok hok
  obtain ⟨hledger, hmem⟩ := hinv.core.ledger_append hnHeight hstored hconn
  show ∃ e, node'.mapBlockIndex _ = _ ∧ _
  rw [hconn.mapBlockIndex_eq]
  rcases List.eq_nil_or_concat post with rfl | ⟨post', c, rfl⟩
  · -- the new block
    rw [List.append_nil] at hchain
    obtain rfl : s.chain ++ [⟨block, pindex⟩] = pre := hchain
    refine ⟨recordSupply s.node.mapBlockIndex pindex st,
      by rw [tipOf_append, update_self], ?_⟩
    obtain ⟨e, he, hsupply⟩ := hinv.supply s.chain [] (by simp)
    have hprev : prevMoneySupply s.node.mapBlockIndex pindex = e.nMoneySupply := by
      rw [prevMoneySupply, htip, Option.bind_some, he]
    rw [chainTxs_append, ChainBlock.txs, unspentValue_placeTxs hinv.core.index hcoll _ hledger hmem,
      ← supplyGrowth_eq_sumAlong hconn, supplyGrowth_eq hconn, ← hsupply, ← hprev]
    simp only [recordSupply]
    ring
  · have hchain' : s.chain = pre ++ post' := by
      have heq : s.chain ++ [⟨block, pindex⟩] = (pre ++ post') ++ [c] := by simpa using hchain
      exact (List.append_inj' heq rfl).1
    obtain ⟨e, he, hsupply⟩ := hinv.supply pre post' hchain'
    exact ⟨e, by rw [update_of_ne (hinactive pre post' hchain'), he], hsupply⟩

theorem chainStep_inv {s s' : ChainState} (hinv : ChainInv env T genesis s)
    (hcoll : NoCollision env.getHash T) (hstep : ChainStep env T genesis s s') :
    ChainInv env T genesis s' := by
  cases hstep with
  | accept _ haccept hbatch hwritten hentry hheight hT =>
    exact chainInv_accept hinv haccept hbatch hwritten hentry hheight hT
  | connect hentry htip hread hok => exact chainInv_connect hinv hcoll hentry htip hread hok
  | disconnect hentry hread hdis =>
    obtain ⟨hcore, hblocks⟩ := hinv.core.disconnect hcoll hentry hread hdis
    refine ⟨hcore, fun pre post hchain => ?_⟩
    obtain ⟨e, he, hsupply⟩ := hinv.supply pre (post ++ [_]) (by
      rw [← List.append_assoc, ← hchain])
    exact ⟨e, by rw [hblocks]; exact he, hsupply⟩
  | other hindex hmap =>
    refine ⟨hinv.core.congr hindex (hmap.mono CBlockIndex.sameButNext.sameCore),
      fun pre post hchain => ?_⟩
    obtain ⟨e, he, hsupply⟩ := hinv.supply pre post hchain
    obtain ⟨e', he', hsame⟩ := hmap.exists_left he
    refine ⟨e', he', ?_⟩
    rw [hsame]
    exact hsupply

/-- The node that knows the genesis block only. -/
structure AtGenesis (genesis : Uint256) (node : Node) : Prop where
  mapBlockIndex : ∃ e : CBlockIndex, e.hashBlock = genesis ∧ e.pprev = none ∧ e.nHeight = 0 ∧
    e.nMoneySupply = 0 ∧ node.mapBlockIndex = update (fun _ => none) genesis (some e)
  txIndexMap : node.txdb.txIndexMap = fun _ => none

theorem chainInv_genesis (h : AtGenesis genesis node) :
    ChainInv env T genesis ⟨node, []⟩ := by
  obtain ⟨⟨e, hhash, hprev, hheight, hsupply, hmap⟩, hindex⟩ := h
  have hgen : node.mapBlockIndex genesis = some e := by rw [hmap, update_self]
  refine ⟨⟨indexTree_single hhash hprev hheight hmap, fun {h e'} he' hne => ?_, .nil, hindex, ?_, ?_⟩,
    fun pre post hchain => ?_⟩
  · exact absurd (eq_of_single hmap he').1 hne
  · intro x hx
    cases hx
  · intro pre b post hchain
    have hlen := congrArg List.length hchain
    simp at hlen
  · have hlen := congrArg List.length hchain
    simp only [List.length_nil, List.length_append] at hlen
    obtain rfl : pre = [] := List.eq_nil_of_length_eq_zero (by omega)
    exact ⟨e, hgen, hsupply⟩

theorem chainRun_inv {s : ChainState} (hstart : AtGenesis genesis node)
    (hcoll : NoCollision env.getHash T)
    (hrun : ReflTransGen (ChainStep env T genesis) ⟨node, []⟩ s) : ChainInv env T genesis s := by
  induction hrun with
  | refl => exact chainInv_genesis hstart
  | tail _ hstep ih => exact chainStep_inv ih hcoll hstep

/-- `y` is a transaction of the chain that spends the output `o`. -/
def SpentBy (chain : List ChainBlock) (o : COutPoint) (y : Placed) : Prop :=
  y ∈ chainTxs chain ∧ y.tx.isCoinBase = false ∧ o ∈ y.tx.prevouts

/-- **The transaction index after every run.**  It has one entry for each transaction of the active
chain, at its position on disk, and no two of them share a hash; a pointer `vSpent[n]` is not null
exactly when a transaction of the chain spends the output, and then it is the position of that
transaction, the only one that does; and the supply recorded at the tip is the value of the unspent
outputs. -/
theorem chainRun_spec {node : Node} {s : ChainState} (hstart : AtGenesis genesis node)
    (hcoll : NoCollision env.getHash T)
    (hrun : ReflTransGen (ChainStep env T genesis) ⟨node, []⟩ s) :
    (((chainTxs s.chain).map fun x => env.getHash x.tx).Nodup ∧
      ∀ h, (s.node.txdb.txIndexMap h).isSome ↔ ∃ x ∈ chainTxs s.chain, env.getHash x.tx = h) ∧
    (∀ x ∈ chainTxs s.chain, env.readTxFromDisk x.pos = some x.tx ∧
      ∃ txindex, s.node.txdb.txIndexMap (env.getHash x.tx) = some txindex ∧
        txindex.pos = x.pos ∧ txindex.vSpent.length = x.tx.vout.length ∧
        ∀ n p, txindex.vSpent[n]? = some p →
          (p ≠ .null ↔ ∃ y, SpentBy s.chain ⟨env.getHash x.tx, n⟩ y) ∧
          ∀ y, SpentBy s.chain ⟨env.getHash x.tx, n⟩ y → p = y.pos) ∧
    (∀ o y y', SpentBy s.chain o y → SpentBy s.chain o y' → y = y') ∧
    (∀ y ∈ chainTxs s.chain, y.tx.prevouts.Nodup) ∧
    ∃ entry, s.node.mapBlockIndex (tipOf genesis s.chain) = some entry ∧
      entry.nMoneySupply = unspentValue env s.node.txdb.txIndexMap (chainTxs s.chain) := by
  have hinv := chainRun_inv hstart hcoll hrun
  have hspec := hinv.core.ledger.spec hcoll hinv.core.mem
  have hfollow : ∀ y ∈ chainTxs s.chain, ∃ txs, CanFollow env txs y :=
    fun y hy => hinv.core.ledger.forall_canFollow hy
  rw [hinv.core.index]
  -- everything but the supply is what the index of a ledger satisfies
  refine ⟨⟨hspec.nodup, fun h => ?_⟩, fun x hx => ?_, fun o y y' hy hy' => ?_, fun y hy => ?_, ?_⟩
  · rw [← not_iff_not, Option.not_isSome_iff_eq_none, hspec.none_iff]
    grind
  · obtain ⟨txindex, hentry, hpos, hlen⟩ := hspec.entry x hx
    obtain ⟨_, hxf⟩ := hfollow x hx
    refine ⟨hxf.onDisk, txindex, hentry, hpos, hlen, fun n p hp => ?_⟩
    have hat : SpentAt (ledgerIndex env (chainTxs s.chain)) ⟨env.getHash x.tx, n⟩ p :=
      ⟨txindex, hentry, hp⟩
    have hspender : ∀ y, SpentBy s.chain ⟨env.getHash x.tx, n⟩ y → p = y.pos := by
      rintro y ⟨hy, hcb, ho⟩
      obtain ⟨_, hyf⟩ := hfollow y hy
      exact hat.unique ((hspec.spent_iff _ _ hyf.pos_ne_null).mpr ⟨y, hy, hcb, ho, rfl⟩)
    refine ⟨⟨fun hne => ?_, ?_⟩, hspender⟩
    · obtain ⟨y, hy, hcb, ho, -⟩ := (hspec.spent_iff _ p hne).mp hat
      exact ⟨y, hy, hcb, ho⟩
    · rintro ⟨y, hy⟩
      obtain ⟨_, hyf⟩ := hfollow y hy.1
      rw [hspender y hy]
      exact hyf.pos_ne_null
  · exact hspec.exclusive y hy.1 y' hy'.1 o hy.2.1 hy'.2.1 hy.2.2 hy'.2.2
  · obtain ⟨_, hyf⟩ := hfollow y hy
    exact (CTransaction.checkTransaction_ok hyf.checked).2.2.1
  · exact hinv.supply s.chain [] (by simp)

/-! ### The money ever issued -/

/-- The subsidies of `n` blocks at their largest: of proof-of-work up to `LASTPOWBLOCK`, of proof-of-stake
after it. -/
def maxIssued (n : Nat) : CAmount :=
  ((10000 * min n 5 + 100000 * (min n 10 - 5) + 2500 * (min n LASTPOWBLOCK - 10) + 10 * (n - LASTPOWBLOCK) :
    Nat) : Int) * coin

theorem maxIssued_succ (block : CBlock) (n : Nat) :
    maxIssued n + subsidy block (n + 1) ≤ maxIssued (n + 1) := by
  have hcoin : coin = (100000000 : Int) := rfl
  show (_ : Int) ≤ _
  simp only [maxIssued, subsidy, getCoinbaseValue, LASTPOWBLOCK, hcoin]
  split_ifs <;> omega

/-- No coinstake stands outside a proof-of-stake block. -/
def ChainBlock.RegularStake (b : ChainBlock) : Prop :=
  b.block.isProofOfStake = true ∨ ∀ tx ∈ b.block.vtx, tx.isCoinStake = false

theorem Connected.growth_le (hconn : Connected env node block pindex st node')
    (hregular : ChainBlock.RegularStake ⟨block, pindex⟩) :
    Loop.sumAlong (fun done tx =>
      tx.valueOut - turnIn env node.mempool pindex block node.txdb.txIndexMap done tx) [] block.vtx
        ≤ subsidy block pindex.nHeight := by
  rw [← supplyGrowth_eq_sumAlong hconn, supplyGrowth_eq_kinds hconn, subsidy, CBlock.isProofOfWork]
  by_cases hpos : block.isProofOfStake = true
  · obtain ⟨hstake, hcb⟩ := stakeCreated_le_of_proofOfStake hconn hpos
    simp only [hpos, Bool.not_true, Bool.false_eq_true, if_false]
    linarith
  · have hcb := coinbase_le_of_proofOfWork hconn (by simpa using hpos)
    rw [getCoinbaseValue_fees] at hcb
    rw [stakeCreated, sumAlong_turnStake_eq_zero (hregular.resolve_left hpos)]
    simp only [hpos, Bool.not_false, if_true]
    linarith

/-- Up to each block of the active chain, no more is unspent than was issued. -/
def IssuedOk (env : Env) (s : ChainState) : Prop :=
  ∀ pre post, s.chain = pre ++ post → (∀ b ∈ pre, b.RegularStake) →
    unspentValue env (ledgerIndex env (chainTxs pre)) (chainTxs pre) ≤ maxIssued pre.length

theorem issuedOk_step {s s' : ChainState} (hinv : ChainInv env T genesis s) (hissued : IssuedOk env s)
    (hcoll : NoCollision env.getHash T) (hstep : ChainStep env T genesis s s') :
    IssuedOk env s' := by
  cases hstep with
  | accept => exact hissued
  | other => exact hissued
  | disconnect =>
    intro pre post hchain
    exact hissued pre (post ++ [_]) (by rw [← List.append_assoc, ← hchain])
  | @connect _ _ block pindex _ hentry htip hread hok =>
    intro pre post hchain hregular
    obtain ⟨hnHeight, hstored, -⟩ := hinv.core.child hentry htip hread
    obtain ⟨st, hconn⟩ := connectBlock_ok hok
    obtain ⟨hledger, hmem⟩ := hinv.core.ledger_append hnHeight hstored hconn
    rcases List.eq_nil_or_concat post with rfl | ⟨post', c, rfl⟩
    · -- the new block is the last one that counts
      rw [List.append_nil] at hchain
      subst hchain
      have hbefore := hissued s.chain [] (by simp) fun b hb => hregular b (by simp [hb])
      have hgrowth := hconn.growth_le (hregular _ (by simp))
      rw [hnHeight] at hgrowth
      rw [chainTxs_append, ChainBlock.txs, unspentValue_placeTxs hinv.core.index hcoll _ hledger hmem,
        List.length_append, List.length_singleton]
      have hmax := maxIssued_succ block s.chain.length
      linarith
    · refine hissued pre post' ?_ hregular
      have heq : s.chain ++ [⟨block, pindex⟩] = (pre ++ post') ++ [c] := by simpa using hchain
      exact (List.append_inj' heq rfl).1

/-- **The money supply over whole runs.**  If no coinstake stands outside a proof-of-stake block, all the
unspent outputs of the active chain together, and the supply recorded at its tip, are worth at most the
subsidies of its blocks: at most 1,075,000 coins, and 10 for each block after `LASTPOWBLOCK`. -/
theorem moneySupply_le {s : ChainState} (hstart : AtGenesis genesis node)
    (hcoll : NoCollision env.getHash T)
    (hrun : ReflTransGen (ChainStep env T genesis) ⟨node, []⟩ s)
    (hregular : ∀ b ∈ s.chain, b.RegularStake) :
    unspentValue env s.node.txdb.txIndexMap (chainTxs s.chain) ≤ maxIssued s.chain.length ∧
      ∃ entry, s.node.mapBlockIndex (tipOf genesis s.chain) = some entry ∧
        entry.nMoneySupply ≤ maxIssued s.chain.length := by
  have hboth : ChainInv env T genesis s ∧ IssuedOk env s := by
    clear hregular
    induction hrun with
    | refl =>
      refine ⟨chainInv_genesis hstart, fun pre post hchain _ => ?_⟩
      obtain ⟨rfl, -⟩ := List.append_eq_nil_iff.mp hchain.symm
      exact le_refl (0 : Int)
    | tail _ hstep ih => exact ⟨chainStep_inv ih.1 hcoll hstep, issuedOk_step ih.1 ih.2 hcoll hstep⟩
  obtain ⟨hinv, hissued⟩ := hboth
  have hle := hissued s.chain [] (by simp) hregular
  obtain ⟨entry, hentry, hsupply⟩ := hinv.supply s.chain [] (by simp)
  rw [hinv.core.index]
  exact ⟨hle, entry, hentry, hsupply ▸ hle⟩

/-! ### A sample run -/

/-- A coinbase for height 1. -/
def firstCoinbase : CTransaction :=
  { claimingCoinbase with vin := [⟨COutPoint.null, [0x51, 0], uintMax⟩] }

def firstIndex : CBlockIndex :=
  { CBlockIndex.ofBlock 120 2 8 (sampleBlock [firstCoinbase]) with
    pprev := some 105, nHeight := 1, nChainTrust := 2, hashProof := 120 }

theorem atGenesis_genesisNode : AtGenesis 105 genesisNode :=
  ⟨⟨_, rfl, rfl, rfl, rfl, rfl⟩, rfl⟩

theorem noCollision_singleton (getHash : CTransaction → Uint256) (tx : CTransaction) :
    NoCollision getHash {tx} := by
  rintro a rfl b rfl -
  rfl

theorem chainRun_first : ∃ node',
    ReflTransGen (ChainStep (sampleEnv [firstCoinbase]) {firstCoinbase} 105) ⟨genesisNode, []⟩
      ⟨node', [⟨sampleBlock [firstCoinbase], firstIndex⟩]⟩ := by
  have hcheck : checkBlock (sampleEnv [firstCoinbase]) sampleCtx
      (genesisNode.pindexBest.bind genesisNode.mapBlockIndex) (sampleBlock [firstCoinbase]) true true
        true = .ok () := by decide
  have haccept : acceptBlockChecks (sampleEnv [firstCoinbase]) sampleCtx genesisNode
      (sampleBlock [firstCoinbase]) = .ok 120 := by decide
  have hentry : newBlockIndex (sampleEnv [firstCoinbase]) genesisNode (sampleBlock [firstCoinbase])
      2 8 120 = .ok firstIndex := by decide
  obtain ⟨node', hconn⟩ : ∃ node', connectBlock (sampleEnv [firstCoinbase]) sampleCtx
      (insertBlockIndex genesisNode firstIndex) (sampleBlock [firstCoinbase]) firstIndex
        = .ok node' := exists_of_isOk (by decide)
  refine ⟨node', .tail (.single (.accept hcheck haccept rfl rfl hentry (by decide) ?_)) ?_⟩
  · simp [sampleBlock]
  · exact .connect (by decide) rfl (by decide) hconn

/-! ### Two blocks -/

def secondCtx : Ctx := { sampleCtx with nAdjustedTime := 100 }

def lowerBlock : CBlock := rewardBlock 105 90 (rewardTx 10 0x51 (10000 * coin))

def upperBlock : CBlock := rewardBlock 190 80 (rewardTx 11 0x52 (10000 * coin))

def lowerIndex : CBlockIndex :=
  { CBlockIndex.ofBlock 190 2 8 lowerBlock with pprev := some 105, nHeight := 1, nChainTrust := 2, hashProof := 190 }

def upperIndex : CBlockIndex :=
  { CBlockIndex.ofBlock 180 3 8 upperBlock with
    pprev := some 190, nHeight := 2, nChainTrust := 3, hashProof := 180, nSequenceId := 1 }

def lowerNode : Node :=
  nodeOf (connectBlock branchEnv secondCtx (insertBlockIndex genesisNode lowerIndex) lowerBlock lowerIndex)

def upperChain : List ChainBlock := [⟨lowerBlock, lowerIndex⟩, ⟨upperBlock, upperIndex⟩]

def rewardTxs : Set CTransaction := {rewardTx 10 0x51 (10000 * coin), rewardTx 11 0x52 (10000 * coin)}

theorem noCollision_rewardTxs : NoCollision branchEnv.getHash rewardTxs := by
  rintro a (rfl | rfl) b (rfl | rfl) heq
  all_goals first | rfl | exact absurd heq (by decide)

theorem chainRun_upper : ∃ node',
    ReflTransGen (ChainStep branchEnv rewardTxs 105) ⟨genesisNode, []⟩ ⟨node', upperChain⟩ := by
  have hcheck : checkBlock branchEnv secondCtx (genesisNode.pindexBest.bind genesisNode.mapBlockIndex) lowerBlock
      true true true = .ok () := by decide
  have hcheck' : checkBlock branchEnv secondCtx (lowerNode.pindexBest.bind lowerNode.mapBlockIndex) upperBlock
      true true true = .ok () := by decide
  have hentry : newBlockIndex branchEnv genesisNode lowerBlock 2 8 190 = .ok lowerIndex := by decide
  have hentry' : newBlockIndex branchEnv lowerNode upperBlock 3 8 180 = .ok upperIndex := by decide
  obtain ⟨node, hlower⟩ : ∃ node, connectBlock branchEnv secondCtx (insertBlockIndex genesisNode lowerIndex)
      lowerBlock lowerIndex = .ok node := exists_of_isOk (by decide)
  obtain rfl : lowerNode = node := by
    rw [lowerNode, hlower]
    rfl
  obtain ⟨node', hupper⟩ : ∃ node', connectBlock branchEnv secondCtx (insertBlockIndex lowerNode upperIndex)
      upperBlock upperIndex = .ok node' := exists_of_isOk (by decide)
  refine ⟨node', .tail (.tail (.tail (.single (.accept hcheck (by decide) rfl rfl hentry (by decide) ?_))
    (.connect (by decide) rfl (by decide) hlower)) (.accept hcheck' (by decide) (by decide) rfl hentry' (by decide) ?_))
    (.connect (by decide) rfl (by decide) hupper)⟩
  all_goals simp [lowerBlock, upperBlock, rewardBlock, sampleBlock, rewardTxs]

theorem chainRun_spec_upper : ∃ node' : Node, ((node'.txdb.txIndexMap 1010).isSome = true ∧
    (node'.txdb.txIndexMap 1011).isSome = true) ∧ node'.txdb.txIndexMap 1012 = none := by
  obtain ⟨node', hrun⟩ := chainRun_upper
  obtain ⟨⟨-, hentry⟩, -⟩ := chainRun_spec atGenesis_genesisNode noCollision_rewardTxs hrun
  have hhashes : (chainTxs upperChain).map (fun x => branchEnv.getHash x.tx) = [1010, 1011] := by decide
  have hiff : ∀ h, (node'.txdb.txIndexMap h).isSome = true ↔ h ∈ [1010, 1011] := fun h => by
    rw [hentry, ← hhashes, List.mem_map]
  refine ⟨node', ⟨(hiff _).mpr (by decide), (hiff _).mpr (by decide)⟩, ?_⟩
  rw [← Option.not_isSome_iff_eq_none, hiff]
  decide

theorem moneySupply_le_upper : ∃ node' : Node,
    unspentValue branchEnv node'.txdb.txIndexMap (chainTxs upperChain) ≤ 20000 * coin := by
  obtain ⟨node', hrun⟩ := chainRun_upper
  have hfirst : maxIssued 2 ≤ 20000 * coin := by decide
  have hle := (moneySupply_le atGenesis_genesisNode noCollision_rewardTxs hrun ?_).1
  · exact ⟨node', hle.trans hfirst⟩
  intro b hb
  refine .inr fun tx htx => ?_
  rcases List.mem_pair.mp hb with rfl | rfl
  all_goals
    obtain rfl := List.mem_singleton.mp htx
    rfl

end Sphinx
