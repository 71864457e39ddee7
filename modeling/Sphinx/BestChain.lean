import Sphinx.AcceptToMemoryPool
import Sphinx.ConnectBlock

/-!
# The best chain

`addToBlockIndex` adds a block to the index and, when its chain has more trust than the best one,
calls `setBestChain`.  That either connects the block on top of the best chain (`setBestChainInner`)
or switches branches (`reorganize`) as far as needed to exceed the trust of the best chain, and then
connects the rest of the new branch block by block (`connectFurther`).

A `CBlockIndex*` is the hash it is registered under.  The checks of different blocks and transactions
within one call may see different clocks, locks and so on: `ctx` gives the `Ctx` of each, by hash.
The loops that follow `pprev` get as many rounds as the heights allow; running out of them is an
error of the model that a well-formed index excludes.
-/

namespace Sphinx

/-- `pindex->IsInMainChain()`. -/
def isInMainChain (node : Node) (pindex : CBlockIndex) : Bool :=
  pindex.pnext.isSome || some pindex.hashBlock = node.pindexBest

/-- `pindex->pprev->pnext = pnext`, if there is a `pprev`. -/
def setPrevNext (mapBlockIndex : BlockMap) (pindex : Uint256) (pnext : Option Uint256) : BlockMap :=
  match (mapBlockIndex pindex).bind CBlockIndex.pprev with
  | none => mapBlockIndex
  | some prev => Function.update mapBlockIndex prev
      ((mapBlockIndex prev).map fun pprev => { pprev with pnext := pnext })

/-- `InvalidChainFound`.  It writes through a handle of its own. -/
def invalidChainFound (node : Node) (pindexNew : CBlockIndex) : Node :=
  if node.nBestInvalidTrust < pindexNew.nChainTrust then
    { node with
      nBestInvalidTrust := pindexNew.nChainTrust
      txdb := { node.txdb with
        pdb := Function.update node.txdb.pdb .bnBestInvalidTrust (some (.hash pindexNew.nChainTrust)) } }
  else node

/-! ### `Reorganize` -/

/-- The inner loop of the fork search: go down from `plonger` to the height of `pfork`. -/
def lowerLonger (mapBlockIndex : BlockMap) (nHeight : Nat) :
    Nat → CBlockIndex → Except Reject CBlockIndex
  | 0, _ => error "Reorganize() : fork search does not end"
  | fuel + 1, plonger =>
    if nHeight < plonger.nHeight then
      match plonger.pprev.bind mapBlockIndex with
      | none => error "Reorganize() : plonger->pprev is null"
      | some plonger => lowerLonger mapBlockIndex nHeight fuel plonger
    else .ok plonger

/-- The outer loop of the fork search. -/
def findFork (mapBlockIndex : BlockMap) :
    Nat → CBlockIndex → CBlockIndex → Except Reject CBlockIndex
  | 0, _, _ => error "Reorganize() : fork search does not end"
  | fuel + 1, pfork, plonger =>
    if pfork.hashBlock = plonger.hashBlock then .ok pfork
    else do
      let plonger ← lowerLonger mapBlockIndex pfork.nHeight (plonger.nHeight + 1) plonger
      if pfork.hashBlock = plonger.hashBlock then .ok pfork
      else
        match pfork.pprev.bind mapBlockIndex with
        | none => error "Reorganize() : pfork->pprev is null"
        | some pfork => findFork mapBlockIndex fuel pfork plonger

/-- The blocks from `pindex` down to the block after `pfork`. -/
def branchTo (mapBlockIndex : BlockMap) (pfork : Uint256) :
    Nat → Uint256 → Except Reject (List Uint256)
  | 0, _ => error "Reorganize() : branch does not end"
  | fuel + 1, pindex =>
    if pindex = pfork then .ok []
    else
      match (mapBlockIndex pindex).bind CBlockIndex.pprev with
      | none => error "Reorganize() : pprev is null"
      | some pprev => do
        let rest ← branchTo mapBlockIndex pfork fuel pprev
        return pindex :: rest

/-- `vDisconnect` and `vConnect`. -/
def findBranches (mapBlockIndex : BlockMap) (pindexBest pindexNew : CBlockIndex) :
    Except Reject (List Uint256 × List Uint256) := do
  let pfork ← findFork mapBlockIndex (pindexBest.nHeight + 1) pindexBest pindexNew
  let vDisconnect ← branchTo mapBlockIndex pfork.hashBlock (pindexBest.nHeight + 1)
    pindexBest.hashBlock
  let vConnect ← branchTo mapBlockIndex pfork.hashBlock (pindexNew.nHeight + 1)
    pindexNew.hashBlock
  return (vDisconnect, vConnect.reverse)

section

variable (env : Env)

/-- Read the block of an index entry from disk. -/
def readIndexed (node : Node) (pindex : Uint256) (text : String) :
    Except (Reject × Node) (CBlockIndex × CBlock) :=
  match node.mapBlockIndex pindex with
  | none => .error (⟨0, text⟩, node)
  | some entry =>
    match env.readBlockFromDisk entry with
    | .error _ => .error (⟨0, text⟩, node)
    | .ok block => .ok (entry, block)

/-- One round of the disconnecting loop; `vResurrect` collects the transactions to resurrect. -/
def disconnectTip (st : Node × List CTransaction) (pindex : Uint256) :
    Except (Reject × Node) (Node × List CTransaction) := do
  let (node, vResurrect) := st
  let (entry, block) ← readIndexed env node pindex "Reorganize() : ReadFromDisk for disconnect failed"
  match disconnectBlock env node block entry with
  | .error (_, node) => .error (⟨0, "Reorganize() : DisconnectBlock failed"⟩, node)
  | .ok node =>
    return (node, (block.vtx.filter fun tx => !(tx.isCoinBase || tx.isCoinStake) &&
      env.getTotalBlocksEstimate < entry.nHeight) ++ vResurrect)

/-- One round of the connecting loop; `vDelete` collects the transactions to delete from the pool. -/
def connectTip (ctx : Uint256 → Ctx) (st : Node × List CTransaction)
    (pindex : Uint256) : Except (Reject × Node) (Node × List CTransaction) := do
  let (node, vDelete) := st
  let (entry, block) ← readIndexed env node pindex "Reorganize() : ReadFromDisk for connect failed"
  match connectBlock env (ctx pindex) node block entry with
  | .error (_, node) => .error (⟨0, "Reorganize() : ConnectBlock failed"⟩, node)
  | .ok node => return (node, vDelete ++ block.vtx)

/-- The database part of `Reorganize`: disconnect the one branch, connect the other.  The result also
holds the transactions to resurrect and to delete. -/
def switchBranches (ctx : Uint256 → Ctx) (node : Node)
    (vDisconnect vConnect : List Uint256) :
    Except (Reject × Node) (Node × List CTransaction × List CTransaction) := do
  let (node, vResurrect) ← vDisconnect.foldlM (disconnectTip env) (node, [])
  let (node, vDelete) ← vConnect.foldlM (connectTip env ctx) (node, [])
  return (node, vResurrect, vDelete)

/-- `AcceptToMemoryPool` with its result ignored. -/
def resurrectTx (ctx : Uint256 → Ctx) (node : Node) (tx : CTransaction) : Node :=
  match acceptToMemoryPool env (ctx (env.getHash tx)) node tx with
  | .error _ => node
  | .ok node => node

/-- `mempool.remove(tx); mempool.removeConflicts(tx)`. -/
def deleteTx (pool : CTxMemPool) (tx : CTransaction) : CTxMemPool :=
  (pool.remove env.getHash tx).removeConflicts env.getHash tx

/-- The changes in memory after the commit of `Reorganize`. -/
def finishReorganize (ctx : Uint256 → Ctx) (node : Node)
    (vDisconnect vConnect : List Uint256) (vResurrect vDelete : List CTransaction) : Node :=
  let mapBlockIndex := vDisconnect.foldl (fun m h => setPrevNext m h none) node.mapBlockIndex
  let mapBlockIndex := vConnect.foldl (fun m h => setPrevNext m h (some h)) mapBlockIndex
  let node := vResurrect.foldl (resurrectTx env ctx) { node with mapBlockIndex := mapBlockIndex }
  { node with mempool := vDelete.foldl (deleteTx env) node.mempool }

def reorganize (ctx : Uint256 → Ctx) (node : Node) (pindexNew : CBlockIndex) :
    Except (Reject × Node) Node :=
  match node.pindexBest.bind node.mapBlockIndex with
  | none => .error (⟨0, "Reorganize() : pindexBest is null"⟩, node)
  | some pindexBest =>
    match findBranches node.mapBlockIndex pindexBest pindexNew with
    | .error r => .error (r, node)
    | .ok (vDisconnect, vConnect) => do
      let (node, vResurrect, vDelete) ← switchBranches env ctx node vDisconnect vConnect
      let node := { node with
        txdb := (node.txdb.writeHashBestChain pindexNew.hashBlock).txnCommit }
      return finishReorganize env ctx node vDisconnect vConnect vResurrect vDelete

/-! ### `SetBestChain` -/

/-- `SetBestChainInner(txdb, pindexNew)`: attach a block to the best chain. -/
def setBestChainInner (ctx : Uint256 → Ctx) (node : Node) (block : CBlock)
    (pindexNew : CBlockIndex) : Except (Reject × Node) Node :=
  match connectBlock env (ctx pindexNew.hashBlock) node block pindexNew with
  | .error (r, node) =>
    .error (r, invalidChainFound { node with txdb := node.txdb.txnAbort } pindexNew)
  | .ok node => .ok { node with
      txdb := (node.txdb.writeHashBestChain (env.getBlockHash block)).txnCommit
      mapBlockIndex := setPrevNext node.mapBlockIndex pindexNew.hashBlock (some pindexNew.hashBlock)
      mempool := block.vtx.foldl (fun pool tx => pool.remove env.getHash tx) node.mempool }

end

/-- The loop that postpones blocks: `pindexIntermediate` and `vpindexSecondary`. -/
def postpone (mapBlockIndex : BlockMap) (nBestTrust : Nat) :
    Nat → CBlockIndex → List Uint256 → CBlockIndex × List Uint256
  | 0, pindexIntermediate, vpindexSecondary => (pindexIntermediate, vpindexSecondary)
  | fuel + 1, pindexIntermediate, vpindexSecondary =>
    match pindexIntermediate.pprev.bind mapBlockIndex with
    | none => (pindexIntermediate, vpindexSecondary)
    | some pprev =>
      if nBestTrust < pprev.nChainTrust then
        postpone mapBlockIndex nBestTrust fuel pprev
          (vpindexSecondary ++ [pindexIntermediate.hashBlock])
      else (pindexIntermediate, vpindexSecondary)

/-- Connect the postponed blocks; the first failure ends the loop and is not an error. -/
def connectFurther (env : Env) (ctx : Uint256 → Ctx) : List Uint256 → Node → Node
  | [], node => node
  | pindex :: rest, node =>
    match readIndexed env node pindex "SetBestChain() : ReadFromDisk failed" with
    | .error _ => node
    | .ok (entry, block) =>
      match setBestChainInner env ctx node.begun block entry with
      | .error (_, node) => node
      | .ok node => connectFurther env ctx rest node

/-- The branch of `SetBestChain` that switches to another branch. -/
def switchBestChain (env : Env) (ctx : Uint256 → Ctx) (node : Node) (pindexNew : CBlockIndex) :
    Except (Reject × Node) Node :=
  match node.pindexBest.bind node.mapBlockIndex with
  | none => .error (⟨0, "SetBestChain() : pindexBest is null"⟩, node)
  | some pindexBest =>
    let (pindexIntermediate, vpindexSecondary) := postpone node.mapBlockIndex pindexBest.nChainTrust
      (pindexNew.nHeight + 1) pindexNew []
    match reorganize env ctx node pindexIntermediate with
    | .error (_, node) => .error (⟨0, "SetBestChain() : Reorganize failed"⟩,
        invalidChainFound { node with txdb := node.txdb.txnAbort } pindexNew)
    | .ok node => .ok (connectFurther env ctx vpindexSecondary.reverse node)

/-- The end of `SetBestChain`: the new best block. -/
def newBestBlock (node : Node) (hash : Uint256) (pindexNew : CBlockIndex) : Node :=
  { node with
    hashBestChain := hash
    pindexBest := some pindexNew.hashBlock
    nBestHeight := pindexNew.nHeight
    nBestChainTrust := pindexNew.nChainTrust
    mempool := { node.mempool with
      nTransactionsUpdated := node.mempool.nTransactionsUpdated + 1 } }

def setBestChain (env : Env) (ctx : Uint256 → Ctx) (node : Node) (block : CBlock)
    (pindexNew : CBlockIndex) : Except (Reject × Node) Node := do
  let hash := env.getBlockHash block
  let node := node.begun
  let node ←
    if node.pindexGenesisBlock = none ∧ hash = env.hashGenesisBlock then
      pure { node with
        txdb := (node.txdb.writeHashBestChain hash).txnCommit
        pindexGenesisBlock := some pindexNew.hashBlock }
    else if block.hashPrevBlock = node.hashBestChain then
      (setBestChainInner env ctx node block pindexNew).mapError fun e =>
        (⟨0, "SetBestChain() : SetBestChainInner failed"⟩, e.2)
    else switchBestChain env ctx node pindexNew
  return newBestBlock node hash pindexNew

/-! ### `AddToBlockIndex` -/

/-- The index entry of a new block. -/
def newBlockIndex (env : Env) (node : Node) (block : CBlock) (nFile nBlockPos : Nat)
    (hashProof : Uint256) : Except Reject CBlockIndex :=
  let hash := env.getBlockHash block
  let pprev := node.mapBlockIndex block.hashPrevBlock
  let pprevPtr := pprev.map fun _ => block.hashPrevBlock
  let entry := CBlockIndex.ofBlock hash nFile nBlockPos block
  match env.computeNextStakeModifier node.mapBlockIndex pprevPtr with
  | none => error "AddToBlockIndex() : ComputeNextStakeModifier() failed"
  | some (nStakeModifier, fGenerated) => .ok { entry with
      nSequenceId := node.nBlockSequenceId
      pprev := pprevPtr
      nHeight := match pprev with
        | none => 0
        | some pprev => pprev.nHeight + 1
      nChainTrust := (match pprev with
        | none => 0
        | some pprev => pprev.nChainTrust) + env.getBlockTrust block.nBits
      nFlags := entry.nFlags ||| (if hash % 2 = 1 then CBlockIndex.BLOCK_STAKE_ENTROPY else 0) |||
        (if fGenerated then CBlockIndex.BLOCK_STAKE_MODIFIER else 0)
      hashProof := hashProof
      nStakeModifier := nStakeModifier
      bnStakeModifierV2 := env.computeStakeModifierV2 node.mapBlockIndex pprevPtr
        (if block.isProofOfWork then hash
          else ((block.tx 1).vin.headD ⟨COutPoint.null, [], 0⟩).prevout.hash) }

/-- The node with the entry added to `mapBlockIndex` and written to the database. -/
def insertBlockIndex (node : Node) (pindexNew : CBlockIndex) : Node :=
  { node with
    nBlockSequenceId := node.nBlockSequenceId + 1
    mapBlockIndex := Function.update node.mapBlockIndex pindexNew.hashBlock (some pindexNew)
    setStakeSeen := if pindexNew.isProofOfStake then
      (pindexNew.prevoutStake, pindexNew.nStakeTime) :: node.setStakeSeen else node.setStakeSeen
    txdb := (node.txdb.txnBegin.writeBlockIndex (CDiskBlockIndex.ofIndex pindexNew)).txnCommit }

def addToBlockIndex (env : Env) (ctx : Uint256 → Ctx) (node : Node) (block : CBlock)
    (nFile nBlockPos : Nat) (hashProof : Uint256) : Except (Reject × Node) Node :=
  if (node.mapBlockIndex (env.getBlockHash block)).isSome then
    .error (⟨0, "AddToBlockIndex() : already exists"⟩, node)
  else
    match newBlockIndex env node block nFile nBlockPos hashProof with
    | .error r => .error (r, { node with nBlockSequenceId := node.nBlockSequenceId + 1 })
    | .ok pindexNew =>
      let node := insertBlockIndex node pindexNew
      if node.nBestChainTrust < pindexNew.nChainTrust then
        setBestChain env ctx node block pindexNew
      else .ok node

end Sphinx
