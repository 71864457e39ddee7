import Sphinx.BestChain
import Sphinx.InstantX
import Sphinx.WalletCredit

/-!
# A transaction and its block

The members of `CMerkleTx` (`main.cpp`) that find the block of a transaction and its depth:
`SetMerkleBranch`, `GetDepthInMainChain` and `GetBlocksToMaturity`.

`fMerkleVerified` is in memory only, and stands beside the transaction.
-/

namespace Sphinx

/-- `CBlock::ReadFromDisk(nFile, nBlockPos)`. -/
def readBlockAt (env : Env) (nFile nBlockPos : Nat) : Option CBlock :=
  match env.files.readBlock nFile nBlockPos with
  | none => none
  | some block =>
    if block.isProofOfWork && !env.checkProofOfWork (env.getPoWHash block) block.nBits then none else some block

namespace CMerkleTx

variable (env : Env) (node : Node)

/-- The constructor `CMerkleTx(txIn)`. -/
def ofTx (tx : CTransaction) : CMerkleTx := ⟨tx, 0, [], -1⟩

/-- The end of `SetMerkleBranch`: the depth of the block `hashBlock`. -/
def depthOfBlock (mtx : CMerkleTx) : Int :=
  match node.mapBlockIndex mtx.hashBlock with
  | none => 0
  | some pindex => if !isInMainChain node pindex then 0 else bestHeight node - pindex.nHeight + 1

/-- The block in `SetMerkleBranch` once `pblock` is set. -/
def fillMerkleBranch (mtx : CMerkleTx) (block : CBlock) : Int × CMerkleTx :=
  match block.vtx.idxOf? mtx.tx with
  | none => (0, { mtx with hashBlock := env.getBlockHash block, vMerkleBranch := [], nIndex := -1 })
  | some nIndex =>
    let mtx := { mtx with
      hashBlock := env.getBlockHash block
      vMerkleBranch := CBlock.getMerkleBranch env.hash2 [] (block.vtx.map env.getHash) nIndex
      nIndex := nIndex }
    (mtx.depthOfBlock node, mtx)

def setMerkleBranch (mtx : CMerkleTx) (pblock : Option CBlock) : Int × CMerkleTx :=
  match pblock with
  | some block => mtx.fillMerkleBranch env node block
  | none =>
    match node.txdb.readTxIndex (env.getHash mtx.tx) with
    | none => (0, mtx)
    | some txindex =>
      match txindex.pos with
      | .null => (0, mtx)
      | .pos nFile nBlockPos _ =>
        match readBlockAt env nFile nBlockPos with
        | none => (0, mtx)
        -- the assignment of `pblock` stands after the `return` for the other case
        | some _ => (mtx.depthOfBlock node, mtx)

/-- `GetDepthInMainChainINTERNAL`, with `fMerkleVerified` as it is afterwards. -/
def getDepthInMainChainInternal (mtx : CMerkleTx) (fMerkleVerified : Bool) : Int × Bool :=
  if mtx.hashBlock = 0 || mtx.nIndex = -1 then (0, fMerkleVerified)
  else
    match node.mapBlockIndex mtx.hashBlock with
    | none => (0, fMerkleVerified)
    | some pindex =>
      if !isInMainChain node pindex then (0, fMerkleVerified)
      -- make sure the merkle branch connects to this block
      else if !fMerkleVerified && CBlock.checkMerkleBranch env.hash2 (env.getHash mtx.tx) mtx.vMerkleBranch
          mtx.nIndex ≠ pindex.hashMerkleRoot then (0, fMerkleVerified)
      else (bestHeight node - pindex.nHeight + 1, true)

/-- `-instantxdepth`, as `AppInit2` bounds it. -/
def instantXDepth (nArg : Int) : Int := min (max nArg 0) 60

/-- `GetDepthInMainChain(enableIX)`, given `GetTransactionLockSignatures()` and `nInstantXDepth`. -/
def getDepthInMainChain (nSignatures nInstantXDepth : Int) (enableIX : Bool) (mtx : CMerkleTx)
    (fMerkleVerified : Bool) : Int :=
  let nResult := (mtx.getDepthInMainChainInternal env node fMerkleVerified).1
  if nResult = 0 && !node.mempool.contains (env.getHash mtx.tx) then -1
  else if enableIX && nResult < 10 && instantXSignaturesRequired ≤ nSignatures then nInstantXDepth + nResult
  else nResult

def getBlocksToMaturity (nSignatures nInstantXDepth : Int) (mtx : CMerkleTx) (fMerkleVerified : Bool) : Int :=
  if !(mtx.tx.isCoinBase || mtx.tx.isCoinStake) then 0
  else max 0 (nCoinbaseMaturity - mtx.getDepthInMainChain env node nSignatures nInstantXDepth true fMerkleVerified)

end CMerkleTx

end Sphinx
