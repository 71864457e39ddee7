import Sphinx.TxDb
import Sphinx.TxMemPool
import Sphinx.MasternodePayments

/-!
# What validation reads

`Env` collects what stays fixed during a run of the node: the hash functions, the script
interpreter, the proof checks, the chain parameters and the block files.  The results hold for
every choice of these.  `Ctx` collects the rest of the state a block is checked against, which can
be different at every check: the clock, the sporks, the InstantX locks, the list of paid masternodes
and the relay policy.  `Node` is the chain state proper.
-/

namespace Sphinx

/-- The block files.  `readBlock` and `readTx` deserialize a block, respectively a transaction, at a
byte offset of a file.  Where a block can be read, each of its transactions can be read at the
offset its serialization has within the block. -/
structure BlockFiles where
  readBlock : Nat → Nat → Option CBlock
  readTx : Nat → Nat → Option CTransaction
  readTx_of_readBlock : ∀ {nFile nBlockPos : Nat} {block : CBlock},
    readBlock nFile nBlockPos = some block →
    ∀ {i : Nat} {tx : CTransaction}, block.vtx[i]? = some tx →
      readTx nFile (nBlockPos + block.txOffset i) = some tx

theorem CBlock.txOffset_lt {block : CBlock} {i j : Nat} (hij : i < j) (hj : j ≤ block.vtx.length) :
    block.txOffset i < block.txOffset j := by
  obtain ⟨k, rfl⟩ := Nat.exists_eq_add_of_lt hij
  have hi : i < block.vtx.length := by omega
  have hpos : 0 < block.vtx[i].getSerializeSize := by
    simp only [CTransaction.getSerializeSize]; omega
  have htake : block.vtx.take (i + k + 1)
      = block.vtx.take i ++ block.vtx[i] :: (block.vtx.drop (i + 1)).take k := by
    rw [Nat.add_assoc, List.take_add, List.drop_eq_getElem_cons hi, List.take_succ_cons]
  simp only [txOffset, htake, List.map_append, List.map_cons, List.sum_append, List.sum_cons]
  omega

/-- Block files that hold one block each: the `i`-th block is at position `8` of file `i + 1`. -/
def BlockFiles.ofBlocks (blocks : List CBlock) : BlockFiles where
  readBlock nFile nBlockPos :=
    if nFile ≠ 0 ∧ nBlockPos = 8 then blocks[nFile - 1]? else none
  readTx nFile nTxPos :=
    if nFile ≠ 0 then
      blocks[nFile - 1]?.bind fun block =>
        ((List.range block.vtx.length).find? fun i => 8 + block.txOffset i = nTxPos).bind
          fun i => block.vtx[i]?
    else none
  readTx_of_readBlock := by
    intro nFile nBlockPos block hblock i tx htx
    split_ifs at hblock with hpos
    obtain ⟨hfile, rfl⟩ := hpos
    have hi : i < block.vtx.length := (List.getElem?_eq_some_iff.mp htx).1
    rw [if_pos hfile, hblock, Option.bind_some]
    have hfind : (List.range block.vtx.length).find?
        (fun j => 8 + block.txOffset j = 8 + block.txOffset i) = some i := by
      rw [List.find?_range_eq_some]
      refine ⟨by simp, by simpa using hi, fun j hj => ?_⟩
      have := CBlock.txOffset_lt hj hi.le
      simp only [Bool.not_eq_eq_eq_not, Bool.not_true, decide_eq_false_iff_not]
      omega
    rw [hfind, Option.bind_some, htx]

structure Env where
  /-- `SerializeHash` of the serialized fields of a transaction. -/
  serializeHash : CTransaction → Uint256
  /-- `Hash(BEGIN(nVersion), END(nNonce))` of a block header. -/
  hashHeader : CBlock → Uint256
  /-- The hash of two concatenated hashes. -/
  hash2 : Uint256 → Uint256 → Uint256
  /-- `BuildAddrIndex`: the address ids a script yields, if it returns true. -/
  buildAddrIndex : CScript → Option (List Nat)
  /-- `VerifyScript(scriptSig, scriptPubKey, txTo, nIn, flags, nHashType)`. -/
  verifyScript : CScript → CScript → CTransaction → Nat → Nat → Int → Bool
  checkProofOfWork : Uint256 → Nat → Bool
  checkBlockSignature : CBlock → Bool
  getNextTargetRequired : BlockMap → Uint256 → Bool → Nat
  /-- `CheckProofOfStake(pindexPrev, tx, nBits, hashProofOfStake, …)`. -/
  checkProofOfStake : BlockMap → CTxDB → Uint256 → CTransaction → Nat → Option Uint256
  computeNextStakeModifier : BlockMap → Option Uint256 → Option (Nat × Bool)
  computeStakeModifierV2 : BlockMap → Option Uint256 → Uint256 → Uint256
  /-- `GetBlockTrust`, a function of `nBits`. -/
  getBlockTrust : Nat → Nat
  checkHardened : Nat → Uint256 → Bool
  getTotalBlocksEstimate : Nat
  hashGenesisBlock : Uint256
  lastPOWBlock : Nat
  /-- `-addrindex`. -/
  fAddrIndex : Bool
  files : BlockFiles

/-- The state outside the chain that a check of a block or a transaction reads. -/
structure Ctx where
  nAdjustedTime : Int
  /-- `IsInitialBlockDownload()`. -/
  fInitialDownload : Bool
  /-- `IsSporkActive(SPORK_3_INSTANTX_BLOCK_FILTERING)`. -/
  fBlockFiltering : Bool
  mapLockedInputs : COutPoint → Option Uint256
  vWinning : List CMasternodePaymentWinner
  /-- `TestNet() || IsStandardTx(tx, reason)`. -/
  isStandardTx : CTransaction → Bool
  /-- `TestNet() || AreInputsStandard(tx, mapInputs)`. -/
  areInputsStandard : CTransaction → Bool
  /-- The verdict of the fee rules of `AcceptToMemoryPool` on a transaction and its fee: the minimum
  relay fee, the rate limit on free transactions and the limit on insane fees, as far as the caller
  asks for them. -/
  acceptFees : CTransaction → CAmount → Bool

/-- The chain state: the block index, the best chain, the database handle, the memory pool and the
calls made to `SyncWithWallets`, newest last. -/
structure Node where
  mapBlockIndex : BlockMap
  pindexGenesisBlock : Option Uint256
  pindexBest : Option Uint256
  hashBestChain : Uint256
  nBestHeight : Int
  nBestChainTrust : Nat
  nBestInvalidTrust : Nat
  nBlockSequenceId : Nat
  setStakeSeen : List (COutPoint × Nat)
  txdb : CTxDB
  mempool : CTxMemPool
  walletSyncs : List (CTransaction × Bool)

/-- After `TxnBegin`. -/
abbrev Node.begun (node : Node) : Node := { node with txdb := node.txdb.txnBegin }

/-- The node state a step ends with, failed or not. -/
def nodeOf : Except (Reject × Node) Node → Node
  | .ok node => node
  | .error e => e.2

namespace Env

variable (env : Env)

/-- `tx.GetHash()`. -/
def getHash (tx : CTransaction) : Uint256 := env.serializeHash tx.serialized

/-- `block.GetPoWHash()`. -/
def getPoWHash (block : CBlock) : Uint256 := env.hashHeader block.header

/-- `block.GetHash()`. -/
def getBlockHash (block : CBlock) : Uint256 := env.getPoWHash block

/-- `CTransaction::ReadFromDisk(pos)`. -/
def readTxFromDisk : CDiskTxPos → Option CTransaction
  | .null => none
  | .pos nFile _ nTxPos => env.files.readTx nFile nTxPos

/-- `CBlock::ReadFromDisk(pindex)`. -/
def readBlockFromDisk (pindex : CBlockIndex) : Except Reject CBlock := do
  match env.files.readBlock pindex.nFile pindex.nBlockPos with
  | none => error "CBlock::ReadFromDisk() : OpenBlockFile failed"
  | some block =>
    rejectIf (block.isProofOfWork &&
      !env.checkProofOfWork (env.getPoWHash block) block.nBits) 0
      "CBlock::ReadFromDisk() : errors in block header"
    rejectIf (env.getBlockHash block ≠ pindex.hashBlock) 0
      "CBlock::ReadFromDisk() : GetHash() doesn't match index"
    return block

def verifySignature (txFrom txTo : CTransaction) (nIn flags : Nat) (nHashType : Int) : Bool :=
  match txTo.vin[nIn]? with
  | none => false
  | some txin =>
    match txFrom.vout[txin.prevout.n]? with
    | none => false
    | some txout =>
      if txin.prevout.hash ≠ env.getHash txFrom then false
      else env.verifyScript txin.scriptSig txout.scriptPubKey txTo nIn flags nHashType

/-- The environment in which every proof check passes, given the hash functions, the script
interpreter and the block files. -/
def permissive (serializeHash : CTransaction → Uint256) (hashHeader : CBlock → Uint256)
    (verifyScript : CScript → CScript → CTransaction → Nat → Nat → Int → Bool)
    (files : BlockFiles) : Env where
  serializeHash := serializeHash
  hashHeader := hashHeader
  hash2 a b := a + b
  buildAddrIndex _ := none
  verifyScript := verifyScript
  checkProofOfWork _ _ := true
  checkBlockSignature _ := true
  getNextTargetRequired _ _ _ := 0
  checkProofOfStake _ _ _ _ _ := some 0
  computeNextStakeModifier _ _ := some (0, false)
  computeStakeModifierV2 _ _ _ := 0
  getBlockTrust _ := 1
  checkHardened _ _ := true
  getTotalBlocksEstimate := 0
  hashGenesisBlock := 0
  lastPOWBlock := 220
  fAddrIndex := false
  files := files

end Env

end Sphinx
