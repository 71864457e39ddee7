import Sphinx.Primitives.Block

/-!
# The block index

A `CBlockIndex` object is registered in `mapBlockIndex` under its block hash and never removed, so
the pointers `pprev` and `pnext` are modelled by the hash of the block they point to, `none` being
the null pointer.  `CDiskBlockIndex` is the record stored in the database, with hashes in place of
the pointers.
-/

namespace Sphinx

structure CBlockIndex where
  /-- `*phashBlock` -/
  hashBlock : Uint256
  pprev : Option Uint256 := none
  pnext : Option Uint256 := none
  nFile : Nat := 0
  nBlockPos : Nat := 0
  nChainTrust : Nat := 0
  nHeight : Nat := 0
  nMint : CAmount := 0
  nMoneySupply : CAmount := 0
  nFlags : Nat := 0
  nStakeModifier : Nat := 0
  bnStakeModifierV2 : Uint256 := 0
  prevoutStake : COutPoint := COutPoint.null
  nStakeTime : Nat := 0
  hashProof : Uint256 := 0
  nVersion : Int := 0
  hashMerkleRoot : Uint256 := 0
  nTime : Nat := 0
  nBits : Nat := 0
  nNonce : Nat := 0
  nSequenceId : Nat := 0
deriving DecidableEq, Repr

/-- `mapBlockIndex`. -/
abbrev BlockMap := Uint256 → Option CBlockIndex

namespace CBlockIndex

def BLOCK_PROOF_OF_STAKE : Nat := 1
def BLOCK_STAKE_ENTROPY : Nat := 2
def BLOCK_STAKE_MODIFIER : Nat := 4

/-- The constructor `CBlockIndex(nFile, nBlockPos, block)`; `hashBlock` is set by the caller. -/
def ofBlock (hashBlock : Uint256) (nFile nBlockPos : Nat) (block : CBlock) : CBlockIndex :=
  { hashBlock := hashBlock
    nFile := nFile
    nBlockPos := nBlockPos
    nFlags := if block.isProofOfStake then BLOCK_PROOF_OF_STAKE else 0
    prevoutStake :=
      match block.isProofOfStake, block.vtx with
      | true, _ :: tx :: _ => (tx.vin.headD ⟨COutPoint.null, [], 0⟩).prevout
      | _, _ => COutPoint.null
    nStakeTime :=
      match block.isProofOfStake, block.vtx with
      | true, _ :: tx :: _ => tx.nTime
      | _, _ => 0
    nVersion := block.nVersion
    hashMerkleRoot := block.hashMerkleRoot
    nTime := block.nTime
    nBits := block.nBits
    nNonce := block.nNonce }

def getBlockTime (pindex : CBlockIndex) : Int := pindex.nTime

def getPastTimeLimit (pindex : CBlockIndex) : Int := pindex.getBlockTime - 16200

def isProofOfStake (pindex : CBlockIndex) : Bool := pindex.nFlags &&& BLOCK_PROOF_OF_STAKE ≠ 0

end CBlockIndex

/-- The fields of a block index entry that are stored in the database. -/
structure CDiskBlockIndex where
  blockHash : Uint256
  hashPrev : Uint256
  hashNext : Uint256
  nFile : Nat
  nBlockPos : Nat
  nHeight : Nat
  nMint : CAmount
  nMoneySupply : CAmount
  nFlags : Nat
  nStakeModifier : Nat
  bnStakeModifierV2 : Uint256
  prevoutStake : COutPoint
  nStakeTime : Nat
  hashProof : Uint256
  nVersion : Int
  hashMerkleRoot : Uint256
  nTime : Nat
  nBits : Nat
  nNonce : Nat
deriving DecidableEq, Repr

/-- The constructor `CDiskBlockIndex(pindex)`. -/
def CDiskBlockIndex.ofIndex (pindex : CBlockIndex) : CDiskBlockIndex :=
  { blockHash := pindex.hashBlock
    hashPrev := pindex.pprev.getD 0
    hashNext := pindex.pnext.getD 0
    nFile := pindex.nFile
    nBlockPos := pindex.nBlockPos
    nHeight := pindex.nHeight
    nMint := pindex.nMint
    nMoneySupply := pindex.nMoneySupply
    nFlags := pindex.nFlags
    nStakeModifier := pindex.nStakeModifier
    bnStakeModifierV2 := pindex.bnStakeModifierV2
    prevoutStake := pindex.prevoutStake
    nStakeTime := pindex.nStakeTime
    hashProof := pindex.hashProof
    nVersion := pindex.nVersion
    hashMerkleRoot := pindex.hashMerkleRoot
    nTime := pindex.nTime
    nBits := pindex.nBits
    nNonce := pindex.nNonce }

/-- The entries from `h` down, following `pprev` for at most `fuel` entries. -/
def pprevChain (mapBlockIndex : BlockMap) : Nat → Option Uint256 → List CBlockIndex
  | 0, _ => []
  | _ + 1, none => []
  | fuel + 1, some h =>
    match mapBlockIndex h with
    | none => []
    | some pindex => pindex :: pprevChain mapBlockIndex fuel pindex.pprev

end Sphinx
