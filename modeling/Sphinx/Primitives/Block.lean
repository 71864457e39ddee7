import Sphinx.Primitives.Transaction

/-!
# Blocks

`CBlock`, its two kinds, its serialized size and its merkle tree.  The merkle tree is built over an
arbitrary two-argument hash `hash2`.
-/

namespace Sphinx

structure CBlock where
  nVersion : Int := 7
  hashPrevBlock : Uint256
  hashMerkleRoot : Uint256 := 0
  nTime : Nat
  nBits : Nat := 0
  nNonce : Nat := 0
  vtx : List CTransaction
  vchBlockSig : List UInt8 := []
deriving DecidableEq, Repr

namespace CBlock

def currentVersion : Int := 7

/-- The fields `nVersion … nNonce` that are hashed. -/
def header (block : CBlock) : CBlock := { block with vtx := [], vchBlockSig := [] }

def getBlockTime (block : CBlock) : Int := block.nTime

/-- Two types of block: proof-of-work or proof-of-stake. -/
def isProofOfStake (block : CBlock) : Bool :=
  match block.vtx with
  | _ :: tx :: _ => tx.isCoinStake
  | _ => false

def isProofOfWork (block : CBlock) : Bool := !block.isProofOfStake

/-- The kernel outpoint and the time of the coinstake; the null outpoint and zero for a proof-of-work
block. -/
def getProofOfStake (block : CBlock) : COutPoint × Nat :=
  match block.isProofOfStake, block.vtx with
  | true, _ :: tx :: _ => ((tx.vin.headD ⟨COutPoint.null, [], 0⟩).prevout, tx.nTime)
  | _, _ => (COutPoint.null, 0)

/-- The serialized size of the header fields. -/
def headerSize : Nat := 80

def getSerializeSize (block : CBlock) : Nat :=
  headerSize + (getSizeOfCompactSize block.vtx.length +
    (block.vtx.map CTransaction.getSerializeSize).sum) +
    (getSizeOfCompactSize block.vchBlockSig.length + block.vchBlockSig.length)

/-- Where the serialization of the `i`-th transaction starts, counted from the start of the
serialized block. -/
def txOffset (block : CBlock) (i : Nat) : Nat :=
  headerSize + getSizeOfCompactSize block.vtx.length +
    ((block.vtx.take i).map CTransaction.getSerializeSize).sum

/-! ### The merkle tree -/

/-- One level of `BuildMerkleTree`: the hashes over the `nSize` nodes from position `j` on. -/
def merkleRow (hash2 : Uint256 → Uint256 → Uint256) (vMerkleTree : List Uint256) (j nSize : Nat) :
    List Uint256 :=
  (List.range ((nSize + 1) / 2)).map fun k =>
    let i := 2 * k
    let i2 := min (i + 1) (nSize - 1)
    hash2 (vMerkleTree.getD (j + i) 0) (vMerkleTree.getD (j + i2) 0)

/-- The outer loop of `BuildMerkleTree`; `nSize` is halved in every round, so `nSize` rounds are
enough. -/
def merkleLoop (hash2 : Uint256 → Uint256 → Uint256) :
    Nat → List Uint256 → Nat → Nat → List Uint256
  | 0, vMerkleTree, _, _ => vMerkleTree
  | fuel + 1, vMerkleTree, j, nSize =>
    if 1 < nSize then
      merkleLoop hash2 fuel (vMerkleTree ++ merkleRow hash2 vMerkleTree j nSize) (j + nSize)
        ((nSize + 1) / 2)
    else vMerkleTree

/-- `BuildMerkleTree`, over the transaction hashes of the block. -/
def buildMerkleTree (hash2 : Uint256 → Uint256 → Uint256) (hashes : List Uint256) : Uint256 :=
  (merkleLoop hash2 hashes.length hashes 0 hashes.length).getLastD 0

/-- What `BuildMerkleTree` leaves in `vMerkleTree`. -/
def merkleTree (hash2 : Uint256 → Uint256 → Uint256) (hashes : List Uint256) : List Uint256 :=
  merkleLoop hash2 hashes.length hashes 0 hashes.length

/-- The loop of `GetMerkleBranch`. -/
def merkleBranchLoop (vMerkleTree : List Uint256) : Nat → Nat → Nat → Nat → List Uint256
  | 0, _, _, _ => []
  | fuel + 1, j, nSize, nIndex =>
    if 1 < nSize then
      vMerkleTree.getD (j + min (nIndex ^^^ 1) (nSize - 1)) 0 ::
        merkleBranchLoop vMerkleTree fuel (j + nSize) ((nSize + 1) / 2) (nIndex / 2)
    else []

/-- `GetMerkleBranch`, over the transaction hashes of the block.  The tree is built if it is not there
yet. -/
def getMerkleBranch (hash2 : Uint256 → Uint256 → Uint256) (vMerkleTree hashes : List Uint256)
    (nIndex : Nat) : List Uint256 :=
  let vMerkleTree := if vMerkleTree.isEmpty then merkleTree hash2 hashes else vMerkleTree
  merkleBranchLoop vMerkleTree hashes.length 0 hashes.length nIndex

/-- The loop of `CheckMerkleBranch`. -/
def checkBranchLoop (hash2 : Uint256 → Uint256 → Uint256) : Uint256 → List Uint256 → Int → Uint256
  | hash, [], _ => hash
  | hash, otherside :: rest, nIndex =>
    checkBranchLoop hash2 (if nIndex % 2 = 1 then hash2 otherside hash else hash2 hash otherside) rest
      (nIndex / 2)

def checkMerkleBranch (hash2 : Uint256 → Uint256 → Uint256) (hash : Uint256)
    (vMerkleBranch : List Uint256) (nIndex : Int) : Uint256 :=
  if nIndex = -1 then 0 else checkBranchLoop hash2 hash vMerkleBranch nIndex

end CBlock

end Sphinx
