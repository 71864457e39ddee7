import Sphinx.BestChain

/-!
# Looking up blocks

`CBlockLocator` and `FindBlockByHeight` of `primitives/block.cpp`.

A locator has hashes from a block back to the genesis block, the first ten steps by one block and every further
step twice as long.  `Set` runs on the index of the sender, and the other functions on the node of the receiver.
The distances fit in an `int` for chains of less than 2^30 blocks, and the model does not bound them.

`FindBlockByHeight` has `pblockindexFBBHLast`, the block that the last call returned.  `SetBestChain` sets that
pointer to null together with the new `pindexBest`, at its end.  The loops get as many rounds as the heights allow.
-/

namespace Sphinx

structure CBlockLocator where
  vHave : List Uint256
deriving DecidableEq, Repr

namespace CBlockLocator

/-- The inner loop of `Set`: `pindex = pindex->pprev`, so many times. -/
def stepBack (mapBlockIndex : BlockMap) : Nat → Option Uint256 → Option Uint256
  | 0, pindex => pindex
  | _ + 1, none => none
  | i + 1, some pindex => stepBack mapBlockIndex i ((mapBlockIndex pindex).bind CBlockIndex.pprev)

/-- The outer loop of `Set`, for so many rounds. -/
def setLoop (hashGenesisBlock : Uint256) (mapBlockIndex : BlockMap) :
    Nat → Option Uint256 → Nat → List Uint256 → Option CBlockLocator
  | _, none, _, vHave => some ⟨vHave ++ [hashGenesisBlock]⟩
  | 0, some _, _, _ => none
  | fuel + 1, some pindex, nStep, vHave =>
    let vHave := vHave ++ [pindex]
    -- exponentially larger steps back
    let pindex := stepBack mapBlockIndex nStep (some pindex)
    setLoop hashGenesisBlock mapBlockIndex fuel pindex (if 10 < vHave.length then nStep * 2 else nStep) vHave

/-- `Set(pindex)`, stopped after so many rounds. -/
def set (hashGenesisBlock : Uint256) (mapBlockIndex : BlockMap) (fuel : Nat) (pindex : Option Uint256) :
    Option CBlockLocator :=
  setLoop hashGenesisBlock mapBlockIndex fuel pindex 1 []

/-- The test of the loops of the receiver: the hash is known and in the main chain. -/
def inMainChain (node : Node) (hash : Uint256) : Bool :=
  match node.mapBlockIndex hash with
  | none => false
  | some pindex => isInMainChain node pindex

/-- The loop of `GetDistanceBack`. -/
def distanceLoop (node : Node) : List Uint256 → Nat → Nat → Nat
  | [], nDistance, _ => nDistance
  | hash :: vHave, nDistance, nStep =>
    if inMainChain node hash then nDistance
    else
      let nDistance := nDistance + nStep
      distanceLoop node vHave nDistance (if 10 < nDistance then nStep * 2 else nStep)

def getDistanceBack (node : Node) (locator : CBlockLocator) : Nat := distanceLoop node locator.vHave 0 1

/-- `GetBlockIndex`, the block being given by its hash. -/
def getBlockIndex (node : Node) (locator : CBlockLocator) : Option Uint256 :=
  match locator.vHave.find? (inMainChain node) with
  | some hash => some hash
  | none => node.pindexGenesisBlock

end CBlockLocator

/-! ### Finding a block by its height -/

/-- How a walk through the index can fail. -/
inductive WalkFault
  | nullPointer
  | endless
deriving DecidableEq, Repr

/-- `while (pblockindex->nHeight > nHeight) pblockindex = pblockindex->pprev;` -/
def walkDown (mapBlockIndex : BlockMap) (nHeight : Int) : Nat → CBlockIndex → Except WalkFault CBlockIndex
  | 0, _ => .error .endless
  | fuel + 1, pblockindex =>
    if nHeight < pblockindex.nHeight then
      match pblockindex.pprev.bind mapBlockIndex with
      | none => .error .nullPointer
      | some pprev => walkDown mapBlockIndex nHeight fuel pprev
    else .ok pblockindex

/-- `while (pblockindex->nHeight < nHeight) pblockindex = pblockindex->pnext;` -/
def walkUp (mapBlockIndex : BlockMap) (nHeight : Int) : Nat → CBlockIndex → Except WalkFault CBlockIndex
  | 0, _ => .error .endless
  | fuel + 1, pblockindex =>
    if (pblockindex.nHeight : Int) < nHeight then
      match pblockindex.pnext.bind mapBlockIndex with
      | none => .error .nullPointer
      | some pnext => walkUp mapBlockIndex nHeight fuel pnext
    else .ok pblockindex

/-- A node with the pointer `pblockindexFBBHLast`. -/
structure ChainView where
  node : Node
  pblockindexFBBHLast : Option Uint256 := none

namespace ChainView

/-- The block that the search starts with. -/
def searchStart (s : ChainView) (nHeight : Int) : Except WalkFault CBlockIndex :=
  let pblockindex := if nHeight < s.node.nBestHeight.tdiv 2 then s.node.pindexGenesisBlock else s.node.pindexBest
  match pblockindex.bind s.node.mapBlockIndex, s.pblockindexFBBHLast.bind s.node.mapBlockIndex with
  | none, _ => .error .nullPointer
  | some pblockindex, none => .ok pblockindex
  | some pblockindex, some last =>
    if (nHeight - last.nHeight).natAbs < (nHeight - pblockindex.nHeight).natAbs then .ok last
    else .ok pblockindex

def findBlockByHeight (s : ChainView) (nHeight : Int) : Except WalkFault (CBlockIndex × ChainView) := do
  let pblockindex ← s.searchStart nHeight
  let pblockindex ← walkDown s.node.mapBlockIndex nHeight (pblockindex.nHeight + 1) pblockindex
  let pblockindex ← walkUp s.node.mapBlockIndex nHeight ((nHeight - pblockindex.nHeight).toNat + 1) pblockindex
  return (pblockindex, { s with pblockindexFBBHLast := some pblockindex.hashBlock })

end ChainView

/-- The call of `AddToBlockIndex` reaches the end of `SetBestChain`. -/
def setsBestChain (env : Env) (ctx : Uint256 → Ctx) (node : Node) (block : CBlock) (nFile nBlockPos : Nat)
    (hashProof : Uint256) : Bool :=
  match newBlockIndex env node block nFile nBlockPos hashProof with
  | .error _ => false
  | .ok pindexNew =>
    (node.mapBlockIndex (env.getBlockHash block)).isNone && node.nBestChainTrust < pindexNew.nChainTrust &&
      (setBestChain env ctx (insertBlockIndex node pindexNew) block pindexNew).isOk

/-- The state after `AddToBlockIndex`, whether it returns true or false. -/
def ChainView.addToBlockIndex (env : Env) (ctx : Uint256 → Ctx) (s : ChainView) (block : CBlock)
    (nFile nBlockPos : Nat) (hashProof : Uint256) : ChainView where
  node := nodeOf (Sphinx.addToBlockIndex env ctx s.node block nFile nBlockPos hashProof)
  pblockindexFBBHLast :=
    if setsBestChain env ctx s.node block nFile nBlockPos hashProof then none else s.pblockindexFBBHLast

end Sphinx
