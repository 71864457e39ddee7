import Sphinx.Util.Reach
import Sphinx.BestChain

/-!
# Receiving blocks

`ProcessBlock` of `main.cpp` with its orphan blocks, `CBlock::AcceptBlock`, and the loops over the
orphan chains: `GetOrphanRoot`, `WantedByOrphan` and `PruneOrphanBlocks`.

An orphan is in two maps, `mapOrphanBlocks` by its hash and `mapOrphanBlocksByPrev` by the hash of its
parent; a deleted object is one that is in neither.  `mapOrphanBlocksByPrev` is the list of its
entries in the order of the multimap.  A loop that may not end takes `fuel`.
-/

namespace Sphinx

open Follow

/-! ### `AcceptBlock` -/

/-- What a call of `AcceptBlock` reads outside the chain state. -/
structure AcceptCtx where
  ctx : Ctx
  /-- What `ConnectBlock` of the block with the given hash reads. -/
  connectCtx : Uint256 → Ctx
  /-- `CheckDiskSpace(nSize)`. -/
  fDiskSpace : Bool
  /-- `WriteToDisk`: the position of the block, if it is written. -/
  writeToDisk : Option (Nat × Nat)

def acceptBlock (env : Env) (actx : AcceptCtx) (node : Node) (block : CBlock) :
    Except (Reject × Node) Node :=
  match acceptBlockChecks env actx.ctx node block with
  | .error r => .error (r, node)
  | .ok hashProof =>
    if !actx.fDiskSpace then .error (⟨0, "AcceptBlock() : out of disk space"⟩, node)
    else
      match actx.writeToDisk with
      | none => .error (⟨0, "AcceptBlock() : WriteToDisk failed"⟩, node)
      | some (nFile, nBlockPos) =>
        (addToBlockIndex env actx.connectCtx node block nFile nBlockPos hashProof).mapError fun e =>
          (⟨0, "AcceptBlock() : AddToBlockIndex failed"⟩, e.2)

/-! ### Orphan blocks -/

structure COrphanBlock where
  hashBlock : Uint256
  hashPrev : Uint256
  stake : COutPoint × Nat
  /-- `vchBlock`, the serialized block. -/
  block : CBlock
deriving DecidableEq

/-- The chain state with the orphan blocks. -/
structure BlockNode where
  node : Node
  mapOrphanBlocks : StdMap Uint256 COrphanBlock
  mapOrphanBlocksByPrev : List (Uint256 × COrphanBlock)
  setStakeSeenOrphan : Finset (COutPoint × Nat)

/-- `multimap::insert`: behind the entries with the same key. -/
def insertByPrev (entry : Uint256 × COrphanBlock) :
    List (Uint256 × COrphanBlock) → List (Uint256 × COrphanBlock)
  | [] => [entry]
  | e :: rest => if entry.1 < e.1 then entry :: e :: rest else e :: insertByPrev entry rest

def getOrphanRoot (fuel : Nat) (mapOrphanBlocks : StdMap Uint256 COrphanBlock) (hash : Uint256) :
    Option Uint256 :=
  match mapOrphanBlocks.lookup hash with
  | none => some hash
  | some pblock =>
    (follow (fun it => (mapOrphanBlocks.lookup it.2.hashPrev).map fun it2 => (it.2.hashPrev, it2))
      fuel (hash, pblock)).map (·.1)

def wantedByOrphan (fuel : Nat) (mapOrphanBlocks : StdMap Uint256 COrphanBlock)
    (pblockOrphan : COrphanBlock) : Option Uint256 :=
  (follow (fun pblock => mapOrphanBlocks.lookup pblock.hashPrev) fuel pblockOrphan).map (·.hashPrev)

/-- The loop of `PruneOrphanBlocks`: from an orphan to one that no other orphan depends on. -/
def findLeafOrphan (fuel : Nat) (mapOrphanBlocksByPrev : List (Uint256 × COrphanBlock))
    (it : Uint256 × COrphanBlock) : Option (Uint256 × COrphanBlock) :=
  follow (fun it => mapOrphanBlocksByPrev.find? fun e => e.1 = it.2.hashBlock) fuel it

/-- `PruneOrphanBlocks()`; `nMaxOrphanBlocks` is `-maxorphanblocks`. -/
def pruneOrphanBlocks (fuel : Nat) (nMaxOrphanBlocks : Int) (insecureRand : Nat) (s : BlockNode) :
    Option BlockNode :=
  if (s.mapOrphanBlocksByPrev.length : Int) ≤ max 0 nMaxOrphanBlocks then some s
  else
    match s.mapOrphanBlocksByPrev[insecureRand % s.mapOrphanBlocksByPrev.length]? with
    | none => some s
    | some it => do
      let it ← findLeafOrphan fuel s.mapOrphanBlocksByPrev it
      return { s with
        setStakeSeenOrphan := s.setStakeSeenOrphan.erase it.2.stake
        mapOrphanBlocksByPrev := s.mapOrphanBlocksByPrev.erase it
        mapOrphanBlocks := s.mapOrphanBlocks.erase it.2.hashBlock }

/-! ### `ProcessBlock` -/

/-- A block on its way into `ProcessBlock`. -/
structure IncomingBlock where
  block : CBlock
  /-- There is a node to request its parents from. -/
  pfrom : Bool
  fReindex : Bool
  fImporting : Bool
  isDERSignature : List UInt8 → Bool
  ctx : Ctx
  nMaxOrphanBlocks : Int
  insecureRand : Nat
  /-- What `AcceptBlock` of the block with the given hash reads. -/
  acceptCtx : Uint256 → AcceptCtx

/-- What `ProcessBlock` asks the peer for. -/
inductive BlockRequest
  | getBlocks (hashEnd : Uint256)
  | askFor (hash : Uint256)
deriving DecidableEq

/-- The outcome of a call: the state, what is returned, the requests to the peer, and the verdicts of
the checks made on the way, of `IsCanonicalBlockSignature`, `CheckBlock` and every `AcceptBlock`. -/
structure ProcessResult where
  state : BlockNode
  result : Except Reject Unit
  requests : List BlockRequest := []
  verdicts : List Bool := []

def isCanonicalBlockSignature (a : IncomingBlock) : Bool :=
  if a.block.isProofOfWork then a.block.vchBlockSig.isEmpty else a.isDERSignature a.block.vchBlockSig

/-- The new `COrphanBlock` of a block without parent. -/
def COrphanBlock.ofBlock (env : Env) (block : CBlock) : COrphanBlock :=
  { hashBlock := env.getBlockHash block
    hashPrev := block.hashPrevBlock
    stake := block.getProofOfStake
    block := block }

def insertOrphan (env : Env) (block : CBlock) (s : BlockNode) : BlockNode :=
  let pblock2 := COrphanBlock.ofBlock env block
  { s with
    mapOrphanBlocks := s.mapOrphanBlocks.insert pblock2.hashBlock pblock2
    mapOrphanBlocksByPrev := insertByPrev (pblock2.hashPrev, pblock2) s.mapOrphanBlocksByPrev
    setStakeSeenOrphan :=
      if block.isProofOfStake then insert block.getProofOfStake s.setStakeSeenOrphan
      else s.setStakeSeenOrphan }

/-- `mapOrphanBlocksByPrev.count(hash)`, as a condition. -/
def hasOrphanChild (s : BlockNode) (hash : Uint256) : Bool :=
  s.mapOrphanBlocksByPrev.any fun e => e.1 = hash

/-- The branch of `ProcessBlock` for a block whose parent is not in the index. -/
def storeOrphan (env : Env) (fuel : Nat) (a : IncomingBlock) (s : BlockNode) :
    Option ProcessResult :=
  let hash := env.getBlockHash a.block
  if !a.pfrom then some ⟨s, .ok (), [], [true, true]⟩
  else if a.block.isProofOfStake && a.block.getProofOfStake ∈ s.setStakeSeenOrphan &&
      !hasOrphanChild s hash then
    some ⟨s, error "ProcessBlock() : duplicate proof-of-stake for orphan block", [], [true, true]⟩
  else do
    let s ← pruneOrphanBlocks fuel a.nMaxOrphanBlocks a.insecureRand s
    let s := insertOrphan env a.block s
    let root ← getOrphanRoot fuel s.mapOrphanBlocks hash
    if a.ctx.fInitialDownload then return ⟨s, .ok (), [.getBlocks root], [true, true]⟩
    else
      let wanted ← wantedByOrphan fuel s.mapOrphanBlocks (.ofBlock env a.block)
      return ⟨s, .ok (), [.getBlocks root, .askFor wanted], [true, true]⟩

/-- The state of the work queue: `vWorkQueue` from the current position on. -/
structure WorkState where
  state : BlockNode
  vWorkQueue : List Uint256
  verdicts : List Bool

/-- One orphan that depends on an accepted block. -/
def processOrphan (env : Env) (a : IncomingBlock) (w : WorkState) (orphan : COrphanBlock) :
    WorkState :=
  let r := acceptBlock env (a.acceptCtx orphan.hashBlock) w.state.node orphan.block
  { state := { w.state with
      node := nodeOf r
      mapOrphanBlocks := w.state.mapOrphanBlocks.erase orphan.hashBlock
      setStakeSeenOrphan := w.state.setStakeSeenOrphan.erase orphan.block.getProofOfStake }
    vWorkQueue := if r.isOk then w.vWorkQueue ++ [orphan.hashBlock] else w.vWorkQueue
    verdicts := w.verdicts ++ [r.isOk] }

/-- The orphans from `lower_bound(hashPrev)` to `upper_bound(hashPrev)`. -/
def orphansByPrev (s : BlockNode) (hashPrev : Uint256) : List COrphanBlock :=
  (s.mapOrphanBlocksByPrev.filter fun e => e.1 = hashPrev).map (·.2)

/-- The work queue of `ProcessBlock`. -/
def processWorkQueue (env : Env) (a : IncomingBlock) : Nat → WorkState → Option WorkState
  | 0, _ => none
  | fuel + 1, w =>
    match w.vWorkQueue with
    | [] => some w
    | hashPrev :: rest =>
      let w := (orphansByPrev w.state hashPrev).foldl (processOrphan env a)
        { w with vWorkQueue := rest }
      processWorkQueue env a fuel { w with state := { w.state with
        mapOrphanBlocksByPrev := w.state.mapOrphanBlocksByPrev.filter fun e => e.1 ≠ hashPrev } }

/-- `ProcessBlock(pfrom, pblock)`, without the masternode payments at its end. -/
def processBlock (env : Env) (fuel : Nat) (a : IncomingBlock) (s : BlockNode) :
    Option ProcessResult :=
  let block := a.block
  let hash := env.getBlockHash block
  if (s.node.mapBlockIndex hash).isSome then
    some ⟨s, error "ProcessBlock() : already have block", [], []⟩
  else if (s.mapOrphanBlocks.lookup hash).isSome then
    some ⟨s, error "ProcessBlock() : already have block (orphan)", [], []⟩
  else if !a.fReindex && !a.fImporting && block.isProofOfStake &&
      decide (block.getProofOfStake ∈ s.node.setStakeSeen) && !hasOrphanChild s hash then
    some ⟨s, error "ProcessBlock() : duplicate proof-of-stake", [], []⟩
  else if !isCanonicalBlockSignature a then
    some ⟨s, error "ProcessBlock(): bad block signature encoding", [], [false]⟩
  else
    match checkBlock env a.ctx (s.node.pindexBest.bind s.node.mapBlockIndex) block true true true with
    | .error _ => some ⟨s, error "ProcessBlock() : CheckBlock FAILED", [], [true, false]⟩
    | .ok () =>
      if (s.node.mapBlockIndex block.hashPrevBlock).isNone then storeOrphan env fuel a s
      else
        match acceptBlock env (a.acceptCtx hash) s.node block with
        | .error (_, node) =>
          some ⟨{ s with node := node }, error "ProcessBlock() : AcceptBlock FAILED", [],
            [true, true, false]⟩
        | .ok node => do
          let w ← processWorkQueue env a fuel ⟨{ s with node := node }, [hash], [true, true, true]⟩
          return ⟨w.state, .ok (), [], w.verdicts⟩

end Sphinx
