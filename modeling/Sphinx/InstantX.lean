import Sphinx.AcceptToMemoryPool
import Sphinx.Util.Loop

/-!
# InstantX

The transaction locks of `instantx.cpp`: `ProcessMessageInstantX` with the messages `txlreq` and
`txlvote`, and `CleanTransactionLocksList`.  `InstantX` holds the maps of the file.

`IxCtx` holds what these functions ask of the rest of the node: the clock, the sporks, the masternode
list and `GetTransaction`.  Messages sent to peers and calls of the wallet are left out.

When a lock is complete although the request was rejected, the source calls
`block.DisconnectBlock(txdb, pindex)` with a null `pindex`, which is dereferenced.  The functions below
are `none` in this case.
-/

namespace Sphinx

def instantXSignaturesRequired : Int := 10

def instantXSignaturesTotal : Int := 15

structure CConsensusVote where
  vinMasternode : CTxIn
  txHash : Uint256
  nBlockHeight : Int
  vchMasterNodeSignature : List UInt8 := []
deriving DecidableEq, Repr

/-- `CConsensusVote::GetHash`: a sum of 256-bit numbers. -/
def CConsensusVote.getHash (vote : CConsensusVote) : Uint256 :=
  (vote.vinMasternode.prevout.hash + vote.vinMasternode.prevout.n + vote.txHash) % 2 ^ 256

structure CTransactionLock where
  nBlockHeight : Int
  txHash : Uint256
  vecConsensusVotes : List CConsensusVote := []
  nExpiration : Int
  nTimeout : Int
deriving DecidableEq, Repr

namespace CTransactionLock

def addSignature (lock : CTransactionLock) (cv : CConsensusVote) : CTransactionLock :=
  { lock with vecConsensusVotes := lock.vecConsensusVotes ++ [cv] }

/-- `CountSignatures`: only the votes for the block height of the transaction count. -/
def countSignatures (lock : CTransactionLock) : Int :=
  if lock.nBlockHeight = 0 then -1
  else lock.vecConsensusVotes.countP fun v => v.nBlockHeight = lock.nBlockHeight

end CTransactionLock

/-- The maps of `instantx.cpp`. -/
structure InstantX where
  mapTxLockReq : StdMap Uint256 CTransaction := ∅
  mapTxLockReqRejected : StdMap Uint256 CTransaction := ∅
  mapTxLockVote : StdMap Uint256 CConsensusVote := ∅
  mapTxLocks : StdMap Uint256 CTransactionLock := ∅
  mapLockedInputs : StdMap COutPoint Uint256 := ∅
  mapUnknownVotes : StdMap Uint256 Int := ∅

/-- What the functions of `instantx.cpp` read of the rest of the node. -/
structure IxCtx where
  ctx : Ctx
  /-- `GetTime()`. -/
  nTime : Int
  fLiteMode : Bool
  /-- `IsSporkActive(SPORK_2_INSTANTX)`. -/
  fInstantX : Bool
  /-- `stashedSendPool.IsBlockchainSynced()`. -/
  fBlockchainSynced : Bool
  /-- `GetSporkValue(SPORK_5_MAX_VALUE)`. -/
  nMaxValue : Int
  /-- `GetTransaction(hash, tx, hashBlock)`: the transaction and the hash of its block, if the function
  returns true; the hash is zero if the block is not known. -/
  getTransaction : Uint256 → Option (CTransaction × Uint256)
  /-- `mnodeman.GetMasternodeRank(vin, nBlockHeight, MIN_INSTANTX_PROTO_VERSION)`. -/
  getMasternodeRank : CTxIn → Int → Int
  /-- `SignatureValid()`. -/
  signatureValid : CConsensusVote → Bool
  fMasterNode : Bool
  /-- `activeMasternode.vin`. -/
  activeVin : CTxIn
  /-- `Sign()`: the signature, if the function returns true. -/
  sign : CConsensusVote → Option (List UInt8)

/-- The part of the environment that `AcceptToMemoryPool` and `CheckBlock` see. -/
def InstantX.ctx (ix : InstantX) (ctx : Ctx) : Ctx :=
  { ctx with mapLockedInputs := fun o => ix.mapLockedInputs.lookup o }

section

variable (env : Env) (c : IxCtx) (node : Node)

/-! ### Requests -/

/-- `IsIXTXValid`.  An unknown input makes a transaction valid whatever its fee is. -/
def isIXTXValid (txCollateral : CTransaction) : Bool :=
  let nValueOut := (txCollateral.vout.map CTxOut.nValue).sum
  let inputs := txCollateral.vin.map fun i => (i.prevout.n, c.getTransaction i.prevout.hash)
  let missingTx := inputs.any fun (_, tx2) => tx2.isNone
  let nValueIn := (inputs.map fun (n, tx2) =>
    match tx2 with
    | none => 0
    | some (tx2, _) =>
      match tx2.vout[n]? with
      | none => 0
      | some txout => txout.nValue).sum
  if txCollateral.vout.length < 1 then false
  else if txCollateral.nLockTime ≠ 0 then false
  else if c.nMaxValue * coin < nValueOut then false
  else if missingTx then true
  else !decide (nValueIn - nValueOut < cent)

/-- `pindexBest->nHeight`. -/
def bestHeight : Int :=
  match node.pindexBest.bind node.mapBlockIndex with
  | none => 0
  | some pindexBest => pindexBest.nHeight

def getInputAge (vin : CTxIn) : Int :=
  match c.getTransaction vin.prevout.hash with
  | none => 0
  | some (_, hashBlock) =>
    match node.mapBlockIndex hashBlock with
    | none => 0
    | some pindex => bestHeight node - pindex.nHeight

/-- The loop of `CreateNewLock` over the inputs, last one first: the age found last, `none` if an input
is too new. -/
def inputAgeLoop : List CTxIn → Int → Option Int
  | [], nTxAge => some nTxAge
  | i :: rest, _ =>
    if getInputAge c node i < 9 then none else inputAgeLoop rest (getInputAge c node i)

section

variable (ix : InstantX)

/-- `CreateNewLock`: the block height returned, and the maps. -/
def createNewLock (tx : CTransaction) : Int × InstantX :=
  match inputAgeLoop c node tx.vin.reverse 0 with
  | none => (0, ix)
  | some nTxAge =>
    let hash := env.getHash tx
    let nBlockHeight := bestHeight node - nTxAge + 4
    let lock :=
      match ix.mapTxLocks.lookup hash with
      | none =>
        { nBlockHeight := nBlockHeight, nExpiration := c.nTime + 20 * 60, nTimeout := c.nTime + 60 * 5,
          txHash := hash }
      | some lock => { lock with nBlockHeight := nBlockHeight }
    (nBlockHeight, { ix with mapTxLocks := ix.mapTxLocks.insert hash lock })

def doConsensusVote (tx : CTransaction) (nBlockHeight : Int) : InstantX :=
  let n := c.getMasternodeRank c.activeVin nBlockHeight
  if !c.fMasterNode then ix
  else if n = -1 then ix
  else if instantXSignaturesTotal < n then ix
  else
    let vote : CConsensusVote :=
      { vinMasternode := c.activeVin, txHash := env.getHash tx, nBlockHeight := nBlockHeight }
    match c.sign vote with
    | none => ix
    | some vchSig =>
      let vote := { vote with vchMasterNodeSignature := vchSig }
      if !c.signatureValid vote then ix
      else { ix with mapTxLockVote := ix.mapTxLockVote.insert vote.getHash vote }

/-- `mapTxLocks[hash].nExpiration = GetTime()`, if there is such a lock. -/
def expireLock (hash : Uint256) : InstantX :=
  match ix.mapTxLocks.lookup hash with
  | none => ix
  | some lock => { ix with mapTxLocks := ix.mapTxLocks.insert hash { lock with nExpiration := c.nTime } }

/-- `CheckForConflictingLocks`: two conflicting locks cancel each other out. -/
def checkForConflictingLocks (tx : CTransaction) : Bool × InstantX :=
  let hash := env.getHash tx
  let conflict := tx.prevouts.findSome? fun o =>
    match ix.mapLockedInputs.lookup o with
    | none => none
    | some h => if h ≠ hash then some h else none
  match conflict with
  | none => (false, ix)
  | some h => (true, expireLock c (expireLock c ix hash) h)

/-- The loop that locks the inputs of a transaction, as far as they are not locked. -/
def lockInputs (tx : CTransaction) (hash : Uint256) : InstantX :=
  { ix with mapLockedInputs := tx.prevouts.foldl (MapLoop.insertNew hash) ix.mapLockedInputs }

/-- The request is not known and is well formed. -/
def acceptsRequest (tx : CTransaction) : Bool :=
  let hash := env.getHash tx
  !((ix.mapTxLockReq.lookup hash).isSome || (ix.mapTxLockReqRejected.lookup hash).isSome) &&
    isIXTXValid c tx &&
    !tx.vout.any fun o => !o.scriptPubKey.isNormalPaymentScript && !o.scriptPubKey.isUnspendable

/-- The end of `txlreq` for a transaction that is not accepted into the memory pool. -/
def rejectRequest (tx : CTransaction) : Option InstantX :=
  let hash := env.getHash tx
  let ix := { ix with mapTxLockReqRejected := ix.mapTxLockReqRejected.insert hash tx }
  let ix := lockInputs ix tx hash
  match ix.mapTxLocks.lookup hash with
  | none => some ix
  | some lock =>
    if instantXSignaturesRequired ≤ lock.countSignatures then
      let (fConflict, ix) := checkForConflictingLocks env c ix tx
      if fConflict then some ix else none
    else some ix

/-- The message `txlreq`. -/
def processLockRequest (tx : CTransaction) : Option (Node × InstantX) :=
  if !acceptsRequest env c ix tx then some (node, ix)
  else
    let (nBlockHeight, ix) := createNewLock env c node ix tx
    match acceptToMemoryPool env (ix.ctx c.ctx) node tx with
    | .ok node =>
      let ix := doConsensusVote env c ix tx nBlockHeight
      some (node, { ix with mapTxLockReq := ix.mapTxLockReq.insert (env.getHash tx) tx })
    | .error _ => (rejectRequest env c ix tx).map (node, ·)

end

/-! ### Votes -/

/-- `CTransaction()`. -/
def nullTransaction : CTransaction :=
  { nTime := (c.ctx.nAdjustedTime % 2 ^ 32).toNat, vin := [], vout := [] }

/-- The vote is added to the lock of its transaction, which is made if there is none. -/
def addVote (ix : InstantX) (vote : CConsensusVote) : CTransactionLock × InstantX :=
  let lock := (ix.mapTxLocks.lookup vote.txHash).getD
    { nBlockHeight := 0, nExpiration := c.nTime + 20 * 60, nTimeout := c.nTime + 60 * 5,
      txHash := vote.txHash }
  let lock := lock.addSignature vote
  (lock, { ix with mapTxLocks := ix.mapTxLocks.insert vote.txHash lock })

/-- The end of `ProcessConsensusVote` for a lock that is complete.  `mapTxLockReq[ctx.txHash]` makes an
empty entry if there is none. -/
def completeLock (ix : InstantX) (lock : CTransactionLock) (vote : CConsensusVote) :
    Option InstantX :=
  let tx := (ix.mapTxLockReq.lookup vote.txHash).getD (nullTransaction c)
  let ix := { ix with mapTxLockReq := MapLoop.insertNew tx ix.mapTxLockReq vote.txHash }
  let (fConflict, ix) := checkForConflictingLocks env c ix tx
  if fConflict then some ix
  else
    let ix :=
      if (ix.mapTxLockReq.lookup vote.txHash).isSome then lockInputs ix tx vote.txHash else ix
    if (ix.mapTxLockReqRejected.lookup lock.txHash).isSome then none else some ix

/-- `ProcessConsensusVote`: its result, and the maps. -/
def processConsensusVote (ix : InstantX) (vote : CConsensusVote) : Option (Bool × InstantX) :=
  let n := c.getMasternodeRank vote.vinMasternode vote.nBlockHeight
  if n = -1 then some (false, ix)
  else if instantXSignaturesTotal < n then some (false, ix)
  else if !c.signatureValid vote then some (false, ix)
  else
    let (lock, ix) := addVote c ix vote
    if instantXSignaturesRequired ≤ lock.countSignatures then
      (completeLock env c ix lock vote).map (true, ·)
    else some (true, ix)

def getAverageVoteTime (mapUnknownVotes : StdMap Uint256 Int) : Int :=
  (mapUnknownVotes.entries.map Sigma.snd).sum.tdiv mapUnknownVotes.entries.length

/-- The spam protection for votes on a transaction that is not known. -/
def noteUnknownVote (ix : InstantX) (vote : CConsensusVote) : InstantX :=
  if (ix.mapTxLockReq.lookup vote.txHash).isSome ||
    (ix.mapTxLockReqRejected.lookup vote.txHash).isSome then ix
  else
    let hash := vote.vinMasternode.prevout.hash
    let votes := MapLoop.insertNew (c.nTime + 60 * 10) ix.mapUnknownVotes hash
    let nVoteTime := (votes.lookup hash).getD 0
    if c.nTime < nVoteTime ∧ 60 * 10 < nVoteTime - getAverageVoteTime votes then
      { ix with mapUnknownVotes := votes }
    else { ix with mapUnknownVotes := votes.insert hash (c.nTime + 60 * 10) }

/-- The message `txlvote`. -/
def processLockVote (ix : InstantX) (vote : CConsensusVote) : Option InstantX :=
  if (ix.mapTxLockVote.lookup vote.getHash).isSome then some ix
  else
    let ix := { ix with mapTxLockVote := ix.mapTxLockVote.insert vote.getHash vote }
    (processConsensusVote env c ix vote).map fun (fProcessed, ix) =>
      if fProcessed then noteUnknownVote c ix vote else ix

/-! ### Messages -/

inductive IxMessage where
  | txlreq (tx : CTransaction)
  | txlvote (vote : CConsensusVote)

def processMessageInstantX (ix : InstantX) (msg : IxMessage) : Option (Node × InstantX) :=
  if c.fLiteMode then some (node, ix)
  else if !c.fInstantX then some (node, ix)
  else if !c.fBlockchainSynced then some (node, ix)
  else
    match msg with
    | .txlreq tx => processLockRequest env c node ix tx
    | .txlvote vote => (processLockVote env c ix vote).map (node, ·)

/-! ### Cleaning up -/

/-- `GetTime() > nExpiration`. -/
def CTransactionLock.expired (lock : CTransactionLock) : Bool := lock.nExpiration < c.nTime

/-- One round of `CleanTransactionLocksList`, for an entry of `mapTxLocks`. -/
def cleanLock (ix : InstantX) (it : Sigma fun _ : Uint256 => CTransactionLock) : InstantX :=
  let lock := it.2
  if lock.expired c then
    let ix :=
      match ix.mapTxLockReq.lookup lock.txHash with
      | none => ix
      | some tx =>
        { ix with
          mapLockedInputs := tx.prevouts.foldl (fun m o => m.erase o) ix.mapLockedInputs
          mapTxLockReq := ix.mapTxLockReq.erase lock.txHash
          mapTxLockReqRejected := ix.mapTxLockReqRejected.erase lock.txHash
          mapTxLockVote :=
            (lock.vecConsensusVotes.map CConsensusVote.getHash).foldl (fun m h => m.erase h) ix.mapTxLockVote }
    { ix with mapTxLocks := ix.mapTxLocks.erase it.1 }
  else ix

def cleanTransactionLocksList (ix : InstantX) : InstantX :=
  if node.pindexBest.isNone then ix else ix.mapTxLocks.entries.foldl (cleanLock c) ix

end

end Sphinx
