import Sphinx.Bignum
import Sphinx.Primitives.Inputs

/-!
# Proof of stake

`CheckProofOfStake`, `CheckStakeKernelHash` and `ComputeNextStakeModifier` of `stake.cpp`, with what they call.

`hashKernel` is the hash of the stake modifier, the time of the previous transaction, the kernel and the time of the
coinstake.  The previous transaction is looked up through a handle of its own, which sees what has been committed.

`hashSelection` is the hash of the proof hash of a candidate and the previous modifier.  `mapSelectedBlocks` is the
list of its blocks, in the order of the rounds.  The selection map that is printed is left out.
-/

namespace Sphinx

open CBigNum

/-! ### Kernels -/

/-- `nStakeMinAge`, in seconds. -/
def nStakeMinAge : Nat := 1 * 60 * 60

def nStakeMinConfirmations : Nat := 180

/-- `CheckStakeKernelHash`: `hashProofOfStake` and `targetProofOfStake`. -/
def checkStakeKernelHash (hashKernel : Uint256 → Nat → COutPoint → Nat → Uint256)
    (pindexPrev : CBlockIndex) (nBits nTimeBlockFrom : Nat) (txPrev : CTransaction)
    (prevout : COutPoint) (nTimeTx : Nat) : Except Reject (Uint256 × Uint256) := do
  rejectIf (nTimeTx < txPrev.nTime) 0 "CheckStakeKernelHash() : nTime violation"
  -- the sum of two `unsigned int`
  rejectIf (nTimeTx < (nTimeBlockFrom + nStakeMinAge) % 2 ^ 32) 0
    "CheckStakeKernelHash() : min age violation"
  let nValueIn := (txPrev.vout.getD prevout.n ⟨0, [], 0⟩).nValue
  let bnTarget := setCompact nBits * nValueIn
  let hashProofOfStake := hashKernel pindexPrev.bnStakeModifierV2 txPrev.nTime prevout nTimeTx
  rejectIf (bnTarget < hashProofOfStake) 0 ""
  return (hashProofOfStake, getuint256 bnTarget)

/-- `txPrev.ReadFromDisk(txdb, prevout, txindex)`. -/
def readTxPrev (env : Env) (txdb : CTxDB) (prevout : COutPoint) : Option (CTransaction × CTxIndex) := do
  let txindex ← txdb.readTxIndex prevout.hash
  let txPrev ← env.readTxFromDisk txindex.pos
  if txPrev.vout.length ≤ prevout.n then none else return (txPrev, txindex)

/-- `block.ReadFromDisk(nFile, nBlockPos, false)` of the block a transaction is in; the header is not
checked. -/
def readHeaderAt (env : Env) : CDiskTxPos → Option CBlock
  | .null => none
  | .pos nFile nBlockPos _ => env.files.readBlock nFile nBlockPos

def checkProofOfStake (env : Env) (hashKernel : Uint256 → Nat → COutPoint → Nat → Uint256)
    (node : Node) (pindexPrev : CBlockIndex) (tx : CTransaction) (nBits : Nat) :
    Except Reject (Uint256 × Uint256) := do
  rejectIf (!tx.isCoinStake) 0 "CheckProofOfStake() : called on non-coinstake"
  let txin := tx.vin.headD ⟨COutPoint.null, [], 0⟩
  let txdb : CTxDB := { node.txdb with activeBatch := none }
  match readTxPrev env txdb txin.prevout with
  | none => dos 1 "CheckProofOfStake() : INFO: read txPrev failed"
  | some (txPrev, txindex) =>
    rejectIf (!env.verifySignature txPrev tx 0 0 0) 100
      "CheckProofOfStake() : VerifySignature failed on coinstake"
    match readHeaderAt env txindex.pos with
    | none => error "CheckProofOfStake() : read block failed"
    | some block =>
      rejectIf (isConfirmedInNPrevBlocks node.mapBlockIndex txindex (some pindexPrev.hashBlock)
        (nStakeMinConfirmations - 1)).isSome 100 "CheckProofOfStake() : tried to stake at depth"
      match checkStakeKernelHash hashKernel pindexPrev nBits block.nTime txPrev txin.prevout tx.nTime with
      | .error _ => dos 1 "CheckProofOfStake() : INFO: check kernel failed on coinstake"
      | .ok proof => return proof

/-! ### The stake modifier -/

/-- `nModifierInterval`, in seconds. -/
def nModifierInterval : Nat := 2 * 60

def MODIFIER_INTERVAL_RATIO : Nat := 3

namespace CBlockIndex

def getStakeEntropyBit (pindex : CBlockIndex) : Nat := (pindex.nFlags &&& BLOCK_STAKE_ENTROPY) >>> 1

def generatedStakeModifier (pindex : CBlockIndex) : Bool := pindex.nFlags &&& BLOCK_STAKE_MODIFIER ≠ 0

end CBlockIndex

/-- `GetStakeModifierSelectionIntervalSection`, for `nSection` from 0 to 63. -/
def getStakeModifierSelectionIntervalSection (nSection : Nat) : Nat :=
  nModifierInterval * 63 / (63 + ((63 - nSection) * ( MODIFIER_INTERVAL_RATIO - 1)))

def getStakeModifierSelectionInterval : Nat :=
  ((List.range 64).map getStakeModifierSelectionIntervalSection).sum

section

variable (hashSelection : Uint256 → Nat → Uint256) (mapBlockIndex : BlockMap)

/-- A block and the blocks before it, down to the first. -/
def ancestors (pindex : CBlockIndex) : List CBlockIndex :=
  pprevChain mapBlockIndex (pindex.nHeight + 1) (some pindex.hashBlock)

/-- `GetLastStakeModifier`: the modifier and the time of the last block that generated one. -/
def getLastStakeModifier (pindex : CBlockIndex) : Except Reject (Nat × Int) :=
  match (ancestors mapBlockIndex pindex).find? CBlockIndex.generatedStakeModifier with
  | none => error "GetLastStakeModifier: no generation at genesis block"
  | some pindex => .ok (pindex.nStakeModifier, pindex.getBlockTime)

/-- The loop of `SelectBlockFromCandidates`; the result is the best block with its hash. -/
def selectLoop (mapSelectedBlocks : List CBlockIndex) (nSelectionIntervalStop : Int) (nStakeModifierPrev : Nat) :
    List (Int × Uint256) → Option (Uint256 × CBlockIndex) → Except Reject (Option (Uint256 × CBlockIndex))
  | [], best => .ok best
  | item :: items, best =>
    match mapBlockIndex item.2 with
    | none => error "SelectBlockFromCandidates: failed to find block index for candidate block"
    | some pindex =>
      if best.isSome && nSelectionIntervalStop < pindex.getBlockTime then .ok best
      else if mapSelectedBlocks.any fun selected => selected.hashBlock = pindex.hashBlock then
        selectLoop mapSelectedBlocks nSelectionIntervalStop nStakeModifierPrev items best
      else
        let hash := hashSelection pindex.hashProof nStakeModifierPrev
        -- proof-of-stake blocks are favored
        let hash := if pindex.isProofOfStake then hash >>> 32 else hash
        match best with
        | none =>
          selectLoop mapSelectedBlocks nSelectionIntervalStop nStakeModifierPrev items (some (hash, pindex))
        | some (hashBest, pindexSelected) =>
          selectLoop mapSelectedBlocks nSelectionIntervalStop nStakeModifierPrev items
            (some (if hash < hashBest then (hash, pindex) else (hashBest, pindexSelected)))

/-- `SelectBlockFromCandidates`: the block it selects, `none` if there is none. -/
def selectBlockFromCandidates (vSortedByTimestamp : List (Int × Uint256)) (mapSelectedBlocks : List CBlockIndex)
    (nSelectionIntervalStop : Int) (nStakeModifierPrev : Nat) : Except Reject (Option CBlockIndex) := do
  let best ← selectLoop hashSelection mapBlockIndex mapSelectedBlocks nSelectionIntervalStop nStakeModifierPrev
    vSortedByTimestamp none
  return best.map Prod.snd

/-- The locals of `ComputeNextStakeModifier` that its rounds change. -/
structure SelectionState where
  nSelectionIntervalStop : Int
  nStakeModifierNew : Nat := 0
  mapSelectedBlocks : List CBlockIndex := []

/-- One round of the selection. -/
def selectRound (vSortedByTimestamp : List (Int × Uint256)) (nStakeModifier : Nat) (st : SelectionState)
    (nRound : Nat) : Except Reject SelectionState := do
  let nSelectionIntervalStop := st.nSelectionIntervalStop + getStakeModifierSelectionIntervalSection nRound
  match ← selectBlockFromCandidates hashSelection mapBlockIndex vSortedByTimestamp st.mapSelectedBlocks
    nSelectionIntervalStop nStakeModifier with
  | none => error "ComputeNextStakeModifier: unable to select block at round"
  | some pindex => return {
      nSelectionIntervalStop := nSelectionIntervalStop
      nStakeModifierNew := st.nStakeModifierNew ||| pindex.getStakeEntropyBit <<< nRound
      mapSelectedBlocks := st.mapSelectedBlocks ++ [pindex] }

/-- The start of the selection interval. -/
def selectionIntervalStart (pindexPrev : CBlockIndex) : Int :=
  pindexPrev.getBlockTime / nModifierInterval * nModifierInterval - getStakeModifierSelectionInterval

/-- The candidate blocks, the newest first. -/
def stakeCandidates (pindexPrev : CBlockIndex) : List CBlockIndex :=
  (ancestors mapBlockIndex pindexPrev).takeWhile fun pindex =>
    selectionIntervalStart pindexPrev ≤ pindex.getBlockTime

/-- The order of `pair<int64_t, uint256>`. -/
def lePairTime (a b : Int × Uint256) : Bool := a.1 < b.1 || (a.1 = b.1 && a.2 ≤ b.2)

def vSortedByTimestamp (pindexPrev : CBlockIndex) : List (Int × Uint256) :=
  ((stakeCandidates mapBlockIndex pindexPrev).map fun pindex =>
    (pindex.getBlockTime, pindex.hashBlock)).reverse.mergeSort
    lePairTime

/-- The rounds of the selection. -/
def selectBlocks (pindexPrev : CBlockIndex) (nStakeModifier : Nat) : Except Reject SelectionState :=
  let sorted := vSortedByTimestamp mapBlockIndex pindexPrev
  (List.range (min 64 sorted.length)).foldlM (selectRound hashSelection mapBlockIndex sorted nStakeModifier)
    { nSelectionIntervalStop := selectionIntervalStart pindexPrev }

/-- `ComputeNextStakeModifier`: `nStakeModifier` and `fGeneratedStakeModifier`. -/
def computeNextStakeModifier (pindexPrev : Option Uint256) : Except Reject (Nat × Bool) :=
  match pindexPrev.bind mapBlockIndex with
  | none => .ok (0, true)
  | some pindexPrev => do
    let (nStakeModifier, nModifierTime) ← getLastStakeModifier mapBlockIndex pindexPrev
    if pindexPrev.getBlockTime / nModifierInterval ≤ nModifierTime / nModifierInterval then
      return (nStakeModifier, false)
    else
      let st ← selectBlocks hashSelection mapBlockIndex pindexPrev nStakeModifier
      return (st.nStakeModifierNew, true)

end

end Sphinx
