import Sphinx.BestChain
import Sphinx.Stake
import Mathlib.Data.Finset.Basic

/-!
# Making a block

`CreateNewBlock` (`miner.cpp`).  The first loop gives every transaction of the pool a priority, or lets it wait for
the pool transactions it spends from; the second one takes them from a heap and puts them into the block.

* A `double` is a value of an arbitrary type with the operations that are used.
* The heap may be any that keeps its elements: the first one is taken.
* A `COrphan*` is a position in `vOrphan`.  A popped element leaves `none` there, so that a pointer to it is seen to
  dangle.
* The clock stands still while the block is made.  `-printpriority` is left out.
-/

namespace Sphinx

/-- The operations on `double`. -/
structure DoubleOps (D : Type) where
  zero : D
  /-- `d += (double)nValueIn * nConf` -/
  addConf : D → CAmount → Int → D
  /-- `d /= nTxSize` -/
  divSize : D → Nat → D
  /-- `double(nFee) / (double(nTxSize)/1000.0)` -/
  perKb : CAmount → Nat → D
  /-- `d < n` -/
  lt : D → CAmount → Bool

structure TxPriority (D : Type) where
  dPriority : D
  dFeePerKb : D
  ptx : CTransaction

/-- The heap operations with `TxPriorityCompare(byFee)`. -/
structure PriorityHeap (D : Type) where
  makeHeap : Bool → List (TxPriority D) → List (TxPriority D)
  /-- `pop_heap` and `pop_back`, for a heap with the elements `x :: v` -/
  popHeap : Bool → TxPriority D → List (TxPriority D) → List (TxPriority D)
  /-- `push_back` and `push_heap` -/
  pushHeap : Bool → List (TxPriority D) → TxPriority D → List (TxPriority D)
  makeHeap_perm : ∀ byFee v, (makeHeap byFee v).Perm v
  popHeap_perm : ∀ byFee x v, (popHeap byFee x v).Perm v
  pushHeap_perm : ∀ byFee v x, (pushHeap byFee v x).Perm (x :: v)

structure COrphan (D : Type) where
  ptx : CTransaction
  setDependsOn : Finset Uint256
  dPriority : D
  dFeePerKb : D

/-- The settings and the wallet. -/
structure MinerCtx (D : Type) where
  double : DoubleOps D
  heap : PriorityHeap D
  /-- `-blockmaxsize`, if it is set -/
  blockMaxSize : Option Int := none
  /-- `-blockprioritysize` -/
  blockPrioritySize : Option Int := none
  /-- `-blockminsize` -/
  blockMinSize : Option Int := none
  nMinTxFee : CAmount := minTxFee
  fDebug : Bool := false
  /-- The script for the key that `GetReservedKey` gives -/
  reservedScript : Option CScript := none
  /-- `COINBASE_FLAGS` -/
  coinbaseFlags : CScript := []

/-- The value of an integer as `unsigned int`. -/
def toUnsigned (n : Int) : Nat := (n % 2 ^ 32).toNat

def maxBlockSizeGen : Nat := maxBlockSize / 2

namespace MinerCtx

variable {D : Type} (mctx : MinerCtx D)

/-- Limit to between 1K and `MAX_BLOCK_SIZE`-1K for sanity. -/
def nBlockMaxSize : Nat :=
  max 1000 (min (maxBlockSize - 1000) (toUnsigned (mctx.blockMaxSize.getD (maxBlockSizeGen / 2 : Nat))))

def nBlockPrioritySize : Nat := min mctx.nBlockMaxSize (toUnsigned (mctx.blockPrioritySize.getD 50000))

def nBlockMinSize : Nat := min mctx.nBlockMaxSize (toUnsigned (mctx.blockMinSize.getD 0))

end MinerCtx

variable {D : Type} (env : Env) (ctx : Ctx) (node : Node) (mctx : MinerCtx D)

def CTxIndex.getDepthInMainChain (txindex : CTxIndex) : Int :=
  match readHeaderAt env txindex.pos with
  | none => 0
  | some block =>
    match node.mapBlockIndex (env.getBlockHash block) with
    | none => 0
    | some pindex => if !isInMainChain node pindex then 0 else 1 + node.nBestHeight - pindex.nHeight

/-- `CTxDB txdb("r")`. -/
def Node.readTxDB : CTxDB := { node.txdb with activeBatch := none }

/-! ### The priorities -/

/-- The variables of the first loop. -/
structure PriorityState (D : Type) where
  vOrphan : List (Option (COrphan D)) := []
  mapDependers : StdMap Uint256 (List Nat) := ∅
  vecPriority : List (TxPriority D) := []

/-- The variables of its inner loop. -/
structure PriorityScan (D : Type) where
  vOrphan : List (Option (COrphan D))
  mapDependers : StdMap Uint256 (List Nat)
  porphan : Option Nat := none
  dPriority : D
  nTotalIn : CAmount := 0
  fMissingInputs : Bool := false

/-- `vOrphan.push_back(COrphan(&tx))`, unless there is one for `tx` already. -/
def PriorityScan.wait (scan : PriorityScan D) (tx : CTransaction) : PriorityScan D × Nat :=
  match scan.porphan with
  | some p => (scan, p)
  | none =>
    let orphan : COrphan D :=
      { ptx := tx, setDependsOn := ∅, dPriority := mctx.double.zero, dFeePerKb := mctx.double.zero }
    ({ scan with vOrphan := scan.vOrphan ++ [some orphan], porphan := some scan.vOrphan.length },
      scan.vOrphan.length)

/-- The orphan that `p` points to, changed by `f`. -/
def modifyOrphan (vOrphan : List (Option (COrphan D))) (p : Nat) (f : COrphan D → COrphan D) :
    List (Option (COrphan D)) := vOrphan.modify p (Option.map f)

/-- One round of the inner loop.  After `break` nothing is done any more. -/
def scanInput (tx : CTransaction) (scan : PriorityScan D) (prevout : COutPoint) : Except Reject (PriorityScan D) :=
  if scan.fMissingInputs then .ok scan
  else
    match readTxPrev env node.readTxDB prevout with
    | none =>
      match node.mempool.lookup prevout.hash with
      | none =>
        if mctx.fDebug then error "mempool transaction missing input"
        else
          .ok { scan with
            fMissingInputs := true
            vOrphan := match scan.porphan with
              | some p => scan.vOrphan.set p none
              | none => scan.vOrphan }
      | some txPrev =>
        let (scan, p) := scan.wait mctx tx
        match txPrev.vout[prevout.n]? with
        | none => error "vout[txin.prevout.n]"
        | some txout =>
          .ok { scan with
            mapDependers := scan.mapDependers.insert prevout.hash
              ((scan.mapDependers.lookup prevout.hash).getD [] ++ [p])
            vOrphan := modifyOrphan scan.vOrphan p fun porphan =>
              { porphan with setDependsOn := insert prevout.hash porphan.setDependsOn }
            nTotalIn := scan.nTotalIn + txout.nValue }
    | some (txPrev, txindex) =>
      let nValueIn := (txPrev.vout.getD prevout.n ⟨0, [], 0⟩).nValue
      .ok { scan with
        nTotalIn := scan.nTotalIn + nValueIn
        dPriority := mctx.double.addConf scan.dPriority nValueIn (txindex.getDepthInMainChain env node) }

/-- One round of the first loop. -/
def addPriority (nHeight : Nat) (st : PriorityState D) (tx : CTransaction) : Except Reject (PriorityState D) :=
  if tx.isCoinBase || tx.isCoinStake || !isFinalTx node.nBestHeight ctx.nAdjustedTime tx nHeight 0 then .ok st
  else do
    let scan ← tx.prevouts.foldlM (scanInput env node mctx tx)
      { vOrphan := st.vOrphan, mapDependers := st.mapDependers, dPriority := mctx.double.zero }
    if scan.fMissingInputs then
      return { st with vOrphan := scan.vOrphan, mapDependers := scan.mapDependers }
    let nTxSize := tx.getSerializeSize
    let dPriority := mctx.double.divSize scan.dPriority nTxSize
    let nValueOut ← tx.getValueOut
    let dFeePerKb := mctx.double.perKb (scan.nTotalIn - nValueOut) nTxSize
    match scan.porphan with
    | some p =>
      return { st with
        mapDependers := scan.mapDependers
        vOrphan := modifyOrphan scan.vOrphan p fun porphan =>
          { porphan with dPriority := dPriority, dFeePerKb := dFeePerKb } }
    | none =>
      return { st with
        mapDependers := scan.mapDependers
        vOrphan := scan.vOrphan
        vecPriority := st.vecPriority ++ [⟨dPriority, dFeePerKb, tx⟩] }

/-! ### The block -/

/-- The variables of the second loop; `vtx` are the transactions behind the coinbase. -/
structure TemplateState (D : Type) where
  vecPriority : List (TxPriority D)
  vOrphan : List (Option (COrphan D))
  mapTestPool : StdMap Uint256 CTxIndex := ∅
  vtx : List CTransaction := []
  nBlockSize : Nat := 1000
  nBlockSigOps : Nat := 100
  nFees : CAmount := 0
  fSortedByFee : Bool

/-- One round of the loop over `mapDependers[hash]`. -/
def releaseOrphan (hash : Uint256) (st : TemplateState D) (p : Nat) : Except Reject (TemplateState D) :=
  match st.vOrphan[p]? with
  | some (some porphan) =>
    if porphan.setDependsOn = ∅ then .ok st
    else
      let porphan := { porphan with setDependsOn := porphan.setDependsOn.erase hash }
      let st := { st with vOrphan := st.vOrphan.set p (some porphan) }
      if porphan.setDependsOn = ∅ then
        let x : TxPriority D := ⟨porphan.dPriority, porphan.dFeePerKb, porphan.ptx⟩
        .ok { st with vecPriority := mctx.heap.pushHeap st.fSortedByFee st.vecPriority x }
      else .ok st
  | _ => error "porphan dangles"

/-- Prioritize by fee once past the priority size or out of high-priority transactions. -/
def sortByFee (x : TxPriority D) (nTxSize : Nat) (st : TemplateState D) : TemplateState D :=
  if !st.fSortedByFee &&
      (mctx.nBlockPrioritySize ≤ st.nBlockSize + nTxSize || mctx.double.lt x.dPriority (coin * 144 / 250)) then
    { st with fSortedByFee := true, vecPriority := mctx.heap.makeHeap true st.vecPriority }
  else st

/-- Whether the limits let a transaction be tried. -/
def withinLimits (fProofOfStake : Bool) (nTimeCoinbase : Nat) (x : TxPriority D) (st : TemplateState D) : Bool :=
  let nTxSize := x.ptx.getSerializeSize
  -- Size limits
  !(mctx.nBlockMaxSize ≤ st.nBlockSize + nTxSize) &&
  -- Legacy limits on sigOps
  !(maxBlockSigOps ≤ st.nBlockSigOps + x.ptx.getLegacySigOpCount) &&
  -- Timestamp limit
  !(ctx.nAdjustedTime < x.ptx.nTime || (fProofOfStake && nTimeCoinbase < x.ptx.nTime)) &&
  -- Skip free transactions if we're past the minimum block size
  !(st.fSortedByFee && mctx.double.lt x.dFeePerKb mctx.nMinTxFee && mctx.nBlockMinSize ≤ st.nBlockSize + nTxSize)

/-- A transaction is added to the block, and those that wait for it are released. -/
def placeTx (mapDependers : StdMap Uint256 (List Nat)) (tx : CTransaction) (mapTestPoolTmp : StdMap Uint256 CTxIndex)
    (nTxSigOps : Nat) (nTxFees : CAmount) (st : TemplateState D) : Except Reject (TemplateState D) :=
  let hash := env.getHash tx
  ((mapDependers.lookup hash).getD []).foldlM (releaseOrphan mctx hash)
    { st with
      mapTestPool := mapTestPoolTmp.insert hash (CTxIndex.mk' .memoryPool tx.vout.length)
      vtx := st.vtx ++ [tx]
      nBlockSize := st.nBlockSize + tx.getSerializeSize
      nBlockSigOps := st.nBlockSigOps + nTxSigOps
      nFees := st.nFees + nTxFees }

/-- One round of the second loop, for the element `x` taken from the heap. -/
def tryTx (fProofOfStake : Bool) (pindexPrev : Uint256) (nTimeCoinbase : Nat)
    (mapDependers : StdMap Uint256 (List Nat)) (x : TxPriority D) (st : TemplateState D) :
    Except Reject (TemplateState D) :=
  let tx := x.ptx
  if !withinLimits ctx mctx fProofOfStake nTimeCoinbase x st then .ok st
  else
    let st := sortByFee mctx x tx.getSerializeSize st
    match fetchInputs env node.readTxDB node.mempool st.mapTestPool false true tx with
    | .error _ => .ok st
    | .ok mapInputs => do
      let nValueIn ← getValueIn tx mapInputs
      let nValueOut ← tx.getValueOut
      let nP2SHSigOps ← getP2SHSigOpCount tx mapInputs
      let nTxSigOps := tx.getLegacySigOpCount + nP2SHSigOps
      if maxBlockSigOps ≤ st.nBlockSigOps + nTxSigOps then return st
      match connectInputs env ctx node.mapBlockIndex tx mapInputs st.mapTestPool .memoryPool (some pindexPrev) false
          true mandatoryScriptVerifyFlags with
      | .error _ => return st
      | .ok mapTestPoolTmp =>
        placeTx env mctx mapDependers tx mapTestPoolTmp nTxSigOps (nValueIn - nValueOut) st

/-- The second loop, for at most `fuel` rounds. -/
def templateLoop (fProofOfStake : Bool) (pindexPrev : Uint256) (nTimeCoinbase : Nat)
    (mapDependers : StdMap Uint256 (List Nat)) : Nat → TemplateState D → Except Reject (TemplateState D)
  | 0, st => .ok st
  | fuel + 1, st =>
    match st.vecPriority with
    | [] => .ok st
    | x :: v => do
      let st ← tryTx env ctx node mctx fProofOfStake pindexPrev nTimeCoinbase mapDependers x
        { st with vecPriority := mctx.heap.popHeap st.fSortedByFee x v }
      templateLoop fProofOfStake pindexPrev nTimeCoinbase mapDependers fuel st

/-- The coinbase, `none` if there is no reserved key. -/
def newCoinbase (fProofOfStake : Bool) (nHeight : Nat) : Option CTransaction :=
  let nTime := toUnsigned ctx.nAdjustedTime
  if fProofOfStake then
    some { nTime := nTime
           vin := [⟨COutPoint.null, CScript.pushInt nHeight ++ mctx.coinbaseFlags, uintMax⟩]
           vout := [⟨0, [], -10⟩] }
  else
    mctx.reservedScript.map fun scriptPubKey =>
      { nTime := nTime, vin := [⟨COutPoint.null, [], uintMax⟩], vout := [⟨-1, scriptPubKey, -10⟩] }

def CBlock.getMaxTransactionTime (block : CBlock) : Int :=
  block.vtx.foldl (fun maxTransactionTime tx => max maxTransactionTime tx.nTime) 0

/-- The header, and for proof of work the reward. -/
def fillBlock (fProofOfStake : Bool) (pindexPrev : CBlockIndex) (nBits : Nat) (txNew : CTransaction)
    (vtx : List CTransaction) (nFees : CAmount) : CBlock :=
  let txNew := if fProofOfStake then txNew
    else { txNew with
      vout := txNew.vout.map fun txout => { txout with nValue := getCoinbaseValue (pindexPrev.nHeight + 1) nFees } }
  let block : CBlock :=
    { hashPrevBlock := pindexPrev.hashBlock, nTime := 0, nBits := nBits, vtx := txNew :: vtx }
  let nTime := max (pindexPrev.getPastTimeLimit + 1) block.getMaxTransactionTime
  -- UpdateTime
  let nTime := if fProofOfStake then nTime else max (toUnsigned nTime : Int) ctx.nAdjustedTime
  { block with nTime := toUnsigned nTime }

/-- `CreateNewBlock(reservekey, fProofOfStake, pFees)`: the block and `*pFees`. -/
def createNewBlock (fProofOfStake : Bool) : Except Reject (Option (CBlock × CAmount)) :=
  match node.pindexBest.bind node.mapBlockIndex with
  | none => error "pindexBest"
  | some pindexPrev =>
    let nHeight := pindexPrev.nHeight + 1
    match newCoinbase ctx mctx fProofOfStake nHeight with
    | none => .ok none
    | some txNew => do
      rejectIf (fProofOfStake && 100 < (CScript.pushInt nHeight ++ mctx.coinbaseFlags).length) 0
        "assert(txNew.vin[0].scriptSig.size() <= 100)"
      let nBits := env.getNextTargetRequired node.mapBlockIndex pindexPrev.hashBlock fProofOfStake
      let mapTx := node.mempool.mapTx.entries.map Sigma.snd
      let prio ← mapTx.foldlM (addPriority env ctx node mctx nHeight) {}
      let fSortedByFee := decide (mctx.nBlockPrioritySize = 0)
      let st ← templateLoop env ctx node mctx fProofOfStake pindexPrev.hashBlock txNew.nTime prio.mapDependers
        mapTx.length
        { vecPriority := mctx.heap.makeHeap fSortedByFee prio.vecPriority
          vOrphan := prio.vOrphan
          fSortedByFee := fSortedByFee }
      return some (fillBlock ctx fProofOfStake pindexPrev nBits txNew st.vtx st.nFees, st.nFees)

end Sphinx
