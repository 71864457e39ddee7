import Sphinx.Primitives.Inputs

/-!
# Accepting a transaction into the memory pool

`AcceptToMemoryPool`, and `AcceptableInputs`, which repeats its checks for mixing and masternodes and stores nothing;
`GetMinFee` and the fee checks of both.

`acceptToMemoryPool` reads the database through a handle of its own, so an open batch of the caller
is not seen.  A transaction that is not accepted changes nothing.

The count of free transactions that the rate limiter keeps is not modelled: `fLimited` says whether it is
too high at the time of the call.
-/

namespace Sphinx

def maxTxSigOps : Nat := maxBlockSigOps / 5

/-- An outpoint of the transaction is locked for another transaction. -/
def conflictsWithLock (ctx : Ctx) (hash : Uint256) (tx : CTransaction) : Bool :=
  tx.prevouts.any fun o =>
    match ctx.mapLockedInputs o with
    | none => false
    | some h => h ≠ hash

section

variable (env : Env) (ctx : Ctx) (node : Node)

/-- The part of `AcceptToMemoryPool` after the inputs have been looked up in the database. -/
def acceptFetched (txdb : CTxDB) (tx : CTransaction) :
    Except Reject Unit := do
  let mapInputs ← (fetchInputs env txdb node.mempool ∅ false false tx).mapError Prod.fst
  rejectIf (!ctx.areInputsStandard tx) 0 "AcceptToMemoryPool : nonstandard transaction input"
  let nP2SH ← getP2SHSigOpCount tx mapInputs
  rejectIf (maxTxSigOps < tx.getLegacySigOpCount + nP2SH) 0 "AcceptToMemoryPool : too many sigops"
  let nValueIn ← getValueIn tx mapInputs
  let nValueOut ← tx.getValueOut
  rejectIf (!ctx.acceptFees tx (nValueIn - nValueOut)) 0 "AcceptToMemoryPool : not enough fees"
  let _ ← connectInputs env ctx node.mapBlockIndex tx mapInputs ∅ CDiskTxPos.memoryPool
    node.pindexBest false false standardScriptVerifyFlags
  let _ ← connectInputs env ctx node.mapBlockIndex tx mapInputs ∅ CDiskTxPos.memoryPool
    node.pindexBest false false mandatoryScriptVerifyFlags
  return ()

/-- The part of `AcceptToMemoryPool` that reads the database. -/
def acceptInputs (txdb : CTxDB) (hash : Uint256)
    (tx : CTransaction) : Except Reject Unit := do
  rejectIf (txdb.containsTx hash) 0 ""
  rejectIf (!tx.prevouts.all fun o => txdb.containsTx o.hash) 0 ""
  acceptFetched env ctx node txdb tx

def acceptToMemoryPool (tx : CTransaction) :
    Except Reject Node := do
  match tx.checkTransaction with
  | .error _ => error "AcceptToMemoryPool : CheckTransaction failed"
  | .ok () =>
    rejectIf tx.isCoinBase 100 "AcceptToMemoryPool : coinbase as individual tx"
    rejectIf tx.isCoinStake 100 "AcceptToMemoryPool : coinstake as individual tx"
    rejectIf (!ctx.isStandardTx tx) 0 "AcceptToMemoryPool : nonstandard transaction"
    let hash := env.getHash tx
    rejectIf (node.mempool.contains hash) 0 ""
    rejectIf (conflictsWithLock ctx hash tx) 0
      "AcceptToMemoryPool : conflicts with existing transaction lock"
    rejectIf (tx.prevouts.any fun o => (node.mempool.mapNextTx.lookup o).isSome) 0 ""
    acceptInputs env ctx node ⟨node.txdb.pdb, none⟩ hash tx
    return { node with
      mempool := node.mempool.addUnchecked hash tx
      walletSyncs := node.walletSyncs ++ [(tx, true)] }

/-- What `AcceptToMemoryPool` leaves in `*pfMissingInputs`: it is set where the function looks for the
inputs in the database, so only for a transaction that has passed the checks before. -/
def acceptMissingInputs (tx : CTransaction) : Bool :=
  let hash := env.getHash tx
  let txdb : CTxDB := ⟨node.txdb.pdb, none⟩
  tx.checkTransaction.isOk && !tx.isCoinBase && !tx.isCoinStake && ctx.isStandardTx tx &&
    !node.mempool.contains hash && !conflictsWithLock ctx hash tx &&
    !(tx.prevouts.any fun o => (node.mempool.mapNextTx.lookup o).isSome) &&
    !txdb.containsTx hash && !tx.prevouts.all fun o => txdb.containsTx o.hash

end

/-! ### The fee rules and the dry run -/

/-- `MIN_TX_FEE`, that is `0.0001*COIN`. -/
def minTxFee : CAmount := 10000

def minRelayTxFee : CAmount := minTxFee

def defaultBlockPrioritySize : Nat := 50000

/-- `GetMinFee_mode`: `GMF_BLOCK`, `GMF_RELAY` and `GMF_SEND`. -/
inductive GetMinFeeMode where
  | block
  | relay
  | send
deriving DecidableEq, Repr

def getMinFee (tx : CTransaction) (nBytes : Nat) (fAllowFree : Bool) (mode : GetMinFeeMode) : CAmount :=
  let nBaseFee := if mode = .relay then minRelayTxFee else minTxFee
  let nFreeSize := if mode = .send then 1000 else defaultBlockPrioritySize - 1000
  let nMinFee := if fAllowFree && nBytes < nFreeSize then 0 else (1 + (nBytes / 1000 : Nat)) * nBaseFee
  -- when sending, a fee if any output is less than a cent
  let nMinFee :=
    if nMinFee < nBaseFee && mode = .send && tx.vout.any fun txout => txout.nValue < cent then nBaseFee
    else nMinFee
  if !moneyRange nMinFee then maxMoney else nMinFee

/-- What a transaction of its size must pay to be relayed. -/
def relayFee (tx : CTransaction) : CAmount := getMinFee tx tx.getSerializeSize true .relay

/-- The arguments of both functions that the fee checks read, and `mapStashedsendBroadcastTxes`. -/
structure FeeArgs where
  fLimitFree : Bool
  fRejectInsaneFee : Bool
  mapStashedsendBroadcastTxes : Uint256 → Bool

/-- The checks of the fee where both functions make them: it is not too low, and a free transaction is not
stopped by the rate limiter. -/
def FeeArgs.highEnough (args : FeeArgs) (fLimited : Bool) (txMinFee nFees : CAmount) : Bool :=
  !(args.fLimitFree && nFees < txMinFee) && !(args.fLimitFree && nFees < minRelayTxFee && fLimited)

/-- The fee checks of `AcceptToMemoryPool`. -/
def memPoolFees (env : Env) (args : FeeArgs) (ignoreFees fLimited : Bool) (tx : CTransaction) (nFees : CAmount) :
    Bool :=
  (args.mapStashedsendBroadcastTxes (env.getHash tx) || ignoreFees ||
    args.highEnough fLimited (relayFee tx) nFees) &&
  !(args.fRejectInsaneFee && minRelayTxFee * 10000 < nFees)

/-- The fee checks of `AcceptableInputs`. -/
def dryRunFees (args : FeeArgs) (isDSTX fLimited : Bool) (tx : CTransaction) (nFees : CAmount) :
    Except Reject Unit := do
  rejectIf (!isDSTX && args.fLimitFree && nFees < relayFee tx) 0 "AcceptableInputs : not enough fees"
  rejectIf (!isDSTX && args.fLimitFree && nFees < minRelayTxFee && fLimited) 0
    "AcceptableInputs : free transaction rejected by rate limiter"
  -- the text says `MIN_RELAY_TX_FEE * 10000`
  rejectIf (args.fRejectInsaneFee && relayFee tx * 10000 < nFees) 0 "AcceptableInputs: : insane fees"

section

variable (env : Env) (ctx : Ctx) (node : Node) (args : FeeArgs)

/-- `AcceptToMemoryPool(pool, tx, fLimitFree, …, fRejectInsaneFee, ignoreFees)`. -/
def acceptToMemoryPoolWith (ignoreFees fLimited : Bool)
    (tx : CTransaction) : Except Reject Node :=
  acceptToMemoryPool env { ctx with acceptFees := memPoolFees env args ignoreFees fLimited } node tx

/-- The part of `AcceptableInputs` that reads the database. -/
def dryRunInputs (isDSTX fLimited : Bool) (txdb : CTxDB)
    (hash : Uint256) (tx : CTransaction) : Except Reject Unit := do
  rejectIf (txdb.containsTx hash) 0 ""
  let mapInputs ← (fetchInputs env txdb node.mempool ∅ false false tx).mapError Prod.fst
  let nP2SH ← getP2SHSigOpCount tx mapInputs
  rejectIf (maxTxSigOps < tx.getLegacySigOpCount + nP2SH) 0 "AcceptableInputs : too many sigops"
  let nValueIn ← getValueIn tx mapInputs
  let nValueOut ← tx.getValueOut
  dryRunFees args isDSTX fLimited tx (nValueIn - nValueOut)
  let _ ← connectInputs env ctx node.mapBlockIndex tx mapInputs ∅ CDiskTxPos.memoryPool
    node.pindexBest true false standardScriptVerifyFlags false
  return ()

def acceptableInputs (isDSTX fLimited : Bool)
    (tx : CTransaction) : Except Reject Unit := do
  match tx.checkTransaction with
  | .error _ => error "AcceptableInputs : CheckTransaction failed"
  | .ok () =>
    rejectIf tx.isCoinBase 100 "AcceptableInputs : coinbase as individual tx"
    rejectIf tx.isCoinStake 100 "AcceptableInputs : coinstake as individual tx"
    let hash := env.getHash tx
    rejectIf (node.mempool.contains hash) 0 ""
    rejectIf (conflictsWithLock ctx hash tx) 0
      "AcceptableInputs : conflicts with existing transaction lock"
    rejectIf (tx.prevouts.any fun o => (node.mempool.mapNextTx.lookup o).isSome) 0 ""
    dryRunInputs env ctx node args isDSTX fLimited ⟨node.txdb.pdb, none⟩ hash tx

end

end Sphinx
