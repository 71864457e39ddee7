import Sphinx.Env

/-!
# The inputs of a transaction

`fetchInputs` collects the previous transactions and their index entries, `connectInputs` checks
them and marks the spent outputs, `disconnectInputs` undoes that in the database.  `fBlock` is true
when a block is connected, `fMiner` when a block template is made; both are false for the memory
pool.

A loop of the source is a `foldlM` of one of the definitions below over the inputs.
-/

namespace Sphinx

/-- `MapPrevTx`: the previous transactions by hash, each with its index entry. -/
abbrev MapPrevTx := StdMap Uint256 (CTxIndex × CTransaction)

def nCoinbaseMaturity : Nat := 99

/-- `STANDARD_NOT_MANDATORY_VERIFY_FLAGS`: `STRICTENC`, `NULLDUMMY` and
`DISCOURAGE_UPGRADABLE_NOPS`. -/
def standardNotMandatoryVerifyFlags : Nat := 2 ||| 16 ||| 128

def standardScriptVerifyFlags : Nat := 2 ||| 16 ||| 128

/-- `MANDATORY_SCRIPT_VERIFY_FLAGS`, `SCRIPT_VERIFY_NONE`. -/
def mandatoryScriptVerifyFlags : Nat := 0

def scriptVerifyNoCache : Nat := 1

/-- `IsConfirmedInNPrevBlocks(txindex, pindexFrom, nMaxDepth, nActualDepth)`: the depth, when the
block of the entry is one of the last `nMaxDepth` blocks up to `pindexFrom`. -/
def isConfirmedInNPrevBlocks (mapBlockIndex : BlockMap) (txindex : CTxIndex)
    (pindexFrom : Option Uint256) (nMaxDepth : Nat) : Option Int :=
  match pindexFrom.bind mapBlockIndex with
  | none => none
  | some start =>
    let near := (pprevChain mapBlockIndex (start.nHeight + 1) pindexFrom).takeWhile
      fun pindex => (start.nHeight : Int) - pindex.nHeight < nMaxDepth
    (near.find? fun pindex =>
      match txindex.pos with
      | .null => false
      | .pos nFile nBlockPos _ => pindex.nBlockPos = nBlockPos && pindex.nFile = nFile).map
      fun pindex => (start.nHeight : Int) - pindex.nHeight

/-! ### Fetching -/

/-- The index entry of a previous transaction: from the proposed changes of the block first, then
from the database. -/
def findTxIndex (txdb : CTxDB) (mapTestPool : StdMap Uint256 CTxIndex) (fBlock fMiner : Bool)
    (hash : Uint256) : Option CTxIndex :=
  match (if fBlock || fMiner then mapTestPool.lookup hash else none) with
  | some txindex => some txindex
  | none => txdb.readTxIndex hash

/-- A failed `FetchInputs` also says whether the transaction is definitely invalid. -/
abbrev FetchReject := Reject × Bool

/-- One round of the first loop of `FetchInputs`. -/
def fetchInput (env : Env) (txdb : CTxDB) (pool : CTxMemPool)
    (mapTestPool : StdMap Uint256 CTxIndex) (fBlock fMiner : Bool) (inputsRet : MapPrevTx)
    (prevout : COutPoint) : Except FetchReject MapPrevTx :=
  if (inputsRet.lookup prevout.hash).isSome then .ok inputsRet
  else
    match findTxIndex txdb mapTestPool fBlock fMiner prevout.hash with
    | none =>
      if fMiner then .error (⟨0, ""⟩, false)
      else if fBlock then .error (⟨0, "FetchInputs() : prev tx index entry not found"⟩, false)
      else
        match pool.lookup prevout.hash with
        | none => .error (⟨0, "FetchInputs() : mempool Tx prev not found"⟩, false)
        | some txPrev =>
          .ok (inputsRet.insert prevout.hash (CTxIndex.mk' .null txPrev.vout.length, txPrev))
    | some txindex =>
      if txindex.pos = CDiskTxPos.memoryPool then
        match pool.lookup prevout.hash with
        | none => .error (⟨0, "FetchInputs() : mempool Tx prev not found"⟩, false)
        | some txPrev => .ok (inputsRet.insert prevout.hash (txindex, txPrev))
      else
        match env.readTxFromDisk txindex.pos with
        | none => .error (⟨0, "FetchInputs() : ReadFromDisk prev tx failed"⟩, false)
        | some txPrev => .ok (inputsRet.insert prevout.hash (txindex, txPrev))

/-- One round of the second loop of `FetchInputs`: the output named must exist. -/
def checkPrevoutRange (inputs : MapPrevTx) (prevout : COutPoint) : Bool :=
  match inputs.lookup prevout.hash with
  | none => false
  | some (txindex, txPrev) =>
    prevout.n < txPrev.vout.length && prevout.n < txindex.vSpent.length

def fetchInputs (env : Env) (txdb : CTxDB) (pool : CTxMemPool)
    (mapTestPool : StdMap Uint256 CTxIndex) (fBlock fMiner : Bool) (tx : CTransaction) :
    Except FetchReject MapPrevTx :=
  if tx.isCoinBase then .ok ∅
  else do
    let inputs ← tx.prevouts.foldlM (fetchInput env txdb pool mapTestPool fBlock fMiner) ∅
    if tx.prevouts.all (checkPrevoutRange inputs) then .ok inputs
    else .error (⟨100, "FetchInputs() : prevout.n out of range"⟩, true)

/-- `GetOutputFor`; the source throws when the output is not there. -/
def getOutputFor (inputs : MapPrevTx) (prevout : COutPoint) : Except Reject CTxOut :=
  match inputs.lookup prevout.hash with
  | none => error "CTransaction::GetOutputFor() : prevout.hash not found"
  | some (_, txPrev) =>
    match txPrev.vout[prevout.n]? with
    | none => error "CTransaction::GetOutputFor() : prevout.n out of range"
    | some txout => .ok txout

def addValueIn (inputs : MapPrevTx) (nResult : CAmount) (prevout : COutPoint) :
    Except Reject CAmount := do
  let txout ← getOutputFor inputs prevout
  return nResult + txout.nValue

def getValueIn (tx : CTransaction) (inputs : MapPrevTx) : Except Reject CAmount :=
  if tx.isCoinBase then .ok 0 else tx.prevouts.foldlM (addValueIn inputs) 0

def addP2SHSigOps (inputs : MapPrevTx) (nSigOps : Nat) (txin : CTxIn) : Except Reject Nat := do
  let txout ← getOutputFor inputs txin.prevout
  return nSigOps + if CScript.isPayToScriptHash txout.scriptPubKey then
    CScript.getSigOpCountP2SH txout.scriptPubKey txin.scriptSig else 0

def getP2SHSigOpCount (tx : CTransaction) (inputs : MapPrevTx) : Except Reject Nat :=
  if tx.isCoinBase then .ok 0 else tx.vin.foldlM (addP2SHSigOps inputs) 0

/-! ### Connecting -/

/-- One round of the first loop of `ConnectInputs`, the inexpensive checks. -/
def checkInput (mapBlockIndex : BlockMap) (pindexBlock : Option Uint256) (tx : CTransaction)
    (inputs : MapPrevTx) (nValueIn : CAmount) (prevout : COutPoint) : Except Reject CAmount :=
  match inputs.lookup prevout.hash with
  | none => error "assert(inputs.count(prevout.hash) > 0)"
  | some (txindex, txPrev) => do
    rejectIf (txPrev.vout.length ≤ prevout.n || txindex.vSpent.length ≤ prevout.n) 100
      "ConnectInputs() : prevout.n out of range"
    rejectIf ((txPrev.isCoinBase || txPrev.isCoinStake) &&
      (isConfirmedInNPrevBlocks mapBlockIndex txindex pindexBlock nCoinbaseMaturity).isSome) 0
      "ConnectInputs() : tried to spend coinbase or coinstake at depth"
    rejectIf (tx.nTime < txPrev.nTime) 100
      "ConnectInputs() : transaction timestamp earlier than input transaction"
    let txout ← getOutputFor inputs prevout
    rejectIf (!moneyRange txout.nValue || !moneyRange (nValueIn + txout.nValue)) 100
      "ConnectInputs() : txin values out of range"
    return nValueIn + txout.nValue

/-- The signature check of one input.  It is skipped when a block is connected outside initial
block download. -/
def checkInputSig (env : Env) (ctx : Ctx) (tx txPrev : CTransaction) (i : Nat)
    (fBlock : Bool) (flags : Nat) (fValidateSig : Bool) : Except Reject Unit :=
  if fValidateSig && !(fBlock && !ctx.fInitialDownload) then
    if env.verifySignature txPrev tx i flags 0 then .ok ()
    else if flags &&& standardNotMandatoryVerifyFlags ≠ 0 &&
        env.verifySignature txPrev tx i
          (flags &&& (uintMax - standardNotMandatoryVerifyFlags)) 0 then
      error "ConnectInputs() : non-mandatory VerifySignature failed"
    else dos 100 "ConnectInputs() : VerifySignature failed"
  else .ok ()

/-- Mark output `n` of an index entry as spent at `p`. -/
def CTxIndex.setSpent (txindex : CTxIndex) (n : Nat) (p : CDiskTxPos) : CTxIndex :=
  { txindex with vSpent := txindex.vSpent.set n p }

/-- One round of the second loop of `ConnectInputs`: the output must not be spent yet, its
signature is checked, and it is marked as spent here. -/
def spendInput (env : Env) (ctx : Ctx) (tx : CTransaction) (posThisTx : CDiskTxPos)
    (fBlock fMiner : Bool) (flags : Nat) (fValidateSig : Bool)
    (st : MapPrevTx × StdMap Uint256 CTxIndex) (prevoutI : COutPoint × Nat) :
    Except Reject (MapPrevTx × StdMap Uint256 CTxIndex) :=
  let (inputs, mapTestPool) := st
  let (prevout, i) := prevoutI
  match inputs.lookup prevout.hash with
  | none => error "assert(inputs.count(prevout.hash) > 0)"
  | some (txindex, txPrev) => do
    rejectIf (!(txindex.vSpent.getD prevout.n .null).isNull) 0
      (if fMiner then "" else "ConnectInputs() : prev tx already used")
    checkInputSig env ctx tx txPrev i fBlock flags fValidateSig
    let txindex := txindex.setSpent prevout.n posThisTx
    return (inputs.insert prevout.hash (txindex, txPrev),
      if fBlock || fMiner then mapTestPool.insert prevout.hash txindex else mapTestPool)

/-- The end of `ConnectInputs`: only a coinstake may pay out more than it takes in. -/
def checkFee (tx : CTransaction) (nValueIn : CAmount) : Except Reject Unit :=
  if tx.isCoinStake then .ok ()
  else do
    let nValueOut ← tx.getValueOut
    rejectIf (nValueIn < nValueOut) 100 "ConnectInputs() : value in < value out"
    let nTxFee := nValueIn - nValueOut
    rejectIf (nTxFee < 0) 100 "ConnectInputs() : nTxFee < 0"
    rejectIf (!moneyRange (0 + nTxFee)) 100 "ConnectInputs() : nFees out of range"

/-- `ConnectInputs`; the result is the new `mapTestPool`. -/
def connectInputs (env : Env) (ctx : Ctx) (mapBlockIndex : BlockMap) (tx : CTransaction)
    (inputs : MapPrevTx) (mapTestPool : StdMap Uint256 CTxIndex) (posThisTx : CDiskTxPos)
    (pindexBlock : Option Uint256) (fBlock fMiner : Bool) (flags : Nat)
    (fValidateSig : Bool := true) :
    Except Reject (StdMap Uint256 CTxIndex) :=
  if tx.isCoinBase then .ok mapTestPool
  else do
    let nValueIn ← tx.prevouts.foldlM (checkInput mapBlockIndex pindexBlock tx inputs) 0
    let (_, mapTestPool) ← tx.prevouts.zipIdx.foldlM
      (spendInput env ctx tx posThisTx fBlock fMiner flags fValidateSig) (inputs, mapTestPool)
    checkFee tx nValueIn
    return mapTestPool

/-! ### Disconnecting -/

/-- One round of `DisconnectInputs`.  A failed operation on the database leaves what it has written
so far, which the error carries. -/
def unspendInput (txdb : CTxDB) (prevout : COutPoint) : Except (Reject × CTxDB) CTxDB :=
  match txdb.readTxIndex prevout.hash with
  | none => .error (⟨0, "DisconnectInputs() : ReadTxIndex failed"⟩, txdb)
  | some txindex =>
    if txindex.vSpent.length ≤ prevout.n then
      .error (⟨0, "DisconnectInputs() : prevout.n out of range"⟩, txdb)
    else .ok (txdb.updateTxIndex prevout.hash (txindex.setSpent prevout.n .null))

def disconnectInputs (env : Env) (txdb : CTxDB) (tx : CTransaction) :
    Except (Reject × CTxDB) CTxDB := do
  let txdb ← if tx.isCoinBase then .ok txdb else tx.prevouts.foldlM unspendInput txdb
  return txdb.eraseTxIndex (env.getHash tx)

/-! ### Coin age -/

/-- The value of an integer expression computed in `int64_t`. -/
def toInt64 (x : Int) : Int := (x + 2 ^ 63) % 2 ^ 64 - 2 ^ 63

theorem toInt64_of_nonneg {x : Int} (h : 0 ≤ x) (hx : x < 2 ^ 63) : toInt64 x = x := by
  unfold toInt64
  omega

/-- One round of `GetCoinAge`: the cent-seconds of the inputs counted so far. -/
def addCoinAge (env : Env) (mapBlockIndex : BlockMap) (txdb : CTxDB) (pindexPrev : Option Uint256)
    (tx : CTransaction) (bnCentSecond : Int) (prevout : COutPoint) : Except Reject Int :=
  match txdb.readTxIndex prevout.hash with
  | none => .ok bnCentSecond
  | some txindex =>
    match env.readTxFromDisk txindex.pos with
    | none => .ok bnCentSecond
    | some txPrev =>
      match txPrev.vout[prevout.n]? with
      | none => .ok bnCentSecond
      | some txout =>
        if tx.nTime < txPrev.nTime then .error ⟨0, ""⟩
        else if (isConfirmedInNPrevBlocks mapBlockIndex txindex pindexPrev (180 - 1)).isSome then
          .ok bnCentSecond
        else
          .ok (bnCentSecond +
            (toInt64 (txout.nValue * ((tx.nTime : Int) - (txPrev.nTime : Int)))).tdiv cent)

/-- `GetCoinAge`; `getuint64` drops the sign. -/
def getCoinAge (env : Env) (mapBlockIndex : BlockMap) (txdb : CTxDB)
    (pindexPrev : Option Uint256) (tx : CTransaction) : Except Reject Nat :=
  if tx.isCoinBase then .ok 0
  else do
    let bnCentSecond ← tx.prevouts.foldlM (addCoinAge env mapBlockIndex txdb pindexPrev tx) 0
    return (((bnCentSecond * cent).tdiv coin).tdiv (24 * 60 * 60)).natAbs % 2 ^ 64

end Sphinx
