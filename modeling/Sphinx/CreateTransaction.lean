import Sphinx.AcceptToMemoryPool
import Sphinx.Script.Sign
import Sphinx.SelectCoins

/-!
# Making a payment

`CWallet::CreateTransaction` of `wallet.cpp`, for a list of payees and for one payee with a narration.

* A priority is a floating-point number: whether it allows a free transaction is a parameter.
* What is read of the key pool, the random numbers and the order of the coins can be different in every round of
  the fee loop.
* Supporting transactions (`vtxPrev`) are left out.
-/

namespace Sphinx

/-- `MAX_STANDARD_TX_SIZE`, that is `MAX_BLOCK_SIZE_GEN/5`. -/
def maxStandardTxSize : Nat := maxBlockSize / 2 / 5

def CTxOut.isDust (txout : CTxOut) : Bool :=
  (txout.nValue * 1000).tdiv (3 * ((txout.getSerializeSize : Int) + 148)) < minRelayTxFee

/-- The keys and the settings of a wallet that sends. -/
structure SendCtx extends CreditCtx where
  crypto : ScriptCrypto
  keystore : CKeyStore
  nTransactionFee : CAmount
  /-- `AllowFree(wtxNew.ComputePriority(dPriority, nBytes))`, for the coins and the signed transaction. -/
  allowFree : List COutPoint → CTransaction → Bool

/-- What is not known of a round of the fee loop. -/
structure SendRandom where
  /-- The attempts of `SelectCoins`. -/
  select : Nat → SelectRandom
  /-- The order of a set of coins. -/
  sortCoins : List COutPoint → List COutPoint
  sortCoins_perm : ∀ setCoins, (sortCoins setCoins).Perm setCoins
  /-- `reservekey.GetReservedKey(vchPubKey)`. -/
  reservedKey : Option Valtype
  /-- `GetRandInt(nMax + 1)`. -/
  getRandInt : Nat → Nat
  getRandInt_le : ∀ nMax, getRandInt nMax ≤ nMax

/-- Why `CreateTransaction` does not return true. -/
inductive SendStop
  /-- `return false` with `strFailReason`. -/
  | fail (strFailReason : String)
  /-- "should never fail, as we just unlocked". -/
  | assertion
deriving DecidableEq, Repr

/-- A call for a list of payees. -/
structure SendRequest where
  vecSend : List (CScript × CAmount)
  coinControl : Option CCoinControl := none
  coinType : AvailableCoinsType := .allCoins
  useIX : Bool := false

/-- The sum of the amounts, which is checked before each of them is added and at the end. -/
def sumAmounts : List (CScript × CAmount) → CAmount → Except SendStop CAmount
  | [], nValue => if nValue < 0 then .error (.fail "Transaction amounts must be positive") else .ok nValue
  | s :: vecSend, nValue =>
    if nValue < 0 then .error (.fail "Transaction amounts must be positive")
    else sumAmounts vecSend (nValue + s.2)

/-- `fOpReturn`: the script of an output without a value has to be a standard one. -/
def isOpReturn (txout : CTxOut) : Except SendStop Bool :=
  if txout.nValue = -1 || (!txout.isEmpty && txout.nValue = 0) then
    match txout.scriptPubKey.solver with
    | none => .error (.fail "Invalid scriptPubKey")
    | some (whichType, _) =>
      if whichType = .nonstandard then .error (.fail "Unknown transaction type")
      else .ok (decide (whichType = .nullData))
  else .ok false

/-- The output for a payee. -/
def payeeOutput (s : CScript × CAmount) : Except SendStop CTxOut := do
  let txout : CTxOut := { nValue := s.2, scriptPubKey := s.1 }
  let fOpReturn ← isOpReturn txout
  if !fOpReturn && txout.isDust then throw (.fail "Transaction amount too small")
  else return txout

/-- `strFailReason` of `SelectCoins`. -/
def selectFailReason (coinType : AvailableCoinsType) (useIX : Bool) : String :=
  (match coinType with
    | .allCoins => " Insufficient funds."
    | .onlyNot10000IfMN =>
      " Unable to locate enough Stashedsend non-denominated funds for this transaction."
    | .onlyNonDenominatedNot10000IfMN =>
      " Unable to locate enough Stashedsend non-denominated funds for this transaction that are not equal " ++
        "1000 SPHX."
    | .onlyDenominated =>
      " Unable to locate enough Stashedsend denominated funds for this transaction." ++
        " Stashedsend uses exact denominated amounts to send funds, you might simply need to anonymize some " ++
        "more coins.") ++
  if useIX then " InstantX requires inputs with at least 10 confirmations, you might need to wait a few minutes " ++
    "and try again."
  else ""

/-- `GetScriptForDestination(vchPubKey.GetID())`. -/
def scriptForKey (crypto : ScriptCrypto) (vchPubKey : Valtype) : CScript :=
  [UInt8.ofNat CScript.OP_DUP, UInt8.ofNat CScript.OP_HASH160] ++ CScript.pushVch (pubKeyID crypto vchPubKey) ++
    [UInt8.ofNat CScript.OP_EQUALVERIFY, UInt8.ofNat CScript.OP_CHECKSIG]

variable (env : Env) (ctx : SendCtx) (w : CWallet) (request : SendRequest)

/-- `scriptChange`. -/
def changeScript (random : SendRandom) : Except SendStop CScript :=
  match request.coinControl.bind CCoinControl.destChange with
  -- coin control: send change to custom address
  | some scriptChange => .ok scriptChange
  | none =>
    match random.reservedKey with
    | none => .error .assertion
    | some vchPubKey => .ok (scriptForKey ctx.crypto vchPubKey)

/-- The outputs with the change, and the fee: dust is added to the fee. -/
def addChange (random : SendRandom) (vout : List CTxOut) (nChange nFeeRet : CAmount) :
    Except SendStop (List CTxOut × CAmount) :=
  if 0 < nChange then do
    let scriptChange ← changeScript ctx request random
    let newTxOut : CTxOut := { nValue := nChange, scriptPubKey := scriptChange }
    if newTxOut.isDust then return (vout, nFeeRet + nChange)
    -- insert change txn at random position
    else return (vout.insertIdx (random.getRandInt vout.length) newTxOut, nFeeRet)
  else return (vout, nFeeRet)

/-- A round of the loop that signs. -/
def signSendInput (txNew : CTransaction) (c : COutPoint × Nat) : Except SendStop CTransaction :=
  let fromPubKey := ((w.coinTx c.1).tx.vout.getD c.1.n { nValue := -1, scriptPubKey := [] }).scriptPubKey
  match signSignature ctx.crypto ctx.keystore fromPubKey txNew c.2 1 with
  | (true, txNew) => .ok txNew
  | (false, _) => .error (.fail " Signing transaction failed")

/-- The result of a round of the fee loop. -/
inductive SendRound
  /-- `continue`. -/
  | again (nFeeRet : CAmount)
  | done (tx : CTransaction) (nFeeRet : CAmount)

/-- The transaction of a round and what is paid for it: the coins, the signed transaction and `nFeeRet`. -/
def buildSend (wtxNew : CTransaction) (nValue nFeeRet : CAmount) (random : SendRandom) :
    Except SendStop (List COutPoint × CTransaction × CAmount) := do
  let vout ← request.vecSend.mapM payeeOutput
  let selected := w.selectCoins env ctx.toCreditCtx (nValue + nFeeRet)
    ⟨wtxNew.nTime, request.coinControl, request.coinType, request.useIX⟩ random.select
  if !selected.fOk then throw (.fail (selectFailReason request.coinType request.useIX))
  let setCoins := random.sortCoins selected.setCoinsRet
  let nChange := selected.nValueRet - nValue - nFeeRet
  -- over pay for denominated transactions
  let (nFeeRet, nChange) :=
    if request.coinType = .onlyDenominated then (nFeeRet + nChange, 0) else (nFeeRet, nChange)
  let (vout, nFeeRet) ← addChange ctx request random vout nChange nFeeRet
  let vin := setCoins.map fun o => ({ prevout := ⟨env.getHash (w.coinTx o).tx, o.n⟩ } : CTxIn)
  let txNew ← setCoins.zipIdx.foldlM (signSendInput ctx w) { wtxNew with vin := vin, vout := vout }
  if maxStandardTxSize ≤ txNew.getSerializeSize then throw (.fail " Transaction too large")
  else return (setCoins, txNew, nFeeRet)

/-- The fee that a transaction has to include: `max(nPayFee, nMinFee)`. -/
def requiredFee (setCoins : List COutPoint) (txNew : CTransaction) : CAmount :=
  let nBytes := txNew.getSerializeSize
  let nPayFee := ctx.nTransactionFee * (1 + (nBytes / 1000 : Nat))
  let nMinFee := getMinFee txNew nBytes (ctx.allowFree setCoins txNew) .send
  max nPayFee nMinFee

/-- A round of the fee loop. -/
def sendRound (wtxNew : CTransaction) (nValue nFeeRet : CAmount) (random : SendRandom) :
    Except SendStop SendRound := do
  let (setCoins, txNew, nFeeRet) ← buildSend env ctx w request wtxNew nValue nFeeRet random
  let nFee := requiredFee ctx setCoins txNew
  -- check that enough fee is included
  if nFeeRet < nFee then return .again (if request.useIX then max cent nFee else nFee)
  else return .done txNew nFeeRet

/-- The fee loop, with the number of rounds left and of those before; `none` if the rounds do not suffice. -/
def sendLoop (wtxNew : CTransaction) (nValue : CAmount) (random : Nat → SendRandom) :
    Nat → Nat → CAmount → Option (Except SendStop (CTransaction × CAmount))
  | 0, _, _ => none
  | rounds + 1, n, nFeeRet =>
    match sendRound env ctx w request wtxNew nValue nFeeRet (random n) with
    | .error e => some (.error e)
    | .ok (.again nFeeRet) => sendLoop wtxNew nValue random rounds (n + 1) nFeeRet
    | .ok (.done tx nFeeRet) => some (.ok (tx, nFeeRet))

/-- `wtxNew` at the end. -/
def SendRequest.finish (wtxNew : CWalletTx) (tx : CTransaction) : CWalletTx :=
  { wtxNew.markDirty with
    tx := tx
    fFromMe := true
    mapValue := if request.coinType = .onlyDenominated then wtxNew.mapValue.insert "DS" "1" else wtxNew.mapValue }

/-- `nFeeRet` before the fee loop. -/
def startFee : CAmount := if request.useIX then max cent ctx.nTransactionFee else ctx.nTransactionFee

/-- `CreateTransaction(vecSend, wtxNew, reservekey, nFeeRet, nChangePos, strFailReason, coinControl, coin_type,
useIX)`: `wtxNew` and `nFeeRet` if it returns true. -/
def createTransaction (rounds : Nat) (random : Nat → SendRandom) (wtxNew : CWalletTx) :
    Option (Except SendStop (CWalletTx × CAmount)) :=
  if request.vecSend.isEmpty then some (.error (.fail "Transaction amounts must be positive"))
  else
    match sumAmounts request.vecSend 0 with
    | .error e => some (.error e)
    | .ok nValue =>
      (sendLoop env ctx w request wtxNew.tx nValue random rounds 0 (startFee ctx request)).map fun result =>
        result.map fun r => (request.finish wtxNew r.1, r.2)

/-! ### Narrations -/

/-- `CScript() << OP_RETURN << vNDesc << OP_RETURN << vNarr`. -/
def narrationScript (sNarr : Valtype) : CScript :=
  [UInt8.ofNat CScript.OP_RETURN] ++ CScript.pushVch [0x6e, 0x70] ++ [UInt8.ofNat CScript.OP_RETURN] ++
    CScript.pushVch sNarr

/-- `CreateTransaction(scriptPubKey, nValue, sNarr, wtxNew, reservekey, nFeeRet, coinControl)`. -/
def createTransactionNarr (rounds : Nat) (random : Nat → SendRandom) (wtxNew : CWalletTx) (scriptPubKey : CScript)
    (nValue : CAmount) (sNarr : Valtype) (coinControl : Option CCoinControl) :
    Option (Except SendStop (CWalletTx × CAmount)) :=
  let vecSend := [(scriptPubKey, nValue)]
  let vecSend := if 0 < sNarr.length then vecSend ++ [(narrationScript sNarr, 0)] else vecSend
  createTransaction env ctx w { vecSend := vecSend, coinControl := coinControl } rounds random wtxNew

/-- The plaintext narration that `FindStealthTransactions` finds in a script. -/
def plainNarration (scriptPubKey : CScript) : Option Valtype :=
  let r := CScript.getOp2 scriptPubKey
  if !r.ok || r.opcodeRet ≠ CScript.OP_RETURN then none
  else
    let r := CScript.getOp2 r.pc
    -- an ephemeral public key
    if r.ok && r.vchRet.length = 33 then none
    else if [0x6e, 0x70].isPrefixOf r.vchRet then
      let r := CScript.getOp2 r.pc
      if !r.ok || r.opcodeRet ≠ CScript.OP_RETURN then none
      else
        let r := CScript.getOp2 r.pc
        if !r.ok || r.vchRet.isEmpty then none else some r.vchRet
    else none

/-- The outputs and texts that `FindStealthTransactions` enters in `mapNarr`: "plaintext narration always matches
preceding value output". -/
def plainNarrations (tx : CTransaction) : List (Int × Valtype) :=
  tx.vout.zipIdx.filterMap fun e =>
    (plainNarration e.1.scriptPubKey).map fun vchENarr => ((e.2 : Int) - 1, vchENarr)

end Sphinx
