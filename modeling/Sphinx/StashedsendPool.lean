import Sphinx.Masternode

/-!
# The mixing pool

`CStashedsendPool` of `stashedsend.h` and `stashedsend.cpp`: the session of a masternode, and what a
client signs.  Everything but `signFinalTransaction` is for a masternode: `fMasterNode` holds, and the
branches for clients are left out, as are messages to peers, the queue objects of other masternodes, the
coins locked in the wallet and the fees charged.

A result is `.error` with the text that the masternode replies.
-/

namespace Sphinx

/-- The `POOL_STATUS_*` values. -/
inductive PoolStatus
  | idle
  | queue
  | acceptingEntries
  | finalizeTransaction
  | signing
  | transmission
  | error
  | success
deriving DecidableEq, Repr

def stashedsendQueueTimeout : Int := 30
def stashedsendSigningTimeout : Int := 15

def stashedsendPoolMax : CAmount := 499999000000

/-- `GetMaxPoolTransactions()`. -/
def poolMaxTransactions : Int := 3

def stashedSendDenominations : List CAmount :=
  [100001000000, 10000100000, 1000010000, 100001000, 10000100]

/-- `VerifyScript(scriptSig, scriptPubKey, txTo, nIn, flags, nHashType)`. -/
abbrev ScriptVerifier := CScript → CScript → CTransaction → Nat → Nat → Int → Bool

/-- `SCRIPT_VERIFY_P2SH | SCRIPT_VERIFY_STRICTENC`. -/
def signingFlags : Nat := 3

/-- An order drawn by `std::random_shuffle`. -/
structure Shuffle (α : Type) where
  shuffle : List α → List α
  perm : ∀ l, (shuffle l).Perm l

/-- What the pool reads and does not change; it can be different at every call. -/
structure PoolCtx where
  /-- `GetTime()`. -/
  nTime : Int
  nTimeMillis : Int
  fLiteMode : Bool := false
  /-- More than an hour has passed since the last call to `IsBlockchainSynced`. -/
  fSlept : Bool := false
  fBlockchainSynced : Bool := true
  /-- `mnodeman.Find(activeMasternode.vin)` finds a masternode. -/
  fListed : Bool := true
  /-- The masternode has announced a queue too recently. -/
  fDsqTooRecent : Bool := false
  /-- `rand()`. -/
  rand : Nat := 0
  isCollateralValid : CTransaction → Bool
  /-- `AcceptableInputs` after `CheckTransaction`. -/
  acceptableInputs : CTransaction → Bool
  getTransaction : Uint256 → Option CTransaction
  /-- `nValueIn-nValueOut > nValueIn*.01`, in floating point. -/
  feesTooHigh : CAmount → CAmount → Bool
  shuffleIn : Shuffle CTxIn
  shuffleOut : Shuffle CTxOut
  /-- `AcceptToMemoryPool` of the final transaction. -/
  acceptToMemoryPool : CTransaction → Bool
  /-- `SetKey`, `SignMessage` and `VerifyMessage` succeed. -/
  fSigned : Bool := true

/-- `prevPubKey` is not serialized: it is empty in what comes from a peer. -/
structure CTxDSIn extends CTxIn where
  prevPubKey : CScript := []
  fHasSig : Bool := false
deriving DecidableEq, Repr

structure CStashedSendEntry where
  sev : List CTxDSIn
  vout : List CTxOut
  amount : CAmount
  collateral : CTransaction
  addedTime : Int
deriving DecidableEq, Repr

namespace CStashedSendEntry

/-- `Add`, for inputs from a peer. -/
def add (nTime : Int) (vinIn : List CTxIn) (amountIn : CAmount) (collateralIn : CTransaction)
    (voutIn : List CTxOut) : CStashedSendEntry where
  sev := vinIn.map fun txin => { txin with }
  vout := voutIn
  amount := amountIn
  collateral := collateralIn
  addedTime := nTime

/-- The loop of `AddSig`: the first input with the outpoint and sequence number decides. -/
def addSigLoop (vin : CTxIn) : List CTxDSIn → Option (List CTxDSIn)
  | [] => none
  | s :: sev =>
    if s.prevout = vin.prevout ∧ s.nSequence = vin.nSequence then
      if s.fHasSig then none
      else some ({ s with scriptSig := vin.scriptSig, prevPubKey := [], fHasSig := true } :: sev)
    else (addSigLoop vin sev).map (s :: ·)

/-- `AddSig`; `none` if it returns false. -/
def addSig (vin : CTxIn) (e : CStashedSendEntry) : Option CStashedSendEntry :=
  (addSigLoop vin e.sev).map fun sev => { e with sev := sev }

def isExpired (nTime : Int) (e : CStashedSendEntry) : Bool :=
  stashedsendQueueTimeout < nTime - e.addedTime

end CStashedSendEntry

/-- `GetDenominations`: a bit for each denomination that is used, or 0 if an output has another value. -/
def getDenominations (vout : List CTxOut) : Nat :=
  if vout.any fun out => out.nValue ∉ stashedSendDenominations then 0
  else stashedSendDenominations.zipIdx.foldl (fun denom (d, c) =>
    denom ||| ((if vout.any fun out => out.nValue = d then 1 else 0) <<< c)) 0

structure CStashedsendPool where
  entries : List CStashedSendEntry := []
  finalTransaction : CTransaction := { nTime := 0, vin := [], vout := [] }
  lastTimeChanged : Int := 0
  state : PoolStatus := .idle
  sessionID : Int := 0
  sessionUsers : Int := 0
  vecSessionCollateral : List CTransaction := []
  sessionDenom : Int := 0

namespace CStashedsendPool

variable (ctx : PoolCtx) (pool : CStashedsendPool)

def setNull : CStashedsendPool where
  finalTransaction := { pool.finalTransaction with vin := [], vout := [] }
  lastTimeChanged := ctx.nTimeMillis

/-- `UpdateState`.  A masternode does not go to `ERROR` or `SUCCESS`. -/
def updateState (newState : PoolStatus) : CStashedsendPool :=
  if newState = .error ∨ newState = .success then pool
  else
    { pool with
      lastTimeChanged := if pool.state ≠ newState then ctx.nTimeMillis else pool.lastTimeChanged
      state := newState }

def isSessionReady : Bool := poolMaxTransactions ≤ pool.sessionUsers

/-- The inputs of all entries, one entry after the other. -/
def inputs : List CTxDSIn := pool.entries.flatMap CStashedSendEntry.sev

/-- The outputs of all entries. -/
def outputs : List CTxOut := pool.entries.flatMap CStashedSendEntry.vout

def isCompatibleWithEntries (vout : List CTxOut) : Bool :=
  getDenominations vout ≠ 0 &&
    pool.entries.all fun v => getDenominations vout = getDenominations v.vout

def isCompatibleWithSession (nDenom : Int) (txCollateral : CTransaction) :
    Except String Unit × CStashedsendPool :=
  if nDenom = 0 then (.error "", pool)
  else if !ctx.isCollateralValid txCollateral then (.error "Collateral not valid.", pool)
  else
    let pool := if pool.sessionUsers < 0 then { pool with sessionUsers := 0 } else pool
    if pool.sessionUsers = 0 then
      let pool := updateState ctx { pool with
        sessionID := 1 + (ctx.rand % 999999 : Nat)
        sessionDenom := nDenom
        sessionUsers := pool.sessionUsers + 1
        lastTimeChanged := ctx.nTimeMillis } .queue
      (.ok (), { pool with vecSessionCollateral := pool.vecSessionCollateral ++ [txCollateral] })
    else if poolMaxTransactions ≤ pool.sessionUsers then (.error "Masternode queue is full.", pool)
    else if pool.state ≠ .acceptingEntries ∧ pool.state ≠ .queue then (.error "Incompatible mode.", pool)
    else if nDenom ≠ pool.sessionDenom then
      (.error "No matching denominations found for mixing.", pool)
    else (.ok (), { pool with
      sessionUsers := pool.sessionUsers + 1
      lastTimeChanged := ctx.nTimeMillis
      vecSessionCollateral := pool.vecSessionCollateral ++ [txCollateral] })

/-- The end of `AddEntry` that refuses the entry.  A user less is counted, whoever sent the entry. -/
def refuse (text : String) : Except String Unit × CStashedsendPool :=
  (.error text, { pool with sessionUsers := pool.sessionUsers - 1 })

def addEntry (newInput : List CTxIn) (nAmount : CAmount) (txCollateral : CTransaction)
    (newOutput : List CTxOut) : Except String Unit × CStashedsendPool :=
  if newInput.any fun txin => txin.prevout.isNull || decide (nAmount < 0) then
    pool.refuse "Input is not valid."
  else if !ctx.isCollateralValid txCollateral then pool.refuse "Collateral is not valid."
  else if poolMaxTransactions ≤ pool.entries.length then pool.refuse "Entries are full."
  else if newInput.any fun txin => pool.inputs.any fun s => s.toCTxIn = txin then
    pool.refuse "Already have that input."
  else (.ok (), { pool with
    entries := pool.entries ++ [.add ctx.nTime newInput nAmount txCollateral newOutput] })

/-! ### Signatures -/

/-- `SignatureValid`.  The input is looked up with its script; an input that is not found is not
checked. -/
def signatureValid (verifyScript : ScriptVerifier) (newSig : CScript) (newVin : CTxIn) : Bool :=
  let txNew : CTransaction :=
    { nTime := ctx.nTime.toNat, vin := pool.inputs.map CTxDSIn.toCTxIn, vout := pool.outputs }
  match pool.inputs.zipIdx.findRev? fun (s, _) => s.toCTxIn = newVin with
  | none => true
  | some (s, n) =>
    let vin := txNew.vin.modify n fun txin => { txin with scriptSig := newSig }
    verifyScript newSig s.prevPubKey { txNew with vin := vin } n signingFlags 0

/-- The loop of `AddScriptSig` over the entries. -/
def addSigToEntries (newVin : CTxIn) : List CStashedSendEntry → Option (List CStashedSendEntry)
  | [] => none
  | e :: entries =>
    match e.addSig newVin with
    | some e' => some (e' :: entries)
    | none => (addSigToEntries newVin entries).map (e :: ·)

/-- The loop of `AddScriptSig` over the inputs of the final transaction. -/
def signInputs (newVin : CTxIn) (vin : List CTxIn) : List CTxIn :=
  vin.map fun txin =>
    if newVin.prevout = txin.prevout ∧ txin.nSequence = newVin.nSequence then
      { txin with scriptSig := newVin.scriptSig }
    else txin

def addScriptSig (verifyScript : ScriptVerifier) (newVin : CTxIn) : Bool × CStashedsendPool :=
  if pool.inputs.any fun s => s.scriptSig = newVin.scriptSig then (false, pool)
  else if !pool.signatureValid ctx verifyScript newVin.scriptSig newVin then (false, pool)
  else
    let finalTransaction := { pool.finalTransaction with
      vin := signInputs newVin pool.finalTransaction.vin }
    let pool := { pool with finalTransaction := finalTransaction }
    match addSigToEntries newVin pool.entries with
    | some entries => (true, { pool with entries := entries })
    | none => (false, pool)

def signaturesComplete : Bool := pool.inputs.all CTxDSIn.fHasSig

/-! ### Progress -/

def checkFinalTransaction : CStashedsendPool :=
  if !ctx.acceptToMemoryPool pool.finalTransaction then
    (pool.setNull ctx).updateState ctx .acceptingEntries
  else if !ctx.fSigned then pool
  else pool.setNull ctx

/-- The part of `Check` that makes the final transaction. -/
def finalise : CStashedsendPool :=
  { pool.updateState ctx .signing with
    finalTransaction :=
      { nTime := ctx.nTime.toNat
        vin := ctx.shuffleIn.shuffle (pool.inputs.map CTxDSIn.toCTxIn)
        vout := ctx.shuffleOut.shuffle pool.outputs } }

def check : CStashedsendPool :=
  let pool := if pool.state = .acceptingEntries ∧ poolMaxTransactions ≤ pool.entries.length then
      pool.updateState ctx .finalizeTransaction
    else pool
  let pool := if pool.state = .finalizeTransaction then pool.finalise ctx else pool
  let pool := if pool.state = .signing ∧ pool.signaturesComplete then
      (pool.updateState ctx .transmission).checkFinalTransaction ctx
    else pool
  if (pool.state = .error ∨ pool.state = .success) ∧ 10000 ≤ ctx.nTimeMillis - pool.lastTimeChanged then
    pool.setNull ctx
  else pool

/-- The loop of `CheckTimeout` over the entries: the last entry takes the session with it. -/
def expireEntries : CStashedsendPool :=
  let kept := pool.entries.filter fun e => !e.isExpired ctx.nTime
  if kept.isEmpty && !pool.entries.isEmpty then pool.setNull ctx else { pool with entries := kept }

def checkTimeout : CStashedsendPool :=
  let pool :=
    if pool.state = .acceptingEntries ∨ pool.state = .queue then
      let pool := pool.expireEntries ctx
      if stashedsendQueueTimeout * 1000 ≤ ctx.nTimeMillis - pool.lastTimeChanged then pool.setNull ctx
      else pool
    else if stashedsendQueueTimeout * 1000 ≤ ctx.nTimeMillis - pool.lastTimeChanged then
      (pool.setNull ctx).updateState ctx .error
    else pool
  if pool.state = .signing ∧
      stashedsendSigningTimeout * 1000 ≤ ctx.nTimeMillis - pool.lastTimeChanged then
    (pool.setNull ctx).updateState ctx .error
  else pool

def checkForCompleteQueue : CStashedsendPool :=
  if pool.state = .queue ∧ pool.sessionUsers = poolMaxTransactions then
    pool.updateState ctx .acceptingEntries
  else pool

/-! ### Messages -/

/-- The checks of `dsi` on the inputs and outputs, like on a transaction. -/
def checkEntry (vin : List CTxIn) (vout : List CTxOut) : Except String Unit :=
  let tx : CTransaction := { nTime := ctx.nTime.toNat, vin := vin, vout := vout }
  let prevOuts := vin.map fun txin => (ctx.getTransaction txin.prevout.hash).map fun tx2 =>
    ((tx2.vout[txin.prevout.n]?).map CTxOut.nValue).getD 0
  let nValueIn := (prevOuts.map fun o => o.getD 0).sum
  let nValueOut := (vout.map CTxOut.nValue).sum
  match vout.find? fun o => o.scriptPubKey.length ≠ 25 ∨ !o.scriptPubKey.isNormalPaymentScript with
  | some o =>
    .error (if o.scriptPubKey.length ≠ 25 then "Non-standard public key detected."
      else "Invalid script detected.")
  | none =>
    if stashedsendPoolMax < nValueIn then .error "Value more than Stashedsend pool maximum allows."
    else if prevOuts.any Option.isNone then .error "Missing input transaction information."
    else if ctx.feesTooHigh nValueIn nValueOut then .error "Transaction fees are too high."
    else if !(tx.checkTransaction.isOk && ctx.acceptableInputs tx) then .error "Transaction not valid."
    else .ok ()

def processDsa (nVersion nDenom : Int) (txCollateral : CTransaction) :
    Except String Unit × CStashedsendPool :=
  if nVersion < minPoolPeerProtoVersion then (.error "Incompatible version.", pool)
  else if !ctx.fListed then (.error "Not in the Masternode list.", pool)
  else if pool.sessionUsers = 0 ∧ ctx.fDsqTooRecent then
    (.error "Last Stashedsend was too recent.", pool)
  else pool.isCompatibleWithSession ctx nDenom txCollateral

def processDsi (nVersion : Int) (vin : List CTxIn) (nAmount : CAmount) (txCollateral : CTransaction)
    (vout : List CTxOut) : Except String Unit × CStashedsendPool :=
  if nVersion < minPoolPeerProtoVersion then (.error "Incompatible version.", pool)
  -- do we have enough users in the current session?
  else if !pool.isSessionReady then (.error "Session not complete!", pool)
  -- do we have the same denominations as the current session?
  else if !pool.isCompatibleWithEntries vout then
    (.error "Not compatible with existing transactions.", pool)
  else
    match checkEntry ctx vin vout with
    | .error text => (.error text, pool)
    | .ok () =>
      match pool.addEntry ctx vin nAmount txCollateral vout with
      | (.ok (), pool) => (.ok (), pool.check ctx)
      | (.error text, pool) => (.error text, pool)

/-- A round of `dss`: whether a signature has been added so far, and the pool. -/
def addScriptSigRound (verifyScript : ScriptVerifier) (s : Bool × CStashedsendPool) (item : CTxIn) :
    Bool × CStashedsendPool :=
  let r := s.2.addScriptSig ctx verifyScript item
  (s.1 || r.1, r.2)

def processDss (verifyScript : ScriptVerifier) (nVersion : Int) (sigs : List CTxIn) :
    CStashedsendPool :=
  if nVersion < minPoolPeerProtoVersion then pool
  else
    let r := sigs.foldl (addScriptSigRound ctx verifyScript) (false, pool)
    if r.1 then r.2.check ctx else r.2

end CStashedsendPool

/-- The messages to a masternode. -/
inductive PoolMessage
  | dsa (nVersion nDenom : Int) (txCollateral : CTransaction)
  | dsi (nVersion : Int) (vin : List CTxIn) (nAmount : CAmount) (txCollateral : CTransaction)
      (vout : List CTxOut)
  | dss (nVersion : Int) (sigs : List CTxIn)

namespace CStashedsendPool

/-- `ProcessMessageStashedsend`. `IsBlockchainSynced` resets the pool after a long pause. -/
def processMessage (verifyScript : ScriptVerifier) (ctx : PoolCtx) (pool : CStashedsendPool)
    (m : PoolMessage) : CStashedsendPool :=
  if ctx.fLiteMode then pool
  else
    let pool := if ctx.fSlept then pool.setNull ctx else pool
    if !ctx.fBlockchainSynced then pool
    else
      match m with
      | .dsa nVersion nDenom txCollateral => (pool.processDsa ctx nVersion nDenom txCollateral).2
      | .dsi nVersion vin nAmount txCollateral vout =>
        (pool.processDsi ctx nVersion vin nAmount txCollateral vout).2
      | .dss nVersion sigs => pool.processDss ctx verifyScript nVersion sigs

/-! ### What a client signs -/

/-- The outputs of the final transaction whose script is, as a text, one of those asked for; as often as
it is asked for. -/
def matchedOutputs (asked vout : List CTxOut) : List CTxOut :=
  vout.flatMap fun out =>
    (asked.filter fun o => out.scriptPubKey.toString = o.scriptPubKey.toString).map fun _ => out

/-- The total of `nValue`, an `int64_t`. -/
def totalValue (vout : List CTxOut) : Int := toInt64 (vout.map CTxOut.nValue).sum

/-- "My entries are not correct! Refusing to sign." -/
def refusesOutputs (asked vout : List CTxOut) : Bool :=
  decide ((matchedOutputs asked vout).length < asked.length) ||
    decide (totalValue (matchedOutputs asked vout) ≠ totalValue asked)

section

-- `SignSignature(keystore, prevPubKey, txTo, nIn, SIGHASH_ALL|SIGHASH_ANYONECANPAY)`: the script that it
-- leaves in the input
variable (signSignature : CScript → CTransaction → Nat → CScript)

/-- A round of `SignFinalTransaction` for one input: the final transaction and the signatures so far;
`none` if it refuses to sign. -/
def signInput (asked : List CTxOut) (st : CTransaction × List CTxIn) (s : CTxDSIn) :
    Option (CTransaction × List CTxIn) :=
  match st.1.vin.zipIdx.findRev? fun (txin, _) => txin = s.toCTxIn with
  | none => some st
  | some (txin, mine) =>
    if refusesOutputs asked st.1.vout then none
    else
      let signed := { txin with scriptSig := signSignature s.prevPubKey st.1 mine }
      some ({ st.1 with vin := st.1.vin.set mine signed }, st.2 ++ [signed])

/-- The same for one entry. -/
def signEntry (st : CTransaction × List CTxIn) (e : CStashedSendEntry) :
    Option (CTransaction × List CTxIn) :=
  e.sev.foldlM (signInput signSignature e.vout) st

/-- `SignFinalTransaction`, with the signatures sent to the masternode. -/
def signFinalTransaction (ctx : PoolCtx) (pool : CStashedsendPool) (finalTransactionNew : CTransaction) :
    Bool × CStashedsendPool × List CTxIn :=
  match pool.entries.foldlM (signEntry signSignature) (finalTransactionNew, []) with
  | none => (false, { pool with finalTransaction := finalTransactionNew }.setNull ctx, [])
  | some (finalTransaction, sigs) => (true, { pool with finalTransaction := finalTransaction }, sigs)

end

end CStashedsendPool

end Sphinx
