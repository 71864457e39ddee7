import Mathlib.Data.Int.Bitwise
import Sphinx.CreateTransaction
import Sphinx.MixingMessages

/-!
# Preparing a mixing entry

`SelectCoinsByDenominations` and `PrepareStashedsendDenominate` of `wallet.cpp`, and `SendStashedsendDenominate` of
`stashedsend.cpp`, on a client.

The wallet and the pool share the locked coins: they are those of the client, and the argument `w` stands for the rest
of the wallet.  An input has its `prevPubKey`, so it is a `CTxDSIn`.
-/

namespace Sphinx

/-! ### The choice of the coins -/

/-- The random choices of a call, and what is drawn from the key pool. -/
structure PrepareRandom where
  /-- `random_shuffle(vCoins.rbegin(), vCoins.rend())`. -/
  shuffleCoins : Shuffle COutput
  /-- Both calls of `rand()` in a round of the loop over the coins. -/
  rand : Nat → Nat × Nat
  /-- `GetRandInt(5)`. -/
  getRandInt : Fin 5
  /-- `reservekey.GetReservedKey(vchPubKey)`, each time. -/
  reservedKey : Nat → Option Valtype
  /-- `random_shuffle (vOut.begin(), vOut.end())`. -/
  shuffleOut : Shuffle CTxOut

/-- The first test of the chain `(nDenom & (1 << c)) && nValue == …` that succeeds. -/
def acceptedDenomination (nDenom : Int) (nValue : CAmount) : Option Nat :=
  (stashedSendDenominations.zipIdx.find? fun e => nDenom.testBit e.2 && nValue = e.1).map Prod.snd

/-- The variables of the loop over the coins. -/
structure DenomScan where
  nValueMax : CAmount
  /-- `fFound1000`, `fFound100`, … -/
  fFound : List Bool
  vCoinsRet : List CTxDSIn := []
  vCoinsRet2 : List COutput := []
  nValueRet : CAmount := 0

def DenomScan.fulfilled (s : DenomScan) : Bool := s.fFound.all id

namespace CWallet

variable (env : Env) (ctx : CreditCtx) (w : CWallet)

/-- `out.tx->vout[out.i]`. -/
def coinTxOut (out : COutput) : CTxOut := (w.output ⟨out.hash, out.i⟩).getD { nValue := 0, scriptPubKey := [] }

/-- `CTxIn(out.tx->GetHash(),out.i)` with its `prevPubKey`. -/
def denominatedInput (out : COutput) : CTxDSIn where
  prevout := ⟨env.getHash (w.coinTx ⟨out.hash, out.i⟩).tx, out.i⟩
  prevPubKey := (w.coinTxOut out).scriptPubKey

/-- A call of `SelectCoinsByDenominations`, apart from the vectors that it fills. -/
structure DenomRequest where
  nDenom : Int
  nValueMin : CAmount
  nValueMax : CAmount
  nStashedsendRoundsMin : Int
  nStashedsendRoundsMax : Int

variable (request : DenomRequest) (random : PrepareRandom)

/-- The coin is added to both vectors, unless no denomination accepts it. -/
def acceptDenominated (s : DenomScan) (out : COutput) : DenomScan :=
  let nValue := (w.coinTxOut out).nValue
  match acceptedDenomination request.nDenom nValue with
  | none => s
  | some c =>
    { s with
      fFound := if s.fulfilled then s.fFound else s.fFound.set c true
      vCoinsRet := s.vCoinsRet ++ [w.denominatedInput env out]
      vCoinsRet2 := s.vCoinsRet2 ++ [out]
      nValueRet := s.nValueRet + nValue }

/-- A round of the loop over the coins; an error is `return true`. -/
def considerDenominated (nCoins : Nat) (s : DenomScan) (e : COutput × Nat) : Except DenomScan DenomScan :=
  let out := e.1
  if s.nValueMax < s.nValueRet + (w.coinTxOut out).nValue then .ok s
  else
    let rounds := ctx.getInputStashedsendRounds (w.denominatedInput env out).prevout
    if request.nStashedsendRoundsMax ≤ rounds || rounds < request.nStashedsendRoundsMin then .ok s
    else if s.fulfilled && request.nValueMin ≤ s.nValueRet then
      -- "random reduce the max amount we'll submit for anonymity"
      let s := { s with nValueMax := s.nValueMax - ((random.rand e.2).1 : Int) % (s.nValueMax / 5) }
      -- "on average use 50% of the inputs or less"
      if (random.rand e.2).2 % nCoins < s.vCoinsRet.length then .error s
      else .ok (w.acceptDenominated env request s out)
    else .ok (w.acceptDenominated env request s out)

def selectCoinsByDenominations : Bool × DenomScan :=
  let vCoins := random.shuffleCoins.shuffle (w.availableCoins env ctx { coinType := .onlyDenominated })
  let start : DenomScan :=
    { nValueMax := request.nValueMax
      fFound := stashedSendDenominations.zipIdx.map fun e => !request.nDenom.testBit e.2 }
  match vCoins.zipIdx.foldlM (w.considerDenominated env ctx request random vCoins.length) start with
  | .error s => (true, s)
  | .ok s => (request.nValueMin ≤ s.nValueRet && s.fulfilled, s)

end CWallet

/-! ### Sending the entry -/

/-- What a client reads when it submits an entry. -/
structure SubmitCtx extends PoolCtx where
  /-- `GetAdjustedTime()`. -/
  nAdjustedTime : Nat
  /-- `CheckDiskSpace()`. -/
  fDiskSpace : Bool := true
  /-- `FindNode(pSubmittedToMasternode->addr)` finds a node. -/
  fConnected : Bool := true

/-- The pool of a client that submits entries. -/
structure MixingSender extends MixingClient where
  txCollateral : CTransaction
  fEnableStashedsend : Bool := true

/-- `CTransaction()`. -/
def SubmitCtx.newTransaction (ctx : SubmitCtx) : CTransaction where
  nTime := ctx.nAdjustedTime
  vin := []
  vout := []

namespace MixingSender

variable (ctx : SubmitCtx) (sender : MixingSender)

/-- `UnlockCoins(); SetNull();`. -/
def abandon : MixingSender := { sender with toMixingClient := sender.unlockCoins.setNull ctx.toPoolCtx }

/-- The message of `RelayIn` for `entries[0]`, if there is a masternode. -/
def relaysIn : Option MixingMessage :=
  if sender.submittedTo.isNone || !ctx.fConnected then none
  else sender.entries.head?.map fun e => relayIn e.sev e.amount sender.txCollateral e.vout

/-- `Add`, for inputs of the wallet. -/
def ownEntry (vin : List CTxDSIn) (vout : List CTxOut) (amount : CAmount) : CStashedSendEntry where
  sev := vin
  vout := vout
  amount := amount
  collateral := sender.txCollateral
  addedTime := ctx.nTime

/-- `lockedCoins` with the inputs of the collateral and of the entry: "lock the funds we're going to use". -/
def recordCoins (vin : List CTxDSIn) : MixingSender :=
  { sender with lockedCoins := sender.lockedCoins ++ sender.txCollateral.vin ++ vin.map CTxDSIn.toCTxIn }

/-- `SendStashedsendDenominate(vin, vout, amount)`, with the message that is sent. -/
def sendStashedsendDenominate (vin : List CTxDSIn) (vout : List CTxOut) (amount : CAmount) :
    MixingSender × Option MixingMessage :=
  -- "Stashedsend from a Masternode is not supported currently."
  if sender.fMasterNode then (sender, none)
  -- "Stashedsend collateral not set": the times are compared, too
  else if sender.txCollateral = ctx.newTransaction then (sender, none)
  else
    let sender := sender.recordCoins vin
    if !sender.sessionFoundMasternode then (sender.abandon ctx, none)
    else if !ctx.fDiskSpace then ({ sender.abandon ctx with fEnableStashedsend := false }, none)
    else
      let sender := { sender with
        toMixingClient := { sender.updateState ctx.toPoolCtx .acceptingEntries with lastMessage := "" } }
      if !ctx.acceptableInputs sender.txCollateral then (sender.abandon ctx, none)
      else
        let sender := { sender with entries := sender.entries ++ [sender.ownEntry ctx vin vout amount] }
        ({ sender with toMixingClient := sender.check ctx.toPoolCtx }, sender.relaysIn ctx)

end MixingSender

/-! ### The outputs -/

/-- The keys and the state of the wallet. -/
structure PrepareCtx extends CreditCtx where
  crypto : ScriptCrypto
  /-- `IsLocked()`. -/
  fLocked : Bool := false

/-- The variables of the loops that make the outputs. -/
structure OutputScan where
  vCoins : List CTxDSIn
  vCoins2 : List COutput
  vCoinsResult : List CTxDSIn := []
  nValueLeft : CAmount
  vOut : List CTxOut := []

/-- The arguments of a call of `SendStashedsendDenominate`. -/
structure Submission where
  vin : List CTxDSIn
  vout : List CTxOut
  amount : CAmount

/-- What a call leaves behind. -/
structure PrepareResult where
  /-- The string that is returned. -/
  strError : String
  sender : MixingSender
  submitted : Option Submission := none
  /-- The message to the masternode. -/
  relayed : Option MixingMessage := none

/-- The wallet with the locked coins of the client. -/
def MixingClient.wallet (client : MixingClient) (w : CWallet) : CWallet :=
  { w with setLockedCoins := client.setLockedCoins }

namespace MixingSender

variable (env : Env) (ctx : PrepareCtx) (sctx : SubmitCtx) (w : CWallet) (random : PrepareRandom)
  (sender : MixingSender)

/-- `LockCoin(v.prevout)` for each input. -/
def lockInputs (vCoins : List CTxDSIn) : MixingSender :=
  { sender with
    setLockedCoins := (vCoins.foldl (fun w v => w.lockCoin v.prevout) (sender.wallet w)).setLockedCoins }

/-- `UnlockCoin(v.prevout)` for each input. -/
def unlockInputs (vCoins : List CTxDSIn) : MixingSender :=
  { sender with
    setLockedCoins := (vCoins.foldl (fun w v => w.unlockCoin v.prevout) (sender.wallet w)).setLockedCoins }

/-- The first coin of a value is erased from both vectors.  "Note: this relies on a fact that both vectors MUST have
same size". -/
def takeCoin (v : CAmount) : List CTxDSIn → List COutput → Option (CTxDSIn × List CTxDSIn × List COutput)
  | txin :: vCoins, out :: vCoins2 =>
    if (w.coinTxOut out).nValue = v then some (txin, vCoins, vCoins2)
    else (takeCoin v vCoins vCoins2).map fun r => (r.1, txin :: r.2.1, out :: r.2.2)
  | _, _ => none

/-- A round of the loop over the denominations; `none` is the assertion about the reserved key. -/
def addDenomination (s : OutputScan) (v : CAmount) : Option OutputScan :=
  if (acceptedDenomination sender.sessionDenom v).isNone || s.nValueLeft - v < 0 then some s
  else
    match takeCoin w v s.vCoins s.vCoins2 with
    | none => some s
    | some (txin, vCoins, vCoins2) =>
      (random.reservedKey s.vOut.length).map fun vchPubKey =>
        { vCoins := vCoins
          vCoins2 := vCoins2
          vCoinsResult := s.vCoinsResult ++ [txin]
          nValueLeft := s.nValueLeft - v
          vOut := s.vOut ++ [{ nValue := v, scriptPubKey := scriptForKey ctx.crypto vchPubKey }] }

/-- The loop over `nStep`, with the number of rounds left. -/
def addOutputs : Nat → OutputScan → Option OutputScan
  | 0, s => some s
  | n + 1, s =>
    (stashedSendDenominations.foldlM (addDenomination ctx w random sender) s).bind fun s =>
      if s.nValueLeft = 0 then some s else addOutputs n s

/-- The choice of the coins: "if minRounds >= 0 it means only denominated inputs are going in and coming out". -/
def chooseInputs (minRounds maxRounds : Int) : Bool × DenomScan :=
  if 0 ≤ minRounds then
    (sender.wallet w).selectCoinsByDenominations env ctx.toCreditCtx
      { nDenom := sender.sessionDenom
        nValueMin := coin / 10
        nValueMax := stashedsendPoolMax
        nStashedsendRoundsMin := minRounds
        nStashedsendRoundsMax := maxRounds } random
  else (true, { nValueMax := 0, fFound := [] })

/-- What follows when the coins are chosen. -/
def prepareCoins (vCoins : List CTxDSIn) (vCoins2 : List COutput) (nValueIn : CAmount) : Option PrepareResult :=
  let locked := sender.lockInputs w vCoins
  (addOutputs ctx w random sender (5 + random.getRandInt)
    { vCoins := vCoins, vCoins2 := vCoins2, nValueLeft := nValueIn }).map fun s =>
    -- unlock unused coins
    let sender := locked.unlockInputs w s.vCoins
    if (getDenominations s.vOut : Int) ≠ sender.sessionDenom then
      -- unlock used coins on failure
      { strError := "Error: can't make current denominated outputs", sender := sender.unlockInputs w s.vCoinsResult }
    else
      let entry : Submission :=
        { vin := s.vCoinsResult
          vout := random.shuffleOut.shuffle s.vOut
          amount := nValueIn - s.nValueLeft }
      let sent := sender.sendStashedsendDenominate sctx entry.vin entry.vout entry.amount
      { strError := "", sender := sent.1, submitted := some entry, relayed := sent.2 }

/-- `PrepareStashedsendDenominate(minRounds, maxRounds)`; `none` if the assertion fails. -/
def prepareStashedsendDenominate (minRounds maxRounds : Int) : Option PrepareResult :=
  if ctx.fLocked then
    some { strError := "Error: Wallet locked, unable to create transaction!", sender := sender }
  else if sender.state ≠ .error ∧ sender.state ≠ .success ∧ 0 < sender.entries.length then
    some { strError := "Error: You already have pending entries in the Stashedsend pool", sender := sender }
  else
    let chosen := sender.chooseInputs env ctx w random minRounds maxRounds
    if !chosen.1 then some { strError := "Error: Can't select current denominated inputs", sender := sender }
    else sender.prepareCoins ctx sctx w random chosen.2.vCoinsRet chosen.2.vCoinsRet2 chosen.2.nValueRet

end MixingSender

end Sphinx
