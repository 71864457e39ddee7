import Sphinx.StashedsendPool

/-!
# Messages between the mixing pool and its clients

`RelayFinalTransaction`, `RelayIn`, `RelayStatus` and `RelayCompletedTransaction` of `stashedsend.cpp` write
the fields of a message; the branches of `ProcessMessageStashedsend` read them from `vRecv`.  Which fields
these are is listed on both sides, so a message that is read (`ReceivedMessage`) is not of the type of one
that is written (`MixingMessage`).

`MixingClient` is the pool of a node that is no masternode, as far as `dsc` changes it.  Texts are not
translated.
-/

namespace Sphinx

open Codec

/-- The message names. -/
inductive MixingCommand
  | dsf
  | dsi
  | dssu
  | dsc
deriving DecidableEq, Repr

/-- What is pushed to a peer. -/
inductive MixingMessage
  | dsf (sessionID : Int) (txNew : CTransaction)
  | dsi (vin : List CTxIn) (nAmount : CAmount) (txCollateral : CTransaction) (vout : List CTxOut)
  | dssu (sessionID newState newEntriesCount newAccepted : Int) (error : List UInt8)
  | dsc (sessionID : Int) (error : Bool) (errorMessage : List UInt8)
deriving DecidableEq, Repr

/-- What `ProcessMessageStashedsend` reads. -/
inductive ReceivedMessage
  | dsf (sessionIDMessage : Int) (txNew : CTransaction)
  | dsi (vin : List CTxIn) (nAmount : CAmount) (txCollateral : CTransaction) (vout : List CTxOut)
  | dssu (sessionIDMessage state entriesCount accepted : Int) (error : List UInt8)
  | dsc (sessionIDMessage : Int) (error : Bool) (errorID : Int)
deriving DecidableEq, Repr

/-- The value of a field, with its type. -/
inductive MixingField
  | int (i : Int)
  | amount (nAmount : CAmount)
  | bool (b : Bool)
  | string (s : List UInt8)
  | tx (tx : CTransaction)
  | txIns (vin : List CTxIn)
  | txOuts (vout : List CTxOut)
deriving DecidableEq, Repr

/-- The bytes of an untranslated text. -/
def textBytes (text : String) : List UInt8 := text.toList.map fun c => UInt8.ofNat c.toNat

def relayIn (vin : List CTxDSIn) (nAmount : CAmount) (txCollateral : CTransaction) (vout : List CTxOut) :
    MixingMessage :=
  .dsi (vin.map CTxDSIn.toCTxIn) nAmount txCollateral vout

namespace MixingMessage

def command : MixingMessage → MixingCommand
  | dsf _ _ => .dsf
  | dsi _ _ _ _ => .dsi
  | dssu _ _ _ _ _ => .dssu
  | dsc _ _ _ => .dsc

/-- The bytes after the message header. -/
def bytes : MixingMessage → List UInt8
  | dsf sessionID txNew => writeInt 4 sessionID ++ txNew.write
  | dsi vin nAmount txCollateral vout =>
    writeVector CTxIn.write vin ++ (writeInt 8 nAmount ++
      (txCollateral.write ++ writeVector CTxOut.write vout))
  | dssu sessionID newState newEntriesCount newAccepted error =>
    writeInt 4 sessionID ++ (writeInt 4 newState ++ (writeInt 4 newEntriesCount ++
      (writeInt 4 newAccepted ++ writeBytes error)))
  | dsc sessionID error errorMessage => writeInt 4 sessionID ++ (writeBool error ++ writeBytes errorMessage)

/-- The values that are written; `nRounds` is not. -/
def fields : MixingMessage → List MixingField
  | dsf sessionID txNew => [.int sessionID, .tx txNew.received]
  | dsi vin nAmount txCollateral vout =>
    [.txIns vin, .amount nAmount, .tx txCollateral.received, .txOuts (vout.map CTxOut.received)]
  | dssu sessionID newState newEntriesCount newAccepted error =>
    [.int sessionID, .int newState, .int newEntriesCount, .int newAccepted, .string error]
  | dsc sessionID error errorMessage => [.int sessionID, .bool error, .string errorMessage]

/-- The values are in the ranges of their types. -/
def Fits : MixingMessage → Prop
  | dsf sessionID txNew => FitsInt 4 sessionID ∧ txNew.Fits
  | dsi vin nAmount txCollateral vout =>
    (∀ txin ∈ vin, txin.Fits) ∧ FitsInt 8 nAmount ∧ txCollateral.Fits ∧ ∀ txout ∈ vout, txout.Fits
  | dssu sessionID newState newEntriesCount newAccepted _ =>
    FitsInt 4 sessionID ∧ FitsInt 4 newState ∧ FitsInt 4 newEntriesCount ∧ FitsInt 4 newAccepted
  | dsc sessionID _ _ => FitsInt 4 sessionID

end MixingMessage

def ReceivedMessage.fields : ReceivedMessage → List MixingField
  | dsf sessionIDMessage txNew => [.int sessionIDMessage, .tx txNew]
  | dsi vin nAmount txCollateral vout =>
    [.txIns vin, .amount nAmount, .tx txCollateral, .txOuts vout]
  | dssu sessionIDMessage state entriesCount accepted error =>
    [.int sessionIDMessage, .int state, .int entriesCount, .int accepted, .string error]
  | dsc sessionIDMessage error errorID => [.int sessionIDMessage, .bool error, .int errorID]

/-! ### Reading -/

def readDsf : Reader ReceivedMessage := do
  let sessionIDMessage ← readInt 4
  let txNew ← readTransaction
  pure (.dsf sessionIDMessage txNew)

def readDsi : Reader ReceivedMessage := do
  let vin ← readVector readTxIn
  let nAmount ← readInt 8
  let txCollateral ← readTransaction
  let out ← readVector readTxOut
  pure (.dsi vin nAmount txCollateral out)

def readDssu : Reader ReceivedMessage := do
  let sessionIDMessage ← readInt 4
  let state ← readInt 4
  let entriesCount ← readInt 4
  let accepted ← readInt 4
  let error ← readString
  pure (.dssu sessionIDMessage state entriesCount accepted error)

def readDsc : Reader ReceivedMessage := do
  let sessionIDMessage ← readInt 4
  let error ← readBool
  let errorID ← readInt 4
  pure (.dsc sessionIDMessage error errorID)

/-- What `ProcessMessageStashedsend` takes from `vRecv`; `none` if a read throws. -/
def readMixing : MixingCommand → Reader ReceivedMessage
  | .dsf => readDsf
  | .dsi => readDsi
  | .dssu => readDssu
  | .dsc => readDsc

/-- `CNetMessage::readHeader` refuses a message that is too large. -/
def receiveMixing (command : MixingCommand) (bytes : List UInt8) :
    Option (ReceivedMessage × List UInt8) :=
  if maxSize < bytes.length then none else readMixing command bytes

/-! ### The masternode -/

/-- The value of a `POOL_STATUS_*` constant. -/
def PoolStatus.value : PoolStatus → Int
  | idle => 1
  | queue => 2
  | acceptingEntries => 3
  | finalizeTransaction => 4
  | signing => 5
  | transmission => 6
  | error => 7
  | success => 8

def masternodeReset : Int := -1

namespace CStashedsendPool

variable (ctx : PoolCtx) (pool : CStashedsendPool)

def relayStatus : MixingMessage :=
  .dssu pool.sessionID pool.state.value pool.entries.length masternodeReset []

/-- What `UpdateState` relays: the state before the change. -/
def updateStateRelays (newState : PoolStatus) : List MixingMessage :=
  if newState = .error ∨ newState = .success then []
  else if pool.state ≠ newState then [pool.relayStatus] else []

/-- What `CheckFinalTransaction` relays, `dstx` apart. -/
def checkFinalTransactionRelays : List MixingMessage :=
  if !ctx.acceptToMemoryPool pool.finalTransaction then
    let reset := pool.setNull ctx
    let updated := reset.updateState ctx .acceptingEntries
    reset.updateStateRelays .acceptingEntries ++
      [.dsc updated.sessionID true (textBytes "Transaction not valid, please try again")]
  else if !ctx.fSigned then []
  else
    [.dsc pool.sessionID false (textBytes "Transaction created successfully."),
      (pool.setNull ctx).relayStatus]

end CStashedsendPool

/-! ### The client -/

def getMessageByID (messageID : Int) : String :=
  let texts := ["Already have that input.", "No matching denominations found for mixing.",
    "Entries are full.", "Not compatible with existing transactions.", "Transaction fees are too high.",
    "Collateral not valid.", "Input is not valid.", "Invalid script detected.", "Transaction not valid.",
    "Value more than Stashedsend pool maximum allows.", "Not in the Masternode list.",
    "Incompatible mode.", "Non-standard public key detected.", "This is not a Masternode.",
    "Masternode queue is full.", "Last Stashedsend was too recent.", "Session not complete!",
    "Missing input transaction information.", "Incompatible version.", "",
    "Transaction created successfully.", "Your entries added successfully."]
  if messageID < 0 then "" else texts.getD messageID.toNat ""

structure MixingClient extends CStashedsendPool where
  fMasterNode : Bool := false
  /-- The address of `pSubmittedToMasternode`. -/
  submittedTo : Option CService := none
  entriesCount : Int := 0
  lastEntryAccepted : Int := 0
  countEntriesAccepted : Int := 0
  sessionFoundMasternode : Bool := false
  lockedCoins : List CTxIn := []
  /-- `pwalletMain->setLockedCoins`. -/
  setLockedCoins : List COutPoint := []
  lastMessage : String := ""
  cachedLastSuccess : Int := 0

namespace MixingClient

variable (ctx : PoolCtx) (client : MixingClient)

def setNull : MixingClient :=
  { client with
    toCStashedsendPool := client.toCStashedsendPool.setNull ctx
    entriesCount := 0
    lastEntryAccepted := 0
    countEntriesAccepted := 0
    sessionFoundMasternode := false }

/-- `UpdateState` of a client. -/
def updateState (newState : PoolStatus) : MixingClient :=
  { client with
    lastTimeChanged := if client.state ≠ newState then ctx.nTimeMillis else client.lastTimeChanged
    state := newState }

def unlockCoins : MixingClient :=
  { client with
    setLockedCoins := client.setLockedCoins.filter fun o => o ∉ client.lockedCoins.map CTxIn.prevout
    lockedCoins := [] }

def reset : MixingClient := ({ client with cachedLastSuccess := 0 }.unlockCoins).setNull ctx

/-- `Check` of a client. -/
def check : MixingClient :=
  let client := if client.state = .finalizeTransaction then client.updateState ctx .signing else client
  if (client.state = .error ∨ client.state = .success) ∧
      10000 ≤ ctx.nTimeMillis - client.lastTimeChanged then
    client.unlockCoins.setNull ctx
  else client

def completedTransaction (nBestHeight : Int) (error : Bool) (errorID : Int) : MixingClient :=
  if client.fMasterNode then client
  else
    let client :=
      if error then (((client.updateState ctx .error).check ctx).unlockCoins).setNull ctx
      else
        { ((client.updateState ctx .success).unlockCoins).setNull ctx with
          cachedLastSuccess := nBestHeight }
    { client with lastMessage := getMessageByID errorID }

/-- `ProcessMessageStashedsend` for a `dsc` from the peer at `addr`: the arguments of the call of
`CompletedTransaction`, if it is made. -/
def processDsc (nVersion : Int) (addr : CService) (vRecv : List UInt8) : Option (Bool × Int) :=
  if nVersion < minPoolPeerProtoVersion then none
  else
    match client.submittedTo with
    | none => none
    | some submittedTo =>
      -- the ports are not compared
      if submittedTo.ip ≠ addr.ip then none
      else
        match receiveMixing .dsc vRecv with
        | some (.dsc sessionIDMessage error errorID, _) =>
          if client.sessionID ≠ sessionIDMessage then none else some (error, errorID)
        | _ => none

/-- The state after a `dsc`. -/
def processMessage (nBestHeight nVersion : Int) (addr : CService) (vRecv : List UInt8) : MixingClient :=
  if ctx.fLiteMode then client
  else
    let client := if ctx.fSlept then client.reset ctx else client
    if !ctx.fBlockchainSynced then client
    else
      match client.processDsc nVersion addr vRecv with
      | some (error, errorID) => client.completedTransaction ctx nBestHeight error errorID
      | none => client

end MixingClient

end Sphinx
