import Sphinx.MasternodeMan
import Sphinx.BestChain
import Sphinx.InstantX
import Sphinx.StashedsendPool

/-!
# Announcements and pings

`CMasternodeMan::ProcessMessage` with the messages `dsee` and `dseep`.  Messages sent to peers, the
addresses learned from a `dsee` and the local masternode that it can activate are left out.

What the messages of a masternode look up about its input: `GetTransaction`, `GetInputAge`,
`IsVinAssociatedWithPubkey` and the transaction that `AcceptableInputs` tries.

`entries` is what a loop over `mapBlockIndex` sees, in the order of the map.
-/

namespace Sphinx

/-- The characters that a `std::string` of these bytes holds. -/
def byteChars (bytes : List UInt8) : List Char := bytes.map fun b => Char.ofNat b.toNat

/-- What the two messages read in addition. -/
structure DseeCtx extends MasternodeCtx where
  fBlockchainSynced : Bool := true
  isVinAssociatedWithPubkey : CTxIn → CPubKey → Bool
  /-- The time of the block in which the input reached `MASTERNODE_MIN_CONFIRMATIONS`, if the block of the
  input is known. -/
  confirmationTime : CTxIn → Option Int
  fMasterNode : Bool := false
  /-- `activeMasternode.vin == CTxIn()`. -/
  fActiveVinNull : Bool := true
  /-- `activeMasternode.pubKeyMasternode`. -/
  pubKeyMasternode : CPubKey := []
  /-- What the constructor of a masternode finds in `nLastPaid`. -/
  nLastPaidBefore : Int := 0

structure Dsee where
  vin : CTxIn
  addr : CService
  vchSig : List UInt8
  sigTime : Int
  pubkey : CPubKey
  pubkey2 : CPubKey
  count : Int
  current : Int
  lastUpdated : Int
  protocolVersion : Int
  donationAddress : CScript
  donationPercentage : Int
deriving DecidableEq, Repr

structure Dseep where
  vin : CTxIn
  vchSig : List UInt8
  sigTime : Int
  stop : Bool
deriving DecidableEq, Repr

section

variable (env : MasternodeEnv) (ctx : DseeCtx)

/-- The text that is signed.  It holds neither `vin` nor `count`, `current` and `lastUpdated`. -/
def Dsee.strMessage (m : Dsee) : List Char :=
  env.serviceToString m.addr ++ Text.decimal m.sigTime ++ byteChars m.pubkey ++ byteChars m.pubkey2 ++
    Text.decimal m.protocolVersion ++ m.donationAddress.toString ++ Text.decimal m.donationPercentage

/-- The text that is signed, for a masternode at this address. -/
def Dseep.strMessage (m : Dseep) (addr : CService) : List Char :=
  env.serviceToString addr ++ Text.decimal m.sigTime ++ Text.decimal (if m.stop then 1 else 0)

/-- What a `dsee` does to the masternode that is listed with the outpoint. -/
def MasternodeEntry.announceAgain (m : Dsee) (pmn : MasternodeEntry) : MasternodeEntry :=
  if m.count = -1 ∧ pmn.pubkey = m.pubkey ∧
      pmn.updatedWithin ctx.toMasternodeCtx masternodeMinDseeSeconds = false then
    let pmn := pmn.updateLastSeen ctx.toMasternodeCtx 0
    -- take the newest entry
    if pmn.sigTime < m.sigTime then
      MasternodeEntry.check ctx.toMasternodeCtx { pmn with
        pubkey2 := m.pubkey2
        sigTime := m.sigTime
        sig := m.vchSig
        protocolVersion := m.protocolVersion
        addr := m.addr
        donationAddress := m.donationAddress
        donationPercentage := m.donationPercentage }
    else pmn
  else pmn

/-- What a `dseep` does to the masternode that is listed with the outpoint. -/
def MasternodeEntry.ping (m : Dseep) (pmn : MasternodeEntry) : MasternodeEntry :=
  if pmn.lastDseep < m.sigTime ∧
      env.verifyMessage pmn.pubkey2 m.vchSig (m.strMessage env pmn.addr) = true then
    let pmn := { pmn with lastDseep := m.sigTime }
    if pmn.updatedWithin ctx.toMasternodeCtx masternodeMinDseepSeconds then pmn
    else if m.stop then pmn.disable
    else (pmn.updateLastSeen ctx.toMasternodeCtx 0).check ctx.toMasternodeCtx
  else pmn

namespace CMasternodeMan

section

variable (man : CMasternodeMan)

/-- The end of a `dsee`, for an outpoint that is not listed yet. -/
def announceNew (m : Dsee) : Except Reject CMasternodeMan :=
  if !ctx.isVinAssociatedWithPubkey m.vin m.pubkey then dos 100 "dsee - Got mismatched pubkey and vin"
  else if !ctx.fLockMain then .ok man
  else if !ctx.acceptableInputs m.vin then .ok man
  else if ctx.getInputAge m.vin < masternodeMinConfirmations then
    dos 20 "dsee - Input must have least 7 confirmations"
  else if (ctx.confirmationTime m.vin).any (m.sigTime < ·) then .ok man
  else
    -- doesn't support multisig addresses
    let (donationAddress, donationPercentage) := if m.donationAddress.isPayToScriptHash then ([], 0)
      else (m.donationAddress, m.donationPercentage)
    let mn := MasternodeEntry.new m.addr m.vin m.pubkey m.vchSig m.sigTime m.pubkey2 m.protocolVersion
      donationAddress donationPercentage ctx.nLastPaidBefore
    .ok (man.add env ctx.toMasternodeCtx (mn.updateLastSeen ctx.toMasternodeCtx m.lastUpdated)).2

/-- `ProcessMessage` with the message `dsee`.  An error is `Misbehaving(pfrom->GetId(), nDoS)`, with the
text that is logged. -/
def processDsee (m : Dsee) : Except Reject CMasternodeMan :=
  if !ctx.fBlockchainSynced then .ok man
  -- make sure signature isn't in the future (past is OK)
  else if ctx.nAdjustedTime + 60 * 60 < m.sigTime then .ok man
  else if m.donationPercentage < 0 ∨ 100 < m.donationPercentage then .ok man
  else if m.protocolVersion < minPoolPeerProtoVersion then .ok man
  else if (env.getScriptForDestination m.pubkey).length ≠ 25 then
    dos 100 "dsee - pubkey the wrong size"
  else if (env.getScriptForDestination m.pubkey2).length ≠ 25 then
    dos 100 "dsee - pubkey2 the wrong size"
  else if !m.vin.scriptSig.isEmpty then .ok man
  else if !env.verifyMessage m.pubkey m.vchSig (m.strMessage env) then
    dos 100 "dsee - Got bad masternode address signature"
  else if (man.find m.vin).isSome ∧
      ¬(ctx.fMasterNode ∧ ctx.fActiveVinNull ∧ m.pubkey2 = ctx.pubKeyMasternode) then
    .ok (man.update m.vin (.announceAgain ctx m))
  else man.announceNew env ctx m

/-- `ProcessMessage` with the message `dseep`. -/
def processDseep (m : Dseep) : CMasternodeMan :=
  if !ctx.fBlockchainSynced then man
  else if ctx.nAdjustedTime + 60 * 60 < m.sigTime then man
  else if m.sigTime ≤ ctx.nAdjustedTime - 60 * 60 then man
  else if (man.find m.vin).any fun pmn => minPoolPeerProtoVersion ≤ pmn.protocolVersion then
    man.update m.vin (.ping env ctx m)
  else if (man.mWeAskedForMasternodeListEntry.lookup m.vin.prevout).any (ctx.nTime < ·) then man
  else
    { man with
      mWeAskedForMasternodeListEntry := man.mWeAskedForMasternodeListEntry.insert m.vin.prevout
        (ctx.nTime + masternodeMinDseepSeconds) }

/-- A message that is held against the peer changes nothing. -/
def after : Except Reject CMasternodeMan → CMasternodeMan
  | .ok man' => man'
  | .error _ => man

/-- The list after a `dsee`. -/
def receiveDsee (m : Dsee) : CMasternodeMan :=
  man.after (man.processDsee env ctx m)

end

end CMasternodeMan

end

/-! ### The collateral of a masternode -/

def masternodeValue : CAmount := 10000

/-- `GetMNCollateral(nHeight)`, in coins. -/
def getMNCollateral (_nHeight : Int) : CAmount := masternodeValue

section

variable (env : Env) (node : Node) (entries : List CBlockIndex)

/-- The transaction in a block that is not in the main chain. -/
def findOrphanTx (hash : Uint256) : Option CTransaction :=
  entries.findSome? fun pindex =>
    if some pindex.hashBlock = node.pindexBest || pindex.pnext.isSome then none
    else
      match env.readBlockFromDisk pindex with
      | .error _ => none
      | .ok block => block.vtx.find? fun txOrphan => env.getHash txOrphan = hash

/-- `GetTransaction(hash, tx, hashBlock)`, with a zero hash where `hashBlock` is not set. -/
def getTransaction (hash : Uint256) : Option (CTransaction × Uint256) :=
  match node.mempool.lookup hash with
  | some tx => some (tx, 0)
  | none =>
    let txdb : CTxDB := ⟨node.txdb.pdb, none⟩
    match (txdb.readTxIndex hash).bind fun txindex => (env.readTxFromDisk txindex.pos).map (·, txindex.pos) with
    | some (tx, .pos nFile nBlockPos _) =>
      some (tx, ((env.files.readBlock nFile nBlockPos).map env.getBlockHash).getD 0)
    | some (tx, .null) => some (tx, 0)
    -- look for transaction in disconnected blocks to find orphaned CoinBase and CoinStake transactions
    | none => (findOrphanTx env node entries hash).map (·, 0)

/-- `GetInputAge(vin)`. -/
def inputAge (vin : CTxIn) : Int :=
  match getTransaction env node entries vin.prevout.hash with
  | none => 0
  | some (_, hashBlock) =>
    match node.mapBlockIndex hashBlock with
    | none => 0
    | some pindex => bestHeight node - pindex.nHeight

/-- `out` has the value of the collateral and pays to `payee2`. -/
def paysCollateral (payee2 : CScript) (out : CTxOut) : Bool :=
  out.nValue = getMNCollateral (bestHeight node) * coin && out.scriptPubKey = payee2

/-- `IsVinAssociatedWithPubkey(vin, pubkey)`, with the script for the key.  Every output of the transaction is
looked at, not the one that `vin` names. -/
def CStashedSendSigner.isVinAssociatedWithPubkey (vin : CTxIn) (payee2 : CScript) : Bool :=
  match getTransaction env node entries vin.prevout.hash with
  | none => false
  | some (txVin, _) => txVin.vout.any (paysCollateral node payee2)

/-- The transaction that spends the input to the collateral key.  Its time is that of the constructor. -/
def collateralSpend (nAdjustedTime : Int) (collateralPubKey : CScript) (vin : CTxIn) : CTransaction where
  nTime := (nAdjustedTime % 2 ^ 32).toNat
  vin := [vin]
  vout := [⟨stashedsendPoolMax, collateralPubKey, -10⟩]

/-- What `AcceptableInputs(mempool, tx, false, NULL)` says of this transaction. -/
def collateralAcceptable (ctx : Ctx) (collateralPubKey : CScript) (vin : CTxIn) : Bool :=
  (acceptableInputs env ctx node ⟨false, false, fun _ => false⟩ false false
    (collateralSpend ctx.nAdjustedTime collateralPubKey vin)).isOk

/-- The messages read the input from this node. -/
def DseeCtx.onNode (dsee : DseeCtx) (menv : MasternodeEnv) (ctx : Ctx) (collateralPubKey : CScript) : DseeCtx :=
  { dsee with
    nAdjustedTime := ctx.nAdjustedTime
    acceptableInputs := collateralAcceptable env node ctx collateralPubKey
    getInputAge := inputAge env node entries
    nBestHeight := (node.pindexBest.bind node.mapBlockIndex).map fun pindexBest => pindexBest.nHeight
    isVinAssociatedWithPubkey := fun vin pubkey =>
      CStashedSendSigner.isVinAssociatedWithPubkey env node entries vin (menv.getScriptForDestination pubkey) }

end

end Sphinx
