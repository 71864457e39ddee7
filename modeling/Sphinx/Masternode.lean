import Sphinx.Netbase
import Sphinx.Primitives.Inputs

/-!
# A masternode

`CMasternode` of `masternode.h` and `masternode.cpp` with all fields but the lock.  `CMasternode` of
`Sphinx.MasternodeMan` has the three that the rank of a masternode depends on.

A difference of two times is an `int64_t`; one of the times can come from a peer.
-/

namespace Sphinx

abbrev CPubKey := List UInt8

def masternodeMinDseepSeconds : Int := 30 * 60
def masternodeMinDseeSeconds : Int := 5 * 60
def masternodeExpirationSeconds : Int := 65 * 60
def masternodeRemovalSeconds : Int := 70 * 60
def masternodeMinConfirmations : Int := 7
def minPoolPeerProtoVersion : Int := 61403

/-- What the masternode code reads and does not change; it can be different at every call. -/
structure MasternodeCtx where
  nAdjustedTime : Int
  /-- `GetTime()`. -/
  nTime : Int
  fShutdownRequested : Bool := false
  /-- `TRY_LOCK(cs_main)` succeeds. -/
  fLockMain : Bool := true
  /-- `AcceptableInputs` of the transaction that spends the input to the collateral key. -/
  acceptableInputs : CTxIn → Bool
  getInputAge : CTxIn → Int
  /-- The height of `pindexBest`. -/
  nBestHeight : Option Int

/-- `CMasternode::state`. -/
inductive MasternodeState
  | enabled
  | expired
  | vinSpent
  | remove
  | posError
deriving DecidableEq, Repr

structure MasternodeEntry where
  vin : CTxIn
  addr : CService
  pubkey : CPubKey
  pubkey2 : CPubKey
  sig : List UInt8
  activeState : MasternodeState
  sigTime : Int
  lastDseep : Int
  lastTimeSeen : Int
  cacheInputAge : Int
  cacheInputAgeBlock : Int
  unitTest : Bool
  allowFreeTx : Bool
  protocolVersion : Int
  nLastDsq : Int
  donationAddress : CScript
  donationPercentage : Int
  nVote : Int
  lastVote : Int
  nScanningErrorCount : Int
  nLastScanningErrorBlockHeight : Int
  nLastPaid : Int
deriving DecidableEq, Repr

namespace MasternodeEntry

/-- The constructor with nine arguments.  It does not set `nLastPaid`. -/
def new (newAddr : CService) (newVin : CTxIn) (newPubkey : CPubKey) (newSig : List UInt8)
    (newSigTime : Int) (newPubkey2 : CPubKey) (protocolVersionIn : Int) (newDonationAddress : CScript)
    (newDonationPercentage nLastPaid : Int) : MasternodeEntry where
  vin := newVin
  addr := newAddr
  pubkey := newPubkey
  pubkey2 := newPubkey2
  sig := newSig
  activeState := .enabled
  sigTime := newSigTime
  lastDseep := 0
  lastTimeSeen := 0
  cacheInputAge := 0
  cacheInputAgeBlock := 0
  unitTest := false
  allowFreeTx := true
  protocolVersion := protocolVersionIn
  nLastDsq := 0
  donationAddress := newDonationAddress
  donationPercentage := newDonationPercentage
  nVote := 0
  lastVote := 0
  nScanningErrorCount := 0
  nLastScanningErrorBlockHeight := 0
  nLastPaid := nLastPaid

/-- The copy constructor. -/
def copy (nAdjustedTime : Int) (other : MasternodeEntry) : MasternodeEntry where
  vin := other.vin
  addr := other.addr
  pubkey := other.pubkey
  pubkey2 := other.pubkey2
  sig := other.sig
  activeState := other.activeState
  sigTime := other.sigTime
  lastDseep := other.lastDseep
  lastTimeSeen := other.lastTimeSeen
  cacheInputAge := other.cacheInputAge
  cacheInputAgeBlock := other.cacheInputAgeBlock
  unitTest := other.unitTest
  allowFreeTx := other.allowFreeTx
  protocolVersion := other.protocolVersion
  nLastDsq := other.nLastDsq
  donationAddress := other.donationAddress
  donationPercentage := other.donationPercentage
  nVote := other.nVote
  lastVote := other.lastVote
  nScanningErrorCount := other.nScanningErrorCount
  nLastScanningErrorBlockHeight := other.nLastScanningErrorBlockHeight
  -- assigned after `other.nLastPaid`
  nLastPaid := nAdjustedTime

def isEnabled (mn : MasternodeEntry) : Bool := mn.activeState = .enabled

def secondsSincePayment (ctx : MasternodeCtx) (mn : MasternodeEntry) : Int :=
  toInt64 (ctx.nAdjustedTime - mn.nLastPaid)

def updatedWithin (ctx : MasternodeCtx) (seconds : Int) (mn : MasternodeEntry) : Bool :=
  toInt64 (ctx.nAdjustedTime - mn.lastTimeSeen) < seconds

def updateLastSeen (ctx : MasternodeCtx) (override : Int) (mn : MasternodeEntry) : MasternodeEntry :=
  { mn with lastTimeSeen := if override = 0 then ctx.nAdjustedTime else override }

def disable (mn : MasternodeEntry) : MasternodeEntry := { mn with lastTimeSeen := 0 }

section

variable (ctx : MasternodeCtx) (mn : MasternodeEntry)

/-- The state that `Check` sets. -/
def checkedState : MasternodeState :=
  if ctx.fShutdownRequested || !ctx.fLockMain then mn.activeState
  -- once spent, stop doing the checks
  else if mn.activeState = .vinSpent then mn.activeState
  else if !mn.updatedWithin ctx masternodeRemovalSeconds then .remove
  else if !mn.updatedWithin ctx masternodeExpirationSeconds then .expired
  else if !mn.unitTest && !ctx.acceptableInputs mn.vin then .vinSpent
  else .enabled

def check : MasternodeEntry :=
  { mn with activeState := mn.checkedState ctx }

/-- `GetMasternodeInputAge`, with the age it caches. -/
def getMasternodeInputAge : Int × MasternodeEntry :=
  match ctx.nBestHeight with
  | none => (0, mn)
  | some nBestHeight =>
    let mn := if mn.cacheInputAge = 0 then
        { mn with cacheInputAge := ctx.getInputAge mn.vin, cacheInputAgeBlock := nBestHeight }
      else mn
    (mn.cacheInputAge + (nBestHeight - mn.cacheInputAgeBlock), mn)

end

/-! ### What the operations leave alone -/

variable {ctx : MasternodeCtx} {mn : MasternodeEntry}

@[simp] theorem copy_copy (t : Int) : (mn.copy t).copy t = mn.copy t := rfl

theorem copy_eq_self_iff (t : Int) : mn.copy t = mn ↔ mn.nLastPaid = t :=
  ⟨fun h => (congrArg nLastPaid h).symm, fun h => h ▸ rfl⟩

@[simp] theorem vin_check : (mn.check ctx).vin = mn.vin := rfl

@[simp] theorem vin_getMasternodeInputAge : (mn.getMasternodeInputAge ctx).2.vin = mn.vin := by
  unfold getMasternodeInputAge
  cases ctx.nBestHeight with
  | none => rfl
  | some nBestHeight =>
    dsimp only
    split_ifs <;> rfl

end MasternodeEntry

end Sphinx
