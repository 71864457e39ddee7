import Mathlib.Algebra.Group.Int.Defs
import Mathlib.Data.Finset.Basic
import Sphinx.Basic

/-!
# Alerts

`ProcessAlert` of `alert.cpp` and what it calls.  The notifications are left out.

An alert is signed as the bytes `vchMsg`.  `CheckSignature` reads the other fields from these bytes; if
the bytes cannot be read it throws, which ends the call just as a wrong signature does.
-/

namespace Sphinx

structure CUnsignedAlert where
  nVersion : Int := 1
  nRelayUntil : Int := 0
  nExpiration : Int := 0
  nID : Int := 0
  nCancel : Int := 0
  setCancel : Finset Int := ∅
  nMinVer : Int := 0
  nMaxVer : Int := 0
  setSubVer : Finset String := ∅
  nPriority : Int := 0
  strComment : String := ""
  strStatusBar : String := ""
  strReserved : String := ""
deriving DecidableEq

structure CAlert extends CUnsignedAlert where
  vchMsg : List UInt8
  vchSig : List UInt8
deriving DecidableEq

/-- `std::numeric_limits<int>::max()`. -/
def maxInt : Int := 2 ^ 31 - 1

/-- The alert key and the functions on bytes. -/
structure AlertEnv where
  hash : List UInt8 → Uint256
  /-- `CPubKey(Params().AlertKey()).Verify(hash, vchSig)`. -/
  verify : Uint256 → List UInt8 → Bool
  /-- `sMsg >> *(CUnsignedAlert*)this`; `none` if it throws. -/
  unserialize : List UInt8 → Option CUnsignedAlert
  /-- `nID` is an `int`. -/
  nID_le : ∀ {vchMsg : List UInt8} {alert : CUnsignedAlert}, unserialize vchMsg = some alert →
    alert.nID ≤ maxInt

/-- An alert as it arrives, at the time `nTime`, which is below `maxInt`. -/
structure AlertMessage where
  vchMsg : List UInt8
  vchSig : List UInt8
  /-- `GetAdjustedTime()`. -/
  nTime : Int
  nTime_lt : nTime < maxInt

namespace CAlert

variable (env : AlertEnv) (nTime : Int)

def getHash (alert : CAlert) : Uint256 := env.hash alert.vchMsg

def isInEffect (alert : CAlert) : Bool := nTime < alert.nExpiration

def cancels (this alert : CAlert) : Bool :=
  if !this.isInEffect nTime then false
  else alert.nID ≤ this.nCancel || alert.nID ∈ this.setCancel

/-- `CheckSignature`, and the alert with the fields it reads. -/
def checkSignature (vchMsg vchSig : List UInt8) : Option CAlert :=
  if !env.verify (env.hash vchMsg) vchSig then none
  else (env.unserialize vchMsg).map fun alert => { alert with vchMsg := vchMsg, vchSig := vchSig }

/-- The fields that an alert with `nID == maxInt` must have. -/
def finalFieldsOk (alert : CAlert) : Bool :=
  alert.nExpiration = maxInt && alert.nCancel = maxInt - 1 && alert.nMinVer = 0 &&
    alert.nMaxVer = maxInt && alert.setSubVer = ∅ && alert.nPriority = maxInt &&
    alert.strStatusBar = "URGENT: Alert key compromised, upgrade required"

/-- The condition under which the first loop erases a stored alert. -/
def erases (this alert : CAlert) : Bool := this.cancels nTime alert || !alert.isInEffect nTime

section

variable (this : CAlert) (mapAlerts : StdMap Uint256 CAlert)

/-- The first loop: "Cancel previous alerts". -/
def cancelPrevious : StdMap Uint256 CAlert :=
  ((mapAlerts.entries.filter fun e => this.erases nTime e.2).map Sigma.fst).foldl
    (fun m h => m.erase h) mapAlerts

/-- `mapAlerts.insert`, which keeps what is there. -/
def insertAlert : StdMap Uint256 CAlert :=
  if (mapAlerts.lookup (this.getHash env)).isSome then mapAlerts
  else mapAlerts.insert (this.getHash env) this

/-- The part of `ProcessAlert` under the lock. -/
def storeAlert : Bool × StdMap Uint256 CAlert :=
  let mapAlerts := this.cancelPrevious nTime mapAlerts
  if mapAlerts.entries.any fun item => item.2.cancels nTime this then (false, mapAlerts)
  else (true, this.insertAlert env mapAlerts)

end

end CAlert

/-- `ProcessAlert`, with its result. -/
def processAlert (env : AlertEnv) (mapAlerts : StdMap Uint256 CAlert) (msg : AlertMessage) :
    Bool × StdMap Uint256 CAlert :=
  match CAlert.checkSignature env msg.vchMsg msg.vchSig with
  | none => (false, mapAlerts)
  | some alert =>
    if !alert.isInEffect msg.nTime then (false, mapAlerts)
    else if alert.nID = maxInt && !alert.finalFieldsOk then (false, mapAlerts)
    else alert.storeAlert env msg.nTime mapAlerts

end Sphinx
