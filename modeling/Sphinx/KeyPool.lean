import Mathlib.Data.Finset.Max
import Sphinx.Masternode

/-!
# The key pool

`TopUpKeyPool`, `NewKeyPool`, `ReserveKeyFromKeyPool`, `KeepKey`, `ReturnKey`, `GetKeyFromPool` and
`GetOldestKeyPoolTime` of `CWallet`, and `CReserveKey`.

The records of the wallet database are an exact map, so that no write fails.  An index is an `int64_t`
and is an `Int` here.
-/

namespace Sphinx

abbrev CKeyID := Nat

/-- `IsValid` of a public key: it has bytes. -/
def CPubKey.isValid (vchPubKey : CPubKey) : Bool := !vchPubKey.isEmpty

structure CKeyPool where
  nTime : Int
  vchPubKey : CPubKey := []
deriving DecidableEq, Repr

/-- What the key pool reads and does not change; it can be different at every call. -/
structure KeyPoolCtx where
  fLocked : Bool := false
  fLiteMode : Bool := false
  /-- The argument `-keypool`, if it is given. -/
  nKeypool : Option Int := none
  nTime : Int := 0
  /-- The public keys of the keys that `MakeNewKey` makes during the call, in order. -/
  newKey : Nat → CPubKey

/-- `max(GetArg("-keypool", …), 0)`. -/
def KeyPoolCtx.keypoolSize (ctx : KeyPoolCtx) : Int :=
  max (ctx.nKeypool.getD (if ctx.fLiteMode then 100 else 1000)) 0

/-- The fields of `CWallet` that the key pool reads or changes. -/
structure KeyPoolWallet where
  setKeyPool : Finset Int := ∅
  /-- The records of the wallet database. -/
  pool : Int → Option CKeyPool := fun _ => none
  /-- The keys for which `HaveKey` is true. -/
  mapKeys : Finset CKeyID := ∅
  fFileBacked : Bool := true
  vchDefaultKey : CPubKey := []

/-- How a call ends: with a value, with an exception or in a failed assertion. -/
inductive Outcome (α : Type)
  | returned (a : α)
  | threw
  | aborted
deriving DecidableEq, Repr

namespace KeyPoolWallet

variable (getID : CPubKey → CKeyID) (ctx : KeyPoolCtx)

section

variable (w : KeyPoolWallet)

def writePool (nIndex : Int) (keypool : CKeyPool) : KeyPoolWallet :=
  { w with pool := Function.update w.pool nIndex (some keypool) }

def erasePool (nIndex : Int) : KeyPoolWallet :=
  { w with pool := Function.update w.pool nIndex none }

def eraseIndex (nIndex : Int) : KeyPoolWallet :=
  { w with setKeyPool := w.setKeyPool.erase nIndex }

/-- `GenerateNewKey`, as the `i`-th of the call. -/
def generateNewKey (i : Nat) : CPubKey × KeyPoolWallet :=
  (ctx.newKey i, { w with mapKeys := insert (getID (ctx.newKey i)) w.mapKeys })

/-- `WritePool(nIndex, CKeyPool(GenerateNewKey()))` and `setKeyPool.insert(nIndex)`. -/
def addNewKey (i : Nat) (nIndex : Int) : KeyPoolWallet :=
  let (vchPubKey, w) := w.generateNewKey getID ctx i
  let w := w.writePool nIndex { nTime := ctx.nTime, vchPubKey := vchPubKey }
  { w with setKeyPool := insert nIndex w.setKeyPool }

/-- `*(--setKeyPool.end()) + 1`, and 1 if there is no index. -/
def nEnd : Int :=
  if h : w.setKeyPool.Nonempty then w.setKeyPool.max' h + 1 else 1

end

/-- The loop of `TopUpKeyPool` up to the size `nSize`; `i` keys have been made. -/
def topUpLoop (nSize : Nat) : Nat → Nat → KeyPoolWallet → KeyPoolWallet
  | 0, _, w => w
  | fuel + 1, i, w =>
    if w.setKeyPool.card < nSize then topUpLoop nSize fuel (i + 1) (w.addNewKey getID ctx i w.nEnd)
    else w

/-- The size at which `TopUpKeyPool` stops: `nTargetSize + 1` as an `unsigned int`. -/
def topUpSize (nSize : Nat) : Nat :=
  ((if 0 < nSize then nSize else ctx.keypoolSize.toNat % 2 ^ 32) + 1) % 2 ^ 32

def topUpKeyPool (w : KeyPoolWallet) (nSize : Nat) : Bool × KeyPoolWallet :=
  if ctx.fLocked then (false, w)
  else (true, topUpLoop getID ctx (topUpSize ctx nSize) (topUpSize ctx nSize) 0 w)

/-- The records of all indices are erased and the set is cleared. -/
def clearPool (w : KeyPoolWallet) : KeyPoolWallet :=
  { w with
    pool := fun nIndex => if nIndex ∈ w.setKeyPool then none else w.pool nIndex
    setKeyPool := ∅ }

def newKeyPool (w : KeyPoolWallet) : Bool × KeyPoolWallet :=
  let w := w.clearPool
  if ctx.fLocked then (false, w)
  else (true, (List.range ctx.keypoolSize.toNat).foldl
    (fun w i => w.addNewKey getID ctx i (i + 1)) w)

/-- What `ReserveKeyFromKeyPool` leaves: its two arguments by reference are set before it throws. -/
structure Reserved where
  outcome : Outcome Unit
  nIndex : Int
  keypool : CKeyPool
  wallet : KeyPoolWallet

def reserveKeyFromKeyPool (w : KeyPoolWallet) : Reserved :=
  let w := (w.topUpKeyPool getID ctx 0).2
  let keypool : CKeyPool := { nTime := ctx.nTime }
  if h : w.setKeyPool.Nonempty then
    let nIndex := w.setKeyPool.min' h
    let w := w.eraseIndex nIndex
    match w.pool nIndex with
    | none => ⟨.threw, nIndex, keypool, w⟩
    | some keypool =>
      if getID keypool.vchPubKey ∉ w.mapKeys then ⟨.threw, nIndex, keypool, w⟩
      else if CPubKey.isValid keypool.vchPubKey then ⟨.returned (), nIndex, keypool, w⟩
      else ⟨.aborted, nIndex, keypool, w⟩
  else ⟨.returned (), -1, keypool, w⟩

def keepKey (w : KeyPoolWallet) (nIndex : Int) : KeyPoolWallet :=
  if w.fFileBacked then w.erasePool nIndex else w

def returnKey (w : KeyPoolWallet) (nIndex : Int) : KeyPoolWallet :=
  { w with setKeyPool := insert nIndex w.setKeyPool }

/-- `GetKeyFromPool`, with the key if it returns true. -/
def getKeyFromPool (w : KeyPoolWallet) : Outcome (Option CPubKey) × KeyPoolWallet :=
  let res := w.reserveKeyFromKeyPool getID ctx
  match res.outcome with
  | .threw => (.threw, res.wallet)
  | .aborted => (.aborted, res.wallet)
  | .returned () =>
    if res.nIndex = -1 then
      if ctx.fLocked then (.returned none, res.wallet)
      else
        -- the pool was topped up to no keys: the target size plus 1 is 0 as an `unsigned int`
        let (vchPubKey, w) := res.wallet.generateNewKey getID ctx 0
        (.returned (some vchPubKey), w)
    else (.returned (some res.keypool.vchPubKey), res.wallet.keepKey res.nIndex)

def getOldestKeyPoolTime (w : KeyPoolWallet) : Outcome Int × KeyPoolWallet :=
  let res := w.reserveKeyFromKeyPool getID ctx
  match res.outcome with
  | .threw => (.threw, res.wallet)
  | .aborted => (.aborted, res.wallet)
  | .returned () =>
    if res.nIndex = -1 then (.returned ctx.nTime, res.wallet)
    else (.returned res.keypool.nTime, res.wallet.returnKey res.nIndex)

end KeyPoolWallet

structure CReserveKey where
  nIndex : Int := -1
  vchPubKey : CPubKey := []
deriving DecidableEq, Repr

namespace CReserveKey

/-- The end of `GetReservedKey`. -/
def reservedKey (reserve : CReserveKey) (w : KeyPoolWallet) :
    Outcome (Option CPubKey) × CReserveKey × KeyPoolWallet :=
  if CPubKey.isValid reserve.vchPubKey then (.returned (some reserve.vchPubKey), reserve, w)
  else (.aborted, reserve, w)

/-- `GetReservedKey`, with the key if it returns true. -/
def getReservedKey (getID : CPubKey → CKeyID) (ctx : KeyPoolCtx) (w : KeyPoolWallet) (reserve : CReserveKey) :
    Outcome (Option CPubKey) × CReserveKey × KeyPoolWallet :=
  if reserve.nIndex = -1 then
    let res := w.reserveKeyFromKeyPool getID ctx
    match res.outcome with
    | .threw => (.threw, { reserve with nIndex := res.nIndex }, res.wallet)
    | .aborted => (.aborted, { reserve with nIndex := res.nIndex }, res.wallet)
    | .returned () =>
      if res.nIndex ≠ -1 then
        reservedKey { nIndex := res.nIndex, vchPubKey := res.keypool.vchPubKey } res.wallet
      else if CPubKey.isValid res.wallet.vchDefaultKey then
        reservedKey { nIndex := -1, vchPubKey := res.wallet.vchDefaultKey } res.wallet
      else (.returned none, { reserve with nIndex := -1 }, res.wallet)
  else reservedKey reserve w

def keepKey (w : KeyPoolWallet) (reserve : CReserveKey) : CReserveKey × KeyPoolWallet :=
  ({}, if reserve.nIndex ≠ -1 then w.keepKey reserve.nIndex else w)

/-- `ReturnKey`, which is also the destructor. -/
def returnKey (w : KeyPoolWallet) (reserve : CReserveKey) : CReserveKey × KeyPoolWallet :=
  ({}, if reserve.nIndex ≠ -1 then w.returnKey reserve.nIndex else w)

end CReserveKey

end Sphinx
