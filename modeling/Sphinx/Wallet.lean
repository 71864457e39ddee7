import Mathlib.Data.Finset.Basic
import Sphinx.Env

/-!
# The wallet

`CWallet` and `CWalletTx` of `wallet.h` and `wallet.cpp`, as far as they say which transactions are the
wallet's and which of their outputs are spent: `AddToWallet`, `SyncTransaction`, `EraseFromWallet`,
`CommitTransaction` and what they call.

There are two notions of a spent output.  `vfSpent` marks outputs of a wallet transaction
(`CWalletTx.isSpent`); `mapTxSpends` lists who spends an outpoint (`CWallet.isSpent`).

A function that can throw gives `none` if it does.  A pointer to a wallet transaction is its key in
`mapWallet`.  Supporting transactions, notifications and the request counts are left out.
-/

namespace Sphinx

def ISMINE_NO : Nat := 0
def ISMINE_WATCH_ONLY : Nat := 1
def ISMINE_SPENDABLE : Nat := 2
def ISMINE_ALL : Nat := 3

/-- The values of a wallet transaction that are kept once they are computed. -/
inductive CacheKind
  | debit
  | credit
  | immatureCredit
  | availableCredit
  | anonymizableCredit
  | anonymizedCredit
  | denomUnconfCredit
  | denomConfCredit
  | watchDebit
  | watchCredit
  | immatureWatchCredit
  | availableWatchCredit
  | change
deriving DecidableEq, Repr

structure CWalletTx where
  tx : CTransaction
  hashBlock : Uint256 := 0
  vMerkleBranch : List Uint256 := []
  nIndex : Int := -1
  mapValue : StdMap String String := ∅
  vOrderForm : List (String × String) := []
  nTimeReceived : Nat := 0
  nTimeSmart : Nat := 0
  fFromMe : Bool := false
  strFromAccount : String := ""
  /-- Which outputs are spent; those after the end are not. -/
  vfSpent : List Bool := []
  /-- The cached values; `none` where the flag `f…Cached` is not set. -/
  cached : CacheKind → Option CAmount := fun _ => none
  nOrderPos : Int := -1

/-- `CWalletTx()`. -/
def CWalletTx.empty : CWalletTx where
  tx := { nTime := 0, vin := [], vout := [] }

/-- An element of `wtxOrdered`: a wallet transaction, or the time of an accounting entry. -/
inductive TxPair
  | tx (hash : Uint256)
  | entry (nTime : Int)
deriving DecidableEq, Repr

structure CWallet where
  mapWallet : StdMap Uint256 CWalletTx := ∅
  /-- The pairs of the multimap. -/
  mapTxSpends : List (COutPoint × Uint256) := []
  setLockedCoins : List COutPoint := []
  /-- The multimap by `nOrderPos`, in its order. -/
  wtxOrdered : List (Int × TxPair) := []
  nOrderPosNext : Int := 0
  fFileBacked : Bool := true

/-- What the wallet reads and does not change; it can be different at every call. -/
structure WalletCtx where
  /-- `GetAdjustedTime()`. -/
  nAdjustedTime : Nat := 0
  /-- `mapBlockIndex[hash]->nTime`. -/
  blockTime : Uint256 → Option Nat := fun _ => none
  /-- `::IsMine(keystore, scriptPubKey)`. -/
  isMine : CScript → Nat
  nMinimumInputValue : CAmount := 0
  /-- The narrations that `FindStealthTransactions` finds. -/
  findStealthTransactions : CTransaction → List (String × String) := fun _ => []
  /-- `WriteToDisk` succeeds. -/
  fWritten : Bool := true

/-- `IsMine(tx)`. -/
def WalletCtx.isMineTx (ctx : WalletCtx) (tx : CTransaction) : Bool :=
  tx.vout.any fun txout =>
    ctx.isMine txout.scriptPubKey ≠ ISMINE_NO && ctx.nMinimumInputValue ≤ txout.nValue

namespace CWalletTx

/-- The loop of `UpdateSpent`. -/
def updateSpentLoop : List Bool → List Bool → List Bool
  | f :: vfSpent, g :: vfNewSpent => (g || f) :: updateSpentLoop vfSpent vfNewSpent
  | vfSpent, _ => vfSpent

section

variable (wtx : CWalletTx)

def updateSpent (vfNewSpent : List Bool) : Bool × CWalletTx :=
  let vfSpent := updateSpentLoop wtx.vfSpent vfNewSpent
  if vfSpent = wtx.vfSpent then (false, wtx)
  else (true, { wtx with
    vfSpent := vfSpent
    cached := Function.update wtx.cached .availableCredit none })

/-- `MarkDirty`: `fImmatureCreditCached` is left as it is. -/
def markDirty : CWalletTx :=
  { wtx with cached := fun kind => if kind = .immatureCredit then wtx.cached kind else none }

/-- `vfSpent.resize(vout.size())`. -/
def resizedSpent : List Bool :=
  wtx.vfSpent.take wtx.tx.vout.length ++
    List.replicate (wtx.tx.vout.length - wtx.vfSpent.length) false

/-- `MarkSpent(nOut)` and `MarkUnspent(nOut)`. -/
def setSpent (nOut : Nat) (fSpent : Bool) : Option CWalletTx :=
  if wtx.tx.vout.length ≤ nOut then none
  else
    let vfSpent := wtx.resizedSpent
    if vfSpent.getD nOut false = fSpent then some { wtx with vfSpent := vfSpent }
    else some { wtx with
      vfSpent := vfSpent.set nOut fSpent
      cached := Function.update wtx.cached .availableCredit none }

def markSpent (nOut : Nat) : Option CWalletTx := wtx.setSpent nOut true

def markUnspent (nOut : Nat) : Option CWalletTx := wtx.setSpent nOut false

def isSpent (nOut : Nat) : Option Bool :=
  if wtx.tx.vout.length ≤ nOut then none else some (wtx.vfSpent.getD nOut false)

end

def setMerkleBranch (env : Env) (wtx : CWalletTx) (block : CBlock) : CWalletTx :=
  match block.vtx.idxOf? wtx.tx with
  | none => { wtx with hashBlock := env.getBlockHash block, vMerkleBranch := [], nIndex := -1 }
  | some nIndex => { wtx with
      hashBlock := env.getBlockHash block
      vMerkleBranch := CBlock.getMerkleBranch env.hash2 [] (block.vtx.map env.getHash) nIndex
      nIndex := nIndex }

/-- The outpoints that a transaction spends, "Coinbases don't spend anything!". -/
def spends (wtx : CWalletTx) : List COutPoint := if wtx.tx.isCoinBase then [] else wtx.tx.prevouts

/-- The merge of `AddToWallet`: whether something was updated. -/
def merge (wtx wtxIn : CWalletTx) : Bool × CWalletTx :=
  let fBlock := wtxIn.hashBlock ≠ 0 ∧ wtxIn.hashBlock ≠ wtx.hashBlock
  let wtx1 := if fBlock then { wtx with hashBlock := wtxIn.hashBlock } else wtx
  let fBranch := wtxIn.nIndex ≠ -1 ∧
    (wtxIn.vMerkleBranch ≠ wtx1.vMerkleBranch ∨ wtxIn.nIndex ≠ wtx1.nIndex)
  let wtx2 := if fBranch then
      { wtx1 with vMerkleBranch := wtxIn.vMerkleBranch, nIndex := wtxIn.nIndex }
    else wtx1
  let fFrom := wtxIn.fFromMe = true ∧ wtxIn.fFromMe ≠ wtx2.fFromMe
  let wtx3 := if fFrom then { wtx2 with fFromMe := wtxIn.fFromMe } else wtx2
  let r := wtx3.updateSpent wtxIn.vfSpent
  (decide fBlock || decide fBranch || decide fFrom || r.1, r.2)

end CWalletTx

namespace CWallet

variable (env : Env) (ctx : WalletCtx) (w : CWallet)

/-! ### What is the wallet's -/

/-- The output that an outpoint names, if it is an output of a wallet transaction. -/
def output (o : COutPoint) : Option CTxOut :=
  (w.mapWallet.lookup o.hash).bind fun prev => prev.tx.vout[o.n]?

/-- `IsMine(txin)`, for `::IsMine(keystore, scriptPubKey)`. -/
def isMineIn (isMine : CScript → Nat) (txin : CTxIn) : Bool :=
  match w.output txin.prevout with
  | none => false
  | some txout => isMine txout.scriptPubKey ≠ ISMINE_NO

/-- `GetDebit(txin, filter)`. -/
def getDebitIn (filter : Nat) (txin : CTxIn) : CAmount :=
  match w.output txin.prevout with
  | none => 0
  | some txout => if ctx.isMine txout.scriptPubKey &&& filter ≠ 0 then txout.nValue else 0

/-- One round of `GetDebit`. -/
def addDebit (filter : Nat) (nDebit : CAmount) (txin : CTxIn) : Option CAmount :=
  let nDebit := nDebit + w.getDebitIn ctx filter txin
  if moneyRange nDebit then some nDebit else none

def getDebit (filter : Nat) (tx : CTransaction) : Option CAmount :=
  tx.vin.foldlM (w.addDebit ctx filter) 0

def isFromMe (tx : CTransaction) : Option Bool :=
  (w.getDebit ctx ISMINE_ALL tx).map fun nDebit => decide (0 < nDebit)

/-! ### The index of spent outpoints -/

/-- The transactions that `mapTxSpends` has for an outpoint. -/
def spenders (outpoint : COutPoint) : List Uint256 :=
  (w.mapTxSpends.filter fun e => e.1 = outpoint).map Prod.snd

/-- `mapWallet[hash]`, which inserts an empty transaction if there is none. -/
def ensure (mapWallet : StdMap Uint256 CWalletTx) (hash : Uint256) : StdMap Uint256 CWalletTx :=
  if (mapWallet.lookup hash).isSome then mapWallet else mapWallet.insert hash CWalletTx.empty

/-- The first of the transactions with the smallest `nOrderPos`. -/
def copyFrom (mapWallet : StdMap Uint256 CWalletTx) (hashes : List Uint256) : Option CWalletTx :=
  (hashes.filterMap mapWallet.lookup).foldl (fun best wtx =>
    match best with
    | none => some wtx
    | some first => if wtx.nOrderPos < first.nOrderPos then some wtx else some first) none

/-- The data that `SyncMetaData` copies. -/
def copyMetaData (copyFrom copyTo : CWalletTx) : CWalletTx :=
  { copyTo with
    mapValue := copyFrom.mapValue
    vOrderForm := copyFrom.vOrderForm
    nTimeSmart := copyFrom.nTimeSmart
    fFromMe := copyFrom.fFromMe
    strFromAccount := copyFrom.strFromAccount }

/-- One round of the second loop of `SyncMetaData`. -/
def copyMetaDataTo (copyFrom : CWalletTx) (mapWallet : StdMap Uint256 CWalletTx) (hash : Uint256) :
    StdMap Uint256 CWalletTx :=
  match mapWallet.lookup hash with
  | none => mapWallet
  | some copyTo => mapWallet.insert hash (copyMetaData copyFrom copyTo)

def syncMetaData (outpoint : COutPoint) : CWallet :=
  let hashes := w.spenders outpoint
  let mapWallet := hashes.foldl ensure w.mapWallet
  match copyFrom mapWallet hashes with
  | none => { w with mapWallet := mapWallet }
  | some copyFrom => { w with mapWallet := hashes.foldl (copyMetaDataTo copyFrom) mapWallet }

/-- `AddToSpends(outpoint, wtxid)`. -/
def addToSpendsAt (wtxid : Uint256) (w : CWallet) (outpoint : COutPoint) : CWallet :=
  { w with mapTxSpends := w.mapTxSpends ++ [(outpoint, wtxid)] }.syncMetaData outpoint

/-- `AddToSpends(wtxid)` for a transaction in `mapWallet`. -/
def addToSpends (wtxid : Uint256) (wtx : CWalletTx) : CWallet :=
  wtx.spends.foldl (addToSpendsAt wtxid) w

/-- `IsSpent(hash, n)`; `getDepth` is `GetDepthInMainChain` of a wallet transaction. -/
def isSpent (getDepth : CWalletTx → Int) (hash : Uint256) (n : Nat) : Bool :=
  (w.spenders ⟨hash, n⟩).any fun wtxid =>
    match w.mapWallet.lookup wtxid with
    | none => false
    | some wtx => 0 ≤ getDepth wtx

def getConflicts (txid : Uint256) : Finset Uint256 :=
  match w.mapWallet.lookup txid with
  | none => ∅
  | some wtx =>
    (wtx.tx.prevouts.flatMap fun o =>
      if (w.spenders o).length ≤ 1 then [] else w.spenders o).toFinset

/-! ### Adding and erasing transactions -/

/-- `wtxOrdered.insert`. -/
def insertOrdered (wtxOrdered : List (Int × TxPair)) (nOrderPos : Int) (e : TxPair) :
    List (Int × TxPair) :=
  wtxOrdered.takeWhile (fun p => p.1 ≤ nOrderPos) ++
    (nOrderPos, e) :: wtxOrdered.dropWhile fun p => p.1 ≤ nOrderPos

/-- `nSmartTime` of an element of `wtxOrdered`. -/
def smartTime : TxPair → Int
  | .tx hash =>
    match w.mapWallet.lookup hash with
    | none => 0
    | some wtx => if wtx.nTimeSmart ≠ 0 then wtx.nTimeSmart else wtx.nTimeReceived
  | .entry nTime => nTime

/-- `nTimeSmart` of a transaction that has just been received. -/
def newTimeSmart (hash : Uint256) (wtx : CWalletTx) : Nat :=
  match if wtx.hashBlock ≠ 0 then ctx.blockTime wtx.hashBlock else none with
  | none => wtx.nTimeReceived
  | some blocktime =>
    let latestTolerated : Int := ((wtx.nTimeReceived + 300) % 2 ^ 32 : Nat)
    let others := (w.wtxOrdered.reverse.map Prod.snd).filter (· ≠ TxPair.tx hash)
    match (others.map w.smartTime).find? (· ≤ latestTolerated) with
    | none => min blocktime wtx.nTimeReceived
    | some nSmartTime =>
      let latestEntry := (nSmartTime % 2 ^ 32).toNat
      max latestEntry (min blocktime (max wtx.nTimeReceived latestEntry))

/-- `AddToWallet(wtxIn, true)`. -/
def addFromLoad (wtxIn : CWalletTx) : CWallet :=
  let hash := env.getHash wtxIn.tx
  let wtx := wtxIn.markDirty
  { w with
    mapWallet := w.mapWallet.insert hash wtx
    wtxOrdered := insertOrdered w.wtxOrdered wtx.nOrderPos (.tx hash) }.addToSpends hash wtx

/-- A new transaction as it is inserted. -/
def newWalletTx (wtxIn : CWalletTx) : CWalletTx :=
  let wtx := { wtxIn.markDirty with
    nTimeReceived := ctx.nAdjustedTime
    nOrderPos := w.nOrderPosNext }
  { wtx with nTimeSmart := w.newTimeSmart ctx (env.getHash wtxIn.tx) wtx }

/-- `AddToWallet(wtxIn)`, with its result. -/
def addToWallet (wtxIn : CWalletTx) : Bool × CWallet :=
  let hash := env.getHash wtxIn.tx
  match w.mapWallet.lookup hash with
  | none =>
    let wtx := w.newWalletTx env ctx wtxIn
    (ctx.fWritten, { w with
      mapWallet := w.mapWallet.insert hash wtx
      nOrderPosNext := w.nOrderPosNext + 1
      wtxOrdered := insertOrdered w.wtxOrdered wtx.nOrderPos (.tx hash) })
  | some wtx =>
    let r := wtx.markDirty.merge wtxIn
    if r.1 && !ctx.fWritten then (false, { w with mapWallet := w.mapWallet.insert hash r.2 })
    else (true, { w with mapWallet := w.mapWallet.insert hash r.2.markDirty })

/-- `CWalletTx(this, tx)` with what is known about it. -/
def syncedTx (tx : CTransaction) (pblock : Option CBlock) : CWalletTx :=
  let wtx : CWalletTx := { tx := tx }
  let wtx := { wtx with
    mapValue := (ctx.findStealthTransactions tx).foldl
      (fun m e => if (m.lookup e.1).isSome then m else m.insert e.1 e.2) wtx.mapValue }
  match pblock with
  | none => wtx
  | some block => wtx.setMerkleBranch env block

def addToWalletIfInvolvingMe (tx : CTransaction) (pblock : Option CBlock) : Option (Bool × CWallet) :=
  if (w.mapWallet.lookup (env.getHash tx)).isSome || ctx.isMineTx tx then
    some (w.addToWallet env ctx (syncedTx env ctx tx pblock))
  else
    (w.isFromMe ctx tx).map fun fFromMe =>
      if fFromMe then w.addToWallet env ctx (syncedTx env ctx tx pblock) else (false, w)

/-- `mapWallet[hash].MarkDirty()`, if the transaction is there. -/
def markDirtyAt (w : CWallet) (hash : Uint256) : CWallet :=
  match w.mapWallet.lookup hash with
  | none => w
  | some wtx => { w with mapWallet := w.mapWallet.insert hash wtx.markDirty }

/-- One round of `DisableTransaction`. -/
def disableInput (w : CWallet) (txin : CTxIn) : CWallet :=
  match w.mapWallet.lookup txin.prevout.hash with
  | none => w
  | some prev =>
    match prev.tx.vout[txin.prevout.n]? with
    | none => w
    | some txout =>
      if ctx.isMine txout.scriptPubKey = ISMINE_NO then w
      else
        match prev.markUnspent txin.prevout.n with
        | none => w
        | some prev => { w with mapWallet := w.mapWallet.insert txin.prevout.hash prev }

def disableTransaction (tx : CTransaction) : Option CWallet :=
  if !tx.isCoinStake then some w
  else
    (w.isFromMe ctx tx).map fun fFromMe =>
      if fFromMe then tx.vin.foldl (disableInput ctx) w else w

/-- The part of `SyncTransaction` for a block that is disconnected. -/
def syncDisconnected (tx : CTransaction) : Option CWallet :=
  if tx.isCoinStake then
    (w.isFromMe ctx tx).bind fun fFromMe => if fFromMe then w.disableTransaction ctx tx else some w
  else some w

def syncTransaction (tx : CTransaction) (pblock : Option CBlock) (fConnect : Bool) : Option CWallet := do
  let r ← w.addToWalletIfInvolvingMe env ctx tx pblock
  if !r.1 then return r.2
  let w := (tx.prevouts.map COutPoint.hash).foldl markDirtyAt r.2
  if !fConnect then w.syncDisconnected ctx tx
  else
    let r ← w.addToWalletIfInvolvingMe env ctx tx pblock
    return r.2

def eraseFromWallet (hash : Uint256) : CWallet :=
  if !w.fFileBacked then w else { w with mapWallet := w.mapWallet.erase hash }

/-- One round of "Mark old coins as spent". -/
def markCoin (w : CWallet) (txin : CTxIn) : Option CWallet :=
  let mapWallet := ensure w.mapWallet txin.prevout.hash
  (mapWallet.lookup txin.prevout.hash).bind fun coin =>
    (coin.markDirty.markSpent txin.prevout.n).map fun coin =>
      { w with mapWallet := mapWallet.insert txin.prevout.hash coin }

/-- `CommitTransaction(wtxNew)` up to the broadcast. -/
def commitTransaction (wtxNew : CWalletTx) : Option CWallet :=
  let wtxNew := { wtxNew with
    mapValue := (ctx.findStealthTransactions wtxNew.tx).foldl
      (fun (m : StdMap String String) (e : String × String) => m.insert e.1 e.2) wtxNew.mapValue }
  wtxNew.tx.vin.foldlM markCoin (w.addToWallet env ctx wtxNew).2

end CWallet

end Sphinx
