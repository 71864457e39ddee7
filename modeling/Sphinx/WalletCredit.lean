import Sphinx.Wallet
import Sphinx.StashedsendPool

/-!
# Credits of a wallet transaction

The queries `GetDebit`, `GetCredit`, … of `CWalletTx` in `wallet.h`, with the values they keep, and
`AvailableCoins`.  A query gives its value, `none` if it throws, and the transaction with what it has
cached.  `GetDebit`, `GetCredit` and `GetChange` always use what is cached; in the model all queries have
the parameter `fUseCache`.

The transaction is bound to its wallet: `pwallet` is not null.
-/

namespace Sphinx

/-- A transaction and its place in a block. -/
structure CMerkleTx where
  tx : CTransaction
  hashBlock : Uint256
  vMerkleBranch : List Uint256
  nIndex : Int
deriving DecidableEq, Repr

def CWalletTx.toMerkleTx (wtx : CWalletTx) : CMerkleTx where
  tx := wtx.tx
  hashBlock := wtx.hashBlock
  vMerkleBranch := wtx.vMerkleBranch
  nIndex := wtx.nIndex

/-- The chain, the keys and the settings. -/
structure CreditCtx extends WalletCtx where
  /-- `GetDepthInMainChain(enableIX)`. -/
  getDepthInMainChain : Bool → CMerkleTx → Int
  isInMainChain : CMerkleTx → Bool
  isFinalTx : CTransaction → Bool
  nCoinbaseMaturity : Int
  /-- `IsChange(txout)`. -/
  isChange : CTxOut → Bool
  fConfChange : Bool := false
  fMasterNode : Bool := false
  /-- `GetMNCollateral(pindexBest->nHeight)*COIN`. -/
  mnCollateral : CAmount := 0
  /-- `GetInputStashedsendRounds` of an outpoint. -/
  getInputStashedsendRounds : COutPoint → Int := fun _ => 0
  nStashedsendRounds : Int := 2

inductive AvailableCoinsType
  | allCoins
  | onlyDenominated
  | onlyNot10000IfMN
  | onlyNonDenominatedNot10000IfMN
deriving DecidableEq, Repr

def stashedsendCollateral : CAmount := 1000000

def isDenominatedAmount (nInputAmount : CAmount) : Bool := nInputAmount ∈ stashedSendDenominations

def isCollateralAmount (nInputAmount : CAmount) : Bool :=
  nInputAmount ≠ 0 && nInputAmount % stashedsendCollateral = 0 &&
    nInputAmount < stashedsendCollateral * 5 && stashedsendCollateral < nInputAmount

/-- The queries, with their arguments apart from `fUseCache`. -/
inductive CreditQuery
  | debit (filter : Nat)
  | credit (filter : Nat)
  | immatureCredit
  | availableCredit
  | anonymizableCredit
  | anonymizedCredit
  | denominatedCredit (unconfirmed : Bool)
  | immatureWatchOnlyCredit
  | availableWatchOnlyCredit
  | change
deriving DecidableEq, Repr

namespace CWallet

variable (ctx : CreditCtx) (w : CWallet)

/-- `GetCredit(txout, filter)`. -/
def getCreditOut (filter : Nat) (txout : CTxOut) : Option CAmount :=
  if !moneyRange txout.nValue then none
  else some (if ctx.isMine txout.scriptPubKey &&& filter ≠ 0 then txout.nValue else 0)

/-- `GetChange(txout)`. -/
def getChangeOut (txout : CTxOut) : Option CAmount :=
  if !moneyRange txout.nValue then none else some (if ctx.isChange txout then txout.nValue else 0)

/-- One round of a loop that adds up values. -/
def addCredit {α : Type} (value : α → Option CAmount) (nCredit : CAmount) (a : α) : Option CAmount :=
  (value a).bind fun c => if moneyRange (nCredit + c) then some (nCredit + c) else none

def getCredit (filter : Nat) (tx : CTransaction) : Option CAmount :=
  tx.vout.foldlM (addCredit (getCreditOut ctx filter)) 0

def getChange (tx : CTransaction) : Option CAmount := tx.vout.foldlM (addCredit (getChangeOut ctx)) 0

def isLockedCoin (hash : Uint256) (n : Nat) : Bool := ⟨hash, n⟩ ∈ w.setLockedCoins

def lockCoin (output : COutPoint) : CWallet :=
  { w with setLockedCoins := if output ∈ w.setLockedCoins then w.setLockedCoins
      else output :: w.setLockedCoins }

def unlockCoin (output : COutPoint) : CWallet :=
  { w with setLockedCoins := w.setLockedCoins.filter (· ≠ output) }

/-- `IsSpent(hash, n)` in the chain of `ctx`. -/
def isSpentNow (hash : Uint256) (n : Nat) : Bool :=
  w.isSpent (fun wtx => ctx.getDepthInMainChain true wtx.toMerkleTx) hash n

def isDenominated (o : COutPoint) : Bool :=
  match w.output o with
  | none => false
  | some txout => isDenominatedAmount txout.nValue

end CWallet

namespace CWalletTx

variable (env : Env) (ctx : CreditCtx) (w : CWallet) (wtx : CWalletTx)

/-! ### Values without a cache -/

def getBlocksToMaturity : Int :=
  if !(wtx.tx.isCoinBase || wtx.tx.isCoinStake) then 0
  else max 0 (ctx.nCoinbaseMaturity - ctx.getDepthInMainChain true wtx.toMerkleTx)

/-- "Must wait until coinbase is safely deep enough in the chain before valuing it". -/
def isImmature : Bool :=
  (wtx.tx.isCoinBase || wtx.tx.isCoinStake) && 0 < wtx.getBlocksToMaturity ctx

/-- The loop over `vout` that adds up the outputs which `counted` does not leave out. -/
def sumOutputs (filter : Nat) (counted : Nat → CTxOut → Bool) : Option CAmount :=
  wtx.tx.vout.zipIdx.foldlM (CWallet.addCredit fun e =>
    if counted e.2 e.1 then CWallet.getCreditOut ctx filter e.1 else some 0) 0

/-- What `GetAvailableCredit` counts. -/
def countsAvailable (i : Nat) (_ : CTxOut) : Bool := !(wtx.vfSpent.getD i false)

/-- What `GetAnonymizableCredit` counts, apart from the lock of the coin. -/
def countsAnonymizable (i : Nat) (txout : CTxOut) : Bool :=
  let hashTx := env.getHash wtx.tx
  let rounds := ctx.getInputStashedsendRounds ⟨hashTx, i⟩
  !w.isSpentNow ctx hashTx i && !(ctx.fMasterNode && txout.nValue = ctx.mnCollateral) &&
    (-2 ≤ rounds && rounds < ctx.nStashedsendRounds)

/-- What `GetAnonymizedCredit` counts. -/
def countsAnonymized (i : Nat) (_ : CTxOut) : Bool :=
  let hashTx := env.getHash wtx.tx
  !w.isSpentNow ctx hashTx i && w.isDenominated ⟨hashTx, i⟩ &&
    ctx.nStashedsendRounds ≤ ctx.getInputStashedsendRounds ⟨hashTx, i⟩

/-- What `GetDenominatedCredit` counts. -/
def countsDenominated (i : Nat) (txout : CTxOut) : Bool :=
  !w.isSpentNow ctx (env.getHash wtx.tx) i && isDenominatedAmount txout.nValue

/-- What `GetAvailableWatchOnlyCredit` counts. -/
def countsWatchOnly (i : Nat) (_ : CTxOut) : Bool := !w.isSpentNow ctx (env.getHash wtx.tx) i

/-- The value that is kept in a cache, computed. -/
def compute : CacheKind → Option CAmount
  | .debit => w.getDebit ctx.toWalletCtx ISMINE_SPENDABLE wtx.tx
  | .watchDebit => w.getDebit ctx.toWalletCtx ISMINE_WATCH_ONLY wtx.tx
  | .credit => CWallet.getCredit ctx ISMINE_SPENDABLE wtx.tx
  | .watchCredit => CWallet.getCredit ctx ISMINE_WATCH_ONLY wtx.tx
  | .immatureCredit => CWallet.getCredit ctx ISMINE_SPENDABLE wtx.tx
  | .immatureWatchCredit => CWallet.getCredit ctx ISMINE_WATCH_ONLY wtx.tx
  | .availableCredit => wtx.sumOutputs ctx ISMINE_SPENDABLE wtx.countsAvailable
  | .anonymizableCredit => wtx.sumOutputs ctx ISMINE_SPENDABLE fun i txout =>
      wtx.countsAnonymizable env ctx w i txout && !w.isLockedCoin (env.getHash wtx.tx) i
  | .anonymizedCredit => wtx.sumOutputs ctx ISMINE_SPENDABLE (wtx.countsAnonymized env ctx w)
  | .denomUnconfCredit => wtx.sumOutputs ctx ISMINE_SPENDABLE (wtx.countsDenominated env ctx w)
  | .denomConfCredit => wtx.sumOutputs ctx ISMINE_SPENDABLE (wtx.countsDenominated env ctx w)
  | .availableWatchCredit => wtx.sumOutputs ctx ISMINE_WATCH_ONLY (wtx.countsWatchOnly env ctx w)
  | .change => CWallet.getChange ctx wtx.tx

/-! ### Queries -/

/-- What follows a computation that may throw. -/
def andThen {α β : Type} (r : Option α × CWalletTx) (f : α → CWalletTx → Option β × CWalletTx) :
    Option β × CWalletTx :=
  match r.1 with
  | none => (none, r.2)
  | some a => f a r.2

/-- The cached value, or the computed one, which is cached then. -/
def cachedOr (fUseCache : Bool) (kind : CacheKind) : Option CAmount × CWalletTx :=
  match if fUseCache then wtx.cached kind else none with
  | some value => (some value, wtx)
  | none =>
    match wtx.compute env ctx w kind with
    | none => (none, wtx)
    | some value => (some value, { wtx with cached := Function.update wtx.cached kind (some value) })

/-- The sum of a spendable and a watch-only part, as far as `filter` asks for them. -/
def filteredSum (fUseCache : Bool) (filter : Nat) (kind watchKind : CacheKind) :
    Option CAmount × CWalletTx :=
  andThen (if filter &&& ISMINE_SPENDABLE ≠ 0 then wtx.cachedOr env ctx w fUseCache kind
      else (some 0, wtx)) fun value wtx =>
    andThen (if filter &&& ISMINE_WATCH_ONLY ≠ 0 then wtx.cachedOr env ctx w fUseCache watchKind
        else (some 0, wtx)) fun watchValue wtx => (some (value + watchValue), wtx)

def getDebit (fUseCache : Bool) (filter : Nat) : Option CAmount × CWalletTx :=
  if wtx.tx.vin.isEmpty then (some 0, wtx)
  else wtx.filteredSum env ctx w fUseCache filter .debit .watchDebit

/-- The loop of `IsTrusted` over the parents. -/
def parentsTrusted : Bool :=
  wtx.tx.prevouts.all fun o =>
    match w.output o with
    | none => false
    | some parentOut => ctx.isMine parentOut.scriptPubKey = ISMINE_SPENDABLE

/-- `IsTrusted()`, which uses the cached debit. -/
def isTrusted : Option Bool × CWalletTx :=
  let nDepth := ctx.getDepthInMainChain true wtx.toMerkleTx
  if !ctx.isFinalTx wtx.tx then (some false, wtx)
  else if 1 ≤ nDepth then (some true, wtx)
  else if nDepth < 0 || ctx.fConfChange then (some false, wtx)
  else andThen (wtx.getDebit env ctx w true ISMINE_ALL) fun nDebit wtx =>
    (some (decide (0 < nDebit) && wtx.parentsTrusted ctx w), wtx)

/-- `isUnconfirmed` of `GetDenominatedCredit`. -/
def isUnconfirmed : Option Bool × CWalletTx :=
  if !ctx.isFinalTx wtx.tx then (some true, wtx)
  else andThen (wtx.isTrusted env ctx w) fun fTrusted wtx =>
    (some (!fTrusted && ctx.getDepthInMainChain false wtx.toMerkleTx = 0), wtx)

def getDenominatedCredit (unconfirmed fUseCache : Bool) : Option CAmount × CWalletTx :=
  if wtx.isImmature ctx || ctx.getDepthInMainChain false wtx.toMerkleTx < 0 then (some 0, wtx)
  else andThen (wtx.isUnconfirmed env ctx w) fun isUnconfirmed wtx =>
    if unconfirmed ≠ isUnconfirmed then (some 0, wtx)
    else wtx.cachedOr env ctx w fUseCache (if unconfirmed then .denomUnconfCredit else .denomConfCredit)

/-- A query, with the transaction after it. -/
def query (fUseCache : Bool) : CreditQuery → Option CAmount × CWalletTx
  | .debit filter => wtx.getDebit env ctx w fUseCache filter
  | .credit filter =>
    if wtx.isImmature ctx then (some 0, wtx)
    else wtx.filteredSum env ctx w fUseCache filter .credit .watchCredit
  | .immatureCredit =>
    if wtx.tx.isCoinBase && 0 < wtx.getBlocksToMaturity ctx && ctx.isInMainChain wtx.toMerkleTx then
      wtx.cachedOr env ctx w fUseCache .immatureCredit
    else (some 0, wtx)
  | .availableCredit =>
    if wtx.isImmature ctx then (some 0, wtx) else wtx.cachedOr env ctx w fUseCache .availableCredit
  | .anonymizableCredit =>
    if wtx.isImmature ctx then (some 0, wtx) else wtx.cachedOr env ctx w fUseCache .anonymizableCredit
  | .anonymizedCredit =>
    if wtx.isImmature ctx then (some 0, wtx) else wtx.cachedOr env ctx w fUseCache .anonymizedCredit
  | .denominatedCredit unconfirmed => wtx.getDenominatedCredit env ctx w unconfirmed fUseCache
  | .immatureWatchOnlyCredit =>
    if wtx.isImmature ctx && ctx.isInMainChain wtx.toMerkleTx then
      wtx.cachedOr env ctx w fUseCache .immatureWatchCredit
    else (some 0, wtx)
  | .availableWatchOnlyCredit =>
    if wtx.isImmature ctx then (some 0, wtx)
    else wtx.cachedOr env ctx w fUseCache .availableWatchCredit
  | .change => wtx.cachedOr env ctx w fUseCache .change

end CWalletTx

/-! ### `AvailableCoins` -/

/-- What `AvailableCoins` is asked for; `selected` is the set of a coin control that has one. -/
structure CoinRequest where
  fOnlyConfirmed : Bool := true
  selected : Option (List COutPoint) := none
  coinType : AvailableCoinsType := .allCoins
  useIX : Bool := false

/-- The `COutput`s: a transaction, an output of it, its depth, and whether it can be spent. -/
structure COutput where
  hash : Uint256
  i : Nat
  nDepth : Int
  fSpendable : Bool
deriving DecidableEq, Repr

/-- The outputs that a coin type asks for. -/
def CreditCtx.coinTypeFound (ctx : CreditCtx) (coinType : AvailableCoinsType) (nValue : CAmount) : Bool :=
  match coinType with
  | .allCoins => true
  | .onlyDenominated => isDenominatedAmount nValue
  | .onlyNot10000IfMN => !(ctx.fMasterNode && nValue = ctx.mnCollateral)
  | .onlyNonDenominatedNot10000IfMN =>
    !isCollateralAmount nValue && !isDenominatedAmount nValue &&
      !(ctx.fMasterNode && nValue = ctx.mnCollateral)

namespace CWallet

variable (env : Env) (ctx : CreditCtx) (w : CWallet) (request : CoinRequest)

/-- The checks of `AvailableCoins` on a transaction.  An exception of `IsTrusted` is not distinguished
from a transaction that is not trusted. -/
def offersCoins (pcoin : CWalletTx) : Bool :=
  let nDepth := ctx.getDepthInMainChain false pcoin.toMerkleTx
  ctx.isFinalTx pcoin.tx &&
    !(request.fOnlyConfirmed && !(pcoin.isTrusted env ctx w).1.getD false) &&
    !pcoin.isImmature ctx && 0 < nDepth && !(request.useIX && nDepth < 10)

/-- The checks of `AvailableCoins` on an output. -/
def offersOutput (hash : Uint256) (pcoin : CWalletTx) (txout : CTxOut) (i : Nat) : Bool :=
  ctx.coinTypeFound request.coinType txout.nValue &&
    !(pcoin.vfSpent.getD i false) && ctx.isMine txout.scriptPubKey ≠ ISMINE_NO &&
    !w.isLockedCoin hash i && 0 < txout.nValue &&
    (match request.selected with
      | none => true
      | some setSelected => setSelected.isEmpty || ⟨hash, i⟩ ∈ setSelected)

/-- The outputs of one transaction that `AvailableCoins` returns. -/
def coinsOf (hash : Uint256) (pcoin : CWalletTx) : List COutput :=
  if !w.offersCoins env ctx request pcoin then []
  else
    (pcoin.tx.vout.zipIdx.filter fun e => w.offersOutput ctx request hash pcoin e.1 e.2).map fun e =>
      { hash := hash
        i := e.2
        nDepth := ctx.getDepthInMainChain false pcoin.toMerkleTx
        fSpendable := ctx.isMine e.1.scriptPubKey &&& ISMINE_SPENDABLE ≠ 0 }

def availableCoins : List COutput :=
  w.mapWallet.entries.flatMap fun e => w.coinsOf env ctx request e.1 e.2

end CWallet

end Sphinx
