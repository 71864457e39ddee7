import Sphinx.WalletCredit

/-!
# Coin selection

`ApproximateBestSubset`, `CWallet::SelectCoinsMinConf` and `CWallet::SelectCoins` of `wallet.cpp`.

A pair of a wallet transaction and an output is named by the key of the transaction in `mapWallet` and the index
of the output.  A set of such pairs is a list without repetitions; its order, by the addresses of the
transactions, is not known.
-/

namespace Sphinx

/-- An element of `vCoins`, with what is read through its transaction. -/
structure SpendCoin where
  prevout : COutPoint
  /-- `tx->vout[i].nValue`. -/
  nValue : CAmount
  /-- `tx->nTime`. -/
  nTime : Nat
  /-- `tx->IsFromMe(ISMINE_ALL)`. -/
  fFromMe : Bool
  nDepth : Int
  fSpendable : Bool
deriving DecidableEq, Repr

/-! ### The subset search -/

/-- The variables of a round of `ApproximateBestSubset`. -/
structure SubsetSearch where
  vfIncluded : List Bool
  nTotal : CAmount := 0
  fReachedTarget : Bool := false
  vfBest : List Bool
  nBest : CAmount
deriving DecidableEq, Repr

section

variable (vValue : List CAmount) (nTargetValue : CAmount)

/-- Value `i` is included, and taken out again if the target is reached. -/
def SubsetSearch.include (s : SubsetSearch) (i : Nat) :
    SubsetSearch :=
  let nTotal := s.nTotal + vValue.getD i 0
  let vfIncluded := s.vfIncluded.set i true
  if nTargetValue ≤ nTotal then
    { vfIncluded := vfIncluded.set i false
      nTotal := nTotal - vValue.getD i 0
      fReachedTarget := true
      vfBest := if nTotal < s.nBest then vfIncluded else s.vfBest
      nBest := if nTotal < s.nBest then nTotal else s.nBest }
  else { s with vfIncluded := vfIncluded, nTotal := nTotal }

/-- A pass over the values. -/
def subsetPass (takes : List Bool → Nat → Bool)
    (s : SubsetSearch) : SubsetSearch :=
  (List.range vValue.length).foldl (fun s i =>
    if takes s.vfIncluded i then s.include vValue nTargetValue i else s) s

/-- A round: the first pass includes values at random, the second one those left. -/
def subsetRound (insecureRand : Nat → Bool)
    (best : List Bool × CAmount) : List Bool × CAmount :=
  let s : SubsetSearch :=
    { vfIncluded := List.replicate vValue.length false, vfBest := best.1, nBest := best.2 }
  let s := subsetPass vValue nTargetValue (fun _ i => insecureRand i) s
  let s := if s.fReachedTarget then s
    else subsetPass vValue nTargetValue (fun vfIncluded i => !vfIncluded.getD i false) s
  (s.vfBest, s.nBest)

end

/-- The loop over `nRep`, with the number of rounds left. -/
def subsetLoop (vValue : List CAmount) (nTargetValue : CAmount) (insecureRand : Nat → Nat → Bool) :
    Nat → Nat → List Bool × CAmount → List Bool × CAmount
  | 0, _, best => best
  | n + 1, nRep, best =>
    if best.2 = nTargetValue then best
    else subsetLoop vValue nTargetValue insecureRand n (nRep + 1)
      (subsetRound vValue nTargetValue (insecureRand nRep) best)

/-- `ApproximateBestSubset`: `vfBest` and `nBest`. -/
def approximateBestSubset (vValue : List CAmount) (nTotalLower nTargetValue : CAmount)
    (insecureRand : Nat → Nat → Bool) (iterations : Nat) : List Bool × CAmount :=
  subsetLoop vValue nTargetValue insecureRand iterations 0 (List.replicate vValue.length true, nTotalLower)

/-! ### `SelectCoinsMinConf` -/

/-- The random choices of a call, and the order in which a sort leaves equal elements. -/
structure SelectRandom where
  /-- `random_shuffle(vCoins.begin(), vCoins.end(), GetRandInt)`. -/
  shuffle : List SpendCoin → List SpendCoin
  shuffle_perm : ∀ vCoins, (shuffle vCoins).Perm vCoins
  /-- `sort(vValue.rbegin(), vValue.rend(), CompareValueOnly())`. -/
  sortValues : List SpendCoin → List SpendCoin
  sortValues_perm : ∀ vValue, (sortValues vValue).Perm vValue
  sortValues_sorted : ∀ vValue, (sortValues vValue).Pairwise fun c c' => c'.nValue ≤ c.nValue
  /-- `insecure_rand()&1`, for a call of `ApproximateBestSubset`, a round and a value. -/
  insecureRand : Nat → Nat → Nat → Bool

/-- The limits that a coin has to keep. -/
structure CoinLimits where
  nSpendTime : Nat
  nConfMine : Int
  nConfTheirs : Int
deriving DecidableEq, Repr

/-- "Follow the timestamp rules". -/
def CoinLimits.allows (limits : CoinLimits) (output : SpendCoin) : Bool :=
  output.fSpendable && !(output.nDepth < if output.fFromMe then limits.nConfMine else limits.nConfTheirs) &&
    !(limits.nSpendTime < output.nTime)

/-- What `SelectCoinsMinConf` returns. -/
structure SelectResult where
  fOk : Bool
  setCoinsRet : List COutPoint := []
  nValueRet : CAmount := 0
deriving DecidableEq, Repr

/-- `return true` after these coins are added. -/
def SelectResult.ofCoins (coins : List SpendCoin) : SelectResult where
  fOk := true
  setCoinsRet := (coins.map SpendCoin.prevout).dedup
  nValueRet := (coins.map SpendCoin.nValue).sum

/-- The variables of the loop over the coins. -/
structure CoinScan where
  vValue : List SpendCoin := []
  nTotalLower : CAmount := 0
  /-- Its value is `std::numeric_limits<int64_t>::max()` where there is no coin. -/
  coinLowestLarger : Option SpendCoin := none
deriving DecidableEq, Repr

def CoinScan.lowestLarger (scan : CoinScan) : CAmount :=
  match scan.coinLowestLarger with
  | none => 2 ^ 63 - 1
  | some coin => coin.nValue

/-- `sort(vCoins.begin(), vCoins.end(), less_then_denom)` of a shuffled list. -/
def denomsDown (vCoins : List SpendCoin) : List SpendCoin :=
  vCoins.filter (fun output => !isDenominatedAmount output.nValue) ++
    vCoins.filter fun output => isDenominatedAmount output.nValue

variable (random : SelectRandom) (limits : CoinLimits) (nTargetValue : CAmount)

/-- A round of the loop over the coins; an error is `return`. -/
def considerCoin (tryDenom : Nat) (scan : CoinScan) (output : SpendCoin) : Except SelectResult CoinScan :=
  if !limits.allows output then .ok scan
  -- "we don't want denom values on first run"
  else if tryDenom = 0 && isDenominatedAmount output.nValue then .ok scan
  else if output.nValue = nTargetValue then .error (.ofCoins [output])
  else if output.nValue < nTargetValue + cent then
    .ok { scan with vValue := scan.vValue ++ [output], nTotalLower := scan.nTotalLower + output.nValue }
  else if output.nValue < scan.lowestLarger then .ok { scan with coinLowestLarger := some output }
  else .ok scan

/-- The coins whose flag is set. -/
def flagged (vValue : List SpendCoin) (vfBest : List Bool) : List SpendCoin :=
  ((vValue.zip vfBest).filter Prod.snd).map Prod.fst

/-- What follows the loop over the coins: every path returns. -/
def finishSelection (scan : CoinScan) : SelectResult :=
  if scan.nTotalLower = nTargetValue then .ofCoins scan.vValue
  else if scan.nTotalLower < nTargetValue then
    match scan.coinLowestLarger with
    | none => { fOk := false }
    | some coin => .ofCoins [coin]
  else
    let vValue := random.sortValues scan.vValue
    let values := vValue.map SpendCoin.nValue
    let best := approximateBestSubset values scan.nTotalLower nTargetValue (random.insecureRand 0) 1000
    let best := if best.2 ≠ nTargetValue ∧ nTargetValue + cent ≤ scan.nTotalLower then
        approximateBestSubset values scan.nTotalLower (nTargetValue + cent) (random.insecureRand 1) 1000
      else best
    match scan.coinLowestLarger with
    | none => .ofCoins (flagged vValue best.1)
    | some coin =>
      if (best.2 ≠ nTargetValue ∧ best.2 < nTargetValue + cent) ∨ coin.nValue ≤ best.2 then .ofCoins [coin]
      else .ofCoins (flagged vValue best.1)

/-- A round of the loop over `tryDenom`, which starts with the `coinLowestLarger` of the round before. -/
def selectCoinsRound (vCoins : List SpendCoin) (coinLowestLarger : Option SpendCoin) (tryDenom : Nat) :
    Except SelectResult (Option SpendCoin) := do
  let scan ← vCoins.foldlM (considerCoin limits nTargetValue tryDenom) { coinLowestLarger := coinLowestLarger }
  throw (finishSelection random nTargetValue scan)

def selectCoinsMinConf (vCoins : List SpendCoin) : SelectResult :=
  let vCoins := denomsDown (random.shuffle vCoins)
  match [0, 1].foldlM (selectCoinsRound random limits nTargetValue vCoins) none with
  | .error result => result
  | .ok _ => { fOk := false }

/-! ### `SelectCoins` -/

/-- The coins and the change address that the user has chosen. -/
structure CCoinControl where
  setSelected : List COutPoint := []
  /-- `GetScriptForDestination(destChange)`, unless it is `CNoDestination()`. -/
  destChange : Option CScript := none
deriving DecidableEq, Repr

def CCoinControl.hasSelected (coinControl : CCoinControl) : Bool := !coinControl.setSelected.isEmpty

/-- A call of `SelectCoins`, apart from the target. -/
structure SelectRequest where
  nSpendTime : Nat
  coinControl : Option CCoinControl := none
  coinType : AvailableCoinsType := .allCoins
  useIX : Bool := false
deriving DecidableEq, Repr

namespace CWallet

variable (env : Env) (ctx : CreditCtx) (w : CWallet)

/-- The wallet transaction of a coin. -/
def coinTx (o : COutPoint) : CWalletTx := (w.mapWallet.lookup o.hash).getD .empty

/-- The value of a coin. -/
def coinValue (o : COutPoint) : CAmount :=
  match w.output o with
  | none => 0
  | some txout => txout.nValue

/-- An element of `vCoins`.  An exception of `IsFromMe` is not distinguished from `false`. -/
def spendCoin (out : COutput) : SpendCoin :=
  let pcoin := w.coinTx ⟨out.hash, out.i⟩
  { prevout := ⟨out.hash, out.i⟩
    nValue := w.coinValue ⟨out.hash, out.i⟩
    nTime := pcoin.tx.nTime
    fFromMe := 0 < (pcoin.getDebit env ctx w true ISMINE_ALL).1.getD 0
    nDepth := out.nDepth
    fSpendable := out.fSpendable }

/-- "make sure it's actually anonymized". -/
def isAnonymized (out : SpendCoin) : Bool :=
  let rounds := ctx.getInputStashedsendRounds ⟨env.getHash (w.coinTx out.prevout).tx, out.prevout.n⟩
  !(rounds < ctx.nStashedsendRounds)

/-- The loop through the denominations, from large to small, up to `0.1*COIN + 100` over the target. -/
def selectDenominated (nTargetValue : CAmount) (vCoins : List SpendCoin) : List SpendCoin :=
  stashedSendDenominations.foldl (fun chosen v => vCoins.foldl (fun chosen out =>
    if out.nValue = v ∧
        (chosen.map SpendCoin.nValue).sum + out.nValue < nTargetValue + coin / 10 + 100 ∧
        w.isAnonymized env ctx out then chosen ++ [out]
    else chosen) chosen) []

def selectCoins (nTargetValue : CAmount) (request : SelectRequest) (random : Nat → SelectRandom) :
    SelectResult :=
  let vCoins := (w.availableCoins env ctx
    { selected := request.coinControl.map CCoinControl.setSelected
      coinType := request.coinType
      useIX := request.useIX }).map (w.spendCoin env ctx)
  let reached := fun chosen =>
    let result := SelectResult.ofCoins chosen
    { result with fOk := decide (nTargetValue ≤ result.nValueRet) }
  if request.coinControl.any CCoinControl.hasSelected then
    -- coin control -> return all selected outputs
    reached (vCoins.filter fun out =>
      out.fSpendable && !(request.coinType = .onlyDenominated && !w.isAnonymized env ctx out))
  else if request.coinType = .onlyDenominated then
    reached (w.selectDenominated env ctx nTargetValue vCoins)
  else
    let result := selectCoinsMinConf (random 0) ⟨request.nSpendTime, 1, 10⟩ nTargetValue vCoins
    if result.fOk then result
    else
      let result := selectCoinsMinConf (random 1) ⟨request.nSpendTime, 1, 1⟩ nTargetValue vCoins
      if result.fOk then result
      else selectCoinsMinConf (random 2) ⟨request.nSpendTime, 0, 1⟩ nTargetValue vCoins

end CWallet

end Sphinx
