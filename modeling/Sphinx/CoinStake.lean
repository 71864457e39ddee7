import Sphinx.Miner
import Sphinx.Script.Sign
import Sphinx.WalletCredit

/-!
# Making a stake block

`CWallet::CreateCoinStake` of `wallet.cpp` with what it calls, and `CBlock::SignBlock` of `primitives/block.cpp`.

* A set of coins is ordered by the addresses of wallet transactions, which are not known.
* What `GetBalance` caches is not read again.
* The time of the last search, a static variable of `SignBlock`, is an argument.  Debug messages are left out.
-/

namespace Sphinx

def getStakeCombineThreshold : CAmount := 100 * coin

def getStakeSplitThreshold : CAmount := 2 * getStakeCombineThreshold

def getWeight (nIntervalBeginning nIntervalEnd : Int) : Int := nIntervalEnd - nIntervalBeginning - nStakeMinAge

/-- `nTime & ~STAKE_TIMESTAMP_MASK`. -/
def stakeTime (nTime : Nat) : Nat := nTime - nTime % 16

/-- A wallet transaction and an output of it. -/
structure StakeCoin where
  pcoin : CWalletTx
  i : Nat

namespace StakeCoin

def txout (c : StakeCoin) : CTxOut := c.pcoin.tx.vout.getD c.i ⟨0, [], -10⟩

def prevout (env : Env) (c : StakeCoin) : COutPoint := ⟨env.getHash c.pcoin.tx, c.i⟩

end StakeCoin

/-- The keys and the settings of a wallet that stakes. -/
structure StakeCtx extends CreditCtx where
  nReserveBalance : CAmount := 0
  crypto : ScriptCrypto
  keystore : CKeyStore
  /-- The hash of a kernel, as for `checkStakeKernelHash` -/
  hashKernel : Uint256 → Nat → COutPoint → Nat → Uint256
  /-- The order of a set of coins -/
  sortCoins : List StakeCoin → List StakeCoin
  sortCoins_perm : ∀ coins, (sortCoins coins).Perm coins
  /-- The script for the key of `mnodeman.GetCurrentMasterNode(1)`, if there is one -/
  currentMasterNode : Option CScript := none

variable (env : Env) (ctx : Ctx) (node : Node) (wctx : StakeCtx) (w : CWallet)

/-! ### Coins -/

def CWallet.getBalance : Option CAmount :=
  (w.mapWallet.entries.map Sigma.snd).foldlM (fun nTotal pcoin =>
    match pcoin.isTrusted env wctx.toCreditCtx w with
    | (none, _) => none
    | (some false, _) => some nTotal
    | (some true, pcoin) =>
      (pcoin.query env wctx.toCreditCtx w true .availableCredit).1.map fun nCredit => nTotal + nCredit) 0

/-- The amounts that keep a transaction from being staked. -/
def StakeCtx.keptApart (txout : CTxOut) : Bool :=
  isDenominatedAmount txout.nValue || txout.nValue = wctx.mnCollateral || isCollateralAmount txout.nValue

/-- The checks of `AvailableCoinsForStaking` on a transaction. -/
def StakeCtx.offersCoins (nSpendTime : Nat) (pcoin : CWalletTx) : Bool :=
  let nDepth := wctx.getDepthInMainChain true pcoin.toMerkleTx
  !(nDepth < 1) && !(nDepth < nStakeMinConfirmations) &&
    !(nSpendTime < (pcoin.tx.nTime + nStakeMinAge) % 2 ^ 32) && !(0 < pcoin.getBlocksToMaturity wctx.toCreditCtx) &&
    !pcoin.tx.vout.any wctx.keptApart

/-- `AvailableCoinsForStaking`: the coins, and whether they are spendable. -/
def CWallet.availableCoinsForStaking (nSpendTime : Nat) : List (StakeCoin × Bool) :=
  (w.mapWallet.entries.map Sigma.snd).flatMap fun pcoin =>
    if !wctx.offersCoins nSpendTime pcoin then []
    else
      (pcoin.tx.vout.zipIdx.filter fun e =>
        !(pcoin.vfSpent.getD e.2 false) && wctx.isMine e.1.scriptPubKey ≠ ISMINE_NO &&
          wctx.nMinimumInputValue ≤ e.1.nValue).map fun e =>
        (⟨pcoin, e.2⟩, wctx.isMine e.1.scriptPubKey &&& ISMINE_SPENDABLE ≠ 0)

/-- The loop of `SelectCoinsForStaking`. -/
def selectStakeLoop (nTargetValue : CAmount) :
    List (StakeCoin × Bool) → List StakeCoin → CAmount → List StakeCoin
  | [], setCoins, _ => setCoins
  | (c, fSpendable) :: vCoins, setCoins, nValueRet =>
    if !fSpendable then selectStakeLoop nTargetValue vCoins setCoins nValueRet
    else if nTargetValue ≤ nValueRet then setCoins
    else
      let n := c.txout.nValue
      if nTargetValue ≤ n then setCoins ++ [c]
      else if n < nTargetValue + cent then
        selectStakeLoop nTargetValue vCoins (setCoins ++ [c]) (nValueRet + n)
      else selectStakeLoop nTargetValue vCoins setCoins nValueRet

def CWallet.selectCoinsForStaking (nTargetValue : CAmount) (nSpendTime : Nat) : List StakeCoin :=
  wctx.sortCoins (selectStakeLoop nTargetValue (w.availableCoinsForStaking wctx nSpendTime) [] 0)

/-! ### The kernel -/

def checkKernel (pindexPrev : CBlockIndex) (nBits nTime : Nat) (prevout : COutPoint) : Bool :=
  match readTxPrev env node.readTxDB prevout with
  | none => false
  | some (txPrev, txindex) =>
    match readHeaderAt env txindex.pos with
    | none => false
    | some block =>
      !(isConfirmedInNPrevBlocks node.mapBlockIndex txindex (some pindexPrev.hashBlock)
        (nStakeMinConfirmations - 1)).isSome &&
        (checkStakeKernelHash wctx.hashKernel pindexPrev nBits block.nTime txPrev prevout nTime).isOk

/-- The script for the stake outputs and the key, for a kernel that pays to a public key or an address. -/
def StakeCtx.kernelOutput (scriptPubKeyKernel : CScript) : Option (CScript × CKey) :=
  match scriptPubKeyKernel.solver with
  | some (.pubkeyhash, vSolutions) =>
    -- convert to pay to public key type
    (wctx.keystore.getKey (vSolutions.headD [])).map fun key =>
      (CScript.pushVch key.pubKey ++ [UInt8.ofNat CScript.OP_CHECKSIG], key)
  | some (.pubkey, vSolutions) =>
    let vchPubKey := vSolutions.headD []
    (wctx.keystore.getKey (wctx.crypto.hash .hash160 vchPubKey)).bind fun key =>
      if key.pubKey ≠ pubKeyOfVch vchPubKey then none else some (scriptPubKeyKernel, key)
  | _ => none

/-- The kernel with its script and key.  The search stops at the first kernel, whether it can be used or not. -/
def findKernel (pindexPrev : CBlockIndex) (nBits nTime : Nat) (setCoins : List StakeCoin) :
    Option (StakeCoin × CScript × CKey) :=
  (setCoins.find? fun c => checkKernel env node wctx pindexPrev nBits nTime (c.prevout env)).bind fun c =>
    (wctx.kernelOutput c.txout.scriptPubKey).map fun out => (c, out)

/-- The loop that attempts to add more inputs, while there is one stake output.  Its state are the coins of the
inputs and `nCredit`. -/
def addStakeInputs (kernel : StakeCoin) (scriptPubKeyOut : CScript) (nTime : Nat) (nLimit : CAmount) :
    List StakeCoin → List StakeCoin × CAmount → List StakeCoin × CAmount
  | [], st => st
  | c :: setCoins, (coins, nCredit) =>
    if (c.txout.scriptPubKey = kernel.txout.scriptPubKey ∨ c.txout.scriptPubKey = scriptPubKeyOut) ∧
        env.getHash c.pcoin.tx ≠ env.getHash kernel.pcoin.tx then
      -- too many inputs
      if 100 ≤ coins.length then (coins, nCredit)
      -- the value is already pretty significant
      else if getStakeCombineThreshold ≤ nCredit then (coins, nCredit)
      -- the reserve limit
      else if nLimit < nCredit + c.txout.nValue then (coins, nCredit)
      -- do not add additional significant input
      else if getStakeCombineThreshold ≤ c.txout.nValue then
        addStakeInputs kernel scriptPubKeyOut nTime nLimit setCoins (coins, nCredit)
      -- do not add input that is still too young
      else if getWeight c.pcoin.tx.nTime nTime < nStakeMinAge then
        addStakeInputs kernel scriptPubKeyOut nTime nLimit setCoins (coins, nCredit)
      else
        addStakeInputs kernel scriptPubKeyOut nTime nLimit setCoins (coins ++ [c], nCredit + c.txout.nValue)
    else addStakeInputs kernel scriptPubKeyOut nTime nLimit setCoins (coins, nCredit)

/-! ### The coinstake -/

/-- The inputs of a coinstake, chosen before its reward is known. -/
structure StakeInputs where
  coins : List StakeCoin
  nCredit : CAmount
  scriptPubKeyOut : CScript
  fSplit : Bool
  key : CKey

/-- The first part of `CreateCoinStake`: the kernel and the inputs that are combined with it. -/
def chooseStakeInputs (pindexPrev : CBlockIndex) (nBits nTime : Nat) : Except Reject StakeInputs :=
  match w.getBalance env wctx with
  | none => error "GetBalance()"
  | some nBalance => do
    let nLimit := nBalance - wctx.nReserveBalance
    rejectIf (nBalance ≤ wctx.nReserveBalance) 0 ""
    let setCoins := w.selectCoinsForStaking wctx nLimit nTime
    rejectIf setCoins.isEmpty 0 ""
    match findKernel env node wctx pindexPrev nBits nTime setCoins with
    | none => error ""
    | some (kernel, scriptPubKeyOut, key) =>
      let nCredit := kernel.txout.nValue
      let fSplit := decide (getStakeSplitThreshold < nCredit)
      rejectIf (nCredit = 0 || nLimit < nCredit) 0 ""
      let (coins, nCredit) :=
        if fSplit then ([kernel], nCredit)
        else addStakeInputs env kernel scriptPubKeyOut nTime nLimit setCoins ([kernel], nCredit)
      return ⟨coins, nCredit, scriptPubKeyOut, fSplit, key⟩

/-- The payee of the block at a height. -/
def stakePayee (nHeight : Int) : Option CScript :=
  match getBlockPayee ctx.vWinning nHeight with
  | some (payee, _) => some payee
  | none => wctx.currentMasterNode

/-- The values of the stake outputs, for one or two of them. -/
def stakeOutputs (scriptPubKeyOut : CScript) (fSplit : Bool) (blockValue : CAmount) : List CTxOut :=
  if fSplit then
    let nValue := ((blockValue.tdiv 2).tdiv cent) * cent
    [⟨nValue, scriptPubKeyOut, -10⟩, ⟨blockValue - nValue, scriptPubKeyOut, -10⟩]
  else [⟨blockValue, scriptPubKeyOut, -10⟩]

/-- One round of the loop that signs. -/
def signStakeInput (txNew : CTransaction) (c : StakeCoin × Nat) : Except Reject CTransaction :=
  match signSignature wctx.crypto wctx.keystore c.1.txout.scriptPubKey txNew c.2 1 with
  | (true, txNew) => .ok txNew
  | (false, _) => error "CreateCoinStake : failed to sign coinstake"

def createCoinStake (nBits : Nat) (nFees : CAmount) (nTime : Nat) : Except Reject (CTransaction × CKey) :=
  match node.pindexBest.bind node.mapBlockIndex with
  | none => error "pindexBest"
  | some pindexPrev => do
    let inputs ← chooseStakeInputs env node wctx w pindexPrev nBits nTime
    let empty : CTxOut := ⟨0, [], -10⟩
    let txNew : CTransaction :=
      { nTime := nTime
        vin := inputs.coins.map fun c => ⟨c.prevout env, [], uintMax⟩
        vout := empty :: stakeOutputs inputs.scriptPubKeyOut inputs.fSplit 0 }
    let nCoinAge ← getCoinAge env node.mapBlockIndex node.readTxDB (some pindexPrev.hashBlock) txNew
    let nReward := getCoinstakeValue nCoinAge nFees (pindexPrev.nHeight + 1)
    rejectIf (nReward ≤ 0) 0 ""
    match stakePayee ctx wctx (pindexPrev.nHeight + 1) with
    | none => error "CreateCoinStake: Failed to detect masternode to pay"
    | some payee =>
      let masternodePayment := getMasternodePayment (pindexPrev.nHeight + 1) nReward
      let blockValue := inputs.nCredit + nReward - masternodePayment
      let txNew := { txNew with
        vout := empty :: stakeOutputs inputs.scriptPubKeyOut inputs.fSplit blockValue ++
          [⟨masternodePayment, payee, -10⟩] }
      let txNew ← inputs.coins.zipIdx.foldlM (signStakeInput wctx) txNew
      rejectIf (maxBlockSizeGen / 5 ≤ txNew.getSerializeSize) 0 "CreateCoinStake : exceeded coinstake size limit"
      return (txNew, inputs.key)

/-! ### The block -/

/-- The transactions of a block with its coinstake at the time `txCoinStake.nTime`; none has a future timestamp. -/
def stakedTxs (vtx : List CTransaction) (txCoinStake : CTransaction) : List CTransaction :=
  let nTime := txCoinStake.nTime
  let vtx := (vtx.modifyHead fun tx => { tx with nTime := nTime }).filter fun tx => !(nTime < tx.nTime)
  vtx.take 1 ++ txCoinStake :: vtx.drop 1

/-- `SignBlock(wallet, nFees)`: the block, if it returns true. -/
def signBlock (nLastCoinStakeSearchTime : Int) (block : CBlock) (nFees : CAmount) : Except Reject CBlock :=
  match (block.tx 0).vout, node.pindexBest.bind node.mapBlockIndex with
  | txout :: _, some pindexBest => do
    rejectIf (!txout.isEmpty) 0 ""
    if block.isProofOfStake then return block
    let nTime := stakeTime (toUnsigned ctx.nAdjustedTime)
    rejectIf ((nTime : Int) ≤ nLastCoinStakeSearchTime) 0 ""
    let (txCoinStake, key) ← createCoinStake env ctx node wctx w block.nBits nFees nTime
    rejectIf ((txCoinStake.nTime : Int) < pindexBest.getPastTimeLimit + 1) 0 ""
    let vtx := stakedTxs block.vtx txCoinStake
    let block := { block with
      nTime := txCoinStake.nTime
      vtx := vtx
      hashMerkleRoot := CBlock.buildMerkleTree env.hash2 (vtx.map env.getHash) }
    match key.sign (env.getBlockHash block) 0 with
    | none => error ""
    | some vchBlockSig => return { block with vchBlockSig := vchBlockSig }
  | _, _ => error "vtx[0].vout[0]"

end Sphinx
