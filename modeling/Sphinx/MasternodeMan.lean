import Sphinx.Masternode
import Sphinx.Util.CopyVector

/-!
# Masternodes

`GetBlockHash` of `masternode.cpp` with its cache, `CMasternode::CalculateScore`, and
`GetMasternodeRank`, `GetMasternodeRanks` and `GetMasternodeByRank` of `CMasternodeMan` with
`fOnlyActive`.

`std::sort` leaves the order of masternodes with equal scores open: `ScoreSort` is any function that
sorts.

The functions of `CMasternodeMan` (`masternodeman.cpp`) that change `vMasternodes`, with the messages
`dsee` and `dseep`.  Messages sent to peers, the addresses learned from a `dsee`, and the local
masternode that a `dsee` can activate are left out.

`GetRand` and `GetRandInt` of `util.cpp`, with the values of `GetRandBytes` as a list, and `CountEnabled`
and `FindRandomNotInVec` of `CMasternodeMan` (`masternodeman.cpp`).  The two log messages are left out.
-/

namespace Sphinx

/-- The fields of a masternode that its rank depends on. -/
structure CMasternode where
  vin : CTxIn
  protocolVersion : Int
  /-- `IsEnabled()`, after `Check()`. -/
  fEnabled : Bool
deriving DecidableEq, Repr

def minInstantXProtoVersion : Int := 61403

/-- The loop of `GetBlockHash`: the hash of the block so many blocks ago.  The genesis block has none. -/
def readBlocksAgo (mapBlockIndex : BlockMap) : Nat → CBlockIndex → Option Uint256
  | 0, blockReading => if blockReading.nHeight = 0 then none else some blockReading.hashBlock
  | nBlocksAgo + 1, blockReading =>
    if blockReading.nHeight = 0 then none
    else (blockReading.pprev.bind mapBlockIndex).bind (readBlocksAgo mapBlockIndex nBlocksAgo)

/-- `GetBlockHash`: the hash, if the function returns true, and `mapCacheBlockHashes`.  For a positive
height it is the hash of the block below it. -/
def getBlockHash (node : Node) (mapCacheBlockHashes : StdMap Int Uint256) (nBlockHeight : Int) :
    Option Uint256 × StdMap Int Uint256 :=
  match node.pindexBest.bind node.mapBlockIndex with
  | none => (none, mapCacheBlockHashes)
  | some pindexBest =>
    let nBlockHeight := if nBlockHeight = 0 then (pindexBest.nHeight : Int) else nBlockHeight
    match mapCacheBlockHashes.lookup nBlockHeight with
    | some hash => (some hash, mapCacheBlockHashes)
    | none =>
      if pindexBest.nHeight = 0 ∨ (pindexBest.nHeight : Int) + 1 < nBlockHeight then
        (none, mapCacheBlockHashes)
      else
        let nBlocksAgo := if 0 < nBlockHeight then (pindexBest.nHeight : Int) + 1 - nBlockHeight else 0
        match readBlocksAgo node.mapBlockIndex nBlocksAgo.toNat pindexBest with
        | none => (none, mapCacheBlockHashes)
        | some hash => (some hash, mapCacheBlockHashes.insert nBlockHeight hash)

/-- A sort by descending scores. -/
structure ScoreSort where
  sort : List (Nat × CTxIn) → List (Nat × CTxIn)
  perm : ∀ l, (sort l).Perm l
  sorted : ∀ l, (sort l).Pairwise fun a b => b.1 ≤ a.1

/-- The same for masternodes in place of their inputs. -/
structure ScoreSortMN where
  sort : List (Nat × CMasternode) → List (Nat × CMasternode)
  perm : ∀ l, (sort l).Perm l
  sorted : ∀ l, (sort l).Pairwise fun a b => b.1 ≤ a.1

/-- `Find(vin)`, which compares the outpoints only. -/
def findMasternode (vMasternodes : List CMasternode) (vin : CTxIn) : Option CMasternode :=
  vMasternodes.find? fun mn => mn.vin.prevout = vin.prevout

section

variable (env : Env) (hash1 : Uint256 → Uint256) (sort : ScoreSort)

/-- `CalculateScore`, given the hash of the block: the distance of two hashes.  `hash1` is the hash of one
256-bit number. -/
def CMasternode.calculateScore (mn : CMasternode) (hash : Uint256) : Uint256 :=
  let aux := (mn.vin.prevout.hash + mn.vin.prevout.n) % 2 ^ 256
  let hash2 := hash1 hash
  let hash3 := env.hash2 hash aux
  if hash2 < hash3 then hash3 - hash2 else hash2 - hash3

/-- `vecMasternodeScores`, sorted: the low 32 bits of the scores of the masternodes that are enabled and
new enough. -/
def masternodeScores (vMasternodes : List CMasternode) (hash : Uint256) (minProtocol : Int) :
    List (Nat × CTxIn) :=
  sort.sort ((vMasternodes.filter fun mn => minProtocol ≤ mn.protocolVersion && mn.fEnabled).map fun mn =>
    (mn.calculateScore env hash1 hash % 2 ^ 32, mn.vin))

/-- `GetMasternodeRank`.  `CalculateScore` asks for the hash of the block again, and finds it in the
cache. -/
def getMasternodeRank (node : Node) (mapCacheBlockHashes : StdMap Int Uint256)
    (vMasternodes : List CMasternode) (vin : CTxIn) (nBlockHeight minProtocol : Int) : Int :=
  match (getBlockHash node mapCacheBlockHashes nBlockHeight).1 with
  | none => -1
  | some hash =>
    match (masternodeScores env hash1 sort vMasternodes hash minProtocol).findIdx? fun s => s.2 = vin with
    | none => -1
    | some rank => rank + 1

/-- `GetMasternodeRanks`: the masternodes that are enabled and new enough, with their ranks. -/
def getMasternodeRanks (sortMN : ScoreSortMN) (node : Node) (mapCacheBlockHashes : StdMap Int Uint256)
    (vMasternodes : List CMasternode) (nBlockHeight minProtocol : Int) : List (Int × CMasternode) :=
  match (getBlockHash node mapCacheBlockHashes nBlockHeight).1 with
  | none => []
  | some hash =>
    let vecMasternodeScores := sortMN.sort
      ((vMasternodes.filter fun mn => minProtocol ≤ mn.protocolVersion && mn.fEnabled).map fun mn =>
        (mn.calculateScore env hash1 hash % 2 ^ 32, mn))
    vecMasternodeScores.zipIdx.map fun (s, i) => ((i : Int) + 1, s.2)

/-- `GetMasternodeByRank`.  It does not ask whether the hash of the block is known; `CalculateScore` is
zero if it is not. -/
def getMasternodeByRank (node : Node) (mapCacheBlockHashes : StdMap Int Uint256)
    (vMasternodes : List CMasternode) (nRank nBlockHeight minProtocol : Int) : Option CMasternode :=
  let vecMasternodeScores : List (Nat × CTxIn) :=
    match (getBlockHash node mapCacheBlockHashes nBlockHeight).1 with
    | none => sort.sort ((vMasternodes.filter fun mn =>
        minProtocol ≤ mn.protocolVersion && mn.fEnabled).map fun mn => (0, mn.vin))
    | some hash => masternodeScores env hash1 sort vMasternodes hash minProtocol
  if 0 < nRank then
    vecMasternodeScores[(nRank - 1).toNat]?.bind fun s => findMasternode vMasternodes s.2
  else none

end

/-! ### The list of masternodes -/

/-- What the masternode code calls, and the settings; fixed during a run. -/
structure MasternodeEnv where
  /-- `stashedSendSigner.VerifyMessage(pubkey, vchSig, strMessage, errorMessage)`. -/
  verifyMessage : CPubKey → List UInt8 → List Char → Bool
  /-- `addr.ToString()`. -/
  serviceToString : CService → List Char
  /-- `GetScriptForDestination(pubkey.GetID())`. -/
  getScriptForDestination : CPubKey → CScript
  nMasternodeMinProtocol : Int
  /-- The growth policy of `std::vector`. -/
  recommend : Nat → Nat

structure CMasternodeMan where
  vMasternodes : CopyVector MasternodeEntry := .empty
  mAskedUsForMasternodeList : StdMap CService Int := ∅
  mWeAskedForMasternodeList : StdMap CService Int := ∅
  mWeAskedForMasternodeListEntry : StdMap COutPoint Int := ∅
  nDsqCount : Int := 0

/-- The loops of `CheckAndRemove` over the maps. -/
def eraseBefore {K : Type} [DecidableEq K] (nTime : Int) (m : StdMap K Int) : StdMap K Int :=
  m.keys.foldl (fun m k => if (m.lookup k).any (· < nTime) then m.erase k else m) m

namespace CMasternodeMan

variable (env : MasternodeEnv) (ctx : MasternodeCtx) (man : CMasternodeMan)

def find (vin : CTxIn) : Option MasternodeEntry :=
  man.vMasternodes.toList.find? fun mn => mn.vin.prevout = vin.prevout

/-- `Find(vin)`, and the masternode found changes. -/
def update (vin : CTxIn) (f : MasternodeEntry → MasternodeEntry) : CMasternodeMan :=
  { man with vMasternodes := man.vMasternodes.modify (fun mn => mn.vin.prevout = vin.prevout) f }

def add (mn : MasternodeEntry) : Bool × CMasternodeMan :=
  if !mn.isEnabled then (false, man)
  else
    match man.find mn.vin with
    | none => (true, { man with
        vMasternodes := man.vMasternodes.pushBack (.copy ctx.nAdjustedTime) env.recommend mn })
    | some _ => (false, man)

def check : CMasternodeMan := { man with vMasternodes := man.vMasternodes.map (.check ctx) }

/-- The condition under which `CheckAndRemove` erases a masternode. -/
def inactive (mn : MasternodeEntry) : Bool :=
  mn.activeState = .remove || mn.activeState = .vinSpent || mn.protocolVersion < env.nMasternodeMinProtocol

def checkAndRemove : CMasternodeMan :=
  let man := man.check ctx
  { man with
    vMasternodes := man.vMasternodes.eraseWhere (.copy ctx.nAdjustedTime) (inactive env)
    mAskedUsForMasternodeList := eraseBefore ctx.nTime man.mAskedUsForMasternodeList
    mWeAskedForMasternodeList := eraseBefore ctx.nTime man.mWeAskedForMasternodeList
    mWeAskedForMasternodeListEntry := eraseBefore ctx.nTime man.mWeAskedForMasternodeListEntry }

def clear : CMasternodeMan where
  vMasternodes := man.vMasternodes.clear

/-- The loop of `Remove`, for so many rounds, with the iterator at the position `it`.  No round moves
the iterator. -/
def removeLoop (vin : CTxIn) (it : Nat) : Nat → Option CMasternodeMan
  | 0 => none
  | rounds + 1 =>
    match man.vMasternodes.toList[it]? with
    | none => some man
    | some mn =>
      if mn.vin = vin then
        some { man with vMasternodes := man.vMasternodes.eraseAt (.copy ctx.nAdjustedTime) it }
      else removeLoop vin it rounds

/-- `Remove`, stopped after as many rounds as a loop over the list can need. -/
def remove (vin : CTxIn) : Option CMasternodeMan :=
  man.removeLoop ctx vin 0 (man.vMasternodes.toList.length + 1)

/-! ### The masternode that waited longest for its payment -/

/-- A round of `FindOldestNotInVec`: the oldest masternode so far, and the list so far. -/
def oldestRound (vVins : List CTxIn) (nMinimumAge : Int)
    (s : Option MasternodeEntry × List MasternodeEntry) (mn : MasternodeEntry) :
    Option MasternodeEntry × List MasternodeEntry :=
  let mn := mn.check ctx
  if !mn.isEnabled then (s.1, s.2 ++ [mn])
  else
    let (age, mn) := mn.getMasternodeInputAge ctx
    if age < nMinimumAge then (s.1, s.2 ++ [mn])
    else if vVins.any fun vin => mn.vin.prevout = vin.prevout then (s.1, s.2 ++ [mn])
    else if s.1.all fun oldest => oldest.secondsSincePayment ctx < mn.secondsSincePayment ctx then
      (some mn, s.2 ++ [mn])
    else (s.1, s.2 ++ [mn])

/-- `FindOldestNotInVec`, with the list as it is afterwards. -/
def findOldestNotInVec (vVins : List CTxIn) (nMinimumAge : Int) (vMasternodes : List MasternodeEntry) :
    Option MasternodeEntry × List MasternodeEntry :=
  vMasternodes.foldl (oldestRound ctx vVins nMinimumAge) (none, [])

end CMasternodeMan

/-! ### A masternode chosen at random -/

/-- The conversion of an integer to `int`, and the value of an `int` that wraps around. -/
def toInt32 (x : Int) : Int := (x + 2 ^ 31) % 2 ^ 32 - 2 ^ 31

namespace Random

/-- `GetRand`; `none` if all values are drawn in vain. -/
def getRand (nMax : UInt64) (draws : List UInt64) : Option UInt64 :=
  if nMax = 0 then some 0
  else
    let nRange := UInt64.ofInt (-1) / nMax * nMax
    (draws.find? (· < nRange)).map (· % nMax)

/-- `GetRandInt`, also for a negative argument. -/
def getRandInt (nMax : Int) (draws : List UInt64) : Option Int :=
  (getRand (UInt64.ofInt nMax) draws).map fun nRand => toInt32 nRand.toNat

end Random

def minMasternodePaymentProtoVersion1 : Int := 61403
def minMasternodePaymentProtoVersion2 : Int := 61403

/-- `GetMinMasternodePaymentsProto`, with `IsSporkActive(SPORK_10_MASTERNODE_PAY_UPDATED_NODES)`. -/
def getMinMasternodePaymentsProto (fPayUpdatedNodes : Bool) : Int :=
  if fPayUpdatedNodes then minMasternodePaymentProtoVersion2 else minMasternodePaymentProtoVersion1

namespace CMasternodeMan

/-- The first line of `CountEnabled` and of `FindRandomNotInVec`. -/
def resolveProtocol (fPayUpdatedNodes : Bool) (protocolVersion : Int) : Int :=
  if protocolVersion = -1 then getMinMasternodePaymentsProto fPayUpdatedNodes else protocolVersion

/-- The masternodes that `CountEnabled` counts. -/
def enabledAbove (protocolVersion : Int) (mn : MasternodeEntry) : Bool :=
  !(mn.protocolVersion < protocolVersion || !mn.isEnabled)

/-- The outpoint of the masternode is in the vector. -/
def excludedBy (vecToExclude : List CTxIn) (mn : MasternodeEntry) : Bool :=
  vecToExclude.any fun usedVin => mn.vin.prevout = usedVin.prevout

/-- `CountEnabled`; it checks every masternode. -/
def countEnabled (fPayUpdatedNodes : Bool) (ctx : MasternodeCtx) (man : CMasternodeMan)
    (protocolVersion : Int) : Int × CMasternodeMan :=
  let protocolVersion := resolveProtocol fPayUpdatedNodes protocolVersion
  let man := man.check ctx
  (man.vMasternodes.toList.foldl
    (fun i mn => if enabledAbove protocolVersion mn then toInt32 (i + 1) else i) 0, man)

/-- The loop of `FindRandomNotInVec` from the position `it` on. -/
def findRandomLoop (protocolVersion : Int) (vecToExclude : List CTxIn) :
    Int → Nat → List MasternodeEntry → Option Nat
  | _, _, [] => none
  | rand, it, mn :: mns =>
    if mn.protocolVersion < protocolVersion || !mn.isEnabled then
      findRandomLoop protocolVersion vecToExclude rand (it + 1) mns
    else if excludedBy vecToExclude mn then
      findRandomLoop protocolVersion vecToExclude rand (it + 1) mns
    else
      let rand := toInt32 (rand - 1)
      if rand < 1 then some it else findRandomLoop protocolVersion vecToExclude rand (it + 1) mns

/-- `FindRandomNotInVec`: the position of the masternode in the list, and the list as it is afterwards;
`none` if the random values are used up. -/
def findRandomNotInVec (fPayUpdatedNodes : Bool) (ctx : MasternodeCtx) (man : CMasternodeMan)
    (vecToExclude : List CTxIn) (protocolVersion : Int) (draws : List UInt64) :
    Option (Option Nat × CMasternodeMan) :=
  let protocolVersion := resolveProtocol fPayUpdatedNodes protocolVersion
  let (nCountEnabled, man) := man.countEnabled fPayUpdatedNodes ctx protocolVersion
  -- the difference of an `int` and a `size_t` is a `size_t`
  let nDifference := UInt64.ofInt (nCountEnabled - vecToExclude.length)
  if nDifference < 1 then some (none, man)
  else
    (Random.getRandInt (toInt32 nDifference.toNat) draws).map fun rand =>
      (findRandomLoop protocolVersion vecToExclude rand 0 man.vMasternodes.toList, man)

end CMasternodeMan

end Sphinx
