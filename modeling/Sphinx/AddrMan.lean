import Mathlib.Data.Finset.Sort
import Sphinx.Netbase

/-!
# The address manager

`CAddrMan` of `addrman.h` and `addrman.cpp`, but `Select_` and the serialization, and with `Check_`.

`nKey` is a parameter, since it never changes.  A function that draws random numbers is given `rnd`, and its `k`-th
draw is `rnd k` modulo the bound.  An assertion that fails is `none`.  The counters do not overflow.  Where `operator[]`
would make an entry for an id that is not in `mapInfo`, its default is read.
-/

namespace Sphinx

open Function (update)

/-- What the address manager depends on. -/
structure AddrManEnv where
  nKey : List UInt8
  /-- `Hash` -/
  hash : List UInt8 → Uint256
  /-- `CNetAddr::GetGroup` -/
  getGroup : CNetAddr → List UInt8
  /-- `CNetAddr::IsRoutable` -/
  isRoutable : CNetAddr → Bool

def addrmanTriedBucketCount : Nat := 256
def addrmanTriedBucketSize : Nat := 64
def addrmanNewBucketCount : Nat := 256
def addrmanNewBucketSize : Nat := 64
def addrmanTriedBucketsPerGroup : Nat := 8
def addrmanNewBucketsPerSourceGroup : Nat := 64
def addrmanNewBucketsPerAddress : Int := 8
def addrmanTriedEntriesInspectOnEvict : Nat := 4
def addrmanHorizonDays : Int := 30
def addrmanRetries : Int := 3
def addrmanMaxFailures : Int := 10
def addrmanMinFailDays : Int := 7
def addrmanGetaddrMaxPct : Nat := 23
def addrmanGetaddrMax : Nat := 2500

/-- `CAddress`; `nLastTry` is memory only. -/
structure CAddress where
  service : CService
  nServices : Nat := 1
  nTime : Nat := 100000000
  nLastTry : Int := 0
deriving DecidableEq, Repr

structure CAddrInfo extends CAddress where
  source : CNetAddr
  nLastSuccess : Int := 0
  nAttempts : Int := 0
  nRefCount : Int := 0
  fInTried : Bool := false
  nRandomPos : Int := -1
deriving DecidableEq, Repr

/-- `GetRandInt`, of the random number `r`. -/
def getRandInt (r nMax : Nat) : Nat := if nMax = 0 then 0 else r % nMax

instance : NeZero addrmanTriedBucketCount := ⟨by decide⟩

instance : NeZero addrmanNewBucketCount := ⟨by decide⟩

abbrev TriedBucket := Fin addrmanTriedBucketCount
abbrev NewBucket := Fin addrmanNewBucketCount

/-- `nTime` of an address is an `unsigned int`. -/
def toUnsignedInt (n : Int) : Nat := (n % 2 ^ 32).toNat

namespace CAddrInfo

variable (env : AddrManEnv)

/-- The constructor, with `Init`. -/
def ofAddress (addr : CAddress) (addrSource : CNetAddr) : CAddrInfo :=
  { addr with source := addrSource, nLastTry := 0 }

/-- `Hash(...).Get64()`. -/
def get64 (ss : List UInt8) : Nat := env.hash ss % 2 ^ 64

def getTriedBucket (addr : CService) : TriedBucket :=
  let hash1 := get64 env (writeBytes env.nKey ++ writeBytes addr.getKey)
  let hash2 := get64 env (writeBytes env.nKey ++ writeBytes (env.getGroup addr.ip) ++
    Codec.toLE 8 (hash1 % addrmanTriedBucketsPerGroup))
  Fin.ofNat addrmanTriedBucketCount hash2

def getNewBucket (addr : CService) (src : CNetAddr) : NewBucket :=
  let hash1 := get64 env (writeBytes env.nKey ++ writeBytes (env.getGroup addr.ip) ++ writeBytes (env.getGroup src))
  let hash2 := get64 env (writeBytes env.nKey ++ writeBytes (env.getGroup src) ++
    Codec.toLE 8 (hash1 % addrmanNewBucketsPerSourceGroup))
  Fin.ofNat addrmanNewBucketCount hash2

def isTerrible (info : CAddrInfo) (nNow : Int) : Bool :=
  if info.nLastTry ≠ 0 && nNow - 60 ≤ info.nLastTry then false
  else if nNow + 10 * 60 < info.nTime then true
  else if info.nTime = 0 || addrmanHorizonDays * 86400 < nNow - info.nTime then true
  else if info.nLastSuccess = 0 && addrmanRetries ≤ info.nAttempts then true
  else addrmanMinFailDays * 86400 < nNow - info.nLastSuccess && addrmanMaxFailures ≤ info.nAttempts

end CAddrInfo

structure CAddrMan where
  nIdCount : Nat := 0
  mapInfo : Nat → Option CAddrInfo := fun _ => none
  mapAddr : CNetAddr → Option Nat := fun _ => none
  vRandom : List Nat := []
  nTried : Int := 0
  vvTried : TriedBucket → List Nat := fun _ => []
  nNew : Int := 0
  vvNew : NewBucket → Finset Nat := fun _ => ∅

namespace CAddrMan

variable (env : AddrManEnv)

section

variable (am : CAddrMan)

/-- `mapInfo[nId]` changes. -/
def modify (nId : Nat) (f : CAddrInfo → CAddrInfo) : CAddrMan :=
  { am with mapInfo := update am.mapInfo nId ((am.mapInfo nId).map f) }

/-- `Find`, with `pnId`. -/
def find (addr : CNetAddr) : Option (Nat × CAddrInfo) := do
  let nId ← am.mapAddr addr
  let info ← am.mapInfo nId
  return (nId, info)

def create (addr : CAddress) (addrSource : CNetAddr) : CAddrMan :=
  let nId := am.nIdCount
  { am with
    nIdCount := am.nIdCount + 1
    mapInfo := update am.mapInfo nId
      (some { CAddrInfo.ofAddress addr addrSource with nRandomPos := am.vRandom.length })
    mapAddr := update am.mapAddr addr.service.ip (some nId)
    vRandom := am.vRandom ++ [nId] }

def swapRandom (nRndPos1 nRndPos2 : Nat) : Option CAddrMan :=
  if nRndPos1 = nRndPos2 then some am
  else if h : nRndPos1 < am.vRandom.length ∧ nRndPos2 < am.vRandom.length then
    let nId1 := am.vRandom[nRndPos1]
    let nId2 := am.vRandom[nRndPos2]
    if (am.mapInfo nId1).isSome && (am.mapInfo nId2).isSome then
      let am := am.modify nId1 fun info => { info with nRandomPos := nRndPos2 }
      let am := am.modify nId2 fun info => { info with nRandomPos := nRndPos1 }
      some { am with vRandom := (am.vRandom.set nRndPos1 nId2).set nRndPos2 nId1 }
    else none
  else none

/-- A round of `SelectTried`: `vTried`, and `nOldest` with `nOldestPos`. -/
def selectRound (rnd : Nat → Nat) (s : List Nat × Option (Nat × Nat)) (i : Nat) :
    Option (List Nat × Option (Nat × Nat)) :=
  let nPos := getRandInt (rnd i) (s.1.length - i) + i
  let nTemp := s.1.getD nPos 0
  let vTried := (s.1.set nPos (s.1.getD i 0)).set i nTemp
  match s.2 with
  | none => some (vTried, some (nTemp, nPos))
  | some (nOldest, nOldestPos) => do
    let info ← am.mapInfo nTemp
    if info.nLastSuccess < (am.mapInfo nOldest).elim 0 CAddrInfo.nLastSuccess then
      return (vTried, some (nTemp, nPos))
    else return (vTried, some (nOldest, nOldestPos))

/-- `SelectTried`: the bucket afterwards, and the position. -/
def selectTried (nKBucket : TriedBucket) (rnd : Nat → Nat) :
    Option (List Nat × Option (Nat × Nat)) :=
  let vTried := am.vvTried nKBucket
  (List.range (min addrmanTriedEntriesInspectOnEvict vTried.length)).foldlM (am.selectRound rnd) (vTried, none)

/-- A reference from a "new" bucket goes; the entry goes with the last of them. -/
def dropRef (nId : Nat) : Option CAddrMan := do
  let info ← am.mapInfo nId
  let am := am.modify nId fun info => { info with nRefCount := info.nRefCount - 1 }
  if info.nRefCount - 1 = 0 then
    let am ← am.swapRandom info.nRandomPos.toNat (am.vRandom.length - 1)
    some { am with
      vRandom := am.vRandom.dropLast
      mapAddr := update am.mapAddr info.service.ip none
      mapInfo := update am.mapInfo nId none
      nNew := am.nNew - 1 }
  else some am

/-- `vvNew[nUBucket].erase(nId)`. -/
def eraseNew (nUBucket : NewBucket) (nId : Nat) : CAddrMan :=
  { am with vvNew := update am.vvNew nUBucket ((am.vvNew nUBucket).erase nId) }

/-- `vvNew[nUBucket].insert(nId)`. -/
def insertNew (nUBucket : NewBucket) (nId : Nat) : CAddrMan :=
  { am with vvNew := update am.vvNew nUBucket (insert nId (am.vvNew nUBucket)) }

end

/-- The first loop of `ShrinkNew`: an entry that is terrible. -/
def findTerrible (am : CAddrMan) (nNow : Int) : List Nat → Option (Option Nat)
  | [] => some none
  | nId :: it => do
    let info ← am.mapInfo nId
    if info.isTerrible nNow then return some nId else findTerrible am nNow it

/-- The second loop of `ShrinkNew`: the oldest of the entries whose positions are in `n`. -/
def findOldest (am : CAddrMan) (n : List Nat) : List Nat → Nat → Option Nat → Option (Option Nat)
  | [], _, nOldest => some nOldest
  | nId :: it, nI, nOldest =>
    if nI ∈ n then
      match nOldest with
      | none => findOldest am n it (nI + 1) (some nId)
      | some old => do
        let info ← am.mapInfo nId
        if info.nTime < (am.mapInfo old).elim 0 fun info => info.nTime then findOldest am n it (nI + 1) (some nId)
        else findOldest am n it (nI + 1) (some old)
    else findOldest am n it (nI + 1) nOldest

/-- `ShrinkNew`: the result and the manager. -/
def shrinkNew (am : CAddrMan) (nUBucket : NewBucket) (nNow : Int) (rnd : Nat → Nat) : Option (Nat × CAddrMan) := do
  let vNew := (am.vvNew nUBucket).sort
  match ← am.findTerrible nNow vNew with
  | some nId =>
    let am ← am.dropRef nId
    return (0, am.eraseNew nUBucket nId)
  | none =>
    let n := (List.range 4).map fun k => getRandInt (rnd k) vNew.length
    let nOldest ← am.findOldest n vNew 0 none
    let nId ← nOldest
    let am ← am.dropRef nId
    return (1, am.eraseNew nUBucket nId)

/-- A round of the loop of `MakeTried` that removes the entry from the "new" buckets. -/
def eraseRound (nId : Nat) (am : CAddrMan) (b : NewBucket) : CAddrMan :=
  if nId ∈ am.vvNew b then
    (am.eraseNew b nId).modify nId fun info => { info with nRefCount := info.nRefCount - 1 }
  else am

def makeTried (am : CAddrMan) (nId : Nat) (nOrigin : NewBucket) (rnd : Nat → Nat) : Option CAddrMan :=
  if nId ∈ am.vvNew nOrigin then do
    let am := (List.finRange addrmanNewBucketCount).foldl (eraseRound nId) am
    let am := { am with nNew := am.nNew - 1 }
    let info ← am.mapInfo nId
    if info.nRefCount = 0 then
      let nKBucket := CAddrInfo.getTriedBucket env info.service
      if (am.vvTried nKBucket).length < addrmanTriedBucketSize then
        let am := { am with
          vvTried := update am.vvTried nKBucket (am.vvTried nKBucket ++ [nId])
          nTried := am.nTried + 1 }
        some (am.modify nId fun info => { info with fInTried := true })
      else
        -- find an item to evict
        let (vTried, nOldest) ← am.selectTried nKBucket rnd
        let (_, nPos) ← nOldest
        let nOld := vTried.getD nPos 0
        let infoOld ← am.mapInfo nOld
        let nUBucket := CAddrInfo.getNewBucket env infoOld.service infoOld.source
        let am := am.modify nOld fun info => { info with fInTried := false, nRefCount := 1 }
        -- there is certainly place in the bucket that `nId` came from
        let am := am.insertNew
          (if (am.vvNew nUBucket).card < addrmanNewBucketSize then nUBucket else nOrigin) nOld
        let am := { am with nNew := am.nNew + 1, vvTried := update am.vvTried nKBucket (vTried.set nPos nId) }
        some (am.modify nId fun info => { info with fInTried := true })
    else none
  else none

def good_ (am : CAddrMan) (addr : CService) (nTime : Int) (rnd : Nat → Nat) : Option CAddrMan :=
  match am.find addr.ip with
  | none => some am
  | some (nId, info) =>
    if info.service ≠ addr then some am
    else
      let am := am.modify nId fun info => { info with
        nLastSuccess := nTime
        nLastTry := nTime
        nTime := toUnsignedInt nTime
        nAttempts := 0 }
      if info.fInTried then some am
      else
        let nRnd := getRandInt (rnd 0) addrmanNewBucketCount
        let nB := fun n => Fin.ofNat addrmanNewBucketCount (n + nRnd)
        match ((List.range addrmanNewBucketCount).map nB).find? fun b => nId ∈ am.vvNew b with
        | none => some am
        | some nUBucket => am.makeTried env nId nUBucket fun k => rnd (k + 1)

/-- The end of `Add_`: a reference from the bucket of the source. -/
def addToNew (am : CAddrMan) (nId : Nat) (addr : CService) (source : CNetAddr) (nNow : Int) (rnd : Nat → Nat) :
    Option CAddrMan :=
  let nUBucket := CAddrInfo.getNewBucket env addr source
  if nId ∈ am.vvNew nUBucket then some am
  else do
    let am := am.modify nId fun info => { info with nRefCount := info.nRefCount + 1 }
    let am ←
      if (am.vvNew nUBucket).card = addrmanNewBucketSize then (am.shrinkNew nUBucket nNow rnd).map Prod.snd
      else some am
    some (am.insertNew nUBucket nId)

/-- What `Add_` takes over from an address that it knows. -/
def updateInfo (addr : CAddress) (nTimePenalty nNow : Int) (info : CAddrInfo) : CAddrInfo :=
  let fCurrentlyOnline := nNow - addr.nTime < 24 * 60 * 60
  let nUpdateInterval : Int := if fCurrentlyOnline then 60 * 60 else 24 * 60 * 60
  let nTime :=
    if addr.nTime ≠ 0 && (info.nTime = 0 || (info.nTime : Int) < addr.nTime - nUpdateInterval - nTimePenalty) then
      toUnsignedInt (max 0 (addr.nTime - nTimePenalty))
    else info.nTime
  { info with nTime := nTime, nServices := info.nServices ||| addr.nServices }

/-- `Add_`, with `GetAdjustedTime()` in `nNow`. -/
def add_ (am : CAddrMan) (addr : CAddress) (source : CNetAddr) (nTimePenalty nNow : Int) (rnd : Nat → Nat) :
    Option (Bool × CAddrMan) :=
  if !env.isRoutable addr.service.ip then some (false, am)
  else
    match am.find addr.service.ip with
    | some (nId, info) =>
      let am := am.modify nId (updateInfo addr nTimePenalty nNow)
      let info := updateInfo addr nTimePenalty nNow info
      if addr.nTime = 0 || (info.nTime ≠ 0 && addr.nTime ≤ info.nTime) then some (false, am)
      else if info.fInTried then some (false, am)
      else if info.nRefCount = addrmanNewBucketsPerAddress then some (false, am)
      else
        -- the stochastic test
        let nFactor := 2 ^ info.nRefCount.toNat
        if 1 < nFactor && getRandInt (rnd 0) nFactor ≠ 0 then some (false, am)
        else (am.addToNew env nId info.service source nNow fun k => rnd (k + 1)).map fun am => (false, am)
    | none =>
      let nId := am.nIdCount
      let am := am.create addr source
      let am := am.modify nId fun info => { info with nTime := toUnsignedInt (max 0 (info.nTime - nTimePenalty)) }
      let am := { am with nNew := am.nNew + 1 }
      (am.addToNew env nId addr.service source nNow fun k => rnd (k + 1)).map fun am => (true, am)

def attempt_ (am : CAddrMan) (addr : CService) (nTime : Int) : CAddrMan :=
  match am.find addr.ip with
  | none => am
  | some (nId, info) =>
    if info.service ≠ addr then am
    else am.modify nId fun info => { info with nLastTry := nTime, nAttempts := info.nAttempts + 1 }

def connected_ (am : CAddrMan) (addr : CService) (nTime : Int) : CAddrMan :=
  match am.find addr.ip with
  | none => am
  | some (nId, info) =>
    if info.service ≠ addr then am
    else if 20 * 60 < nTime - info.nTime then am.modify nId fun info => { info with nTime := toUnsignedInt nTime }
    else am

/-- A round of `GetAddr_`. -/
def getAddrRound (rnd : Nat → Nat) (s : CAddrMan × List CAddress) (n : Nat) :
    Option (CAddrMan × List CAddress) := do
  let nRndPos := getRandInt (rnd n) (s.1.vRandom.length - n) + n
  let am ← s.1.swapRandom n nRndPos
  let nId ← am.vRandom[n]?
  let info ← am.mapInfo nId
  return (am, s.2 ++ [info.toCAddress])

/-- `GetAddr_`: the manager and `vAddr`. -/
def getAddr_ (am : CAddrMan) (rnd : Nat → Nat) : Option (CAddrMan × List CAddress) :=
  let nNodes := min (addrmanGetaddrMaxPct * am.vRandom.length / 100) addrmanGetaddrMax
  (List.range nNodes).foldlM (getAddrRound rnd) (am, [])

/-! ### The check -/

/-- What `Check_` collects: `setTried`, and the keys of `mapNew` with its values. -/
structure CheckSets where
  setTried : Finset Nat := ∅
  newIds : Finset Nat := ∅
  mapNew : Nat → Int := fun _ => 0

/-- A round of the loop of `Check_` over `mapInfo`. -/
def checkInfo (am : CAddrMan) (s : CheckSets) (n : Nat) : Except Int CheckSets :=
  match am.mapInfo n with
  | none => .ok s
  | some info => do
    let s ←
      if info.fInTried then
        if info.nLastSuccess = 0 then .error (-1)
        else if info.nRefCount ≠ 0 then .error (-2)
        else .ok { s with setTried := insert n s.setTried }
      else
        if info.nRefCount < 0 || addrmanNewBucketsPerAddress < info.nRefCount then .error (-3)
        else if info.nRefCount = 0 then .error (-4)
        else .ok { s with newIds := insert n s.newIds, mapNew := update s.mapNew n info.nRefCount }
    -- `operator[]` gives 0 for an address that is missing
    if (am.mapAddr info.service.ip).getD 0 ≠ n then .error (-5)
    else if info.nRandomPos < 0 || (am.vRandom.length : Int) ≤ info.nRandomPos ||
        am.vRandom[info.nRandomPos.toNat]? ≠ some n then .error (-14)
    else if info.nLastTry < 0 then .error (-6)
    else if info.nLastSuccess < 0 then .error (-8)
    else .ok s

/-- A round of the loops of `Check_` over `vvTried`. -/
def checkTried (setTried : Finset Nat) (id : Nat) : Except Int (Finset Nat) :=
  if id ∈ setTried then .ok (setTried.erase id) else .error (-11)

/-- A round of the loops of `Check_` over `vvNew`. -/
def checkNew (s : Finset Nat × (Nat → Int)) (id : Nat) : Except Int (Finset Nat × (Nat → Int)) :=
  if id ∈ s.1 then
    .ok (if s.2 id - 1 = 0 then s.1.erase id else s.1, update s.2 id (s.2 id - 1))
  else .error (-12)

/-- `Check_`; 0 is returned as `ok`. -/
def check_ (am : CAddrMan) : Except Int Unit :=
  if (am.vRandom.length : Int) ≠ am.nTried + am.nNew then .error (-7)
  else do
    let s ← (List.range am.nIdCount).foldlM am.checkInfo {}
    if (s.setTried.card : Int) ≠ am.nTried then .error (-9)
    else if (s.newIds.card : Int) ≠ am.nNew then .error (-10)
    else do
      let setTried ← ((List.finRange addrmanTriedBucketCount).flatMap am.vvTried).foldlM checkTried s.setTried
      let mapNew ← ((List.finRange addrmanNewBucketCount).flatMap fun b => (am.vvNew b).sort).foldlM checkNew
        (s.newIds, s.mapNew)
      if setTried ≠ ∅ then .error (-13)
      else if mapNew.1 ≠ ∅ then .error (-15)
      else .ok ()

/-! ### Calls -/

/-- A call of a function of the manager, with the random numbers that it draws. -/
inductive Call where
  | add_ (addr : CAddress) (source : CNetAddr) (nTimePenalty nNow : Int) (rnd : Nat → Nat)
  | good_ (addr : CService) (nTime : Int) (rnd : Nat → Nat)
  | attempt_ (addr : CService) (nTime : Int)
  | connected_ (addr : CService) (nTime : Int)
  | getAddr_ (rnd : Nat → Nat)

def call (am : CAddrMan) : Call → Option CAddrMan
  | .add_ addr source nTimePenalty nNow rnd => (am.add_ env addr source nTimePenalty nNow rnd).map Prod.snd
  | .good_ addr nTime rnd => am.good_ env addr nTime rnd
  | .attempt_ addr nTime => some (am.attempt_ addr nTime)
  | .connected_ addr nTime => some (am.connected_ addr nTime)
  | .getAddr_ rnd => (am.getAddr_ rnd).map Prod.fst

end CAddrMan

end Sphinx
