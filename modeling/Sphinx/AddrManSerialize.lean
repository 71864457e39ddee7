import Sphinx.AddrMan

/-!
# The file of the peers

`CAddrMan::Serialize` and `CAddrMan::Unserialize` of `addrman.h`, with `SER_DISK`, and what they call.

The entries are numbered anew: those of the "new" buckets get the numbers from 0 on, in the order of their ids, and
those of the "tried" buckets the numbers behind them.  The references from the "new" buckets are written with these
numbers.  What can be computed from the rest is not in the file.

A number in a file may be negative, or a bucket be behind the last one; there are no such ids and buckets here, and
reading fails.
-/

namespace Sphinx

open Codec

/-! ### The addresses -/

/-- `htons` puts the higher byte first. -/
def CService.write (addr : CService) : List UInt8 := addr.ip ++ (toLE 2 addr.port).reverse

def readService : Reader CService := do
  let ip ← readBytes 16
  let portN ← readBytes 2
  pure ⟨ip, fromLE portN.reverse⟩

/-- The version is that of the peer file, which hides the one of the stream. -/
def CAddress.write (addr : CAddress) : List UInt8 :=
  toLE 4 0 ++ (toLE 4 addr.nTime ++ (toLE 8 addr.nServices ++ addr.service.write))

def readAddress : Reader CAddress := do
  let _nVersion ← readLE 4
  let nTime ← readLE 4
  let nServices ← readLE 8
  let service ← readService
  pure { service := service, nServices := nServices, nTime := nTime }

def CAddrInfo.write (info : CAddrInfo) : List UInt8 :=
  info.toCAddress.write ++ (info.source ++ (writeInt 8 info.nLastSuccess ++ writeInt 4 info.nAttempts))

def readAddrInfo : Reader CAddrInfo := do
  let addr ← readAddress
  let source ← readBytes 16
  let nLastSuccess ← readInt 8
  let nAttempts ← readInt 4
  pure { addr with source := source, nLastSuccess := nLastSuccess, nAttempts := nAttempts }

/-- `CAddrInfo()`. -/
def CAddrInfo.empty : CAddrInfo where
  service := ⟨List.replicate 16 0, 0⟩
  source := List.replicate 16 0

namespace CAddrMan

/-! ### Writing -/

/-- `mapInfo` in the order of the ids. -/
def entries (am : CAddrMan) : List (Nat × CAddrInfo) :=
  (List.range am.nIdCount).filterMap fun nId => (am.mapInfo nId).map fun info => (nId, info)

/-- The loop over the "new" entries: what is written, and `mapUnkIds`. -/
def writeNewEntries (nNew : Int) : List (Nat × CAddrInfo) → Int → (Nat → Int) → List UInt8 × (Nat → Int)
  | [], _, mapUnkIds => ([], mapUnkIds)
  | (nId, info) :: it, nIds, mapUnkIds =>
    -- this means nNew was wrong, oh ow
    if nIds = nNew then ([], mapUnkIds)
    else
      let mapUnkIds := Function.update mapUnkIds nId nIds
      if info.nRefCount ≠ 0 then
        let (bytes, mapUnkIds) := writeNewEntries nNew it (nIds + 1) mapUnkIds
        (info.write ++ bytes, mapUnkIds)
      else writeNewEntries nNew it nIds mapUnkIds

/-- The loop over the "tried" entries. -/
def writeTriedEntries (nTried : Int) : List (Nat × CAddrInfo) → Int → List UInt8
  | [], _ => []
  | (_, info) :: it, nIds =>
    -- this means nTried was wrong, oh ow
    if nIds = nTried then []
    else if info.fInTried then info.write ++ writeTriedEntries nTried it (nIds + 1)
    else writeTriedEntries nTried it nIds

/-- The references from a "new" bucket. -/
def writeBucket (mapUnkIds : Nat → Int) (vNew : Finset Nat) : List UInt8 :=
  writeInt 4 vNew.card ++ vNew.sort.flatMap fun nId => writeInt 4 (mapUnkIds nId)

def serialize (nKey : List UInt8) (am : CAddrMan) : List UInt8 :=
  let (bytes, mapUnkIds) := writeNewEntries am.nNew am.entries 0 fun _ => 0
  toLE 1 0 ++ (writeBytes nKey ++ (writeInt 4 am.nNew ++ (writeInt 4 am.nTried ++
    (writeInt 4 addrmanNewBucketCount ++ (bytes ++ (writeTriedEntries am.nTried am.entries 0 ++
      (List.finRange addrmanNewBucketCount).flatMap fun b => writeBucket mapUnkIds (am.vvNew b)))))))

/-! ### Reading -/

variable (env : AddrManEnv)

/-- A round of the loop over the "new" entries. -/
def addNewEntry (nUBuckets : Int) (am : CAddrMan) (n : Nat) (info : CAddrInfo) : CAddrMan :=
  let am := { am with
    mapInfo := Function.update am.mapInfo n (some { info with nRandomPos := am.vRandom.length })
    mapAddr := Function.update am.mapAddr info.service.ip (some n)
    vRandom := am.vRandom ++ [n] }
  if nUBuckets = addrmanNewBucketCount then am
  else
    (am.insertNew (CAddrInfo.getNewBucket env info.service info.source) n).modify n fun info =>
      { info with nRefCount := info.nRefCount + 1 }

/-- A round of the loop over the "tried" entries, with `nLost`. -/
def addTriedEntry (s : CAddrMan × Int) (info : CAddrInfo) : CAddrMan × Int :=
  let am := s.1
  let nKBucket := CAddrInfo.getTriedBucket env info.service
  if (am.vvTried nKBucket).length < addrmanTriedBucketSize then
    ({ am with
      nIdCount := am.nIdCount + 1
      mapInfo := Function.update am.mapInfo am.nIdCount
        (some { info with nRandomPos := am.vRandom.length, fInTried := true })
      mapAddr := Function.update am.mapAddr info.service.ip (some am.nIdCount)
      vRandom := am.vRandom ++ [am.nIdCount]
      vvTried := Function.update am.vvTried nKBucket (am.vvTried nKBucket ++ [am.nIdCount]) }, s.2)
  else (am, s.2 + 1)

/-- A reference from a "new" bucket; `operator[]` makes an entry that is missing. -/
def addReference (nUBuckets : Int) (am : CAddrMan) (b : NewBucket) (nIndex : Nat) : CAddrMan :=
  let info := (am.mapInfo nIndex).getD CAddrInfo.empty
  let am := { am with mapInfo := Function.update am.mapInfo nIndex (some info) }
  if nUBuckets = addrmanNewBucketCount ∧ info.nRefCount < addrmanNewBucketsPerAddress then
    (am.modify nIndex fun info => { info with nRefCount := info.nRefCount + 1 }).insertNew b nIndex
  else am

/-- A bucket of the last loop. -/
def readBucket (nUBuckets : Int) (am : CAddrMan) (b : Nat) : Reader CAddrMan :=
  if h : b < addrmanNewBucketCount then do
    let nSize ← readInt 4
    (List.range nSize.toNat).foldlM (fun am _ => do
      let nIndex ← readInt 4
      if nIndex < 0 then failure else pure (addReference nUBuckets am ⟨b, h⟩ nIndex.toNat)) am
  else failure

/-- `Unserialize`: the key, and what goes with it. -/
def unserialize : Reader (List UInt8 × CAddrMan) := do
  let _nVersion ← readLE 1
  let nKey ← readString
  let env := { env with nKey := nKey }
  let nNew ← readInt 4
  let nTried ← readInt 4
  let nUBuckets ← readInt 4
  let am ← (List.range nNew.toNat).foldlM (fun am n => addNewEntry env nUBuckets am n <$> readAddrInfo)
    { nNew := nNew, nTried := nTried }
  let (am, nLost) ← (List.range nTried.toNat).foldlM (fun s _ => addTriedEntry env s <$> readAddrInfo)
    ({ am with nIdCount := nNew.toNat }, (0 : Int))
  let am ← (List.range nUBuckets.toNat).foldlM (readBucket nUBuckets) { am with nTried := am.nTried - nLost }
  pure (nKey, am)

end CAddrMan

end Sphinx
