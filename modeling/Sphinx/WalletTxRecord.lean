import Mathlib.Data.List.Sort
import Sphinx.MixingMessages
import Sphinx.Util.Loop
import Sphinx.WalletCredit

/-!
# The record of a wallet transaction

`IMPLEMENT_SERIALIZE` of `CWalletTx` in `wallet.h`, with `ReadOrderPos` and `WriteOrderPos`.  Five fields are entries of
`mapValue` while the object is written, and are taken out of it after it was read or written.

A string is a vector of bytes here, and a `char` is a byte.  The cached values are not stored.
-/

namespace Sphinx

open Codec

/-! ### Numbers as texts -/

/-- `i64tostr(n)`, and `strprintf("%u", n)` for a number that is not negative. -/
def i64tostr (n : Int) : List UInt8 := (Text.decimal n).map fun c => UInt8.ofNat c.toNat

def isSpace (c : UInt8) : Bool := c = 32 || (9 ≤ c && c ≤ 13)

def isDigit (c : UInt8) : Bool := 48 ≤ c && c ≤ 57

/-- `strtoll(psz, NULL, 10)`: blanks, a sign and digits, and the closest number if it does not fit. -/
def atoi64 (psz : List UInt8) : Int :=
  let s := psz.dropWhile isSpace
  let digits := (if s.head? = some 45 ∨ s.head? = some 43 then s.tail else s).takeWhile isDigit
  let n : Nat := digits.foldl (fun n c => 10 * n + (c.toNat - 48)) 0
  max (-2 ^ 63) (min (2 ^ 63 - 1) (if s.head? = some 45 then -(n : Int) else n))

/-! ### Pairs and maps -/

/-- The entries of a `map<string, string>`, in its order. -/
def sortedEntries (m : StdMap (List UInt8) (List UInt8)) : List (List UInt8 × List UInt8) :=
  (m.entries.map fun e => (e.1, e.2)).insertionSort fun a b => ¬ b.1 < a.1

def writePair (item : List UInt8 × List UInt8) : List UInt8 := writeBytes item.1 ++ writeBytes item.2

def readPair : Reader (List UInt8 × List UInt8) := do
  let first ← readString
  let second ← readString
  pure (first, second)

def writeMap (m : StdMap (List UInt8) (List UInt8)) : List UInt8 := writeVector writePair (sortedEntries m)

/-- `m.insert(mi, item)` for each item. -/
def insertItems (items : List (List UInt8 × List UInt8)) : StdMap (List UInt8) (List UInt8) :=
  items.foldl (fun m item => MapLoop.insertNew item.2 m item.1) ∅

def readMap : Reader (StdMap (List UInt8) (List UInt8)) := insertItems <$> readVector readPair

/-! ### The record -/

def CMerkleTx.write (merkle : CMerkleTx) : List UInt8 :=
  merkle.tx.write ++ (toLE 32 merkle.hashBlock ++
    (writeVector (toLE 32) merkle.vMerkleBranch ++ writeInt 4 merkle.nIndex))

def readMerkleTx : Reader CMerkleTx := do
  let tx ← readTransaction
  let hashBlock ← readLE 32
  let vMerkleBranch ← readVector (readLE 32)
  let nIndex ← readInt 4
  pure ⟨tx, hashBlock, vMerkleBranch, nIndex⟩

/-- The fields of `CWalletTx` that are stored. -/
structure WalletTxRecord where
  merkle : CMerkleTx
  vtxPrev : List CMerkleTx := []
  mapValue : StdMap (List UInt8) (List UInt8) := ∅
  vOrderForm : List (List UInt8 × List UInt8) := []
  fTimeReceivedIsTxTime : Nat := 0
  nTimeReceived : Nat := 0
  nTimeSmart : Nat := 0
  fFromMe : UInt8 := 0
  strFromAccount : List UInt8 := []
  vfSpent : List UInt8 := []
  nOrderPos : Int := -1

def fromaccountKey : List UInt8 := textBytes "fromaccount"
def versionKey : List UInt8 := textBytes "version"
def spentKey : List UInt8 := textBytes "spent"
def orderPosKey : List UInt8 := textBytes "n"
def timesmartKey : List UInt8 := textBytes "timesmart"

/-- The keys that are taken out of `mapValue`. -/
def reservedKeys : List (List UInt8) := [fromaccountKey, versionKey, spentKey, orderPosKey, timesmartKey]

def eraseReserved (mapValue : StdMap (List UInt8) (List UInt8)) : StdMap (List UInt8) (List UInt8) :=
  reservedKeys.foldl (fun m key => m.erase key) mapValue

/-- "TODO: calculate elsewhere" for a position that is not there. -/
def readOrderPos (mapValue : StdMap (List UInt8) (List UInt8)) : Int :=
  match mapValue.lookup orderPosKey with
  | none => -1
  | some n => atoi64 n

def writeOrderPos (nOrderPos : Int) (mapValue : StdMap (List UInt8) (List UInt8)) : StdMap (List UInt8) (List UInt8) :=
  if nOrderPos = -1 then mapValue else mapValue.insert orderPosKey (i64tostr nOrderPos)

/-- `mapValue["spent"]` as it is written. -/
def spentText (vfSpent : List UInt8) : List UInt8 := vfSpent.map fun f => if f ≠ 0 then 49 else 48

/-- `vfSpent` as it is read. -/
def readSpent (mapValue : StdMap (List UInt8) (List UInt8)) (nOutputs : Nat) (fSpent : UInt8) : List UInt8 :=
  match mapValue.lookup spentKey with
  | none => List.replicate nOutputs fSpent
  | some spent => spent.map fun c => if c ≠ 48 then 1 else 0

/-- `nTimeSmart` as it is read. -/
def readTimeSmart (mapValue : StdMap (List UInt8) (List UInt8)) : Nat :=
  match mapValue.lookup timesmartKey with
  | none => 0
  | some timesmart => (atoi64 timesmart % 2 ^ 32).toNat

namespace WalletTxRecord

variable (this : WalletTxRecord)

/-- `mapValue` with the entries for the other fields. -/
def writtenValue : StdMap (List UInt8) (List UInt8) :=
  let mapValue := this.mapValue.insert fromaccountKey this.strFromAccount
  let mapValue := mapValue.insert spentKey (spentText this.vfSpent)
  let mapValue := writeOrderPos this.nOrderPos mapValue
  if this.nTimeSmart ≠ 0 then mapValue.insert timesmartKey (i64tostr this.nTimeSmart) else mapValue

def fSpent : UInt8 := if this.vfSpent.any (· ≠ 0) then 1 else 0

/-- The bytes that are written, and the object afterwards. -/
def write : List UInt8 × WalletTxRecord :=
  (this.merkle.write ++ (writeVector CMerkleTx.write this.vtxPrev ++ (writeMap this.writtenValue ++
    (writeVector writePair this.vOrderForm ++ (toLE 4 this.fTimeReceivedIsTxTime ++ (toLE 4 this.nTimeReceived ++
      (toLE 1 this.fFromMe.toNat ++ toLE 1 this.fSpent.toNat)))))),
    { this with mapValue := eraseReserved this.writtenValue })

/-- The object after its fields were read. -/
def afterRead (merkle : CMerkleTx) (vtxPrev : List CMerkleTx) (mapValue : StdMap (List UInt8) (List UInt8))
    (vOrderForm : List (List UInt8 × List UInt8)) (fTimeReceivedIsTxTime nTimeReceived : Nat)
    (fFromMe fSpent : UInt8) : WalletTxRecord where
  merkle := merkle
  vtxPrev := vtxPrev
  mapValue := eraseReserved mapValue
  vOrderForm := vOrderForm
  fTimeReceivedIsTxTime := fTimeReceivedIsTxTime
  nTimeReceived := nTimeReceived
  nTimeSmart := readTimeSmart mapValue
  fFromMe := fFromMe
  strFromAccount := (mapValue.lookup fromaccountKey).getD []
  vfSpent := readSpent mapValue merkle.tx.vout.length fSpent
  nOrderPos := readOrderPos mapValue

end WalletTxRecord

def readWalletTx : Reader WalletTxRecord := do
  let merkle ← readMerkleTx
  let vtxPrev ← readVector readMerkleTx
  let mapValue ← readMap
  let vOrderForm ← readVector readPair
  let fTimeReceivedIsTxTime ← readLE 4
  let nTimeReceived ← readLE 4
  let fFromMe ← readLE 1
  let fSpent ← readLE 1
  pure (.afterRead merkle vtxPrev mapValue vOrderForm fTimeReceivedIsTxTime nTimeReceived (.ofNat fFromMe)
    (.ofNat fSpent))

end Sphinx
