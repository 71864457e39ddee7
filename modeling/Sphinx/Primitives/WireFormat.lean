import Sphinx.Primitives.Block
import Sphinx.Primitives.Serialize

/-!
# The wire format

`IMPLEMENT_SERIALIZE` of the transactions and the blocks, with the loops of `Unserialize` as they are: a vector is
read in pieces, so that a bogus size does not take the memory at once.  `CTransaction.write` and the writers it uses
are in `Primitives/Serialize`.

The length of a piece depends on `sizeof(T)`, which is the compiler's.
-/

namespace Sphinx

open Codec

def SER_NETWORK : Nat := 1 <<< 0

def SER_DISK : Nat := 1 <<< 1

def SER_GETHASH : Nat := 1 <<< 2

def SER_BLOCKHEADERONLY : Nat := 1 <<< 17

/-! ### GetSerializeSize

`nSerSize` is an `unsigned int`. -/

/-- `GetSerializeSize_impl` of a vector of bytes. -/
def nSerSizeBytes (v : List UInt8) : UInt32 := .ofNat (getSizeOfCompactSize v.length + v.length)

/-- `GetSerializeSize_impl` of a vector of objects. -/
def nSerSizeVector {α : Type} (nSerSize : α → UInt32) (v : List α) : UInt32 :=
  v.foldl (fun nSize a => nSize + nSerSize a) (.ofNat (getSizeOfCompactSize v.length))

def CTxIn.nSerSize (txin : CTxIn) : UInt32 := 36 + nSerSizeBytes txin.scriptSig + 4

def CTxOut.nSerSize (txout : CTxOut) : UInt32 := 8 + nSerSizeBytes txout.scriptPubKey

def CTransaction.nSerSize (tx : CTransaction) : UInt32 :=
  4 + 4 + nSerSizeVector CTxIn.nSerSize tx.vin + nSerSizeVector CTxOut.nSerSize tx.vout + 4

def CBlock.nSerSize (nType : Nat) (block : CBlock) : UInt32 :=
  let nSize : UInt32 := 4 + 32 + 32 + 4 + 4 + 4
  if nType &&& (SER_GETHASH ||| SER_BLOCKHEADERONLY) = 0 then
    nSize + nSerSizeVector CTransaction.nSerSize block.vtx + nSerSizeBytes block.vchBlockSig
  else nSize

/-! ### Serialize -/

def CBlock.write (nType : Nat) (block : CBlock) : List UInt8 :=
  writeInt 4 block.nVersion ++ (toLE 32 block.hashPrevBlock ++ (toLE 32 block.hashMerkleRoot ++
    (toLE 4 block.nTime ++ (toLE 4 block.nBits ++ (toLE 4 block.nNonce ++
      if nType &&& (SER_GETHASH ||| SER_BLOCKHEADERONLY) = 0 then
        writeVector CTransaction.write block.vtx ++ writeBytes block.vchBlockSig
      else [])))))

/-! ### Unserialize -/

/-- The loop of `Unserialize_impl` for a vector of bytes. -/
def readBytesLoop (nSize : Nat) : Nat → Nat → List UInt8 → Reader (List UInt8)
  | 0, _, v => pure v
  | fuel + 1, i, v =>
    if i < nSize then do
      let blk := min (nSize - i) (1 + 4999999 / 1)
      let bytes ← readBytes blk
      readBytesLoop nSize fuel (i + blk) (v ++ bytes)
    else pure v

def unserializeBytes : Reader (List UInt8) := do
  let nSize ← readCompactSize
  readBytesLoop nSize nSize 0 []

/-- The loop of `Unserialize_impl` for a vector of objects. -/
def readElementsLoop {α : Type} (r : Reader α) (sizeofT nSize : Nat) :
    Nat → Nat → Nat → List α → Reader (List α)
  | 0, _, _, v => pure v
  | fuel + 1, i, nMid, v =>
    if nMid < nSize then do
      let nMid := min (nMid + 5000000 / sizeofT) nSize
      let as ← readMany r (nMid - i)
      readElementsLoop r sizeofT nSize fuel nMid nMid (v ++ as)
    else pure v

def unserializeVector {α : Type} (r : Reader α) (sizeofT : Nat) : Reader (List α) := do
  let nSize ← readCompactSize
  readElementsLoop r sizeofT nSize nSize 0 0 []

/-- `sizeof(T)` of an object of some hundred bytes. -/
abbrev ObjectSize := { sizeofT : Nat // 0 < sizeofT ∧ sizeofT ≤ 5000000 }

/-- `sizeof` of the objects that vectors hold. -/
structure ObjectSizes where
  txin : ObjectSize
  txout : ObjectSize
  tx : ObjectSize

def unserializeTxIn : Reader CTxIn := do
  let prevout ← readOutPoint
  let scriptSig ← unserializeBytes
  let nSequence ← readLE 4
  pure ⟨prevout, scriptSig, nSequence⟩

def unserializeTxOut : Reader CTxOut := do
  let nValue ← readInt 8
  let scriptPubKey ← unserializeBytes
  pure { nValue := nValue, scriptPubKey := scriptPubKey }

def unserializeTransaction (sizes : ObjectSizes) : Reader CTransaction := do
  let nVersion ← readInt 4
  let nTime ← readLE 4
  let vin ← unserializeVector unserializeTxIn sizes.txin
  let vout ← unserializeVector unserializeTxOut sizes.txout
  let nLockTime ← readLE 4
  pure ⟨nVersion, nTime, vin, vout, nLockTime⟩

def unserializeBlock (sizes : ObjectSizes) (nType : Nat) : Reader CBlock := do
  let nVersion ← readInt 4
  let hashPrevBlock ← readLE 32
  let hashMerkleRoot ← readLE 32
  let nTime ← readLE 4
  let nBits ← readLE 4
  let nNonce ← readLE 4
  if nType &&& (SER_GETHASH ||| SER_BLOCKHEADERONLY) = 0 then do
    let vtx ← unserializeVector (unserializeTransaction sizes) sizes.tx
    let vchBlockSig ← unserializeBytes
    pure ⟨nVersion, hashPrevBlock, hashMerkleRoot, nTime, nBits, nNonce, vtx, vchBlockSig⟩
  else pure ⟨nVersion, hashPrevBlock, hashMerkleRoot, nTime, nBits, nNonce, [], []⟩

/-! ### The ranges of the types -/

structure CBlock.Fits (block : CBlock) : Prop where
  nVersion : FitsInt 4 block.nVersion
  hashPrevBlock : block.hashPrevBlock < 256 ^ 32
  hashMerkleRoot : block.hashMerkleRoot < 256 ^ 32
  nTime : block.nTime < 256 ^ 4
  nBits : block.nBits < 256 ^ 4
  nNonce : block.nNonce < 256 ^ 4
  vtx : ∀ tx ∈ block.vtx, tx.Fits

/-- No vector of the block is longer than `MAX_SIZE`. -/
structure CBlock.Bounded (block : CBlock) : Prop where
  vtx : block.vtx.length ≤ maxSize ∧ ∀ tx ∈ block.vtx, tx.Bounded
  vchBlockSig : block.vchBlockSig.length ≤ maxSize

/-- The part of a block that is serialized. -/
def CBlock.serialized (block : CBlock) : CBlock := { block with vtx := block.vtx.map CTransaction.serialized }

end Sphinx
