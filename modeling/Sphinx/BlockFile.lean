import Sphinx.Env
import Sphinx.Primitives.Equiv.WireFormat

/-!
# The block files

`OpenBlockFile`, `AppendBlockFile`, the functions that write a block to its file and read a block or a transaction
back, and `LoadExternalBlockFile` with its two loops.

A file is the list of its bytes.  Files that cannot be opened or written are left out.  In the import of a file, `nPos`
is an `unsigned int`; interruptions of the thread and the log are left out.
-/

namespace Sphinx

open Codec

/-- The files `blk0001.dat` and so on, and `nCurrentBlockFile`.  A file that does not exist has no bytes. -/
structure BlockStore where
  files : Nat → List UInt8
  nCurrentBlockFile : Nat := 1

namespace BlockStore

def openBlockFile (store : BlockStore) (nFile : Nat) : Option (List UInt8) :=
  if nFile < 1 || nFile = uintMax then none else some (store.files nFile)

/-- The loop of `AppendBlockFile`, `none` if it returns the null pointer or takes more than `fuel` rounds. -/
def appendBlockFile : Nat → BlockStore → Option (Nat × BlockStore)
  | 0, _ => none
  | fuel + 1, store =>
    match store.openBlockFile store.nCurrentBlockFile with
    | none => none
    | some file =>
      -- FAT32 file size max 4GB, fseek and ftell max 2GB, so we must stay under 2GB
      if file.length < 0x7F000000 - maxSize then some (store.nCurrentBlockFile, store)
      else appendBlockFile fuel { store with nCurrentBlockFile := store.nCurrentBlockFile + 1 }

def writeToDisk (pchMessageStart : List UInt8) (fuel : Nat) (block : CBlock) (store : BlockStore) :
    Option (Nat × Nat × BlockStore) :=
  match store.appendBlockFile fuel with
  | none => none
  | some (nFileRet, store) =>
    let fileout := store.files nFileRet ++ (pchMessageStart ++ toLE 4 (block.nSerSize SER_DISK).toNat)
    let nBlockPosRet := fileout.length
    some (nFileRet, nBlockPosRet,
      { store with files := Function.update store.files nFileRet (fileout ++ block.write SER_DISK) })

variable (sizes : ObjectSizes) (store : BlockStore)

/-- `CBlock::ReadFromDisk(nFile, nBlockPos)` up to the checks of the header. -/
def readBlock (nFile nBlockPos : Nat) : Option CBlock :=
  (store.openBlockFile nFile).bind fun filein =>
    (unserializeBlock sizes SER_DISK (filein.drop nBlockPos)).map Prod.fst

/-- `CTransaction::ReadFromDisk(pos)`. -/
def readTx (nFile nTxPos : Nat) : Option CTransaction :=
  (store.openBlockFile nFile).bind fun filein =>
    (unserializeTransaction sizes (filein.drop nTxPos)).map Prod.fst

end BlockStore

/-! ### Importing a block file -/

/-- The networks of `SelectParams`. -/
inductive Network
  | main
  | testnet
  deriving DecidableEq, Repr

/-- `Params().MessageStart()`. -/
def Network.messageStart : Network → List UInt8
  | main => [0xd2, 0x2d, 0x1c, 0xe5]
  | testnet => [0x2f, 0xca, 0x4d, 0x3e]

/-- What a window of the file holds: too little, `MessageStart`, only its first byte, or not even that. -/
inductive ImportWindow
  | short
  | found (nFind : Nat)
  | stray (nFind : Nat)
  | clear

variable (network : Network) (sizes : ObjectSizes) (file : List UInt8)

/-- `fread`, `memchr` and `memcmp` of the inner loop. -/
def readWindow (nPos : Nat) : ImportWindow :=
  let pchData := (file.drop nPos).take 65536
  let nRead := pchData.length
  if nRead ≤ 8 then .short
  else
    match (pchData.take (nRead + 1 - 4)).findIdx? (· == network.messageStart.headD 0) with
    | some nFind => if (pchData.drop nFind).take 4 = network.messageStart then .found nFind else .stray nFind
    | none => .clear

/-- The inner loop, `none` if it takes more than `fuel` rounds. -/
def findMessageStart : Nat → Nat → Option Nat
  | 0, _ => none
  | fuel + 1, nPos =>
    match readWindow network file nPos with
    | .short => some uintMax
    | .found nFind => some ((nPos + (nFind + 4)) % 2 ^ 32)
    | .stray nFind => findMessageStart fuel ((nPos + (nFind + 1)) % 2 ^ 32)
    | .clear => findMessageStart fuel ((nPos + (65536 - 4 + 1)) % 2 ^ 32)

/-- What comes after `MessageStart`: an exception, a size that is not looked at, or a block. -/
inductive ImportRecord
  | broken
  | ignored
  | block (nSize : Nat) (block : CBlock)

/-- `blkdat >> nSize` and `blkdat >> block`. -/
def readImportRecord (nPos : Nat) : ImportRecord :=
  match readLE 4 (file.drop nPos) with
  | none => .broken
  | some (nSize, blkdat) =>
    if 0 < nSize ∧ nSize ≤ maxBlockSize then
      match unserializeBlock sizes SER_DISK blkdat with
      | none => .broken
      | some (block, _) => .block nSize block
    else .ignored

/-- The variables of the outer loop, the state that `ProcessBlock` works on, and the blocks it has been given, each
with its `nPos`. -/
structure ImportState (σ : Type) where
  nPos : Nat
  nLoaded : Nat
  chain : σ
  offered : List (Nat × CBlock)

variable {σ : Type} (processBlock : σ → CBlock → σ × Bool)

/-- `ProcessBlock(NULL, &block)` and what follows it. -/
def ImportState.offer (st : ImportState σ) (nPos nSize : Nat) (block : CBlock) : ImportState σ :=
  let (chain, accepted) := processBlock st.chain block
  { nPos := if accepted then (nPos + (4 + nSize)) % 2 ^ 32 else nPos
    nLoaded := if accepted then st.nLoaded + 1 else st.nLoaded
    chain := chain
    offered := st.offered ++ [(nPos, block)] }

/-- The outer loop, `none` if one of the loops takes more than `fuel` rounds. -/
def importLoop : Nat → ImportState σ → Option (ImportState σ)
  | 0, _ => none
  | fuel + 1, st =>
    if st.nPos = uintMax then some st
    else
      match findMessageStart network file fuel st.nPos with
      | none => none
      | some nPos =>
        if nPos = uintMax then some { st with nPos := nPos }
        else
          match readImportRecord sizes file nPos with
          -- the exception is caught behind the loop
          | .broken => some { st with nPos := nPos }
          | .ignored => importLoop fuel { st with nPos := nPos }
          | .block nSize block => importLoop fuel (st.offer processBlock nPos nSize block)

/-- `LoadExternalBlockFile(fileIn)`; it returns whether `nLoaded` is positive. -/
def loadExternalBlockFile (fuel : Nat) (chain : σ) : Option (ImportState σ) :=
  importLoop network sizes file processBlock fuel { nPos := 0, nLoaded := 0, chain := chain, offered := [] }

end Sphinx
