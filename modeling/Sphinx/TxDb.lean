import Sphinx.Chain
import Sphinx.Util.WriteBatch

/-!
# The transaction database

`CTxDB` is a LevelDB handle with an optional open batch: while a batch is open, writes and erases
are appended to it, and a read consults it before the database.  `CTxDB.view` is what a read sees
under each key (`read_eq_view`); every operation is characterised by its effect on the view.
-/

namespace Sphinx

open WriteBatch
open Function (update update_of_ne)

/-- Position on disk of a transaction.  `null` is `SetNull()`, i.e. `nFile = -1`: block files are
numbered from `1`, so no other position has that file number. -/
inductive CDiskTxPos where
  | null
  | pos (nFile nBlockPos nTxPos : Nat)
deriving DecidableEq, Repr

namespace CDiskTxPos

def isNull (p : CDiskTxPos) : Bool := p = null

/-- The position `FetchInputs` treats as "refer to the memory pool". -/
def memoryPool : CDiskTxPos := pos 1 1 1

@[simp] theorem isNull_null : isNull null = true := rfl

@[simp] theorem isNull_pos (f b t : Nat) : isNull (pos f b t) = false := rfl

theorem isNull_iff {p : CDiskTxPos} : p.isNull = true ↔ p = null := by simp [isNull]

end CDiskTxPos

/-- Where a transaction is, and where each of its outputs is spent. -/
structure CTxIndex where
  pos : CDiskTxPos
  vSpent : List CDiskTxPos
deriving DecidableEq, Repr

/-- The constructor `CTxIndex(posIn, nOutputs)`: all outputs unspent. -/
def CTxIndex.mk' (posIn : CDiskTxPos) (nOutputs : Nat) : CTxIndex :=
  ⟨posIn, List.replicate nOutputs .null⟩

/-- The keys of the database. -/
inductive DbKey where
  | tx (hash : Uint256)
  | blockindex (hash : Uint256)
  | adr (addrHash : Nat)
  | hashBestChain
  | bnBestInvalidTrust
deriving DecidableEq, Repr

/-- The stored values. -/
inductive DbVal where
  | txIndex (txindex : CTxIndex)
  | diskIndex (blockindex : CDiskBlockIndex)
  | hashes (txHashes : List Uint256)
  | hash (h : Uint256)
deriving DecidableEq, Repr

structure CTxDB where
  /-- The database proper. -/
  pdb : DbKey → Option DbVal
  /-- The pending operations, while a transaction is open. -/
  activeBatch : Option (List (BatchOp DbKey DbVal)) := none

namespace CTxDB

section

variable (txdb : CTxDB)

def read (key : DbKey) : Option DbVal :=
  match txdb.activeBatch with
  | some ops => (scanBatch ops key).getD (txdb.pdb key)
  | none => txdb.pdb key

def write (key : DbKey) (value : DbVal) : CTxDB :=
  match txdb.activeBatch with
  | some ops => { txdb with activeBatch := some (ops ++ [.put key value]) }
  | none => { txdb with pdb := update txdb.pdb key (some value) }

def erase (key : DbKey) : CTxDB :=
  match txdb.activeBatch with
  | some ops => { txdb with activeBatch := some (ops ++ [.delete key]) }
  | none => { txdb with pdb := update txdb.pdb key none }

/-- `Exists`: a key deleted in the batch is looked up in the database all the same. -/
def existsKey (key : DbKey) : Bool :=
  match txdb.activeBatch with
  | some ops =>
    match scanBatch ops key with
    | some (some _) => true
    | _ => (txdb.pdb key).isSome
  | none => (txdb.pdb key).isSome

/-- `TxnBegin`; it asserts that no batch is open. -/
def txnBegin : CTxDB := { txdb with activeBatch := some [] }

def txnCommit : CTxDB :=
  { pdb := batchView txdb.pdb txdb.activeBatch, activeBatch := none }

def txnAbort : CTxDB := { txdb with activeBatch := none }

def readTxIndex (hash : Uint256) : Option CTxIndex :=
  match txdb.read (.tx hash) with
  | some (.txIndex txindex) => some txindex
  | _ => none

def updateTxIndex (hash : Uint256) (txindex : CTxIndex) : CTxDB :=
  txdb.write (.tx hash) (.txIndex txindex)

def eraseTxIndex (hash : Uint256) : CTxDB := txdb.erase (.tx hash)

def containsTx (hash : Uint256) : Bool := txdb.existsKey (.tx hash)

def writeBlockIndex (blockindex : CDiskBlockIndex) : CTxDB :=
  txdb.write (.blockindex blockindex.blockHash) (.diskIndex blockindex)

/-- The stored record of a block. -/
def readBlockIndex (hash : Uint256) : Option CDiskBlockIndex :=
  match txdb.read (.blockindex hash) with
  | some (.diskIndex blockindex) => some blockindex
  | _ => none

def writeHashBestChain (hash : Uint256) : CTxDB :=
  txdb.write .hashBestChain (.hash hash)

def readHashBestChain : Option Uint256 :=
  match txdb.read .hashBestChain with
  | some (.hash h) => some h
  | _ => none

def readBestInvalidTrust : Option Nat :=
  match txdb.read .bnBestInvalidTrust with
  | some (.hash bnBestInvalidTrust) => some bnBestInvalidTrust
  | _ => none

def readAddrIndex (addrHash : Nat) : Option (List Uint256) :=
  match txdb.read (.adr addrHash) with
  | some (.hashes txHashes) => some txHashes
  | _ => none

def writeAddrIndex (addrHash : Nat) (txHash : Uint256) : CTxDB :=
  match txdb.readAddrIndex addrHash with
  | none => txdb.write (.adr addrHash) (.hashes [txHash])
  | some txHashes =>
    if txHash ∈ txHashes then txdb
    else txdb.write (.adr addrHash) (.hashes (txHashes ++ [txHash]))

/-! ### The view -/

/-- What a read sees under each key. -/
def view : DbKey → Option DbVal := batchView txdb.pdb txdb.activeBatch

theorem read_eq_view (key : DbKey) : txdb.read key = txdb.view key := by
  unfold read view
  cases txdb.activeBatch with
  | none => rfl
  | some ops => exact scanBatch_getD txdb.pdb ops key

theorem view_write (key : DbKey) (value : DbVal) :
    (txdb.write key value).view = update txdb.view key (some value) := by
  unfold write view
  cases txdb.activeBatch with
  | none => simp [batchView, applyBatch]
  | some ops => exact batchView_put _ _ _ _

theorem view_erase (key : DbKey) :
    (txdb.erase key).view = update txdb.view key none := by
  unfold erase view
  cases txdb.activeBatch with
  | none => simp [batchView, applyBatch]
  | some ops => exact batchView_delete _ _ _

@[simp] theorem view_txnBegin : txdb.txnBegin.view = txdb.pdb := rfl

@[simp] theorem view_txnCommit : txdb.txnCommit.view = txdb.view := rfl

@[simp] theorem view_txnAbort : txdb.txnAbort.view = txdb.pdb := rfl

/-- The transaction index as a map. -/
def txIndexMap : Uint256 → Option CTxIndex := txdb.readTxIndex

end

theorem readTxIndex_write_of_ne {txdb : CTxDB} {key : DbKey} {value : DbVal} {hash : Uint256}
    (h : key ≠ .tx hash) : (txdb.write key value).readTxIndex hash = txdb.readTxIndex hash := by
  simp only [readTxIndex, read_eq_view, view_write, update_of_ne (Ne.symm h)]

theorem txIndexMap_updateTxIndex (txdb : CTxDB) (hash : Uint256) (txindex : CTxIndex) :
    (txdb.updateTxIndex hash txindex).txIndexMap
      = update txdb.txIndexMap hash (some txindex) := by
  funext h
  by_cases hh : h = hash
  · subst hh
    simp [txIndexMap, readTxIndex, read_eq_view, updateTxIndex, view_write]
  · rw [update_of_ne hh]
    exact readTxIndex_write_of_ne (fun hc => hh (DbKey.tx.inj hc).symm)

theorem txIndexMap_eraseTxIndex (txdb : CTxDB) (hash : Uint256) :
    (txdb.eraseTxIndex hash).txIndexMap = update txdb.txIndexMap hash none := by
  funext h
  by_cases hh : h = hash
  · subst hh
    simp [txIndexMap, readTxIndex, read_eq_view, eraseTxIndex, view_erase]
  · rw [update_of_ne hh]
    have hne : DbKey.tx h ≠ .tx hash := fun hc => hh (DbKey.tx.inj hc)
    simp only [txIndexMap, readTxIndex, read_eq_view, eraseTxIndex, view_erase,
      update_of_ne hne]

end CTxDB

end Sphinx
