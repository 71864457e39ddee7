import Sphinx.TxDb

/-!
# The database handle on bytes

`CTxDB` as `txdb-leveldb.h` has it, where keys and values are the bytes they are serialized to and
`Read` gives a value back only if its bytes can be read as one.  LevelDB is an exact map that applies
a batch in order and at once.

An `assert` that fails is `none`.
-/

namespace Sphinx

open WriteBatch

abbrev Bytes := List UInt8

structure LevelDbHandle where
  pdb : Bytes → Option Bytes
  activeBatch : Option (List (BatchOp Bytes Bytes)) := none
  fReadOnly : Bool := false

/-- What `CBatchScanner` has found in the part of the batch it has seen. -/
structure CBatchScanner where
  foundEntry : Bool := false
  deleted : Bool := false
  foundValue : Bytes := []
deriving DecidableEq, Repr

namespace CBatchScanner

/-- `CBatchScanner::Put` and `CBatchScanner::Delete`. -/
def handle (needle : Bytes) (scanner : CBatchScanner) : BatchOp Bytes Bytes → CBatchScanner
  | .put key value =>
    if key = needle then { foundEntry := true, deleted := false, foundValue := value } else scanner
  | .delete key =>
    if key = needle then { scanner with foundEntry := true, deleted := true } else scanner

/-- `ScanBatch`. -/
def scan (batch : List (BatchOp Bytes Bytes)) (key : Bytes) : CBatchScanner :=
  batch.foldl (handle key) {}

end CBatchScanner

namespace LevelDbHandle

variable {T : Type}

/-- `Read`, for values of a type that is read with `unserialize`. -/
def read (h : LevelDbHandle) (unserialize : Bytes → Option T) (key : Bytes) : Option T :=
  match h.activeBatch with
  | none => (h.pdb key).bind unserialize
  | some batch =>
    let scanner := CBatchScanner.scan batch key
    if scanner.deleted then none
    else if scanner.foundEntry then unserialize scanner.foundValue
    else (h.pdb key).bind unserialize

def write (h : LevelDbHandle) (key value : Bytes) : Option LevelDbHandle :=
  if h.fReadOnly then none
  else
    match h.activeBatch with
    | some batch => some { h with activeBatch := some (batch ++ [.put key value]) }
    | none => some { h with pdb := Function.update h.pdb key (some value) }

def erase (h : LevelDbHandle) (key : Bytes) : Option LevelDbHandle :=
  if h.fReadOnly then none
  else
    match h.activeBatch with
    | some batch => some { h with activeBatch := some (batch ++ [.delete key]) }
    | none => some { h with pdb := Function.update h.pdb key none }

/-- `Exists`: a key deleted in the batch is looked up in the database all the same. -/
def existsKey (h : LevelDbHandle) (key : Bytes) : Bool :=
  match h.activeBatch with
  | none => (h.pdb key).isSome
  | some batch =>
    let scanner := CBatchScanner.scan batch key
    if scanner.foundEntry && !scanner.deleted then true else (h.pdb key).isSome

def txnBegin (h : LevelDbHandle) : Option LevelDbHandle :=
  match h.activeBatch with
  | some _ => none
  | none => some { h with activeBatch := some [] }

def txnCommit (h : LevelDbHandle) : Option LevelDbHandle :=
  match h.activeBatch with
  | none => none
  | some batch => some { h with pdb := applyBatch h.pdb batch, activeBatch := none }

def txnAbort (h : LevelDbHandle) : LevelDbHandle := { h with activeBatch := none }

end LevelDbHandle

end Sphinx
