import Sphinx.Primitives.Transaction

/-!
# The memory pool

`CTxMemPool` holds the transactions by hash (`mapTx`) and, for every outpoint some pool
transaction spends, the input that spends it (`mapNextTx`).  A `CInPoint` holds a pointer into
`mapTx`; the nodes of a `std::map` stay where they are, so the pointer is modelled by the key of
the node.

`remove` calls itself on the transactions that spend the outputs of the removed one, while these
are still in the pool and the map it walks is being erased.  `removeRec` bounds the depth of that
recursion: it is `none` when the bound is reached or a dangling pointer is followed.  `remove` and
`removeConflicts` give it a depth of one more than the number of pool transactions.
-/

namespace Sphinx

/-- An inpoint: a transaction of the pool and an index `n` into its `vin`. -/
structure CInPoint where
  ptx : Uint256
  n : Nat
deriving DecidableEq, Repr

structure CTxMemPool where
  mapTx : StdMap Uint256 CTransaction := ∅
  mapNextTx : StdMap COutPoint CInPoint := ∅
  nTransactionsUpdated : Nat := 0

namespace CTxMemPool

/-- `exists(hash)`. -/
def contains (pool : CTxMemPool) (hash : Uint256) : Bool := (pool.mapTx.lookup hash).isSome

def lookup (pool : CTxMemPool) (hash : Uint256) : Option CTransaction := pool.mapTx.lookup hash

def addUnchecked (pool : CTxMemPool) (hash : Uint256) (tx : CTransaction) : CTxMemPool :=
  { mapTx := pool.mapTx.insert hash tx
    mapNextTx := tx.prevouts.zipIdx.foldl (fun m (o, i) => m.insert o ⟨hash, i⟩) pool.mapNextTx
    nTransactionsUpdated := pool.nTransactionsUpdated + 1 }

/-- The end of `remove`: the inputs of `tx` and then its own entry are erased. -/
def eraseTx (pool : CTxMemPool) (hash : Uint256) (tx : CTransaction) : CTxMemPool :=
  { mapTx := pool.mapTx.erase hash
    mapNextTx := tx.prevouts.foldl (fun m o => m.erase o) pool.mapNextTx
    nTransactionsUpdated := pool.nTransactionsUpdated + 1 }

variable (getHash : CTransaction → Uint256)

/-- One round of the output loop of a recursive `remove`; `recurse` is the recursive call. -/
def removeSpender (recurse : CTxMemPool → CTransaction → Option CTxMemPool) (hash : Uint256)
    (pool : CTxMemPool) (i : Nat) : Option CTxMemPool :=
  match pool.mapNextTx.lookup ⟨hash, i⟩ with
  | none => some pool
  | some it =>
    match pool.mapTx.lookup it.ptx with
    | none => none
    | some tx => recurse pool tx

/-- `remove(tx, true)`, with at most `depth` nested calls. -/
def removeRec : Nat → CTxMemPool → CTransaction → Option CTxMemPool
  | 0, _, _ => none
  | depth + 1, pool, tx =>
    let hash := getHash tx
    if pool.contains hash then do
      let pool ← (List.range tx.vout.length).foldlM (removeSpender (removeRec depth) hash) pool
      some (pool.eraseTx hash tx)
    else some pool

/-- One round of `removeConflicts`. -/
def removeConflict (depth : Nat) (tx : CTransaction) (pool : CTxMemPool) (o : COutPoint) :
    Option CTxMemPool :=
  match pool.mapNextTx.lookup o with
  | none => some pool
  | some it =>
    match pool.mapTx.lookup it.ptx with
    | none => none
    | some txConflict =>
      if txConflict ≠ tx then removeRec getHash depth pool txConflict else some pool

/-- `removeConflicts(tx)`, with at most `depth` nested calls of `remove`. -/
def removeConflictsRec (depth : Nat) (pool : CTxMemPool) (tx : CTransaction) :
    Option CTxMemPool :=
  tx.prevouts.foldlM (removeConflict getHash depth tx) pool

/-- The depth given to the recursion. -/
def depth (pool : CTxMemPool) : Nat := pool.mapTx.entries.length + 1

def remove (pool : CTxMemPool) (tx : CTransaction) (fRecursive : Bool := false) : CTxMemPool :=
  if fRecursive then (removeRec getHash pool.depth pool tx).getD pool
  else if pool.contains (getHash tx) then pool.eraseTx (getHash tx) tx
  else pool

def removeConflicts (pool : CTxMemPool) (tx : CTransaction) : CTxMemPool :=
  (removeConflictsRec getHash pool.depth pool tx).getD pool

def clear (pool : CTxMemPool) : CTxMemPool :=
  { nTransactionsUpdated := pool.nTransactionsUpdated + 1 }

end CTxMemPool

end Sphinx
