import Sphinx.AcceptToMemoryPool
import Sphinx.Util.Loop
import Sphinx.Util.TwoWayIndex

/-!
# Orphan transactions

The orphan transactions of `main.cpp`: `AddOrphanTx`, `EraseOrphanTx`, `LimitOrphanTxSize`, and the
messages `tx` and `dstx` of `ProcessMessage`.  `mapOrphanTransactionsByPrev` has the hashes of the
orphans that spend outputs of a transaction, in ascending order.

What is relayed to other nodes, and the misbehaviour score of the sender, is left out.  A loop that
may not end takes `fuel`.
-/

namespace Sphinx

open TwoWayIndex

def maxOrphanTransactions : Nat := maxBlockSize / 100

/-- The chain state with the orphan transactions. -/
structure TxNode where
  node : Node
  mapOrphanTransactions : StdMap Uint256 CTransaction
  mapOrphanTransactionsByPrev : StdMap Uint256 (List Uint256)

/-- `mapOrphanTransactions.size()`. -/
def TxNode.nOrphans (s : TxNode) : Nat := s.mapOrphanTransactions.entries.length

/-- The transactions that the inputs refer to. -/
def CTransaction.prevHashes (tx : CTransaction) : List Uint256 := tx.prevouts.map COutPoint.hash

/-- `AddOrphanTx(tx)`: its result, and the state. -/
def addOrphanTx (env : Env) (s : TxNode) (tx : CTransaction) : Bool × TxNode :=
  let hash := env.getHash tx
  if (s.mapOrphanTransactions.lookup hash).isSome then (false, s)
  -- ignore big transactions, to avoid a send-big-orphans memory exhaustion attack
  else if 5000 < tx.getSerializeSize then (false, s)
  else
    (true, { s with
      mapOrphanTransactions := s.mapOrphanTransactions.insert hash tx
      mapOrphanTransactionsByPrev := tx.prevHashes.foldl (insertKey hash) s.mapOrphanTransactionsByPrev })

def eraseOrphanTx (s : TxNode) (hash : Uint256) : TxNode :=
  match s.mapOrphanTransactions.lookup hash with
  | none => s
  | some tx =>
    { s with
      mapOrphanTransactions := s.mapOrphanTransactions.erase hash
      mapOrphanTransactionsByPrev := tx.prevHashes.foldl (eraseKey hash) s.mapOrphanTransactionsByPrev }

/-- `lower_bound(key)`, or `begin()` where that is `end()`. -/
def lowerBoundOrFirst (keys : List Uint256) (key : Uint256) : Option Uint256 :=
  (keys.filter fun k => key ≤ k).min?.or keys.min?

/-- `LimitOrphanTxSize(nMaxOrphans)`, with `nEvicted` orphans evicted so far: the state and what is
returned.  `randHash` gives the hashes of `GetRandHash`. -/
def limitOrphanTxSize (nMaxOrphans : Nat) (randHash : Nat → Uint256) :
    Nat → Nat → TxNode → Option (TxNode × Nat)
  | 0, _, _ => none
  | fuel + 1, nEvicted, s =>
    if s.nOrphans ≤ nMaxOrphans then some (s, nEvicted)
    else
      -- evict a random orphan
      match lowerBoundOrFirst s.mapOrphanTransactions.keys (randHash nEvicted) with
      | none => none
      | some hash => limitOrphanTxSize nMaxOrphans randHash fuel (nEvicted + 1) (eraseOrphanTx s hash)

/-! ### The messages -/

/-- The command of the message.  A `dstx` is dropped if it has been broadcast already (`fHave`), or if
its masternode, if known, may not send free transactions or has not signed the message. -/
inductive TxCommand where
  | tx
  | dstx (fHave : Bool) (masternode : Option (Bool × Bool))

/-- A transaction on its way into `ProcessMessage`. -/
structure TxMessage where
  command : TxCommand
  tx : CTransaction
  /-- What `AcceptToMemoryPool` of the transaction reads. -/
  ctx : Ctx
  /-- What `AcceptToMemoryPool` of the orphan with the given hash reads. -/
  orphanCtx : Uint256 → Ctx
  randHash : Nat → Uint256

/-- The message is not dropped at once; for a `tx`, `AlreadyHave` is false. -/
def proceeds (env : Env) (a : TxMessage) (s : TxNode) : Bool :=
  match a.command with
  | .tx =>
    let hash := env.getHash a.tx
    !(s.node.mempool.contains hash || (s.mapOrphanTransactions.lookup hash).isSome ||
      (⟨s.node.txdb.pdb, none⟩ : CTxDB).containsTx hash)
  | .dstx fHave masternode =>
    !fHave &&
      match masternode with
      | none => true
      | some (fAllowFreeTx, fSigned) => fAllowFreeTx && fSigned

/-- `CTransaction()`. -/
def TxMessage.emptyTx (a : TxMessage) : CTransaction :=
  { nTime := (a.ctx.nAdjustedTime % 2 ^ 32).toNat, vin := [], vout := [] }

/-- The state of the loop over the orphans: `vWorkQueue` from the current position on. -/
structure TxWork where
  state : TxNode
  vWorkQueue : List Uint256
  vEraseQueue : List Uint256

/-- One orphan that depends on an accepted transaction.  `mapOrphanTransactions[orphanTxHash]` makes an
empty entry if there is none. -/
def processOrphanTx (env : Env) (a : TxMessage) (w : TxWork) (orphanTxHash : Uint256) : TxWork :=
  let orphanTx := (w.state.mapOrphanTransactions.lookup orphanTxHash).getD a.emptyTx
  let state := { w.state with
    mapOrphanTransactions := MapLoop.insertNew orphanTx w.state.mapOrphanTransactions orphanTxHash }
  let ctx := a.orphanCtx orphanTxHash
  match acceptToMemoryPool env ctx state.node orphanTx with
  | .ok node =>
    { state := { state with node := node }
      vWorkQueue := w.vWorkQueue ++ [orphanTxHash]
      vEraseQueue := w.vEraseQueue ++ [orphanTxHash] }
  | .error _ =>
    -- without `fMissingInputs2` it has inputs but is not accepted
    let vEraseQueue :=
      if acceptMissingInputs env ctx state.node orphanTx then w.vEraseQueue
      else w.vEraseQueue ++ [orphanTxHash]
    { w with state := state, vEraseQueue := vEraseQueue }

/-- The loop over the work queue. -/
def processOrphanTxs (env : Env) (a : TxMessage) : Nat → TxWork → Option TxWork
  | 0, _ => none
  | fuel + 1, w =>
    match w.vWorkQueue with
    | [] => some w
    | hash :: rest =>
      processOrphanTxs env a fuel
        (((w.state.mapOrphanTransactionsByPrev.lookup hash).getD []).foldl (processOrphanTx env a)
          { w with vWorkQueue := rest })

/-- The messages `tx` and `dstx`. -/
def processTx (env : Env) (fuel : Nat) (a : TxMessage) (s : TxNode) : Option TxNode :=
  if !proceeds env a s then some s
  else
    match acceptToMemoryPool env a.ctx s.node a.tx with
    | .ok node => do
      let w ← processOrphanTxs env a fuel ⟨{ s with node := node }, [env.getHash a.tx], []⟩
      return w.vEraseQueue.foldl eraseOrphanTx w.state
    | .error _ =>
      if acceptMissingInputs env a.ctx s.node a.tx then do
        let (_, s) := addOrphanTx env s a.tx
        -- do not allow mapOrphanTransactions to grow unbounded
        let (s, _) ← limitOrphanTxSize maxOrphanTransactions a.randHash fuel 0 s
        return s
      else some s

end Sphinx
