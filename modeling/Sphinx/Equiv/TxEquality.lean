import Sphinx.Equiv.TxMemPool
import Sphinx.MerkleTx
import Sphinx.Script.VerifyScript

/-!
# Transactions with the same bytes

`operator==` compares `nRounds` of the outputs, which is not written, and which the constructor of an output with
a value does not set.

* `equals_iff`: `operator==` is the equality of all the fields;
* `equals_of_write_iff`: two transactions with the same bytes are equal exactly when their outputs agree in
  `nRounds`, and it is then that `SetMerkleBranch` and `removeConflicts` recognize one as the other.
-/

namespace Sphinx

open Codec CTxMemPool

/-! ### `operator==` -/

theorem CTxIn.equals_iff {a b : CTxIn} : a.equals b = true ↔ a = b := by
  rw [equals, CTxIn.mk.injEq]
  simp only [Bool.and_eq_true, decide_eq_true_eq, and_assoc]

theorem CTxOut.equals_iff {a b : CTxOut} : a.equals b = true ↔ a = b := by
  rw [equals, CTxOut.mk.injEq]
  simp only [Bool.and_eq_true, decide_eq_true_eq, and_assoc]
  exact and_congr_right fun _ => and_comm

theorem isEqv_iff_eq {α : Type} {eqv : α → α → Bool} (heqv : ∀ {a b : α}, eqv a b = true ↔ a = b)
    {l l' : List α} :
    l.isEqv l' eqv = true ↔ l = l' := by
  induction l generalizing l' with
  | nil => cases l' <;> simp
  | cons a l ih => cases l' with
    | nil => simp
    | cons a' l' => rw [List.isEqv_cons_cons, Bool.and_eq_true, heqv, ih, List.cons.injEq]

theorem CTransaction.equals_iff {a b : CTransaction} : a.equals b = true ↔ a = b := by
  rw [equals, CTransaction.mk.injEq]
  simp only [Bool.and_eq_true, decide_eq_true_eq, isEqv_iff_eq CTxIn.equals_iff, isEqv_iff_eq CTxOut.equals_iff,
    and_assoc]

/-! ### How a transaction comes into being -/

/-- The constructors of an output, and what may happen to it afterwards. -/
inductive TxOutBuild where
  | null
  | ofValue (memory : Int) (nValueIn : CAmount) (scriptPubKeyIn : CScript)
  | setNull (b : TxOutBuild)
  | setEmpty (b : TxOutBuild)
  /-- The fields that are written are assigned, or read from a stream. -/
  | assign (b : TxOutBuild) (nValue : CAmount) (scriptPubKey : CScript)
  /-- The number of rounds is stored. -/
  | setRounds (b : TxOutBuild) (nRounds : Int)

namespace TxOutBuild

def txout : TxOutBuild → CTxOut
  | null => CTxOut.null
  | ofValue memory nValueIn scriptPubKeyIn => CTxOut.ofValue memory nValueIn scriptPubKeyIn
  | setNull _ => CTxOut.null
  | setEmpty b => b.txout.setEmpty
  | assign b nValue scriptPubKey => { b.txout with nValue := nValue, scriptPubKey := scriptPubKey }
  | setRounds b nRounds => { b.txout with nRounds := nRounds }

/-- The initial value, or what was in the memory, or what was stored. -/
def rounds : TxOutBuild → Int
  | null => -10
  | ofValue memory _ _ => memory
  | setNull _ => -10
  | setEmpty b => b.rounds
  | assign b _ _ => b.rounds
  | setRounds _ nRounds => nRounds

theorem nRounds_txout (b : TxOutBuild) : b.txout.nRounds = b.rounds := by
  induction b with
  | null => rfl
  | ofValue => rfl
  | setNull => rfl
  | setEmpty b ih => exact ih
  | assign b nValue scriptPubKey ih => exact ih
  | setRounds => rfl

end TxOutBuild

/-- A transaction with the fields that are assigned to it. -/
structure TxBuild where
  nVersion : Int := 1
  nTime : Nat
  vin : List CTxIn
  vout : List TxOutBuild
  nLockTime : Nat := 0

namespace TxBuild

def tx (b : TxBuild) : CTransaction := ⟨b.nVersion, b.nTime, b.vin, b.vout.map TxOutBuild.txout, b.nLockTime⟩

def rounds (b : TxBuild) : List Int := b.vout.map TxOutBuild.rounds

theorem nRounds_tx (b : TxBuild) : b.tx.vout.map CTxOut.nRounds = b.rounds := by
  rw [tx, rounds, List.map_map]
  exact List.map_congr_left fun o _ => o.nRounds_txout

end TxBuild

/-! ### The same bytes -/

theorem eq_iff_of_write {a b : CTransaction} (ha : a.InRange) (hb : b.InRange) (hwrite : a.write = b.write) :
    a = b ↔ a.vout.map CTxOut.nRounds = b.vout.map CTxOut.nRounds := by
  obtain ⟨hreceived, -⟩ := splitsOff_write a b [] [] ha hb (by rw [hwrite])
  refine CTransaction.eq_iff_nRounds ?_
  rw [← serialized_receivedTransaction a, hreceived, serialized_receivedTransaction]

/-! ### Who compares transactions -/

theorem CMerkleTx.nIndex_setMerkleBranch_iff {env : Env} {node : Node} {mtx : CMerkleTx} {block : CBlock} :
    (mtx.setMerkleBranch env node (some block)).2.nIndex ≠ -1 ↔ mtx.tx ∈ block.vtx := by
  rw [setMerkleBranch, fillMerkleBranch]
  split
  next hnone => exact iff_of_false (fun h => h rfl) (List.idxOf?_eq_none_iff.mp hnone)
  next nIndex hsome =>
    refine iff_of_true (fun h => ?_) ?_
    · change (nIndex : Int) = -1 at h
      omega
    · by_contra hmem
      rw [List.idxOf?_eq_none_iff.mpr hmem] at hsome
      cases hsome

/-- A transaction of the pool with the inputs of `tx` stays exactly if it is `tx`. -/
theorem CTxMemPool.lookup_removeConflicts_iff {getHash : CTransaction → Uint256} {T : Set CTransaction}
    {pool : CTxMemPool} (hT : HashOk getHash T) (hinv : PoolInv getHash T pool) {tx txCopy : CTransaction} {h : Uint256}
    (hcopy : pool.mapTx.lookup h = some txCopy) (hsame : txCopy.prevouts = tx.prevouts) (hvin : tx.prevouts ≠ []) :
    (pool.removeConflicts getHash tx).mapTx.lookup h = some txCopy ↔ txCopy = tx := by
  have hR := removeConflicts_without hT hinv tx
  obtain ⟨o, ho⟩ := List.exists_mem_of_ne_nil _ hvin
  constructor
  · intro hl
    by_contra hne
    have hmem : h ∈ pool.fromSpenders (· ≠ tx) tx.prevouts :=
      ⟨h, ⟨txCopy, hcopy, hne, o, ho, by rw [hsame]; exact ho⟩, .refl⟩
    rw [hR.lookup_of_mem hmem] at hl
    cases hl
  · rintro rfl
    rw [fromSpenders_of_copy hinv hcopy rfl fun hne => hne rfl] at hR
    rw [hR.lookup_of_not_mem (Set.notMem_empty _), hcopy]

/-- Two transactions with the same bytes are equal exactly when their outputs agree in `nRounds`.  It is then that
`SetMerkleBranch` finds one in a block that has the other, and that `removeConflicts` of one leaves the other in the
pool. -/
theorem equals_of_write_iff {a b : TxBuild} (ha : a.tx.InRange) (hb : b.tx.InRange) (hwrite : a.tx.write = b.tx.write) :
    (a.tx.equals b.tx = true ↔ a.rounds = b.rounds) ∧
      (∀ (env : Env) (node : Node) (mtx : CMerkleTx) (block : CBlock), mtx.tx = a.tx → b.tx ∈ block.vtx →
        (∀ tx ∈ block.vtx, tx.write = a.tx.write → tx = b.tx) →
        ((mtx.setMerkleBranch env node (some block)).2.nIndex ≠ -1 ↔ a.rounds = b.rounds)) ∧
      ∀ (getHash : CTransaction → Uint256) (T : Set CTransaction) (pool : CTxMemPool) (h : Uint256),
        HashOk getHash T → PoolInv getHash T pool → pool.mapTx.lookup h = some b.tx → a.vin ≠ [] →
        ((pool.removeConflicts getHash a.tx).mapTx.lookup h = some b.tx ↔ a.rounds = b.rounds) := by
  have hiff : a.tx = b.tx ↔ a.rounds = b.rounds := by
    rw [eq_iff_of_write ha hb hwrite, a.nRounds_tx, b.nRounds_tx]
  refine ⟨CTransaction.equals_iff.trans hiff, ?_, ?_⟩
  · intro env node mtx block hmtx hmem honly
    rw [CMerkleTx.nIndex_setMerkleBranch_iff, hmtx, ← hiff]
    constructor
    · intro ha
      exact honly _ ha rfl
    · intro heq
      rw [heq]
      exact hmem
  · intro getHash T pool h hT hinv hcopy hvin
    obtain ⟨hreceived, -⟩ := splitsOff_write a.tx b.tx [] [] ha hb (by rw [hwrite])
    have hsame : b.tx.prevouts = a.tx.prevouts :=
      congrArg (fun vin : List CTxIn => vin.map CTxIn.prevout) (congrArg CTransaction.vin hreceived).symm
    rw [lookup_removeConflicts_iff hT hinv hcopy hsame fun hnil => hvin (List.map_eq_nil_iff.mp hnil), ← hiff]
    exact eq_comm

def madeTx : TxBuild where
  nTime := 1
  vin := [{ prevout := ⟨7, 0⟩ }]
  vout := [.ofValue 0 5 [0x51]]

def readTx : TxBuild where
  nTime := 1
  vin := [{ prevout := ⟨7, 0⟩ }]
  vout := [.assign .null 5 [0x51]]

theorem equals_of_write_iff_read : readTx.tx.equals readTx.tx = true := by
  have hrange : readTx.tx.InRange := by
    refine ⟨⟨by decide, by decide, ?_, ?_, by decide⟩, by decide, by decide, ?_, ?_⟩
    all_goals
      intro x hx
      obtain rfl := List.mem_singleton.mp hx
    · exact ⟨by decide, by decide, by decide⟩
    · exact ⟨by decide, by decide⟩
    · decide
    · decide
  exact (equals_of_write_iff hrange hrange rfl).1.mpr rfl

/-- The payment and its copy have the same bytes, but they are not equal, and the pool loses the one to the other. -/
theorem made_ne_read : madeTx.tx.write = readTx.tx.write ∧
    readTransaction madeTx.tx.write = some (readTx.tx, []) ∧ madeTx.tx.equals readTx.tx = false ∧
      ((({} : CTxMemPool).addUnchecked 1 madeTx.tx).removeConflicts CTransaction.nTime readTx.tx).mapTx.lookup 1 =
        none := by
  exact ⟨by decide, by decide +kernel, by decide, by decide⟩

end Sphinx
