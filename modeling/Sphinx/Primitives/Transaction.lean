import Sphinx.Script.Script

/-!
# Transactions

The data of `primitives/transaction.h` and the checks of a transaction that need no chain state:
`CTransaction.isCoinBase`, `isCoinStake`, `getValueOut`, `checkTransaction` and the serialized
size.  `CTxOut.nRounds` is a memory-only field: it is not serialized, but `operator==` compares it.
-/

namespace Sphinx

/-- The maximum allowed size for a serialized block, in bytes. -/
def maxBlockSize : Nat := 20000000

/-- The maximum allowed number of signature check operations in a block. -/
def maxBlockSigOps : Nat := maxBlockSize / 50

/-- `(unsigned int) -1`. -/
def uintMax : Nat := 2 ^ 32 - 1

def getSizeOfCompactSize (nSize : Nat) : Nat :=
  if nSize < 253 then 1
  else if nSize ≤ 2 ^ 16 - 1 then 3
  else if nSize ≤ 2 ^ 32 - 1 then 5
  else 9

/-- An outpoint: a transaction hash and an index `n` into its `vout`. -/
structure COutPoint where
  hash : Uint256
  n : Nat
deriving DecidableEq, Repr

namespace COutPoint

/-- `SetNull`. -/
def null : COutPoint := ⟨0, uintMax⟩

def isNull (o : COutPoint) : Bool := o.hash = 0 && o.n = uintMax

/-- Ten of the 64 digits of the hash are printed. -/
def toString (o : COutPoint) : List Char :=
  "COutPoint(".toList ++ (Text.hexDigits 64 o.hash).take 10 ++ ", ".toList ++ Text.decimal o.n ++ ")".toList

end COutPoint

structure CTxIn where
  prevout : COutPoint
  scriptSig : CScript := []
  nSequence : Nat := uintMax
deriving DecidableEq, Repr

namespace CTxIn

def isFinal (txin : CTxIn) : Bool := txin.nSequence = uintMax

def getSerializeSize (txin : CTxIn) : Nat :=
  36 + (getSizeOfCompactSize txin.scriptSig.length + txin.scriptSig.length) + 4

def toString (txin : CTxIn) : List Char :=
  "CTxIn(".toList ++ txin.prevout.toString ++
    (if txin.prevout.isNull then ", coinbase ".toList ++ Text.hexBytes txin.scriptSig
      else ", scriptSig=".toList ++ txin.scriptSig.toString.take 24) ++
    (if txin.nSequence = uintMax then [] else ", nSequence=".toList ++ Text.decimal txin.nSequence) ++
    ")".toList

/-- `operator==`. -/
def equals (a b : CTxIn) : Bool := a.prevout = b.prevout && a.scriptSig = b.scriptSig && a.nSequence = b.nSequence

end CTxIn

structure CTxOut where
  nValue : CAmount
  scriptPubKey : CScript
  nRounds : Int := -10
deriving DecidableEq, Repr

namespace CTxOut

/-- The constructor `CTxOut(nValueIn, scriptPubKeyIn)`: it leaves `nRounds` as it is in the memory. -/
def ofValue (memory : Int) (nValueIn : CAmount) (scriptPubKeyIn : CScript) : CTxOut where
  nValue := nValueIn
  nRounds := memory
  scriptPubKey := scriptPubKeyIn

def setEmpty (txout : CTxOut) : CTxOut := { txout with nValue := 0, scriptPubKey := [] }

/-- `operator==`. -/
def equals (a b : CTxOut) : Bool :=
  a.nValue = b.nValue && a.nRounds = b.nRounds && a.scriptPubKey = b.scriptPubKey

def isEmpty (txout : CTxOut) : Bool := txout.nValue = 0 && txout.scriptPubKey.isEmpty

def getSerializeSize (txout : CTxOut) : Nat :=
  8 + (getSizeOfCompactSize txout.scriptPubKey.length + txout.scriptPubKey.length)

/-- The output with its memory-only field cleared. -/
def serialized (txout : CTxOut) : CTxOut := { txout with nRounds := 0 }

end CTxOut

structure CTransaction where
  nVersion : Int := 1
  nTime : Nat
  vin : List CTxIn
  vout : List CTxOut
  nLockTime : Nat := 0
deriving DecidableEq, Repr

namespace CTransaction

/-- `operator==`. -/
def equals (a b : CTransaction) : Bool :=
  a.nVersion = b.nVersion && a.nTime = b.nTime && a.vin.isEqv b.vin CTxIn.equals &&
    a.vout.isEqv b.vout CTxOut.equals && a.nLockTime = b.nLockTime

/-- The outpoints a transaction names, in the order of its inputs. -/
def prevouts (tx : CTransaction) : List COutPoint := tx.vin.map CTxIn.prevout

def isCoinBase (tx : CTransaction) : Bool :=
  match tx.vin with
  | [txin] => txin.prevout.isNull && 1 ≤ tx.vout.length
  | _ => false

/-- The coinstake transaction is marked with the first output empty. -/
def isCoinStake (tx : CTransaction) : Bool :=
  match tx.vin, tx.vout with
  | txin :: _, txout :: _ :: _ => !txin.prevout.isNull && txout.isEmpty
  | _, _ => false

/-- The part of a transaction that is serialized, and hence hashed. -/
def serialized (tx : CTransaction) : CTransaction :=
  { tx with vout := tx.vout.map CTxOut.serialized }

def getSerializeSize (tx : CTransaction) : Nat :=
  4 + 4 + (getSizeOfCompactSize tx.vin.length + (tx.vin.map CTxIn.getSerializeSize).sum) +
    (getSizeOfCompactSize tx.vout.length + (tx.vout.map CTxOut.getSerializeSize).sum) + 4

/-- One round of `GetValueOut`; the source throws when a value or the total leaves the range. -/
def addValueOut (nValueOut : CAmount) (txout : CTxOut) : Except Reject CAmount := do
  rejectIf (!moneyRange txout.nValue || !moneyRange (nValueOut + txout.nValue)) 0
    "CTransaction::GetValueOut(): value out of range"
  return nValueOut + txout.nValue

def getValueOut (tx : CTransaction) : Except Reject CAmount :=
  tx.vout.foldlM addValueOut 0

/-- One round of the output loop of `CheckTransaction`. -/
def checkTxOut (tx : CTransaction) (nValueOut : CAmount) (txout : CTxOut) :
    Except Reject CAmount := do
  rejectIf (txout.isEmpty && !tx.isCoinBase && !tx.isCoinStake) 100
    "CTransaction::CheckTransaction() : txout empty for user transaction"
  rejectIf (txout.nValue < 0) 100 "CTransaction::CheckTransaction() : txout.nValue negative"
  rejectIf (maxMoney < txout.nValue) 100 "CTransaction::CheckTransaction() : txout.nValue too high"
  rejectIf (!moneyRange (nValueOut + txout.nValue)) 100
    "CTransaction::CheckTransaction() : txout total out of range"
  return nValueOut + txout.nValue

/-- The last part of `CheckTransaction`, for a transaction with inputs. -/
def checkTxIns (tx : CTransaction) : Except Reject Unit :=
  if tx.isCoinBase then
    let nSize := (tx.vin.headD ⟨COutPoint.null, [], 0⟩).scriptSig.length
    rejectIf (nSize < 2 || 100 < nSize) 100
      "CTransaction::CheckTransaction() : coinbase script size is invalid"
  else
    rejectIf (tx.prevouts.any COutPoint.isNull) 10
      "CTransaction::CheckTransaction() : prevout is null"

/-- The checks that do not depend on any context. -/
def checkTransaction (tx : CTransaction) : Except Reject Unit := do
  rejectIf tx.vin.isEmpty 10 "CTransaction::CheckTransaction() : vin empty"
  rejectIf tx.vout.isEmpty 10 "CTransaction::CheckTransaction() : vout empty"
  rejectIf (maxBlockSize < tx.getSerializeSize) 100
    "CTransaction::CheckTransaction() : size limits failed"
  let _ ← tx.vout.foldlM tx.checkTxOut 0
  rejectIf (!decide tx.prevouts.Nodup) 0 ""
  tx.checkTxIns

def getLegacySigOpCount (tx : CTransaction) : Nat :=
  (tx.vin.map fun txin => CScript.getSigOpCount txin.scriptSig false).sum +
    (tx.vout.map fun txout => CScript.getSigOpCount txout.scriptPubKey false).sum

/-- No two transactions of `T` that differ in what is serialized have the same hash. -/
def NoCollision (getHash : CTransaction → Uint256) (T : Set CTransaction) : Prop :=
  ∀ tx ∈ T, ∀ tx' ∈ T, getHash tx = getHash tx' → tx.serialized = tx'.serialized

/-! ### What the checks give -/

theorem addValueOut_ok {acc v : CAmount} {txout : CTxOut} (h : addValueOut acc txout = .ok v) :
    v = acc + txout.nValue ∧ moneyRange txout.nValue = true ∧ moneyRange v = true := by
  simp only [addValueOut, exceptBind_ok, rejectIf_eq_ok, Bool.or_eq_false_iff] at h
  obtain ⟨-, ⟨h1, h2⟩, h⟩ := h
  obtain rfl : acc + txout.nValue = v := Except.ok.inj h
  simp_all

/-- The total of the output values. -/
def valueOut (tx : CTransaction) : CAmount := (tx.vout.map CTxOut.nValue).sum

theorem foldlM_addValueOut {vout : List CTxOut} {acc v : CAmount}
    (h : vout.foldlM addValueOut acc = .ok v) : v = acc + (vout.map CTxOut.nValue).sum := by
  induction vout generalizing acc with
  | nil => simpa using (Except.ok.inj h).symm
  | cons o os ih =>
    simp only [List.foldlM_cons, exceptBind_ok] at h
    obtain ⟨acc', h1, h2⟩ := h
    rw [ih h2, (addValueOut_ok h1).1, List.map_cons, List.sum_cons]
    ring

variable {tx : CTransaction}

theorem getValueOut_eq {v : CAmount} (h : tx.getValueOut = .ok v) :
    v = tx.valueOut := by
  rw [foldlM_addValueOut h, valueOut, zero_add]

theorem isCoinBase_vin (h : tx.isCoinBase = true) :
    ∃ txin, tx.vin = [txin] ∧ txin.prevout.isNull = true := by
  unfold isCoinBase at h
  split at h
  · next txin hvin =>
    simp only [Bool.and_eq_true] at h
    exact ⟨txin, hvin, h.1⟩
  · cases h

section

variable {tx' : CTransaction} (h : tx.serialized = tx'.serialized)

include h

/-- Transactions that agree in what is serialized have the same inputs and as many outputs. -/
theorem serialized_inj :
    tx.vin = tx'.vin ∧ tx.vout.length = tx'.vout.length := by
  have hvin := congrArg vin h
  have hvout := congrArg (fun t => t.vout.length) h
  simp only [serialized, List.length_map] at hvin hvout
  exact ⟨hvin, hvout⟩

/-- Transactions that agree in what is serialized can differ only in the rounds of their outputs. -/
theorem eq_iff_nRounds :
    tx = tx' ↔ tx.vout.map CTxOut.nRounds = tx'.vout.map CTxOut.nRounds := by
  refine ⟨fun heq => heq ▸ rfl, fun hrounds => ?_⟩
  have hinj : Function.Injective fun o : CTxOut => (o.serialized, o.nRounds) := by
    rintro ⟨nValue, scriptPubKey, nRounds⟩ ⟨nValue', scriptPubKey', nRounds'⟩ heq
    simpa [CTxOut.serialized, and_assoc] using heq
  cases tx
  cases tx'
  simp only [serialized, CTransaction.mk.injEq] at h ⊢
  obtain ⟨hversion, htime, hvin, hvout, hlock⟩ := h
  refine ⟨hversion, htime, hvin, List.map_injective_iff.mpr hinj ?_, hlock⟩
  rw [← List.zip_map', ← List.zip_map', hvout, hrounds]

theorem isCoinBase_congr :
    tx.isCoinBase = tx'.isCoinBase := by
  obtain ⟨hvin, hvout⟩ := serialized_inj h
  simp only [isCoinBase, hvin, hvout]

end

/-- A transaction that passes `CheckTransaction` has inputs, names no outpoint twice and, unless it
is a coinbase, names no null outpoint. -/
theorem checkTransaction_ok (h : tx.checkTransaction = .ok ()) :
    tx.vin ≠ [] ∧ tx.vout ≠ [] ∧ tx.prevouts.Nodup ∧
      (tx.isCoinBase = false → ∀ o ∈ tx.prevouts, o.isNull = false) := by
  simp only [checkTransaction, exceptBind_ok, rejectIf_eq_ok] at h
  obtain ⟨-, h1, -, h2, -, -, _, -, -, h3, h4⟩ := h
  refine ⟨by simpa using h1, by simpa using h2, by simpa using h3, ?_⟩
  intro hcb
  rw [checkTxIns, hcb] at h4
  simpa using h4

end CTransaction

end Sphinx
