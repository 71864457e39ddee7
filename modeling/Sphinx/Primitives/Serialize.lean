import Sphinx.Primitives.Transaction
import Sphinx.Util.Codec

/-!
# Serialization

The stream operators of `serialize.h` for the types of a transaction: `<<` is a function to bytes, `>>` is
a reader.  Every value that is read back is the value that was written, `nRounds` apart, if it is in the
range of its type and no size is above `MAX_SIZE`.

The bytes of a transaction determine it.  A reader stops at `MAX_SIZE`; `splitsOff_write` needs only that a size fits
into the eight bytes it is written to.
-/

namespace Sphinx

open Codec

variable {tx : CTransaction}

def maxSize : Nat := 0x02000000

def writeCompactSize (nSize : Nat) : List UInt8 :=
  if nSize < 253 then toLE 1 nSize
  else if nSize ≤ 2 ^ 16 - 1 then toLE 1 253 ++ toLE 2 nSize
  else if nSize ≤ 2 ^ 32 - 1 then toLE 1 254 ++ toLE 4 nSize
  else toLE 1 255 ++ toLE 8 nSize

/-- "non-canonical ReadCompactSize()" for a size below `least`. -/
def readWideSize (nBytes least : Nat) : Reader Nat := do
  let xSize ← readLE nBytes
  if xSize < least then failure else pure xSize

def readAnySize : Reader Nat := do
  let chSize ← readLE 1
  if chSize < 253 then pure chSize
  else if chSize = 253 then readWideSize 2 253
  else if chSize = 254 then readWideSize 4 0x10000
  else readWideSize 8 0x100000000

def readCompactSize : Reader Nat := do
  let nSizeRet ← readAnySize
  -- ReadCompactSize() : size too large
  if maxSize < nSizeRet then failure else pure nSizeRet

/-- A `std::string`, a `CScript` or another vector of bytes. -/
def writeBytes (v : List UInt8) : List UInt8 := writeCompactSize v.length ++ v

def readString : Reader (List UInt8) := do
  let nSize ← readCompactSize
  readBytes nSize

def writeVector {α : Type} (write : α → List UInt8) (v : List α) : List UInt8 :=
  writeCompactSize v.length ++ v.flatMap write

def readVector {α : Type} (r : Reader α) : Reader (List α) := do
  let nSize ← readCompactSize
  readMany r nSize

def writeBool (a : Bool) : List UInt8 := toLE 1 (if a then 1 else 0)

def readBool : Reader Bool := (fun f : Nat => decide (f ≠ 0)) <$> readLE 1

/-! ### Variable-length integers

`WriteVarInt` and `ReadVarInt` for `uint64_t`.  The digits are written to the end of the buffer `tmp` first, so the list
has the last one in front. -/

/-- `(sizeof(n)*8+6)/7`, the size of `tmp`. -/
def varIntRoom : Nat := (8 * 8 + 6) / 7

/-- What is left of `n` after a digit. -/
def nextVarInt (n : UInt64) : UInt64 := (n >>> 7) - 1

/-- The loop of `GetSizeOfVarInt`. -/
def sizeOfVarIntLoop : Nat → UInt64 → Nat → Option Nat
  | 0, _, _ => none
  | fuel + 1, n, nRet => if n ≤ 0x7F then some (nRet + 1) else sizeOfVarIntLoop fuel (nextVarInt n) (nRet + 1)

/-- `GetSizeOfVarInt`; the loop ends before `n` rounds are over. -/
def getSizeOfVarInt (n : UInt64) : Option Nat := sizeOfVarIntLoop (n.toNat + 1) n 0

/-- The first loop of `WriteVarInt`; an access behind the end of `tmp` has no result. -/
def writeVarIntLoop : Nat → UInt64 → List UInt8 → Option (List UInt8)
  | 0, _, _ => none
  | room + 1, n, tmp =>
    let chData := (n &&& 0x7F).toUInt8 ||| (if tmp.isEmpty then 0x00 else 0x80)
    if n ≤ 0x7F then some (chData :: tmp) else writeVarIntLoop room (nextVarInt n) (chData :: tmp)

def writeVarInt (n : UInt64) : Option (List UInt8) := writeVarIntLoop varIntRoom n []

/-- `ReadVarInt`. -/
def readVarIntLoop : UInt64 → Reader UInt64
  | _, [] => none
  | n, chData :: is =>
    let n := (n <<< 7) ||| (chData &&& 0x7F).toUInt64
    if chData &&& 0x80 ≠ 0 then readVarIntLoop (n + 1) is else some (n, is)

def readVarInt : Reader UInt64 := readVarIntLoop 0

/-! ### Transactions -/

def COutPoint.write (o : COutPoint) : List UInt8 := toLE 32 o.hash ++ toLE 4 o.n

def readOutPoint : Reader COutPoint := do
  let hash ← readLE 32
  let n ← readLE 4
  pure ⟨hash, n⟩

def CTxIn.write (txin : CTxIn) : List UInt8 :=
  txin.prevout.write ++ (writeBytes txin.scriptSig ++ toLE 4 txin.nSequence)

def readTxIn : Reader CTxIn := do
  let prevout ← readOutPoint
  let scriptSig ← readString
  let nSequence ← readLE 4
  pure ⟨prevout, scriptSig, nSequence⟩

def CTxOut.write (txout : CTxOut) : List UInt8 :=
  writeInt 8 txout.nValue ++ writeBytes txout.scriptPubKey

def readTxOut : Reader CTxOut := do
  let nValue ← readInt 8
  let scriptPubKey ← readString
  pure { nValue := nValue, scriptPubKey := scriptPubKey }

def CTransaction.write (tx : CTransaction) : List UInt8 :=
  writeInt 4 tx.nVersion ++ (toLE 4 tx.nTime ++
    (writeVector CTxIn.write tx.vin ++ (writeVector CTxOut.write tx.vout ++ toLE 4 tx.nLockTime)))

def readTransaction : Reader CTransaction := do
  let nVersion ← readInt 4
  let nTime ← readLE 4
  let vin ← readVector readTxIn
  let vout ← readVector readTxOut
  let nLockTime ← readLE 4
  pure ⟨nVersion, nTime, vin, vout, nLockTime⟩

/-- An output as it is read: `nRounds` is what the constructor sets. -/
def CTxOut.received (txout : CTxOut) : CTxOut :=
  { nValue := txout.nValue, scriptPubKey := txout.scriptPubKey }

def CTransaction.received (tx : CTransaction) : CTransaction :=
  { tx with vout := tx.vout.map CTxOut.received }

theorem serialized_receivedTransaction (tx : CTransaction) : tx.received.serialized = tx.serialized := by
  simp [CTransaction.received, CTransaction.serialized, CTxOut.received, CTxOut.serialized]

/-! ### The ranges of the types -/

def CTxIn.Fits (txin : CTxIn) : Prop :=
  txin.prevout.hash < 256 ^ 32 ∧ txin.prevout.n < 256 ^ 4 ∧ txin.nSequence < 256 ^ 4

def CTxOut.Fits (txout : CTxOut) : Prop := FitsInt 8 txout.nValue

structure CTransaction.Fits (tx : CTransaction) : Prop where
  nVersion : FitsInt 4 tx.nVersion
  nTime : tx.nTime < 256 ^ 4
  vin : ∀ txin ∈ tx.vin, txin.Fits
  vout : ∀ txout ∈ tx.vout, txout.Fits
  nLockTime : tx.nLockTime < 256 ^ 4

/-! ### Reading back -/

theorem reads_readWideSize {nBytes least n : Nat} (hleast : least ≤ n) (h : n < 256 ^ nBytes) :
    Reads (readWideSize nBytes least) (toLE nBytes n) n := by
  refine reads_bind_nil (reads_readLE h) ?_
  rw [if_neg (not_lt.mpr hleast)]
  exact reads_pure n

theorem reads_readAnySize {n : Nat} (h : n < 256 ^ 8) :
    Reads readAnySize (writeCompactSize n) n := by
  unfold writeCompactSize
  have hmark (m : Nat) (hm : m < 256) : Reads (readLE 1) (toLE 1 m) m := reads_readLE hm
  split_ifs with h1 h2 h3
  · refine reads_bind_nil (hmark n (by omega)) ?_
    rw [if_pos h1]
    exact reads_pure n
  · exact reads_bind (hmark 253 (by decide)) (reads_readWideSize (by omega) (by omega))
  · exact reads_bind (hmark 254 (by decide)) (reads_readWideSize (by omega) (by omega))
  · exact reads_bind (hmark 255 (by decide)) (reads_readWideSize (by omega) h)

theorem reads_readCompactSize {n : Nat} (h : n ≤ maxSize) :
    Reads readCompactSize (writeCompactSize n) n := by
  have hn : n < 256 ^ 8 := h.trans_lt (by decide)
  refine reads_bind_nil (reads_readAnySize hn) ?_
  rw [if_neg (not_lt.mpr h)]
  exact reads_pure n

theorem fails_readCompactSize {n : Nat} (h : maxSize < n) (hn : n < 256 ^ 8) :
    Fails readCompactSize (writeCompactSize n) := by
  refine fails_bind_nil (reads_readAnySize hn) ?_
  rw [if_pos h]
  exact fails_failure

theorem reads_readString {v : List UInt8} (h : v.length ≤ maxSize) :
    Reads readString (writeBytes v) v :=
  reads_bind (reads_readCompactSize h) (reads_readBytes rfl)

theorem fails_readString {v : List UInt8} (h : maxSize < v.length) (hv : v.length < 256 ^ 8) :
    Fails readString (writeBytes v) :=
  fails_bind_left (fails_readCompactSize h hv) v

theorem reads_readVector {α β : Type} {r : Reader β} {write : α → List UInt8} {f : α → β}
    {v : List α} (h : v.length ≤ maxSize) (hr : ∀ a ∈ v, Reads r (write a) (f a)) :
    Reads (readVector r) (writeVector write v) (v.map f) :=
  reads_bind (reads_readCompactSize h) (reads_readMany v hr)

theorem reads_readBool (a : Bool) : Reads readBool (writeBool a) a := by
  cases a
  · exact reads_map (reads_readLE (show 0 < 256 ^ 1 by decide)) fun f : Nat => decide (f ≠ 0)
  · exact reads_map (reads_readLE (show 1 < 256 ^ 1 by decide)) fun f : Nat => decide (f ≠ 0)

theorem reads_readOutPoint {o : COutPoint} (hhash : o.hash < 256 ^ 32) (hn : o.n < 256 ^ 4) :
    Reads readOutPoint o.write o :=
  reads_bind (reads_readLE hhash) (reads_bind_nil (reads_readLE hn) (reads_pure o))

theorem length_le_writeBytes (v : List UInt8) : v.length ≤ (writeBytes v).length := by
  rw [writeBytes, List.length_append]
  omega

theorem reads_readTxIn {txin : CTxIn} (h : txin.Fits) (hsize : txin.scriptSig.length ≤ maxSize) :
    Reads readTxIn txin.write txin := by
  refine reads_bind (reads_readOutPoint h.1 h.2.1) ?_
  refine reads_bind (reads_readString hsize) ?_
  exact reads_bind_nil (reads_readLE h.2.2) (reads_pure txin)

theorem reads_readTxOut {txout : CTxOut} (h : txout.Fits) (hsize : txout.scriptPubKey.length ≤ maxSize) :
    Reads readTxOut txout.write txout.received := by
  refine reads_bind (reads_readInt h) ?_
  exact reads_bind_nil (reads_readString hsize) (reads_pure txout.received)

theorem one_le_length_writeTxIn (txin : CTxIn) : 1 ≤ txin.write.length := by
  simp only [CTxIn.write, List.length_append, length_toLE]
  omega

theorem one_le_length_writeTxOut (txout : CTxOut) : 1 ≤ txout.write.length := by
  simp only [CTxOut.write, List.length_append, length_writeInt]
  omega

theorem length_scriptSig_le (txin : CTxIn) : txin.scriptSig.length ≤ txin.write.length := by
  have hlen := length_le_writeBytes txin.scriptSig
  simp only [CTxIn.write, List.length_append]
  omega

theorem length_scriptPubKey_le (txout : CTxOut) : txout.scriptPubKey.length ≤ txout.write.length := by
  have hlen := length_le_writeBytes txout.scriptPubKey
  simp only [CTxOut.write, List.length_append]
  omega

/-- Neither the vector nor a script in it is longer than `MAX_SIZE`. -/
def BoundedVector {α : Type} (script : α → CScript) (v : List α) : Prop :=
  v.length ≤ maxSize ∧ ∀ a ∈ v, (script a).length ≤ maxSize

theorem boundedVector_of_length {α : Type} {script : α → CScript} {write : α → List UInt8} {v : List α}
    (hpos : ∀ a, 1 ≤ (write a).length) (hscript : ∀ a, (script a).length ≤ (write a).length)
    (hsize : (writeVector write v).length ≤ maxSize) : BoundedVector script v := by
  have hcount := length_le_length_flatMap_of_pos hpos v
  rw [writeVector, List.length_append] at hsize
  refine ⟨by omega, fun a ha => ?_⟩
  have hone := length_le_length_flatMap write ha
  have hlen := hscript a
  omega

theorem reads_boundedTxIn {v : List CTxIn} (h : ∀ txin ∈ v, txin.Fits) (hb : BoundedVector CTxIn.scriptSig v) :
    Reads (readVector readTxIn) (writeVector CTxIn.write v) v := by
  have hread := @reads_readVector _ _ _ _ id v hb.1 fun txin hmem => reads_readTxIn (h txin hmem) (hb.2 txin hmem)
  rwa [List.map_id] at hread

theorem reads_boundedTxOut {v : List CTxOut} (h : ∀ txout ∈ v, txout.Fits)
    (hb : BoundedVector CTxOut.scriptPubKey v) :
    Reads (readVector readTxOut) (writeVector CTxOut.write v) (v.map CTxOut.received) :=
  reads_readVector hb.1 fun txout hmem => reads_readTxOut (h txout hmem) (hb.2 txout hmem)

theorem reads_vectorTxIn {v : List CTxIn} (h : ∀ txin ∈ v, txin.Fits)
    (hsize : (writeVector CTxIn.write v).length ≤ maxSize) :
    Reads (readVector readTxIn) (writeVector CTxIn.write v) v :=
  reads_boundedTxIn h (boundedVector_of_length one_le_length_writeTxIn length_scriptSig_le hsize)

theorem reads_vectorTxOut {v : List CTxOut} (h : ∀ txout ∈ v, txout.Fits)
    (hsize : (writeVector CTxOut.write v).length ≤ maxSize) :
    Reads (readVector readTxOut) (writeVector CTxOut.write v) (v.map CTxOut.received) :=
  reads_boundedTxOut h (boundedVector_of_length one_le_length_writeTxOut length_scriptPubKey_le hsize)

/-- No vector of the transaction is longer than `MAX_SIZE`. -/
structure CTransaction.Bounded (tx : CTransaction) : Prop where
  vin : BoundedVector CTxIn.scriptSig tx.vin
  vout : BoundedVector CTxOut.scriptPubKey tx.vout

theorem CTransaction.bounded_of_length (hsize : tx.write.length ≤ maxSize) : tx.Bounded := by
  simp only [CTransaction.write, List.length_append] at hsize
  exact ⟨boundedVector_of_length one_le_length_writeTxIn length_scriptSig_le (by omega),
    boundedVector_of_length one_le_length_writeTxOut length_scriptPubKey_le (by omega)⟩

/-- **A transaction is read back**, with `nRounds` as the constructor sets it. -/
theorem reads_readTransaction_of_bounded (h : tx.Fits) (hb : tx.Bounded) :
    Reads readTransaction tx.write tx.received := by
  refine reads_bind (reads_readInt h.nVersion) ?_
  refine reads_bind (reads_readLE h.nTime) ?_
  refine reads_bind (reads_boundedTxIn h.vin hb.vin) ?_
  refine reads_bind (reads_boundedTxOut h.vout hb.vout) ?_
  exact reads_bind_nil (reads_readLE h.nLockTime) (reads_pure tx.received)

theorem reads_readTransaction (h : tx.Fits) (hsize : tx.write.length ≤ maxSize) :
    Reads readTransaction tx.write tx.received :=
  reads_readTransaction_of_bounded h (CTransaction.bounded_of_length hsize)

/-! ### The bytes determine the value -/

theorem splitsOff_writeCompactSize : SplitsOff (· < 256 ^ 8) writeCompactSize id :=
  splitsOff_of_reads fun _ h => reads_readAnySize h

theorem splitsOff_writeBytes : SplitsOff (fun v : List UInt8 => v.length < 256 ^ 8) writeBytes id := by
  intro v v' s t hv hv' heq
  rw [writeBytes, writeBytes, List.append_assoc, List.append_assoc] at heq
  obtain ⟨hlen, hrest⟩ := splitsOff_writeCompactSize _ _ _ _ hv hv' heq
  exact List.append_inj hrest hlen

theorem splitsOff_writeVector {α β : Type} {P : α → Prop} {write : α → List UInt8} {f : α → β}
    (h : SplitsOff P write f) :
    SplitsOff (fun v : List α => v.length < 256 ^ 8 ∧ ∀ a ∈ v, P a) (writeVector write) (List.map f) := by
  intro v v' s t hv hv' heq
  rw [writeVector, writeVector, List.append_assoc, List.append_assoc] at heq
  obtain ⟨hlen, hrest⟩ := splitsOff_writeCompactSize _ _ _ _ hv.1 hv'.1 heq
  exact splitsOff_flatMap h hlen hv.2 hv'.2 hrest

theorem splitsOff_toLE (n : Nat) : SplitsOff (· < 256 ^ n) (toLE n) id :=
  splitsOff_of_reads fun _ h => reads_readLE h

theorem splitsOff_writeInt (n : Nat) : SplitsOff (FitsInt n) (writeInt n) id :=
  splitsOff_of_reads fun _ h => reads_readInt h

theorem splitsOff_writeTxIn :
    SplitsOff (fun txin : CTxIn => txin.Fits ∧ txin.scriptSig.length < 256 ^ 8) CTxIn.write id := by
  rintro ⟨⟨hash, n⟩, scriptSig, nSequence⟩ ⟨⟨hash', n'⟩, scriptSig', nSequence'⟩ s t
    ⟨⟨hhash, hn, hseq⟩, hlen⟩ ⟨⟨hhash', hn', hseq'⟩, hlen'⟩ heq
  simp only [CTxIn.write, COutPoint.write, List.append_assoc] at heq
  obtain ⟨h1, heq⟩ := splitsOff_toLE 32 _ _ _ _ hhash hhash' heq
  obtain ⟨h2, heq⟩ := splitsOff_toLE 4 _ _ _ _ hn hn' heq
  obtain ⟨h3, heq⟩ := splitsOff_writeBytes _ _ _ _ hlen hlen' heq
  obtain ⟨h4, heq⟩ := splitsOff_toLE 4 _ _ _ _ hseq hseq' heq
  refine ⟨?_, heq⟩
  simp only [id_eq] at h1 h2 h3 h4 ⊢
  rw [h1, h2, h3, h4]

theorem splitsOff_writeTxOut :
    SplitsOff (fun txout : CTxOut => txout.Fits ∧ txout.scriptPubKey.length < 256 ^ 8)
      CTxOut.write CTxOut.received := by
  intro txout txout' s t h h' heq
  rw [CTxOut.write, CTxOut.write, List.append_assoc, List.append_assoc] at heq
  obtain ⟨hvalue, heq⟩ := splitsOff_writeInt 8 _ _ _ _ h.1 h'.1 heq
  obtain ⟨hscript, heq⟩ := splitsOff_writeBytes _ _ _ _ h.2 h'.2 heq
  rw [CTxOut.received, CTxOut.received, show txout.nValue = txout'.nValue from hvalue,
    show txout.scriptPubKey = txout'.scriptPubKey from hscript]
  exact ⟨rfl, heq⟩

/-- The values are in the ranges of their types, and the sizes in that of `size_t`. -/
structure CTransaction.InRange (tx : CTransaction) : Prop where
  fits : tx.Fits
  length_vin : tx.vin.length < 256 ^ 8
  length_vout : tx.vout.length < 256 ^ 8
  scriptSig : ∀ txin ∈ tx.vin, txin.scriptSig.length < 256 ^ 8
  scriptPubKey : ∀ txout ∈ tx.vout, txout.scriptPubKey.length < 256 ^ 8

theorem splitsOff_write : SplitsOff CTransaction.InRange CTransaction.write CTransaction.received := by
  intro tx tx' s t h h' heq
  simp only [CTransaction.write, List.append_assoc] at heq
  obtain ⟨hversion, heq⟩ := splitsOff_writeInt 4 _ _ _ _ h.fits.nVersion h'.fits.nVersion heq
  obtain ⟨htime, heq⟩ := splitsOff_toLE 4 _ _ _ _ h.fits.nTime h'.fits.nTime heq
  obtain ⟨hvin, heq⟩ := splitsOff_writeVector splitsOff_writeTxIn _ _ _ _
    ⟨h.length_vin, fun txin hmem => ⟨h.fits.vin txin hmem, h.scriptSig txin hmem⟩⟩
    ⟨h'.length_vin, fun txin hmem => ⟨h'.fits.vin txin hmem, h'.scriptSig txin hmem⟩⟩ heq
  obtain ⟨hvout, heq⟩ := splitsOff_writeVector splitsOff_writeTxOut _ _ _ _
    ⟨h.length_vout, fun txout hmem => ⟨h.fits.vout txout hmem, h.scriptPubKey txout hmem⟩⟩
    ⟨h'.length_vout, fun txout hmem => ⟨h'.fits.vout txout hmem, h'.scriptPubKey txout hmem⟩⟩ heq
  obtain ⟨hlock, heq⟩ := splitsOff_toLE 4 _ _ _ _ h.fits.nLockTime h'.fits.nLockTime heq
  rw [List.map_id, List.map_id] at hvin
  refine ⟨?_, heq⟩
  cases tx
  cases tx'
  simp only [CTransaction.received, CTransaction.mk.injEq]
  exact ⟨hversion, htime, hvin, hvout, hlock⟩

end Sphinx
