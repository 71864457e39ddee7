import Sphinx.Primitives.WireFormat

/-!
# One encoding for every object

* The loops of `Unserialize` read what one loop over all the elements reads.
* `canonical_transaction`, `canonical_block`: the bytes that are accepted are the bytes that `Serialize` writes.
* `wireFormat_bijective`: this, the way back, and the size that `GetSerializeSize` gives.
-/

namespace Sphinx

open Codec

variable {α : Type}
variable {write : α → List UInt8}

/-! ### The loops of `Unserialize` -/

theorem readBytesLoop_eq (nSize : Nat) : ∀ (fuel i : Nat) (v : List UInt8), nSize ≤ i + fuel →
    readBytesLoop nSize fuel i v = (v ++ ·) <$> readBytes (nSize - i) := by
  intro fuel
  induction fuel with
  | zero =>
    intro i v hfuel
    rw [show nSize - i = 0 by omega, readBytesLoop, readBytes_zero, map_pure, List.append_nil]
  | succ fuel ih =>
    intro i v hfuel
    rw [readBytesLoop]
    by_cases hi : i < nSize
    · have hsplit : nSize - i = min (nSize - i) (1 + 4999999 / 1) +
          (nSize - (i + min (nSize - i) (1 + 4999999 / 1))) := by omega
      rw [if_pos hi]
      conv_rhs => rw [hsplit, readBytes_add, map_bind]
      refine congrArg (readBytes _ >>= ·) (funext fun bytes => ?_)
      rw [ih _ _ (by omega), Functor.map_map]
      simp only [List.append_assoc]
    · rw [if_neg hi, Nat.sub_eq_zero_of_le (by omega), readBytes_zero, map_pure, List.append_nil]

theorem unserializeBytes_eq : unserializeBytes = readString := by
  refine congrArg (readCompactSize >>= ·) (funext fun nSize => ?_)
  rw [readBytesLoop_eq nSize nSize 0 [] (by omega), Nat.sub_zero]
  exact id_map _

theorem readElementsLoop_eq (r : Reader α) (sizeofT : ObjectSize) (nSize : Nat) :
    ∀ (fuel nMid : Nat) (v : List α), nSize ≤ nMid + fuel →
      readElementsLoop r sizeofT nSize fuel nMid nMid v = (v ++ ·) <$> readMany r (nSize - nMid) := by
  have hpos : 0 < 5000000 / sizeofT.val := Nat.div_pos sizeofT.2.2 sizeofT.2.1
  intro fuel
  induction fuel with
  | zero =>
    intro nMid v hfuel
    rw [show nSize - nMid = 0 by omega, readElementsLoop, readMany, map_pure, List.append_nil]
  | succ fuel ih =>
    intro nMid v hfuel
    rw [readElementsLoop]
    by_cases hn : nMid < nSize
    · have hsplit : nSize - nMid = (min (nMid + 5000000 / sizeofT.val) nSize - nMid) +
          (nSize - min (nMid + 5000000 / sizeofT.val) nSize) := by omega
      rw [if_pos hn]
      conv_rhs => rw [hsplit, readMany_add, map_bind]
      refine congrArg (readMany r _ >>= ·) (funext fun as => ?_)
      rw [ih _ _ (by omega), Functor.map_map]
      simp only [List.append_assoc]
    · rw [if_neg hn, Nat.sub_eq_zero_of_le (by omega), readMany, map_pure, List.append_nil]

theorem unserializeVector_eq (r : Reader α) (sizeofT : ObjectSize) : unserializeVector r sizeofT = readVector r := by
  refine congrArg (readCompactSize >>= ·) (funext fun nSize => ?_)
  rw [readElementsLoop_eq r sizeofT nSize nSize 0 [] (by omega), Nat.sub_zero]
  exact id_map _

theorem unserializeTxIn_eq : unserializeTxIn = readTxIn := by
  rw [unserializeTxIn, unserializeBytes_eq, readTxIn]

theorem unserializeTxOut_eq : unserializeTxOut = readTxOut := by
  rw [unserializeTxOut, unserializeBytes_eq, readTxOut]

theorem unserializeTransaction_eq (sizes : ObjectSizes) : unserializeTransaction sizes = readTransaction := by
  simp only [unserializeTransaction, unserializeTxIn_eq, unserializeTxOut_eq, unserializeVector_eq, readTransaction]

/-! ### The encodings that are accepted -/

theorem canonical_readWideSize {nBytes least : Nat} {s rest : List UInt8} {n : Nat}
    (h : readWideSize nBytes least s = some (n, rest)) :
    s = toLE nBytes n ++ rest ∧ least ≤ n ∧ n < 256 ^ nBytes := by
  obtain ⟨xSize, s', hx, hif⟩ := bind_eq_some.mp h
  split_ifs at hif with hleast
  · cases hif
  · obtain ⟨rfl, rfl⟩ := pure_eq_some.mp hif
    exact ⟨canonical_readLE nBytes s xSize s' hx, not_lt.mp hleast, readLE_lt hx⟩

theorem canonical_readAnySize : Canonical readAnySize writeCompactSize := by
  intro s n rest h
  obtain ⟨chSize, s', hch, hif⟩ := bind_eq_some.mp h
  have hlt := readLE_lt hch
  rw [canonical_readLE 1 s chSize s' hch]
  unfold writeCompactSize
  split_ifs at hif with h1 h2 h3
  · obtain ⟨rfl, rfl⟩ := pure_eq_some.mp hif
    rw [if_pos h1]
  · obtain ⟨rfl, hleast, hn⟩ := canonical_readWideSize hif
    rw [if_neg (by omega), if_pos (by omega), h2, List.append_assoc]
  · obtain ⟨rfl, hleast, hn⟩ := canonical_readWideSize hif
    rw [if_neg (by omega), if_neg (by omega), if_pos (by omega), h3, List.append_assoc]
  · obtain ⟨rfl, hleast, hn⟩ := canonical_readWideSize hif
    obtain rfl : chSize = 255 := by omega
    rw [if_neg (by omega), if_neg (by omega), if_neg (by omega), List.append_assoc]

theorem canonical_readCompactSize : Canonical readCompactSize writeCompactSize := by
  intro s n rest h
  obtain ⟨nSizeRet, s', hn, hif⟩ := bind_eq_some.mp h
  split_ifs at hif with hmax
  · cases hif
  · obtain ⟨rfl, rfl⟩ := pure_eq_some.mp hif
    exact canonical_readAnySize s nSizeRet s' hn

theorem canonical_readString : Canonical readString writeBytes := by
  intro s v rest h
  obtain ⟨nSize, s', hn, hbytes⟩ := bind_eq_some.mp h
  obtain ⟨rfl, rfl⟩ := readBytes_eq_some.mp hbytes
  rw [canonical_readCompactSize _ _ _ hn, writeBytes, List.append_assoc]

theorem canonical_readVector {r : Reader α} (hr : Canonical r write) :
    Canonical (readVector r) (writeVector write) := by
  intro s v rest h
  obtain ⟨nSize, s', hn, hmany⟩ := bind_eq_some.mp h
  obtain ⟨rfl, rfl⟩ := readMany_eq_some hr hmany
  rw [canonical_readCompactSize _ _ _ hn, writeVector, List.append_assoc]

theorem canonical_readOutPoint : Canonical readOutPoint COutPoint.write := by
  intro s o rest h
  obtain ⟨hash, s₁, hhash, h⟩ := bind_eq_some.mp h
  obtain ⟨n, s₂, hn, h⟩ := bind_eq_some.mp h
  obtain ⟨rfl, rfl⟩ := pure_eq_some.mp h
  rw [canonical_readLE _ _ _ _ hhash, canonical_readLE _ _ _ _ hn, COutPoint.write, List.append_assoc]

theorem canonical_readTxIn : Canonical readTxIn CTxIn.write := by
  intro s txin rest h
  obtain ⟨prevout, s₁, hprevout, h⟩ := bind_eq_some.mp h
  obtain ⟨scriptSig, s₂, hscript, h⟩ := bind_eq_some.mp h
  obtain ⟨nSequence, s₃, hsequence, h⟩ := bind_eq_some.mp h
  obtain ⟨rfl, rfl⟩ := pure_eq_some.mp h
  rw [canonical_readOutPoint _ _ _ hprevout, canonical_readString _ _ _ hscript, canonical_readLE _ _ _ _ hsequence]
  simp only [CTxIn.write, List.append_assoc]

theorem canonical_readTxOut : Canonical readTxOut CTxOut.write := by
  intro s txout rest h
  obtain ⟨nValue, s₁, hvalue, h⟩ := bind_eq_some.mp h
  obtain ⟨scriptPubKey, s₂, hscript, h⟩ := bind_eq_some.mp h
  obtain ⟨rfl, rfl⟩ := pure_eq_some.mp h
  rw [canonical_readInt _ _ _ _ hvalue, canonical_readString _ _ _ hscript]
  simp only [CTxOut.write, List.append_assoc]

theorem canonical_transaction : Canonical readTransaction CTransaction.write := by
  intro s tx rest h
  obtain ⟨nVersion, s₁, hversion, h⟩ := bind_eq_some.mp h
  obtain ⟨nTime, s₂, htime, h⟩ := bind_eq_some.mp h
  obtain ⟨vin, s₃, hvin, h⟩ := bind_eq_some.mp h
  obtain ⟨vout, s₄, hvout, h⟩ := bind_eq_some.mp h
  obtain ⟨nLockTime, s₅, hlock, h⟩ := bind_eq_some.mp h
  obtain ⟨rfl, rfl⟩ := pure_eq_some.mp h
  rw [canonical_readInt _ _ _ _ hversion, canonical_readLE _ _ _ _ htime,
    canonical_readVector canonical_readTxIn _ _ _ hvin, canonical_readVector canonical_readTxOut _ _ _ hvout,
    canonical_readLE _ _ _ _ hlock]
  simp only [CTransaction.write, List.append_assoc]

theorem canonical_block (sizes : ObjectSizes) (nType : Nat) :
    Canonical (unserializeBlock sizes nType) (CBlock.write nType) := by
  intro s block rest h
  obtain ⟨nVersion, s₁, hversion, h⟩ := bind_eq_some.mp h
  obtain ⟨hashPrevBlock, s₂, hprev, h⟩ := bind_eq_some.mp h
  obtain ⟨hashMerkleRoot, s₃, hmerkle, h⟩ := bind_eq_some.mp h
  obtain ⟨nTime, s₄, htime, h⟩ := bind_eq_some.mp h
  obtain ⟨nBits, s₅, hbits, h⟩ := bind_eq_some.mp h
  obtain ⟨nNonce, s₆, hnonce, h⟩ := bind_eq_some.mp h
  rw [canonical_readInt _ _ _ _ hversion, canonical_readLE _ _ _ _ hprev, canonical_readLE _ _ _ _ hmerkle,
    canonical_readLE _ _ _ _ htime, canonical_readLE _ _ _ _ hbits, canonical_readLE _ _ _ _ hnonce]
  split_ifs at h with htype
  · rw [unserializeVector_eq, unserializeTransaction_eq, unserializeBytes_eq] at h
    obtain ⟨vtx, s₇, hvtx, h⟩ := bind_eq_some.mp h
    obtain ⟨vchBlockSig, s₈, hsig, h⟩ := bind_eq_some.mp h
    obtain ⟨rfl, rfl⟩ := pure_eq_some.mp h
    rw [canonical_readVector canonical_transaction _ _ _ hvtx, canonical_readString _ _ _ hsig]
    simp only [CBlock.write, if_pos htype, List.append_assoc]
  · obtain ⟨rfl, rfl⟩ := pure_eq_some.mp h
    simp only [CBlock.write, if_neg htype, List.append_assoc, List.nil_append]

/-! ### What is read from the front -/

theorem local_readWideSize (nBytes least : Nat) : Local (readWideSize nBytes least) :=
  local_bind (local_readLE nBytes) fun _ => local_ite local_failure (local_pure _)

theorem local_readCompactSize : Local readCompactSize := by
  refine local_bind (local_bind (local_readLE 1) fun _ => ?_) fun _ => local_ite local_failure (local_pure _)
  refine local_ite (local_pure _) (local_ite (local_readWideSize 2 253) ?_)
  exact local_ite (local_readWideSize 4 _) (local_readWideSize 8 _)

theorem local_readString : Local readString := local_bind local_readCompactSize local_readBytes

theorem local_readVector {r : Reader α} (h : Local r) : Local (readVector r) :=
  local_bind local_readCompactSize (local_readMany h)

theorem local_readTxIn : Local readTxIn := by
  refine local_bind (local_bind (local_readLE 32) fun _ => local_bind (local_readLE 4) fun _ => local_pure _)
    fun _ => ?_
  exact local_bind local_readString fun _ => local_bind (local_readLE 4) fun _ => local_pure _

theorem local_readTxOut : Local readTxOut :=
  local_bind (local_readInt 8) fun _ => local_bind local_readString fun _ => local_pure _

theorem local_transaction : Local readTransaction := by
  refine local_bind (local_readInt 4) fun _ => local_bind (local_readLE 4) fun _ => ?_
  refine local_bind (local_readVector local_readTxIn) fun _ => local_bind (local_readVector local_readTxOut) fun _ => ?_
  exact local_bind (local_readLE 4) fun _ => local_pure _

theorem local_block (sizes : ObjectSizes) (nType : Nat) : Local (unserializeBlock sizes nType) := by
  refine local_bind (local_readInt 4) fun _ => local_bind (local_readLE 32) fun _ => ?_
  refine local_bind (local_readLE 32) fun _ => local_bind (local_readLE 4) fun _ => ?_
  refine local_bind (local_readLE 4) fun _ => local_bind (local_readLE 4) fun _ => local_ite ?_ (local_pure _)
  rw [unserializeVector_eq, unserializeTransaction_eq, unserializeBytes_eq]
  exact local_bind (local_readVector local_transaction) fun _ => local_bind local_readString fun _ => local_pure _

/-! ### The way back -/

/-- A block as it is read. -/
def CBlock.received (block : CBlock) : CBlock := { block with vtx := block.vtx.map CTransaction.received }

theorem reads_unserializeBlock {sizes : ObjectSizes} {nType : Nat}
    (htype : nType &&& (SER_GETHASH ||| SER_BLOCKHEADERONLY) = 0) {block : CBlock} (h : block.Fits)
    (hb : block.Bounded) : Reads (unserializeBlock sizes nType) (block.write nType) block.received := by
  simp only [unserializeBlock, CBlock.write, if_pos htype, unserializeVector_eq, unserializeTransaction_eq,
    unserializeBytes_eq]
  refine reads_bind (reads_readInt h.nVersion) ?_
  refine reads_bind (reads_readLE h.hashPrevBlock) ?_
  refine reads_bind (reads_readLE h.hashMerkleRoot) ?_
  refine reads_bind (reads_readLE h.nTime) ?_
  refine reads_bind (reads_readLE h.nBits) ?_
  refine reads_bind (reads_readLE h.nNonce) ?_
  refine reads_bind (reads_readVector hb.vtx.1 fun tx htx =>
    reads_readTransaction_of_bounded (h.vtx tx htx) (hb.vtx.2 tx htx)) ?_
  exact reads_bind_nil (reads_readString hb.vchBlockSig) (reads_pure block.received)

theorem serialized_receivedBlock (block : CBlock) : block.received.serialized = block.serialized := by
  simp [CBlock.received, CBlock.serialized, serialized_receivedTransaction]

/-! ### The sizes -/

theorem length_writeCompactSize (n : Nat) : (writeCompactSize n).length = getSizeOfCompactSize n := by
  unfold writeCompactSize getSizeOfCompactSize
  split_ifs <;> simp only [List.length_append, length_toLE]

theorem nSerSizeBytes_eq (v : List UInt8) : nSerSizeBytes v = .ofNat (writeBytes v).length := by
  rw [nSerSizeBytes, writeBytes, List.length_append, length_writeCompactSize]

/-- The size of a vector is the size of what is written, if this is so for the elements. -/
theorem nSerSizeVector_eq {nSerSize : α → UInt32} (h : ∀ a, nSerSize a = .ofNat (write a).length)
    (v : List α) :
    nSerSizeVector nSerSize v = .ofNat (writeVector write v).length := by
  have hfold (l : List α) (n : Nat) : l.foldl (fun nSize a => nSize + nSerSize a) (.ofNat n) =
      UInt32.ofNat (n + (l.flatMap write).length) := by
    induction l generalizing n with
    | nil => rfl
    | cons a l ih =>
      rw [List.foldl_cons, h, ← UInt32.ofNat_add, ih, List.flatMap_cons, List.length_append, Nat.add_assoc]
  rw [nSerSizeVector, hfold, writeVector, List.length_append, length_writeCompactSize]

theorem nSerSizeTxIn_eq (txin : CTxIn) : txin.nSerSize = .ofNat txin.write.length := by
  have hprevout : txin.prevout.write.length = 36 := by
    rw [COutPoint.write, List.length_append, length_toLE, length_toLE]
  simp only [CTxIn.nSerSize, nSerSizeBytes_eq, CTxIn.write, hprevout, List.length_append, length_toLE,
    UInt32.ofNat_add, UInt32.add_assoc]
  rfl

theorem nSerSizeTxOut_eq (txout : CTxOut) : txout.nSerSize = .ofNat txout.write.length := by
  simp only [CTxOut.nSerSize, nSerSizeBytes_eq, CTxOut.write, List.length_append, length_writeInt, UInt32.ofNat_add]
  rfl

theorem nSerSizeTransaction_eq (tx : CTransaction) : tx.nSerSize = .ofNat tx.write.length := by
  simp only [CTransaction.nSerSize, nSerSizeVector_eq nSerSizeTxIn_eq, nSerSizeVector_eq nSerSizeTxOut_eq,
    CTransaction.write, List.length_append, length_writeInt, length_toLE, UInt32.ofNat_add, UInt32.add_assoc]
  rfl

theorem nSerSizeBlock_eq (nType : Nat) (block : CBlock) :
    block.nSerSize nType = .ofNat (block.write nType).length := by
  unfold CBlock.nSerSize CBlock.write
  simp only [List.length_append, length_writeInt, length_toLE, UInt32.ofNat_add]
  split_ifs
  · simp only [nSerSizeVector_eq nSerSizeTransaction_eq, nSerSizeBytes_eq, List.length_append, UInt32.ofNat_add,
      UInt32.add_assoc]
    rfl
  · rfl

/-! ### The wire format -/

/-- An encoding is a bijection between the objects with `p`, as far as `fields` tells them apart, and the byte
strings that are accepted; `size` is the length of the bytes. -/
structure IsWireFormat (p : α → Prop) (fields : α → α) (write : α → List UInt8) (read : Reader α)
    (size : α → UInt32) : Prop where
  reads : ∀ a, p a → ∃ b, Reads read (write a) b ∧ fields b = fields a
  size_eq : ∀ a, p a → (size a).toNat = (write a).length
  canonical : Canonical read write

theorem toNat_ofNat_length {bytes : List UInt8} (h : bytes.length < 2 ^ 32) :
    (UInt32.ofNat bytes.length).toNat = bytes.length :=
  UInt32.toNat_ofNat_of_lt' h

/-- **The wire format is a bijection**, for the transactions and for the blocks with all their transactions.  A size
is accepted in its shortest form only. -/
theorem wireFormat_bijective (sizes : ObjectSizes) (nType : Nat) (htype : nType ∈ [SER_NETWORK, SER_DISK]) :
    IsWireFormat (fun tx : CTransaction => tx.Fits ∧ tx.Bounded ∧ tx.write.length < 2 ^ 32) CTransaction.serialized
      CTransaction.write (unserializeTransaction sizes) CTransaction.nSerSize ∧
    IsWireFormat (fun block : CBlock => block.Fits ∧ block.Bounded ∧ (block.write nType).length < 2 ^ 32)
      CBlock.serialized (CBlock.write nType) (unserializeBlock sizes nType) (CBlock.nSerSize nType) ∧
    Canonical readCompactSize writeCompactSize := by
  have hflags : nType &&& (SER_GETHASH ||| SER_BLOCKHEADERONLY) = 0 := by
    rcases List.mem_cons.mp htype with rfl | htype
    · rfl
    · rw [List.mem_singleton.mp htype]
      rfl
  refine ⟨⟨?_, ?_, ?_⟩, ⟨?_, ?_, canonical_block sizes nType⟩, canonical_readCompactSize⟩
  · rintro tx ⟨hfits, hbounded, -⟩
    rw [unserializeTransaction_eq]
    exact ⟨tx.received, reads_readTransaction_of_bounded hfits hbounded, serialized_receivedTransaction tx⟩
  · rintro tx ⟨-, -, hlen⟩
    rw [nSerSizeTransaction_eq, toNat_ofNat_length hlen]
  · rw [unserializeTransaction_eq]
    exact canonical_transaction
  · rintro block ⟨hfits, hbounded, -⟩
    exact ⟨block.received, reads_unserializeBlock hflags hfits hbounded, serialized_receivedBlock block⟩
  · rintro block ⟨-, -, hlen⟩
    rw [nSerSizeBlock_eq, toNat_ofNat_length hlen]

/-- `sizeof` of the three classes, with 64-bit pointers. -/
def sampleSizes : ObjectSizes := ⟨⟨96, by decide⟩, ⟨40, by decide⟩, ⟨64, by decide⟩⟩

def wireBlock : CBlock :=
  { hashPrevBlock := 5
    nTime := 9
    vtx := [{ nTime := 8, vin := [⟨⟨3, 1⟩, [81], 0⟩], vout := [⟨50, [172], 2⟩] }]
    vchBlockSig := [48] }

/-- A block comes back from the disk without the rounds of its output. -/
theorem wireFormat_disk : ∃ block, Reads (unserializeBlock sampleSizes SER_DISK) (wireBlock.write SER_DISK) block ∧
    block.serialized = wireBlock.serialized := by
  obtain ⟨-, hblock, -⟩ := wireFormat_bijective sampleSizes SER_DISK (by decide)
  refine hblock.reads wireBlock
    ⟨⟨by decide, by decide, by decide, by decide, by decide, by decide, ?_⟩, ?_, by decide +kernel⟩
  · intro tx htx
    obtain rfl := List.mem_singleton.mp htx
    refine ⟨by decide, by decide, fun txin htxin => ?_, fun txout htxout => ?_, by decide⟩
    · obtain rfl := List.mem_singleton.mp htxin
      exact ⟨by decide, by decide, by decide⟩
    · obtain rfl := List.mem_singleton.mp htxout
      exact ⟨by decide, by decide⟩
  · refine ⟨⟨by decide, fun tx htx => ?_⟩, by decide⟩
    obtain rfl := List.mem_singleton.mp htx
    exact ⟨⟨by decide, by decide⟩, ⟨by decide, by decide⟩⟩

end Sphinx
