import Sphinx.BlockFile
import Sphinx.Equiv.TxIndex

/-!
# Positions in the block files

`ConnectBlock` computes the position of a transaction from sizes; `WriteToDisk` writes bytes.

* `CBlock.write_eq`, `CBlock.length_writeBefore`: the serialization of a block around a transaction;
* `BlockFiles.ofStore`: block files of bytes behave as the chain code supposes;
* `recordedExactly_of_connectBlock`: the recorded position is where the transaction starts in the file.
-/

namespace Sphinx

open Codec

variable {env : Env} {ctx : Ctx} {node node' : Node} {sizes : ObjectSizes}
variable {i : Nat} {tx : CTransaction} {pindex : CBlockIndex}

/-! ### The serialization around a transaction -/

theorem length_writeVector {α : Type} {write : α → List UInt8} {size : α → Nat} {v : List α}
    (h : ∀ a ∈ v, (write a).length = size a) :
    (writeVector write v).length = getSizeOfCompactSize v.length + (v.map size).sum := by
  rw [writeVector, List.length_append, length_writeCompactSize, List.length_flatMap, List.map_congr_left h]

theorem length_writeBytes (v : List UInt8) : (writeBytes v).length = getSizeOfCompactSize v.length + v.length := by
  rw [writeBytes, List.length_append, length_writeCompactSize]

theorem CTxIn.length_write (txin : CTxIn) : txin.write.length = txin.getSerializeSize := by
  simp only [CTxIn.write, COutPoint.write, List.length_append, length_toLE, length_writeBytes,
    CTxIn.getSerializeSize]
  omega

theorem CTxOut.length_write (txout : CTxOut) : txout.write.length = txout.getSerializeSize := by
  simp only [CTxOut.write, List.length_append, length_writeInt, length_writeBytes, CTxOut.getSerializeSize]

theorem CTransaction.length_write (tx : CTransaction) : tx.write.length = tx.getSerializeSize := by
  have hvin := length_writeVector fun txin (_ : txin ∈ tx.vin) => txin.length_write
  have hvout := length_writeVector fun txout (_ : txout ∈ tx.vout) => txout.length_write
  simp only [CTransaction.write, List.length_append, length_writeInt, length_toLE, hvin, hvout,
    CTransaction.getSerializeSize]
  omega

namespace CBlock

/-- The fields in front of the transactions. -/
def writeHeader (block : CBlock) : List UInt8 :=
  writeInt 4 block.nVersion ++ (toLE 32 block.hashPrevBlock ++ (toLE 32 block.hashMerkleRoot ++
    (toLE 4 block.nTime ++ (toLE 4 block.nBits ++ toLE 4 block.nNonce))))

/-- The bytes of the block in front of its `i`-th transaction. -/
def writeBefore (block : CBlock) (i : Nat) : List UInt8 :=
  block.writeHeader ++ (writeCompactSize block.vtx.length ++ (block.vtx.take i).flatMap CTransaction.write)

theorem length_writeBefore (block : CBlock) (i : Nat) : (block.writeBefore i).length = block.txOffset i := by
  have hsizes : ((block.vtx.take i).map fun tx => tx.write.length) =
      (block.vtx.take i).map CTransaction.getSerializeSize :=
    List.map_congr_left fun tx _ => tx.length_write
  simp only [writeBefore, writeHeader, List.length_append, length_writeInt, length_toLE, length_writeCompactSize,
    List.length_flatMap, hsizes, txOffset, headerSize]
  omega

theorem write_eq {block : CBlock} (htx : block.vtx[i]? = some tx) :
    block.write SER_DISK = block.writeBefore i ++ (tx.write ++
      ((block.vtx.drop (i + 1)).flatMap CTransaction.write ++ writeBytes block.vchBlockSig)) := by
  obtain ⟨hi, hget⟩ := List.getElem?_eq_some_iff.mp htx
  have hsplit : block.vtx = block.vtx.take i ++ tx :: block.vtx.drop (i + 1) := by
    rw [← hget, ← List.drop_eq_getElem_cons hi, List.take_append_drop]
  have hflat : block.vtx.flatMap CTransaction.write = (block.vtx.take i).flatMap CTransaction.write ++
      (tx.write ++ (block.vtx.drop (i + 1)).flatMap CTransaction.write) := by
    conv_lhs => rw [hsplit]
    rw [List.flatMap_append, List.flatMap_cons]
  have htype : SER_DISK &&& (SER_GETHASH ||| SER_BLOCKHEADERONLY) = 0 := rfl
  simp only [CBlock.write, if_pos htype, writeVector, hflat, writeBefore, writeHeader, List.append_assoc]

theorem unserializeBlock_getElem? {s rest : List UInt8} {block : CBlock}
    (h : unserializeBlock sizes SER_DISK s = some (block, rest)) (htx : block.vtx[i]? = some tx) :
    ∃ s' rest', s = block.writeBefore i ++ s' ∧ unserializeTransaction sizes s' = some (tx, rest') := by
  obtain ⟨nVersion, s₁, hversion, h⟩ := bind_eq_some.mp h
  obtain ⟨hashPrevBlock, s₂, hprev, h⟩ := bind_eq_some.mp h
  obtain ⟨hashMerkleRoot, s₃, hmerkle, h⟩ := bind_eq_some.mp h
  obtain ⟨nTime, s₄, htime, h⟩ := bind_eq_some.mp h
  obtain ⟨nBits, s₅, hbits, h⟩ := bind_eq_some.mp h
  obtain ⟨nNonce, s₆, hnonce, h⟩ := bind_eq_some.mp h
  rw [if_pos (by rfl), unserializeVector_eq, unserializeTransaction_eq] at h
  obtain ⟨vtx, s₇, hvtx, h⟩ := bind_eq_some.mp h
  obtain ⟨vchBlockSig, s₈, -, h⟩ := bind_eq_some.mp h
  obtain ⟨rfl, -⟩ := pure_eq_some.mp h
  obtain ⟨nSize, s₉, hsize, hmany⟩ := bind_eq_some.mp hvtx
  obtain ⟨s', rest', rfl, hread⟩ := readMany_getElem? canonical_transaction hmany htx
  obtain ⟨-, hlen⟩ := readMany_eq_some canonical_transaction hmany
  refine ⟨s', rest', ?_, by rwa [unserializeTransaction_eq]⟩
  rw [canonical_readInt _ _ _ _ hversion, canonical_readLE _ _ _ _ hprev, canonical_readLE _ _ _ _ hmerkle,
    canonical_readLE _ _ _ _ htime, canonical_readLE _ _ _ _ hbits, canonical_readLE _ _ _ _ hnonce,
    canonical_readCompactSize _ _ _ hsize, ← hlen]
  simp only [writeBefore, writeHeader, List.append_assoc]

end CBlock

/-- Files of bytes, as the block files of the chain code. -/
def BlockFiles.ofStore (sizes : ObjectSizes) (store : BlockStore) : BlockFiles where
  readBlock := store.readBlock sizes
  readTx := store.readTx sizes
  readTx_of_readBlock := by
    intro nFile nBlockPos block hread i tx htx
    obtain ⟨filein, hopen, hblock⟩ := Option.bind_eq_some_iff.mp hread
    obtain ⟨⟨block', rest⟩, hblock', rfl⟩ := Option.map_eq_some_iff.mp hblock
    obtain ⟨s', rest', hs, htx'⟩ := CBlock.unserializeBlock_getElem? hblock' htx
    refine Option.bind_eq_some_iff.mpr ⟨filein, hopen, Option.map_eq_some_iff.mpr ⟨(tx, rest'), ?_, rfl⟩⟩
    rw [← List.drop_drop, hs, ← CBlock.length_writeBefore, List.drop_left, htx']

/-! ### Writing -/

namespace BlockStore

variable {pchMessageStart : List UInt8} {store store' later : BlockStore} {nFile nBlockPos : Nat} {block : CBlock}

/-- Every file begins with what it was. -/
def Extends (store later : BlockStore) : Prop := ∀ nFile, store.files nFile <+: later.files nFile

/-- The file that `AppendBlockFile` finds can be opened and has room. -/
theorem appendBlockFile_spec : ∀ (fuel : Nat) (store : BlockStore),
    appendBlockFile fuel store = some (nFile, store') →
      store'.files = store.files ∧ store.openBlockFile nFile = some (store.files nFile) ∧
        (store.files nFile).length < 0x7F000000 - maxSize
  | 0, _, h => by cases h
  | fuel + 1, store, h => by
    rw [appendBlockFile] at h
    cases hopen : store.openBlockFile store.nCurrentBlockFile with
    | none =>
      rw [hopen] at h
      cases h
    | some file =>
      simp only [hopen] at h
      split_ifs at h with hroom
      · obtain ⟨rfl, rfl⟩ := Prod.mk.inj (Option.some.inj h)
        have hfile : file = store.files store.nCurrentBlockFile := by
          unfold openBlockFile at hopen
          split_ifs at hopen
          exact (Option.some.inj hopen).symm
        exact ⟨rfl, by rw [hopen, hfile], by rw [← hfile]; exact hroom⟩
      · exact appendBlockFile_spec fuel { store with nCurrentBlockFile := store.nCurrentBlockFile + 1 } h

theorem writeToDisk_spec {fuel : Nat}
    (h : store.writeToDisk pchMessageStart fuel block = some (nFile, nBlockPos, store')) :
    store'.openBlockFile nFile = some (store'.files nFile) ∧
      (∃ before, store'.files nFile = before ++ block.write SER_DISK ∧ before.length = nBlockPos) ∧
      nBlockPos < 0x7F000000 - maxSize + pchMessageStart.length + 4 ∧ store.Extends store' := by
  unfold writeToDisk at h
  split at h
  · cases h
  · next nFileRet store₁ happend =>
    simp only [Option.some.injEq, Prod.mk.injEq] at h
    obtain ⟨rfl, rfl, rfl⟩ := h
    obtain ⟨hfiles, hopen, hroom⟩ := appendBlockFile_spec fuel store happend
    refine ⟨?_, ⟨_, Function.update_self _ _ _, rfl⟩, ?_, fun n => ?_⟩
    · unfold openBlockFile at hopen ⊢
      split_ifs at hopen ⊢ with hn
      rfl
    · simp only [List.length_append, length_toLE, hfiles]
      omega
    · by_cases hn : n = nFileRet
      · subst hn
        simp only [Function.update_self, hfiles, List.append_assoc]
        exact List.prefix_append _ _
      · simp only [Function.update_of_ne hn, hfiles]
        exact List.prefix_refl _

end BlockStore

/-! ### The position in the index -/

theorem getElem?_split {α : Type} {v : List α} {a : α} (h : v[i]? = some a) :
    v = v.take i ++ a :: v.drop (i + 1) := by
  obtain ⟨hi, rfl⟩ := List.getElem?_eq_some_iff.mp h
  rw [← List.drop_eq_getElem_cons hi, List.take_append_drop]

/-- Once connected, a transaction keeps its position while the transactions behind it are connected. -/
theorem indexAfter_pos {block : CBlock} (M : TxIndexMap) (done : List CTransaction) (tx : CTransaction)
    (rest : List CTransaction) (hnew : env.getHash tx ∉ rest.map env.getHash) :
    ((indexAfter env pindex block M (done ++ tx :: rest)) (env.getHash tx)).map CTxIndex.pos =
      some (txPos pindex block done) := by
  induction rest using List.reverseRecOn with
  | nil =>
    rw [indexAfter_append, connectMap, Function.update_self]
    rfl
  | append_singleton rest last ih =>
    rw [List.map_append, List.map_singleton, List.mem_append, List.mem_singleton, not_or] at hnew
    rw [← List.cons_append, ← List.append_assoc, indexAfter_append]
    rw [connectMap_pos_of_ne hnew.2]
    exact ih hnew.1

theorem size_le_of_connectBlock {block : CBlock}
    (h : connectBlock env ctx node block pindex = .ok node') : block.getSerializeSize ≤ maxBlockSize := by
  unfold connectBlock at h
  split at h
  · cases h
  next st hchecks =>
  simp only [connectChecks, exceptBind_ok] at hchecks
  obtain ⟨⟨⟩, hcheck, -⟩ := hchecks
  simp only [checkBlock, exceptBind_ok, rejectIf_eq_ok, Bool.or_eq_false_iff, decide_eq_false_iff_not] at hcheck
  obtain ⟨-, ⟨-, hsize⟩, -⟩ := hcheck
  exact not_lt.mp hsize

theorem txOffset_le_getSerializeSize (block : CBlock) (i : Nat) : block.txOffset i ≤ block.getSerializeSize := by
  have hsum : ((block.vtx.take i).map CTransaction.getSerializeSize).sum ≤
      (block.vtx.map CTransaction.getSerializeSize).sum := by
    conv_rhs => rw [← List.take_append_drop i block.vtx, List.map_append, List.sum_append]
    exact Nat.le_add_right _ _
  rw [CBlock.txOffset, CBlock.getSerializeSize]
  omega

/-- A connected transaction in its file: the position in its index entry is where it starts. -/
structure RecordedExactly (env : Env) (sizes : ObjectSizes) (store : BlockStore) (node : Node) (nFile nBlockPos : Nat)
    (block : CBlock) (i nTxPos : Nat) (tx : CTransaction) : Prop where
  indexed : (node.txdb.txIndexMap (env.getHash tx)).map CTxIndex.pos = some (.pos nFile nBlockPos nTxPos)
  nTxPos_lt : nTxPos < 2 ^ 32
  starts : ∃ before rest, store.files nFile = before ++ (block.writeBefore i ++ (tx.write ++ rest)) ∧
    before.length = nBlockPos ∧ (before ++ block.writeBefore i).length = nTxPos
  readBack : ∃ tx', (BlockFiles.ofStore sizes store).readTx nFile nTxPos = some tx' ∧ tx'.serialized = tx.serialized

/-- The bytes of the block stand at its position. -/
structure WrittenAt (store : BlockStore) (nFile nBlockPos : Nat) (block : CBlock) : Prop where
  opened : store.openBlockFile nFile = some (store.files nFile)
  bytes : ∃ before rest, store.files nFile = before ++ (block.write SER_DISK ++ rest) ∧ before.length = nBlockPos

theorem openBlockFile_of_some {store : BlockStore} {nFile : Nat} {file : List UInt8}
    (h : store.openBlockFile nFile = some file) (later : BlockStore) :
    later.openBlockFile nFile = some (later.files nFile) := by
  unfold BlockStore.openBlockFile at h ⊢
  split_ifs at h ⊢ with hnFile
  rfl

theorem WrittenAt.extends {store later : BlockStore} {nFile nBlockPos : Nat} {block : CBlock}
    (h : WrittenAt store nFile nBlockPos block) (hext : store.Extends later) :
    WrittenAt later nFile nBlockPos block := by
  obtain ⟨before, rest, hfile, hlen⟩ := h.bytes
  obtain ⟨more, hmore⟩ := hext nFile
  refine ⟨openBlockFile_of_some h.opened later, before, rest ++ more, ?_, hlen⟩
  rw [← hmore, hfile, List.append_assoc, List.append_assoc]

theorem writtenAt_of_readBlock {store : BlockStore} {nFile nBlockPos : Nat} {block : CBlock}
    (hlen : nBlockPos ≤ (store.files nFile).length) (h : store.readBlock sizes nFile nBlockPos = some block) :
    WrittenAt store nFile nBlockPos block := by
  obtain ⟨filein, hopen, hread⟩ := Option.bind_eq_some_iff.mp h
  obtain ⟨⟨block', rest⟩, hblock, rfl⟩ := Option.map_eq_some_iff.mp hread
  have hself := openBlockFile_of_some hopen store
  obtain rfl := Option.some.inj (hopen.symm.trans hself)
  refine ⟨hself, (store.files nFile).take nBlockPos, rest, ?_, List.length_take_of_le hlen⟩
  rw [← canonical_block _ _ _ _ _ hblock, List.take_append_drop]

/-- The transactions of the block can be read back from what is written for them. -/
def ReadableTxs (sizes : ObjectSizes) (block : CBlock) : Prop :=
  ∀ tx ∈ block.vtx, ∃ tx', Reads (unserializeTransaction sizes) tx.write tx' ∧ tx'.serialized = tx.serialized

theorem readableTxs_of_fits {block : CBlock} (hfits : block.Fits) (hchecked : Checked env block) :
    ReadableTxs sizes block := by
  intro tx htx
  have hcheck := hchecked.txs tx htx
  simp only [CTransaction.checkTransaction, exceptBind_ok, rejectIf_eq_ok, decide_eq_false_iff_not] at hcheck
  obtain ⟨-, -, -, -, -, hsize, -⟩ := hcheck
  have hlen : tx.write.length ≤ maxSize := by
    rw [tx.length_write]
    exact (not_lt.mp hsize).trans (by decide)
  rw [unserializeTransaction_eq]
  exact ⟨tx.received, reads_readTransaction (hfits.vtx tx htx) hlen, serialized_receivedTransaction tx⟩

theorem readableTxs_of_readBlock {store : BlockStore} {nFile nBlockPos : Nat} {block : CBlock}
    (h : store.readBlock sizes nFile nBlockPos = some block) : ReadableTxs sizes block := by
  intro tx htx
  obtain ⟨filein, -, hread⟩ := Option.bind_eq_some_iff.mp h
  obtain ⟨⟨block', rest⟩, hblock, rfl⟩ := Option.map_eq_some_iff.mp hread
  obtain ⟨i, hi⟩ := List.mem_iff_getElem?.mp htx
  obtain ⟨s', rest', -, htx'⟩ := CBlock.unserializeBlock_getElem? hblock hi
  rw [unserializeTransaction_eq] at htx' ⊢
  exact ⟨tx, local_transaction.reads canonical_transaction htx', rfl⟩

/-- The bytes of the file around a transaction of the block. -/
theorem WrittenAt.split {store : BlockStore} {nFile nBlockPos : Nat} {block : CBlock}
    (h : WrittenAt store nFile nBlockPos block) (htx : block.vtx[i]? = some tx) :
    ∃ before rest, store.files nFile = before ++ (block.writeBefore i ++ (tx.write ++ rest)) ∧
      before.length = nBlockPos ∧ (before ++ block.writeBefore i).length = nBlockPos + block.txOffset i := by
  obtain ⟨before, rest, hfile, rfl⟩ := h.bytes
  have hfront : (before ++ block.writeBefore i).length = before.length + block.txOffset i := by
    rw [List.length_append, CBlock.length_writeBefore]
  refine ⟨before, (block.vtx.drop (i + 1)).flatMap CTransaction.write ++ (writeBytes block.vchBlockSig ++ rest), ?_,
    rfl, hfront⟩
  rw [hfile, CBlock.write_eq htx]
  simp only [List.append_assoc]

theorem pos_of_connectBlock {block : CBlock} (h : connectBlock env ctx node block pindex = .ok node')
    (htx : block.vtx[i]? = some tx) :
    (node'.txdb.txIndexMap (env.getHash tx)).map CTxIndex.pos =
      some (.pos pindex.nFile pindex.nBlockPos (pindex.nBlockPos + block.txOffset i)) := by
  obtain ⟨st, hconnected⟩ := connectBlock_ok h
  have hsplit := getElem?_split htx
  have hnodup := hconnected.checked.nodup
  rw [hsplit, List.map_append, List.map_cons] at hnodup
  have hnew := (List.nodup_cons.mp (List.nodup_append.mp hnodup).2.1).1
  rw [hconnected.txIndexMap_eq]
  conv_lhs => rw [hsplit]
  rw [indexAfter_pos _ _ _ _ hnew, txPos, firstTxPos_eq, CBlock.txOffset, Nat.add_assoc]

/-- The position that `ConnectBlock` records, for a block that stands in its file. -/
theorem recordedExactly_of_writtenAt {store : BlockStore} {block : CBlock}
    (hwritten : WrittenAt store pindex.nFile pindex.nBlockPos block)
    (hreadable : ReadableTxs sizes block) (hpos : pindex.nBlockPos + maxBlockSize < 2 ^ 32)
    (hconnect : connectBlock env ctx node block pindex = .ok node') (htx : block.vtx[i]? = some tx) :
    RecordedExactly env sizes store node' pindex.nFile pindex.nBlockPos block i
      (pindex.nBlockPos + block.txOffset i) tx := by
  have hoffset := txOffset_le_getSerializeSize block i
  have hsize := size_le_of_connectBlock hconnect
  obtain ⟨before, rest, hfile, hlen, hfront⟩ := hwritten.split htx
  obtain ⟨tx', hread, hsame⟩ := hreadable tx (List.mem_of_getElem? htx)
  refine ⟨pos_of_connectBlock hconnect htx, by omega, ⟨before, rest, hfile, hlen, hfront⟩, tx', ?_, hsame⟩
  change store.readTx sizes _ _ = _
  rw [BlockStore.readTx, hwritten.opened, Option.bind_some, hfile, ← hfront, ← List.append_assoc, List.drop_left,
    hread rest]
  rfl

/-- A block written by `WriteToDisk` and connected, either as it is in memory or as it is read from the files as they
are by then.  Every transaction is recorded at the position where it starts, in these and in all later files. -/
theorem recordedExactly_of_writeToDisk {pchMessageStart : List UInt8} {fuel nFile nBlockPos : Nat}
    {store written connecting later : BlockStore} {stored block : CBlock} {pindex : CBlockIndex}
    (hmagic : pchMessageStart.length = 4) (hfits : stored.Fits)
    (hwrite : store.writeToDisk pchMessageStart fuel stored = some (nFile, nBlockPos, written))
    (hconnecting : written.Extends connecting) (hlater : connecting.Extends later)
    (hblock : block = stored ∨ connecting.readBlock sizes nFile nBlockPos = some block)
    (hnFile : pindex.nFile = nFile) (hnBlockPos : pindex.nBlockPos = nBlockPos)
    (hconnect : connectBlock env ctx node block pindex = .ok node') {i : Nat} {tx : CTransaction}
    (htx : block.vtx[i]? = some tx) :
    ∃ nTxPos, RecordedExactly env sizes later node' nFile nBlockPos block i nTxPos tx := by
  obtain ⟨hopen, ⟨before, hfile, hlen⟩, hpos, -⟩ := BlockStore.writeToDisk_spec hwrite
  subst hnFile hnBlockPos
  have hstored : WrittenAt written pindex.nFile pindex.nBlockPos stored :=
    ⟨hopen, before, [], by rw [hfile, List.append_nil], hlen⟩
  have hbound : pindex.nBlockPos + maxBlockSize < 2 ^ 32 := by
    rw [hmagic, maxSize] at hpos
    rw [maxBlockSize]
    omega
  obtain ⟨st, hconnected⟩ := connectBlock_ok hconnect
  have hboth : WrittenAt connecting pindex.nFile pindex.nBlockPos block ∧ ReadableTxs sizes block := by
    rcases hblock with rfl | hread
    · exact ⟨hstored.extends hconnecting, readableTxs_of_fits hfits hconnected.checked⟩
    · refine ⟨writtenAt_of_readBlock ?_ hread, readableTxs_of_readBlock hread⟩
      obtain ⟨more, hmore⟩ := hconnecting pindex.nFile
      rw [← hmore, hfile, ← hlen]
      simp only [List.length_append]
      omega
  exact ⟨_, recordedExactly_of_writtenAt (hboth.1.extends hlater) hboth.2 hbound hconnect htx⟩

def emptyStore : BlockStore where
  files _ := []
  nCurrentBlockFile := 2

theorem fits_sampleBlock : (sampleBlock [claimingCoinbase, ordinaryTx]).Fits := by
  refine ⟨by decide, by decide, by decide, by decide, by decide, by decide, fun tx htx => ?_⟩
  rcases List.mem_pair.mp htx with rfl | rfl
  all_goals
    refine ⟨by decide, by decide, fun txin htxin => ?_, fun txout htxout => ?_, by decide⟩
    · obtain rfl := List.mem_singleton.mp htxin
      exact ⟨by decide, by decide, by decide⟩
    · obtain rfl := List.mem_singleton.mp htxout
      exact ⟨by decide, by decide⟩

/-- The second transaction of a block in an empty file. -/
theorem recordedExactly_ordinaryTx :
    ∃ written node' nTxPos,
      emptyStore.writeToDisk [1, 2, 3, 4] 1 (sampleBlock [claimingCoinbase, ordinaryTx]) = some (2, 8, written) ∧
      RecordedExactly (sampleEnv [claimingCoinbase, ordinaryTx]) sampleSizes written node' 2 8
        (sampleBlock [claimingCoinbase, ordinaryTx]) 1 nTxPos ordinaryTx := by
  obtain ⟨node', hconnect⟩ : ∃ node', connectBlock (sampleEnv [claimingCoinbase, ordinaryTx]) sampleCtx
      (sampleNode [fundingIndex, sampleIndex]) (sampleBlock [claimingCoinbase, ordinaryTx]) sampleIndex =
      .ok node' := exists_of_isOk (by decide)
  obtain ⟨written, hwrite⟩ : ∃ written, emptyStore.writeToDisk [1, 2, 3, 4] 1
      (sampleBlock [claimingCoinbase, ordinaryTx]) = some (2, 8, written) := ⟨_, rfl⟩
  have hself : written.Extends written := fun _ => List.prefix_refl _
  obtain ⟨nTxPos, h⟩ : ∃ nTxPos, RecordedExactly _ sampleSizes written node' 2 8 _ 1 nTxPos ordinaryTx :=
    recordedExactly_of_writeToDisk rfl fits_sampleBlock hwrite hself hself (.inl rfl) rfl rfl hconnect rfl
  exact ⟨written, node', nTxPos, hwrite, h⟩

end Sphinx
