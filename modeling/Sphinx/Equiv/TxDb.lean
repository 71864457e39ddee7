import Sphinx.TxDb

/-!
# Frames of database operations

`Frame W a b` says that the operations leading from the handle `a` to the handle `b` changed nothing
outside the keys `W`, and that with a batch open they left the stored data alone.  Every operation
of the database used while a block is connected or disconnected has such a frame.
-/

namespace Sphinx

namespace CTxDB

structure Frame (W : DbKey → Prop) (a b : CTxDB) : Prop where
  view_eq : ∀ key, ¬ W key → b.view key = a.view key
  pdb_eq : a.activeBatch.isSome = true → b.pdb = a.pdb
  isSome_eq : b.activeBatch.isSome = a.activeBatch.isSome

variable {W W' : DbKey → Prop} {a b c : CTxDB}

theorem Frame.refl (W : DbKey → Prop) (a : CTxDB) : Frame W a a :=
  ⟨fun _ _ => rfl, fun _ => rfl, rfl⟩

theorem Frame.trans (hab : Frame W a b) (hbc : Frame W b c) : Frame W a c :=
  ⟨fun key hkey => (hbc.view_eq key hkey).trans (hab.view_eq key hkey),
    fun hsome => (hbc.pdb_eq (hab.isSome_eq.trans hsome)).trans (hab.pdb_eq hsome),
    hbc.isSome_eq.trans hab.isSome_eq⟩

theorem Frame.mono (h : Frame W a b) (hW : ∀ key, W key → W' key) : Frame W' a b :=
  ⟨fun key hkey => h.view_eq key fun hw => hkey (hW key hw), h.pdb_eq, h.isSome_eq⟩

/-- `Write` changes what is read under its key only. -/
theorem frame_write {key : DbKey} {value : DbVal} (hkey : W key) :
    Frame W a (a.write key value) := by
  refine ⟨fun k hk => ?_, ?_, ?_⟩
  · rw [view_write, Function.update_of_ne]
    rintro rfl
    exact hk hkey
  · unfold write
    cases a.activeBatch with
    | none => intro h; cases h
    | some ops => exact fun _ => rfl
  · unfold write
    cases a.activeBatch with
    | none => simp
    | some ops => rfl

/-- So does `Erase`. -/
theorem frame_erase {key : DbKey} (hkey : W key) : Frame W a (a.erase key) := by
  refine ⟨fun k hk => ?_, ?_, ?_⟩
  · rw [view_erase, Function.update_of_ne]
    rintro rfl
    exact hk hkey
  · unfold erase
    cases a.activeBatch with
    | none => intro h; cases h
    | some ops => exact fun _ => rfl
  · unfold erase
    cases a.activeBatch with
    | none => simp
    | some ops => rfl

/-- A loop changes what its rounds change. -/
theorem frame_foldl {α : Type} {f : CTxDB → α → CTxDB} (hf : ∀ db x, Frame W db (f db x))
    (xs : List α) : ∀ a, Frame W a (xs.foldl f a) := by
  induction xs with
  | nil => exact fun a => Frame.refl W a
  | cons x xs ih => exact fun a => (hf a x).trans (ih (f a x))

/-- The keys of the transaction index. -/
def IsTxKey (key : DbKey) : Prop := ∃ hash, key = .tx hash

/-- The keys of the stored block index. -/
def IsBlockKey (key : DbKey) : Prop := ∃ hash, key = .blockindex hash

/-- The keys of the address index. -/
def IsAddrKey (key : DbKey) : Prop := ∃ addrHash, key = .adr addrHash

theorem frame_updateTxIndex (hash : Uint256) (txindex : CTxIndex) :
    Frame IsTxKey a (a.updateTxIndex hash txindex) := frame_write ⟨hash, rfl⟩

theorem frame_eraseTxIndex (hash : Uint256) : Frame IsTxKey a (a.eraseTxIndex hash) :=
  frame_erase ⟨hash, rfl⟩

theorem frame_writeBlockIndex (blockindex : CDiskBlockIndex) :
    Frame IsBlockKey a (a.writeBlockIndex blockindex) := frame_write ⟨_, rfl⟩

theorem frame_writeAddrIndex (addrHash : Nat) (txHash : Uint256) :
    Frame IsAddrKey a (a.writeAddrIndex addrHash txHash) := by
  unfold writeAddrIndex
  split
  · exact frame_write ⟨addrHash, rfl⟩
  · split
    · exact Frame.refl _ _
    · exact frame_write ⟨addrHash, rfl⟩

theorem Frame.txIndexMap_eq (h : Frame W a b) (hW : ∀ hash, ¬ W (.tx hash)) :
    b.txIndexMap = a.txIndexMap := by
  funext hash
  simp only [txIndexMap, readTxIndex, read_eq_view, h.view_eq _ (hW hash)]

/-- A block index is read back under its hash. -/
theorem readBlockIndex_writeBlockIndex (blockindex : CDiskBlockIndex) (hash : Uint256) :
    (a.writeBlockIndex blockindex).readBlockIndex hash
      = if hash = blockindex.blockHash then some blockindex else a.readBlockIndex hash := by
  by_cases hh : hash = blockindex.blockHash
  · simp [readBlockIndex, read_eq_view, writeBlockIndex, view_write, hh]
  · simp [readBlockIndex, read_eq_view, writeBlockIndex, view_write, hh]

end CTxDB

end Sphinx
