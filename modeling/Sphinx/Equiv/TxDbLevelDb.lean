import Sphinx.TxDbLevelDb
import Sphinx.Util.Run

/-!
# Reading through an open batch

* `scan_eq`: what `ScanBatch` finds is what the last operation on the key says;
* `txDbRun_refines`: the handle with typed keys and values, `CTxDB`, is the handle on bytes seen through an
  encoding;
* `dbRun_spec`: in any run, an open transaction reads as it will read after the commit, and an abort
  leads back to where it began;
* `existsRun_iff`: in a run `Exists` and `Read` agree all along exactly when no key that is stored in
  the database is erased inside a transaction.
-/

namespace Sphinx

open WriteBatch

variable {T : Type} {h h' : LevelDbHandle}

/-- The scanner holds the verdict of the last operation on the key. -/
theorem scan_eq (batch : List (BatchOp Bytes Bytes)) (key : Bytes) :
    scanBatch batch key =
      if (CBatchScanner.scan batch key).deleted then some none
      else if (CBatchScanner.scan batch key).foundEntry then
        some (some (CBatchScanner.scan batch key).foundValue)
      else none := by
  induction batch using List.reverseRecOn with
  | nil => rfl
  | append_singleton batch op ih =>
    simp only [scanBatch, CBatchScanner.scan, List.foldl_append, List.foldl_cons, List.foldl_nil]
      at ih ⊢
    cases op with
    | put k v =>
      by_cases hk : k = key
      · simp [scanOp, CBatchScanner.handle, hk]
      · simp only [scanOp, CBatchScanner.handle, if_neg hk]
        exact ih
    | delete k =>
      by_cases hk : k = key
      · simp [scanOp, CBatchScanner.handle, hk]
      · simp only [scanOp, CBatchScanner.handle, if_neg hk]
        exact ih

namespace LevelDbHandle

/-- The bytes a read finds under a key. -/
def view (h : LevelDbHandle) : Bytes → Option Bytes := batchView h.pdb h.activeBatch

theorem read_eq (h : LevelDbHandle) (unserialize : Bytes → Option T) (key : Bytes) :
    h.read unserialize key = (h.view key).bind unserialize := by
  unfold read view
  cases h.activeBatch with
  | none => rfl
  | some batch =>
    simp only [batchView, Option.getD_some, ← scanBatch_getD, scan_eq]
    split_ifs <;> rfl

theorem existsKey_eq (h : LevelDbHandle) (key : Bytes) :
    h.existsKey key =
      ((h.activeBatch.bind fun batch => scanBatch batch key).join.isSome || (h.pdb key).isSome) := by
  unfold existsKey
  cases h.activeBatch with
  | none => rfl
  | some batch =>
    simp only [Option.bind_some, scan_eq]
    cases (CBatchScanner.scan batch key).deleted <;>
      cases (CBatchScanner.scan batch key).foundEntry <;> rfl

theorem txnCommit_eq (h : LevelDbHandle) (hopen : h.activeBatch.isSome = true) :
    h.txnCommit = some { h with pdb := h.view, activeBatch := none } := by
  unfold txnCommit view
  cases hbatch : h.activeBatch with
  | none => rw [hbatch] at hopen; cases hopen
  | some batch => rfl

end LevelDbHandle

/-! ### The typed handle -/

/-- The values of the type that is stored under a key. -/
def DbKey.Stores : DbKey → DbVal → Prop
  | .tx _, .txIndex _ => True
  | .blockindex _, .diskIndex _ => True
  | .adr _, .hashes _ => True
  | .hashBestChain, .hash _ => True
  | .bnBestInvalidTrust, .hash _ => True
  | _, _ => False

/-- How keys and values are written as bytes.  The bytes of a value do not tell its type: whoever reads
it takes it for a value of the type that goes with the key. -/
structure DbCodec where
  serializeKey : DbKey → Bytes
  serialize : DbVal → Bytes
  unserialize : DbKey → Bytes → Option DbVal
  key_inj : Function.Injective serializeKey
  unserialize_serialize : ∀ {k v}, k.Stores v → unserialize k (serialize v) = some v

def DbCodec.op (codec : DbCodec) : BatchOp DbKey DbVal → BatchOp Bytes Bytes
  | .put k v => .put (codec.serializeKey k) (codec.serialize v)
  | .delete k => .delete (codec.serializeKey k)

def TypedMap (m : DbKey → Option DbVal) : Prop := ∀ k v, m k = some v → k.Stores v

theorem TypedMap.update {m : DbKey → Option DbVal} (hm : TypedMap m) {k : DbKey} {o : Option DbVal}
    (ho : ∀ v, o = some v → k.Stores v) : TypedMap (Function.update m k o) := by
  intro k' v hv
  by_cases hk : k' = k
  · subst hk
    rw [Function.update_self] at hv
    exact ho v hv
  · rw [Function.update_of_ne hk] at hv
    exact hm k' v hv

/-- The handle on bytes holds the encoded contents of the typed handle. -/
structure Encodes (codec : DbCodec) (h : LevelDbHandle) (txdb : CTxDB) : Prop where
  pdb : ∀ k, h.pdb (codec.serializeKey k) = (txdb.pdb k).map codec.serialize
  batch : h.activeBatch = txdb.activeBatch.map (List.map codec.op)
  writable : h.fReadOnly = false
  typedPdb : TypedMap txdb.pdb
  typedView : TypedMap txdb.view

namespace Encodes

variable {codec : DbCodec} {txdb : CTxDB}

theorem applyOp_encoded {m : Bytes → Option Bytes} {m' : DbKey → Option DbVal}
    (hm : ∀ k, m (codec.serializeKey k) = (m' k).map codec.serialize) (op : BatchOp DbKey DbVal)
    (k : DbKey) :
    applyOp m (codec.op op) (codec.serializeKey k) = (applyOp m' op k).map codec.serialize := by
  cases op with
  | put k' v =>
    by_cases hk : k = k'
    · subst hk
      simp [DbCodec.op, applyOp]
    · have hk' : codec.serializeKey k ≠ codec.serializeKey k' := fun heq => hk (codec.key_inj heq)
      simp only [DbCodec.op, applyOp, Function.update_of_ne hk, Function.update_of_ne hk', hm]
  | delete k' =>
    by_cases hk : k = k'
    · subst hk
      simp [DbCodec.op, applyOp]
    · have hk' : codec.serializeKey k ≠ codec.serializeKey k' := fun heq => hk (codec.key_inj heq)
      simp only [DbCodec.op, applyOp, Function.update_of_ne hk, Function.update_of_ne hk', hm]

theorem view_encoded (henc : Encodes codec h txdb) (k : DbKey) :
    h.view (codec.serializeKey k) = (txdb.view k).map codec.serialize := by
  simp only [LevelDbHandle.view, CTxDB.view, batchView, henc.batch]
  have hfold : ∀ ops : List (BatchOp DbKey DbVal), ∀ k,
      applyBatch h.pdb (ops.map codec.op) (codec.serializeKey k) =
        (applyBatch txdb.pdb ops k).map codec.serialize := by
    intro ops
    induction ops using List.reverseRecOn with
    | nil => exact henc.pdb
    | append_singleton ops op ih =>
      intro k
      rw [List.map_append, List.map_singleton, applyBatch_append, applyBatch_append]
      exact applyOp_encoded ih op k
  cases txdb.activeBatch with
  | none => exact hfold [] k
  | some ops => exact hfold ops k

theorem read (henc : Encodes codec h txdb) (k : DbKey) :
    h.read (codec.unserialize k) (codec.serializeKey k) = txdb.read k := by
  rw [LevelDbHandle.read_eq, CTxDB.read_eq_view, henc.view_encoded]
  cases hv : txdb.view k with
  | none => rfl
  | some v => exact codec.unserialize_serialize (henc.typedView k v hv)

theorem scanBatch_encoded (ops : List (BatchOp DbKey DbVal)) (k : DbKey) :
    scanBatch (ops.map codec.op) (codec.serializeKey k) =
      (scanBatch ops k).map (Option.map codec.serialize) := by
  induction ops using List.reverseRecOn with
  | nil => rfl
  | append_singleton ops op ih =>
    simp only [scanBatch, List.map_append, List.map_cons, List.map_nil, List.foldl_append,
      List.foldl_cons, List.foldl_nil] at ih ⊢
    rw [ih]
    cases op with
    | put k' v =>
      by_cases hk : k' = k
      · simp [DbCodec.op, scanOp, hk]
      · simp [DbCodec.op, scanOp, hk, codec.key_inj.eq_iff]
    | delete k' =>
      by_cases hk : k' = k
      · simp [DbCodec.op, scanOp, hk]
      · simp [DbCodec.op, scanOp, hk, codec.key_inj.eq_iff]

theorem existsKey (henc : Encodes codec h txdb) (k : DbKey) :
    h.existsKey (codec.serializeKey k) = txdb.existsKey k := by
  rw [LevelDbHandle.existsKey_eq, henc.pdb, Option.isSome_map, henc.batch]
  unfold CTxDB.existsKey
  cases txdb.activeBatch with
  | none => rfl
  | some ops =>
    simp only [Option.map_some, Option.bind_some, scanBatch_encoded]
    rcases scanBatch ops k with _ | _ | v <;> rfl

theorem write (henc : Encodes codec h txdb) {k : DbKey} {v : DbVal} (hv : k.Stores v) :
    ∃ h', h.write (codec.serializeKey k) (codec.serialize v) = some h' ∧
      Encodes codec h' (txdb.write k v) := by
  have hstores : ∀ w, some v = some w → k.Stores w := fun w hw => Option.some.inj hw ▸ hv
  have hview : TypedMap (txdb.write k v).view := by
    rw [CTxDB.view_write]
    exact henc.typedView.update hstores
  unfold LevelDbHandle.write
  rw [henc.writable, henc.batch]
  unfold CTxDB.write at hview ⊢
  revert hview
  cases txdb.activeBatch with
  | none =>
    intro hview
    exact ⟨_, rfl, applyOp_encoded henc.pdb (.put k v), rfl, rfl, henc.typedPdb.update hstores, hview⟩
  | some ops =>
    intro hview
    refine ⟨_, rfl, henc.pdb, ?_, rfl, henc.typedPdb, hview⟩
    simp [DbCodec.op]

theorem erase (henc : Encodes codec h txdb) (k : DbKey) :
    ∃ h', h.erase (codec.serializeKey k) = some h' ∧ Encodes codec h' (txdb.erase k) := by
  have hstores : ∀ w, none = some w → k.Stores w := fun w hw => by cases hw
  have hview : TypedMap (txdb.erase k).view := by
    rw [CTxDB.view_erase]
    exact henc.typedView.update hstores
  unfold LevelDbHandle.erase
  rw [henc.writable, henc.batch]
  unfold CTxDB.erase at hview ⊢
  revert hview
  cases txdb.activeBatch with
  | none =>
    intro hview
    exact ⟨_, rfl, applyOp_encoded henc.pdb (.delete k), rfl, rfl, henc.typedPdb.update hstores, hview⟩
  | some ops =>
    intro hview
    refine ⟨_, rfl, henc.pdb, ?_, rfl, henc.typedPdb, hview⟩
    simp [DbCodec.op]

end Encodes

/-! ### Runs -/

inductive DbOp where
  | write (key value : Bytes)
  | erase (key : Bytes)
  | read (key : Bytes)
  | txnBegin
  | txnCommit
  | txnAbort

/-- An operation that is neither the start nor the end of a transaction. -/
def DbOp.isData : DbOp → Bool
  | .write _ _ => true
  | .erase _ => true
  | .read _ => true
  | _ => false

def dbStep (h : LevelDbHandle) : DbOp → Option LevelDbHandle
  | .write key value => h.write key value
  | .erase key => h.erase key
  | .read _ => some h
  | .txnBegin => h.txnBegin
  | .txnCommit => h.txnCommit
  | .txnAbort => some h.txnAbort

/-- The operations of the typed handle; what is written has the type that is stored under the key. -/
inductive TxDbOp where
  | write (key : DbKey) (value : DbVal) (typed : key.Stores value)
  | erase (key : DbKey)
  | txnBegin
  | txnCommit
  | txnAbort

def txDbStep (txdb : CTxDB) : TxDbOp → Option CTxDB
  | .write key value _ => some (txdb.write key value)
  | .erase key => some (txdb.erase key)
  | .txnBegin => if txdb.activeBatch.isSome then none else some txdb.txnBegin
  | .txnCommit => if txdb.activeBatch.isSome then some txdb.txnCommit else none
  | .txnAbort => some txdb.txnAbort

def DbCodec.dbOp (codec : DbCodec) : TxDbOp → DbOp
  | .write key value _ => .write (codec.serializeKey key) (codec.serialize value)
  | .erase key => .erase (codec.serializeKey key)
  | .txnBegin => .txnBegin
  | .txnCommit => .txnCommit
  | .txnAbort => .txnAbort

theorem Encodes.step {codec : DbCodec} {txdb : CTxDB} (henc : Encodes codec h txdb) (op : TxDbOp) :
    Option.Rel (Encodes codec) (dbStep h (codec.dbOp op)) (txDbStep txdb op) := by
  cases op with
  | write key value typed =>
    obtain ⟨h', heq, henc'⟩ := henc.write typed
    show Option.Rel _ (h.write _ _) _
    rw [heq]
    exact .some henc'
  | erase key =>
    obtain ⟨h', heq, henc'⟩ := henc.erase key
    show Option.Rel _ (h.erase _) _
    rw [heq]
    exact .some henc'
  | txnBegin =>
    simp only [dbStep, DbCodec.dbOp, LevelDbHandle.txnBegin, txDbStep, henc.batch]
    cases txdb.activeBatch with
    | none => exact .some ⟨henc.pdb, rfl, henc.writable, henc.typedPdb, henc.typedPdb⟩
    | some ops => exact .none
  | txnCommit =>
    simp only [dbStep, DbCodec.dbOp, txDbStep]
    cases hbatch : txdb.activeBatch with
    | none =>
      rw [LevelDbHandle.txnCommit, henc.batch, hbatch]
      exact .none
    | some ops =>
      rw [h.txnCommit_eq (by rw [henc.batch, hbatch]; rfl)]
      exact .some ⟨henc.view_encoded, rfl, henc.writable, henc.typedView, henc.typedView⟩
  | txnAbort => exact .some ⟨henc.pdb, rfl, henc.writable, henc.typedPdb, henc.typedPdb⟩

/-- A transaction is open in `h`: it began in `h0`, and since then the operations `mid` were issued.
Issued in `h0` without a transaction, they lead to `h1`. -/
structure InTxn (h0 : LevelDbHandle) (mid : List DbOp) (h h1 : LevelDbHandle) : Prop where
  opened : h.activeBatch.isSome = true
  closed : h0.activeBatch = none
  data : ∀ op ∈ mid, op.isData = true
  direct : mid.foldlM dbStep h0 = some h1
  pdb : h.pdb = h0.pdb
  fReadOnly : h.fReadOnly = h0.fReadOnly
  view : h1 = { h with pdb := h.view, activeBatch := none }

theorem inTxn_begin (hclosed : h.activeBatch = none) (hbegin : h.txnBegin = some h') :
    InTxn h [] h' h := by
  unfold LevelDbHandle.txnBegin at hbegin
  rw [hclosed] at hbegin
  obtain rfl := Option.some.inj hbegin
  refine ⟨rfl, hclosed, by simp, rfl, rfl, rfl, ?_⟩
  obtain ⟨pdb, activeBatch, fReadOnly⟩ := h
  obtain rfl : activeBatch = none := hclosed
  rfl

/-- **One operation inside a transaction** is appended to the batch, and issued directly it changes the
database in the same way. -/
theorem InTxn.step {h0 h1 : LevelDbHandle} {mid : List DbOp} (ht : InTxn h0 mid h h1) {op : DbOp}
    (hdata : op.isData = true) (hstep : dbStep h op = some h') :
    ∃ h1', InTxn h0 (mid ++ [op]) h' h1' := by
  obtain ⟨hopened, hclosed, hmid, hdirect, hpdb, hro, hview⟩ := ht
  obtain ⟨batch, hbatch⟩ := Option.isSome_iff_exists.mp hopened
  have hmid' : ∀ op' ∈ mid ++ [op], op'.isData = true := by
    intro op' hop'
    rcases List.mem_append.mp hop' with hop' | hop'
    · exact hmid op' hop'
    · rw [List.mem_singleton.mp hop']
      exact hdata
  -- what the operation does without a transaction, after the others
  have hlast : ∀ {h1'}, dbStep h1 op = some h1' → (mid ++ [op]).foldlM dbStep h0 = some h1' := by
    intro h1' hop
    rw [List.foldlM_append, hdirect]
    show (dbStep h1 op >>= pure) = some h1'
    rw [hop]
    rfl
  cases op with
  | write key value =>
    simp only [dbStep, LevelDbHandle.write, hbatch] at hstep
    split_ifs at hstep with hfro
    obtain rfl := Option.some.inj hstep
    have hdirect' : dbStep h1 (.write key value) =
        some { h1 with pdb := Function.update h1.pdb key (some value) } := by
      rw [hview]
      simp [dbStep, LevelDbHandle.write, hfro]
    refine ⟨_, rfl, hclosed, hmid', hlast hdirect', hpdb, hro, ?_⟩
    rw [hview]
    simp only [LevelDbHandle.view, hbatch, batchView_put]
  | erase key =>
    simp only [dbStep, LevelDbHandle.erase, hbatch] at hstep
    split_ifs at hstep with hfro
    obtain rfl := Option.some.inj hstep
    have hdirect' : dbStep h1 (.erase key) =
        some { h1 with pdb := Function.update h1.pdb key none } := by
      rw [hview]
      simp [dbStep, LevelDbHandle.erase, hfro]
    refine ⟨_, rfl, hclosed, hmid', hlast hdirect', hpdb, hro, ?_⟩
    rw [hview]
    simp only [LevelDbHandle.view, hbatch, batchView_delete]
  | read key =>
    obtain rfl := Option.some.inj hstep
    exact ⟨h1, hopened, hclosed, hmid', hlast rfl, hpdb, hro, hview⟩
  | txnBegin => cases hdata
  | txnCommit => cases hdata
  | txnAbort => cases hdata

/-- What an operation does to the batch: none is open afterwards, or one is opened, or the one that is
open stays, perhaps with an entry more, and the database is left alone. -/
theorem dbStep_batch {op : DbOp} (hstep : dbStep h op = some h') :
    h'.activeBatch = none ∨
    (op = .txnBegin ∧ h.activeBatch = none ∧ h'.activeBatch = some []) ∨
    ∃ batch, h.activeBatch = some batch ∧ op.isData = true ∧ h'.pdb = h.pdb ∧
      (h'.activeBatch = some batch ∨
        (∃ key value, h'.activeBatch = some (batch ++ [.put key value])) ∨
        ∃ key, op = .erase key ∧ h.fReadOnly = false ∧
          h'.activeBatch = some (batch ++ [.delete key])) := by
  cases op with
  | write key value =>
    simp only [dbStep, LevelDbHandle.write] at hstep
    split_ifs at hstep
    cases hbatch : h.activeBatch with
    | none =>
      rw [hbatch] at hstep
      obtain rfl := Option.some.inj hstep
      exact .inl rfl
    | some batch =>
      rw [hbatch] at hstep
      obtain rfl := Option.some.inj hstep
      exact .inr (.inr ⟨batch, rfl, rfl, rfl, .inr (.inl ⟨key, value, rfl⟩)⟩)
  | erase key =>
    simp only [dbStep, LevelDbHandle.erase] at hstep
    split_ifs at hstep with hfro
    cases hbatch : h.activeBatch with
    | none =>
      rw [hbatch] at hstep
      obtain rfl := Option.some.inj hstep
      exact .inl rfl
    | some batch =>
      rw [hbatch] at hstep
      obtain rfl := Option.some.inj hstep
      exact .inr (.inr ⟨batch, rfl, rfl, rfl, .inr (.inr ⟨key, rfl, by simpa using hfro, rfl⟩)⟩)
  | read key =>
    obtain rfl := Option.some.inj hstep
    cases hbatch : h.activeBatch with
    | none => exact .inl rfl
    | some batch => exact .inr (.inr ⟨batch, rfl, rfl, rfl, .inl rfl⟩)
  | txnBegin =>
    simp only [dbStep, LevelDbHandle.txnBegin] at hstep
    split at hstep
    · cases hstep
    · next hbatch =>
      obtain rfl := Option.some.inj hstep
      exact .inr (.inl ⟨rfl, hbatch, rfl⟩)
  | txnCommit =>
    simp only [dbStep, LevelDbHandle.txnCommit] at hstep
    split at hstep
    · cases hstep
    · obtain rfl := Option.some.inj hstep
      exact .inl rfl
  | txnAbort =>
    obtain rfl := Option.some.inj hstep
    exact .inl rfl

theorem dbRun_inTxn {start : LevelDbHandle} (hstart : start.activeBatch = none) (ops : List DbOp) :
    ∀ {h}, ops.foldlM dbStep start = some h → h.activeBatch = none ∨
      ∃ pre mid h0 h1, ops = pre ++ .txnBegin :: mid ∧ pre.foldlM dbStep start = some h0 ∧
        InTxn h0 mid h h1 := by
  -- by induction on the run: its last operation opens a transaction, continues one or leaves none open
  induction ops using List.reverseRecOn with
  | nil =>
    intro h hrun
    obtain rfl : start = h := Option.some.inj hrun
    exact .inl hstart
  | append_singleton ops op ih =>
    intro h hrun
    rw [List.foldlM_append] at hrun
    obtain ⟨h2, hrun2, hstep⟩ := Option.bind_eq_some_iff.mp hrun
    have hstep : dbStep h2 op = some h := by simpa using hstep
    rcases dbStep_batch hstep with hclosed | ⟨rfl, hclosed, -⟩ | ⟨batch, hbatch, hdata, -⟩
    · exact .inl hclosed
    · exact .inr ⟨ops, [], h2, h2, rfl, hrun2, inTxn_begin hclosed hstep⟩
    · rcases ih hrun2 with hclosed | ⟨pre, mid, h0, h1, rfl, hpre, ht⟩
      · rw [hclosed] at hbatch
        cases hbatch
      · obtain ⟨h1', ht'⟩ := ht.step hdata hstep
        exact .inr ⟨pre, mid ++ [op], h0, h1', by simp, hpre, ht'⟩

/-- **Reads inside a transaction.**  Let a transaction be open after a run.  It began in a state `h0`,
and `mid` was issued since then.  A commit leads to the state `h1` in which the same operations leave
`h0` when they go to the database one by one; every read returns what it returns in `h1`, the database
of `h1` is what reads see now, and an abort leads back to `h0`. -/
theorem dbRun_spec {pdb : Bytes → Option Bytes} {fReadOnly : Bool} {ops : List DbOp}
    (hrun : ops.foldlM dbStep ⟨pdb, none, fReadOnly⟩ = some h) (hopen : h.activeBatch.isSome = true) :
    ∃ pre mid h0 h1, ops = pre ++ .txnBegin :: mid ∧ (∀ op ∈ mid, op.isData = true) ∧
      pre.foldlM dbStep ⟨pdb, none, fReadOnly⟩ = some h0 ∧ h0.activeBatch = none ∧
      mid.foldlM dbStep h0 = some h1 ∧ h.txnCommit = some h1 ∧
      (∀ (T : Type) (unserialize : Bytes → Option T) (key : Bytes),
        h.read unserialize key = h1.read unserialize key) ∧
      (∀ key, h1.pdb key = h.read some key) ∧ h.txnAbort = h0 := by
  rcases dbRun_inTxn rfl ops hrun with hclosed | ⟨pre, mid, h0, h1, hops, hpre, ht⟩
  · rw [hclosed] at hopen
    cases hopen
  · have hread : ∀ (T : Type) (unserialize : Bytes → Option T) (key : Bytes),
        h.read unserialize key = h1.read unserialize key := by
      intro T unserialize key
      rw [LevelDbHandle.read_eq, LevelDbHandle.read_eq, ht.view]
      rfl
    have hcommit : h.txnCommit = some h1 := by
      rw [h.txnCommit_eq hopen, ← ht.view]
    have hpdb : ∀ key, h1.pdb key = h.read some key := by
      intro key
      rw [LevelDbHandle.read_eq, Option.bind_fun_some, ht.view]
    have habort : h.txnAbort = h0 := by
      obtain ⟨pdb0, activeBatch0, fReadOnly0⟩ := h0
      obtain rfl : activeBatch0 = none := ht.closed
      obtain rfl : h.pdb = pdb0 := ht.pdb
      obtain rfl : h.fReadOnly = fReadOnly0 := ht.fReadOnly
      rfl
    exact ⟨pre, mid, h0, h1, hops, ht.data, hpre, ht.closed, ht.direct, hcommit, hread, hpdb, habort⟩

/-- The database holds `[2]` under every key.  Inside a transaction, `[1]` is erased and put again, and
`[3]` is put and erased. -/
def sampleOps : List DbOp :=
  [.txnBegin, .erase [1], .write [1] [4], .write [3] [5], .erase [3]]

def sampleHandle : LevelDbHandle :=
  { pdb := fun _ => some [2]
    activeBatch := some [.delete [1], .put [1] [4], .put [3] [5], .delete [3]] }

theorem dbRun_spec_sample :
    ∃ h1, sampleHandle.txnCommit = some h1 ∧ sampleHandle.read some [1] = some [4] ∧
      h1.read some [1] = some [4] ∧ h1.pdb [3] = none ∧ sampleHandle.txnAbort.pdb [3] = some [2] := by
  have hrun : sampleOps.foldlM dbStep ⟨fun _ => some [2], none, false⟩ = some sampleHandle := rfl
  obtain ⟨-, -, h0, h1, -, -, -, -, -, hcommit, hread, hpdb, habort⟩ := dbRun_spec hrun rfl
  refine ⟨h1, hcommit, rfl, ?_, ?_, rfl⟩
  · rw [← hread]
    rfl
  · rw [hpdb]
    rfl

/-! ### `Exists` -/

/-- `Exists` and `Read` agree on every key whose bytes can be read. -/
def ExistsAgrees (h : LevelDbHandle) : Prop :=
  ∀ (T : Type) (unserialize : Bytes → Option T) (key : Bytes),
    (∀ value, h.read some key = some value → (unserialize value).isSome = true) →
    (h.existsKey key = true ↔ (h.read unserialize key).isSome = true)

/-- A key that is stored in the database is not erased inside a transaction. -/
def EraseSafe (h : LevelDbHandle) : DbOp → Prop
  | .erase key => h.fReadOnly = false → h.activeBatch.isSome = true → h.pdb key = none
  | _ => True

/-- The keys deleted in the batch are not in the database. -/
def DeletedAbsent (h : LevelDbHandle) : Prop :=
  ∀ batch, h.activeBatch = some batch → ∀ key, scanBatch batch key = some none → h.pdb key = none

theorem DeletedAbsent.existsAgrees (hinv : DeletedAbsent h) : ExistsAgrees h := by
  intro T unserialize key hbytes
  rw [LevelDbHandle.read_eq, Option.bind_fun_some] at hbytes
  rw [LevelDbHandle.read_eq, LevelDbHandle.existsKey_eq]
  -- both say whether there are bytes to be read
  have hview : ((h.activeBatch.bind fun batch => scanBatch batch key).join.isSome ||
      (h.pdb key).isSome) = (h.view key).isSome := by
    unfold LevelDbHandle.view
    cases hbatch : h.activeBatch with
    | none => rfl
    | some batch =>
      simp only [batchView, Option.getD_some, ← scanBatch_getD, Option.bind_some]
      have habsent := hinv batch hbatch key
      rcases hscan : scanBatch batch key with _ | _ | value
      · rfl
      · rw [habsent hscan]
        rfl
      · rfl
  rw [hview]
  cases hv : h.view key with
  | none => simp
  | some value => simp [hbytes value hv]

theorem deletedAbsent_step {op : DbOp} (hinv : DeletedAbsent h) (hsafe : EraseSafe h op)
    (hstep : dbStep h op = some h') : DeletedAbsent h' := by
  intro batch' hbatch' k hscan
  rcases dbStep_batch hstep with hclosed | ⟨rfl, -, hopened⟩ | ⟨batch, hbatch, -, hpdb, happended⟩
  · rw [hclosed] at hbatch'
    cases hbatch'
  · obtain rfl := Option.some.inj (hopened.symm.trans hbatch')
    cases hscan
  · rw [hpdb]
    rcases happended with hsame | ⟨key, value, hput⟩ | ⟨key, rfl, hfro, hdelete⟩
    · obtain rfl := Option.some.inj (hsame.symm.trans hbatch')
      exact hinv batch hbatch k hscan
    · obtain rfl := Option.some.inj (hput.symm.trans hbatch')
      simp only [scanBatch, List.foldl_append, List.foldl_cons, List.foldl_nil, scanOp] at hscan
      split_ifs at hscan
      · cases Option.some.inj hscan
      · exact hinv batch hbatch k hscan
    · obtain rfl := Option.some.inj (hdelete.symm.trans hbatch')
      simp only [scanBatch, List.foldl_append, List.foldl_cons, List.foldl_nil, scanOp] at hscan
      split_ifs at hscan with hk
      · -- the key erased now is not stored, because the operation is safe
        rw [← hk]
        exact hsafe hfro (by rw [hbatch]; rfl)
      · exact hinv batch hbatch k hscan

/-- A key that is stored is erased: a read does not find it any more, `Exists` does. -/
theorem existsAgrees_lost {op : DbOp} (hbad : ¬ EraseSafe h op) :
    ∃ h', dbStep h op = some h' ∧ ¬ ExistsAgrees h' := by
  cases op with
  | erase key =>
    simp only [EraseSafe, Classical.not_imp] at hbad
    obtain ⟨hfro, hopen, hstored⟩ := hbad
    obtain ⟨batch, hbatch⟩ := Option.isSome_iff_exists.mp hopen
    refine ⟨{ h with activeBatch := some (batch ++ [.delete key]) }, ?_, fun hagrees => ?_⟩
    · simp [dbStep, LevelDbHandle.erase, hfro, hbatch]
    · have hread : LevelDbHandle.read { h with activeBatch := some (batch ++ [.delete key]) } some key =
          none := by
        rw [LevelDbHandle.read_eq, LevelDbHandle.view, batchView_delete, Function.update_self]
        rfl
      have hexists := (hagrees Bytes some key fun value _ => rfl).mp (by
        rw [LevelDbHandle.existsKey_eq, Option.isSome_iff_ne_none.mpr hstored, Bool.or_true])
      rw [hread] at hexists
      cases hexists
  | write key value => exact absurd trivial hbad
  | read key => exact absurd trivial hbad
  | txnBegin => exact absurd trivial hbad
  | txnCommit => exact absurd trivial hbad
  | txnAbort => exact absurd trivial hbad

/-- **`Exists` and `Read`.**  They agree all along a run of a handle exactly when no key that is stored
in the database is erased inside a transaction. -/
theorem existsRun_iff (pdb : Bytes → Option Bytes) (fReadOnly : Bool) (ops : List DbOp) :
    Run.Along dbStep ExistsAgrees ops ⟨pdb, none, fReadOnly⟩ ↔
      Run.EveryStep dbStep EraseSafe ops ⟨pdb, none, fReadOnly⟩ := by
  refine Run.along_iff_everyStep DeletedAbsent.existsAgrees deletedAbsent_step
    (fun _ hbad => existsAgrees_lost hbad) ops ?_
  intro batch hbatch
  cases hbatch

/-- **A key that is read as erased and still exists.** -/
theorem existsRun_disagrees :
    ¬ Run.Along dbStep ExistsAgrees [.txnBegin, .erase [1]] ⟨fun _ => some [2], none, false⟩ := by
  rintro ⟨-, hrest⟩
  have hagrees := (hrest _ rfl).2 _ rfl
  have hexists := (hagrees Bytes some [1] fun value _ => rfl).mp rfl
  cases hexists

end Sphinx
