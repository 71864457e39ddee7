import Sphinx.AddrIndex
import Sphinx.Equiv.TxIndex

/-!
# The address index and the main chain

`ConnectBlock` puts a transaction under the ids of its outputs and of all outputs of its previous transactions, and
`DisconnectBlock` takes nothing out.

* `buildAddrIndex_isSome`: `BuildAddrIndex` ends for every script, and yields ids;
* `addrIndex_correct_iff`: for an id, the index is right in every state of a run exactly when every step keeps it right.
-/

namespace Sphinx

open CTransaction (NoCollision prevouts)

variable {env : Env} {hash160 : List UInt8 → Nat} {T : Set CTransaction}

/-! ### `BuildAddrIndex` -/

namespace CScript

theorem getPush_pc_le (opcode nSize : Nat) (pc : CScript) : (getPush opcode nSize pc).pc.length ≤ pc.length := by
  unfold getPush
  split_ifs
  · exact le_rfl
  · simp

theorem getPushData_pc_le (opcode nBytes : Nat) (pc : CScript) :
    (getPushData opcode nBytes pc).pc.length ≤ pc.length := by
  unfold getPushData
  split_ifs
  · exact le_rfl
  · refine (getPush_pc_le _ _ _).trans ?_
    simp

/-- Of a script that is not at its end a byte is read in any case. -/
theorem getOp2_pc_lt (op : UInt8) (pc : CScript) : (getOp2 (op :: pc)).pc.length < (op :: pc).length := by
  rw [List.length_cons, Nat.lt_succ_iff]
  unfold getOp2
  dsimp only
  split_ifs
  · exact getPush_pc_le _ _ _
  · exact getPushData_pc_le _ _ _
  · exact getPushData_pc_le _ _ _
  · exact getPushData_pc_le _ _ _
  · exact le_rfl

end CScript

/-- As many rounds as there are bytes suffice, and there is an id if there was data. -/
theorem buildAddrIndexLoop_total {fuel : Nat} {pc : CScript} (hfuel : pc.length ≤ fuel) {addrIds : List Nat}
    {fHaveData : Bool} (hdata : fHaveData = true → addrIds ≠ []) :
    ∃ addrIds' fHaveData', buildAddrIndexLoop hash160 fuel pc addrIds fHaveData = some (addrIds', fHaveData') ∧
      (fHaveData' = true → addrIds' ≠ []) := by
  induction fuel generalizing pc addrIds fHaveData with
  | zero =>
    obtain rfl := List.length_eq_zero_iff.mp (Nat.le_zero.mp hfuel)
    exact ⟨addrIds, fHaveData, by rw [buildAddrIndexLoop], hdata⟩
  | succ fuel ih =>
    cases pc with
    | nil => exact ⟨addrIds, fHaveData, by rw [buildAddrIndexLoop], hdata⟩
    | cons op pc =>
      have hlt := CScript.getOp2_pc_lt op pc
      have hrest : (CScript.getOp2 (op :: pc)).pc.length ≤ fuel := by omega
      rw [buildAddrIndexLoop]
      split_ifs
      · exact ih hrest fun _ => by simp
      · exact ih hrest hdata

theorem buildAddrIndex_isSome (script : CScript) : ∃ addrIds, buildAddrIndex hash160 script = some addrIds ∧
    addrIds ≠ [] := by
  obtain ⟨addrIds, fHaveData, hloop, hdata⟩ :=
      @buildAddrIndexLoop_total hash160 script.length script le_rfl [] false
    fun h => (by cases h)
  rw [buildAddrIndex, hloop]
  cases fHaveData with
  | false => exact ⟨addrIds ++ [hash160 script], rfl, by simp⟩
  | true =>
    have hpos : 0 < addrIds.length := List.length_pos_iff.mpr (hdata rfl)
    exact ⟨addrIds, by simp [hpos], hdata rfl⟩

/-! ### What is in the index -/

namespace CTxDB

variable {a b c : CTxDB} {W : DbKey → Prop}

/-- The hashes under an id. -/
def listed (txdb : CTxDB) (id : Nat) : List Uint256 := (txdb.readAddrIndex id).getD []

theorem readAddrIndex_write (txdb : CTxDB) (addrHash : Nat) (txHashes : List Uint256) (id : Nat) :
    (txdb.write (.adr addrHash) (.hashes txHashes)).readAddrIndex id =
      if id = addrHash then some txHashes else txdb.readAddrIndex id := by
  rw [readAddrIndex, readAddrIndex, read_eq_view, read_eq_view, view_write]
  by_cases hid : id = addrHash
  · rw [hid, Function.update_self, if_pos rfl]
  · rw [Function.update_of_ne (by simpa using hid), if_neg hid]

theorem listed_writeAddrIndex (txdb : CTxDB) (addrHash : Nat) (txHash : Uint256) (id : Nat) :
    (txdb.writeAddrIndex addrHash txHash).listed id =
      if id = addrHash ∧ txHash ∉ txdb.listed id then txdb.listed id ++ [txHash] else txdb.listed id := by
  unfold writeAddrIndex
  by_cases hid : id = addrHash
  · subst hid
    cases hread : txdb.readAddrIndex id with
    | none => simp [listed, hread, readAddrIndex_write]
    | some txHashes =>
      by_cases hmem : txHash ∈ txHashes
      · simp [listed, hread, hmem]
      · simp [listed, hread, hmem, readAddrIndex_write]
  · rw [if_neg (not_and_of_not_left _ hid)]
    split
    · rw [listed, readAddrIndex_write, if_neg hid, listed]
    · split_ifs
      · rfl
      · rw [listed, readAddrIndex_write, if_neg hid, listed]

theorem Frame.listed_eq (h : Frame W a b) (hW : ∀ id, ¬ W (.adr id)) (id : Nat) : b.listed id = a.listed id := by
  rw [listed, listed, readAddrIndex, readAddrIndex, read_eq_view, read_eq_view, h.view_eq _ (hW id)]

/-- From `a` to `b` the hashes `R` have been put into the index. -/
structure Adds (R : Nat → Uint256 → Prop) (a b : CTxDB) : Prop where
  mem_iff : ∀ id h, h ∈ b.listed id ↔ h ∈ a.listed id ∨ R id h
  nodup : ∀ id, (a.listed id).Nodup → (b.listed id).Nodup

variable {R S : Nat → Uint256 → Prop}

theorem Adds.refl (a : CTxDB) : Adds (fun _ _ => False) a a := ⟨fun _ _ => by simp, fun _ h => h⟩

theorem Adds.trans (hab : Adds R a b) (hbc : Adds S b c) : Adds (fun id h => R id h ∨ S id h) a c :=
  ⟨fun id h => by rw [hbc.mem_iff, hab.mem_iff, or_assoc], fun id h => hbc.nodup id (hab.nodup id h)⟩

theorem Adds.congr (h : Adds R a b) (hRS : ∀ id h, R id h ↔ S id h) : Adds S a b :=
  ⟨fun id h' => by rw [h.mem_iff, hRS], h.nodup⟩

theorem Adds.congr_listed {a' b' : CTxDB} (h : Adds R a b) (ha : ∀ id, a.listed id = a'.listed id)
    (hb : ∀ id, b.listed id = b'.listed id) : Adds R a' b' :=
  ⟨fun id h' => by rw [← ha, ← hb, h.mem_iff], fun id hnodup => hb id ▸ h.nodup id (ha id ▸ hnodup)⟩

theorem adds_writeAddrIndex (txdb : CTxDB) (addrHash : Nat) (txHash : Uint256) :
    Adds (fun id h => id = addrHash ∧ h = txHash) txdb (txdb.writeAddrIndex addrHash txHash) := by
  constructor
  case mem_iff =>
    intro id h
    rw [listed_writeAddrIndex]
    split_ifs with hnew
    · simp [hnew.1]
    · constructor
      · exact Or.inl
      · rintro (hold | ⟨rfl, rfl⟩)
        · exact hold
        · by_contra hout
          exact hnew ⟨rfl, hout⟩
  case nodup =>
    intro id hnodup
    rw [listed_writeAddrIndex]
    split_ifs with hnew
    · rw [← List.concat_eq_append]
      exact hnodup.concat hnew.2
    · exact hnodup

theorem adds_foldl {α : Type} {f : CTxDB → α → CTxDB} {R : α → Nat → Uint256 → Prop}
    (hf : ∀ db x, Adds (R x) db (f db x)) (xs : List α) (a : CTxDB) :
    Adds (fun id h => ∃ x ∈ xs, R x id h) a (xs.foldl f a) := by
  induction xs generalizing a with
  | nil => exact (Adds.refl a).congr fun id h => by simp
  | cons x xs ih => exact ((hf a x).trans (ih (f a x))).congr fun id h => by simp

end CTxDB

/-! ### The ids of a transaction -/

/-- The script yields the id. -/
def Env.Yields (env : Env) (script : CScript) (id : Nat) : Prop :=
  ∃ addrIds, env.buildAddrIndex script = some addrIds ∧ id ∈ addrIds

/-- The transaction has an output whose script yields the id. -/
def PaysTo (env : Env) (tx : CTransaction) (id : Nat) : Prop := ∃ txout ∈ tx.vout, env.Yields txout.scriptPubKey id

/-- `prev` is the transaction whose output `o` is spent. -/
structure IsSpentFrom (env : Env) (T : Set CTransaction) (tx : CTransaction) (o : COutPoint) (prev : CTransaction) :
    Prop where
  notCoinBase : tx.isCoinBase = false
  mem_prevouts : o ∈ tx.prevouts
  mem : prev ∈ T
  hash : env.getHash prev = o.hash

section

variable (env : Env) (T : Set CTransaction) (tx : CTransaction) (id : Nat)

/-- The transaction spends an output whose script yields the id. -/
def SpendsFrom : Prop :=
  ∃ o prev txout, IsSpentFrom env T tx o prev ∧ prev.vout[o.n]? = some txout ∧ env.Yields txout.scriptPubKey id

/-- A previous transaction has an output whose script yields the id, spent or not. -/
def PrevPaysTo : Prop :=
  ∃ o prev, IsSpentFrom env T tx o prev ∧ PaysTo env prev id

/-- The transaction has or spends an output whose script yields the id. -/
def Touches : Prop :=
  PaysTo env tx id ∨ SpendsFrom env T tx id

end

theorem SpendsFrom.prevPaysTo {tx : CTransaction} {id : Nat} (h : SpendsFrom env T tx id) : PrevPaysTo env T tx id := by
  obtain ⟨o, prev, txout, hprev, hget, hyields⟩ := h
  exact ⟨o, prev, hprev, txout, List.mem_of_getElem? hget, hyields⟩

section Serialized

variable {tx tx' : CTransaction} {id : Nat}

section

variable (h : tx.serialized = tx'.serialized)

include h

theorem scriptPubKey_congr :
    tx.vout.map CTxOut.scriptPubKey = tx'.vout.map CTxOut.scriptPubKey := by
  have hmap := congrArg (fun tx : CTransaction => tx.vout.map CTxOut.scriptPubKey) h
  simp only [CTransaction.serialized, List.map_map] at hmap
  exact hmap

theorem paysTo_congr : PaysTo env tx id ↔ PaysTo env tx' id := by
  have hiff (tx : CTransaction) :
      PaysTo env tx id ↔ ∃ script ∈ tx.vout.map CTxOut.scriptPubKey, env.Yields script id := by
    simp [PaysTo]
  rw [hiff, hiff, scriptPubKey_congr h]

theorem isSpentFrom_congr {o : COutPoint} {prev : CTransaction} :
    IsSpentFrom env T tx o prev ↔ IsSpentFrom env T tx' o prev := by
  have hcb := CTransaction.isCoinBase_congr h
  have hprevouts : tx.prevouts = tx'.prevouts := by
    rw [prevouts, prevouts, (CTransaction.serialized_inj h).1]
  constructor
  · rintro ⟨hcb', hmem, hT, hhash⟩
    exact ⟨hcb ▸ hcb', hprevouts ▸ hmem, hT, hhash⟩
  · rintro ⟨hcb', hmem, hT, hhash⟩
    exact ⟨hcb ▸ hcb', hprevouts ▸ hmem, hT, hhash⟩

theorem touches_congr : Touches env T tx id ↔ Touches env T tx' id := by
  simp only [Touches, SpendsFrom, paysTo_congr h, isSpentFrom_congr h]

end

end Serialized

/-! ### Connecting a block -/

section Connect

variable {pool : CTxMemPool} {txdb txdb' : CTxDB} {tx : CTransaction}

/-- The entries of the transaction index lead to transactions of `T` with their hashes. -/
def IndexSound (env : Env) (T : Set CTransaction) (pool : CTxMemPool) (M : TxIndexMap) : Prop :=
  ∀ k txindex prev, M k = some txindex → loadPrev env pool k txindex = some prev →
    prev ∈ T ∧ env.getHash prev = k

theorem fetchInputs_keys {inputs : MapPrevTx} (h : fetchInputs env txdb pool ∅ true false tx = .ok inputs)
    {k : Uint256}
    {prev : CTxIndex × CTransaction} (hk : inputs.lookup k = some prev) : ∃ o ∈ tx.prevouts, o.hash = k := by
  unfold fetchInputs at h
  split_ifs at h
  · obtain rfl := Except.ok.inj h
    simp at hk
  simp only [exceptBind_ok] at h
  obtain ⟨inputs', hfold, h⟩ := h
  split_ifs at h
  obtain rfl : inputs' = inputs := Except.ok.inj h
  refine Loop.foldlM_inv (fun done (inputs : MapPrevTx) => ∀ k prev, inputs.lookup k = some prev →
    ∃ o ∈ done, o.hash = k) hfold (by simp) ?_ k prev hk
  intro done o _ st st' _ hst hstep k prev hk
  obtain ⟨-, rfl⟩ | ⟨prev', rfl, -⟩ := fetchInput_ok hstep
  · obtain ⟨o', ho', hhash⟩ := hst k prev hk
    exact ⟨o', List.mem_append_left _ ho', hhash⟩
  · by_cases hko : k = o.hash
    · exact ⟨o, by simp, hko.symm⟩
    · rw [AList.lookup_insert_ne hko] at hk
      obtain ⟨o', ho', hhash⟩ := hst k prev hk
      exact ⟨o', List.mem_append_left _ ho', hhash⟩

theorem adds_writeAddrs (hashTx : Uint256) (txdb : CTxDB) (txout : CTxOut) :
    CTxDB.Adds (fun id h => env.Yields txout.scriptPubKey id ∧ h = hashTx) txdb
      (writeAddrs env hashTx txdb txout) := by
  unfold writeAddrs
  cases hbuild : env.buildAddrIndex txout.scriptPubKey with
  | none => exact (CTxDB.Adds.refl txdb).congr fun id h => by simp [Env.Yields, hbuild]
  | some addrIds =>
    refine (CTxDB.adds_foldl (fun db addrId => CTxDB.adds_writeAddrIndex db addrId hashTx) addrIds txdb).congr
      fun id h => ?_
    simp [Env.Yields, hbuild]

theorem adds_vout (hashTx : Uint256) (txdb : CTxDB) (tx : CTransaction) :
    CTxDB.Adds (fun id h => PaysTo env tx id ∧ h = hashTx) txdb (tx.vout.foldl (writeAddrs env hashTx) txdb) :=
  (CTxDB.adds_foldl (adds_writeAddrs hashTx) tx.vout txdb).congr fun id h => by
    simp only [PaysTo]
    tauto

/-- The outputs of the fetched transactions are those of the previous transactions. -/
theorem exists_entry_iff {inputs : MapPrevTx} (hcb : tx.isCoinBase = false)
    (h : fetchInputs env txdb pool ∅ true false tx = .ok inputs) (hsound : IndexSound env T pool txdb.txIndexMap)
    (hcoll : NoCollision env.getHash T) (id : Nat) :
    (∃ e ∈ inputs.entries, PaysTo env e.2.2 id) ↔ PrevPaysTo env T tx id := by
  obtain ⟨hprev, hfound⟩ := fetchInputs_ok hcb h
  have hloaded (k : Uint256) (prev : CTxIndex × CTransaction) (hk : inputs.lookup k = some prev) :
      prev.2 ∈ T ∧ env.getHash prev.2 = k := by
    rcases hprev k prev hk with ⟨hfind, hload⟩ | ⟨-, hblock, -⟩
    · rw [findTxIndex_block, overlay_empty] at hfind
      exact hsound k prev.1 prev.2 hfind hload
    · cases hblock
  constructor
  · rintro ⟨⟨k, prev⟩, he, hpays⟩
    have hk : inputs.lookup k = some prev := List.mem_dlookup inputs.nodupKeys he
    obtain ⟨o, ho, rfl⟩ := fetchInputs_keys h hk
    obtain ⟨hT, hhash⟩ := hloaded _ prev hk
    exact ⟨o, prev.2, ⟨hcb, ho, hT, hhash⟩, hpays⟩
  · rintro ⟨o, prev, hspent, hpays⟩
    obtain ⟨txindex, txPrev, hk, -, -⟩ := hfound o hspent.mem_prevouts
    obtain ⟨hT, hhash⟩ := hloaded _ _ hk
    have hser := hcoll txPrev hT prev hspent.mem (hhash.trans hspent.hash.symm)
    exact ⟨⟨o.hash, txindex, txPrev⟩, List.of_mem_dlookup hk, (paysTo_congr hser).mpr hpays⟩

theorem adds_writeAddrIndexTx (hsound : IndexSound env T pool txdb.txIndexMap)
    (hcoll : NoCollision env.getHash T) (h : writeAddrIndexTx env pool txdb tx = .ok txdb') :
    CTxDB.Adds (fun id h => (PaysTo env tx id ∨ PrevPaysTo env T tx id) ∧ h = env.getHash tx) txdb txdb' := by
  unfold writeAddrIndexTx at h
  by_cases hcb : tx.isCoinBase = true
  · simp only [hcb, if_true] at h
    obtain rfl := Except.ok.inj h
    refine (adds_vout (env.getHash tx) txdb tx).congr fun id h => ?_
    have hno : ¬ PrevPaysTo env T tx id := by
      rintro ⟨o, prev, hspent, -⟩
      rw [hspent.notCoinBase] at hcb
      cases hcb
    simp only [hno, or_false]
  · simp only [hcb, Bool.false_eq_true, if_false] at h
    cases hfetch : fetchInputs env txdb pool ∅ true false tx with
    | error r =>
      rw [hfetch] at h
      cases h
    | ok inputs =>
      rw [hfetch] at h
      obtain rfl := Except.ok.inj h
      have hin := CTxDB.adds_foldl (f := fun db (e : Sigma fun _ : Uint256 => CTxIndex × CTransaction) =>
        e.2.2.vout.foldl (writeAddrs env (env.getHash tx)) db)
        (fun db e => adds_vout (env.getHash tx) db e.2.2) inputs.entries txdb
      refine (hin.trans (adds_vout (env.getHash tx) _ tx)).congr fun id h => ?_
      rw [← exists_entry_iff (by simpa using hcb) hfetch hsound hcoll id]
      constructor
      · rintro (⟨e, he, hpays, rfl⟩ | ⟨hpays, rfl⟩)
        · exact ⟨Or.inr ⟨e, he, hpays⟩, rfl⟩
        · exact ⟨Or.inl hpays, rfl⟩
      · rintro ⟨hpays | ⟨e, he, hpays⟩, rfl⟩
        · exact Or.inr ⟨hpays, rfl⟩
        · exact Or.inl ⟨e, he, hpays, rfl⟩

theorem adds_foldlM_writeAddrIndexTx {vtx : List CTransaction} (hsound : IndexSound env T pool txdb.txIndexMap)
    (hcoll : NoCollision env.getHash T) (h : vtx.foldlM (writeAddrIndexTx env pool) txdb = .ok txdb') :
    CTxDB.Adds (fun id h => ∃ tx ∈ vtx, (PaysTo env tx id ∨ PrevPaysTo env T tx id) ∧ h = env.getHash tx)
      txdb txdb' := by
  induction vtx generalizing txdb with
  | nil =>
    obtain rfl := Except.ok.inj h
    exact (CTxDB.Adds.refl txdb).congr fun id h => by simp
  | cons tx vtx ih =>
    rw [List.foldlM_cons] at h
    cases hx : writeAddrIndexTx env pool txdb tx with
    | error e =>
      rw [hx] at h
      cases h
    | ok db =>
      rw [hx] at h
      have hframe := @frame_writeAddrIndexTx env pool txdb tx
      rw [hx, dbOf] at hframe
      have hmap : db.txIndexMap = txdb.txIndexMap := hframe.txIndexMap_eq (by rintro hash ⟨_, hc⟩; cases hc)
      have hrest := ih (hmap ▸ hsound) h
      exact ((adds_writeAddrIndexTx hsound hcoll hx).trans hrest).congr fun id h => by simp

/-- What `ConnectBlock` adds to the index. -/
theorem adds_connectBlock {ctx : Ctx} {node node' : Node} {block : CBlock} {pindex : CBlockIndex}
    (haddr : env.fAddrIndex = true) (hcoll : NoCollision env.getHash T)
    (hsound : IndexSound env T node.mempool node'.txdb.txIndexMap)
    (h : connectBlock env ctx node block pindex = .ok node') :
    CTxDB.Adds (fun id h => ∃ tx ∈ block.vtx, (PaysTo env tx id ∨ PrevPaysTo env T tx id) ∧ h = env.getHash tx)
      node.txdb node'.txdb := by
  unfold connectBlock at h
  split at h
  · cases h
  next st hchecks =>
  rw [connectWrites_eq] at h
  simp only at h
  split at h
  · cases h
  next txdb heq =>
  obtain rfl := Except.ok.inj h
  have hwritten := frame_writtenAddrs env node block
    (writtenQueued node (recordSupply node.mapBlockIndex pindex st) st)
  rw [heq, dbOf] at hwritten
  rw [writtenAddrs, if_pos haddr] at heq
  have hnext := frame_writeHashNext { node with
    mapBlockIndex := Function.update node.mapBlockIndex (recordSupply node.mapBlockIndex pindex st).hashBlock
      (some (recordSupply node.mapBlockIndex pindex st)) }
    txdb (recordSupply node.mapBlockIndex pindex st) (recordSupply node.mapBlockIndex pindex st).hashBlock
  have hmap := (hnext.txIndexMap_eq (by rintro hash ⟨_, hc⟩; cases hc)).trans
    (hwritten.txIndexMap_eq (by rintro hash ⟨_, hc⟩; cases hc))
  -- the other writes do not touch the address index
  refine (adds_foldlM_writeAddrIndexTx (hmap ▸ hsound) hcoll heq).congr_listed (fun id => ?_) fun id => ?_
  · rw [writtenQueued, (frame_writeQueued _ _).listed_eq (by rintro id ⟨_, hc⟩; cases hc),
      (CTxDB.frame_writeBlockIndex _).listed_eq (by rintro id ⟨_, hc⟩; cases hc)]
  · exact (hnext.listed_eq (by rintro id ⟨_, hc⟩; cases hc) id).symm

end Connect

theorem listed_disconnectBlock {node node' : Node} {block : CBlock} {pindex : CBlockIndex}
    (h : disconnectBlock env node block pindex = .ok node') (id : Nat) :
    node'.txdb.listed id = node.txdb.listed id := by
  have hloop := frame_foldlM (frame_disconnectInputs env) block.vtx.reverse node.txdb
  unfold disconnectBlock at h
  cases hfold : block.vtx.reverse.foldlM (disconnectInputs env) node.txdb with
  | error e =>
    rw [hfold] at h
    cases h
  | ok db =>
    rw [hfold] at h hloop
    obtain rfl := Except.ok.inj h
    exact ((frame_writeHashNext _ _ _ _).listed_eq (by rintro id ⟨_, hc⟩; cases hc) id).trans
      (hloop.listed_eq (by rintro id ⟨_, hc⟩; cases hc) id)

theorem ChainCore.indexSound {genesis : Uint256} {s : ChainState} (hcore : ChainCore env T genesis s)
    (hcoll : NoCollision env.getHash T) (pool : CTxMemPool) :
    IndexSound env T pool s.node.txdb.txIndexMap := by
  intro k txindex prev hk hload
  have hspec := hcore.ledger.spec hcoll hcore.mem
  rw [hcore.index] at hk
  obtain ⟨x, hx, rfl⟩ : ∃ x ∈ chainTxs s.chain, k = env.getHash x.tx := by
    by_contra hno
    rw [(hspec.none_iff k).mpr fun x hx heq => hno ⟨x, hx, heq⟩] at hk
    cases hk
  obtain ⟨txindex', hentry, hpos, -⟩ := hspec.entry x hx
  obtain rfl := Option.some.inj (hk.symm.trans hentry)
  obtain ⟨_, hfollow⟩ := hcore.ledger.forall_canFollow hx
  rw [loadPrev, hpos, if_neg hfollow.pos_ne, hfollow.onDisk] at hload
  rw [← Option.some.inj hload]
  exact ⟨hcore.mem x hx, rfl⟩

/-! ### Runs -/

/-- What happens to the main chain. -/
inductive AddrEvent where
  | connect (block : CBlock)
  | disconnect (block : CBlock)
  | other

/-- A step, as in `ChainStep`; what else happens does not write the address index. -/
inductive AddrStep (env : Env) (T : Set CTransaction) (genesis : Uint256) :
    ChainState → AddrEvent → ChainState → Prop
  | connect {s : ChainState} {ctx : Ctx} {block : CBlock} {pindex : CBlockIndex} {node' : Node}
      (hentry : s.node.mapBlockIndex pindex.hashBlock = some pindex)
      (htip : pindex.pprev = some (tipOf genesis s.chain)) (hread : env.readBlockFromDisk pindex = .ok block)
      (hconn : connectBlock env ctx s.node block pindex = .ok node') :
      AddrStep env T genesis s (.connect block) ⟨node', s.chain ++ [⟨block, pindex⟩]⟩
  | disconnect {node node' : Node} {chain : List ChainBlock} {b : ChainBlock} {block : CBlock} {pindex : CBlockIndex}
      (hentry : node.mapBlockIndex b.pindex.hashBlock = some pindex) (hread : env.readBlockFromDisk pindex = .ok block)
      (hdis : disconnectBlock env node block pindex = .ok node') :
      AddrStep env T genesis ⟨node, chain ++ [b]⟩ (.disconnect b.block) ⟨node', chain⟩
  | other {s : ChainState} {node' : Node} (hstep : ChainStep env T genesis s { s with node := node' })
      (haddr : node'.txdb.readAddrIndex = s.node.txdb.readAddrIndex) :
      AddrStep env T genesis s .other { s with node := node' }

/-- A run, with the state after each step. -/
def AddrRun (env : Env) (T : Set CTransaction) (genesis : Uint256) :
    ChainState → List (AddrEvent × ChainState) → Prop
  | _, [] => True
  | s, (e, s') :: run => AddrStep env T genesis s e s' ∧ AddrRun env T genesis s' run

/-- `ReadAddrIndex` lists the transactions of the main chain that touch the id, each once; `genesisTxs` are those of the
genesis block, `T` those of all blocks. -/
structure IndexCorrect (env : Env) (T : Set CTransaction) (genesisTxs : List CTransaction) (s : ChainState) (id : Nat) :
    Prop where
  nodup : (s.node.txdb.listed id).Nodup
  mem_iff : ∀ h, h ∈ s.node.txdb.listed id ↔
    ∃ tx ∈ genesisTxs ++ (chainTxs s.chain).map Placed.tx, Touches env T tx id ∧ env.getHash tx = h

/-- The step keeps the index right for the id. -/
def AddrEvent.Keeps (env : Env) (T : Set CTransaction) (id : Nat) : AddrEvent → Prop
  | .connect block => ∀ tx ∈ block.vtx, PrevPaysTo env T tx id → Touches env T tx id
  | .disconnect block => ∀ tx ∈ block.vtx, ¬ Touches env T tx id
  | .other => True

section Run

variable {genesis : Uint256} {genesisTxs : List CTransaction} {s s' : ChainState} {e : AddrEvent} {id : Nat}

theorem AddrStep.chainStep (h : AddrStep env T genesis s e s') : ChainStep env T genesis s s' := by
  cases h with
  | connect hentry htip hread hconn => exact .connect hentry htip hread hconn
  | disconnect hentry hread hdis => exact .disconnect hentry hread hdis
  | other hstep => exact hstep

theorem map_tx_chainTxs_append (chain : List ChainBlock) (b : ChainBlock) :
    (chainTxs (chain ++ [b])).map Placed.tx = (chainTxs chain).map Placed.tx ++ b.block.vtx := by
  rw [chainTxs_append, List.map_append, ChainBlock.txs, map_tx_placeTxs]

section

variable (haddr : env.fAddrIndex = true) (hcoll : NoCollision env.getHash T)

include haddr hcoll

theorem IndexCorrect.step
    (hinv' : ChainInv env T genesis s') (hcorrect : IndexCorrect env T genesisTxs s id)
    (hstep : AddrStep env T genesis s e s') (hkeeps : e.Keeps env T id) : IndexCorrect env T genesisTxs s' id := by
  cases hstep with
  | connect hentry htip hread hconn =>
    have hadds := adds_connectBlock haddr hcoll (hinv'.core.indexSound hcoll _) hconn
    refine ⟨hadds.nodup id hcorrect.nodup, fun h => ?_⟩
    have htouches : ∀ tx ∈ _, (PaysTo env tx id ∨ PrevPaysTo env T tx id) ↔ Touches env T tx id := fun tx htx =>
      ⟨fun hadded => hadded.elim Or.inl (hkeeps tx htx), fun htouches => htouches.imp_right SpendsFrom.prevPaysTo⟩
    rw [hadds.mem_iff, hcorrect.mem_iff, map_tx_chainTxs_append, ← List.append_assoc]
    constructor
    · rintro (⟨tx, htx, hmem⟩ | ⟨tx, htx, hadded, rfl⟩)
      · exact ⟨tx, List.mem_append_left _ htx, hmem⟩
      · exact ⟨tx, List.mem_append_right _ htx, (htouches tx htx).mp hadded, rfl⟩
    · rintro ⟨tx, htx, hmem, rfl⟩
      rcases List.mem_append.mp htx with htx | htx
      · exact Or.inl ⟨tx, htx, hmem, rfl⟩
      · exact Or.inr ⟨tx, htx, (htouches tx htx).mpr hmem, rfl⟩
  | disconnect hentry hread hdis =>
    obtain ⟨hnodup, hmem_iff⟩ := hcorrect
    simp only [← listed_disconnectBlock hdis] at hnodup hmem_iff
    refine ⟨hnodup, fun h => ?_⟩
    rw [hmem_iff, map_tx_chainTxs_append, ← List.append_assoc]
    constructor
    · rintro ⟨tx, htx, htouches, rfl⟩
      rcases List.mem_append.mp htx with htx | htx
      · exact ⟨tx, htx, htouches, rfl⟩
      · exact absurd htouches (hkeeps tx htx)
    · rintro ⟨tx, htx, hmem⟩
      exact ⟨tx, List.mem_append_left _ htx, hmem⟩
  | @other _ node' hstep haddr =>
    have hlisted (id : Nat) : node'.txdb.listed id = s.node.txdb.listed id := by rw [CTxDB.listed, haddr, CTxDB.listed]
    obtain ⟨hnodup, hmem_iff⟩ := hcorrect
    simp only [← hlisted] at hnodup hmem_iff
    exact ⟨hnodup, hmem_iff⟩

/-- The index is wrong after any other step. -/
theorem IndexCorrect.not_step
    (hinv : ChainInv env T genesis s) (hinv' : ChainInv env T genesis s')
    (hcorrect : IndexCorrect env T genesisTxs s id)
    (hgenesis : ∀ tx ∈ genesisTxs, ¬ Touches env T tx id) (hstep : AddrStep env T genesis s e s')
    (hkeeps : ¬ e.Keeps env T id) : ¬ IndexCorrect env T genesisTxs s' id := by
  intro hcorrect'
  cases hstep with
  | @connect _ _ block pindex _ hentry htip hread hconn =>
    have hadds := adds_connectBlock haddr hcoll (hinv'.core.indexSound hcoll _) hconn
    simp only [AddrEvent.Keeps, not_forall] at hkeeps
    obtain ⟨tx, htx, hprev, hout⟩ := hkeeps
    obtain ⟨tx', htx', htouches, hhash⟩ := (hcorrect'.mem_iff _).mp
      ((hadds.mem_iff id _).mpr (Or.inr ⟨tx, htx, Or.inr hprev, rfl⟩))
    rcases List.mem_append.mp htx' with hg | hchain
    · exact hgenesis tx' hg htouches
    · obtain ⟨x, hx, rfl⟩ := List.mem_map.mp hchain
      have htx'' : tx ∈ (chainTxs (s.chain ++ [⟨block, pindex⟩])).map Placed.tx := by
        rw [map_tx_chainTxs_append]
        exact List.mem_append_right _ htx
      obtain ⟨y, hy, rfl⟩ := List.mem_map.mp htx''
      exact hout ((touches_congr (hcoll _ (hinv'.core.mem x hx) _ (hinv'.core.mem y hy) hhash)).mp htouches)
  | @disconnect _ _ chain b _ _ hentry hread hdis =>
    simp only [AddrEvent.Keeps, not_forall, not_not] at hkeeps
    obtain ⟨tx, htx, htouches⟩ := hkeeps
    have hlisted := (hcorrect.mem_iff (env.getHash tx)).mpr ⟨tx, by
      rw [map_tx_chainTxs_append]
      simp [htx], htouches, rfl⟩
    rw [← listed_disconnectBlock hdis, hcorrect'.mem_iff] at hlisted
    obtain ⟨tx', htx', htouches', hhash⟩ := hlisted
    rcases List.mem_append.mp htx' with hg | hchain
    · exact hgenesis tx' hg htouches'
    · -- no two transactions of the chain share a hash
      have hnodup := (hinv.core.ledger.spec hcoll hinv.core.mem).nodup
      have hmap : (chainTxs (chain ++ [b])).map (fun x => env.getHash x.tx) =
          ((chainTxs chain).map Placed.tx).map env.getHash ++ b.block.vtx.map env.getHash := by
        rw [← List.map_append, ← map_tx_chainTxs_append, List.map_map]
        rfl
      rw [hmap, List.nodup_append] at hnodup
      exact hnodup.2.2 _ (List.mem_map_of_mem hchain) _ (List.mem_map_of_mem htx) hhash
  | other => exact hkeeps trivial

theorem AddrRun.correct_iff
    (hgenesis : ∀ tx ∈ genesisTxs, ¬ Touches env T tx id) {run : List (AddrEvent × ChainState)}
    (hrun : AddrRun env T genesis s run) (hinv : ChainInv env T genesis s)
    (hcorrect : IndexCorrect env T genesisTxs s id) :
    (∀ s' ∈ run.map Prod.snd, IndexCorrect env T genesisTxs s' id) ↔
      ∀ e ∈ run.map Prod.fst, e.Keeps env T id := by
  induction run generalizing s with
  | nil => simp
  | cons p run ih =>
    obtain ⟨e, s'⟩ := p
    obtain ⟨hstep, hrun⟩ := hrun
    have hinv' := chainStep_inv hinv hcoll hstep.chainStep
    rw [List.map_cons, List.map_cons, List.forall_mem_cons, List.forall_mem_cons]
    constructor
    · rintro ⟨hcorrect', hrest⟩
      refine ⟨?_, (ih hrun hinv' hcorrect').mp hrest⟩
      by_contra hkeeps
      exact hcorrect.not_step haddr hcoll hinv hinv' hgenesis hstep hkeeps hcorrect'
    · rintro ⟨hkeeps, hrest⟩
      have hcorrect' := hcorrect.step haddr hcoll hinv' hstep hkeeps
      exact ⟨hcorrect', (ih hrun hinv' hcorrect').mpr hrest⟩

end

end Run

/-- **The address index.**  `BuildAddrIndex` ends for every script.  The index is right for an id in
every state of a run exactly when the genesis block does not touch the id, every transaction that is
connected touches it if a previous transaction pays to it, and no transaction that is disconnected touches it. -/
theorem addrIndex_correct_iff {genesis : Uint256} {node : Node} (genesisTxs : List CTransaction)
    {run : List (AddrEvent × ChainState)} (hstart : AtGenesis genesis node)
    (hempty : ∀ id, node.txdb.readAddrIndex id = none) (hcoll : NoCollision env.getHash T)
    (hrun : AddrRun (env.withAddrIndex hash160) T genesis ⟨node, []⟩ run) :
    (∀ script, (buildAddrIndex hash160 script).isSome = true) ∧
      ∀ id, (∀ s ∈ ⟨node, []⟩ :: run.map Prod.snd,
        IndexCorrect (env.withAddrIndex hash160) T genesisTxs s id) ↔
        (∀ tx ∈ genesisTxs, ¬ Touches (env.withAddrIndex hash160) T tx id) ∧
          ∀ e ∈ run.map Prod.fst, e.Keeps (env.withAddrIndex hash160) T id := by
  refine ⟨fun script => ?_, fun id => ?_⟩
  · obtain ⟨addrIds, hbuild, -⟩ := @buildAddrIndex_isSome hash160 script
    rw [hbuild]
    rfl
  have hcoll' : NoCollision (env.withAddrIndex hash160).getHash T := hcoll
  have haddr : (env.withAddrIndex hash160).fAddrIndex = true := rfl
  have hlisted : node.txdb.listed id = [] := by
    rw [CTxDB.listed, hempty]
    rfl
  rw [List.forall_mem_cons]
  constructor
  · rintro ⟨hfirst, hrest⟩
    have hgenesis : ∀ tx ∈ genesisTxs, ¬ Touches (env.withAddrIndex hash160) T tx id := by
      intro tx htx htouches
      have hmem := (hfirst.mem_iff (env.getHash tx)).mpr ⟨tx, List.mem_append_left _ htx, htouches, rfl⟩
      rw [show (⟨node, []⟩ : ChainState).node.txdb.listed id = [] from hlisted] at hmem
      cases hmem
    exact ⟨hgenesis, (AddrRun.correct_iff haddr hcoll' hgenesis hrun (chainInv_genesis hstart) hfirst).mp hrest⟩
  · rintro ⟨hgenesis, hkeeps⟩
    have hfirst : IndexCorrect (env.withAddrIndex hash160) T genesisTxs ⟨node, []⟩ id := by
      refine ⟨by simp [hlisted], fun h => ?_⟩
      simp only [hlisted, List.not_mem_nil, false_iff]
      rintro ⟨tx, htx, htouches, -⟩
      rcases List.mem_append.mp htx with hg | hchain
      · exact hgenesis tx hg htouches
      · cases hchain
    exact ⟨hfirst, (AddrRun.correct_iff haddr hcoll' hgenesis hrun (chainInv_genesis hstart) hfirst).mpr hkeeps⟩

/-! ### Sample runs -/

def genesisTx : CTransaction :=
  { nTime := 0, vin := [⟨COutPoint.null, [0, 1, 42], uintMax⟩], vout := [⟨0, [], -10⟩] }

def addrEnv : Env := (sampleEnv [firstCoinbase]).withAddrIndex List.length

def acceptedState : ChainState := ⟨insertBlockIndex genesisNode firstIndex, []⟩

def connectedState : ChainState :=
  ⟨nodeOf (connectBlock addrEnv sampleCtx acceptedState.node (sampleBlock [firstCoinbase]) firstIndex),
    [⟨sampleBlock [firstCoinbase], firstIndex⟩]⟩

theorem addrStep_accepted : AddrStep addrEnv {firstCoinbase} 105 ⟨genesisNode, []⟩ .other acceptedState := by
  have hcheck : checkBlock addrEnv sampleCtx (genesisNode.pindexBest.bind genesisNode.mapBlockIndex)
      (sampleBlock [firstCoinbase]) true true true = .ok () := by decide
  have haccept : acceptBlockChecks addrEnv sampleCtx genesisNode (sampleBlock [firstCoinbase]) = .ok 120 := by
    decide
  have hentry : newBlockIndex addrEnv genesisNode (sampleBlock [firstCoinbase]) 2 8 120 = .ok firstIndex := by
    decide
  refine .other (.accept hcheck haccept rfl rfl hentry (by decide) (by simp [sampleBlock])) ?_
  funext id
  rfl

theorem addrStep_connected :
    AddrStep addrEnv {firstCoinbase} 105 acceptedState (.connect (sampleBlock [firstCoinbase])) connectedState := by
  obtain ⟨node', hconn⟩ : ∃ node', connectBlock addrEnv sampleCtx acceptedState.node (sampleBlock [firstCoinbase])
      firstIndex = .ok node' := exists_of_isOk (by decide)
  refine @AddrStep.connect _ _ _ acceptedState sampleCtx _ firstIndex _ (by decide) rfl (by decide) ?_
  rw [hconn]
  rfl

def connectedIndex : CBlockIndex := { firstIndex with nMint := 10000 * coin, nMoneySupply := 10000 * coin }

def disconnectedState : ChainState :=
  ⟨nodeOf (disconnectBlock addrEnv connectedState.node (sampleBlock [firstCoinbase]) connectedIndex), []⟩

theorem addrStep_disconnected :
    AddrStep addrEnv {firstCoinbase} 105 connectedState (.disconnect (sampleBlock [firstCoinbase]))
      disconnectedState := by
  obtain ⟨node', hdis⟩ : ∃ node', disconnectBlock addrEnv connectedState.node (sampleBlock [firstCoinbase])
      connectedIndex = .ok node' := exists_of_isOk (by decide)
  refine @AddrStep.disconnect _ _ _ connectedState.node _ [] ⟨sampleBlock [firstCoinbase], firstIndex⟩
    (sampleBlock [firstCoinbase]) connectedIndex (by decide) (by decide) ?_
  rw [hdis]
  rfl

theorem not_touches_genesisTx : ∀ tx ∈ [genesisTx], ¬ Touches addrEnv {firstCoinbase} tx 1 := by
  rintro tx htx
  rw [List.mem_singleton.mp htx]
  rintro (⟨txout, htxout, addrIds, hbuild, hmem⟩ | ⟨o, prev, txout, hspent, -⟩)
  · rw [List.mem_singleton.mp htxout, show addrEnv.buildAddrIndex [] = some [0] by decide, Option.some.injEq] at hbuild
    rw [← hbuild] at hmem
    revert hmem
    decide
  · exact absurd hspent.notCoinBase (by decide)

theorem touches_firstCoinbase : Touches addrEnv {firstCoinbase} firstCoinbase 1 :=
  Or.inl ⟨⟨10000 * coin, [1], -10⟩, List.mem_singleton_self _, [1], by decide, List.mem_singleton_self _⟩

/-- The block is accepted and connected. -/
theorem addrIndex_correct_first : IndexCorrect addrEnv {firstCoinbase} [genesisTx] ⟨genesisNode, []⟩ 1 ∧
    IndexCorrect addrEnv {firstCoinbase} [genesisTx] acceptedState 1 ∧
      IndexCorrect addrEnv {firstCoinbase} [genesisTx] connectedState 1 := by
  obtain ⟨-, hiff⟩ := @addrIndex_correct_iff (sampleEnv [firstCoinbase]) List.length {firstCoinbase} 105 genesisNode
    [genesisTx] [(.other, acceptedState), (.connect (sampleBlock [firstCoinbase]), connectedState)]
    atGenesis_genesisNode (fun _ => rfl) (noCollision_singleton _ firstCoinbase)
    ⟨addrStep_accepted, addrStep_connected, trivial⟩
  have hall := (hiff 1).mpr ⟨not_touches_genesisTx, ?_⟩
  · exact ⟨hall _ (by simp), hall _ (by simp), hall _ (by simp)⟩
  simp only [List.map_cons, List.map_nil, List.forall_mem_cons, List.not_mem_nil, false_implies, implies_true, and_true]
  refine ⟨trivial, fun tx htx hprev => ?_⟩
  rw [List.mem_singleton.mp htx]
  exact touches_firstCoinbase

/-- The block is disconnected again, and its transaction stays in the index. -/
theorem addrIndex_stale :
    AddrRun addrEnv {firstCoinbase} 105 ⟨genesisNode, []⟩
      [(.other, acceptedState), (.connect (sampleBlock [firstCoinbase]), connectedState),
        (.disconnect (sampleBlock [firstCoinbase]), disconnectedState)] ∧
      ¬ ∀ s ∈ [⟨genesisNode, []⟩, acceptedState, connectedState, disconnectedState],
        IndexCorrect addrEnv {firstCoinbase} [genesisTx] s 1 := by
  have hrun : AddrRun addrEnv {firstCoinbase} 105 ⟨genesisNode, []⟩
      [(.other, acceptedState), (.connect (sampleBlock [firstCoinbase]), connectedState),
        (.disconnect (sampleBlock [firstCoinbase]), disconnectedState)] :=
    ⟨addrStep_accepted, addrStep_connected, addrStep_disconnected, trivial⟩
  refine ⟨hrun, fun hall => ?_⟩
  obtain ⟨hfirst, hrest⟩ := List.forall_mem_cons.mp hall
  have hkeeps := (AddrRun.correct_iff rfl (noCollision_singleton _ firstCoinbase) not_touches_genesisTx hrun
    (chainInv_genesis atGenesis_genesisNode) hfirst).mp hrest (.disconnect (sampleBlock [firstCoinbase])) (by simp)
  exact hkeeps firstCoinbase (List.mem_singleton_self _) touches_firstCoinbase

end Sphinx
