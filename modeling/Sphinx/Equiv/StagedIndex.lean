import Sphinx.Equiv.TxIndex
import Sphinx.Equiv.TxMemPool

/-!
# The transactions of a block template on top of the chain

A template is made of pool transactions, which `mapTestPool` holds at the position `CDiskTxPos(1,1,1)`.

* `IndexedChain`: the transaction index is that of the chain;
* `StagedTxs`: what is known of the transactions that a template has so far, and of the index with them on top;
* `StagedTxs.append`: one more transaction;
* `StagedTxs.prev`: where the inputs of the next one come from.
-/

namespace Sphinx

variable {env : Env} {T : Set CTransaction} {pool : CTxMemPool} {chain : List Placed}
variable {tx : CTransaction} {done : List CTransaction}

/-- The transaction index is that of a chain. -/
structure IndexedChain (env : Env) (T : Set CTransaction) (txdb : CTxDB) (chain : List Placed) : Prop where
  ledger : Ledger env chain
  mem : ∀ x ∈ chain, x.tx ∈ T
  index : txdb.txIndexMap = ledgerIndex env chain

/-- The index with the transactions of a template on top. -/
def stagedIndex (env : Env) (M : TxIndexMap) (done : List CTransaction) : TxIndexMap :=
  done.foldl (fun M tx => connectMap env M tx .memoryPool) M

theorem stagedIndex_append (M : TxIndexMap) (done : List CTransaction) (tx : CTransaction) :
    stagedIndex env M (done ++ [tx]) = connectMap env (stagedIndex env M done) tx .memoryPool := by
  rw [stagedIndex, List.foldl_append]
  rfl

/-- `o` is an output of one of the transactions. -/
def OutputOf (env : Env) (txs : List CTransaction) (o : COutPoint) : Prop :=
  ∃ tx ∈ txs, env.getHash tx = o.hash ∧ o.n < tx.vout.length

/-- `o` is an output on the chain that no transaction of the chain spends. -/
structure UnspentOnChain (env : Env) (chain : List Placed) (o : COutPoint) : Prop where
  exists_output : OutputOf env (chain.map Placed.tx) o
  not_spent : ∀ y ∈ chain, y.tx.isCoinBase = false → o ∉ y.tx.prevouts

theorem unspentOnChain_of_isUnspent (hspec : LedgerSpec env chain) (hl : Ledger env chain) {o : COutPoint}
    (h : IsUnspent (ledgerIndex env chain) o) : UnspentOnChain env chain o := by
  refine ⟨?_, fun y hy hcb => not_mem_prevouts_of_unspent hspec hl hy hcb h⟩
  obtain ⟨txindex, hM, hn⟩ := h
  have hsome : ledgerIndex env chain o.hash ≠ none := by rw [hM]; exact Option.some_ne_none _
  rw [Ne, hspec.none_iff] at hsome
  push Not at hsome
  obtain ⟨x, hx, hhash⟩ := hsome
  obtain ⟨txindex', hM', -, hlen⟩ := hspec.entry x hx
  rw [← hhash, hM] at hM'
  obtain rfl := Option.some.inj hM'
  refine ⟨x.tx, List.mem_map_of_mem hx, hhash.symm, ?_⟩
  rw [← hlen]
  exact (List.getElem?_eq_some_iff.mp hn).1

/-! ### What is known of the template so far -/

/-- The transactions `done` of a template, with `M` the index that they are on top of. -/
structure StagedTxs (env : Env) (pool : CTxMemPool) (M : TxIndexMap) (done : List CTransaction) : Prop where
  inPool : ∀ tx ∈ done, pool.lookup (env.getHash tx) = some tx
  nodup : (done.map env.getHash).Nodup
  fresh : ∀ tx ∈ done, M (env.getHash tx) = none
  entry : ∀ tx ∈ done, (stagedIndex env M done (env.getHash tx)).map CTxIndex.pos = some .memoryPool
  other : ∀ h, (∀ tx ∈ done, env.getHash tx ≠ h) →
    (stagedIndex env M done h).map CTxIndex.pos = (M h).map CTxIndex.pos
  unspent : ∀ o, IsUnspent (stagedIndex env M done) o → IsUnspent M o ∨ OutputOf env done o

theorem staged_nil (env : Env) (pool : CTxMemPool) (M : TxIndexMap) : StagedTxs env pool M [] :=
  ⟨by simp, by simp, by simp, by simp, fun _ _ => rfl, fun _ h => .inl h⟩

/-- The outputs of the new transaction are unspent; of the others, those that it does not spend stay as they are. -/
theorem isUnspent_connectMap {M : TxIndexMap} {p : CDiskTxPos} (hp : p ≠ .null) {o : COutPoint}
    (h : IsUnspent (connectMap env M tx p) o) :
    (o.hash = env.getHash tx ∧ o.n < tx.vout.length) ∨ (o.hash ≠ env.getHash tx ∧ IsUnspent M o) := by
  by_cases hown : o.hash = env.getHash tx
  · obtain ⟨txindex, hM, hn⟩ := h
    rw [connectMap, hown, Function.update_self] at hM
    obtain rfl := Option.some.inj hM
    have hlt := (List.getElem?_eq_some_iff.mp hn).1
    rw [CTxIndex.mk', List.length_replicate] at hlt
    exact .inl ⟨hown, hlt⟩
  · have hspent := (spentAt_connectMap (q := .null) hown).mp h
    split_ifs at hspent with hmem
    · exact absurd hspent.1.symm hp
    · exact .inr ⟨hown, hspent⟩

theorem StagedTxs.append {M : TxIndexMap} (h : StagedTxs env pool M done)
    (hin : pool.lookup (env.getHash tx) = some tx) (hnew : env.getHash tx ∉ done.map env.getHash)
    (hfresh : M (env.getHash tx) = none) :
    StagedTxs env pool M (done ++ [tx]) := by
  -- the new hash differs from those before, so their entries stay
  have hne : ∀ x ∈ done, env.getHash x ≠ env.getHash tx := fun x hx heq =>
    hnew (heq ▸ List.mem_map_of_mem hx)
  refine ⟨?_, ?_, ?_, ?_, fun k hk => ?_, fun o ho => ?_⟩
  · intro x hx
    rcases List.mem_append.mp hx with hx | hx
    · exact h.inPool x hx
    · rw [List.mem_singleton.mp hx]
      exact hin
  · rw [List.map_append, List.map_singleton, List.nodup_append]
    refine ⟨h.nodup, by simp, fun k hk k' hk' heq => ?_⟩
    rw [List.mem_singleton.mp hk'] at heq
    exact hnew (heq ▸ hk)
  · intro x hx
    rcases List.mem_append.mp hx with hx | hx
    · exact h.fresh x hx
    · rw [List.mem_singleton.mp hx]
      exact hfresh
  · intro x hx
    rw [stagedIndex_append]
    rcases List.mem_append.mp hx with hx | hx
    · rw [connectMap_pos_of_ne (hne x hx)]
      exact h.entry x hx
    · rw [List.mem_singleton.mp hx, connectMap, Function.update_self]
      rfl
  · rw [stagedIndex_append, connectMap_pos_of_ne (hk tx (by simp)).symm]
    exact h.other k fun x hx => hk x (List.mem_append_left _ hx)
  · rw [stagedIndex_append] at ho
    rcases isUnspent_connectMap (by simp [CDiskTxPos.memoryPool]) ho with ⟨hown, hlt⟩ | ⟨-, hbefore⟩
    · exact .inr ⟨tx, by simp, hown.symm, hlt⟩
    · refine (h.unspent o hbefore).imp id ?_
      rintro ⟨x, hx, hhash⟩
      exact ⟨x, List.mem_append_left _ hx, hhash⟩

/-- A transaction whose inputs are unspent is not on the chain. -/
theorem StagedTxs.fresh_of_unspent {txdb : CTxDB} (hchain : IndexedChain env T txdb chain)
    (hcoll : CTransaction.NoCollision env.getHash T) (htx : tx ∈ T) (hcb : tx.isCoinBase = false)
    (h : StagedTxs env pool (ledgerIndex env chain) done)
    (hunspent : ∀ o ∈ tx.prevouts, IsUnspent (stagedIndex env (ledgerIndex env chain) done) o) :
    ledgerIndex env chain (env.getHash tx) = none := by
  have hspec := hchain.ledger.spec hcoll hchain.mem
  rw [hspec.none_iff]
  intro y hy heq
  have hser := hcoll tx htx y.tx (hchain.mem y hy) heq
  obtain ⟨hvin, -⟩ := CTransaction.serialized_inj hser
  obtain ⟨_, hfollow⟩ := hchain.ledger.forall_canFollow hy
  obtain ⟨txin, vin, htxin⟩ := List.exists_cons_of_ne_nil (CTransaction.checkTransaction_ok hfollow.checked).1
  have hy' : txin.prevout ∈ y.tx.prevouts := by simp [CTransaction.prevouts, htxin]
  have hcb' : y.tx.isCoinBase = false := by rw [← CTransaction.isCoinBase_congr hser]; exact hcb
  have hspent := (hspec.spent_iff txin.prevout y.pos hfollow.pos_ne_null).mpr ⟨y, hy, hcb', hy', rfl⟩
  have hmem : txin.prevout ∈ tx.prevouts := by rw [CTransaction.prevouts, hvin]; exact hy'
  rcases h.unspent _ (hunspent _ hmem) with hnull | ⟨x, hx, hhash, -⟩
  · exact hfollow.pos_ne_null (hspent.unique hnull)
  · obtain ⟨txindex, hM, -⟩ := hspent
    rw [← hhash, h.fresh x hx] at hM
    cases hM

/-! ### Where inputs come from -/

/-- The first of the transactions with the hash. -/
def findByHash (env : Env) (txs : List CTransaction) (hash : Uint256) : Option CTransaction :=
  txs.find? fun tx => env.getHash tx = hash

/-- The output that an outpoint names, among the outputs of the transactions; an empty one if there is none. -/
def spentOutput (env : Env) (txs : List CTransaction) (o : COutPoint) : CTxOut :=
  ((findByHash env txs o.hash).bind fun tx => tx.vout[o.n]?).getD ⟨0, [], -10⟩

theorem findByHash_of_mem {txs : List CTransaction} (hnodup : (txs.map env.getHash).Nodup)
    (h : tx ∈ txs) : findByHash env txs (env.getHash tx) = some tx := by
  induction txs with
  | nil => cases h
  | cons x xs ih =>
    rw [List.map_cons, List.nodup_cons] at hnodup
    unfold findByHash
    rcases List.mem_cons.mp h with rfl | hmem
    · rw [List.find?_cons_of_pos (by simp)]
    · have hne : env.getHash x ≠ env.getHash tx := fun heq =>
        hnodup.1 (heq ▸ List.mem_map_of_mem hmem)
      rw [List.find?_cons_of_neg (by simpa using hne)]
      exact ih hnodup.2 hmem

theorem StagedTxs.nodup_chain (hspec : LedgerSpec env chain)
    (h : StagedTxs env pool (ledgerIndex env chain) done) :
    ((done ++ chain.map Placed.tx).map env.getHash).Nodup := by
  rw [List.map_append, List.nodup_append]
  refine ⟨h.nodup, by rw [List.map_map]; exact hspec.nodup, fun a ha b hb heq => ?_⟩
  obtain ⟨tx, htx, rfl⟩ := List.mem_map.mp ha
  obtain ⟨y, hy, rfl⟩ := List.mem_map.mp hb
  obtain ⟨x, hx, rfl⟩ := List.mem_map.mp hy
  exact (hspec.none_iff _).mp (h.fresh tx htx) x hx heq

/-- The previous transaction that the index leads to is one of the template or of the chain. -/
theorem StagedTxs.prev {txdb : CTxDB} (hchain : IndexedChain env T txdb chain)
    (hcoll : CTransaction.NoCollision env.getHash T)
    (h : StagedTxs env pool (ledgerIndex env chain) done) {k : Uint256} {txindex : CTxIndex}
    {txPrev : CTransaction} (hM : stagedIndex env (ledgerIndex env chain) done k = some txindex)
    (hload : loadPrev env pool k txindex = some txPrev) :
    findByHash env (done ++ chain.map Placed.tx) k = some txPrev := by
  have hspec := hchain.ledger.spec hcoll hchain.mem
  by_cases hdone : ∃ tx ∈ done, env.getHash tx = k
  · obtain ⟨tx, htx, rfl⟩ := hdone
    have hpos := h.entry tx htx
    rw [hM, Option.map_some, Option.some.injEq] at hpos
    rw [loadPrev, if_pos hpos, h.inPool tx htx] at hload
    obtain rfl := Option.some.inj hload
    exact findByHash_of_mem (h.nodup_chain hspec) (List.mem_append_left _ htx)
  · push Not at hdone
    have hpos := h.other k hdone
    rw [hM, Option.map_some] at hpos
    obtain ⟨txindex', hM', hpos'⟩ := Option.map_eq_some_iff.mp hpos.symm
    have hsome : ledgerIndex env chain k ≠ none := by rw [hM']; exact Option.some_ne_none _
    rw [Ne, hspec.none_iff] at hsome
    push Not at hsome
    obtain ⟨x, hx, rfl⟩ := hsome
    obtain ⟨txindex'', hM'', hx', -⟩ := hspec.entry x hx
    obtain rfl := Option.some.inj (hM'.symm.trans hM'')
    obtain ⟨_, hfollow⟩ := hchain.ledger.forall_canFollow hx
    rw [hx'] at hpos'
    rw [loadPrev, ← hpos', if_neg hfollow.pos_ne, hfollow.onDisk] at hload
    obtain rfl := Option.some.inj hload
    exact findByHash_of_mem (h.nodup_chain hspec) (List.mem_append_right _ (List.mem_map_of_mem hx))

end Sphinx
