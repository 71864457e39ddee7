import Sphinx.Equiv.PoolChain

/-!
# Every input of a pool transaction exists

A pool transaction spends outputs of transactions of the main chain or of the pool (`Closed`).
`AcceptToMemoryPool` lets in only such transactions, a block that is attached takes its transactions
from the pool to the chain, and conflicts are removed with everything that depends on them.  When
`Reorganize` disconnects a block, however, the transactions of the pool that spend outputs of that block
stay, whether or not the transactions they depend on are taken back into the pool: a coinbase or a
coinstake is not, nor is a transaction up to the last checkpoint, nor one that `AcceptToMemoryPool`
rejects, because it depends on another disconnected transaction for example.

* `acceptToMemoryPool_mono`: what a pool accepts, a larger one without a conflict accepts;
* `Closed.attach`, `Closed.switch`: the operations;
* `nodeRun_closed`: the pool is closed in every state of a run in which `Reorganize` takes back the
  transactions that the pool depends on;
* `nodeRun_stranded`: a run in which it does not, and the pool is not closed.
-/

namespace Sphinx

open ParentTree Relation CTxMemPool

variable {env : Env} {ctx : Uint256 → Ctx} {T : Set CTransaction} {genesis : Uint256}
  {node node' : Node} {chain : List ChainBlock} {pool pool' : CTxMemPool}
variable {o : COutPoint} {tx t : CTransaction} {G : PoolGuard}

/-- The outpoint names an output of a transaction of the chain. -/
def OutputOn (env : Env) (chain : List ChainBlock) (o : COutPoint) : Prop :=
  ∃ x ∈ chainTxs chain, env.getHash x.tx = o.hash ∧ o.n < x.tx.vout.length

/-- Every input of a pool transaction names an output of the chain or of the pool. -/
def Closed (env : Env) (pool : CTxMemPool) (chain : List ChainBlock) : Prop :=
  ∀ h tx, pool.mapTx.lookup h = some tx → ∀ o ∈ tx.prevouts, OutputOn env chain o ∨ OutputIn pool o

theorem OutputIn.mono (h : OutputIn pool o) (hsub : SubPool pool pool') :
    OutputIn pool' o := by
  obtain ⟨tx, hl, hn⟩ := h
  exact ⟨tx, hsub _ _ hl, hn⟩

theorem OutputOn.mono {chain' : List ChainBlock} (h : OutputOn env chain o)
    (hsub : ∀ b ∈ chain, b ∈ chain') : OutputOn env chain' o := by
  obtain ⟨x, hx, hout⟩ := h
  obtain ⟨b, hb, hxb⟩ := List.mem_flatMap.mp hx
  exact ⟨x, List.mem_flatMap.mpr ⟨b, hsub b hb, hxb⟩, hout⟩

/-- An output of a transaction of a block of the chain, under the hash of another one. -/
theorem outputOn_of_mem (hT : HashOk env.getHash T) {b : ChainBlock} (hb : b ∈ chain)
    {tx' : CTransaction} (htx : tx ∈ b.block.vtx) (hmem : tx ∈ T) (hmem' : tx' ∈ T)
    (hhash : env.getHash tx = o.hash) (hhash' : env.getHash tx' = o.hash) (hn : o.n < tx'.vout.length) :
    OutputOn env chain o := by
  obtain ⟨x, hx, rfl⟩ := exists_placed_of_mem hb htx
  obtain ⟨-, hlength⟩ :=
    CTransaction.serialized_inj (hT.noCollision x.tx hmem tx' hmem' (hhash.trans hhash'.symm))
  exact ⟨x, hx, hhash, by rw [hlength]; exact hn⟩

/-! ### Accepting a transaction -/

theorem Accepted.lookup (hok : Accepted env node tx node') (h : Uint256) :
    node'.mempool.mapTx.lookup h =
      if h = env.getHash tx then some tx else node.mempool.mapTx.lookup h := by
  rw [hok.node_eq]
  by_cases hh : h = env.getHash tx
  · subst hh
    simp [addUnchecked]
  · simp [addUnchecked, hh, AList.lookup_insert_ne hh]

theorem Accepted.subPool (hok : Accepted env node tx node') :
    SubPool node.mempool node'.mempool := by
  intro h t hl
  rw [hok.lookup, if_neg, hl]
  rintro rfl
  rw [hok.fresh] at hl
  cases hl

/-- The inputs of an accepted transaction exist. -/
theorem Accepted.outputs (hok : Accepted env node tx node')
    (hcore : ChainCore env T genesis ⟨node, chain⟩) (hcoll : CTransaction.NoCollision env.getHash T)
    (hbatch : node.txdb.activeBatch = none) :
    ∀ o ∈ tx.prevouts, OutputOn env chain o ∨ OutputIn node.mempool o := by
  intro o ho
  have hdb : (⟨node.txdb.pdb, none⟩ : CTxDB) = node.txdb := by rw [← hbatch]
  have hunspent := hok.unspent o ho
  have hfound := hok.found o ho
  rw [hdb] at hunspent hfound
  cases hindex : node.txdb.readTxIndex o.hash with
  | none => exact .inr (hfound hindex)
  | some txindex =>
    have hspent : SpentAt (ledgerIndex env (chainTxs chain)) o .null := by
      refine ⟨txindex, ?_, hunspent txindex hindex⟩
      rw [← hcore.index]
      exact hindex
    obtain ⟨y, hy, hhash, hn, -⟩ := hcore.ledger.exists_placed (hcore.ledger.spec hcoll hcore.mem)
      node.mempool hspent
    exact .inl ⟨y, hy, hhash, hn⟩

theorem Closed.accept (hcoll : CTransaction.NoCollision env.getHash T)
    (hcore : ChainCore env T genesis ⟨node, chain⟩) (hbatch : node.txdb.activeBatch = none)
    (hok : Accepted env node tx node') (hclosed : Closed env node.mempool chain) :
    Closed env node'.mempool chain := by
  intro h t hl o ho
  rw [hok.lookup] at hl
  have hold : OutputOn env chain o ∨ OutputIn node.mempool o := by
    split_ifs at hl with hh
    · obtain rfl := Option.some.inj hl
      exact hok.outputs hcore hcoll hbatch o ho
    · exact hclosed h t hl o ho
  exact hold.imp_right fun hin => hin.mono hok.subPool

/-! ### Attaching a block and deleting transactions -/

theorem lookup_remove_of_ne {h : Uint256} (hne : h ≠ env.getHash tx) :
    (pool.remove env.getHash tx).mapTx.lookup h = pool.mapTx.lookup h := by
  unfold remove
  by_cases hin : pool.contains (env.getHash tx) = true
  · simp [hin, eraseTx, AList.lookup_erase_ne hne]
  · simp [hin]

section

variable (hT : HashOk env.getHash T) (hinv : PoolInv env.getHash T pool)

include hT hinv

theorem Closed.remove {b : ChainBlock}
    (hb : b ∈ chain) (htx : tx ∈ b.block.vtx) (hmem : tx ∈ T) (hclosed : Closed env pool chain) :
    Closed env (pool.remove env.getHash tx) chain := by
  obtain ⟨R, hR⟩ := remove_without hT hinv hmem false
  intro h t hl o ho
  rcases hclosed h t (hR.lookup_some hl).2 o ho with hon | ⟨y, hy, hn⟩
  · exact .inl hon
  · by_cases hhash : o.hash = env.getHash tx
    · obtain ⟨hyT, hyhash⟩ := hinv.mem hy
      exact .inl (outputOn_of_mem hT hb htx hmem hyT hhash.symm hyhash hn)
    · exact .inr ⟨y, by rw [lookup_remove_of_ne hhash]; exact hy, hn⟩

theorem Closed.attach {block : CBlock} {pindex : CBlockIndex} (hmem : ∀ tx ∈ block.vtx, tx ∈ T)
    (hclosed : Closed env pool chain) :
    Closed env (block.vtx.foldl (fun pool tx => pool.remove env.getHash tx) pool)
      (chain ++ [⟨block, pindex⟩]) := by
  let b : ChainBlock := ⟨block, pindex⟩
  let I (_ : List CTransaction) (pool : CTxMemPool) : Prop :=
    PoolInv env.getHash T pool ∧ Closed env pool (chain ++ [b])
  have hinit : Closed env pool (chain ++ [b]) := by
    intro h tx hl o ho
    exact (hclosed h tx hl o ho).imp_left fun hon => hon.mono fun c hc => List.mem_append_left _ hc
  have hI : I block.vtx (block.vtx.foldl (fun pool tx => pool.remove env.getHash tx) pool) := by
    refine Loop.foldl_inv I ⟨hinv, hinit⟩ ?_
    rintro done tx rest p hvtx ⟨hp, hc⟩
    have htx : tx ∈ block.vtx := by
      rw [hvtx]
      simp
    obtain ⟨R, hR⟩ := remove_without hT hp (hmem tx htx) false
    exact ⟨hR.inv, hc.remove hT hp (b := b) (by simp) htx (hmem tx htx)⟩
  exact hI.2

theorem Closed.removeConflicts
    (tx : CTransaction) (hclosed : Closed env pool chain) :
    Closed env (pool.removeConflicts env.getHash tx) chain := by
  have hR := removeConflicts_without hT hinv tx
  intro h t hl o ho
  obtain ⟨hkept, hl'⟩ := hR.lookup_some hl
  rcases hclosed h t hl' o ho with hon | ⟨y, hy, hn⟩
  · exact .inl hon
  · refine .inr ⟨y, ?_, hn⟩
    rw [hR.lookup_of_not_mem, hy]
    rintro ⟨c, hc, hreach⟩
    have hspends : pool.Spends o.hash h := ⟨y, t, hy, hl', o.n, hn, ho⟩
    exact hkept ⟨c, hc, hreach.tail hspends⟩

/-- Everything in the connected blocks is deleted. -/
theorem Closed.deleteAll {txs : List CTransaction} (hmem : ∀ tx ∈ txs, tx ∈ T)
    (hchain : ∀ tx ∈ txs, ∃ b ∈ chain, tx ∈ b.block.vtx) (hclosed : Closed env pool chain) :
    Closed env (txs.foldl (deleteTx env) pool) chain := by
  let I (_ : List CTransaction) (pool : CTxMemPool) : Prop :=
    PoolInv env.getHash T pool ∧ Closed env pool chain
  have hI : I txs (txs.foldl (deleteTx env) pool) := by
    refine Loop.foldl_inv I ⟨hinv, hclosed⟩ ?_
    rintro done tx rest p htxs ⟨hp, hc⟩
    have htx : tx ∈ txs := by
      rw [htxs]
      simp
    obtain ⟨b, hb, htxb⟩ := hchain tx htx
    obtain ⟨R, hR⟩ := remove_without hT hp (hmem tx htx) false
    have hremoved := hc.remove hT hp hb htxb (hmem tx htx)
    exact ⟨(deleteTx_spec hT hp (hmem tx htx)).1, hremoved.removeConflicts hT hR.inv tx⟩
  exact hI.2

end

/-! ### Taking transactions back -/

theorem fetchInput_mono {txdb : CTxDB} {q : StdMap Uint256 CTxIndex} {fBlock fMiner : Bool}
    (hsub : SubPool pool pool') (st : MapPrevTx) (o : COutPoint) (st' : MapPrevTx)
    (h : fetchInput env txdb pool q fBlock fMiner st o = .ok st') :
    fetchInput env txdb pool' q fBlock fMiner st o = .ok st' := by
  cases hl : pool.lookup o.hash with
  | some t =>
    have hl' : pool'.lookup o.hash = some t := hsub _ _ hl
    have heq : fetchInput env txdb pool' q fBlock fMiner st o =
        fetchInput env txdb pool q fBlock fMiner st o := by simp only [fetchInput, hl, hl']
    rw [heq]
    exact h
  | none =>
    -- the transaction has been read from disk
    unfold fetchInput at h ⊢
    by_cases hin : (st.lookup o.hash).isSome = true
    · rw [if_pos hin] at h ⊢
      exact h
    · rw [if_neg hin] at h ⊢
      cases hfind : findTxIndex txdb q fBlock fMiner o.hash with
      | none =>
        simp only [hfind, hl] at h
        split_ifs at h
      | some txindex =>
        simp only [hfind, hl] at h ⊢
        by_cases hpos : txindex.pos = CDiskTxPos.memoryPool
        · rw [if_pos hpos] at h
          cases h
        · rw [if_neg hpos] at h ⊢
          exact h

theorem fetchInputs_mono {txdb : CTxDB} {q : StdMap Uint256 CTxIndex} {fBlock fMiner : Bool}
    {inputs : MapPrevTx} (hsub : SubPool pool pool')
    (h : fetchInputs env txdb pool q fBlock fMiner tx = .ok inputs) :
    fetchInputs env txdb pool' q fBlock fMiner tx = .ok inputs := by
  unfold fetchInputs at h ⊢
  split_ifs at h ⊢ with hcb
  · exact h
  · obtain ⟨found, hfold, h⟩ := exceptBind_ok.mp h
    exact exceptBind_ok.mpr ⟨found, Loop.foldlM_ok_of_round (fetchInput_mono hsub) _ hfold, h⟩

/-- **What a pool accepts, a larger one accepts**, if it has neither the transaction nor a conflict. -/
theorem acceptToMemoryPool_mono {c : Ctx} {walletSyncs : List (CTransaction × Bool)}
    (h : (acceptToMemoryPool env c node tx).isOk = true) (hsub : SubPool node.mempool pool)
    (hfresh : pool.mapTx.lookup (env.getHash tx) = none)
    (hfree : ∀ o ∈ tx.prevouts, pool.mapNextTx.lookup o = none) :
    (acceptToMemoryPool env c { node with mempool := pool, walletSyncs := walletSyncs } tx).isOk
      = true := by
  obtain ⟨node1, h⟩ := exists_of_isOk h
  have hcontains : pool.contains (env.getHash tx) = false := by
    rw [contains, hfresh]
    rfl
  have hany : (tx.prevouts.any fun o => (pool.mapNextTx.lookup o).isSome) = false := by
    rw [List.any_eq_false]
    intro o ho
    rw [hfree o ho]
    simp
  -- what the smaller pool provides as a previous transaction, the larger one does
  have hinputs : ∀ hash, acceptInputs env c node ⟨node.txdb.pdb, none⟩ hash tx = .ok () →
      acceptInputs env c { node with mempool := pool, walletSyncs := walletSyncs }
        ⟨node.txdb.pdb, none⟩ hash tx = .ok () := by
    intro hash hok
    simp only [acceptInputs, acceptFetched, exceptBind_ok] at hok ⊢
    obtain ⟨u, hu, v, hv, mapInputs, hfetch, hrest⟩ := hok
    refine ⟨u, hu, v, hv, mapInputs, ?_, hrest⟩
    cases hf : fetchInputs env ⟨node.txdb.pdb, none⟩ node.mempool ∅ false false tx with
    | error e => rw [hf] at hfetch; cases hfetch
    | ok inputs =>
      rw [hf] at hfetch
      rw [fetchInputs_mono hsub hf]
      exact hfetch
  have hok : acceptToMemoryPool env c { node with mempool := pool, walletSyncs := walletSyncs } tx
      = .ok { node with
        mempool := pool.addUnchecked (env.getHash tx) tx
        walletSyncs := walletSyncs ++ [(tx, true)] } := by
    unfold acceptToMemoryPool at h ⊢
    cases hcheck : tx.checkTransaction with
    | error e => rw [hcheck] at h; cases h
    | ok u =>
      rw [hcheck] at h
      simp only [exceptBind_ok, rejectIf_eq_ok] at h ⊢
      obtain ⟨⟨⟩, hcb, ⟨⟩, hcs, ⟨⟩, hstandard, ⟨⟩, -, ⟨⟩, hlock, ⟨⟩, -, ⟨⟩, hok, -⟩ := h
      exact ⟨(), hcb, (), hcs, (), hstandard, (), hcontains, (), hlock, (), hany, (),
        hinputs _ hok, rfl⟩
  rw [hok]
  rfl

/-- A transaction of a disconnected block that goes back into the pool. -/
def takenBack (env : Env) (ctx : Uint256 → Ctx) (node : Node) (pindex : CBlockIndex)
    (tx : CTransaction) : Bool :=
  resurrectable env pindex.nHeight tx &&
    (acceptToMemoryPool env (ctx (env.getHash tx)) node tx).isOk

/-- The blocks of a branch, with their entries. -/
def blocksOf (env : Env) (node : Node) (branch : List Uint256) : List (CBlockIndex × CBlock) :=
  branch.filterMap fun h => (readIndexed env node h "").toOption

/-- Every transaction of a disconnected block that a pool transaction spends an output of is in a
connected block or goes back into the pool. -/
def keepsParents (env : Env) (ctx : Uint256 → Ctx) (node : Node) (vDisconnect vConnect : List Uint256) :
    Bool :=
  node.mempool.mapTx.entries.all fun e => e.2.prevouts.all fun o =>
    (blocksOf env node vDisconnect).all fun d => d.2.vtx.all fun tx =>
      env.getHash tx ≠ o.hash ||
        ((blocksOf env node vConnect).any fun c => c.2.vtx.any fun y => env.getHash y = o.hash) ||
        takenBack env ctx node d.1 tx

/-- No attached block is excluded, and a switch keeps the transactions that the pool depends on. -/
def parentsKept (env : Env) : PoolGuard where
  attach _ _ := true
  switch := keepsParents env

theorem mem_blocksOf {branch : List Uint256} {d : CBlockIndex × CBlock} :
    d ∈ blocksOf env node branch ↔ ∃ h ∈ branch, node.mapBlockIndex h = some d.1 ∧
      env.readBlockFromDisk d.1 = .ok d.2 := by
  unfold blocksOf
  rw [List.mem_filterMap]
  refine exists_congr fun h => and_congr_right fun _ => ?_
  constructor
  · intro hd
    cases hread : readIndexed env node h "" with
    | error e => rw [hread] at hd; cases hd
    | ok r =>
      rw [hread] at hd
      obtain rfl := Option.some.inj hd
      exact readIndexed_ok hread
  · rintro ⟨hentry, hread⟩
    simp only [readIndexed, hentry, hread]
    rfl

theorem keepsParents_spec {vDisconnect vConnect : List Uint256}
    (h : keepsParents env ctx node vDisconnect vConnect = true) {k : Uint256}
    (hl : node.mempool.mapTx.lookup k = some t) (ho : o ∈ t.prevouts) {d : CBlockIndex × CBlock}
    (hd : d ∈ blocksOf env node vDisconnect) (htx : tx ∈ d.2.vtx) (hhash : env.getHash tx = o.hash) :
    (∃ c ∈ blocksOf env node vConnect, ∃ y ∈ c.2.vtx, env.getHash y = o.hash) ∨
      takenBack env ctx node d.1 tx = true := by
  have hmem : (⟨k, t⟩ : Sigma fun _ => CTransaction) ∈ node.mempool.mapTx.entries :=
    AList.mem_lookup_iff.mp hl
  have hone := List.all_eq_true.mp (List.all_eq_true.mp (List.all_eq_true.mp
    (List.all_eq_true.mp h _ hmem) o ho) d hd) tx htx
  simp only [hhash, ne_eq, not_true_eq_false, decide_false, Bool.false_or, Bool.or_eq_true,
    List.any_eq_true, decide_eq_true_eq] at hone
  exact hone

/-- A transaction that was accepted at the start of the resurrecting loop is accepted later on, unless
it is in the pool already: nothing that has come in since spends what it spends. -/
theorem acceptToMemoryPool_later {ctx : Ctx} {all : List CTransaction} {pool : CTxMemPool}
    (walletSyncs : List (CTransaction × Bool))
    (hexclusive : ∀ tx ∈ all, ∀ tx' ∈ all, ∀ o ∈ tx.prevouts, o ∈ tx'.prevouts → tx = tx')
    (hinv : PoolInv env.getHash T node.mempool) (hpool : PoolInv env.getHash T pool)
    (hsub : SubPool node.mempool pool)
    (horigin : ∀ h tx, pool.mapTx.lookup h = some tx → node.mempool.mapTx.lookup h = some tx ∨ tx ∈ all)
    (ht : t ∈ all) (hok : (acceptToMemoryPool env ctx node t).isOk = true)
    (hl : pool.mapTx.lookup (env.getHash t) = none) :
    (acceptToMemoryPool env ctx { node with mempool := pool, walletSyncs := walletSyncs } t).isOk
      = true := by
  refine acceptToMemoryPool_mono hok hsub hl fun o ho => ?_
  by_contra hne
  obtain ⟨it, hit⟩ := Option.ne_none_iff_exists'.mp hne
  obtain ⟨s, hs, hsn⟩ := (hpool.mapNextTx_iff o it).mp hit
  have hos : o ∈ s.prevouts := List.mem_of_getElem? hsn
  rcases horigin _ s hs with hold | hsall
  · obtain ⟨node1, hok1⟩ := exists_of_isOk hok
    exact hinv.not_spent ((acceptToMemoryPool_ok hok1).free o ho) hold hos
  · obtain rfl := hexclusive s hsall t ht o hos ho
    rw [← (hpool.mem hs).2, hl] at hs
    cases hs

/-- **The resurrecting loop takes back** every transaction that the pool accepts at its start, if no two
of the transactions conflict. -/
theorem resurrect_takes (ctx : Uint256 → Ctx) {all : List CTransaction}
    (hall : ∀ tx ∈ all, tx ∈ T)
    (hexclusive : ∀ tx ∈ all, ∀ tx' ∈ all, ∀ o ∈ tx.prevouts, o ∈ tx'.prevouts → tx = tx')
    (hinv : PoolInv env.getHash T node.mempool) :
    ∀ (rest : List CTransaction) (pool : CTxMemPool) (walletSyncs : List (CTransaction × Bool)),
      (∀ tx ∈ rest, tx ∈ all) → PoolInv env.getHash T pool → SubPool node.mempool pool →
      (∀ h tx, pool.mapTx.lookup h = some tx → node.mempool.mapTx.lookup h = some tx ∨ tx ∈ all) →
      let final := (rest.foldl (resurrectTx env ctx)
        { node with mempool := pool, walletSyncs := walletSyncs }).mempool
      SubPool pool final ∧
      ∀ tx ∈ rest, (acceptToMemoryPool env (ctx (env.getHash tx)) node tx).isOk = true →
        ∃ tx', final.mapTx.lookup (env.getHash tx) = some tx' := by
  -- the loop only adds to the pool, so what it takes in one round is there at the end
  intro rest
  induction rest with
  | nil => exact fun pool walletSyncs _ _ _ _ => ⟨fun _ _ h => h, fun tx htx => by cases htx⟩
  | cons tx rest ih =>
    intro pool walletSyncs hmem hpool hsub horigin
    have htx := hmem tx (by simp)
    have hrest : ∀ t ∈ rest, t ∈ all := fun t ht => hmem t (by simp [ht])
    simp only [List.foldl_cons]
    cases haccept : acceptToMemoryPool env (ctx (env.getHash tx))
      { node with mempool := pool, walletSyncs := walletSyncs } tx with
    | error r =>
      rw [resurrectTx, haccept]
      obtain ⟨hgrow, htakes⟩ := ih pool walletSyncs hrest hpool hsub horigin
      refine ⟨hgrow, fun t ht hok => ?_⟩
      rcases List.mem_cons.mp ht with rfl | ht
      · -- it is rejected only if it is in the pool already
        cases hl : pool.mapTx.lookup (env.getHash t) with
        | some t' => exact ⟨t', hgrow _ _ hl⟩
        | none =>
          have hagain := acceptToMemoryPool_later walletSyncs hexclusive hinv hpool hsub horigin htx
            hok hl
          rw [haccept] at hagain
          cases hagain
      · exact htakes t ht hok
    | ok node1 =>
      have hok1 := acceptToMemoryPool_ok haccept
      rw [resurrectTx, haccept]
      have hpool1 : PoolInv env.getHash T node1.mempool :=
        poolInv_acceptToMemoryPool hpool (hall tx htx) hok1
      have hsub1 : SubPool pool node1.mempool := hok1.subPool
      have horigin1 : ∀ h t, node1.mempool.mapTx.lookup h = some t →
          node.mempool.mapTx.lookup h = some t ∨ t ∈ all := by
        intro h t hl
        rw [hok1.lookup] at hl
        split_ifs at hl
        · obtain rfl := Option.some.inj hl
          exact .inr htx
        · exact horigin h t hl
      have hnode1 : node1 = { node with
          mempool := node1.mempool, walletSyncs := node1.walletSyncs } := by
        rw [hok1.node_eq]
      obtain ⟨hgrow, htakes⟩ := ih node1.mempool node1.walletSyncs hrest hpool1
        (hsub.trans hsub1) horigin1
      rw [← hnode1] at hgrow htakes
      refine ⟨hsub1.trans hgrow, fun t ht hok => ?_⟩
      rcases List.mem_cons.mp ht with rfl | ht
      · have hl : node1.mempool.mapTx.lookup (env.getHash t) = some t := by
          rw [hok1.lookup, if_pos rfl]
        exact ⟨t, hgrow _ _ hl⟩
      · exact htakes t ht hok

section Switch

variable {pre post added : List ChainBlock} {vDisconnect vConnect : List Uint256}
  {vResurrect vDelete : List CTransaction}

/-- No two resurrected transactions conflict: both are on the old branch. -/
theorem Switched.exclusive (hcoll : CTransaction.NoCollision env.getHash T)
    (h : Switched env T genesis pre post added vDisconnect vConnect node vResurrect vDelete) :
    ∀ tx ∈ vResurrect, ∀ tx' ∈ vResurrect, ∀ o ∈ tx.prevouts, o ∈ tx'.prevouts → tx = tx' := by
  have hplaced : ∀ tx ∈ vResurrect, ∃ x ∈ chainTxs (pre ++ post), x.tx = tx ∧ tx.isCoinBase = false := by
    intro tx htx
    obtain ⟨b, hb, htxb, hres⟩ := (h.resurrect tx).mp htx
    obtain ⟨x, hx, rfl⟩ := exists_placed_of_mem (List.mem_append_right pre hb) htxb
    refine ⟨x, hx, rfl, ?_⟩
    simp only [resurrectable, Bool.and_eq_true, Bool.not_eq_true', Bool.or_eq_false_iff] at hres
    exact hres.1.1
  intro tx htx tx' htx' o ho ho'
  obtain ⟨x, hx, rfl, hcb⟩ := hplaced tx htx
  obtain ⟨x', hx', rfl, hcb'⟩ := hplaced tx' htx'
  rw [(h.ledger.spec hcoll h.mem).exclusive x hx x' hx' o hcb hcb' ho ho']

/-- After the resurrecting loop, the outputs that the pool has spent on the old branch are on the new one
or in the pool. -/
theorem Switched.parent_kept (hT : HashOk env.getHash T)
    (h : Switched env T genesis pre post added vDisconnect vConnect node vResurrect vDelete)
    (hkeeps : keepsParents env ctx node vDisconnect vConnect = true) {k : Uint256}
    (hl : node.mempool.mapTx.lookup k = some t) (ho : o ∈ t.prevouts)
    (hon : OutputOn env (pre ++ post) o) :
    OutputOn env (pre ++ added) o ∨
      OutputIn (vResurrect.foldl (resurrectTx env ctx) node).mempool o := by
  obtain ⟨x, hx, hhash, hn⟩ := hon
  obtain ⟨b, hb, hxb⟩ := List.mem_flatMap.mp hx
  have hxT := h.mem x hx
  have hxvtx := (mem_placeTxs hxb).1
  rcases List.mem_append.mp hb with hb | hb
  · -- below the fork nothing changes
    exact .inl ⟨x, List.mem_flatMap.mpr ⟨b, List.mem_append_left added hb, hxb⟩, hhash, hn⟩
  · obtain ⟨hmem, e, he, hheight, hread⟩ := h.disconnected b hb
    have hd : (e, b.block) ∈ blocksOf env node vDisconnect :=
      mem_blocksOf.mpr ⟨_, hmem, he, hread⟩
    rcases keepsParents_spec hkeeps hl ho hd hxvtx hhash with ⟨c, hc, y, hy, hyhash⟩ | hback
    · -- the transaction is on the new branch, too
      obtain ⟨hash, hconn, hentry, hcread⟩ := mem_blocksOf.mp hc
      obtain ⟨b', hb', rfl⟩ := h.connected hash hconn
      have hb'' : b' ∈ pre ++ added := List.mem_append_right pre hb'
      obtain ⟨hblock, -⟩ := h.core.read_entry hb'' hentry hcread
      rw [hblock] at hy
      obtain ⟨z, hz, hzy⟩ := exists_placed_of_mem hb'' hy
      have hyT : y ∈ T := by
        rw [← hzy]
        exact h.core.mem z hz
      exact .inl (outputOn_of_mem hT hb'' hy hyT hxT hyhash hhash hn)
    · -- it goes back into the pool
      simp only [takenBack, Bool.and_eq_true] at hback
      have hres : x.tx ∈ vResurrect := by
        rw [hheight] at hback
        exact (h.resurrect x.tx).mpr ⟨b, hb, hxvtx, hback.1⟩
      obtain ⟨-, htakes⟩ := resurrect_takes ctx h.resurrect_mem (h.exclusive hT.noCollision) h.pool
        vResurrect node.mempool node.walletSyncs (fun _ ht => ht) h.pool (fun _ _ hl => hl)
        fun _ _ hl => .inl hl
      obtain ⟨t', ht'⟩ := htakes x.tx hres hback.2
      obtain ⟨ht'T, ht'hash⟩ := (h.poolInv hT ctx).1.mem ht'
      obtain ⟨-, hlength⟩ := CTransaction.serialized_inj (hT.noCollision t' ht'T x.tx hxT ht'hash)
      refine .inr ⟨t', ?_, by rw [hlength]; exact hn⟩
      rw [← hhash]
      exact ht'

theorem Closed.switch (hT : HashOk env.getHash T)
    (h : Switched env T genesis pre post added vDisconnect vConnect node vResurrect vDelete)
    (hclosed : Closed env node.mempool (pre ++ post))
    (hkeeps : keepsParents env ctx node vDisconnect vConnect = true) :
    Closed env (vDelete.foldl (deleteTx env) (vResurrect.foldl (resurrectTx env ctx) node).mempool)
      (pre ++ added) := by
  set final := vResurrect.foldl (resurrectTx env ctx) node with hfinal
  -- what is in the pool was there before, or it has been accepted on the new branch
  let I (n : Node) : Prop := Resurrecting env T genesis (pre ++ added) n ∧
    SubPool node.mempool n.mempool ∧
    ∀ k t, n.mempool.mapTx.lookup k = some t → node.mempool.mapTx.lookup k = some t ∨
      ∀ o ∈ t.prevouts, OutputOn env (pre ++ added) o ∨ OutputIn n.mempool o
  have hI : I final := by
    refine resurrect_inv ctx vResurrect node ⟨h.resurrecting, fun _ _ hl => hl, fun _ _ hl => .inl hl⟩ ?_
    rintro n n' tx htx ⟨hn, hsub, horigin⟩ hok
    refine ⟨hn.accept (h.resurrect_mem tx htx) hok, hsub.trans hok.subPool, fun k t hl => ?_⟩
    rw [hok.lookup] at hl
    split_ifs at hl with hk
    · obtain rfl := Option.some.inj hl
      refine .inr fun o ho => ?_
      exact (hok.outputs hn.core hT.noCollision hn.batch o ho).imp_right fun hin => hin.mono hok.subPool
    · refine (horigin k t hl).imp_right fun hout o ho => ?_
      exact (hout o ho).imp_right fun hin => hin.mono hok.subPool
  obtain ⟨hres, hsub, horigin⟩ := hI
  have hclosed1 : Closed env final.mempool (pre ++ added) := by
    intro k t hl o ho
    rcases horigin k t hl with hold | hnew
    · rcases hclosed k t hold o ho with hon | hin
      · exact h.parent_kept hT hkeeps hold ho hon
      · exact .inr (hin.mono hsub)
    · exact hnew o ho
  refine hclosed1.deleteAll hT hres.pool h.delete_mem fun tx htx => ?_
  rw [h.delete] at htx
  obtain ⟨b, hb, htxb⟩ := List.mem_flatMap.mp htx
  exact ⟨b, List.mem_append_right pre hb, htxb⟩

end Switch

def closedRule (genesis : Uint256) (hT : HashOk env.getHash T) :
    PoolRule env T genesis (parentsKept env) where
  Holds := Closed env
  congr hmap hclosed k tx hl o ho := by
    rw [hmap] at hl
    refine (hclosed k tx hl o ho).imp_right ?_
    rintro ⟨t, ht, hn⟩
    exact ⟨t, by rw [hmap]; exact ht, hn⟩
  accept hcore hbatch hok hclosed := hclosed.accept hT.noCollision hcore hbatch hok
  attach hinv hmem hclosed _ := hclosed.attach hT hinv hmem
  switch h hclosed hkeeps := hclosed.switch hT h hkeeps

/-! ### Runs -/

/-- The call switches branches only if `Reorganize` keeps the transactions that the pool depends on, and
no block it postpones fails to connect. -/
def Arrival.keepsPool (env : Env) (node : Node) (a : Arrival) : Bool :=
  a.meets (parentsKept env) env node

/-- The outpoint names an output of a transaction of the main chain. -/
def OutputOnMainChain (env : Env) (node : Node) (o : COutPoint) : Prop :=
  ∃ b pindex block, node.mapBlockIndex b = some pindex ∧ isInMainChain node pindex = true ∧
    env.readBlockFromDisk pindex = .ok block ∧
    ∃ y ∈ block.vtx, env.getHash y = o.hash ∧ o.n < y.vout.length

/-- Every input of every pool transaction names an existing output of a transaction of the main chain or
of the pool. -/
def PoolClosed (env : Env) (node : Node) : Prop :=
  ∀ h tx, node.mempool.mapTx.lookup h = some tx → ∀ o ∈ tx.prevouts,
    OutputOnMainChain env node o ∨ OutputIn node.mempool o

theorem NodeInv.poolClosed {hT : HashOk env.getHash T} (h : NodeInv (closedRule genesis hT) node chain) :
    PoolClosed env node := by
  intro k tx hl o ho
  refine (h.link.holds k tx hl o ho).imp_left ?_
  rintro ⟨x, hx, hhash, hn⟩
  obtain ⟨b, hb, hxb⟩ := List.mem_flatMap.mp hx
  obtain ⟨pre, post, hchain⟩ := List.append_of_mem hb
  obtain ⟨e, he, -, hpprev, -, -⟩ := h.link.core.blocks pre b post hchain
  have hne : b.pindex.hashBlock ≠ genesis := by
    refine h.link.core.tree.ne_genesis (p := tipOf genesis pre) ?_
    rw [parentOf_eq he, hpprev]
  obtain ⟨block, hread⟩ := h.link.readable _ e he hne
  obtain ⟨rfl, -⟩ := h.link.core.read_entry hb he hread
  exact ⟨_, e, _, he, (h.isInMainChain_iff he).mpr (h.link.core.ancestor_tip hchain), hread, x.tx,
    (mem_placeTxs hxb).1, hhash, hn⟩

/-- **The pool is closed** in every state of a run in which every transaction that a reorganisation
disconnects while the pool depends on it is on the new branch or goes back into the pool. -/
theorem nodeRun_closed {start : Node} (hT : HashOk env.getHash T) (hindex : OnlyGenesis genesis start)
    (hgenesis : AtGenesis genesis start) (hempty : start.mempool = {})
    (hrun : ReflTransGen (SyncStep env T fun node a => a.keepsPool env node = true) start node) :
    PoolClosed env node := by
  have hstart : NodeInv (closedRule genesis hT) start [] := by
    refine nodeInv_genesis _ hindex hgenesis hempty ?_
    intro k tx hl
    cases hl
  obtain ⟨chain, hinv⟩ := syncRun_inv hT hstart hrun
  exact hinv.poolClosed

/-! ### Sample runs -/

def anyGuard : PoolGuard where
  attach _ _ := true
  switch _ _ _ _ := true

def anyRule (env : Env) (T : Set CTransaction) (genesis : Uint256) :
    PoolRule env T genesis anyGuard where
  Holds _ _ := True
  congr _ _ := trivial
  accept _ _ _ _ := trivial
  attach _ _ _ _ := trivial
  switch _ _ _ := trivial

theorem NodeInv.any {R : PoolRule env T genesis G} (h : NodeInv R node chain) :
    NodeInv (anyRule env T genesis) node chain :=
  ⟨h.best, h.link.tip, h.link.readable, h.link.core, h.link.pool, trivial⟩

/-- A transaction of the main chain is indexed. -/
theorem NodeInv.readTxIndex {R : PoolRule env T genesis G} (h : NodeInv R node chain)
    (hT : HashOk env.getHash T) {b : Uint256} {pindex : CBlockIndex} {block : CBlock}
    (hb : node.mapBlockIndex b = some pindex) (hne : b ≠ genesis)
    (hmain : isInMainChain node pindex = true) (hread : env.readBlockFromDisk pindex = .ok block)
    (htx : tx ∈ block.vtx) :
    node.txdb.readTxIndex (env.getHash tx) ≠ none := by
  obtain ⟨c, hc, rfl⟩ := h.link.core.mem_of_ancestor ((h.isInMainChain_iff hb).mp hmain) hne
  obtain ⟨rfl, -⟩ := h.link.core.read_entry hc hb hread
  obtain ⟨x, hx, rfl⟩ := exists_placed_of_mem hc htx
  obtain ⟨txindex, hindex, -⟩ :=
    (h.link.core.ledger.spec hT.noCollision h.link.core.mem).entry x hx
  rw [← h.link.core.index] at hindex
  intro hnone
  exact Option.some_ne_none _ (hindex.symm.trans hnone)

/-- The transactions of the sample blocks and, from the time 211 on, transactions each of which spends
the one before it. -/
def sideTx (n : Nat) : CTransaction :=
  if n < 211 then minedTx n
  else { nTime := n, vin := [⟨⟨999 + n, 0⟩, [], uintMax⟩], vout := [⟨1, [1], -10⟩] }

/-- Blocks on top of the block at height 100, with hashes 1110, 1120 and 1150, and a block on top of the
last one, with hash 1151. -/
def sideBlocks : List CBlock :=
  [{ sampleBlock [sideTx 101, sideTx 210, sideTx 211] with hashPrevBlock := 1100, nTime := 1010 },
    { sampleBlock [sideTx 101, sideTx 210] with hashPrevBlock := 1100, nTime := 1020 },
    { sampleBlock [sideTx 101] with hashPrevBlock := 1100, nTime := 1050 },
    { sampleBlock [sideTx 102] with hashPrevBlock := 1150, nTime := 1051 }]

def sideEnv : Env :=
  Env.permissive sampleTxHash sampleBlockHash (fun _ _ _ _ _ _ => true)
    (BlockFiles.ofBlocks (((List.range 101).map fun i => minedBlock (i + 1)) ++ sideBlocks))

theorem hashOk_sideTx : HashOk sideEnv.getHash (Set.range sideTx) := by
  have hhash : ∀ n, sideEnv.getHash (sideTx n) = 1000 + n := by
    intro n
    show 1000 + (sideTx n).nTime = 1000 + n
    unfold sideTx
    split
    · rw [minedTx_nTime]
    · rfl
  constructor
  · rintro _ ⟨n, rfl⟩ _ ⟨m, rfl⟩ heq
    rw [hhash, hhash] at heq
    have hnm : n = m := Nat.add_left_cancel heq
    rw [hnm]
  · refine acyclic_of_lt ?_
    rintro a b ⟨_, ⟨n, rfl⟩, rfl, o, ho, rfl⟩
    rw [hhash]
    unfold sideTx at ho
    split at ho
    · have hlt := prevouts_minedTx_lt n o ho
      omega
    · obtain rfl := List.mem_singleton.mp ho
      show 999 + n < 1000 + n
      omega

def firstNode : Node :=
  (minedArrivals 100).foldl (fun node a => a.add sideEnv node) genesisNode

theorem sideTx_of_lt {n : Nat} (h : n < 211) : sideTx n = minedTx n := if_pos h

theorem firstArrivals_mem : ∀ a ∈ minedArrivals 100, ∀ tx ∈ a.block.vtx, tx ∈ Set.range sideTx := by
  intro a ha tx htx
  obtain ⟨i, hi, rfl⟩ := List.mem_map.mp ha
  have hle : i + 1 ≤ 100 := List.mem_range.mp hi
  refine ⟨i + 1, ?_⟩
  rw [sideTx_of_lt (by omega)]
  simpa [arrival, minedBlock, sampleBlock, hle, eq_comm] using htx

def side (i : Nat) : Arrival := arrival 1100 (102 + i) (sideBlocks.getD i (sampleBlock []))

theorem side_mem {i : Nat} (hi : i < 4) : ∀ tx ∈ (side i).block.vtx, tx ∈ Set.range sideTx := by
  have hvtx : ∀ i < 4, ∃ l : List Nat, (side i).block.vtx = l.map sideTx := by
    intro i hi
    interval_cases i
    · exact ⟨[101, 210, 211], rfl⟩
    · exact ⟨[101, 210], rfl⟩
    · exact ⟨[101], rfl⟩
    · exact ⟨[102], rfl⟩
  intro tx htx
  obtain ⟨l, hl⟩ := hvtx i hi
  rw [hl] at htx
  obtain ⟨n, -, rfl⟩ := List.mem_map.mp htx
  exact ⟨n, rfl⟩

def sideNode (i n : Nat) : Node :=
  nodeOf ((acceptToMemoryPool sideEnv minedCtx ((side i).add sideEnv firstNode) (sideTx n)).mapError
    fun r => (r, firstNode))

def switchedNode (i n : Nat) : Node :=
  [side 2, side 3].foldl (fun node a => a.add sideEnv node) (sideNode i n)

theorem goodRun_closed : goodRun (parentsKept sideEnv) sideEnv (minedArrivals 100) genesisNode = true := by
  decide +kernel

/-- The second transaction of the side block is not taken back, because it spends the first one. -/
theorem strandedNode_spec :
    goodRun (parentsKept sideEnv) sideEnv [side 0] firstNode = true ∧
    (acceptToMemoryPool sideEnv minedCtx ((side 0).add sideEnv firstNode) (sideTx 212)).isOk = true ∧
    goodRun anyGuard sideEnv [side 2, side 3] (sideNode 0 212) = true ∧
    (switchedNode 0 212).mempool.mapTx.lookup 1212 = some (sideTx 212) ∧
    (switchedNode 0 212).mempool.mapTx.lookup 1211 = none ∧
    (switchedNode 0 212).txdb.readTxIndex 1211 = none ∧
    ((switchedNode 0 212).mapBlockIndex 105).map (fun e => (sideEnv.readBlockFromDisk e).isOk)
      = some false := by decide +kernel

/-- The only transaction of the side block is taken back. -/
theorem keptNode_spec :
    goodRun (parentsKept sideEnv) sideEnv [side 1] firstNode = true ∧
    (acceptToMemoryPool sideEnv minedCtx ((side 1).add sideEnv firstNode) (sideTx 211)).isOk = true ∧
    goodRun (parentsKept sideEnv) sideEnv [side 2, side 3] (sideNode 1 211) = true ∧
    (switchedNode 1 211).pindexBest = some 1151 ∧
    (switchedNode 1 211).mempool.mapTx.lookup 1211 = some (sideTx 211) ∧
    (switchedNode 1 211).txdb.readTxIndex 1210 = none := by decide +kernel

theorem syncRun_sideNode {P : Node → Arrival → Prop} {i n : Nat} (hi : i < 4)
    (hP : ∀ node a, a.meets (parentsKept sideEnv) sideEnv node = true → P node a)
    (hgood : goodRun (parentsKept sideEnv) sideEnv [side i] firstNode = true)
    (hok : (acceptToMemoryPool sideEnv minedCtx ((side i).add sideEnv firstNode)
      (sideTx n)).isOk = true) :
    ReflTransGen (SyncStep sideEnv (Set.range sideTx) P) genesisNode (sideNode i n) := by
  have hmined : ReflTransGen (SyncStep sideEnv (Set.range sideTx) P) genesisNode firstNode :=
    syncRun_of_goodRun hP _ _ goodRun_closed firstArrivals_mem
  have hside : ReflTransGen (SyncStep sideEnv (Set.range sideTx) P) firstNode
      ((side i).add sideEnv firstNode) := by
    have hmem : ∀ a ∈ [side i], ∀ tx ∈ a.block.vtx, tx ∈ Set.range sideTx := by
      intro a ha
      rw [List.mem_singleton.mp ha]
      exact side_mem hi
    have hrun := syncRun_of_goodRun hP [side i] firstNode hgood hmem
    rw [List.foldl_cons, List.foldl_nil] at hrun
    exact hrun
  refine (hmined.trans hside).tail (.acceptTx (c := minedCtx) ⟨n, rfl⟩ ?_)
  obtain ⟨node', hnode⟩ := exists_of_isOk hok
  rw [sideNode, hnode]
  rfl

theorem syncRun_switchedNode {P : Node → Arrival → Prop} {i n : Nat}
    (hP : ∀ node a, a.meets G sideEnv node = true → P node a)
    (hgood : goodRun G sideEnv [side 2, side 3] (sideNode i n) = true) :
    ReflTransGen (SyncStep sideEnv (Set.range sideTx) P) (sideNode i n) (switchedNode i n) := by
  refine syncRun_of_goodRun hP [side 2, side 3] (sideNode i n) hgood fun a ha => ?_
  rcases List.mem_pair.mp ha with rfl | rfl
  · exact side_mem (by decide)
  · exact side_mem (by decide)

/-- **A pool transaction without its parent.**  The side block holds two transactions, the second one
spends the first one, and the pool transaction spends the second one.  When a longer branch replaces the
block, `AcceptToMemoryPool` takes the first one back and rejects the second one, since its parent is in
the pool and not in the database.  The pool transaction stays. -/
theorem nodeRun_stranded :
    HashOk sideEnv.getHash (Set.range sideTx) ∧ OnlyGenesis 105 genesisNode ∧
    AtGenesis 105 genesisNode ∧ genesisNode.mempool = {} ∧
    ReflTransGen (SyncStep sideEnv (Set.range sideTx) fun _ _ => True) genesisNode
      (switchedNode 0 212) ∧
    ¬ PoolClosed sideEnv (switchedNode 0 212) := by
  obtain ⟨hgood, hok, hswitch, hpool, hgone, hindex, hgenesis⟩ := strandedNode_spec
  refine ⟨hashOk_sideTx, onlyGenesis_genesisNode, atGenesis_genesisNode, rfl,
    (syncRun_sideNode (by decide) (fun _ _ _ => trivial) hgood hok).trans
      (syncRun_switchedNode (fun _ _ _ => trivial) hswitch), fun hclosed => ?_⟩
  have hstart : NodeInv (closedRule 105 hashOk_sideTx) genesisNode [] := by
    refine nodeInv_genesis _ onlyGenesis_genesisNode atGenesis_genesisNode rfl ?_
    intro k tx hl
    cases hl
  obtain ⟨chain, hside⟩ := syncRun_inv hashOk_sideTx hstart
    (syncRun_sideNode (by decide) (fun _ _ h => h) hgood hok)
  obtain ⟨chain', hinv⟩ := syncRun_inv hashOk_sideTx hside.any
    (syncRun_switchedNode (fun _ _ h => h) hswitch)
  rcases hclosed 1212 (sideTx 212) hpool ⟨1211, 0⟩ (by decide) with
    ⟨b, pindex, block, hb, hmain, hread, y, hy, hhash, -⟩ | ⟨tx, hl, -⟩
  · by_cases hne : b = 105
    · subst hne
      rw [hb, Option.map_some, hread] at hgenesis
      cases hgenesis
    · exact hinv.readTxIndex hashOk_sideTx hb hne hmain hread hy (by rw [hhash]; exact hindex)
  · rw [hgone] at hl
    cases hl

/-- The block with the first transaction only is replaced, and that transaction is taken back. -/
theorem nodeRun_closed_switched :
    PoolClosed sideEnv (switchedNode 1 211) ∧ (switchedNode 1 211).pindexBest = some 1151 ∧
    (switchedNode 1 211).mempool.mapTx.lookup 1211 = some (sideTx 211) ∧
    (switchedNode 1 211).txdb.readTxIndex 1210 = none := by
  obtain ⟨hgood, hok, hswitch, hrest⟩ := keptNode_spec
  exact ⟨nodeRun_closed hashOk_sideTx onlyGenesis_genesisNode atGenesis_genesisNode rfl
    ((syncRun_sideNode (by decide) (fun _ _ h => h) hgood hok).trans
      (syncRun_switchedNode (fun _ _ h => h) hswitch)), hrest⟩

end Sphinx
