import Sphinx.Equiv.OrphanTx

/-!
# Transactions that arrive in any order

A set of valid transactions should be in the pool once all of them have arrived, in whatever order.
`AcceptToMemoryPool` looks for the inputs in the database only, although `FetchInputs`, which it calls
next, finds them in the pool as well.  So a transaction that spends an output of another unconfirmed one
stays an orphan, whether its parent comes before or after it.

* `acceptToMemoryPool_confirmed`: a valid transaction is accepted if its inputs are confirmed;
* `orphansResolved_iff`: the set ends up in the pool exactly when all its inputs are confirmed.
-/

namespace Sphinx

open CTxMemPool

variable {env : Env} {s s' : TxNode} {a : TxMessage} {tx : CTransaction} {pool pool' : CTxMemPool}
variable {arrivals done : List TxMessage}

/-! ### Larger pools -/

/-- The pool with further transactions. -/
def CTxMemPool.addAll (env : Env) (pool : CTxMemPool) (txs : List CTransaction) : CTxMemPool :=
  txs.foldl (fun pool tx => pool.addUnchecked (env.getHash tx) tx) pool

theorem addAll_concat (env : Env) (pool : CTxMemPool) (txs : List CTransaction) (tx : CTransaction) :
    pool.addAll env (txs ++ [tx]) = (pool.addAll env txs).addUnchecked (env.getHash tx) tx := by
  rw [addAll, List.foldl_append]
  rfl

theorem contains_addUnchecked (pool : CTxMemPool) (hash : Uint256) (tx : CTransaction) (h : Uint256) :
    (pool.addUnchecked hash tx).contains h = (pool.contains h || decide (h = hash)) := by
  exact MapLoop.isSome_lookup_insert tx pool.mapTx hash h

theorem contains_addAll (txs : List CTransaction) : ∀ (pool : CTxMemPool) (h : Uint256),
    (pool.addAll env txs).contains h = true ↔ pool.contains h = true ∨ ∃ tx ∈ txs, env.getHash tx = h := by
  induction txs with
  | nil => intro pool h; simp [addAll]
  | cons tx txs ih =>
    intro pool h
    have hrest := ih (pool.addUnchecked (env.getHash tx) tx) h
    rw [contains_addUnchecked, Bool.or_eq_true, decide_eq_true_eq, or_assoc] at hrest
    simp only [List.mem_cons, exists_eq_or_imp, eq_comm (a := env.getHash tx)]
    exact hrest

theorem lookup_insertAll (hash : Uint256) (l : List (COutPoint × Nat)) :
    ∀ (m : StdMap COutPoint CInPoint) (o : COutPoint),
      (l.foldl (fun m (o, i) => m.insert o ⟨hash, i⟩) m).lookup o = none ↔
        m.lookup o = none ∧ o ∉ l.map Prod.fst := by
  induction l with
  | nil => intro m o; simp
  | cons e l ih =>
    intro m o
    rw [List.foldl_cons, ih, List.map_cons, List.mem_cons, not_or, ← and_assoc]
    refine and_congr_left fun _ => ?_
    by_cases ho : o = e.1
    · subst ho; simp
    · simp [ho, AList.lookup_insert_ne ho]

theorem mapNextTx_addUnchecked (pool : CTxMemPool) (hash : Uint256) (tx : CTransaction) (o : COutPoint) :
    (pool.addUnchecked hash tx).mapNextTx.lookup o = none ↔
      pool.mapNextTx.lookup o = none ∧ o ∉ tx.prevouts := by
  have hall := lookup_insertAll hash tx.prevouts.zipIdx pool.mapNextTx o
  rw [List.zipIdx_map_fst] at hall
  exact hall

theorem mapNextTx_addAll (txs : List CTransaction) : ∀ (pool : CTxMemPool) (o : COutPoint),
    (pool.addAll env txs).mapNextTx.lookup o = none ↔
      pool.mapNextTx.lookup o = none ∧ ∀ tx ∈ txs, o ∉ tx.prevouts := by
  induction txs with
  | nil => intro pool o; simp [addAll]
  | cons tx txs ih =>
    intro pool o
    have hrest := ih (pool.addUnchecked (env.getHash tx) tx) o
    rw [mapNextTx_addUnchecked, and_assoc] at hrest
    rw [List.forall_mem_cons]
    exact hrest

/-! ### Transactions with confirmed inputs -/

/-- A transaction of a block: the database has its position on disk. -/
def OnDisk (txdb : CTxDB) (hash : Uint256) : Prop :=
  ∃ txindex, txdb.readTxIndex hash = some txindex ∧ txindex.pos ≠ CDiskTxPos.memoryPool

/-- The inputs of a transaction with confirmed inputs are fetched without looking into the pool. -/
theorem fetchInputs_onDisk (env : Env) {txdb : CTxDB} (hdisk : ∀ o ∈ tx.prevouts, OnDisk txdb o.hash)
    (pool pool' : CTxMemPool) (q : StdMap Uint256 CTxIndex) :
    fetchInputs env txdb pool q false false tx = fetchInputs env txdb pool' q false false tx := by
  have hround : ∀ (st : MapPrevTx) (o : COutPoint), OnDisk txdb o.hash →
      fetchInput env txdb pool q false false st o = fetchInput env txdb pool' q false false st o := by
    rintro st o ⟨txindex, hread, hpos⟩
    have hfind : findTxIndex txdb q false false o.hash = some txindex := hread
    simp only [fetchInput, hfind, if_neg hpos]
  have hfold : ∀ (prevouts : List COutPoint) (st : MapPrevTx), (∀ o ∈ prevouts, OnDisk txdb o.hash) →
      prevouts.foldlM (fetchInput env txdb pool q false false) st =
        prevouts.foldlM (fetchInput env txdb pool' q false false) st := by
    intro prevouts
    induction prevouts with
    | nil => exact fun st _ => rfl
    | cons o prevouts ih =>
      intro st hall
      rw [List.forall_mem_cons] at hall
      rw [List.foldlM_cons, List.foldlM_cons, hround st o hall.1]
      exact bind_congr fun st' => ih st' hall.2
  unfold fetchInputs
  rw [hfold tx.prevouts ∅ hdisk]

/-- A transaction on its way that is valid, standard and pays its fee, where the inputs may come from
`pool`.  The node does not know it yet, and nothing in its own pool spends what it spends. -/
structure ValidArrival (env : Env) (s : TxNode) (pool : CTxMemPool) (a : TxMessage) : Prop where
  command : a.command = .tx
  unknown : proceeds env a s = true
  checked : a.tx.checkTransaction = .ok ()
  isCoinBase : a.tx.isCoinBase = false
  isCoinStake : a.tx.isCoinStake = false
  standard : a.ctx.isStandardTx a.tx = true
  unlocked : conflictsWithLock a.ctx (env.getHash a.tx) a.tx = false
  free : ∀ o ∈ a.tx.prevouts, s.node.mempool.mapNextTx.lookup o = none
  onDisk : ∀ o ∈ a.tx.prevouts, s.node.containsTx o.hash = true → OnDisk ⟨s.node.txdb.pdb, none⟩ o.hash
  accepted :
    (acceptFetched env a.ctx { s.node with mempool := pool } ⟨s.node.txdb.pdb, none⟩ a.tx).isOk = true

theorem ValidArrival.containsTx (h : ValidArrival env s pool a) :
    s.node.mempool.contains (env.getHash a.tx) = false ∧
      s.mapOrphanTransactions.lookup (env.getHash a.tx) = none ∧
      s.node.containsTx (env.getHash a.tx) = false := by
  have hunknown := h.unknown
  simp only [proceeds, h.command, Bool.not_eq_true', Bool.or_eq_false_iff, Option.isSome_eq_false_iff,
    Option.isNone_iff_eq_none] at hunknown
  exact ⟨hunknown.1.1, hunknown.1.2, hunknown.2⟩

/-- **A transaction with confirmed inputs is accepted**, by any pool that has neither it nor a
conflict. -/
theorem acceptToMemoryPool_confirmed (h : ValidArrival env s pool a)
    (hconfirmed : ∀ o ∈ a.tx.prevouts, s.node.containsTx o.hash = true)
    (hfresh : pool'.contains (env.getHash a.tx) = false)
    (hfree : ∀ o ∈ a.tx.prevouts, pool'.mapNextTx.lookup o = none)
    (walletSyncs : List (CTransaction × Bool)) :
    acceptToMemoryPool env a.ctx { s.node with mempool := pool', walletSyncs := walletSyncs } a.tx =
      .ok { s.node with
        mempool := pool'.addUnchecked (env.getHash a.tx) a.tx
        walletSyncs := walletSyncs ++ [(a.tx, true)] } := by
  have hfetch := fetchInputs_onDisk env (fun o ho => h.onDisk o ho (hconfirmed o ho)) pool' pool ∅
  have hany : (a.tx.prevouts.any fun o => (pool'.mapNextTx.lookup o).isSome) = false := by
    rw [List.any_eq_false]
    intro o ho
    rw [hfree o ho]
    simp
  have hall : (!a.tx.prevouts.all fun o => s.node.containsTx o.hash) = false := by
    rw [List.all_eq_true.mpr hconfirmed]
    rfl
  have hinputs : acceptInputs env a.ctx { s.node with mempool := pool', walletSyncs := walletSyncs }
      ⟨s.node.txdb.pdb, none⟩ (env.getHash a.tx) a.tx = .ok () := by
    obtain ⟨⟨⟩, haccepted⟩ := exists_of_isOk h.accepted
    simp only [acceptFetched, ← hfetch] at haccepted
    simp only [acceptInputs, exceptBind_ok, rejectIf_eq_ok]
    exact ⟨(), h.containsTx.2.2, (), hall, haccepted⟩
  unfold acceptToMemoryPool
  simp only [h.checked, exceptBind_ok, rejectIf_eq_ok]
  exact ⟨(), h.isCoinBase, (), h.isCoinStake, (), by rw [h.standard]; rfl, (), hfresh, (), h.unlocked, (),
    hany, (), hinputs, rfl⟩

/-! ### The run -/

/-- Every transaction that has arrived is in the pool, and none is an orphan. -/
def AllResolved (env : Env) (arrivals : List TxMessage) (s : TxNode) : Prop :=
  ∀ a ∈ arrivals, s.node.mempool.contains (env.getHash a.tx) = true ∧
    s.mapOrphanTransactions.lookup (env.getHash a.tx) = none

/-- The transactions arrive one after the other, and in the end they are all in the pool. -/
def OrphansResolved (env : Env) (s : TxNode) (arrivals : List TxMessage) : Prop :=
  ∃ s', (∀ fuel, s.nOrphans + arrivals.length + 1 ≤ fuel →
    arrivals.foldlM (fun s a => processTx env fuel a s) s = some s') ∧ AllResolved env arrivals s'

/-- A set of valid transactions that depend on each other or on transactions of the database.  All
their inputs are found once all of them are in the pool, and no two of them are in conflict. -/
structure ValidArrivals (env : Env) (s : TxNode) (arrivals : List TxMessage) : Prop where
  valid : ∀ a ∈ arrivals, ValidArrival env s (s.node.mempool.addAll env (arrivals.map TxMessage.tx)) a
  hashes : (arrivals.map fun a => env.getHash a.tx).Nodup
  conflicts : arrivals.Pairwise fun a b => ∀ o ∈ a.tx.prevouts, o ∉ b.tx.prevouts

theorem processTxs_eq : ∀ (arrivals : List TxMessage) {s : TxNode}, OrphansIndexed env s → ∀ fuel,
    s.nOrphans + arrivals.length + 1 ≤ fuel →
      arrivals.foldlM (fun s a => processTx env fuel a s) s = some (arrivals.foldl (handleTx env) s) := by
  intro arrivals
  induction arrivals with
  | nil => exact fun _ _ _ => rfl
  | cons a arrivals ih =>
    intro s h fuel hfuel
    obtain ⟨hrun, h', hsize, -⟩ := processTx_total h a
    rw [List.length_cons] at hfuel
    rw [List.foldlM_cons, hrun fuel (by omega)]
    exact ih h' fuel (by omega)

/-- A transaction with an input that is not confirmed stays out of the pool. -/
theorem handleTx_unconfirmed (h : OrphansIndexed env s)
    (hashes : (arrivals.map fun a => env.getHash a.tx).Nodup) (ha : a ∈ arrivals)
    (hpool : s.node.mempool.contains (env.getHash a.tx) = false) {o : COutPoint}
    (ho : o ∈ a.tx.prevouts) (hmissing : s.node.containsTx o.hash = false) :
    (arrivals.foldl (handleTx env) s).node.mempool.contains (env.getHash a.tx) = false := by
  have hinv := @Loop.foldl_inv _ _ (handleTx env) arrivals s
    (fun _ st => OrphansIndexed env st ∧ st.node.containsTx o.hash = false ∧
      st.node.mempool.contains (env.getHash a.tx) = false) ⟨h, hmissing, hpool⟩ ?_
  · exact hinv.2.2
  · rintro done b rest st hsplit ⟨hst, hmissing, hpool⟩
    obtain ⟨-, hst', -, hnode⟩ := processTx_total hst b
    refine ⟨hst', ?_⟩
    rcases hnode with heq | haccept
    · rw [heq]
      exact ⟨hmissing, hpool⟩
    · have hok := (acceptToMemoryPool_ok haccept).node_eq
      rw [hok]
      refine ⟨hmissing, ?_⟩
      rw [contains_addUnchecked, hpool, Bool.false_or, decide_eq_false_iff_not]
      intro heq
      have hb : b ∈ arrivals := by simp [hsplit]
      obtain rfl : a = b := List.inj_on_of_nodup_map hashes ha hb heq
      have hfound := (acceptToMemoryPool_indexed haccept).2 o ho
      rw [hmissing] at hfound
      cases hfound

theorem ValidArrivals.fresh {rest : List TxMessage} {a : TxMessage} (h : ValidArrivals env s arrivals)
    (hsplit : arrivals = done ++ a :: rest) :
    (s.node.mempool.addAll env (done.map TxMessage.tx)).contains (env.getHash a.tx) = false := by
  have ha : a ∈ arrivals := by simp [hsplit]
  rw [← Bool.not_eq_true, contains_addAll, (h.valid a ha).containsTx.1]
  rintro (hfalse | ⟨tx, htx, heq⟩)
  · cases hfalse
  · obtain ⟨b, hb, rfl⟩ := List.mem_map.mp htx
    have hnodup := h.hashes
    rw [hsplit, List.map_append, List.map_cons] at hnodup
    exact (List.nodup_append.mp hnodup).2.2 _ (List.mem_map_of_mem hb) _ (by simp) heq

/-- No transaction that has arrived before spends what the one that arrives spends. -/
theorem ValidArrivals.free {rest : List TxMessage} {a : TxMessage} (h : ValidArrivals env s arrivals)
    (hsplit : arrivals = done ++ a :: rest) :
    ∀ o ∈ a.tx.prevouts,
      (s.node.mempool.addAll env (done.map TxMessage.tx)).mapNextTx.lookup o = none := by
  intro o ho
  have ha : a ∈ arrivals := by simp [hsplit]
  refine (mapNextTx_addAll _ _ _).mpr ⟨(h.valid a ha).free o ho, fun tx htx hob => ?_⟩
  obtain ⟨b, hb, rfl⟩ := List.mem_map.mp htx
  have hconflicts := h.conflicts
  rw [hsplit] at hconflicts
  exact (List.pairwise_append.mp hconflicts).2.2 b hb a (by simp) o hob ho

/-- The transactions that have arrived are in the pool, and there is no orphan more than before. -/
structure Handled (env : Env) (s : TxNode) (done : List TxMessage) (st : TxNode) : Prop where
  indexed : OrphansIndexed env st
  node : ∃ walletSyncs, st.node = { s.node with
    mempool := s.node.mempool.addAll env (done.map TxMessage.tx), walletSyncs := walletSyncs }
  orphans : ∀ hash tx, st.mapOrphanTransactions.lookup hash = some tx →
    s.mapOrphanTransactions.lookup hash = some tx

theorem Handled.no_orphan {st : TxNode} (h : Handled env s done st) {hash : Uint256}
    (hnone : s.mapOrphanTransactions.lookup hash = none) :
    st.mapOrphanTransactions.lookup hash = none := by
  by_contra hne
  obtain ⟨tx, hlookup⟩ := Option.ne_none_iff_exists'.mp hne
  rw [h.orphans _ _ hlookup] at hnone
  cases hnone

theorem Handled.step {rest : List TxMessage} {a : TxMessage} {st : TxNode} (h : Handled env s done st)
    (hvalid : ValidArrivals env s arrivals) (hsplit : arrivals = done ++ a :: rest)
    (hconfirmed : ∀ o ∈ a.tx.prevouts, s.node.containsTx o.hash = true) :
    Handled env s (done ++ [a]) (handleTx env st a) := by
  obtain ⟨walletSyncs, hnode⟩ := h.node
  have hone := hvalid.valid a (by simp [hsplit])
  have hfresh := hvalid.fresh hsplit
  have haccept := acceptToMemoryPool_confirmed hone hconfirmed hfresh (hvalid.free hsplit) walletSyncs
  rw [← hnode] at haccept
  have hproceeds : proceeds env a st = true := by
    obtain ⟨-, horphan, hdb⟩ := hone.containsTx
    simp only [proceeds, hone.command, hnode, hfresh, h.no_orphan horphan, Option.isSome_none,
      Bool.or_false, Bool.false_or, Bool.not_eq_true']
    exact hdb
  obtain ⟨hrun, hst', -⟩ := processTx_total h.indexed a
  have heq := (hrun _ le_rfl).symm.trans (processTx_accepted h.indexed hproceeds haccept st.nOrphans)
  rw [Option.some.injEq] at heq
  refine ⟨hst', ⟨walletSyncs ++ [(a.tx, true)], ?_⟩, fun hash tx hlookup => ?_⟩
  · rw [heq, node_eraseAll, List.map_append, List.map_singleton, addAll_concat]
  · rw [heq] at hlookup
    have hold := lookup_eraseAll _ _ hlookup
    exact h.orphans hash tx hold

theorem handleTx_confirmed (h : OrphansIndexed env s) (hvalid : ValidArrivals env s arrivals)
    (hconfirmed : ∀ a ∈ arrivals, ∀ o ∈ a.tx.prevouts, s.node.containsTx o.hash = true) :
    AllResolved env arrivals (arrivals.foldl (handleTx env) s) := by
  have hstart : Handled env s [] s := ⟨h, ⟨_, rfl⟩, fun _ _ hlookup => hlookup⟩
  have hend := @Loop.foldl_inv _ _ (handleTx env) arrivals s (Handled env s) hstart
    fun done a rest st hsplit hst => hst.step hvalid hsplit (hconfirmed a (by simp [hsplit]))
  intro a ha
  obtain ⟨walletSyncs, hnode⟩ := hend.node
  constructor
  · rw [hnode]
    exact (contains_addAll _ _ _).mpr (.inr ⟨a.tx, List.mem_map_of_mem ha, rfl⟩)
  · exact hend.no_orphan (hvalid.valid a ha).containsTx.2.1

/-- **Orphans are resolved only if there are none.**  A set of valid transactions that have arrived in
any order is in the pool exactly when every input of every one of them is confirmed. -/
theorem orphansResolved_iff {arrivals : List TxMessage} (h : TxReached env s)
    (hvalid : ValidArrivals env s arrivals) :
    OrphansResolved env s arrivals ↔
      ∀ a ∈ arrivals, ∀ o ∈ a.tx.prevouts, s.node.containsTx o.hash = true := by
  have hrun := processTxs_eq arrivals h.indexed
  constructor
  · rintro ⟨s', hrun', hall⟩ a ha o ho
    have heq : arrivals.foldl (handleTx env) s = s' :=
      Option.some.inj ((hrun _ le_rfl).symm.trans (hrun' _ le_rfl))
    by_contra hmissing
    have hout := handleTx_unconfirmed h.indexed hvalid.hashes ha (hvalid.valid a ha).containsTx.1 ho
      (Bool.eq_false_iff.mpr hmissing)
    rw [heq, (hall a ha).1] at hout
    cases hout
  · exact fun hconfirmed => ⟨_, hrun, handleTx_confirmed h.indexed hvalid hconfirmed⟩

/-! ### A parent and its child -/

def childTx : CTransaction :=
  { nTime := 12, vin := [⟨⟨1011, 0⟩, [], uintMax⟩], vout := [⟨5 * coin, [1], -10⟩] }

def arrivalOf (tx : CTransaction) : TxMessage where
  command := .tx
  tx := tx
  ctx := sampleCtx
  orphanCtx _ := sampleCtx
  randHash _ := 0

def arrivalNode : TxNode := ⟨sampleNode [fundingIndex], ∅, ∅⟩

theorem validArrival_ordinaryTx (txs : List CTransaction) (hok : (acceptFetched (sampleEnv []) sampleCtx
    { arrivalNode.node with mempool := arrivalNode.node.mempool.addAll (sampleEnv []) txs }
    ⟨arrivalNode.node.txdb.pdb, none⟩ ordinaryTx).isOk = true) :
    ValidArrival (sampleEnv []) arrivalNode (arrivalNode.node.mempool.addAll (sampleEnv []) txs)
      (arrivalOf ordinaryTx) := by
  refine ⟨rfl, by decide, rfl, by decide, by decide, rfl, by decide, by decide, ?_, hok⟩
  intro o ho _
  obtain rfl : o = ⟨1001, 0⟩ := by simpa [arrivalOf, ordinaryTx, CTransaction.prevouts] using ho
  exact ⟨CTxIndex.mk' (.pos 1 8 (8 + fundingBlock.txOffset 1)) 2, rfl, by decide⟩

theorem validArrivals_family :
    ValidArrivals (sampleEnv []) arrivalNode [arrivalOf ordinaryTx, arrivalOf childTx] := by
  refine ⟨?_, by decide, by decide⟩
  rw [List.forall_mem_cons, List.forall_mem_singleton]
  refine ⟨validArrival_ordinaryTx _ (by decide), rfl, by decide, rfl, by decide,
    by decide, rfl, by decide, by decide, ?_, by decide⟩
  intro o ho hmem
  obtain rfl : o = ⟨1011, 0⟩ := by simpa [arrivalOf, childTx, CTransaction.prevouts] using ho
  exact absurd hmem (by decide)

/-- The parent alone is resolved, parent and child are not. -/
theorem orphansResolved_iff_family : OrphansResolved (sampleEnv []) arrivalNode [arrivalOf ordinaryTx] ∧
    ¬ OrphansResolved (sampleEnv []) arrivalNode [arrivalOf ordinaryTx, arrivalOf childTx] := by
  refine ⟨(orphansResolved_iff (.start _) ⟨?_, by decide, by simp⟩).mpr (by decide), fun h => ?_⟩
  · intro a ha
    obtain rfl := List.mem_singleton.mp ha
    exact validArrival_ordinaryTx _ (by decide)
  · have hparent := (orphansResolved_iff (.start _) validArrivals_family).mp h
    exact absurd (hparent (arrivalOf childTx) (by simp) ⟨1011, 0⟩ (by decide)) (by decide)

/-- **A child that stays an orphan.**  Parent and child are valid and arrive in this order; the child is
not in the pool in the end. -/
theorem orphansResolved_child :
    ValidArrivals (sampleEnv []) arrivalNode [arrivalOf ordinaryTx, arrivalOf childTx] ∧
      ¬ OrphansResolved (sampleEnv []) arrivalNode [arrivalOf ordinaryTx, arrivalOf childTx] := by
  refine ⟨validArrivals_family, ?_⟩
  rintro ⟨s', hrun, hall⟩
  have heval : ([arrivalOf ordinaryTx, arrivalOf childTx].foldlM
      (fun s a => processTx (sampleEnv []) 3 a s) arrivalNode).map
      (fun s => s.node.mempool.contains 1012) = some false := by decide
  rw [hrun 3 (by decide)] at heval
  have hin : s'.node.mempool.contains 1012 = true := (hall (arrivalOf childTx) (by simp)).1
  rw [Option.map_some, hin] at heval
  cases heval

end Sphinx
