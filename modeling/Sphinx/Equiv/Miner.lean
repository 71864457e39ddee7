import Sphinx.Miner
import Sphinx.Equiv.StagedIndex

/-!
# The transactions of a new block

* `PriorityState.pending`, `TemplateState.pending`: the transactions that can still get into the block.  They are pool
  transactions, each is there once, and none of them is in the block already.
* `TemplateInv`: this, and what is known of the transactions in the block.
* `createNewBlock_ok`: the block that `CreateNewBlock` makes.
-/

namespace Sphinx

open CTransaction (NoCollision prevouts)
open CTxMemPool (PoolInv addUnchecked_inv poolInv_empty)

variable {D : Type} {env : Env} {ctx : Ctx} {node : Node} {mctx : MinerCtx D} {T : Set CTransaction}
  {chain : List Placed}
variable {vOrphan : List (Option (COrphan D))} {nHeight : Nat} {mapInputs : MapPrevTx}
  {fProofOfStake : Bool}

/-! ### The transactions that wait -/

/-- The transaction of an orphan that still depends on another one. -/
def waitingTx (slot : Option (COrphan D)) : Option CTransaction :=
  slot.bind fun porphan => if porphan.setDependsOn = ∅ then none else some porphan.ptx

def waitingTxs (vOrphan : List (Option (COrphan D))) : List CTransaction := vOrphan.filterMap waitingTx

theorem waitingTxs_append (v v' : List (Option (COrphan D))) :
    waitingTxs (v ++ v') = waitingTxs v ++ waitingTxs v' := List.filterMap_append

theorem waitingTxs_singleton (slot : Option (COrphan D)) : waitingTxs [slot] = (waitingTx slot).toList := by
  cases h : waitingTx slot <;> simp [waitingTxs, h]

/-- The slot of an orphan only says whether its transaction waits. -/
theorem exists_waitingTxs_set {p : Nat} {slot : Option (COrphan D)} (h : vOrphan[p]? = some slot) :
    ∃ rest, ∀ slot',
      (waitingTxs (vOrphan.set p slot')).Perm ((waitingTx slot').toList ++ rest) ∧
        (waitingTxs vOrphan).Perm ((waitingTx slot).toList ++ rest) := by
  obtain ⟨hlt, hget⟩ := List.getElem?_eq_some_iff.mp h
  have hsplit (s : Option (COrphan D)) : (waitingTxs (vOrphan.take p ++ s :: vOrphan.drop (p + 1))).Perm
      ((waitingTx s).toList ++ (waitingTxs (vOrphan.take p) ++ waitingTxs (vOrphan.drop (p + 1)))) := by
    rw [waitingTxs_append, ← List.singleton_append, waitingTxs_append, waitingTxs_singleton,
      ← List.append_assoc, ← List.append_assoc]
    exact List.Perm.append_right _ List.perm_append_comm
  refine ⟨waitingTxs (vOrphan.take p) ++ waitingTxs (vOrphan.drop (p + 1)), fun slot' => ⟨?_, ?_⟩⟩
  · rw [List.set_eq_take_append_cons_drop, if_pos hlt]
    exact hsplit slot'
  · have hself : vOrphan = vOrphan.take p ++ slot :: vOrphan.drop (p + 1) := by
      rw [← hget, ← List.drop_eq_getElem_cons hlt, List.take_append_drop]
    conv_lhs => rw [hself]
    exact hsplit slot

/-- The transactions with a place in the heap, and those that wait for one. -/
def PriorityState.pending (st : PriorityState D) : List CTransaction :=
  st.vecPriority.map TxPriority.ptx ++ waitingTxs st.vOrphan

def TemplateState.pending (st : TemplateState D) : List CTransaction :=
  st.vecPriority.map TxPriority.ptx ++ waitingTxs st.vOrphan

/-! ### The first loop -/

/-- At most one orphan is made for a transaction, at the end of the list. -/
def ScanInv (vOrphan : List (Option (COrphan D))) (tx : CTransaction) (scan : PriorityScan D) : Prop :=
  (scan.porphan = none ∧ scan.vOrphan = vOrphan) ∨
    (scan.porphan = some vOrphan.length ∧ ∃ slot : Option (COrphan D), scan.vOrphan = vOrphan ++ [slot] ∧
      ∀ porphan ∈ slot, porphan.ptx = tx)

theorem modifyOrphan_last (vOrphan : List (Option (COrphan D))) (slot : Option (COrphan D))
    (f : COrphan D → COrphan D) :
    modifyOrphan (vOrphan ++ [slot]) vOrphan.length f = vOrphan ++ [slot.map f] := by
  rw [modifyOrphan, List.modify_eq_take_cons_drop (by simp)]
  simp

theorem scanInv_wait {tx : CTransaction} {scan : PriorityScan D} (h : ScanInv vOrphan tx scan) :
    (scan.wait mctx tx).2 = vOrphan.length ∧
      ∃ slot : Option (COrphan D), (scan.wait mctx tx).1.vOrphan = vOrphan ++ [slot] ∧
        (scan.wait mctx tx).1.porphan = some vOrphan.length ∧ ∀ porphan ∈ slot, porphan.ptx = tx := by
  rcases h with ⟨hnone, hsame⟩ | ⟨hsome, slot, hslot, htx⟩
  · rw [PriorityScan.wait, hnone]
    refine ⟨by rw [hsame], some ⟨tx, ∅, mctx.double.zero, mctx.double.zero⟩, by rw [hsame], by rw [hsame], ?_⟩
    intro porphan hmem
    obtain rfl := Option.mem_some_iff.mp hmem
    rfl
  · rw [PriorityScan.wait, hsome]
    exact ⟨rfl, slot, hslot, hsome, htx⟩

theorem scanInput_inv {tx : CTransaction} {scan scan' : PriorityScan D} {prevout : COutPoint}
    (h : ScanInv vOrphan tx scan) (hstep : scanInput env node mctx tx scan prevout = .ok scan') :
    ScanInv vOrphan tx scan' := by
  unfold scanInput at hstep
  by_cases hmissing : scan.fMissingInputs = true
  · rw [if_pos hmissing] at hstep
    obtain rfl := Except.ok.inj hstep
    exact h
  rw [if_neg hmissing] at hstep
  cases hread : readTxPrev env node.readTxDB prevout with
  | some prev =>
    simp only [hread] at hstep
    obtain rfl := Except.ok.inj hstep
    exact h
  | none =>
    simp only [hread] at hstep
    cases hpool : node.mempool.lookup prevout.hash with
    | none =>
      simp only [hpool] at hstep
      by_cases hdebug : mctx.fDebug = true
      · rw [if_pos hdebug] at hstep
        cases hstep
      rw [if_neg hdebug] at hstep
      obtain rfl := Except.ok.inj hstep
      rcases h with ⟨hnone, hsame⟩ | ⟨hsome, slot, hslot, -⟩
      · exact .inl ⟨hnone, by rw [hnone]; exact hsame⟩
      · refine .inr ⟨hsome, none, ?_, by simp⟩
        rw [hsome, hslot]
        simp
    | some txPrev =>
      simp only [hpool] at hstep
      -- the transaction waits for this parent, in the last slot
      obtain ⟨hp, slot, hslot, hporphan, htx⟩ := @scanInv_wait D mctx vOrphan tx scan h
      cases hout : txPrev.vout[prevout.n]? with
      | none =>
        rw [hout] at hstep
        cases hstep
      | some txout =>
        simp only [hout] at hstep
        obtain rfl := Except.ok.inj hstep
        refine .inr ⟨hporphan, _, by rw [hp, hslot]; exact modifyOrphan_last _ _ _, fun porphan hmem => ?_⟩
        obtain ⟨porphan', hmem', rfl⟩ := Option.map_eq_some_iff.mp hmem
        exact htx porphan' hmem'

theorem waitingTx_sublist {slot : Option (COrphan D)} {tx : CTransaction} (h : ∀ porphan ∈ slot, porphan.ptx = tx) :
    ((waitingTx slot).toList).Sublist [tx] := by
  cases slot with
  | none => exact List.nil_sublist _
  | some porphan =>
    by_cases hdeps : porphan.setDependsOn = ∅
    · simp [waitingTx, hdeps]
    · simp [waitingTx, hdeps, h porphan rfl]

/-- The transactions that the first loop does not leave out for what they are. -/
def ordinaryTxs (txs : List CTransaction) : List CTransaction :=
  txs.filter fun tx => !tx.isCoinBase && !tx.isCoinStake

theorem ordinary_of_mem {txs : List CTransaction} {tx : CTransaction} (h : tx ∈ ordinaryTxs txs) :
    tx.isCoinBase = false ∧ tx.isCoinStake = false := by
  have hkept := List.of_mem_filter h
  simpa using hkept

/-- **One round of the first loop**: at most one more transaction is pending. -/
theorem addPriority_pending {st st' : PriorityState D} {tx : CTransaction}
    (h : addPriority env ctx node mctx nHeight st tx = .ok st') :
    ∃ new, st'.pending.Perm (st.pending ++ new) ∧ new.Sublist (ordinaryTxs [tx]) := by
  unfold addPriority at h
  by_cases hskip : (tx.isCoinBase || tx.isCoinStake ||
      !isFinalTx node.nBestHeight ctx.nAdjustedTime tx nHeight 0) = true
  · rw [if_pos hskip] at h
    obtain rfl := Except.ok.inj h
    exact ⟨[], by rw [List.append_nil], List.nil_sublist _⟩
  rw [if_neg hskip] at h
  have hkept : ordinaryTxs [tx] = [tx] := by
    simp only [Bool.or_eq_true, not_or, Bool.not_eq_true] at hskip
    simp [ordinaryTxs, hskip.1.1, hskip.1.2]
  rw [hkept]
  obtain ⟨scan, hscan, h⟩ := exceptBind_ok.mp h
  have hinv : ScanInv st.vOrphan tx scan :=
    Loop.foldlM_inv (fun _ scan => ScanInv st.vOrphan tx scan) hscan (.inl ⟨rfl, rfl⟩)
      fun _ _ _ _ _ _ hI hstep => scanInput_inv hI hstep
  -- with a slot at the end of the list at most its transaction waits
  have hslot {slot : Option (COrphan D)} {deps : StdMap Uint256 (List Nat)}
      (htx : ∀ porphan ∈ slot, porphan.ptx = tx) :
      ∃ new, ({ st with vOrphan := st.vOrphan ++ [slot], mapDependers := deps } : PriorityState D).pending.Perm
        (st.pending ++ new) ∧ new.Sublist [tx] :=
    ⟨(waitingTx slot).toList, by
      rw [PriorityState.pending, PriorityState.pending, waitingTxs_append, waitingTxs_singleton, List.append_assoc],
      waitingTx_sublist htx⟩
  by_cases hmissing : scan.fMissingInputs = true
  · rw [if_pos hmissing] at h
    obtain rfl := Except.ok.inj h
    rcases hinv with ⟨-, hsame⟩ | ⟨-, slot, hlast, htx⟩
    · exact ⟨[], by rw [List.append_nil, hsame]; rfl, List.nil_sublist _⟩
    · rw [hlast]
      exact hslot htx
  rw [if_neg hmissing] at h
  obtain ⟨_, -, h⟩ := exceptBind_ok.mp h
  rcases hinv with ⟨hnone, hsame⟩ | ⟨hsome, slot, hlast, htx⟩
  · rw [hnone] at h
    obtain rfl := Except.ok.inj h
    refine ⟨[tx], ?_, List.Sublist.refl _⟩
    rw [PriorityState.pending, PriorityState.pending, hsame, List.map_append, List.append_assoc, List.append_assoc]
    exact List.Perm.append_left _ List.perm_append_comm
  · simp only [hsome] at h
    obtain rfl := Except.ok.inj h
    rw [hlast, modifyOrphan_last]
    refine hslot fun porphan hmem => ?_
    obtain ⟨porphan', hmem', rfl⟩ := Option.map_eq_some_iff.mp hmem
    exact htx porphan' hmem'

/-- After the first loop the pending transactions are transactions of the pool, each once. -/
theorem addPriority_run {txs : List CTransaction} {st : PriorityState D}
    (h : txs.foldlM (addPriority env ctx node mctx nHeight) {} = .ok st) :
    st.pending.Subperm (ordinaryTxs txs) := by
  refine Loop.foldlM_inv (fun done (st : PriorityState D) => st.pending.Subperm (ordinaryTxs done)) h
    List.nil_subperm ?_
  intro done tx _ st st' _ hst hstep
  obtain ⟨new, hperm, hnew⟩ := addPriority_pending hstep
  rw [ordinaryTxs, List.filter_append]
  exact hperm.subperm.trans (hst.append hnew.subperm)

/-! ### What holds of the block -/

/-- The signature operations of a transaction that comes after `done` in the block. -/
def templateSigOps (env : Env) (chain : List Placed) (done : List CTransaction) (tx : CTransaction) : Int :=
  tx.getLegacySigOpCount + (tx.vin.map fun txin =>
    let txout := spentOutput env (done ++ chain.map Placed.tx) txin.prevout
    if CScript.isPayToScriptHash txout.scriptPubKey then
      CScript.getSigOpCountP2SH txout.scriptPubKey txin.scriptSig else 0).sum

/-- Its fee: the values of the outputs that it spends minus the values of its own. -/
def templateFee (env : Env) (chain : List Placed) (done : List CTransaction) (tx : CTransaction) : CAmount :=
  (tx.prevouts.map fun o => (spentOutput env (done ++ chain.map Placed.tx) o).nValue).sum - tx.valueOut

/-- The transactions `vtx` can stand behind a coinbase, and their fees are `nFees`. -/
structure TemplateOk (env : Env) (pool : CTxMemPool) (chain : List Placed) (nBlockMaxSize : Nat)
    (vtx : List CTransaction) (nFees : CAmount) : Prop where
  inPool : ∀ tx ∈ vtx, pool.lookup (env.getHash tx) = some tx
  nodup : (vtx.map env.getHash).Nodup
  inputs : ∀ done tx rest, vtx = done ++ tx :: rest →
    ∀ o ∈ tx.prevouts, UnspentOnChain env chain o ∨ OutputOf env done o
  spentOnce : (vtx.flatMap prevouts).Nodup
  size_lt : vtx ≠ [] → (vtx.map CTransaction.getSerializeSize).sum + 1000 < nBlockMaxSize
  sigOps_lt : Loop.sumAlong (templateSigOps env chain) [] vtx + 100 < maxBlockSigOps
  nFees_eq : nFees = Loop.sumAlong (templateFee env chain) [] vtx

/-- A transaction that the second loop may still place after the transactions `txs`. -/
structure CanPlace (env : Env) (pool : CTxMemPool) (txs : List CTransaction) (tx : CTransaction) : Prop where
  inPool : pool.lookup (env.getHash tx) = some tx
  ordinary : tx.isCoinBase = false ∧ tx.isCoinStake = false
  fresh : env.getHash tx ∉ txs.map env.getHash

/-- The transactions that `tx` spends from are on the chain or among `done`, none of them is younger than `tx`, and
`tx` does not pay out more than it takes in. -/
structure Sourced (env : Env) (chain : List Placed) (done : List CTransaction) (tx : CTransaction) : Prop where
  prev : ∀ o ∈ tx.prevouts, ∃ txPrev ∈ done ++ chain.map Placed.tx, env.getHash txPrev = o.hash ∧
    txPrev.nTime ≤ tx.nTime
  fee_nonneg : 0 ≤ templateFee env chain done tx

/-- The invariant of the second loop. -/
structure TemplateInv (env : Env) (pool : CTxMemPool) (chain : List Placed) (nBlockMaxSize : Nat)
    (st : TemplateState D) : Prop where
  staged : StagedTxs env pool (ledgerIndex env chain) st.vtx
  index : overlay st.mapTestPool (ledgerIndex env chain) = stagedIndex env (ledgerIndex env chain) st.vtx
  pending_nodup : (st.pending.map env.getHash).Nodup
  canPlace : ∀ tx ∈ st.pending, CanPlace env pool st.vtx tx
  ordinary : ∀ tx ∈ st.vtx, tx.isCoinBase = false ∧ tx.isCoinStake = false
  inputs : ∀ done tx rest, st.vtx = done ++ tx :: rest →
    ∀ o ∈ tx.prevouts, UnspentOnChain env chain o ∨ OutputOf env done o
  sourced : ∀ done tx rest, st.vtx = done ++ tx :: rest → Sourced env chain done tx
  nBlockSize_eq : st.nBlockSize = (st.vtx.map CTransaction.getSerializeSize).sum + 1000
  nBlockSize_lt : st.vtx ≠ [] → st.nBlockSize < nBlockMaxSize
  nBlockSigOps_eq : st.nBlockSigOps = Loop.sumAlong (templateSigOps env chain) [] st.vtx + 100
  nBlockSigOps_lt : st.nBlockSigOps < maxBlockSigOps
  nFees_eq : st.nFees = Loop.sumAlong (templateFee env chain) [] st.vtx

/-- The block is as before, and so are the pending transactions up to their order. -/
structure Reordered (st st' : TemplateState D) : Prop where
  mapTestPool : st'.mapTestPool = st.mapTestPool
  vtx : st'.vtx = st.vtx
  nBlockSize : st'.nBlockSize = st.nBlockSize
  nBlockSigOps : st'.nBlockSigOps = st.nBlockSigOps
  nFees : st'.nFees = st.nFees
  pending : st'.pending.Perm st.pending

theorem Reordered.refl (st : TemplateState D) : Reordered st st := ⟨rfl, rfl, rfl, rfl, rfl, .refl _⟩

theorem Reordered.trans {st st' st'' : TemplateState D} (h : Reordered st st') (h' : Reordered st' st'') :
    Reordered st st'' :=
  ⟨h'.mapTestPool.trans h.mapTestPool, h'.vtx.trans h.vtx, h'.nBlockSize.trans h.nBlockSize,
    h'.nBlockSigOps.trans h.nBlockSigOps, h'.nFees.trans h.nFees, h'.pending.trans h.pending⟩

theorem TemplateInv.reordered {pool : CTxMemPool} {nBlockMaxSize : Nat} {st st' : TemplateState D}
    (hinv : TemplateInv env pool chain nBlockMaxSize st) (h : Reordered st st') :
    TemplateInv env pool chain nBlockMaxSize st' where
  staged := by rw [h.vtx]; exact hinv.staged
  index := by rw [h.vtx, h.mapTestPool]; exact hinv.index
  pending_nodup := (h.pending.map _).nodup_iff.mpr hinv.pending_nodup
  canPlace tx htx := by rw [h.vtx]; exact hinv.canPlace tx (h.pending.mem_iff.mp htx)
  ordinary := by rw [h.vtx]; exact hinv.ordinary
  inputs := by rw [h.vtx]; exact hinv.inputs
  sourced := by rw [h.vtx]; exact hinv.sourced
  nBlockSize_eq := by rw [h.vtx, h.nBlockSize]; exact hinv.nBlockSize_eq
  nBlockSize_lt := by rw [h.vtx, h.nBlockSize]; exact hinv.nBlockSize_lt
  nBlockSigOps_eq := by rw [h.vtx, h.nBlockSigOps]; exact hinv.nBlockSigOps_eq
  nBlockSigOps_lt := by rw [h.nBlockSigOps]; exact hinv.nBlockSigOps_lt
  nFees_eq := by rw [h.vtx, h.nFees]; exact hinv.nFees_eq

theorem reordered_sortByFee (x : TxPriority D) (nTxSize : Nat) (st : TemplateState D) :
    Reordered st (sortByFee mctx x nTxSize st) := by
  unfold sortByFee
  split_ifs
  · exact ⟨rfl, rfl, rfl, rfl, rfl, ((mctx.heap.makeHeap_perm true st.vecPriority).map _).append_right _⟩
  · exact .refl st

theorem reordered_releaseOrphan {hash : Uint256} {st st' : TemplateState D} {p : Nat}
    (h : releaseOrphan mctx hash st p = .ok st') : Reordered st st' := by
  unfold releaseOrphan at h
  split at h
  case h_1 porphan hget =>
    by_cases hready : porphan.setDependsOn = ∅
    · rw [if_pos hready] at h
      obtain rfl := Except.ok.inj h
      exact .refl st
    rw [if_neg hready] at h
    obtain ⟨rest, hset⟩ := exists_waitingTxs_set hget
    have hbefore : (waitingTxs st.vOrphan).Perm (porphan.ptx :: rest) := by
      have hwaits : waitingTx (some porphan) = some porphan.ptx := by simp [waitingTx, hready]
      have hperm := (hset none).2
      rwa [hwaits] at hperm
    by_cases hlast : porphan.setDependsOn.erase hash = ∅
    · simp only [hlast, if_true] at h
      -- it waits for nothing more, and moves to the heap
      obtain rfl := Except.ok.inj h
      refine ⟨rfl, rfl, rfl, rfl, rfl, ?_⟩
      have hafter : (waitingTxs (st.vOrphan.set p (some { porphan with setDependsOn := ∅ }))).Perm rest := by
        have hperm := (hset (some { porphan with setDependsOn := ∅ })).1
        simpa [waitingTx] using hperm
      refine (((mctx.heap.pushHeap_perm _ _ _).map _).append hafter).trans ?_
      refine List.Perm.trans ?_ (hbefore.symm.append_left _)
      exact List.perm_middle.symm
    · simp only [hlast, if_false] at h
      obtain rfl := Except.ok.inj h
      refine ⟨rfl, rfl, rfl, rfl, rfl, List.Perm.append_left _ ?_⟩
      have hafter := (hset (some { porphan with setDependsOn := porphan.setDependsOn.erase hash })).1
      have hwaits : waitingTx (some { porphan with setDependsOn := porphan.setDependsOn.erase hash })
          = some porphan.ptx := by simp [waitingTx, hlast]
      rw [hwaits] at hafter
      exact hafter.trans hbefore.symm
  case h_2 => cases h

theorem reordered_release {hash : Uint256} {ps : List Nat} {st st' : TemplateState D}
    (h : ps.foldlM (releaseOrphan mctx hash) st = .ok st') : Reordered st st' :=
  Loop.foldlM_inv (fun _ st' => Reordered st st') h (.refl st)
    fun _ _ _ _ _ _ hI hstep => hI.trans (reordered_releaseOrphan hstep)

/-! ### One round of the second loop -/

theorem split_append_singleton {α : Type} {xs done rest : List α} {x y : α} (h : xs ++ [y] = done ++ x :: rest) :
    (done = xs ∧ x = y) ∨ ∃ rest', xs = done ++ x :: rest' := by
  rcases List.eq_nil_or_concat rest with rfl | ⟨rest', last, rfl⟩
  · obtain ⟨rfl, hlast⟩ := List.append_inj' h rfl
    exact .inl ⟨rfl, (List.singleton_inj.mp hlast).symm⟩
  · rw [List.concat_eq_append, ← List.cons_append, ← List.append_assoc] at h
    exact .inr ⟨rest', (List.append_inj' h rfl).1⟩

section Round

variable {st st' : TemplateState D} {tx : CTransaction} {nBlockMaxSize : Nat}

/-- What was fetched comes from the block and the chain. -/
theorem findByHash_fetched (hchain : IndexedChain env T node.readTxDB chain)
    (hcoll : NoCollision env.getHash T)
    (hinv : TemplateInv env node.mempool chain nBlockMaxSize st) (hcb : tx.isCoinBase = false)
    {k : Uint256} {txindex : CTxIndex} {txPrev : CTransaction}
    (hfetch : fetchInputs env node.readTxDB node.mempool st.mapTestPool false true tx = .ok mapInputs)
    (hl : mapInputs.lookup k = some (txindex, txPrev)) :
    findByHash env (st.vtx ++ chain.map Placed.tx) k = some txPrev := by
  rcases (fetchInputs_ok hcb hfetch).1 _ _ hl with ⟨hindex, hload⟩ | ⟨-, -, hminer, -⟩
  · rw [findTxIndex_staged _ _ rfl, hchain.index, hinv.index] at hindex
    exact hinv.staged.prev hchain hcoll hindex hload
  · cases hminer

/-- The outputs that were fetched are those of the block and the chain. -/
theorem getOutputFor_fetched (hchain : IndexedChain env T node.readTxDB chain)
    (hcoll : NoCollision env.getHash T)
    (hinv : TemplateInv env node.mempool chain nBlockMaxSize st) (hcb : tx.isCoinBase = false)
    (hfetch : fetchInputs env node.readTxDB node.mempool st.mapTestPool false true tx = .ok mapInputs) :
    ∀ o ∈ tx.prevouts, getOutputFor mapInputs o = .ok (spentOutput env (st.vtx ++ chain.map Placed.tx) o) := by
  intro o ho
  obtain ⟨txindex, txPrev, hl, hn, -⟩ := (fetchInputs_ok hcb hfetch).2 o ho
  have hout := List.getElem?_eq_getElem hn
  rw [getOutputFor, hl, spentOutput, findByHash_fetched hchain hcoll hinv hcb hfetch hl, Option.bind_some]
  simp only [hout, Option.getD_some]

theorem getValueIn_fetched {out : COutPoint → CTxOut} {nValueIn : CAmount} (hcb : tx.isCoinBase = false)
    (hout : ∀ o ∈ tx.prevouts, getOutputFor mapInputs o = .ok (out o))
    (h : getValueIn tx mapInputs = .ok nValueIn) :
    nValueIn = (tx.prevouts.map fun o => (out o).nValue).sum := by
  rw [getValueIn_eq hcb h, inputsValue]
  refine congrArg List.sum (List.map_congr_left fun o ho => ?_)
  rw [inputValue, hout o ho]

theorem getP2SHSigOpCount_fetched {out : COutPoint → CTxOut} {nSigOps : Nat}
    (hcb : tx.isCoinBase = false) (hout : ∀ o ∈ tx.prevouts, getOutputFor mapInputs o = .ok (out o))
    (h : getP2SHSigOpCount tx mapInputs = .ok nSigOps) :
    nSigOps = (tx.vin.map fun txin => if CScript.isPayToScriptHash (out txin.prevout).scriptPubKey then
      CScript.getSigOpCountP2SH (out txin.prevout).scriptPubKey txin.scriptSig else 0).sum := by
  rw [getP2SHSigOpCount, hcb, if_neg Bool.false_ne_true] at h
  refine Loop.foldlM_inv (fun done n => n = (done.map fun txin =>
    if CScript.isPayToScriptHash (out txin.prevout).scriptPubKey then
      CScript.getSigOpCountP2SH (out txin.prevout).scriptPubKey txin.scriptSig else 0).sum) h rfl ?_
  intro done txin rest n n' hvin hn hstep
  have ho : txin.prevout ∈ tx.prevouts := List.mem_map_of_mem (by rw [hvin]; simp)
  simp only [addP2SHSigOps, hout _ ho] at hstep
  obtain rfl := Except.ok.inj hstep
  rw [hn, List.map_append, List.sum_append, List.map_singleton, List.sum_singleton]

section

variable (hchain : IndexedChain env T node.readTxDB chain)

include hchain

/-- The inputs of a transaction that can be connected are unspent, and the index gets the transaction on top. -/
theorem connectInputs_staged
    (hinv : TemplateInv env node.mempool chain nBlockMaxSize st) (hcb : tx.isCoinBase = false)
    {mapTestPoolTmp : StdMap Uint256 CTxIndex} {pindexPrev : Option Uint256} {flags : Nat}
    (hfetch : fetchInputs env node.readTxDB node.mempool st.mapTestPool false true tx = .ok mapInputs)
    (hconnect : connectInputs env ctx node.mapBlockIndex tx mapInputs st.mapTestPool
        .memoryPool pindexPrev false true flags = .ok mapTestPoolTmp) :
    (∀ o ∈ tx.prevouts, IsUnspent (stagedIndex env (ledgerIndex env chain) st.vtx) o) ∧
      overlay (mapTestPoolTmp.insert (env.getHash tx) (CTxIndex.mk' .memoryPool tx.vout.length)) (ledgerIndex env chain)
        = stagedIndex env (ledgerIndex env chain) (st.vtx ++ [tx]) := by
  obtain ⟨hprev, -⟩ := fetchInputs_ok hcb hfetch
  have hsync : ∀ k txindex, indexOf mapInputs k = some txindex →
      overlay st.mapTestPool (ledgerIndex env chain) k = some txindex := by
    intro k txindex hindex
    simp only [indexOf, Option.map_eq_some_iff] at hindex
    obtain ⟨prev, hl, rfl⟩ := hindex
    rcases hprev k prev hl with ⟨hfound, -⟩ | ⟨-, -, hminer, -⟩
    · rw [findTxIndex_staged _ _ rfl, hchain.index] at hfound
      exact hfound
    · cases hminer
  obtain ⟨hunspent, -, hover⟩ := connectInputs_ok hcb (by simp [CDiskTxPos.memoryPool]) (fun _ => hsync) hconnect
  rw [hinv.index] at hsync
  refine ⟨fun o ho => ?_, ?_⟩
  · obtain ⟨txindex, hindex, hn⟩ := hunspent o ho
    exact ⟨txindex, hsync _ _ hindex, hn⟩
  · rw [overlay_insert, hover rfl, hinv.index, stagedIndex_append, connectMap, hcb, if_neg Bool.false_ne_true]

/-- What is known of where the inputs of a connected transaction come from. -/
theorem sourced_of_connected
    (hcoll : NoCollision env.getHash T)
    (hinv : TemplateInv env node.mempool chain nBlockMaxSize st)
    (hplace : CanPlace env node.mempool st.vtx tx) {mapTestPoolTmp : StdMap Uint256 CTxIndex}
    {pindexPrev : Option Uint256} {flags : Nat}
    (hfetch : fetchInputs env node.readTxDB node.mempool st.mapTestPool false true tx = .ok mapInputs)
    (hconnect : connectInputs env ctx node.mapBlockIndex tx mapInputs st.mapTestPool
        .memoryPool pindexPrev false true flags = .ok mapTestPoolTmp) :
    Sourced env chain st.vtx tx where
  prev o ho := by
    obtain ⟨txindex, txPrev, hl, htime⟩ := connectInputs_time hplace.ordinary.1 hconnect o ho
    have hfind := findByHash_fetched hchain hcoll hinv hplace.ordinary.1 hfetch hl
    refine ⟨txPrev, List.mem_of_find?_eq_some hfind, ?_, htime⟩
    simpa using List.find?_some hfind
  fee_nonneg := by
    have hout := getOutputFor_fetched hchain hcoll hinv hplace.ordinary.1 hfetch
    have hfee := connectInputs_fee hplace.ordinary.1 hplace.ordinary.2 hconnect
    have hvalue : inputsValue mapInputs tx.prevouts =
        (tx.prevouts.map fun o => (spentOutput env (st.vtx ++ chain.map Placed.tx) o).nValue).sum := by
      refine congrArg List.sum (List.map_congr_left fun o ho => ?_)
      rw [inputValue, hout o ho]
    rw [templateFee, ← hvalue]
    exact sub_nonneg.mpr hfee

theorem TemplateInv.place
    (hcoll : NoCollision env.getHash T) (hpool : PoolInv env.getHash T node.mempool)
    (hinv : TemplateInv env node.mempool chain nBlockMaxSize st) (hplace : CanPlace env node.mempool st.vtx tx)
    (hnew : env.getHash tx ∉ st.pending.map env.getHash)
    (hunspent : ∀ o ∈ tx.prevouts, IsUnspent (stagedIndex env (ledgerIndex env chain) st.vtx) o)
    (hsourced : Sourced env chain st.vtx tx) {mapTestPool : StdMap Uint256 CTxIndex}
    (hindex : overlay mapTestPool (ledgerIndex env chain) = stagedIndex env (ledgerIndex env chain) (st.vtx ++ [tx]))
    (hsize : st.nBlockSize + tx.getSerializeSize < nBlockMaxSize) {nTxSigOps : Nat}
    (hsigOps : nTxSigOps = templateSigOps env chain st.vtx tx) (hlimit : st.nBlockSigOps + nTxSigOps < maxBlockSigOps)
    {nTxFees : CAmount} (hfee : nTxFees = templateFee env chain st.vtx tx) :
    TemplateInv env node.mempool chain nBlockMaxSize
      { st with
        mapTestPool := mapTestPool
        vtx := st.vtx ++ [tx]
        nBlockSize := st.nBlockSize + tx.getSerializeSize
        nBlockSigOps := st.nBlockSigOps + nTxSigOps
        nFees := st.nFees + nTxFees } where
  staged := hinv.staged.append hplace.inPool hplace.fresh
    (hinv.staged.fresh_of_unspent hchain hcoll (hpool.mem hplace.inPool).1 hplace.ordinary.1 hunspent)
  index := hindex
  pending_nodup := hinv.pending_nodup
  canPlace x hx := by
    have hbefore := hinv.canPlace x hx
    refine ⟨hbefore.inPool, hbefore.ordinary, ?_⟩
    rw [List.map_append, List.mem_append, not_or, List.map_singleton, List.mem_singleton]
    exact ⟨hbefore.fresh, fun heq => hnew (heq ▸ List.mem_map_of_mem hx)⟩
  ordinary x hx := by
    rcases List.mem_append.mp hx with hx | hx
    · exact hinv.ordinary x hx
    · rw [List.mem_singleton.mp hx]
      exact hplace.ordinary
  sourced done x rest hsplit := by
    rcases split_append_singleton hsplit with ⟨rfl, rfl⟩ | ⟨rest', hsplit⟩
    · exact hsourced
    · exact hinv.sourced done x rest' hsplit
  inputs done x rest hsplit o ho := by
    rcases split_append_singleton hsplit with ⟨rfl, rfl⟩ | ⟨rest', hsplit⟩
    · have hspec := hchain.ledger.spec hcoll hchain.mem
      exact (hinv.staged.unspent o (hunspent o ho)).imp (unspentOnChain_of_isUnspent hspec hchain.ledger) id
    · exact hinv.inputs done x rest' hsplit o ho
  nBlockSize_eq := by
    have hsum := hinv.nBlockSize_eq
    simp only [List.map_append, List.sum_append, List.map_singleton, List.sum_singleton]
    omega
  nBlockSize_lt _ := hsize
  nBlockSigOps_eq := by
    rw [Loop.sumAlong_append, ← hsigOps, Nat.cast_add, hinv.nBlockSigOps_eq]
    omega
  nBlockSigOps_lt := hlimit
  nFees_eq := by rw [Loop.sumAlong_append, ← hfee, hinv.nFees_eq]

theorem tryTx_inv
    (hcoll : NoCollision env.getHash T)
    (hpool : PoolInv env.getHash T node.mempool) {pindexPrev : Uint256} {nTimeCoinbase : Nat}
    {mapDependers : StdMap Uint256 (List Nat)} {x : TxPriority D}
    (hinv : TemplateInv env node.mempool chain mctx.nBlockMaxSize st)
    (hplace : CanPlace env node.mempool st.vtx x.ptx)
    (hnew : env.getHash x.ptx ∉ st.pending.map env.getHash)
    (h : tryTx env ctx node mctx fProofOfStake pindexPrev nTimeCoinbase mapDependers x st = .ok st') :
    TemplateInv env node.mempool chain mctx.nBlockMaxSize st' ∧ st'.pending.Perm st.pending := by
  unfold tryTx at h
  by_cases hlimits : withinLimits ctx mctx fProofOfStake nTimeCoinbase x st = true
  · rw [hlimits, Bool.not_true, if_neg Bool.false_ne_true] at h
    have hsize : st.nBlockSize + x.ptx.getSerializeSize < mctx.nBlockMaxSize := by
      simp only [withinLimits, Bool.and_eq_true, Bool.not_eq_true', decide_eq_false_iff_not, not_le] at hlimits
      exact hlimits.1.1.1
    have hsort : Reordered st (sortByFee mctx x x.ptx.getSerializeSize st) := reordered_sortByFee x _ st
    generalize sortByFee mctx x x.ptx.getSerializeSize st = st1 at h hsort
    have hinv1 := hinv.reordered hsort
    have hskip (heq : st1 = st') :
        TemplateInv env node.mempool chain mctx.nBlockMaxSize st' ∧ st'.pending.Perm st.pending :=
      heq ▸ ⟨hinv1, hsort.pending⟩
    -- a transaction that fails a check is passed over
    cases hfetch : fetchInputs env node.readTxDB node.mempool st1.mapTestPool false true x.ptx with
    | error e =>
      simp only [hfetch] at h
      exact hskip (Except.ok.inj h)
    | ok mapInputs =>
      simp only [hfetch] at h
      simp only [exceptBind_ok] at h
      obtain ⟨nValueIn, hIn, nValueOut, hOut, nP2SHSigOps, hP2SH, h⟩ := h
      by_cases hmany : maxBlockSigOps ≤ st1.nBlockSigOps + (x.ptx.getLegacySigOpCount + nP2SHSigOps)
      · rw [if_pos hmany] at h
        exact hskip (Except.ok.inj h)
      rw [if_neg hmany] at h
      cases hconnect : connectInputs env ctx node.mapBlockIndex x.ptx mapInputs st1.mapTestPool .memoryPool
          (some pindexPrev) false true mandatoryScriptVerifyFlags with
      | error e =>
        simp only [hconnect] at h
        exact hskip (Except.ok.inj h)
      | ok mapTestPoolTmp =>
        simp only [hconnect, placeTx] at h
        have hcb := hplace.ordinary.1
        have hout := getOutputFor_fetched hchain hcoll hinv1 hcb hfetch
        obtain ⟨hunspent, hindex⟩ := connectInputs_staged hchain hinv1 hcb hfetch hconnect
        have hreleased := reordered_release h
        have hsigOps : (x.ptx.getLegacySigOpCount + nP2SHSigOps : Nat) = templateSigOps env chain st1.vtx x.ptx := by
          rw [templateSigOps, ← getP2SHSigOpCount_fetched hcb hout hP2SH, Nat.cast_add]
        have hfee : nValueIn - nValueOut = templateFee env chain st1.vtx x.ptx := by
          rw [templateFee, ← getValueIn_fetched hcb hout hIn, CTransaction.getValueOut_eq hOut]
        rw [← hsort.vtx] at hplace
        rw [← hsort.nBlockSize] at hsize
        have hsourced := sourced_of_connected hchain hcoll hinv1 hplace hfetch hconnect
        have hnew1 : env.getHash x.ptx ∉ st1.pending.map env.getHash :=
          fun hmem => hnew ((hsort.pending.map _).mem_iff.mp hmem)
        have hplaced := hinv1.place hchain hcoll hpool hplace hnew1 hunspent hsourced hindex hsize
          hsigOps (not_le.mp hmany) hfee
        exact ⟨hplaced.reordered hreleased, hreleased.pending.trans hsort.pending⟩
  · rw [Bool.not_eq_true] at hlimits
    rw [hlimits, Bool.not_false, if_pos rfl] at h
    obtain rfl := Except.ok.inj h
    exact ⟨hinv, .refl _⟩

end

end Round

/-! ### The run -/

/-- The element taken from the heap can be placed, and nothing else changes. -/
theorem TemplateInv.pop {pool : CTxMemPool} {nBlockMaxSize : Nat} {st : TemplateState D} {x : TxPriority D}
    {v v' : List (TxPriority D)} (hinv : TemplateInv env pool chain nBlockMaxSize st) (hheap : st.vecPriority = x :: v)
    (hperm : v'.Perm v) :
    TemplateInv env pool chain nBlockMaxSize { st with vecPriority := v' } ∧
      st.pending.Perm (x.ptx :: { st with vecPriority := v' : TemplateState D }.pending) ∧
      CanPlace env pool st.vtx x.ptx ∧
      env.getHash x.ptx ∉ { st with vecPriority := v' : TemplateState D }.pending.map env.getHash := by
  have hpending : st.pending.Perm (x.ptx :: { st with vecPriority := v' : TemplateState D }.pending) := by
    rw [TemplateState.pending, hheap]
    exact ((hperm.symm.map _).append_right _).cons _
  have hnodup := (hpending.map env.getHash).nodup_iff.mp hinv.pending_nodup
  rw [List.map_cons, List.nodup_cons] at hnodup
  refine ⟨{ hinv with
    pending_nodup := hnodup.2
    canPlace := fun tx htx => hinv.canPlace tx (hpending.mem_iff.mpr (List.mem_cons_of_mem _ htx)) }, hpending,
    hinv.canPlace _ (hpending.mem_iff.mpr List.mem_cons_self), hnodup.1⟩

/-- The second loop ends, with an empty heap. -/
theorem templateLoop_inv (hchain : IndexedChain env T node.readTxDB chain)
    (hcoll : NoCollision env.getHash T)
    (hpool : PoolInv env.getHash T node.mempool) {pindexPrev : Uint256} {nTimeCoinbase : Nat}
    {mapDependers : StdMap Uint256 (List Nat)} {fuel : Nat} {st st' : TemplateState D}
    (hinv : TemplateInv env node.mempool chain mctx.nBlockMaxSize st) (hfuel : st.pending.length ≤ fuel)
    (h : templateLoop env ctx node mctx fProofOfStake pindexPrev nTimeCoinbase mapDependers fuel st = .ok st') :
    TemplateInv env node.mempool chain mctx.nBlockMaxSize st' ∧ st'.vecPriority = [] := by
  induction fuel generalizing st with
  | zero =>
    obtain rfl := Except.ok.inj h
    have hnone := List.length_eq_zero_iff.mp (Nat.le_zero.mp hfuel)
    exact ⟨hinv, List.map_eq_nil_iff.mp (List.append_eq_nil_iff.mp hnone).1⟩
  | succ fuel ih =>
    unfold templateLoop at h
    cases hheap : st.vecPriority with
    | nil =>
      simp only [hheap] at h
      obtain rfl := Except.ok.inj h
      exact ⟨hinv, hheap⟩
    | cons x v =>
      simp only [hheap] at h
      obtain ⟨st1, htry, h⟩ := exceptBind_ok.mp h
      obtain ⟨hinv0, hpending, hplace, hnew⟩ := hinv.pop hheap (mctx.heap.popHeap_perm st.fSortedByFee x v)
      obtain ⟨hinv1, hsame⟩ := tryTx_inv hchain hcoll hpool hinv0 hplace hnew htry
      refine ih hinv1 ?_ h
      have hlen := hpending.length_eq
      rw [List.length_cons] at hlen
      rw [hsame.length_eq]
      omega

/-- The transactions of the pool, in the order of its map. -/
def CTxMemPool.txs (pool : CTxMemPool) : List CTransaction := pool.mapTx.entries.map Sigma.snd

section Pool

variable {pool : CTxMemPool} (hpool : PoolInv env.getHash T pool)

include hpool

theorem lookup_of_mem_txs {tx : CTransaction} (h : tx ∈ pool.txs) : pool.lookup (env.getHash tx) = some tx := by
  obtain ⟨⟨hash, tx'⟩, hentry, rfl⟩ := List.mem_map.mp h
  have hlookup : pool.mapTx.lookup hash = some tx' := AList.mem_lookup_iff.mpr hentry
  rw [CTxMemPool.lookup, (hpool.mem hlookup).2, hlookup]

theorem nodup_txs : (pool.txs.map env.getHash).Nodup := by
  have hkeys : pool.txs.map env.getHash = pool.mapTx.keys := by
    rw [CTxMemPool.txs, List.map_map, AList.keys, List.keys]
    refine List.map_congr_left fun entry hentry => ?_
    exact (hpool.mem (AList.mem_lookup_iff.mpr hentry)).2
  rw [hkeys]
  exact AList.keys_nodup _

theorem nodup_flatMap_prevouts {vtx : List CTransaction} (hin : ∀ tx ∈ vtx, pool.lookup (env.getHash tx) = some tx)
    (hnodup : (vtx.map env.getHash).Nodup) : (vtx.flatMap prevouts).Nodup := by
  rw [List.nodup_flatMap]
  refine ⟨fun tx htx => ?_, ?_⟩
  · rw [List.nodup_iff_injective_getElem]
    intro i j hij
    have hsame : tx.prevouts[i.val] = tx.prevouts[j.val] := hij
    have hi : tx.prevouts[i.val]? = some tx.prevouts[i.val] := List.getElem?_eq_getElem i.isLt
    have hj : tx.prevouts[j.val]? = some tx.prevouts[i.val] := by rw [hsame]; exact List.getElem?_eq_getElem j.isLt
    exact Fin.ext (hpool.unique (hin tx htx) (hin tx htx) hi hj).2
  · refine (List.pairwise_map.mp hnodup).imp_of_mem ?_
    intro tx tx' htx htx' hne o ho ho'
    exact hne (hpool.eq_of_mem (hin tx htx) (hin tx' htx') ho ho')

/-- The second loop starts with the invariant. -/
theorem templateInv_start {nBlockMaxSize : Nat} {vecPriority : List (TxPriority D)}
    {fSortedByFee : Bool}
    (hpending : (vecPriority.map TxPriority.ptx ++ waitingTxs vOrphan).Subperm (ordinaryTxs pool.txs)) :
    TemplateInv env pool chain nBlockMaxSize
      { vecPriority := vecPriority, vOrphan := vOrphan, fSortedByFee := fSortedByFee } where
  staged := staged_nil env pool _
  index := overlay_empty _
  pending_nodup := by
    obtain ⟨l, hperm, hsub⟩ := hpending.trans List.filter_sublist.subperm
    exact (hperm.map env.getHash).nodup_iff.mp ((nodup_txs hpool).sublist (hsub.map _))
  canPlace tx htx := by
    have hkept := hpending.subset htx
    exact ⟨lookup_of_mem_txs hpool (List.mem_of_mem_filter hkept), ordinary_of_mem hkept, List.not_mem_nil⟩
  ordinary tx htx := by cases htx
  inputs done tx rest hsplit := by simp at hsplit
  sourced done tx rest hsplit := by simp at hsplit
  nBlockSize_eq := rfl
  nBlockSize_lt hne := absurd rfl hne
  nBlockSigOps_eq := rfl
  nBlockSigOps_lt := show 100 < maxBlockSigOps by decide
  nFees_eq := rfl

theorem TemplateInv.ok {nBlockMaxSize : Nat} {st : TemplateState D}
    (hinv : TemplateInv env pool chain nBlockMaxSize st) : TemplateOk env pool chain nBlockMaxSize st.vtx st.nFees where
  inPool := hinv.staged.inPool
  nodup := hinv.staged.nodup
  inputs := hinv.inputs
  spentOnce := nodup_flatMap_prevouts hpool hinv.staged.inPool hinv.staged.nodup
  size_lt hne := by
    rw [← hinv.nBlockSize_eq]
    exact hinv.nBlockSize_lt hne
  sigOps_lt := by
    rw [← hinv.nBlockSigOps_eq]
    exact Nat.cast_lt.mpr hinv.nBlockSigOps_lt
  nFees_eq := hinv.nFees_eq

end Pool

theorem fillBlock_vtx {pindexPrev : CBlockIndex} {nBits : Nat} {txNew : CTransaction}
    (h : newCoinbase ctx mctx fProofOfStake nHeight = some txNew) (vtx : List CTransaction)
    (nFees : CAmount) : ∃ coinbase, coinbase.isCoinBase = true ∧
      (fillBlock ctx fProofOfStake pindexPrev nBits txNew vtx nFees).vtx = coinbase :: vtx := by
  unfold newCoinbase at h
  cases fProofOfStake with
  | true =>
    rw [if_pos rfl] at h
    obtain rfl := Option.some.inj h
    exact ⟨_, rfl, rfl⟩
  | false =>
    rw [if_neg Bool.false_ne_true] at h
    obtain ⟨scriptPubKey, -, rfl⟩ := Option.map_eq_some_iff.mp h
    exact ⟨_, rfl, rfl⟩

/-- The block that `CreateNewBlock` makes holds the transactions of the last state of the second loop. -/
theorem createNewBlock_inv (hchain : IndexedChain env T node.readTxDB chain)
    (hcoll : NoCollision env.getHash T)
    (hpool : PoolInv env.getHash T node.mempool) {block : CBlock} {nFees : CAmount}
    (h : createNewBlock env ctx node mctx fProofOfStake = .ok (some (block, nFees))) :
    ∃ coinbase, coinbase.isCoinBase = true ∧ ∃ st : TemplateState D, block.vtx = coinbase :: st.vtx ∧
      st.nFees = nFees ∧
      TemplateInv env node.mempool chain mctx.nBlockMaxSize st := by
  unfold createNewBlock at h
  cases hbest : node.pindexBest.bind node.mapBlockIndex with
  | none =>
    rw [hbest] at h
    cases h
  | some pindexPrev =>
    simp only [hbest] at h
    cases hcoinbase : newCoinbase ctx mctx fProofOfStake (pindexPrev.nHeight + 1) with
    | none =>
      simp only [hcoinbase] at h
      cases Except.ok.inj h
    | some txNew =>
      simp only [hcoinbase, exceptBind_ok] at h
      obtain ⟨-, -, prio, hprio, st, hloop, h⟩ := h
      obtain ⟨rfl, rfl⟩ := Prod.mk.inj (Option.some.inj (Except.ok.inj h))
      obtain ⟨coinbase, hcb, hvtx⟩ := fillBlock_vtx hcoinbase st.vtx st.nFees
      refine ⟨coinbase, hcb, st, hvtx, rfl, ?_⟩
      have hheap := ((mctx.heap.makeHeap_perm (decide (mctx.nBlockPrioritySize = 0)) prio.vecPriority).map
        TxPriority.ptx).append_right (waitingTxs prio.vOrphan)
      have hpending := hheap.subperm.trans (addPriority_run hprio)
      -- there is a round for every transaction of the pool
      have hfuel := (hpending.trans List.filter_sublist.subperm).length_le
      exact (templateLoop_inv hchain hcoll hpool (templateInv_start hpool hpending) hfuel hloop).1

/-- **The block that `CreateNewBlock` makes.** -/
theorem createNewBlock_ok (hchain : IndexedChain env T node.readTxDB chain)
    (hcoll : NoCollision env.getHash T) (hpool : PoolInv env.getHash T node.mempool)
    {fProofOfStake : Bool} {block : CBlock} {nFees : CAmount}
    (h : createNewBlock env ctx node mctx fProofOfStake = .ok (some (block, nFees))) :
    ∃ coinbase vtx, block.vtx = coinbase :: vtx ∧ coinbase.isCoinBase = true ∧
      TemplateOk env node.mempool chain mctx.nBlockMaxSize vtx nFees := by
  obtain ⟨coinbase, hcb, st, hvtx, rfl, hinv⟩ := createNewBlock_inv hchain hcoll hpool h
  exact ⟨coinbase, st.vtx, hvtx, hcb, hinv.ok hpool⟩

/-! ### A sample template -/

/-- A transaction that spends the output 0 of the transaction with the hash `1000 + n`, with the hash one above. -/
def templateTx (n : Nat) (nValue : CAmount) : CTransaction :=
  { nTime := n + 1, vin := [⟨⟨1000 + n, 0⟩, [], uintMax⟩], vout := [⟨nValue, [1], -10⟩] }

/-- The transactions of the sample: a coinbase on the chain, and two in the pool, the second on top of the first. -/
def templateTxs : List CTransaction := [firstCoinbase, templateTx 10 (9990 * coin), templateTx 11 (9980 * coin)]

def templateChain : List Placed := chainTxs [⟨sampleBlock [firstCoinbase], firstIndex⟩]

def templateNode (mempool : CTxMemPool) : Node :=
  { sampleNode [fundingIndex] with
    txdb := ⟨Function.update (fun _ => none) (.tx 1010)
      (some (.txIndex (CTxIndex.mk' (txPos firstIndex (sampleBlock [firstCoinbase]) []) 1))), none⟩
    mempool := mempool }

def templatePool : CTxMemPool :=
  (({} : CTxMemPool).addUnchecked 1012 (templateTx 11 (9980 * coin))).addUnchecked 1011 (templateTx 10 (9990 * coin))

/-- Whole numbers for `double`, and a heap of one element. -/
def sampleMiner : MinerCtx Int where
  double :=
    { zero := 0
      addConf := fun d nValueIn nConf => d + nValueIn * nConf
      divSize := fun d nTxSize => d / nTxSize
      perKb := fun nFee nTxSize => nFee * 1000 / nTxSize
      lt := fun d n => d < n }
  heap :=
    { makeHeap := fun _ v => v
      popHeap := fun _ _ v => v
      pushHeap := fun _ v x => x :: v
      makeHeap_perm := fun _ _ => .refl _
      popHeap_perm := fun _ _ _ => .refl _
      pushHeap_perm := fun _ _ _ => .refl _ }

theorem noCollision_of_nodup {getHash : CTransaction → Uint256} {txs : List CTransaction}
    (h : (txs.map getHash).Nodup) : NoCollision getHash {tx | tx ∈ txs} :=
  fun _ htx _ htx' heq => congrArg _ (List.inj_on_of_nodup_map h htx htx' heq)

theorem txIndexMap_single (h : Uint256) (txindex : CTxIndex) :
    (⟨Function.update (fun _ => none) (.tx h) (some (.txIndex txindex)), none⟩ : CTxDB).txIndexMap =
      Function.update (fun _ => none) h (some txindex) :=
  CTxDB.txIndexMap_updateTxIndex ⟨fun _ => none, none⟩ h txindex

theorem noCollision_templateTxs :
    NoCollision (sampleEnv [firstCoinbase]).getHash {tx | tx ∈ templateTxs} :=
  noCollision_of_nodup (by decide)

theorem indexedChain_templateNode (mempool : CTxMemPool) :
    IndexedChain (sampleEnv [firstCoinbase]) {tx | tx ∈ templateTxs}
      (templateNode mempool).readTxDB templateChain := by
  obtain ⟨node', hrun⟩ := chainRun_first
  have hcore := (chainRun_inv atGenesis_genesisNode (noCollision_singleton _ firstCoinbase) hrun).core
  refine ⟨hcore.ledger, fun x hx => ?_, txIndexMap_single 1010 _⟩
  rw [hcore.mem x hx]
  exact List.mem_cons_self

theorem poolInv_templatePool :
    PoolInv (sampleEnv [firstCoinbase]).getHash {tx | tx ∈ templateTxs} templatePool := by
  have hempty : PoolInv (sampleEnv [firstCoinbase]).getHash {tx | tx ∈ templateTxs} {} :=
    poolInv_empty 0
  have hmem : ∀ tx ∈ templateTxs, tx ∈ {tx | tx ∈ templateTxs} := fun tx htx => htx
  have hchild := addUnchecked_inv hempty (hmem (templateTx 11 (9980 * coin)) (by simp [templateTxs]))
    (by decide) rfl (by decide)
  exact addUnchecked_inv hchild (hmem (templateTx 10 (9990 * coin)) (by simp [templateTxs]))
    (by decide) rfl (by decide)

theorem exists_made {ε α β : Type} {r : Except ε (Option α)} {f : α → β} {b : β}
    (h : r.toOption.join.map f = some b) : ∃ a, r = .ok (some a) ∧ f a = b := by
  obtain ⟨a, hjoin, hf⟩ := Option.map_eq_some_iff.mp h
  cases r with
  | error e => cases hjoin
  | ok r => exact ⟨a, congrArg Except.ok hjoin, hf⟩

theorem createNewBlock_ok_templateNode : ∃ vtx, vtx.map sampleTxHash = [1011, 1012] ∧
    TemplateOk (sampleEnv [firstCoinbase]) templatePool templateChain sampleMiner.nBlockMaxSize vtx (20 * coin) := by
  obtain ⟨⟨block, nFees⟩, hblock, hmade⟩ := exists_made
    (show (createNewBlock (sampleEnv [firstCoinbase]) sampleCtx (templateNode templatePool) sampleMiner
      true).toOption.join.map (fun r => (r.1.vtx.tail.map sampleTxHash, r.2)) = some ([1011, 1012], 20 * coin) by
        decide)
  obtain ⟨hhashes, rfl⟩ := Prod.mk.inj hmade
  obtain ⟨coinbase, vtx, hvtx, -, hok⟩ :=
    createNewBlock_ok (indexedChain_templateNode templatePool) noCollision_templateTxs poolInv_templatePool hblock
  rw [hvtx] at hhashes
  exact ⟨vtx, hhashes, hok⟩

/-- With `-blockmaxsize=1000` there is no room for a transaction, and an empty template is not below the limit. -/
theorem not_below_nBlockMaxSize :
    IndexedChain (sampleEnv [firstCoinbase]) {tx | tx ∈ templateTxs} (templateNode {}).readTxDB templateChain ∧
      PoolInv (sampleEnv [firstCoinbase]).getHash {tx | tx ∈ templateTxs} (templateNode {}).mempool ∧
      ∃ block nFees, createNewBlock (sampleEnv [firstCoinbase]) sampleCtx (templateNode {})
        { sampleMiner with blockMaxSize := some 1000 } true = .ok (some (block, nFees)) ∧
        ¬(block.vtx.tail.map CTransaction.getSerializeSize).sum + 1000
          < { sampleMiner with blockMaxSize := some 1000 : MinerCtx Int }.nBlockMaxSize := by
  refine ⟨indexedChain_templateNode {}, poolInv_empty 0, ?_⟩
  obtain ⟨⟨block, nFees⟩, hblock, hmade⟩ := exists_made
    (show (createNewBlock (sampleEnv [firstCoinbase]) sampleCtx (templateNode {})
      { sampleMiner with blockMaxSize := some 1000 } true).toOption.join.map (fun r => r.1.vtx.tail.length) = some 0 by
        decide)
  refine ⟨block, nFees, hblock, ?_⟩
  rw [List.length_eq_zero_iff.mp hmade]
  decide

end Sphinx
