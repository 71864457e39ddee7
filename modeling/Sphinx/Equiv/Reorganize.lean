import Sphinx.Equiv.BlockIndex
import Sphinx.Equiv.DisconnectBlock

/-!
# `Reorganize` changes everything or nothing

Before its commit `Reorganize` only stages changes: in the open batch, under keys of the indexes, and
in the mint and supply of index entries (`Staged`).  A failure therefore leaves, once the batch is
aborted, the database and the main chain in memory as they were.

* `reorganize_spec`: the branches it picks, and the state after a failure.
-/

namespace Sphinx

open ParentTree

variable {env : Env} {genesis : Uint256}
variable {e : Reject × Node} {e' pindex : CBlockIndex} {node : Node} {h : Uint256}
  {st st' : Node × List CTransaction} {ctx : Uint256 → Ctx}
variable {node' : Node}

/-- The same entry but for the mint and the supply. -/
def CBlockIndex.sameButSupply (e e' : CBlockIndex) : Prop :=
  e = { e' with nMint := e.nMint, nMoneySupply := e.nMoneySupply }

theorem CBlockIndex.sameButSupply_refl (e : CBlockIndex) : e.sameButSupply e := rfl

theorem CBlockIndex.sameButSupply.trans {e e'' : CBlockIndex} (h' : e''.sameButSupply e')
    (h : e'.sameButSupply e) : e''.sameButSupply e := by
  unfold sameButSupply at *
  rw [h', h]

theorem CBlockIndex.sameButSupply.sameCore {e : CBlockIndex} (h : e'.sameButSupply e) :
    SameCore e' e := by
  rw [h]
  exact ⟨rfl, rfl, rfl, rfl, rfl, rfl⟩

/-- The same entry but for what changes with the main chain: `pnext`, the mint and the supply. -/
def CBlockIndex.sameButChain (e e' : CBlockIndex) : Prop :=
  e = { e' with pnext := e.pnext, nMint := e.nMint, nMoneySupply := e.nMoneySupply }

theorem CBlockIndex.sameButChain_refl (e : CBlockIndex) : e.sameButChain e := rfl

theorem CBlockIndex.sameButChain.trans {e e'' : CBlockIndex} (h' : e''.sameButChain e')
    (h : e'.sameButChain e) : e''.sameButChain e := by
  unfold sameButChain at *
  rw [h', h]

theorem CBlockIndex.sameButChain.sameCore {e : CBlockIndex} (h : e'.sameButChain e) :
    SameCore e' e := by
  rw [h]
  exact ⟨rfl, rfl, rfl, rfl, rfl, rfl⟩

theorem CBlockIndex.sameButSupply.sameButChain {e : CBlockIndex} (h : e'.sameButSupply e) :
    e'.sameButChain e := by
  rw [h]
  rfl

theorem CBlockIndex.sameButNext.sameButChain {e : CBlockIndex} (h : e'.sameButNext e) :
    e'.sameButChain e := by
  rw [h]
  rfl

/-- The same hashes are indexed, with entries that differ in what changes with the main chain only. -/
abbrev SameEntries (m' m : BlockMap) : Prop := Entrywise CBlockIndex.sameButChain m' m

theorem SameEntries.refl (m : BlockMap) : SameEntries m m :=
  Entrywise.refl CBlockIndex.sameButChain_refl m

theorem SameEntries.trans {m m' m'' : BlockMap} (h' : SameEntries m'' m') (h : SameEntries m' m) :
    SameEntries m'' m := Entrywise.trans CBlockIndex.sameButChain.trans h' h

theorem SameEntries.sameTree {m m' : BlockMap} (h : SameEntries m' m) : SameTree m' m :=
  Entrywise.mono CBlockIndex.sameButChain.sameCore h

theorem sameEntries_setPrevNext (m : BlockMap) (h : Uint256) (pnext : Option Uint256) :
    SameEntries (setPrevNext m h pnext) m :=
  (sameButNext_setPrevNext m h pnext).mono CBlockIndex.sameButNext.sameButChain

theorem sameEntries_foldl_setPrevNext (f : Uint256 → Option Uint256) (l : List Uint256) (m : BlockMap) :
    SameEntries (l.foldl (fun m h => setPrevNext m h (f h)) m) m :=
  (sameButNext_foldl_setPrevNext f l m).mono CBlockIndex.sameButNext.sameButChain

/-- What connecting and disconnecting blocks has changed up to now. -/
structure Staged (node node' : Node) : Prop where
  txdb : CTxDB.Frame IsIndexKey node.txdb node'.txdb
  entries : Entrywise CBlockIndex.sameButSupply node'.mapBlockIndex node.mapBlockIndex
  rest : node' = { node with
    mapBlockIndex := node'.mapBlockIndex, txdb := node'.txdb, walletSyncs := node'.walletSyncs }

theorem Staged.refl (node : Node) : Staged node node :=
  ⟨CTxDB.Frame.refl _ _, Entrywise.refl CBlockIndex.sameButSupply_refl _, rfl⟩

theorem Staged.trans {a b c : Node} (hab : Staged a b) (hbc : Staged b c) : Staged a c :=
  ⟨hab.txdb.trans hbc.txdb, Entrywise.trans CBlockIndex.sameButSupply.trans hbc.entries hab.entries,
    by rw [hbc.rest, hab.rest]⟩

theorem Staged.sameEntries (h : Staged node node') :
    SameEntries node'.mapBlockIndex node.mapBlockIndex :=
  h.entries.mono CBlockIndex.sameButSupply.sameButChain

theorem Staged.sameTree (h : Staged node node') :
    SameTree node'.mapBlockIndex node.mapBlockIndex :=
  h.entries.mono CBlockIndex.sameButSupply.sameCore

/-! ### One block -/

theorem frame_disconnectInputs (env : Env) (txdb : CTxDB) (tx : CTransaction) :
    CTxDB.Frame CTxDB.IsTxKey txdb (dbOf (disconnectInputs env txdb tx)) := by
  have hunspend : ∀ db o, CTxDB.Frame CTxDB.IsTxKey db (dbOf (unspendInput db o)) := by
    intro db o
    unfold unspendInput
    split
    · exact CTxDB.Frame.refl _ _
    · split
      · exact CTxDB.Frame.refl _ _
      · exact CTxDB.frame_updateTxIndex _ _
  unfold disconnectInputs
  by_cases hcb : tx.isCoinBase = true
  · rw [if_pos hcb]
    exact CTxDB.frame_eraseTxIndex _
  · have hloop := frame_foldlM hunspend tx.prevouts txdb
    rw [if_neg hcb]
    cases hfold : tx.prevouts.foldlM unspendInput txdb with
    | error e => rw [hfold] at hloop; exact hloop
    | ok db => rw [hfold] at hloop; exact hloop.trans (CTxDB.frame_eraseTxIndex _)

/-- `DisconnectBlock` works on the open batch. -/
theorem staged_disconnectBlock (env : Env) (node : Node) (block : CBlock) (pindex : CBlockIndex) :
    Staged node (nodeOf (disconnectBlock env node block pindex)) := by
  have hloop := frame_foldlM (frame_disconnectInputs env) block.vtx.reverse node.txdb
  have hsame := Entrywise.refl CBlockIndex.sameButSupply_refl node.mapBlockIndex
  unfold disconnectBlock
  cases hfold : block.vtx.reverse.foldlM (disconnectInputs env) node.txdb with
  | error e =>
    rw [hfold] at hloop
    exact ⟨hloop.mono isIndexKey_of_isTxKey, hsame, rfl⟩
  | ok db =>
    rw [hfold] at hloop
    exact ⟨(hloop.mono isIndexKey_of_isTxKey).trans
      ((frame_writeHashNext _ _ _ _).mono isIndexKey_of_isBlockKey), hsame, rfl⟩

theorem BlockWritten.staged {st : ConnectState}
    (hentry : node.mapBlockIndex pindex.hashBlock = some pindex)
    (h : BlockWritten node (recordSupply node.mapBlockIndex pindex st) node') :
    Staged node node' := by
  obtain ⟨txdb, walletSyncs, hframe, rfl⟩ := h
  exact ⟨hframe, Entrywise.update CBlockIndex.sameButSupply_refl hentry rfl, rfl⟩

/-- So does `ConnectBlock`. -/
theorem staged_connectBlock (env : Env) (ctx : Ctx) (node : Node) (block : CBlock)
    (hentry : node.mapBlockIndex pindex.hashBlock = some pindex) :
    Staged node (nodeOf (connectBlock env ctx node block pindex)) := by
  cases hconn : connectBlock env ctx node block pindex with
  | error e =>
    obtain ⟨r, node'⟩ := e
    rcases connectBlock_error hconn with rfl | ⟨st, hwritten⟩
    · exact Staged.refl node'
    · exact hwritten.staged hentry
  | ok node' =>
    obtain ⟨st, hconn⟩ := connectBlock_ok hconn
    exact hconn.written.staged hentry

/-! ### The two loops -/

theorem readBlockFromDisk_ok {block : CBlock} (h : env.readBlockFromDisk pindex = .ok block) :
    env.files.readBlock pindex.nFile pindex.nBlockPos = some block ∧
      env.getBlockHash block = pindex.hashBlock := by
  unfold Env.readBlockFromDisk at h
  split at h
  · cases h
  · next block' hread =>
    simp only [exceptBind_ok, rejectIf_eq_ok, decide_eq_false_iff_not, not_not] at h
    obtain ⟨-, -, -, hhash, h⟩ := h
    obtain rfl : block' = block := Except.ok.inj h
    exact ⟨hread, hhash⟩

theorem readIndexed_ok {text : String} {entry : CBlockIndex} {block : CBlock}
    (hread : readIndexed env node h text = .ok (entry, block)) :
    node.mapBlockIndex h = some entry ∧ env.readBlockFromDisk entry = .ok block := by
  unfold readIndexed at hread
  split at hread
  · cases hread
  · next entry' hentry =>
    split at hread
    · cases hread
    · next block' hblock =>
      obtain ⟨rfl, rfl⟩ := Prod.mk.inj (Except.ok.inj hread)
      exact ⟨hentry, hblock⟩

theorem readIndexed_error {text : String} (hread : readIndexed env node h text = .error e) :
    e.2 = node := by
  unfold readIndexed at hread
  split at hread
  · rw [← Except.error.inj hread]
  · split at hread
    · rw [← Except.error.inj hread]
    · cases hread

theorem disconnectTip_ok (hround : disconnectTip env st h = .ok st') : ∃ entry block,
      st.1.mapBlockIndex h = some entry ∧ env.readBlockFromDisk entry = .ok block ∧
      disconnectBlock env st.1 block entry = .ok st'.1 ∧
      st'.2 = (block.vtx.filter fun tx => !(tx.isCoinBase || tx.isCoinStake) &&
        env.getTotalBlocksEstimate < entry.nHeight) ++ st.2 := by
  obtain ⟨node, vResurrect⟩ := st
  simp only [disconnectTip, exceptBind_ok] at hround
  obtain ⟨⟨entry, block⟩, hread, hround⟩ := hround
  obtain ⟨hentry, hblock⟩ := readIndexed_ok hread
  simp only at hround
  split at hround
  · cases hround
  · next node' hdis =>
    obtain rfl := Except.ok.inj hround
    exact ⟨entry, block, hentry, hblock, hdis, rfl⟩

theorem staged_disconnectTip_error (hround : disconnectTip env st h = .error e) : Staged st.1 e.2 := by
  obtain ⟨node, vResurrect⟩ := st
  simp only [disconnectTip] at hround
  cases hread : readIndexed env node h "Reorganize() : ReadFromDisk for disconnect failed" with
  | error e' =>
    rw [hread, exceptError_bind] at hround
    rw [← Except.error.inj hround, readIndexed_error hread]
    exact Staged.refl node
  | ok p =>
    obtain ⟨entry, block⟩ := p
    have hstaged := staged_disconnectBlock env node block entry
    rw [hread, exceptOk_bind] at hround
    simp only at hround
    split at hround
    · next r node' hdis =>
      rw [hdis] at hstaged
      rw [← Except.error.inj hround]
      exact hstaged
    · cases hround

theorem connectTip_ok (hround : connectTip env ctx st h = .ok st') : ∃ entry block,
      st.1.mapBlockIndex h = some entry ∧ env.readBlockFromDisk entry = .ok block ∧
      connectBlock env (ctx h) st.1 block entry = .ok st'.1 ∧ st'.2 = st.2 ++ block.vtx := by
  obtain ⟨node, vDelete⟩ := st
  simp only [connectTip, exceptBind_ok] at hround
  obtain ⟨⟨entry, block⟩, hread, hround⟩ := hround
  obtain ⟨hentry, hblock⟩ := readIndexed_ok hread
  simp only at hround
  split at hround
  · cases hround
  · next node' hconn =>
    obtain rfl := Except.ok.inj hround
    exact ⟨entry, block, hentry, hblock, hconn, rfl⟩

theorem staged_connectTip_error (hhash : ∀ {e}, st.1.mapBlockIndex h = some e → e.hashBlock = h)
    (hround : connectTip env ctx st h = .error e) : Staged st.1 e.2 := by
  obtain ⟨node, vDelete⟩ := st
  simp only [connectTip] at hround
  cases hread : readIndexed env node h "Reorganize() : ReadFromDisk for connect failed" with
  | error e' =>
    rw [hread, exceptError_bind] at hround
    rw [← Except.error.inj hround, readIndexed_error hread]
    exact Staged.refl node
  | ok p =>
    obtain ⟨entry, block⟩ := p
    obtain ⟨hentry, -⟩ := readIndexed_ok hread
    obtain rfl := hhash hentry
    have hstaged := staged_connectBlock env (ctx entry.hashBlock) _ block hentry
    rw [hread, exceptOk_bind] at hround
    simp only at hround
    split at hround
    · next r node' hconn =>
      rw [hconn] at hstaged
      rw [← Except.error.inj hround]
      exact hstaged
    · cases hround

theorem staged_disconnectTip (hround : disconnectTip env st h = .ok st') : Staged st.1 st'.1 := by
  obtain ⟨entry, block, -, -, hdis, -⟩ := disconnectTip_ok hround
  have hstaged := staged_disconnectBlock env st.1 block entry
  rw [hdis] at hstaged
  exact hstaged

theorem staged_connectTip (hhash : ∀ {e}, st.1.mapBlockIndex h = some e → e.hashBlock = h)
    (hround : connectTip env ctx st h = .ok st') : Staged st.1 st'.1 := by
  obtain ⟨entry, block, hentry, -, hconn, -⟩ := connectTip_ok hround
  obtain rfl := hhash hentry
  have hstaged := staged_connectBlock env (ctx entry.hashBlock) _ block hentry
  rw [hconn] at hstaged
  exact hstaged

/-- The two loops, with or without a failure, only stage changes. -/
theorem staged_switchBranches (ctx : Uint256 → Ctx) (node : Node)
    (vDisconnect vConnect : List Uint256) (hkey : HashKeyed node.mapBlockIndex) :
    (∀ e, switchBranches env ctx node vDisconnect vConnect = .error e → Staged node e.2) ∧
    ∀ node' vResurrect vDelete,
      switchBranches env ctx node vDisconnect vConnect = .ok (node', vResurrect, vDelete) →
        Staged node node' := by
  have hhash : ∀ {node' h e}, Staged node node' → node'.mapBlockIndex h = some e →
      e.hashBlock = h := fun hstaged he => (hkey.congr hstaged.sameTree) he
  -- the invariant of both loops
  let I (_ : List Uint256) (st : Node × List CTransaction) : Prop := Staged node st.1
  have hdis : ∀ done x rest st st', vDisconnect = done ++ x :: rest → I done st →
      disconnectTip env st x = .ok st' → I (done ++ [x]) st' :=
    fun _ _ _ _ _ _ hI hround => Staged.trans hI (staged_disconnectTip hround)
  have hconn : ∀ done x rest st st', vConnect = done ++ x :: rest → I done st →
      connectTip env ctx st x = .ok st' → I (done ++ [x]) st' :=
    fun _ _ _ _ _ _ hI hround => Staged.trans hI (staged_connectTip (hhash hI) hround)
  unfold switchBranches
  cases hfold : vDisconnect.foldlM (disconnectTip env) (node, []) with
  | error e =>
    obtain ⟨_, _, _, _, -, hI, hround⟩ := Loop.foldlM_error I hfold (Staged.refl node) hdis
    refine ⟨fun e' he => ?_, fun _ _ _ hok => by cases hok⟩
    rw [← Except.error.inj he]
    exact Staged.trans hI (staged_disconnectTip_error hround)
  | ok st =>
    have hst : I vDisconnect st := Loop.foldlM_inv I hfold (Staged.refl node) hdis
    obtain ⟨node1, vResurrect⟩ := st
    rw [exceptOk_bind]
    cases hfold' : vConnect.foldlM (connectTip env ctx) (node1, []) with
    | error e =>
      obtain ⟨_, _, _, _, -, hI, hround⟩ := Loop.foldlM_error I hfold' hst hconn
      refine ⟨fun e' he => ?_, fun _ _ _ hok => by simp [hfold'] at hok⟩
      simp only [hfold', exceptError_bind] at he
      rw [← Except.error.inj he]
      exact Staged.trans hI (staged_connectTip_error (hhash hI) hround)
    | ok st' =>
      have hst' : I vConnect st' := Loop.foldlM_inv I hfold' hst hconn
      refine ⟨fun e he => ?_, fun node' _ _ hok => ?_⟩
      · simp only [hfold', exceptOk_bind] at he
        cases he
      · simp only [hfold', exceptOk_bind] at hok
        obtain ⟨rfl, -⟩ := Prod.mk.inj (Except.ok.inj hok)
        exact hst'

/-! ### The whole of `Reorganize` -/

/-- An abort after staged changes gives back the handle as it was before the batch was opened. -/
theorem Staged.txnAbort_eq (hbatch : node.txdb.activeBatch = none)
    (h : Staged node.begun node') :
    node'.txdb.txnAbort = node.txdb := by
  have hpdb : node'.txdb.pdb = node.txdb.pdb := h.txdb.pdb_eq rfl
  rw [CTxDB.txnAbort, hpdb, ← hbatch]

/-- `Reorganize` once the branches are known. -/
theorem reorganize_eq (env : Env) (ctx : Uint256 → Ctx) (node : Node)
    {pindexBest pindexNew : CBlockIndex} {vDisconnect vConnect : List Uint256}
    (hbest : node.pindexBest = some pindexBest.hashBlock)
    (hentry : node.mapBlockIndex pindexBest.hashBlock = some pindexBest)
    (hbranches : findBranches node.mapBlockIndex pindexBest pindexNew = .ok (vDisconnect, vConnect)) :
    reorganize env ctx node pindexNew
      = (switchBranches env ctx node vDisconnect vConnect).map fun r =>
        finishReorganize env ctx { r.1 with
          txdb := (r.1.txdb.writeHashBestChain pindexNew.hashBlock).txnCommit }
          vDisconnect vConnect r.2.1 r.2.2 := by
  simp only [reorganize, hbest, Option.bind_some, hentry, hbranches]
  cases switchBranches env ctx node vDisconnect vConnect <;> rfl

/-- **`Reorganize` picks the two branches and is atomic.**  In every block index tree the fork search
ends at the lowest common ancestor of the best and the new block; `vDisconnect` is the path from the
best block down to it and `vConnect`, reversed, that from the new block.  If a read, a
`DisconnectBlock` or a `ConnectBlock` fails, then `Reorganize` fails, and the abort of the batch gives
back the database while the main chain in memory and the pool have not been touched. -/
theorem reorganize_spec (env : Env) (ctx : Uint256 → Ctx) {node : Node}
    {pindexBest pindexNew : CBlockIndex} (ht : IndexTree node.mapBlockIndex genesis)
    (hbatch : node.txdb.activeBatch = none)
    (hbest : node.pindexBest = some pindexBest.hashBlock)
    (hbestEntry : node.mapBlockIndex pindexBest.hashBlock = some pindexBest)
    (hnewEntry : node.mapBlockIndex pindexNew.hashBlock = some pindexNew) :
    ∃ pfork vDisconnect vConnect,
      findBranches node.mapBlockIndex pindexBest pindexNew = .ok (vDisconnect, vConnect) ∧
      IsLca (parentOf node.mapBlockIndex) pindexBest.hashBlock pindexNew.hashBlock pfork ∧
      IsPath (parentOf node.mapBlockIndex) pindexBest.hashBlock vDisconnect pfork ∧
      IsPath (parentOf node.mapBlockIndex) pindexNew.hashBlock vConnect.reverse pfork ∧
      ∀ r node', switchBranches env ctx node.begun vDisconnect vConnect
          = .error (r, node') →
        reorganize env ctx node.begun pindexNew = .error (r, node') ∧
        node'.txdb.txnAbort = node.txdb ∧
        (∀ h, (node'.mapBlockIndex h).map CBlockIndex.pnext
          = (node.mapBlockIndex h).map CBlockIndex.pnext) ∧
        node'.pindexBest = node.pindexBest ∧ node'.hashBestChain = node.hashBestChain ∧
        node'.mempool = node.mempool := by
  obtain ⟨pfork, vDisconnect, vConnect, hbranches, hlca, hpath, hpath'⟩ :=
    findBranches_spec ht hbestEntry hnewEntry
  refine ⟨pfork, vDisconnect, vConnect, hbranches, hlca, hpath, hpath', fun r node' hswitch => ?_⟩
  set begun : Node := node.begun with hbegun
  have hstaged : Staged begun node' :=
    (staged_switchBranches ctx begun vDisconnect vConnect ht.hash).1 _ hswitch
  refine ⟨?_, hstaged.txnAbort_eq hbatch, fun h => ?_, ?_⟩
  · rw [reorganize_eq env ctx begun hbest hbestEntry hbranches, hswitch]
    rfl
  · cases hm : node.mapBlockIndex h with
    | none => rw [(hstaged.entries.none_iff h).mpr hm]
    | some e =>
      obtain ⟨e', he', hsame⟩ := hstaged.entries.exists_left hm
      rw [he', Option.map_some, Option.map_some, hsame]
  · rw [hstaged.rest]
    exact ⟨rfl, rfl, rfl⟩

/-! ### A sample fork -/

def lostIndex : CBlockIndex := { hashBlock := 121, pprev := some 105, nFile := 9, nHeight := 1 }

def tipIndex : CBlockIndex := { sampleIndex with nHeight := 1 }

def forkNode : Node :=
  { sampleNode [{ hashBlock := 105 }, tipIndex, lostIndex] with pindexBest := some 120 }

theorem indexTree_forkNode : IndexTree forkNode.mapBlockIndex 105 := by
  refine ⟨?_, ⟨{ hashBlock := 105 }, rfl, rfl, rfl⟩, ?_⟩
  · intro h e he
    simpa using List.find?_some he
  · intro h e he hne
    have hmem := List.mem_of_find?_eq_some he
    have hhash : e.hashBlock = h := by simpa using List.find?_some he
    simp only [List.mem_cons, List.not_mem_nil, or_false] at hmem
    rcases hmem with rfl | rfl | rfl
    · exact absurd hhash.symm hne
    · exact ⟨105, { hashBlock := 105 }, rfl, rfl, rfl⟩
    · exact ⟨105, { hashBlock := 105 }, rfl, rfl, rfl⟩

/-- The best block is disconnected, the other one cannot be read, and the abort undoes it all. -/
theorem reorganize_spec_lost : ∃ r node',
    reorganize (sampleEnv [claimingCoinbase]) (fun _ => sampleCtx)
      forkNode.begun lostIndex = .error (r, node') ∧
    node'.txdb.txnAbort = forkNode.txdb := by
  have hbest : forkNode.mapBlockIndex tipIndex.hashBlock = some tipIndex := rfl
  have hnew : forkNode.mapBlockIndex lostIndex.hashBlock = some lostIndex := rfl
  obtain ⟨pfork, vDisconnect, vConnect, hbranches, -, -, -, herror⟩ :=
    reorganize_spec (sampleEnv [claimingCoinbase]) (fun _ => sampleCtx) indexTree_forkNode rfl rfl
      hbest hnew
  have heq : findBranches forkNode.mapBlockIndex tipIndex lostIndex = .ok ([120], [121]) := by decide
  obtain ⟨rfl, rfl⟩ := Prod.mk.inj (Except.ok.inj (heq.symm.trans hbranches))
  have hfails : (switchBranches (sampleEnv [claimingCoinbase]) (fun _ => sampleCtx)
      forkNode.begun [120] [121]).isOk = false := by decide
  cases hswitch : switchBranches (sampleEnv [claimingCoinbase]) (fun _ => sampleCtx)
      forkNode.begun [120] [121] with
  | ok result => rw [hswitch] at hfails; cases hfails
  | error e =>
    obtain ⟨hreorganize, habort, -⟩ := herror e.1 e.2 hswitch
    exact ⟨e.1, e.2, hreorganize, habort⟩

end Sphinx
